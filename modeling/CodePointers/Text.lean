/-!
Text as a list of characters, so that scanning and its laws follow the text. Offsets into a text
count the bytes of its UTF-8 form.
-/

namespace CodePointers

abbrev Text := List Char

def byteLength (text : Text) : Nat :=
  text.foldl (fun size char => size + char.utf8Size) 0

theorem foldl_utf8Size (text : Text) (size : Nat) :
    text.foldl (fun size char => size + char.utf8Size) size = size + byteLength text := by
  unfold byteLength
  induction text generalizing size with
  | nil => rfl
  | cons char rest ih =>
      rw [List.foldl_cons, List.foldl_cons, ih, ih (0 + char.utf8Size)]
      omega

@[simp] theorem byteLength_nil : byteLength [] = 0 := rfl

@[simp] theorem byteLength_cons (char : Char) (rest : Text) :
    byteLength (char :: rest) = char.utf8Size + byteLength rest := by
  rw [byteLength, List.foldl_cons, foldl_utf8Size, Nat.zero_add]

@[simp] theorem byteLength_append (left right : Text) :
    byteLength (left ++ right) = byteLength left + byteLength right := by
  rw [byteLength, List.foldl_append, foldl_utf8Size]
  rfl

def decimal (number : Nat) : Text := Nat.toDigits 10 number

def decimalValue (digits : Text) : Nat := Nat.ofDigitChars 10 digits 0

@[simp] theorem decimalValue_decimal (number : Nat) : decimalValue (decimal number) = number :=
  Nat.ofDigitChars_ten_toDigits

def occursIn (part : Text) : Text → Bool
  | [] => part.isEmpty
  | char :: rest => part.isPrefixOf (char :: rest) || occursIn part rest

def splitLast? (mark : Char) : Text → Option (Text × Text)
  | [] => none
  | char :: rest =>
      match splitLast? mark rest with
      | some (before, after) => some (char :: before, after)
      | none => if char = mark then some ([], rest) else none

def equalIgnoringCase (left right : Text) : Bool :=
  left.map Char.toLower == right.map Char.toLower

end CodePointers
