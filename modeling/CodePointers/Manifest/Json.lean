import CodePointers.Text

/-!
Reading JSON as far as a manifest needs it. Numbers and literals are checked but not kept, and a
string is kept when its escapes spell characters; a lone half of a surrogate pair spells none.
-/

namespace CodePointers

inductive JsonValue where
  | atom
  | string (text : Option Text)
  | array (items : List JsonValue)
  | object (members : List (Option Text × JsonValue))

namespace JsonValue

def isBlank (char : Char) : Bool :=
  char == ' ' || char == '\t' || char == '\n' || char == '\r'

def skipBlank (text : Text) : Text := text.dropWhile isBlank

/-- One character of a string as it is written, or half of a surrogate pair. -/
inductive StringUnit where
  | char (char : Char)
  | surrogate (code : Nat)

def hexValue? (char : Char) : Option Nat :=
  if char.isDigit then some (char.toNat - '0'.toNat)
  else if 'a' ≤ char ∧ char ≤ 'f' then some (char.toNat - 'a'.toNat + 10)
  else if 'A' ≤ char ∧ char ≤ 'F' then some (char.toNat - 'A'.toNat + 10)
  else none

def hexCode? (digits : List Char) : Option Nat :=
  digits.foldlM (fun code digit => (hexValue? digit).map (16 * code + ·)) 0

def unitOfCode (code : Nat) : StringUnit :=
  if 0xD800 ≤ code ∧ code ≤ 0xDFFF then .surrogate code else .char (Char.ofNat code)

def simpleEscape? : Char → Option Char
  | '"' => some '"'
  | '\\' => some '\\'
  | '/' => some '/'
  | 'b' => some '\x08'
  | 'f' => some '\x0c'
  | 'n' => some '\n'
  | 'r' => some '\r'
  | 't' => some '\t'
  | _ => none

def readUnits? : Text → Option (List StringUnit × Text)
  | [] => none
  | '"' :: rest => some ([], rest)
  | '\\' :: 'u' :: first :: second :: third :: fourth :: rest => do
      let code ← hexCode? [first, second, third, fourth]
      let (units, after) ← readUnits? rest
      return (unitOfCode code :: units, after)
  | '\\' :: letter :: rest => do
      let char ← simpleEscape? letter
      let (units, after) ← readUnits? rest
      return (.char char :: units, after)
  | char :: rest =>
      if char.toNat < 0x20 ∨ char = '\\' then none
      else (readUnits? rest).map fun (units, after) => (.char char :: units, after)

def joinSurrogates (high low : Nat) : Char :=
  Char.ofNat (0x10000 + (high - 0xD800) * 0x400 + (low - 0xDC00))

def spell? : List StringUnit → Option Text
  | [] => some []
  | .char char :: rest => (spell? rest).map (char :: ·)
  | .surrogate high :: .surrogate low :: rest =>
      if high < 0xDC00 ∧ 0xDC00 ≤ low then (spell? rest).map (joinSurrogates high low :: ·)
      else none
  | .surrogate _ :: _ => none

def readString? (text : Text) : Option (Option Text × Text) :=
  (readUnits? text).map fun (units, rest) => (spell? units, rest)

def skipDigits? : Text → Option Text
  | [] => none
  | char :: rest => if char.isDigit then some (rest.dropWhile Char.isDigit) else none

def skipInteger? : Text → Option Text
  | '0' :: rest => some rest
  | text => skipDigits? text

def skipFraction? : Text → Option Text
  | '.' :: rest => skipDigits? rest
  | text => some text

def skipExponent? : Text → Option Text
  | 'e' :: '+' :: rest | 'e' :: '-' :: rest | 'E' :: '+' :: rest | 'E' :: '-' :: rest =>
      skipDigits? rest
  | 'e' :: rest | 'E' :: rest => skipDigits? rest
  | text => some text

def skipNumber? (text : Text) : Option Text :=
  let digits := match text with
    | '-' :: rest => rest
    | _ => text
  ((skipInteger? digits).bind skipFraction?).bind skipExponent?

def skipWord? (word : String) (text : Text) : Option Text :=
  if word.toList.isPrefixOf text then some (text.drop word.length) else none

mutual

/-- Reads one value; each level of the value costs fuel. -/
def read? : Nat → Text → Option (JsonValue × Text)
  | 0, _ => none
  | fuel + 1, text =>
      match skipBlank text with
      | '"' :: rest => (readString? rest).map fun (content, after) => (.string content, after)
      | '[' :: rest =>
          match skipBlank rest with
          | ']' :: after => some (.array [], after)
          | _ => (readItems? fuel rest).map fun (items, after) => (.array items, after)
      | '{' :: rest =>
          match skipBlank rest with
          | '}' :: after => some (.object [], after)
          | _ => (readMembers? fuel rest).map fun (members, after) => (.object members, after)
      | 'n' :: rest => (skipWord? "ull" rest).map (.atom, ·)
      | 't' :: rest => (skipWord? "rue" rest).map (.atom, ·)
      | 'f' :: rest => (skipWord? "alse" rest).map (.atom, ·)
      | rest => (skipNumber? rest).map (.atom, ·)

def readItems? : Nat → Text → Option (List JsonValue × Text)
  | 0, _ => none
  | fuel + 1, text => do
      let (item, rest) ← read? fuel text
      match skipBlank rest with
      | ']' :: after => return ([item], after)
      | ',' :: more =>
          let (items, after) ← readItems? fuel more
          return (item :: items, after)
      | _ => none

def readMembers? : Nat → Text → Option (List (Option Text × JsonValue) × Text)
  | 0, _ => none
  | fuel + 1, text => do
      let '"' :: quoted := skipBlank text | none
      let (key, rest) ← readString? quoted
      let ':' :: written := skipBlank rest | none
      let (value, rest) ← read? fuel written
      match skipBlank rest with
      | '}' :: after => return ([(key, value)], after)
      | ',' :: more =>
          let (members, after) ← readMembers? fuel more
          return ((key, value) :: members, after)
      | _ => none

end

/-- Reads a whole text as one value. Two steps of fuel per character are enough. -/
def ofText? (text : Text) : Option JsonValue := do
  let (value, rest) ← read? (2 * text.length + 2) text
  if skipBlank rest = [] then some value else none

end JsonValue

end CodePointers
