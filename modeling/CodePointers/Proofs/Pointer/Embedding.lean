import CodePointers.Proofs.Pointer.RoundTrip
import CodePointers.Proofs.Pointer.Tokenisation

/-!
A pointer that is written into a text. It is found there as it was written, and what stands before
and behind it is scanned as if it stood alone.
-/

namespace CodePointers

/-! Characters that no pointer reaches across. -/

def isInnerChar (char : Char) : Bool := isPathChar char || char == ':'

theorem isInnerChar_of_isModuleChar {char : Char} (isModule : isModuleChar char = true) :
    isInnerChar char = true := by
  simp [isInnerChar, isPathChar, isModule]

theorem isInnerChar_of_isDigit {char : Char} (isDigit : char.isDigit = true) :
    isInnerChar char = true := by
  refine isInnerChar_of_isModuleChar ?_
  simp [isModuleChar, Char.isAlphanum, isDigit]

theorem LineSuffix.isInnerChar_of_mem {suffix : LineSuffix} {char : Char}
    (member : char ∈ suffix.text) : isInnerChar char = true := by
  rw [text, List.mem_cons, List.mem_append] at member
  rcases member with rfl | inStart | inStop
  · rcases suffix.isLetter with isUpper | isLower
    · rw [isUpper]
      rfl
    · rw [isLower]
      rfl
  · exact isInnerChar_of_isDigit (suffix.isStart.all char inStart)
  · cases hasStop : suffix.stop? with
    | none =>
        rw [hasStop] at inStop
        cases inStop
    | some stop =>
        rw [hasStop, stopText, List.mem_cons] at inStop
        rcases inStop with rfl | inDigits
        · rfl
        · exact isInnerChar_of_isDigit ((suffix.isStop stop hasStop).all char inDigits)

theorem PointerShape.isInnerChar_of_mem {shape : PointerShape} {char : Char}
    (member : char ∈ shape.body) : isInnerChar char = true := by
  rw [body, location, List.mem_append, List.mem_append, List.mem_cons, List.mem_cons] at member
  rcases member with (inModule | rfl | inPath) | rfl | inSuffix
  · exact isInnerChar_of_isModuleChar (shape.isModule.all char inModule)
  · rfl
  · rw [isInnerChar, shape.isPath.all char inPath, Bool.true_or]
  · rfl
  · exact LineSuffix.isInnerChar_of_mem inSuffix

theorem IsPointerText.isInnerChar_of_mem {first : Char} {rest : Text}
    (isPointer : IsPointerText (first :: rest)) {char : Char} (member : char ∈ rest) :
    isInnerChar char = true := by
  obtain ⟨shape, isText⟩ := isPointer
  refine @PointerShape.isInnerChar_of_mem shape char ?_
  rw [PointerShape.text] at isText
  split at isText
  · rw [(List.cons.inj isText).2]
    exact member
  · rw [isText]
    exact List.mem_cons_of_mem first member

theorem IsPointerText.not_mem_newline {text : Text} (isPointer : IsPointerText text) :
    '\n' ∉ text := by
  obtain ⟨shape, rfl⟩ := isPointer
  have notInBody : '\n' ∉ shape.body := fun member => by
    cases PointerShape.isInnerChar_of_mem member
  rw [PointerShape.text]
  split
  · rw [List.mem_cons, not_or]
    exact ⟨by decide, notInBody⟩
  · exact notInBody

/-- Whether no pointer that begins before the text reaches into it. -/
def StandsApart (text : Text) : Prop := ∀ char, text.head? = some char → isInnerChar char = false

namespace Occurrence

theorem prefix_of_isPointerText {part before after : Text} (apart : StandsApart after)
    (isPointer : IsPointerText part) (isPrefix : part <+: before ++ after)
    (nonempty : before ≠ []) : part <+: before := by
  obtain ⟨rest, same⟩ := isPrefix
  rcases behind_or_before same with ⟨gap, isBefore, _⟩ | ⟨inner, some, rfl, rfl⟩
  · exact ⟨gap, isBefore.symm⟩
  · obtain ⟨first, more, rfl⟩ := List.exists_cons_of_ne_nil nonempty
    obtain ⟨next, later, rfl⟩ := List.exists_cons_of_ne_nil some
    rw [List.cons_append] at isPointer
    have isInner := isPointer.isInnerChar_of_mem (List.mem_append_right more List.mem_cons_self)
    rw [apart next rfl] at isInner
    cases isInner

theorem beginsPointer_of_append {before after : Text} (apart : StandsApart after)
    (nonempty : before ≠ []) (begins : BeginsPointer (before ++ after)) : BeginsPointer before := by
  obtain ⟨part, isPrefix, isPointer⟩ := begins
  exact ⟨part, prefix_of_isPointerText apart isPointer isPrefix nonempty, isPointer⟩

theorem Tokenises.append {offset line : Nat} {text after : Text}
    {occurrences later : List Occurrence} (tokenises : Tokenises offset line text occurrences)
    (apart : StandsApart after)
    (behind : Tokenises (offset + byteLength text) (line + text.count '\n') after later) :
    Tokenises offset line (text ++ after) (occurrences ++ later) := by
  induction tokenises with
  | stop none =>
      refine behind.passOver fun passed inner isSplit nonempty begins => ?_
      exact none passed inner isSplit (beginsPointer_of_append apart nonempty begins)
  | @next offset line text found before rest more between isPointer leftmost longest tokenises ih =>
      have start := between.start_eq
      have stop := between.stop_eq
      have isLine := between.line_eq
      have text_eq := between.text_eq
      have isOffset : offset + byteLength text = found.stop + byteLength rest := by
        rw [text_eq, byteLength_append, byteLength_append]
        omega
      have isLater : line + text.count '\n' =
          found.line + found.text.count '\n' + rest.count '\n' := by
        rw [text_eq, List.count_append, List.count_append]
        omega
      rw [isOffset, isLater] at behind
      have regroup (inner : Text) : inner ++ (found.text ++ (rest ++ after)) =
          inner ++ (found.text ++ rest) ++ after := by simp
      refine .next ⟨?_, start, stop, isLine, between.nonempty⟩ isPointer ?_ ?_ (ih behind)
      · rw [text_eq, List.append_assoc, List.append_assoc]
      · intro passed inner isSplit nonempty begins
        rw [regroup] at begins
        exact leftmost passed inner isSplit nonempty
          (beginsPointer_of_append apart (List.append_ne_nil_of_left_ne_nil nonempty _) begins)
      · intro part isPrefix isPart
        rw [← List.append_assoc] at isPrefix
        exact longest part (prefix_of_isPointerText apart isPart isPrefix
          (List.append_ne_nil_of_left_ne_nil between.nonempty _)) isPart

theorem Tokenises.cons {offset line : Nat} {part after : Text} {later : List Occurrence}
    (isPointer : IsPointerText part) (isLength : length? (part ++ after) = some part.length)
    (tokenises : Tokenises (offset + byteLength part) line after later) :
    Tokenises offset line (part ++ after)
      (⟨part, offset, offset + byteLength part, line⟩ :: later) := by
  have noFeed : part.count '\n' = 0 := List.count_eq_zero.mpr isPointer.not_mem_newline
  obtain ⟨longest, _, _, sameLength, _, isLongest⟩ := exists_longest_of_length? isLength
  have between : Between ⟨part, offset, offset + byteLength part, line⟩ offset line [] after
      (part ++ after) := ⟨rfl, rfl, rfl, rfl, isPointer.ne_nil⟩
  refine .next between isPointer ?_ ?_ ?_
  · intro passed rest isNil nonempty
    exact absurd (List.nil_eq_append_iff.mp isNil).2 nonempty
  · intro other isPrefix isOther
    exact sameLength ▸ isLongest other isPrefix isOther
  · rw [noFeed]
    exact tokenises

/-! Scanning from another place on. -/

def shift (bytes lines : Nat) (found : Occurrence) : Occurrence :=
  { found with
    start := found.start + bytes
    stop := found.stop + bytes
    line := found.line + lines }

theorem scanFrom_add (pending offset line bytes lines : Nat) (text : Text) :
    scanFrom pending (offset + bytes) (line + lines) text =
      (scanFrom pending offset line text).map (shift bytes lines) := by
  induction text generalizing pending offset line with
  | nil => rfl
  | cons char rest ih =>
      have isLine : lineAfter (line + lines) char = lineAfter line char + lines := by
        unfold lineAfter
        split <;> omega
      have isOffset : offset + bytes + char.utf8Size = offset + char.utf8Size + bytes := by omega
      cases pending with
      | succ pending => rw [scanFrom, scanFrom, isOffset, isLine, ih]
      | zero =>
          rw [scanFrom, scanFrom]
          simp only [isOffset, isLine, ih]
          split
          · rw [List.map_cons, shift, Nat.add_right_comm]
          · rfl

theorem findAll_append (before : Text) {after : Text} (apart : StandsApart after) :
    findAll (before ++ after) =
      findAll before ++ (findAll after).map (shift (byteLength before) (before.count '\n')) := by
  have behind := tokenises_scanFrom (0 + byteLength before) (1 + before.count '\n') after
  rw [scanFrom_add] at behind
  exact (tokenises_scanFrom 0 1 _).unique ((tokenises_scanFrom 0 1 before).append apart behind)

theorem findAll_newline (rest : Text) : findAll ('\n' :: rest) = (findAll rest).map (shift 1 1) :=
  scanFrom_add 0 0 1 1 1 rest

theorem map_shift_map_shift (bytes lines more others : Nat) (found : List Occurrence) :
    (found.map (shift more others)).map (shift bytes lines) =
      found.map (shift (bytes + more) (lines + others)) := by
  rw [List.map_map]
  refine List.map_congr_left fun found _ => ?_
  simp only [Function.comp_apply, shift, Nat.add_assoc, Nat.add_comm more, Nat.add_comm others]

theorem findAll_append_newline (line rest : Text) :
    findAll (line ++ '\n' :: rest) =
      findAll line ++ (findAll rest).map (shift (byteLength line + 1) (line.count '\n' + 1)) := by
  have apart : StandsApart ('\n' :: rest) := fun char isHead => by
    cases isHead
    rfl
  rw [findAll_append line apart, findAll_newline, map_shift_map_shift]

/-! Where a pointer ends. -/

structure EndsBefore (suffix : LineSuffix) (after : Text) : Prop where
  noDigit : after.takeWhile Char.isDigit = []
  noStop : suffix.stop? = none → lastLineLength after = 0

theorem takeWhile_run_append {isKind : Char → Bool} {run after : Text} (isRun : IsRun isKind run)
    (ends : after.takeWhile isKind = []) : (run ++ after).takeWhile isKind = run := by
  rw [List.takeWhile_append_of_pos isRun.all, ends, List.append_nil]

theorem suffixLength?_of_endsBefore {suffix : LineSuffix} {after : Text}
    (ends : EndsBefore suffix after) :
    suffixLength? (':' :: (suffix.text ++ after)) = some (suffix.text.length + 1) := by
  have some := suffix.isStart.length_ne_zero
  rw [LineSuffix.text, List.cons_append, suffixLength?, if_pos suffix.isLetter]
  dsimp only
  cases hasStop : suffix.stop? with
  | none =>
      rw [LineSuffix.stopText, List.append_nil, takeWhile_run_append suffix.isStart ends.noDigit,
        if_neg some, List.drop_left, ends.noStop hasStop, List.length_cons]
      congr 1
      omega
  | some stop =>
      have isStop := suffix.isStop stop hasStop
      have someStop := isStop.length_ne_zero
      rw [LineSuffix.stopText, List.append_assoc, List.cons_append,
        takeWhile_eq_of_isRun suffix.isStart rfl, if_neg some, List.drop_left, lastLineLength,
        takeWhile_run_append isStop ends.noDigit, if_neg someStop]
      simp only [List.length_cons, List.length_append]
      congr 1
      omega

theorem length?_of_endsBefore {shape : PointerShape} {after : Text}
    (ends : EndsBefore shape.suffix after) :
    length? (shape.text ++ after) = some shape.text.length := by
  have isText : shape.body ++ after = shape.moduleName ++ '/' :: (shape.relativePath ++
      ':' :: (shape.suffix.text ++ after)) := by
    simp [PointerShape.body, PointerShape.location]
  have isPath : (shape.relativePath ++ ':' :: (shape.suffix.text ++ after)).takeWhile isPathChar =
      shape.relativePath := takeWhile_eq_of_isRun shape.isPath rfl _
  have isBody : bodyLength? (shape.body ++ after) = some shape.body.length := by
    rw [isText, bodyLength?]
    simp only [takeWhile_eq_of_isRun shape.isModule (show isModuleChar '/' = false from rfl),
      isPath, shape.isModule.length_ne_zero, shape.isPath.length_ne_zero, if_false,
      List.drop_left, suffixLength?_of_endsBefore ends, Option.map_some]
    simp only [PointerShape.body, PointerShape.location, List.length_append, List.length_cons]
    congr 1
    omega
  rw [PointerShape.text]
  split
  · rw [List.cons_append, length?, isBody]
    rfl
  · rw [length?_body, isBody]

/-! Pointers as they are written. -/

def writtenShape {moduleName relativePath : Text} (isModule : IsRun isModuleChar moduleName)
    (isPath : IsRun isPathChar relativePath) (first last : Nat) : PointerShape :=
  { marked := true, moduleName, relativePath, suffix := .ofLines first last, isModule, isPath }

theorem text_writtenShape {moduleName relativePath : Text}
    (isModule : IsRun isModuleChar moduleName) (isPath : IsRun isPathChar relativePath)
    (first last : Nat) :
    (writtenShape isModule isPath first last).text =
      Pointer.render moduleName relativePath first last := by
  rw [Pointer.render, ← LineSuffix.text_ofLines]
  simp [writtenShape, PointerShape.text, PointerShape.body, PointerShape.location]

theorem endsBefore_ofLines {first last : Nat} {after : Text}
    (noDigit : ∀ char rest, after = char :: rest → char.isDigit = false)
    (noRange : first = last → ∀ char rest, after = '-' :: char :: rest → char.isDigit = false) :
    EndsBefore (.ofLines first last) after where
  noDigit := by
    cases after with
    | nil => rfl
    | cons char rest => rw [List.takeWhile_cons_of_neg (by simp [noDigit char rest rfl])]
  noStop isSingle := by
    have same : first = last := by simpa [LineSuffix.ofLines] using isSingle
    unfold lastLineLength
    split
    · next rest =>
      cases rest with
      | nil => rfl
      | cons char rest =>
          rw [List.takeWhile_cons_of_neg (by simp [noRange same char rest rfl])]
          rfl
    · rfl

/-- A written pointer that stands in a text, with no digit behind that would be read as one of its
own, is found where it stands and as long as it is. What is found in front of it and behind it is
what those texts have on their own. -/
theorem findAll_around_pointer {moduleName relativePath : Text}
    (isModule : IsRun isModuleChar moduleName) (isPath : IsRun isPathChar relativePath)
    (first last : Nat) (before after : Text)
    (noDigit : ∀ char rest, after = char :: rest → char.isDigit = false)
    (noRange : first = last → ∀ char rest, after = '-' :: char :: rest → char.isDigit = false) :
    let pointer := Pointer.render moduleName relativePath first last
    findAll (before ++ pointer ++ after) =
      findAll before ++
        { text := pointer
          start := byteLength before
          stop := byteLength before + byteLength pointer
          line := 1 + before.count '\n' } ::
        (findAll after).map
          (shift (byteLength before + byteLength pointer) (before.count '\n')) := by
  intro pointer
  let shape := writtenShape isModule isPath first last
  have isText : shape.text = pointer := text_writtenShape isModule isPath first last
  have isPointer : IsPointerText pointer := ⟨shape, isText⟩
  have isLength : length? (pointer ++ after) = some pointer.length :=
    isText ▸ length?_of_endsBefore (endsBefore_ofLines noDigit noRange)
  have behind := tokenises_scanFrom (0 + (byteLength before + byteLength pointer))
    (1 + before.count '\n') after
  rw [scanFrom_add, ← Nat.add_assoc] at behind
  have apart : StandsApart (pointer ++ after) := fun char isHead => by
    cases isHead
    rfl
  have whole := (tokenises_scanFrom 0 1 before).append apart (behind.cons isPointer isLength)
  rw [Nat.zero_add, ← List.append_assoc] at whole
  exact (tokenises_scanFrom 0 1 _).unique whole

/-- Another pointer stands directly in front of a written one, and behind its two numbers a third
one with a dash. -/
theorem findAll_around_marked_range :
    let pointer := Pointer.render "m".toList "x.rs".toList 1 2
    IsRun isModuleChar "m".toList ∧ IsRun isPathChar "x.rs".toList ∧
      findAll ("é\na/b:L1".toList ++ pointer ++ "-7 n/y:L3".toList) =
        findAll "é\na/b:L1".toList ++ ⟨pointer, 9, 21, 2⟩ ::
          (findAll "-7 n/y:L3".toList).map (shift 21 1) := by
  intro pointer
  have isModule : IsRun isModuleChar "m".toList :=
    ⟨by decide, List.all_eq_true.mp (by decide)⟩
  have isPath : IsRun isPathChar "x.rs".toList :=
    ⟨by decide, List.all_eq_true.mp (by decide)⟩
  refine ⟨isModule, isPath, findAll_around_pointer isModule isPath 1 2 _ _ ?_ nofun⟩
  rintro char rest isAfter
  cases isAfter
  rfl

end Occurrence

end CodePointers
