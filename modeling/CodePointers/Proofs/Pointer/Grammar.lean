import CodePointers.Pointer.Scan

/-!
The grammar of pointers in a text, and the length that the scanner computes: the longest pointer
that begins at a place, if any does.
-/

namespace CodePointers

structure IsRun (isKind : Char → Bool) (run : Text) : Prop where
  nonempty : run ≠ []
  all : ∀ char ∈ run, isKind char = true

/-- What follows a pointer's colon. The optional second number comes without its dash. -/
structure LineSuffix where
  letter : Char
  start : Text
  stop? : Option Text
  isLetter : letter = 'L' ∨ letter = 'l'
  isStart : IsRun Char.isDigit start
  isStop : ∀ stop, stop? = some stop → IsRun Char.isDigit stop

namespace LineSuffix

theorem ext {left right : LineSuffix} (letter : left.letter = right.letter)
    (start : left.start = right.start) (stop : left.stop? = right.stop?) : left = right := by
  obtain ⟨_, _, _, _, _, _⟩ := left
  obtain ⟨_, _, _, _, _, _⟩ := right
  simp_all

def stopText : Option Text → Text
  | none => []
  | some stop => '-' :: stop

def text (suffix : LineSuffix) : Text :=
  suffix.letter :: (suffix.start ++ stopText suffix.stop?)

end LineSuffix

structure PointerShape where
  marked : Bool
  moduleName : Text
  relativePath : Text
  suffix : LineSuffix
  isModule : IsRun isModuleChar moduleName
  isPath : IsRun isPathChar relativePath

namespace PointerShape

def location (shape : PointerShape) : Text := shape.moduleName ++ '/' :: shape.relativePath

def body (shape : PointerShape) : Text := shape.location ++ ':' :: shape.suffix.text

def text (shape : PointerShape) : Text := if shape.marked then '@' :: shape.body else shape.body

theorem exists_body (shape : PointerShape) :
    ∃ char rest, shape.body = char :: rest ∧ char ≠ '@' := by
  obtain ⟨char, name, isName⟩ := List.exists_cons_of_ne_nil shape.isModule.nonempty
  have isModule := shape.isModule.all char (isName ▸ List.mem_cons_self)
  refine ⟨char, _, by rw [body, location, isName, List.cons_append, List.cons_append], ?_⟩
  rintro rfl
  cases isModule

end PointerShape

def IsPointerText (text : Text) : Prop := ∃ shape : PointerShape, shape.text = text

def BeginsPointer (text : Text) : Prop := ∃ part, part <+: text ∧ IsPointerText part

/-! Runs. -/

theorem takeWhile_eq_of_isRun {isKind : Char → Bool} {run : Text} (isRun : IsRun isKind run)
    {next : Char} (stops : isKind next = false) (rest : Text) :
    (run ++ next :: rest).takeWhile isKind = run := by
  rw [List.takeWhile_append_of_pos isRun.all, List.takeWhile_cons_of_neg (by simp [stops]),
    List.append_nil]

theorem length_le_takeWhile {isKind : Char → Bool} {run : Text} (isRun : IsRun isKind run)
    (rest : Text) : run.length ≤ ((run ++ rest).takeWhile isKind).length := by
  rw [List.takeWhile_append_of_pos isRun.all, List.length_append]
  exact Nat.le_add_right _ _

theorem takeWhile_append_drop (isKind : Char → Bool) (text : Text) :
    text.takeWhile isKind ++ text.drop (text.takeWhile isKind).length = text := by
  have split : text.takeWhile isKind ++ text.dropWhile isKind = text :=
    List.takeWhile_append_dropWhile
  have isRest : text.drop (text.takeWhile isKind).length = text.dropWhile isKind :=
    (congrArg (List.drop (text.takeWhile isKind).length) split.symm).trans List.drop_left
  rw [isRest, split]

theorem isRun_takeWhile {isKind : Char → Bool} {text : Text}
    (nonempty : (text.takeWhile isKind).length ≠ 0) : IsRun isKind (text.takeWhile isKind) where
  nonempty := List.ne_nil_of_length_pos (Nat.pos_of_ne_zero nonempty)
  all := List.all_eq_true.mp List.all_takeWhile

theorem IsRun.length_ne_zero {isKind : Char → Bool} {run : Text} (isRun : IsRun isKind run) :
    run.length ≠ 0 := fun empty => isRun.nonempty (List.eq_nil_of_length_eq_zero empty)

namespace Occurrence

/-! A pointer at the head of a text has a length, no shorter than itself. -/

theorem lastLineLength_of_stop {stop : Text} (isStop : IsRun Char.isDigit stop) (rest : Text) :
    stop.length + 1 ≤ lastLineLength ('-' :: (stop ++ rest)) := by
  have bound := length_le_takeWhile isStop rest
  have := isStop.length_ne_zero
  rw [lastLineLength, if_neg (by omega)]
  omega

theorem suffixLength?_of_suffix (suffix : LineSuffix) (rest : Text) :
    ∃ length, suffixLength? (':' :: (suffix.text ++ rest)) = some length ∧
      suffix.text.length + 1 ≤ length := by
  have := suffix.isStart.length_ne_zero
  rw [LineSuffix.text, List.cons_append, suffixLength?]
  rw [if_pos suffix.isLetter]
  dsimp only
  cases hasStop : suffix.stop? with
  | none =>
      have bound := length_le_takeWhile suffix.isStart rest
      rw [LineSuffix.stopText, List.append_nil, if_neg (by omega)]
      exact ⟨_, rfl, by rw [List.length_cons]; omega⟩
  | some stop =>
      have bound := lastLineLength_of_stop (suffix.isStop stop hasStop) rest
      rw [LineSuffix.stopText, List.append_assoc, List.cons_append,
        takeWhile_eq_of_isRun suffix.isStart rfl, if_neg this, List.drop_left]
      exact ⟨_, rfl, by simp only [List.length_cons, List.length_append]; omega⟩

theorem bodyLength?_of_shape (shape : PointerShape) (rest : Text) :
    ∃ length, bodyLength? (shape.body ++ rest) = some length ∧ shape.body.length ≤ length := by
  obtain ⟨length, isLength, bound⟩ := suffixLength?_of_suffix shape.suffix rest
  have isText : shape.body ++ rest = shape.moduleName ++ '/' :: (shape.relativePath ++
      ':' :: (shape.suffix.text ++ rest)) := by
    simp [PointerShape.body, PointerShape.location]
  have isPath : (shape.relativePath ++ ':' :: (shape.suffix.text ++ rest)).takeWhile isPathChar =
      shape.relativePath := takeWhile_eq_of_isRun shape.isPath rfl _
  rw [isText, bodyLength?]
  simp only [takeWhile_eq_of_isRun shape.isModule (show isModuleChar '/' = false from rfl), isPath,
    shape.isModule.length_ne_zero, shape.isPath.length_ne_zero, if_false, List.drop_left, isLength]
  refine ⟨_, rfl, ?_⟩
  simp only [PointerShape.body, PointerShape.location, List.length_append, List.length_cons]
  omega

theorem length?_body (shape : PointerShape) (rest : Text) :
    length? (shape.body ++ rest) = bodyLength? (shape.body ++ rest) := by
  obtain ⟨char, later, isBody, unmarked⟩ := shape.exists_body
  unfold length?
  split
  · next isMarked =>
    rw [isBody] at isMarked
    exact absurd (List.cons.inj isMarked).1 unmarked
  · rfl

theorem length?_of_shape (shape : PointerShape) (rest : Text) :
    ∃ length, length? (shape.text ++ rest) = some length ∧ shape.text.length ≤ length := by
  obtain ⟨length, isLength, bound⟩ := bodyLength?_of_shape shape rest
  rw [PointerShape.text]
  split
  · refine ⟨length + 1, ?_, Nat.succ_le_succ bound⟩
    rw [List.cons_append, length?, isLength]
    rfl
  · exact ⟨length, (length?_body shape rest).trans isLength, bound⟩

/-! The length that is found is the length of a pointer. -/

theorem exists_stop (text : Text) :
    ∃ stop? after, text = LineSuffix.stopText stop? ++ after ∧
      (LineSuffix.stopText stop?).length = lastLineLength text ∧
      ∀ stop, stop? = some stop → IsRun Char.isDigit stop := by
  unfold lastLineLength
  split
  · next rest =>
    dsimp only
    split
    · exact ⟨none, _, rfl, rfl, by simp⟩
    · next someDigit =>
      refine ⟨some (rest.takeWhile Char.isDigit), rest.drop (rest.takeWhile Char.isDigit).length,
        ?_, rfl, ?_⟩
      · exact congrArg ('-' :: ·) (takeWhile_append_drop Char.isDigit rest).symm
      · intro stop isStop
        rw [← Option.some.inj isStop]
        exact isRun_takeWhile someDigit
  · exact ⟨none, _, rfl, rfl, by simp⟩

theorem exists_suffix_of_suffixLength? {text : Text} {length : Nat}
    (found : suffixLength? text = some length) :
    ∃ (suffix : LineSuffix) (after : Text), text = ':' :: (suffix.text ++ after) ∧
      suffix.text.length + 1 = length := by
  unfold suffixLength? at found
  split at found
  next letter digits =>
    split at found
    next isLetter =>
      dsimp only at found
      split at found
      · cases found
      next someDigit =>
      obtain ⟨stop?, after, isAfter, isLast, isStop⟩ :=
        exists_stop (digits.drop (digits.takeWhile Char.isDigit).length)
      let suffix : LineSuffix :=
        { letter, start := digits.takeWhile Char.isDigit, stop?, isLetter
          isStart := isRun_takeWhile someDigit, isStop }
      have isDigits := takeWhile_append_drop Char.isDigit digits
      rw [isAfter, ← List.append_assoc] at isDigits
      refine ⟨suffix, after, ?_, ?_⟩
      · exact congrArg (fun rest => ':' :: letter :: rest) isDigits.symm
      · rw [← Option.some.inj found, ← isLast, LineSuffix.text, List.length_cons,
          List.length_append]
        dsimp only [suffix]
        omega
    · cases found
  · cases found

theorem exists_shape_of_bodyLength? {text : Text} {length : Nat}
    (found : bodyLength? text = some length) :
    ∃ (shape : PointerShape) (after : Text), text = shape.body ++ after ∧
      shape.body.length = length := by
  unfold bodyLength? at found
  dsimp only at found
  split at found
  · cases found
  next someModule =>
  split at found
  next rest isSlash =>
    split at found
    · cases found
    next somePath =>
    obtain ⟨suffixLength, isSuffix, rfl⟩ := Option.map_eq_some_iff.mp found
    obtain ⟨suffix, after, isRest, rfl⟩ := exists_suffix_of_suffixLength? isSuffix
    let shape : PointerShape :=
      { marked := false, moduleName := text.takeWhile isModuleChar
        relativePath := rest.takeWhile isPathChar, suffix
        isModule := isRun_takeWhile someModule, isPath := isRun_takeWhile somePath }
    refine ⟨shape, after, ?_, ?_⟩
    · calc text
        _ = text.takeWhile isModuleChar ++ '/' :: rest := by
          rw [← isSlash, takeWhile_append_drop]
        _ = text.takeWhile isModuleChar ++ '/' ::
              (rest.takeWhile isPathChar ++ ':' :: (suffix.text ++ after)) := by
          rw [← isRest, takeWhile_append_drop]
        _ = shape.body ++ after := by simp [shape, PointerShape.body, PointerShape.location]
    · simp only [shape, PointerShape.body, PointerShape.location, List.length_append,
        List.length_cons]
      omega
  · cases found

theorem exists_shape_of_length? {text : Text} {length : Nat} (found : length? text = some length) :
    ∃ (shape : PointerShape) (after : Text), text = shape.text ++ after ∧
      shape.text.length = length := by
  unfold length? at found
  split at found
  · next body =>
    obtain ⟨count, isBody, rfl⟩ := Option.map_eq_some_iff.mp found
    obtain ⟨shape, after, rfl, isLength⟩ := exists_shape_of_bodyLength? isBody
    exact ⟨{ shape with marked := true }, after, rfl, congrArg (· + 1) isLength⟩
  · obtain ⟨shape, after, rfl, isLength⟩ := exists_shape_of_bodyLength? found
    exact ⟨{ shape with marked := false }, after, rfl, isLength⟩

theorem exists_longest_of_length? {text : Text} {length : Nat}
    (found : length? text = some length) :
    ∃ part after, text = part ++ after ∧ part.length = length ∧ IsPointerText part ∧
      ∀ other, other <+: text → IsPointerText other → other.length ≤ part.length := by
  obtain ⟨shape, after, isText, isLength⟩ := exists_shape_of_length? found
  refine ⟨shape.text, after, isText, isLength, ⟨shape, rfl⟩, ?_⟩
  rintro other ⟨rest, rfl⟩ ⟨otherShape, rfl⟩
  obtain ⟨longest, isLongest, bound⟩ := length?_of_shape otherShape rest
  rw [found] at isLongest
  rw [isLength, Option.some.inj isLongest]
  exact bound

theorem beginsPointer_iff {text : Text} : BeginsPointer text ↔ (length? text).isSome := by
  constructor
  · rintro ⟨_, ⟨rest, rfl⟩, shape, rfl⟩
    obtain ⟨length, isLength, _⟩ := length?_of_shape shape rest
    rw [isLength]
    rfl
  · intro found
    obtain ⟨length, isLength⟩ := Option.isSome_iff_exists.mp found
    obtain ⟨shape, after, isText, _⟩ := exists_shape_of_length? isLength
    exact ⟨shape.text, ⟨after, isText.symm⟩, shape, rfl⟩

end Occurrence

end CodePointers
