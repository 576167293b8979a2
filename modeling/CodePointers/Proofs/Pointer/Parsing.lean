import CodePointers.Proofs.Pointer.Grammar

/-!
Reading a single pointer: it is cut at its last colon, where the line suffix begins, and at the
first slash before that.
-/

namespace CodePointers

/-! Cutting at the last occurrence of a character. -/

theorem splitLast?_eq_some {mark : Char} {text before after : Text}
    (split : splitLast? mark text = some (before, after)) : text = before ++ mark :: after := by
  induction text generalizing before with
  | nil => cases split
  | cons char rest ih =>
      rw [splitLast?] at split
      cases inRest : splitLast? mark rest with
      | some parts =>
          rw [inRest] at split
          cases split
          rw [ih inRest, List.cons_append]
      | none =>
          rw [inRest] at split
          dsimp only at split
          split at split
          · next isMark =>
            cases split
            rw [isMark, List.nil_append]
          · cases split

theorem splitLast?_eq_none {mark : Char} {text : Text} (absent : mark ∉ text) :
    splitLast? mark text = none := by
  induction text with
  | nil => rfl
  | cons char rest ih =>
      rw [List.mem_cons, not_or] at absent
      rw [splitLast?, ih absent.2]
      exact if_neg (Ne.symm absent.1)

theorem splitLast?_append (before : Text) {mark : Char} {after : Text} (absent : mark ∉ after) :
    splitLast? mark (before ++ mark :: after) = some (before, after) := by
  induction before with
  | nil =>
      rw [List.nil_append, splitLast?, splitLast?_eq_none absent]
      exact if_pos rfl
  | cons char rest ih => rw [List.cons_append, splitLast?, ih]

/-! The line suffix. -/

theorem IsRun.not_mem {isKind : Char → Bool} {run : Text} (isRun : IsRun isKind run) {char : Char}
    (other : isKind char = false) : char ∉ run := fun member => by
  rw [isRun.all char member] at other
  cases other

namespace LineSuffix

def first (suffix : LineSuffix) : Nat := decimalValue suffix.start

def last (suffix : LineSuffix) : Nat := (suffix.stop?.map decimalValue).getD suffix.first

theorem not_mem_stopText (suffix : LineSuffix) : ':' ∉ stopText suffix.stop? := by
  cases hasStop : suffix.stop? with
  | none => exact List.not_mem_nil
  | some stop =>
      rw [stopText, List.mem_cons, not_or]
      exact ⟨by decide, (suffix.isStop stop hasStop).not_mem rfl⟩

theorem not_mem_text (suffix : LineSuffix) : ':' ∉ suffix.text := by
  rw [text, List.mem_cons, List.mem_append, not_or, not_or]
  refine ⟨fun isLetter => ?_, suffix.isStart.not_mem rfl, suffix.not_mem_stopText⟩
  rcases suffix.isLetter with upper | lower
  · rw [← isLetter] at upper
    cases upper
  · rw [← isLetter] at lower
    cases lower

theorem takeWhile_stopText (stop? : Option Text) :
    (stopText stop?).takeWhile Char.isDigit = [] := by
  cases stop? <;> rfl

theorem dropWhile_stopText (stop? : Option Text) :
    (stopText stop?).dropWhile Char.isDigit = stopText stop? := by
  cases stop? <;> rfl

end LineSuffix

namespace Pointer

theorem lineDigits?_text (suffix : LineSuffix) :
    lineDigits? suffix.text = some (suffix.start, suffix.stop?) := by
  rw [LineSuffix.text, lineDigits?, if_pos suffix.isLetter]
  rw [List.takeWhile_append_of_pos suffix.isStart.all, LineSuffix.takeWhile_stopText,
    List.dropWhile_append_of_pos suffix.isStart.all, LineSuffix.dropWhile_stopText, List.append_nil]
  dsimp only
  rw [if_neg suffix.isStart.nonempty]
  cases hasStop : suffix.stop? with
  | none => rfl
  | some stop =>
      have isStop := suffix.isStop stop hasStop
      exact if_pos ⟨isStop.nonempty, List.all_eq_true.mpr isStop.all⟩

theorem exists_suffix_of_lineDigits? {text start : Text} {stop? : Option Text}
    (found : lineDigits? text = some (start, stop?)) :
    ∃ suffix : LineSuffix, suffix.text = text ∧ suffix.start = start ∧ suffix.stop? = stop? := by
  cases text with
  | nil => cases found
  | cons letter rest =>
      rw [lineDigits?] at found
      split at found
      next isLetter =>
        dsimp only at found
        split at found
        · cases found
        next nonempty =>
        have isStart : IsRun Char.isDigit (rest.takeWhile Char.isDigit) :=
          ⟨nonempty, List.all_eq_true.mp List.all_takeWhile⟩
        have isRest : rest.takeWhile Char.isDigit ++ rest.dropWhile Char.isDigit = rest :=
          List.takeWhile_append_dropWhile
        split at found
        · next isEnd =>
          cases found
          rw [isEnd] at isRest
          exact ⟨⟨letter, _, none, isLetter, isStart, by simp⟩, congrArg _ isRest, rfl, rfl⟩
        · next stop isDash =>
          split at found
          · next isStop =>
            cases found
            rw [isDash] at isRest
            refine ⟨⟨letter, _, some stop, isLetter, isStart, ?_⟩, congrArg _ isRest, rfl, rfl⟩
            intro other isOther
            rw [← Option.some.inj isOther]
            exact ⟨isStop.1, List.all_eq_true.mp isStop.2⟩
          · cases found
        · cases found
      next => cases found

theorem splitSuffix?_append (location : Text) (suffix : LineSuffix) :
    splitSuffix? (location ++ ':' :: suffix.text) =
      some (location, suffix.start, suffix.stop?) := by
  rw [splitSuffix?, splitLast?_append location suffix.not_mem_text]
  dsimp only [Option.bind_eq_bind, Option.bind_some]
  rw [lineDigits?_text]
  rfl

theorem eq_of_suffixed {location other : Text} {suffix otherSuffix : LineSuffix}
    (same : location ++ ':' :: suffix.text = other ++ ':' :: otherSuffix.text) :
    location = other ∧ suffix = otherSuffix := by
  have sameSplit := congrArg splitSuffix? same
  rw [splitSuffix?_append, splitSuffix?_append, Option.some.injEq, Prod.mk.injEq,
    Prod.mk.injEq] at sameSplit
  obtain ⟨rfl, sameStart, sameStop⟩ := sameSplit
  rw [List.append_cancel_left_eq, List.cons.injEq] at same
  have sameLetter := (List.cons.inj same.2).1
  exact ⟨rfl, LineSuffix.ext sameLetter sameStart sameStop⟩

theorem exists_suffix_of_splitSuffix? {body location start : Text} {stop? : Option Text}
    (split : splitSuffix? body = some (location, start, stop?)) :
    ∃ suffix : LineSuffix, body = location ++ ':' :: suffix.text := by
  obtain ⟨⟨before, after⟩, isSplit, rest⟩ := Option.bind_eq_some_iff.mp split
  obtain ⟨digits, isDigits, same⟩ := Option.bind_eq_some_iff.mp rest
  cases same
  obtain ⟨suffix, isText, _⟩ := exists_suffix_of_lineDigits? isDigits
  exact ⟨suffix, isText ▸ splitLast?_eq_some isSplit⟩

/-! The location. -/

theorem splitLocation_append {moduleName : Text} (noSlash : '/' ∉ moduleName)
    (relativePath : Text) :
    splitLocation (moduleName ++ '/' :: relativePath) = (moduleName, relativePath) := by
  have isName : ∀ char ∈ moduleName, decide (char ≠ '/') = true := fun char member =>
    decide_eq_true fun isSlash => noSlash (isSlash ▸ member)
  rw [splitLocation, List.takeWhile_append_of_pos isName, List.dropWhile_append_of_pos isName]
  simp

/-! Reading a text that has a line suffix. -/

section

variable {text location : Text} {suffix : LineSuffix}

theorem parse_of_suffix (isBody : withoutMark text = location ++ ':' :: suffix.text) :
    parse text =
      if maxLine < suffix.first then .error (.startTooLarge suffix.start)
      else if maxLine < suffix.last then .error (.endTooLarge (suffix.stop?.getD suffix.start))
      else match LineRange.of? suffix.first suffix.last with
        | none => .error (.badRange suffix.first suffix.last)
        | some lines =>
            .ok { moduleName := (splitLocation location).1
                  relativePath := (splitLocation location).2, lines } := by
  rw [parse, isBody, splitSuffix?_append]
  rfl

theorem parse_ne_missingSuffix (isBody : withoutMark text = location ++ ':' :: suffix.text) :
    parse text ≠ .error .missingSuffix := by
  rw [parse_of_suffix isBody]
  repeat' split
  all_goals simp

/-- A text that has a line suffix reads as the pointer with the location's parts and the suffix's
numbers, as long as these are not too large. -/
theorem parse_eq_ok_iff (isBody : withoutMark text = location ++ ':' :: suffix.text)
    {pointer : Pointer} :
    parse text = .ok pointer ↔
      (suffix.first ≤ maxLine ∧ suffix.last ≤ maxLine) ∧
      splitLocation location = (pointer.moduleName, pointer.relativePath) ∧
      pointer.lines.first = suffix.first ∧ pointer.lines.last = suffix.last := by
  rw [parse_of_suffix isBody, ← LineRange.of?_eq_some_iff]
  obtain ⟨moduleName, relativePath, lines⟩ := pointer
  by_cases startFits : suffix.first ≤ maxLine
  · rw [if_neg (Nat.not_lt.mpr startFits)]
    by_cases endFits : suffix.last ≤ maxLine
    · rw [if_neg (Nat.not_lt.mpr endFits)]
      cases LineRange.of? suffix.first suffix.last <;>
        simp [startFits, endFits, Prod.ext_iff, and_assoc]
    · rw [if_pos (Nat.not_le.mp endFits)]
      simp [endFits]
  · rw [if_pos (Nat.not_le.mp startFits)]
    simp [startFits]

theorem exists_parse_iff (isBody : withoutMark text = location ++ ':' :: suffix.text) :
    (∃ pointer, parse text = .ok pointer) ↔
      (suffix.first ≤ maxLine ∧ suffix.last ≤ maxLine) ∧
        1 ≤ suffix.first ∧ suffix.first ≤ suffix.last := by
  constructor
  · rintro ⟨pointer, parsed⟩
    obtain ⟨fits, _, isFirst, isLast⟩ := (parse_eq_ok_iff isBody).mp parsed
    rw [← isFirst, ← isLast]
    exact ⟨isFirst ▸ isLast ▸ fits, pointer.lines.one_le_first, pointer.lines.first_le_last⟩
  · rintro ⟨fits, positive, ascends⟩
    exact ⟨⟨_, _, suffix.first, suffix.last, positive, ascends⟩,
      (parse_eq_ok_iff isBody).mpr ⟨fits, rfl, rfl, rfl⟩⟩

theorem exists_error_iff (isBody : withoutMark text = location ++ ':' :: suffix.text) :
    (∃ error, parse text = .error error) ↔
      maxLine < suffix.first ∨ maxLine < suffix.last ∨ suffix.first = 0 ∨
        suffix.last < suffix.first := by
  have isRead := exists_parse_iff isBody
  cases parsed : parse text with
  | ok pointer =>
      have fits := isRead.mp ⟨pointer, parsed⟩
      simp only [reduceCtorEq, exists_false, false_iff]
      omega
  | error error =>
      rw [parsed] at isRead
      simp only [reduceCtorEq, exists_false, false_iff] at isRead
      simp only [Except.error.injEq, exists_eq', true_iff]
      omega

end

theorem exists_suffix_of_parse {text : Text} {pointer : Pointer}
    (parsed : parse text = .ok pointer) :
    ∃ location, ∃ suffix : LineSuffix, withoutMark text = location ++ ':' :: suffix.text := by
  unfold parse at parsed
  split at parsed
  · cases parsed
  · next location start stop isSplit =>
    exact ⟨location, exists_suffix_of_splitSuffix? isSplit⟩

end Pointer

end CodePointers
