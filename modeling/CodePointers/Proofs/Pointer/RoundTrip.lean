import CodePointers.Command.Arguments
import CodePointers.Proofs.Pointer.Parsing

/-!
Writing a pointer and reading it back. A path may hold any text, colons and slashes included, since
a pointer is cut at its last colon and at the first slash.
-/

namespace CodePointers

theorem isRun_decimal (number : Nat) : IsRun Char.isDigit (decimal number) where
  nonempty := Nat.toDigits_ne_nil
  all _ member := Nat.isDigit_of_mem_toDigits (by decide) (by decide) member

def LineSuffix.ofLines (first last : Nat) : LineSuffix where
  letter := 'L'
  start := decimal first
  stop? := if first = last then none else some (decimal last)
  isLetter := .inl rfl
  isStart := isRun_decimal first
  isStop := by
    intro stop isStop
    split at isStop
    · cases isStop
    · rw [← Option.some.inj isStop]
      exact isRun_decimal last

namespace LineSuffix

theorem text_ofLines (first last : Nat) :
    (ofLines first last).text = LineRange.labelOf first last := by
  rw [text, LineRange.labelOf, ofLines]
  dsimp only
  split
  · rw [stopText, List.append_nil]
  · rfl

theorem first_ofLines (first last : Nat) : (ofLines first last).first = first :=
  decimalValue_decimal first

theorem last_ofLines (first last : Nat) : (ofLines first last).last = last := by
  rw [LineSuffix.last, first_ofLines, ofLines]
  dsimp only
  split
  · next same => exact same
  · exact decimalValue_decimal last

end LineSuffix

namespace Pointer

theorem noSlash_of_splitLocation {location moduleName relativePath : Text}
    (isSplit : splitLocation location = (moduleName, relativePath)) : '/' ∉ moduleName := by
  cases isSplit
  intro member
  have isName := List.all_eq_true.mp List.all_takeWhile '/' member
  simp at isName

theorem withoutMark_render (moduleName relativePath : Text) (first last : Nat) :
    withoutMark (render moduleName relativePath first last) =
      (moduleName ++ '/' :: relativePath) ++ ':' :: (LineSuffix.ofLines first last).text := by
  rw [LineSuffix.text_ofLines, render, List.cons_append, List.cons_append, withoutMark]

theorem parse_render {moduleName relativePath : Text} (noSlash : '/' ∉ moduleName)
    {lines : LineRange} (firstFits : lines.first ≤ maxLine) (lastFits : lines.last ≤ maxLine) :
    parse (render moduleName relativePath lines.first lines.last) =
      .ok { moduleName, relativePath, lines } := by
  refine (parse_eq_ok_iff (withoutMark_render _ _ _ _)).mpr ⟨?_, ?_, ?_⟩
  · rw [LineSuffix.first_ofLines, LineSuffix.last_ofLines]
    exact ⟨firstFits, lastFits⟩
  · exact splitLocation_append noSlash relativePath
  · rw [LineSuffix.first_ofLines, LineSuffix.last_ofLines]
    exact ⟨rfl, rfl⟩

theorem parse_render_iff {moduleName relativePath : Text} {first last : Nat}
    (firstFits : first ≤ maxLine) (lastFits : last ≤ maxLine) :
    (∃ lines : LineRange, lines.first = first ∧ lines.last = last ∧
        parse (render moduleName relativePath first last) =
          .ok { moduleName, relativePath, lines }) ↔
      '/' ∉ moduleName ∧ 1 ≤ first ∧ first ≤ last := by
  constructor
  · rintro ⟨lines, rfl, rfl, parsed⟩
    obtain ⟨_, isSplit, _⟩ := (parse_eq_ok_iff (withoutMark_render _ _ _ _)).mp parsed
    exact ⟨noSlash_of_splitLocation isSplit, lines.one_le_first, lines.first_le_last⟩
  · rintro ⟨noSlash, positive, ascends⟩
    let lines : LineRange := ⟨first, last, positive, ascends⟩
    have fits : lines.first ≤ maxLine ∧ lines.last ≤ maxLine := ⟨firstFits, lastFits⟩
    exact ⟨lines, rfl, rfl, parse_render noSlash fits.1 fits.2⟩

theorem parse_text_of_parse {text : Text} {pointer : Pointer} (parsed : parse text = .ok pointer) :
    parse pointer.text = .ok pointer := by
  obtain ⟨location, suffix, isBody⟩ := exists_suffix_of_parse parsed
  obtain ⟨⟨firstFits, lastFits⟩, isSplit, isFirst, isLast⟩ := (parse_eq_ok_iff isBody).mp parsed
  rw [← isFirst] at firstFits
  rw [← isLast] at lastFits
  exact parse_render (noSlash_of_splitLocation isSplit) firstFits lastFits

end Pointer

/-! What the format command accepts. -/

theorem le_maxLine_of_lineNumber {text : Text} {line : Nat} (isLine : lineNumber text = .ok line) :
    line ≤ maxLine := by
  cases isSome : lineNumber? text with
  | none =>
      rw [lineNumber, isSome] at isLine
      cases isLine
  | some number =>
      rw [lineNumber, isSome] at isLine
      cases isLine
      obtain ⟨⟨_, _, fits⟩, isValue⟩ := Option.ite_none_right_eq_some.mp isSome
      exact Option.some.inj isValue ▸ fits

namespace FormatArguments

theorem ofLines_eq_ok {moduleName relativePath : Text} {first last : Nat} {format : FormatArguments}
    (accepted : ofLines moduleName relativePath first last = .ok format) :
    (format.moduleName = moduleName ∧ format.relativePath = relativePath) ∧
      format.lines.first = first ∧ format.lines.last = last := by
  unfold ofLines at accepted
  split at accepted
  · next isRange =>
    cases accepted
    exact ⟨⟨rfl, rfl⟩, LineRange.of?_eq_some_iff.mp isRange⟩
  · cases accepted

theorem arguments_of_parse {arguments : List Text} {format : FormatArguments}
    (accepted : parse arguments = .ok format) :
    ∃ start stop?, arguments =
        format.moduleName :: format.relativePath :: start :: Option.toList stop? ∧
      lineNumber start = .ok format.lines.first ∧
      lineNumber (stop?.getD start) = .ok format.lines.last := by
  unfold parse at accepted
  split at accepted
  · next moduleName relativePath start =>
    cases isFirst : lineNumber start with
    | error error =>
        rw [isFirst] at accepted
        cases accepted
    | ok first =>
        rw [isFirst] at accepted
        obtain ⟨⟨rfl, rfl⟩, rfl, isLast⟩ := ofLines_eq_ok accepted
        exact ⟨start, none, rfl, isFirst, isLast ▸ isFirst⟩
  · next moduleName relativePath start stop =>
    cases isFirst : lineNumber start with
    | error error =>
        rw [isFirst] at accepted
        cases accepted
    | ok first =>
        cases isLast : lineNumber stop with
        | error error =>
            rw [isFirst, isLast] at accepted
            cases accepted
        | ok last =>
            rw [isFirst, isLast] at accepted
            obtain ⟨⟨rfl, rfl⟩, rfl, rfl⟩ := ofLines_eq_ok accepted
            exact ⟨start, some stop, rfl, isFirst, isLast⟩
  · cases accepted

end FormatArguments

namespace Pointer

/-- Writing and reading are inverse. Parts that are written read back as themselves exactly when the
module has no slash and the lines are an ascending one-based range; a pointer that was read, in
whichever form, reads back from the text it is written as; and so do the arguments that the format
command writes. -/
theorem parse_inverts_render :
    (∀ moduleName relativePath first last, first ≤ maxLine → last ≤ maxLine →
      ((∃ lines : LineRange, lines.first = first ∧ lines.last = last ∧
          parse (render moduleName relativePath first last) =
            .ok { moduleName, relativePath, lines }) ↔
        '/' ∉ moduleName ∧ 1 ≤ first ∧ first ≤ last)) ∧
    (∀ text pointer, parse text = .ok pointer →
      parse pointer.text = .ok pointer ∧ (parse pointer.text).map Pointer.text = .ok pointer.text) ∧
    ∀ arguments format, FormatArguments.parse arguments = .ok format → '/' ∉ format.moduleName →
      parse format.text =
          .ok { moduleName := format.moduleName, relativePath := format.relativePath
                lines := format.lines } ∧
        ∃ start stop?, arguments =
            format.moduleName :: format.relativePath :: start :: Option.toList stop? ∧
          lineNumber start = .ok format.lines.first ∧
          lineNumber (stop?.getD start) = .ok format.lines.last := by
  refine ⟨fun _ _ _ _ => parse_render_iff, fun text pointer parsed => ?_,
    fun arguments format accepted noSlash => ?_⟩
  · have again := parse_text_of_parse parsed
    rw [again]
    exact ⟨rfl, rfl⟩
  · obtain ⟨start, stop?, isArguments, isFirst, isLast⟩ :=
      FormatArguments.arguments_of_parse accepted
    exact ⟨parse_render noSlash (le_maxLine_of_lineNumber isFirst)
        (le_maxLine_of_lineNumber isLast),
      start, stop?, isArguments, isFirst, isLast⟩

end Pointer

end CodePointers
