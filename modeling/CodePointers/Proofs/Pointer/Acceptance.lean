import Mathlib.Data.List.TakeWhile
import CodePointers.Proofs.Pointer.RoundTrip

/-!
Which texts are read as a pointer, as which one, and what is wrong with each of the others.
-/

namespace CodePointers

namespace LineSuffix

theorem last_of_stop {suffix : LineSuffix} {stop : Text} (isStop : suffix.stop? = some stop) :
    suffix.last = decimalValue stop := by
  rw [last, isStop]
  rfl

theorem exists_stop_of_first_lt {suffix : LineSuffix} (larger : suffix.first < suffix.last) :
    ∃ stop, suffix.stop? = some stop := by
  cases isStop : suffix.stop? with
  | none =>
      rw [last, isStop] at larger
      exact absurd larger (Nat.lt_irrefl _)
  | some stop => exact ⟨stop, rfl⟩

end LineSuffix

namespace Pointer

variable {text location moduleName relativePath : Text} {suffix : LineSuffix}

/-- Whether a text, without one mark in front, is a location with a line suffix behind a colon. -/
def HasForm (text location : Text) (suffix : LineSuffix) : Prop :=
  let body := location ++ ':' :: suffix.text
  text = '@' :: body ∨ text = body ∧ text.head? ≠ some '@'

structure IsRange (suffix : LineSuffix) : Prop where
  positive : 1 ≤ suffix.first
  ascends : suffix.first ≤ suffix.last
  fits : suffix.last ≤ maxLine

/-- Whether a location is cut at its first slash, and is all module name when it has none. -/
def CutsInto (location moduleName relativePath : Text) : Prop :=
  '/' ∉ moduleName ∧
    (location = moduleName ++ '/' :: relativePath ∨ location = moduleName ∧ relativePath = [])

/-- What is wrong with a text that is no pointer, the first fault counting. -/
inductive Faulty (text : Text) : PointerError → Prop
  | missingSuffix (none : ∀ location suffix, ¬HasForm text location suffix) :
      Faulty text .missingSuffix
  | startTooLarge {location : Text} {suffix : LineSuffix} (form : HasForm text location suffix)
      (large : maxLine < suffix.first) : Faulty text (.startTooLarge suffix.start)
  | endTooLarge {location stop : Text} {suffix : LineSuffix} (form : HasForm text location suffix)
      (firstFits : suffix.first ≤ maxLine) (isStop : suffix.stop? = some stop)
      (large : maxLine < decimalValue stop) : Faulty text (.endTooLarge stop)
  | badRange {location : Text} {suffix : LineSuffix} (form : HasForm text location suffix)
      (firstFits : suffix.first ≤ maxLine) (lastFits : suffix.last ≤ maxLine)
      (noRange : suffix.first = 0 ∨ suffix.last < suffix.first) :
      Faulty text (.badRange suffix.first suffix.last)

/-! The parts of a text. -/

theorem withoutMark_eq_iff {body : Text} :
    withoutMark text = body ↔ text = '@' :: body ∨ text = body ∧ text.head? ≠ some '@' := by
  unfold withoutMark
  split
  · next rest => simp [eq_comm]
  · next unmarked =>
    cases text with
    | nil => simp
    | cons head rest =>
        have differs : head ≠ '@' := fun isMark => unmarked rest (by rw [isMark])
        simp [differs]

theorem hasForm_iff :
    HasForm text location suffix ↔ withoutMark text = location ++ ':' :: suffix.text :=
  withoutMark_eq_iff.symm

theorem HasForm.unique {other : Text} {otherSuffix : LineSuffix}
    (form : HasForm text location suffix) (also : HasForm text other otherSuffix) :
    location = other ∧ suffix = otherSuffix :=
  eq_of_suffixed ((hasForm_iff.mp form).symm.trans (hasForm_iff.mp also))

theorem splitLocation_eq_iff :
    splitLocation location = (moduleName, relativePath) ↔
      CutsInto location moduleName relativePath := by
  constructor
  · intro isSplit
    refine ⟨noSlash_of_splitLocation isSplit, ?_⟩
    have isWhole : location.takeWhile (· ≠ '/') ++ location.dropWhile (· ≠ '/') = location :=
      List.takeWhile_append_dropWhile
    obtain ⟨rfl, rfl⟩ := Prod.mk.inj isSplit
    have stops := List.head?_dropWhile_not (· ≠ '/') location
    cases isRest : location.dropWhile (· ≠ '/') with
    | nil =>
        rw [isRest, List.append_nil] at isWhole
        exact .inr ⟨isWhole.symm, rfl⟩
    | cons slash rest =>
        rw [isRest] at isWhole stops
        obtain rfl : slash = '/' := by simpa using stops
        exact .inl isWhole.symm
  · rintro ⟨noSlash, rfl | ⟨rfl, rfl⟩⟩
    · exact splitLocation_append noSlash relativePath
    · have isName : ∀ char ∈ location, decide (char ≠ '/') = true := fun char member =>
        decide_eq_true fun isSlash => noSlash (isSlash ▸ member)
      rw [splitLocation, List.takeWhile_eq_self_iff.mpr isName,
        List.dropWhile_eq_nil_iff.mpr isName]
      rfl

/-! Reading. -/

theorem HasForm.parse_eq_ok_iff (form : HasForm text location suffix) {pointer : Pointer} :
    parse text = .ok pointer ↔
      IsRange suffix ∧ CutsInto location pointer.moduleName pointer.relativePath ∧
        pointer.lines.first = suffix.first ∧ pointer.lines.last = suffix.last := by
  rw [Pointer.parse_eq_ok_iff (hasForm_iff.mp form), splitLocation_eq_iff]
  constructor
  · rintro ⟨⟨_, lastFits⟩, cuts, isFirst, isLast⟩
    refine ⟨⟨?_, ?_, lastFits⟩, cuts, isFirst, isLast⟩
    · exact isFirst ▸ pointer.lines.one_le_first
    · exact isFirst ▸ isLast ▸ pointer.lines.first_le_last
  · rintro ⟨range, parts⟩
    exact ⟨⟨Nat.le_trans range.ascends range.fits, range.fits⟩, parts⟩

theorem HasForm.exists_parse_iff (form : HasForm text location suffix) :
    (∃ pointer, parse text = .ok pointer) ↔ IsRange suffix := by
  rw [Pointer.exists_parse_iff (hasForm_iff.mp form)]
  constructor
  · rintro ⟨fits, positive, ascends⟩
    exact ⟨positive, ascends, fits.2⟩
  · rintro ⟨positive, ascends, fits⟩
    exact ⟨⟨Nat.le_trans ascends fits, fits⟩, positive, ascends⟩

theorem exists_form_of_parse {pointer : Pointer} (parsed : parse text = .ok pointer) :
    ∃ location suffix, HasForm text location suffix := by
  obtain ⟨location, suffix, isBody⟩ := exists_suffix_of_parse parsed
  exact ⟨location, suffix, hasForm_iff.mpr isBody⟩

theorem parse_of_no_form (none : ∀ location suffix, ¬HasForm text location suffix) :
    parse text = .error .missingSuffix := by
  cases isSplit : splitSuffix? (withoutMark text) with
  | none => rw [parse, isSplit]
  | some parts =>
      obtain ⟨location, start, stop?⟩ := parts
      obtain ⟨suffix, isBody⟩ := exists_suffix_of_splitSuffix? isSplit
      exact absurd (hasForm_iff.mpr isBody) (none location suffix)

theorem HasForm.faulty (form : HasForm text location suffix) {error : PointerError}
    (refused : parse text = .error error) : Faulty text error := by
  rw [parse_of_suffix (hasForm_iff.mp form)] at refused
  split at refused
  · next large =>
    cases refused
    exact .startTooLarge form large
  next firstFits =>
  rw [Nat.not_lt] at firstFits
  split at refused
  · next large =>
    obtain ⟨stop, isStop⟩ := LineSuffix.exists_stop_of_first_lt (Nat.lt_of_le_of_lt firstFits large)
    rw [LineSuffix.last_of_stop isStop] at large
    rw [isStop] at refused
    cases refused
    exact .endTooLarge form firstFits isStop large
  next lastFits =>
  split at refused
  · next isNone =>
    cases refused
    refine .badRange form firstFits (Nat.not_lt.mp lastFits) ?_
    have noRange := (not_congr (@LineRange.isSome_of?_iff suffix.first suffix.last)).mp
      (by rw [isNone]; exact Bool.false_ne_true)
    omega
  · cases refused

theorem Faulty.parse_eq {error : PointerError} (faulty : Faulty text error) :
    parse text = .error error := by
  cases faulty with
  | missingSuffix none => exact parse_of_no_form none
  | startTooLarge form large => rw [parse_of_suffix (hasForm_iff.mp form), if_pos large]
  | endTooLarge form firstFits isStop large =>
      rw [parse_of_suffix (hasForm_iff.mp form), if_neg (Nat.not_lt.mpr firstFits),
        LineSuffix.last_of_stop isStop, if_pos large, isStop]
      rfl
  | @badRange _ suffix form firstFits lastFits noRange =>
      have isNone : LineRange.of? suffix.first suffix.last = none := by
        rw [← Option.not_isSome_iff_eq_none, LineRange.isSome_of?_iff]
        omega
      rw [parse_of_suffix (hasForm_iff.mp form), if_neg (Nat.not_lt.mpr firstFits),
        if_neg (Nat.not_lt.mpr lastFits), isNone]

theorem parse_eq_error_iff {error : PointerError} :
    parse text = .error error ↔ Faulty text error := by
  refine ⟨fun refused => ?_, Faulty.parse_eq⟩
  by_cases formed : ∃ location suffix, HasForm text location suffix
  · obtain ⟨location, suffix, form⟩ := formed
    exact form.faulty refused
  · have none : ∀ location suffix, ¬HasForm text location suffix :=
      fun location suffix form => formed ⟨location, suffix, form⟩
    rw [parse_of_no_form none] at refused
    cases refused
    exact .missingSuffix none

/-- Reading accepts just the texts that are a location with a line suffix whose numbers are a range
of lines, in one way only, and gives the parts of the location with that range. Any other text gets
one warning, for the first of its faults. -/
theorem parse_accepts_grammar (text : Text) :
    ((∃ pointer, parse text = .ok pointer) ↔
      ∃ location suffix, HasForm text location suffix ∧ IsRange suffix) ∧
    (∀ pointer, parse text = .ok pointer ↔
      ∃ location suffix, HasForm text location suffix ∧ IsRange suffix ∧
        CutsInto location pointer.moduleName pointer.relativePath ∧
        pointer.lines.first = suffix.first ∧ pointer.lines.last = suffix.last) ∧
    (∀ location other suffix otherSuffix, HasForm text location suffix →
      HasForm text other otherSuffix → location = other ∧ suffix = otherSuffix) ∧
    (∀ pointer, parse text = .ok pointer → warnings text = []) ∧
    ((¬∃ pointer, parse text = .ok pointer) →
      ∃ error, Faulty text error ∧ (∀ other, Faulty text other → other = error) ∧
        warnings text = [error.message text]) := by
  have reads (pointer : Pointer) : parse text = .ok pointer ↔
      ∃ location suffix, HasForm text location suffix ∧ IsRange suffix ∧
        CutsInto location pointer.moduleName pointer.relativePath ∧
        pointer.lines.first = suffix.first ∧ pointer.lines.last = suffix.last := by
    constructor
    · intro parsed
      obtain ⟨location, suffix, form⟩ := exists_form_of_parse parsed
      exact ⟨location, suffix, form, form.parse_eq_ok_iff.mp parsed⟩
    · rintro ⟨location, suffix, form, parts⟩
      exact form.parse_eq_ok_iff.mpr parts
  refine ⟨⟨?_, ?_⟩, reads, fun _ _ _ _ form also => form.unique also, ?_, ?_⟩
  · rintro ⟨pointer, parsed⟩
    obtain ⟨location, suffix, form, range, _⟩ := (reads pointer).mp parsed
    exact ⟨location, suffix, form, range⟩
  · rintro ⟨location, suffix, form, range⟩
    exact form.exists_parse_iff.mpr range
  · intro pointer parsed
    rw [warnings, parsed]
  · intro refused
    cases result : parse text with
    | ok pointer => exact absurd ⟨pointer, result⟩ refused
    | error error =>
        refine ⟨error, parse_eq_error_iff.mp result, fun other faulty => ?_, ?_⟩
        · rw [← parse_eq_error_iff, result] at faulty
          exact (Except.error.inj faulty).symm
        · rw [warnings, result]

/-- The last colon counts, the numbers may have leading zeros, and of two faults the first one is
told. -/
example : (parse "@@a b:L1:l007-0008".toList).toOption.map Pointer.text =
      some "@@a b:L1/:L7-8".toList ∧
    warnings "m/x:L4294967296-0".toList = ["Invalid pointer 'm/x:L4294967296-0': " ++
      "bad start line '4294967296': number too large to fit in target type"] := by
  decide +kernel

end Pointer

end CodePointers
