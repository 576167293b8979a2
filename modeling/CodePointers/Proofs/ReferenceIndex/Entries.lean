import CodePointers.Proofs.ReferenceIndex.Table

/-!
What an index lists under a target: an entry for every range that has references, and in it one
reference of each source.
-/

namespace CodePointers.ReferenceIndex

theorem find?_eq_some_iff_of_distinct {references : List Reference}
    (distinct : references.Pairwise fun left right => (left.source == right.source) = false)
    (reference : Reference) :
    references.find? (fun other => other.source == reference.source) = some reference ↔
      reference ∈ references :=
  ⟨List.mem_of_find?_eq_some, fun member => OrderedMap.find?_of_mem distinct member BEq.rfl⟩

theorem stored?_of_get? {index : ReferenceIndex} {target source : Path} {ranges : RangeMap}
    {lines : LineRange} {references : List Reference}
    (hasTarget : index.targets.get? target = some ranges)
    (hasLines : ranges.get? lines = some references) :
    index.stored? target lines source = references.find? (·.source == source) := by
  simp [stored?, storedIn?, hasTarget, hasLines]

theorem mem_of_get?_iff {index : ReferenceIndex} (consistent : index.Consistent) {target : Path}
    {ranges : RangeMap} {lines : LineRange} {references : List Reference} {reference : Reference}
    (hasTarget : index.targets.get? target = some ranges)
    (hasLines : ranges.get? lines = some references) :
    reference ∈ references ↔ index.stored? target lines reference.source = some reference := by
  rw [stored?_of_get? hasTarget hasLines, find?_eq_some_iff_of_distinct
    ((consistent.targets hasTarget).references hasLines).distinct]

theorem exists_ranges_iff {index : ReferenceIndex} (consistent : index.Consistent) (target : Path)
    (lines : LineRange) :
    (∃ ranges references, index.targets.get? target = some ranges ∧
        ranges.get? lines = some references) ↔
      ∃ source, (index.stored? target lines source).isSome := by
  constructor
  · rintro ⟨ranges, references, hasTarget, hasLines⟩
    have sound := (consistent.targets hasTarget).references hasLines
    obtain ⟨reference, member⟩ := List.exists_mem_of_ne_nil _ sound.nonempty
    refine ⟨reference.source, ?_⟩
    rw [(mem_of_get?_iff consistent hasTarget hasLines).mp member]
    rfl
  · rintro ⟨source, isStored⟩
    obtain ⟨reference, found⟩ := Option.isSome_iff_exists.mp isStored
    obtain ⟨references, inTarget, _⟩ := Option.bind_eq_some_iff.mp found
    obtain ⟨ranges, hasTarget, hasLines⟩ := Option.bind_eq_some_iff.mp inTarget
    exact ⟨ranges, references, hasTarget, hasLines⟩

theorem exists_target_iff {index : ReferenceIndex} (consistent : index.Consistent) (target : Path) :
    (index.targets.get? target).isSome ↔
      ∃ lines source, (index.stored? target lines source).isSome := by
  constructor
  · intro hasTarget
    obtain ⟨ranges, isRanges⟩ := Option.isSome_iff_exists.mp hasTarget
    obtain ⟨lines, references, hasLines⟩ :=
      OrderedMap.exists_get?_of_entries_ne_nil (consistent.targets isRanges).nonempty
    exact ⟨lines, (exists_ranges_iff consistent target lines).mp
      ⟨ranges, references, isRanges, hasLines⟩⟩
  · rintro ⟨lines, source, isStored⟩
    obtain ⟨ranges, references, hasTarget, _⟩ :=
      (exists_ranges_iff consistent target lines).mpr ⟨source, isStored⟩
    rw [hasTarget]
    rfl

theorem entries_of_get? {index : ReferenceIndex} {target : Path} {ranges : RangeMap}
    (hasTarget : index.targets.get? target = some ranges) :
    index.entries target = ranges.entries := by
  simp [entries, rangesOf, hasTarget]

/-- Whether a reference is listed at some lines of a target. -/
def Stores (index : ReferenceIndex) (target : Path) (lines : LineRange) (reference : Reference) :
    Prop :=
  ∃ references, (lines, references) ∈ index.entries target ∧ reference ∈ references

theorem stores_iff {index : ReferenceIndex} (consistent : index.Consistent) {target : Path}
    {lines : LineRange} {reference : Reference} :
    index.Stores target lines reference ↔
      index.stored? target lines reference.source = some reference := by
  constructor
  · rintro ⟨references, inEntries, member⟩
    cases hasTarget : index.targets.get? target with
    | none =>
        rw [entries, rangesOf, hasTarget] at inEntries
        cases inEntries
    | some ranges =>
        rw [entries_of_get? hasTarget] at inEntries
        exact (mem_of_get?_iff consistent hasTarget
          (OrderedMap.get?_of_mem inEntries BEq.rfl)).mp member
  · intro found
    obtain ⟨ranges, references, hasTarget, hasLines⟩ :=
      (exists_ranges_iff consistent target lines).mpr ⟨reference.source, by rw [found]; rfl⟩
    obtain ⟨other, inEntries, same⟩ := OrderedMap.exists_mem_of_get? hasLines
    rw [eq_of_beq same] at inEntries
    refine ⟨references, ?_, (mem_of_get?_iff consistent hasTarget hasLines).mpr found⟩
    rw [entries_of_get? hasTarget]
    exact inEntries

end CodePointers.ReferenceIndex
