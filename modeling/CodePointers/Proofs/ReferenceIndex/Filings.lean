import CodePointers.Proofs.ReferenceIndex.Entries
import CodePointers.Proofs.ReferenceIndex.Ledger

/-!
Everything that an index stores as one list. Each reference stands in it once, so that what the
nested maps count is the number of its elements.
-/

namespace CodePointers.ReferenceIndex

def filingsInto (target : Path) (ranges : RangeMap) : List Filing :=
  ranges.values.flatten.map (Filing.mk target)

def filings (index : ReferenceIndex) : List Filing :=
  index.targets.entries.flatMap fun entry => filingsInto entry.1 entry.2

theorem mem_filingsInto_iff {target : Path} {ranges : RangeMap} {filing : Filing} :
    filing ∈ filingsInto target ranges ↔ filing.target = target ∧
      ∃ lines references, (lines, references) ∈ ranges.entries ∧ filing.reference ∈ references := by
  obtain ⟨own, reference⟩ := filing
  simp only [filingsInto, OrderedMap.values, List.mem_map, List.mem_flatten, Filing.mk.injEq]
  constructor
  · rintro ⟨other, ⟨references, ⟨entry, inEntries, rfl⟩, member⟩, rfl, rfl⟩
    exact ⟨rfl, entry.1, entry.2, inEntries, member⟩
  · rintro ⟨rfl, lines, references, inEntries, member⟩
    exact ⟨reference, ⟨references, ⟨_, inEntries, rfl⟩, member⟩, rfl, rfl⟩

/-! What is in the list. -/

theorem stores_of_mem_filings {index : ReferenceIndex} (consistent : index.Consistent)
    {filing : Filing} (member : filing ∈ index.filings) :
    index.Stores filing.target filing.reference.lines filing.reference := by
  obtain ⟨⟨target, ranges⟩, inTargets, inRanges⟩ := List.mem_flatMap.mp member
  obtain ⟨isTarget, lines, references, inEntries, isReference⟩ := mem_filingsInto_iff.mp inRanges
  have hasTarget : index.targets.get? filing.target = some ranges :=
    OrderedMap.get?_of_mem inTargets (isTarget ▸ BEq.rfl)
  have hasLines : ranges.get? lines = some references := OrderedMap.get?_of_mem inEntries BEq.rfl
  have sound := (consistent.targets hasTarget).references hasLines
  refine ⟨references, ?_, isReference⟩
  rw [entries_of_get? hasTarget, sound.lines_eq _ isReference]
  exact inEntries

theorem exists_mem_filings {index : ReferenceIndex} {target : Path} {lines : LineRange}
    {reference : Reference} (stores : index.Stores target lines reference) :
    ∃ filing ∈ index.filings, filing.isInto target = true ∧ filing.reference = reference := by
  obtain ⟨references, inEntries, member⟩ := stores
  cases hasTarget : index.targets.get? target with
  | none =>
      rw [entries, rangesOf, hasTarget] at inEntries
      cases inEntries
  | some ranges =>
      rw [entries_of_get? hasTarget] at inEntries
      obtain ⟨listed, inTargets, same⟩ := OrderedMap.exists_mem_of_get? hasTarget
      refine ⟨⟨listed, reference⟩, List.mem_flatMap.mpr ⟨_, inTargets, ?_⟩, same, rfl⟩
      exact mem_filingsInto_iff.mpr ⟨rfl, lines, references, inEntries, member⟩

theorem filingsInto_distinct {ranges : RangeMap} (sound : SoundRanges ranges) (target : Path) :
    (filingsInto target ranges).Pairwise fun left right => left.sameKey right = false := by
  have references {entry : LineRange × List Reference} (member : entry ∈ ranges.entries) :
      SoundReferences entry.1 entry.2 := sound.references (OrderedMap.get?_of_mem member BEq.rfl)
  rw [filingsInto, OrderedMap.values, List.pairwise_map, List.pairwise_flatten, List.pairwise_map]
  constructor
  · intro values member
    obtain ⟨entry, inEntries, rfl⟩ := List.mem_map.mp member
    refine (references inEntries).distinct.imp fun {left right} apart => ?_
    simp [Filing.sameKey, Reference.sameKey, apart]
  · refine ranges.distinct.imp_of_mem ?_
    intro first second inFirst inSecond apart left inLeft right inRight
    have isFirst := (references inFirst).lines_eq left inLeft
    have isSecond := (references inSecond).lines_eq right inRight
    rw [← isFirst, ← isSecond] at apart
    simp [Filing.sameKey, Reference.sameKey, apart]

theorem filings_distinct {index : ReferenceIndex} (consistent : index.Consistent) :
    index.filings.Pairwise fun left right => left.sameKey right = false := by
  refine List.pairwise_flatMap.mpr ⟨?_, index.targets.distinct.imp ?_⟩
  · intro entry member
    have hasTarget := OrderedMap.get?_of_mem member BEq.rfl
    exact filingsInto_distinct (consistent.targets hasTarget) entry.1
  · intro first second apart left inLeft right inRight
    rw [Filing.sameKey, (mem_filingsInto_iff.mp inLeft).1, (mem_filingsInto_iff.mp inRight).1,
      apart]
    rfl

/-! How many there are. -/

theorem total_countP_ranges (ranges : RangeMap) (target : Path) (counted : Reference → Bool) :
    ranges.total (List.countP counted) =
      (filingsInto target ranges).countP fun filing => counted filing.reference := by
  rw [OrderedMap.total_eq_foldr, ← List.sum_eq_foldr, ← List.countP_flatten, filingsInto,
    List.countP_map]
  rfl

theorem total_countP (index : ReferenceIndex) (counted : Reference → Bool) :
    (index.targets.total fun ranges => ranges.total (List.countP counted)) =
      index.filings.countP fun filing => counted filing.reference := by
  rw [filings, List.countP_flatMap, OrderedMap.total_eq_foldr, ← List.sum_eq_foldr,
    OrderedMap.values, List.map_map]
  refine congrArg List.sum (List.map_congr_left fun entry _ => ?_)
  exact total_countP_ranges entry.2 entry.1 counted

theorem size_eq_length_filings (index : ReferenceIndex) : index.size = index.filings.length := by
  have all := index.total_countP fun _ => true
  rw [List.countP_true] at all
  exact all.trans (congrFun List.countP_true index.filings)

end CodePointers.ReferenceIndex
