import CodePointers.Proofs.ReferenceIndex.Entries
import CodePointers.Proofs.ReferenceIndex.Queries

/-!
The two maps of an index as they lie in memory, after any history of edits. Nothing empty is kept in
them, each key agrees with what is stored under it, and the map of sources says what the other one
holds, no more and no less. Whatever is stored was recorded.
-/

namespace CodePointers

/-! What a ledger holds was recorded. -/

namespace Ledger

open ReferenceIndex (Edit)

def IsRecorded (history : List Edit) (filing : Filing) : Prop :=
  .record filing.target filing.reference.lines.first filing.reference.lines.last
    filing.reference.source filing.reference.start filing.reference.stop
    filing.reference.definitionLine ∈ history

theorem mem_put {ledger : Ledger} {filing stored : Filing}
    (member : stored ∈ (ledger.put filing).filings) :
    stored = filing ∨ stored ∈ ledger.filings := by
  rw [filings_put] at member
  split at member
  · obtain ⟨old, inOld, rfl⟩ := List.mem_map.mp member
    unfold Filing.overwrittenBy
    split
    · exact .inl rfl
    · exact .inr inOld
  · rcases List.mem_append.mp member with inOld | isNew
    · exact .inr inOld
    · exact .inl (List.mem_singleton.mp isNew)

theorem mem_edited {ledger : Ledger} {edit : Edit} {filing : Filing}
    (member : filing ∈ (ledger.edited edit).1.filings) :
    IsRecorded [edit] filing ∨ filing ∈ ledger.filings := by
  cases edit with
  | record target first last source start stop definitionLine =>
      rw [edited] at member
      cases bounds : LineRange.of? first last with
      | none =>
          rw [bounds] at member
          exact .inr member
      | some lines =>
          rw [bounds] at member
          obtain ⟨rfl, rfl⟩ := LineRange.of?_eq_some_iff.mp bounds
          rcases mem_put member with rfl | inOld
          · exact .inl List.mem_cons_self
          · exact .inr inOld
  | removeOutbound source => exact .inr (List.mem_filter.mp member).1
  | removeFile file => exact .inr (List.mem_filter.mp member).1
  | clear => cases member

theorem isRecorded_of_mem_after {history : List Edit} {filing : Filing}
    (member : filing ∈ (after history).filings) : IsRecorded history filing := by
  induction history with
  | nil => cases member
  | cons edit earlier ih =>
      rcases mem_edited member with isNew | inOld
      · rw [IsRecorded, List.mem_singleton] at isNew
        rw [IsRecorded, isNew]
        exact List.mem_cons_self
      · exact List.mem_cons_of_mem _ (ih inOld)

end Ledger

namespace ReferenceIndex

def Lists (index : ReferenceIndex) (target : Path) (lines : LineRange)
    (references : List Reference) : Prop :=
  ∃ stored ranges, (stored, ranges) ∈ index.targets.entries ∧ (stored == target) = true ∧
    (lines, references) ∈ ranges.entries

def PointsInto (index : ReferenceIndex) (source target : Path) : Prop :=
  ∃ lines references, index.Lists target lines references ∧
    ∃ reference ∈ references, (reference.source == source) = true

/-- What holds of the two maps of an index that a history of edits has led to. -/
structure WellFormed (index : ReferenceIndex) (history : List Edit) : Prop where
  targets_nonempty : ∀ entry ∈ index.targets.entries, entry.2.entries ≠ []
  references_nonempty : ∀ target lines references, index.Lists target lines references →
    references ≠ []
  bounds : ∀ target lines references, index.Lists target lines references →
    1 ≤ lines.first ∧ lines.first ≤ lines.last
  lines_eq : ∀ target lines references, index.Lists target lines references →
    ∀ reference ∈ references, reference.lines = lines
  one_per_source : ∀ target lines references, index.Lists target lines references →
    references.Pairwise fun left right => (left.source == right.source) = false
  recorded : ∀ target lines references, index.Lists target lines references →
    ∀ reference ∈ references, ∃ stored, (stored == target) = true ∧
      .record stored lines.first lines.last reference.source reference.start reference.stop
        reference.definitionLine ∈ history
  links_iff : ∀ source target, Links index.sources source target ↔ index.PointsInto source target
  pointsInto_iff : ∀ source target, index.PointsInto source target ↔
    ∃ filing ∈ (Ledger.after history).filings,
      filing.isFrom source = true ∧ filing.isInto target = true
  sources_nonempty : ∀ entry ∈ index.sources.entries, entry.2 ≠ []
  sources_distinct : ∀ entry ∈ index.sources.entries,
    entry.2.Pairwise fun left right => (left == right) = false

theorem lists_iff {index : ReferenceIndex} {target : Path} {lines : LineRange}
    {references : List Reference} :
    index.Lists target lines references ↔
      ∃ ranges, index.targets.get? target = some ranges ∧ ranges.get? lines = some references := by
  constructor
  · rintro ⟨stored, ranges, inTargets, same, inRanges⟩
    exact ⟨ranges, OrderedMap.get?_of_mem inTargets same, OrderedMap.get?_of_mem inRanges BEq.rfl⟩
  · rintro ⟨ranges, hasTarget, hasLines⟩
    obtain ⟨stored, inTargets, same⟩ := OrderedMap.exists_mem_of_get? hasTarget
    obtain ⟨key, inRanges, sameLines⟩ := OrderedMap.exists_mem_of_get? hasLines
    rw [eq_of_beq sameLines] at inRanges
    exact ⟨stored, ranges, inTargets, same, inRanges⟩

theorem Lists.referencesTo_eq {index : ReferenceIndex} {target : Path} {lines : LineRange}
    {references : List Reference} (lists : index.Lists target lines references) :
    index.referencesTo target lines = references := by
  obtain ⟨ranges, hasTarget, hasLines⟩ := lists_iff.mp lists
  rw [referencesTo, get?_rangesOf, hasTarget, Option.bind_some, hasLines, Option.getD_some]

theorem Consistent.soundReferences {index : ReferenceIndex} (consistent : index.Consistent)
    {target : Path} {lines : LineRange} {references : List Reference}
    (lists : index.Lists target lines references) : SoundReferences lines references := by
  obtain ⟨ranges, hasTarget, hasLines⟩ := lists_iff.mp lists
  exact (consistent.targets hasTarget).references hasLines

theorem pointsInto_iff_stored? {index : ReferenceIndex} {source target : Path} :
    index.PointsInto source target ↔ ∃ lines, (index.stored? target lines source).isSome := by
  constructor
  · rintro ⟨lines, references, lists, reference, member, isFrom⟩
    refine ⟨lines, ?_⟩
    rw [stored?_eq_find?, lists.referencesTo_eq, List.find?_isSome]
    exact ⟨reference, member, isFrom⟩
  · rintro ⟨lines, isStored⟩
    obtain ⟨reference, found⟩ := Option.isSome_iff_exists.mp isStored
    obtain ⟨references, inTarget, isFound⟩ := Option.bind_eq_some_iff.mp found
    obtain ⟨ranges, hasTarget, hasLines⟩ := Option.bind_eq_some_iff.mp inTarget
    exact ⟨lines, references, lists_iff.mpr ⟨ranges, hasTarget, hasLines⟩, reference,
      List.mem_of_find?_eq_some isFound, source_of_stored? found⟩

namespace Mirrors

variable {index : ReferenceIndex} {history : List Edit} (mirrors : index.Mirrors history)
include mirrors

theorem exists_filing_of_lists {target : Path} {lines : LineRange} {references : List Reference}
    (lists : index.Lists target lines references) {reference : Reference}
    (member : reference ∈ references) :
    ∃ filing ∈ (Ledger.after history).filings, filing.isAt target lines = true ∧
      filing.reference = reference := by
  rw [← lists.referencesTo_eq, mirrors.referencesTo_eq] at member
  obtain ⟨filing, inLedger, isReference⟩ := List.mem_map.mp member
  obtain ⟨inFilings, isPlace⟩ := List.mem_filter.mp inLedger
  exact ⟨filing, inFilings, isPlace, isReference⟩

theorem pointsInto_iff (source target : Path) :
    index.PointsInto source target ↔ ∃ filing ∈ (Ledger.after history).filings,
      filing.isFrom source = true ∧ filing.isInto target = true := by
  constructor
  · rintro ⟨lines, references, lists, reference, member, isFrom⟩
    obtain ⟨filing, inFilings, isPlace, rfl⟩ := mirrors.exists_filing_of_lists lists member
    exact ⟨filing, inFilings, isFrom, (Filing.isAt_iff.mp isPlace).1⟩
  · rintro ⟨filing, member, isFrom, isInto⟩
    have links := (mirrors.links_of_isFrom member isFrom).congr BEq.rfl isInto
    exact pointsInto_iff_stored?.mpr ((mirrors.consistent.links_iff source target).mp links)

end Mirrors

/-- After every history of edits, starting with an empty index, the store is well formed. -/
theorem after_wellFormed (history : List Edit) : (after history).WellFormed history where
  targets_nonempty _ member :=
    ((mirrors_after history).consistent.targets (OrderedMap.get?_of_mem member BEq.rfl)).nonempty
  references_nonempty _ _ _ lists :=
    ((mirrors_after history).consistent.soundReferences lists).nonempty
  bounds _ lines _ _ := ⟨lines.one_le_first, lines.first_le_last⟩
  lines_eq _ _ _ lists := ((mirrors_after history).consistent.soundReferences lists).lines_eq
  one_per_source _ _ _ lists := ((mirrors_after history).consistent.soundReferences lists).distinct
  recorded _ _ _ lists reference member := by
    obtain ⟨filing, inLedger, isPlace, rfl⟩ :=
      (mirrors_after history).exists_filing_of_lists lists member
    obtain ⟨sameTarget, rfl⟩ := Filing.isAt_iff.mp isPlace
    exact ⟨filing.target, sameTarget, Ledger.isRecorded_of_mem_after inLedger⟩
  links_iff source target :=
    ((mirrors_after history).consistent.links_iff source target).trans pointsInto_iff_stored?.symm
  pointsInto_iff := (mirrors_after history).pointsInto_iff
  sources_nonempty _ member :=
    ((mirrors_after history).consistent.sources (OrderedMap.get?_of_mem member BEq.rfl)).nonempty
  sources_distinct _ member :=
    ((mirrors_after history).consistent.sources (OrderedMap.get?_of_mem member BEq.rfl)).distinct

end ReferenceIndex

end CodePointers
