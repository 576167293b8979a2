import CodePointers.Proofs.ReferenceIndex.Ledger

/-!
What each change of the index does to the lines of one target: their references and their order.
-/

namespace CodePointers.ReferenceIndex

/-! The references to some lines. -/

theorem referencesTo_congr (index : ReferenceIndex) {target other : Path} (same : target == other)
    (lines : LineRange) : index.referencesTo target lines = index.referencesTo other lines := by
  rw [referencesTo, referencesTo, rangesOf, rangesOf, index.targets.get?_congr same]

theorem rangesOf_insert (index : ReferenceIndex) (target : Path) (reference : Reference)
    (other : Path) :
    (index.insert target reference).1.rangesOf other =
      if target == other then
        (index.rangesOf other).insert reference.lines
          (placeReference reference (index.referencesTo other reference.lines))
      else index.rangesOf other := by
  rw [rangesOf, targets_insert, OrderedMap.get?_insert]
  split
  · next same =>
    rw [index.referencesTo_congr same, rangesOf, index.targets.get?_congr same]
    rfl
  · rfl

theorem referencesTo_insert (index : ReferenceIndex) (filing : Filing) (target : Path)
    (lines : LineRange) :
    (index.insert filing.target filing.reference).1.referencesTo target lines =
      if filing.isAt target lines then
        placeReference filing.reference (index.referencesTo target lines)
      else index.referencesTo target lines := by
  rw [referencesTo, rangesOf_insert, Filing.isAt, Filing.isInto]
  cases filing.target == target with
  | false => rfl
  | true =>
      rw [if_pos rfl, Bool.true_and, OrderedMap.get?_insert]
      split
      · next sameLines =>
        rw [beq_iff_eq.mp sameLines]
        rfl
      · rfl

theorem mem_lineRanges_iff {index : ReferenceIndex} {target : Path} {lines : LineRange} :
    lines ∈ index.lineRanges target ↔ ((index.rangesOf target).get? lines).isSome := by
  rw [OrderedMap.get?_isSome_iff, lineRanges]
  simp only [beq_iff_eq, exists_eq_right]

/-- New lines come last, known ones keep their place. -/
theorem lineRanges_insert (index : ReferenceIndex) (target : Path) (reference : Reference)
    (other : Path) :
    (index.insert target reference).1.lineRanges other =
      if target == other ∧ reference.lines ∉ index.lineRanges other then
        index.lineRanges other ++ [reference.lines]
      else index.lineRanges other := by
  rw [lineRanges, rangesOf_insert]
  cases isTarget : target == other with
  | false => simp [lineRanges]
  | true =>
      rw [if_pos rfl]
      cases known : (index.rangesOf other).get? reference.lines with
      | none =>
          have isNew : reference.lines ∉ index.lineRanges other := by
            simp [mem_lineRanges_iff, known]
          rw [if_pos ⟨rfl, isNew⟩]
          exact OrderedMap.keys_insert_of_get?_eq_none known _
      | some references =>
          have isKnown : reference.lines ∈ index.lineRanges other := by
            simp [mem_lineRanges_iff, known]
          rw [if_neg fun isNew => isNew.2 isKnown]
          exact OrderedMap.keys_insert_of_get? known _

/-! The references that a removal leaves. -/

theorem getD_dropSource (source : Path) (targets : OrderedMap Path RangeMap)
    (target other : Path) :
    ((dropSource source targets target).get? other).getD .empty =
      if target == other then keptRanges source ((targets.get? other).getD .empty)
      else (targets.get? other).getD .empty := by
  cases hasTarget : targets.get? target with
  | none =>
      have same : dropSource source targets target = targets := by simp [dropSource, hasTarget]
      rw [same]
      split
      · next isTarget =>
        rw [← targets.get?_congr isTarget, hasTarget]
        rfl
      · rfl
  | some ranges =>
      rw [get?_dropSource hasTarget]
      split
      · next isTarget =>
        rw [← targets.get?_congr isTarget, hasTarget, Option.getD_some]
        split
        · next none => exact (OrderedMap.eq_empty_of_isEmpty none).symm
        · rfl
      · rfl

theorem getD_foldl_dropSource (source : Path) {pointedAt : List Path}
    (distinct : pointedAt.Pairwise fun left right => (left == right) = false)
    (targets : OrderedMap Path RangeMap) (target : Path) :
    ((pointedAt.foldl (dropSource source) targets).get? target).getD .empty =
      if pointedAt.any (· == target) then keptRanges source ((targets.get? target).getD .empty)
      else (targets.get? target).getD .empty := by
  induction pointedAt generalizing targets with
  | nil => rfl
  | cons head rest ih =>
      obtain ⟨apart, restDistinct⟩ := List.pairwise_cons.mp distinct
      rw [List.foldl_cons, ih restDistinct, getD_dropSource, List.any_cons]
      cases isHead : head == target with
      | false => simp
      | true =>
          have notInRest : rest.any (· == target) = false := by
            refine List.any_eq_false.mpr fun other member isTarget => ?_
            have same := BEq.trans isHead (BEq.symm isTarget)
            rw [apart other member] at same
            cases same
          simp [notInRest]

theorem references_of_mem_rangesOf {index : ReferenceIndex} {target : Path}
    {entry : LineRange × List Reference} (member : entry ∈ (index.rangesOf target).entries) :
    index.referencesTo target entry.1 = entry.2 := by
  rw [referencesTo, OrderedMap.get?_of_mem member BEq.rfl, Option.getD_some]

theorem ne_nil_of_mem_rangesOf {index : ReferenceIndex} (consistent : index.Consistent)
    {target : Path} {entry : LineRange × List Reference}
    (member : entry ∈ (index.rangesOf target).entries) : entry.2 ≠ [] := by
  have hasLines := OrderedMap.get?_of_mem member BEq.rfl
  rw [get?_rangesOf] at hasLines
  obtain ⟨ranges, hasTarget, inRanges⟩ := Option.bind_eq_some_iff.mp hasLines
  exact ((consistent.targets hasTarget).references inRanges).nonempty

theorem keptRanges_of_not_links {index : ReferenceIndex} (consistent : index.Consistent)
    {source target : Path} (notLinked : ¬Links index.sources source target) :
    keptRanges source (index.rangesOf target) = index.rangesOf target := by
  refine OrderedMap.filterMap_eq_self fun entry member => nonempty_eq_some_iff.mpr
    ⟨List.filter_eq_self.mpr fun reference inEntry => ?_, ne_nil_of_mem_rangesOf consistent member⟩
  rw [Bool.not_eq_true', ← Bool.not_eq_true]
  intro isFrom
  refine notLinked ((consistent.links_iff source target).mpr ⟨entry.1, ?_⟩)
  rw [stored?_eq_find?, references_of_mem_rangesOf member, List.find?_isSome]
  exact ⟨reference, inEntry, isFrom⟩

theorem rangesOf_withoutSource {index : ReferenceIndex} (consistent : index.Consistent)
    (source target : Path) :
    (index.withoutSource source).rangesOf target = keptRanges source (index.rangesOf target) := by
  have unlinked (notLinked : ¬Links index.sources source target) :=
    (keptRanges_of_not_links consistent notLinked).symm
  unfold withoutSource
  split
  · next found =>
    refine unlinked ?_
    rintro ⟨_, isLinked, _⟩
    cases found.symm.trans isLinked
  · next pointedAt found =>
    refine (getD_foldl_dropSource source (consistent.sources found).distinct _ _).trans ?_
    split
    · rfl
    · next notIn =>
      refine unlinked ?_
      rintro ⟨linked, isLinked, hasTarget⟩
      cases found.symm.trans isLinked
      exact notIn (List.any_eq_true.mpr hasTarget)

theorem referencesTo_withoutSource {index : ReferenceIndex} (consistent : index.Consistent)
    (source target : Path) (lines : LineRange) :
    (index.withoutSource source).referencesTo target lines =
      (index.referencesTo target lines).filter fun reference => !(reference.source == source) := by
  rw [referencesTo, rangesOf_withoutSource consistent, keptRanges, OrderedMap.get?_filterMap,
    referencesTo]
  cases (index.rangesOf target).get? lines with
  | none => rfl
  | some references =>
      rw [Option.bind_some, Option.getD_some, nonempty]
      split
      · next none => exact (List.isEmpty_iff.mp none).symm
      · rfl

theorem lineRanges_withoutSource_sublist {index : ReferenceIndex} (consistent : index.Consistent)
    (source target : Path) :
    ((index.withoutSource source).lineRanges target).Sublist (index.lineRanges target) := by
  rw [lineRanges, rangesOf_withoutSource consistent]
  exact OrderedMap.keys_filterMap_sublist _ _

theorem rangesOf_withoutTarget (index : ReferenceIndex) (target other : Path) :
    (index.withoutTarget target).rangesOf other =
      if target == other then .empty else index.rangesOf other := by
  rw [rangesOf, get?_targets_withoutTarget]
  split <;> rfl

theorem referencesTo_removeFile {index : ReferenceIndex} (consistent : index.Consistent)
    (file target : Path) (lines : LineRange) :
    (index.removeFile file).referencesTo target lines =
      (index.referencesTo target lines).filter fun reference =>
        !(reference.source == file || file == target) := by
  change ((index.withoutSource file).withoutTarget file).referencesTo target lines = _
  rw [referencesTo, rangesOf_withoutTarget]
  split
  · next isTarget => simp [isTarget, OrderedMap.get?_empty]
  · next notTarget =>
    simp only [notTarget, Bool.or_false]
    exact referencesTo_withoutSource consistent file target lines

theorem lineRanges_removeFile_sublist {index : ReferenceIndex} (consistent : index.Consistent)
    (file target : Path) :
    ((index.removeFile file).lineRanges target).Sublist (index.lineRanges target) := by
  change (((index.withoutSource file).withoutTarget file).lineRanges target).Sublist _
  rw [lineRanges, rangesOf_withoutTarget]
  split
  · exact List.nil_sublist _
  · exact lineRanges_withoutSource_sublist consistent file target

theorem version_withoutSource (index : ReferenceIndex) (source : Path) :
    (index.withoutSource source).version = index.version := by
  unfold withoutSource
  split <;> rfl

theorem version_withoutTarget (index : ReferenceIndex) (target : Path) :
    (index.withoutTarget target).version = index.version := by
  unfold withoutTarget
  split <;> rfl

end CodePointers.ReferenceIndex
