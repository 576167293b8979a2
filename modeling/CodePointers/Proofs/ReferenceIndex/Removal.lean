import CodePointers.Proofs.ReferenceIndex.Table

/-!
Removals from the reverse index, on the side of the sources and on the side of the targets, and
the indexes that any sequence of changes leads to.
-/

namespace CodePointers.ReferenceIndex

/-! Dropping the references out of a source. -/

theorem nonempty_eq_some_iff {references kept : List Reference} :
    nonempty references = some kept ↔ references = kept ∧ kept ≠ [] := by
  unfold nonempty
  split
  · next empty =>
    simp only [reduceCtorEq, false_iff]
    rintro ⟨rfl, someKept⟩
    exact someKept (List.isEmpty_iff.mp empty)
  · next notEmpty =>
    simp only [Option.some.injEq]
    constructor
    · rintro rfl
      exact ⟨rfl, fun empty => notEmpty (List.isEmpty_iff.mpr empty)⟩
    · exact fun same => same.1

theorem find?_nonempty (references : List Reference) (predicate : Reference → Bool) :
    (nonempty references).bind (·.find? predicate) = references.find? predicate := by
  unfold nonempty
  split
  · next none =>
    rw [List.isEmpty_iff.mp none]
    rfl
  · rfl

theorem find?_filter_source (references : List Reference) (source other : Path) :
    (references.filter fun reference => !(reference.source == source)).find?
        (fun reference => reference.source == other) =
      if source == other then none
      else references.find? fun reference => reference.source == other := by
  rw [List.find?_filter]
  by_cases same : source == other
  · rw [if_pos same, List.find?_eq_none]
    intro reference _
    rw [← BEq.congr_right same]
    simp
  · rw [if_neg same]
    congr 1
    funext reference
    cases found : reference.source == other with
    | false => simp
    | true =>
        have apart : (reference.source == source) = false :=
          Bool.eq_false_iff.mpr fun isSource =>
            same (BEq.trans (BEq.symm isSource) found)
        simp [apart]

def keptRanges (source : Path) (ranges : RangeMap) : RangeMap :=
  ranges.filterMap fun _ references =>
    nonempty (references.filter fun reference => !(reference.source == source))

theorem get?_dropSource {source : Path} {targets : OrderedMap Path RangeMap} {target : Path}
    {ranges : RangeMap} (hasTarget : targets.get? target = some ranges) (other : Path) :
    (dropSource source targets target).get? other =
      if target == other then
        if (keptRanges source ranges).isEmpty then none else some (keptRanges source ranges)
      else targets.get? other := by
  unfold dropSource
  rw [hasTarget]
  change (if (keptRanges source ranges).isEmpty = true then _ else _ :
    OrderedMap Path RangeMap).get? other = _
  split
  · rw [OrderedMap.get?_erase]
  · rw [OrderedMap.get?_insert]
    rfl

theorem storedIn?_dropSource (source : Path) (targets : OrderedMap Path RangeMap)
    (target other : Path) (lines : LineRange) (from? : Path) :
    storedIn? (dropSource source targets target) other lines from? =
      if source == from? ∧ target == other then none else storedIn? targets other lines from? := by
  cases hasTarget : targets.get? target with
  | none =>
      have same : dropSource source targets target = targets := by simp [dropSource, hasTarget]
      rw [same]
      split
      · next dropped =>
        rw [storedIn?, ← targets.get?_congr dropped.2, hasTarget]
        rfl
      · rfl
  | some ranges =>
      unfold storedIn?
      rw [get?_dropSource hasTarget]
      by_cases sameTarget : target == other
      · have keptLines : ((if (keptRanges source ranges).isEmpty then none
            else some (keptRanges source ranges)).bind (·.get? lines)) =
              (keptRanges source ranges).get? lines := by
          split
          · next none => exact (OrderedMap.isEmpty_iff.mp none lines).symm
          · rfl
        rw [if_pos sameTarget, keptLines, keptRanges, OrderedMap.get?_filterMap,
          Option.bind_assoc, ← targets.get?_congr sameTarget, hasTarget, Option.bind_some]
        simp only [find?_nonempty, find?_filter_source, sameTarget, and_true]
        split <;> simp
      · simp [sameTarget]

theorem soundTargets_dropSource {targets : OrderedMap Path RangeMap} (sound : SoundTargets targets)
    (source target : Path) : SoundTargets (dropSource source targets target) := by
  intro other ranges found
  cases hasTarget : targets.get? target with
  | none =>
      have same : dropSource source targets target = targets := by simp [dropSource, hasTarget]
      rw [same] at found
      exact sound found
  | some old =>
      rw [get?_dropSource hasTarget] at found
      split at found
      · split at found
        · cases found
        · next notEmpty =>
          cases found
          constructor
          · exact fun none => notEmpty (List.isEmpty_iff.mpr none)
          · intro lines references hasLines
            rw [keptRanges, OrderedMap.get?_filterMap] at hasLines
            obtain ⟨before, hadLines, isKept⟩ := Option.bind_eq_some_iff.mp hasLines
            obtain ⟨rfl, someKept⟩ := nonempty_eq_some_iff.mp isKept
            have soundBefore := (sound hasTarget).references hadLines
            exact ⟨someKept,
              fun reference member =>
                soundBefore.lines_eq reference (List.mem_filter.mp member).1,
              soundBefore.distinct.filter _⟩
      · exact sound found

theorem storedIn?_foldl_dropSource (source : Path) (pointedAt : List Path)
    (targets : OrderedMap Path RangeMap) (target : Path) (lines : LineRange) (from? : Path) :
    storedIn? (pointedAt.foldl (dropSource source) targets) target lines from? =
      if source == from? ∧ ∃ other ∈ pointedAt, other == target then none
      else storedIn? targets target lines from? := by
  induction pointedAt generalizing targets with
  | nil => simp
  | cons head rest ih =>
      rw [List.foldl_cons, ih, storedIn?_dropSource]
      by_cases sameSource : source == from?
      · by_cases isHead : head == target <;> simp [sameSource, isHead]
      · simp [sameSource]

theorem soundTargets_foldl_dropSource {targets : OrderedMap Path RangeMap}
    (sound : SoundTargets targets) (source : Path) (pointedAt : List Path) :
    SoundTargets (pointedAt.foldl (dropSource source) targets) := by
  induction pointedAt generalizing targets with
  | nil => exact sound
  | cons head rest ih => exact ih (soundTargets_dropSource sound source head)

theorem soundTargets_withoutSource {index : ReferenceIndex} (sound : SoundTargets index.targets)
    (source : Path) : SoundTargets (index.withoutSource source).targets := by
  unfold withoutSource
  split
  · exact sound
  · exact soundTargets_foldl_dropSource sound source _

theorem stored?_withoutSource {index : ReferenceIndex} (consistent : index.Consistent)
    (source target : Path) (lines : LineRange) (other : Path) :
    (index.withoutSource source).stored? target lines other =
      if source == other then none else index.stored? target lines other := by
  -- A source without a link to the target has nothing stored there that could be dropped.
  have unlinked (notLinked : ¬Links index.sources source target) (same : source == other) :
      index.stored? target lines other = none := by
    rw [← index.stored?_congr lines BEq.rfl same]
    cases isStored : index.stored? target lines source with
    | none => rfl
    | some reference =>
        exact absurd ((consistent.links_iff _ _).mpr ⟨lines, by rw [isStored]; rfl⟩) notLinked
  unfold withoutSource
  split
  · next found =>
      split
      · next same => exact unlinked (fun ⟨_, isLinked, _⟩ => nomatch found.symm.trans isLinked) same
      · rfl
  · next pointedAt found =>
      change storedIn? (pointedAt.foldl (dropSource source) index.targets) target lines other = _
      rw [storedIn?_foldl_dropSource]
      by_cases same : source == other
      · rw [if_pos same]
        split
        · rfl
        · next notIn =>
          refine unlinked ?_ same
          rintro ⟨linked, isLinked, hasTarget⟩
          cases found.symm.trans isLinked
          exact notIn ⟨same, hasTarget⟩
      · simp [same]
        rfl

theorem get?_sources_withoutSource (index : ReferenceIndex) (source other : Path) :
    (index.withoutSource source).sources.get? other =
      if source == other then none else index.sources.get? other := by
  unfold withoutSource
  split
  · next found =>
      split
      · next same => rw [← index.sources.get?_congr same, found]
      · rfl
  · exact OrderedMap.get?_erase _ _ _

theorem Consistent.withoutSource {index : ReferenceIndex} (consistent : index.Consistent)
    (source : Path) : (index.withoutSource source).Consistent where
  targets := soundTargets_withoutSource consistent.targets source
  sources {other pointedAt} found := by
    rw [get?_sources_withoutSource] at found
    split at found
    · cases found
    · exact consistent.sources found
  links_iff other target := by
    unfold Links
    simp only [get?_sources_withoutSource, stored?_withoutSource consistent]
    split
    · simp
    · exact consistent.links_iff other target

/-! Dropping the references into a target. -/

theorem get?_unlink (target : Path) (sources : OrderedMap Path (List Path)) (source other : Path) :
    (unlink target sources source).get? other =
      if source == other then
        (sources.get? other).bind fun pointedAt =>
          let kept := pointedAt.filter fun linked => !(linked == target)
          if kept.isEmpty then none else some kept
      else sources.get? other := by
  unfold unlink
  by_cases same : source == other
  · rw [if_pos same, ← sources.get?_congr same]
    cases found : sources.get? source with
    | none => rw [← sources.get?_congr same, found]; rfl
    | some pointedAt =>
        simp only [Option.bind_some]
        split
        · rw [OrderedMap.get?_erase, if_pos same]
        · rw [OrderedMap.get?_insert, if_pos same]
  · rw [if_neg same]
    split
    · rfl
    · dsimp only
      split
      · rw [OrderedMap.get?_erase, if_neg same]
      · rw [OrderedMap.get?_insert, if_neg same]

theorem exists_mem_unlinked_iff {target other : Path} {pointedAt : List Path} :
    (∃ linked ∈ pointedAt.filter fun linked => !(linked == target), linked == other) ↔
      (∃ linked ∈ pointedAt, linked == other) ∧ (target == other) = false := by
  constructor
  · rintro ⟨linked, member, same⟩
    obtain ⟨inOld, notTarget⟩ := List.mem_filter.mp member
    refine ⟨⟨linked, inOld, same⟩, Bool.eq_false_iff.mpr fun isTarget => ?_⟩
    simp [BEq.trans same (BEq.symm isTarget)] at notTarget
  · rintro ⟨⟨linked, inOld, same⟩, notTarget⟩
    refine ⟨linked, List.mem_filter.mpr ⟨inOld, ?_⟩, same⟩
    rw [BEq.congr_left same, BEq.comm, notTarget]
    rfl

theorem links_unlink_iff (target : Path) (sources : OrderedMap Path (List Path))
    (source from? into : Path) :
    Links (unlink target sources source) from? into ↔
      Links sources from? into ∧ ¬(source == from? ∧ target == into) := by
  unfold Links
  rw [get?_unlink]
  by_cases same : source == from?
  · rw [if_pos same]
    cases sources.get? from? with
    | none => simp
    | some pointedAt =>
        simp only [same, Option.bind_some, true_and, Bool.not_eq_true, Option.some.injEq,
          exists_eq_left']
        rw [← exists_mem_unlinked_iff]
        split
        · next none => simp [List.isEmpty_iff.mp none]
        · simp
  · simp [same]

theorem soundSources_unlink {sources : OrderedMap Path (List Path)} (sound : SoundSources sources)
    (target source : Path) : SoundSources (unlink target sources source) := by
  intro other pointedAt found
  rw [get?_unlink] at found
  split at found
  · obtain ⟨before, hadLinks, isKept⟩ := Option.bind_eq_some_iff.mp found
    dsimp only at isKept
    split at isKept
    · cases isKept
    · next notEmpty =>
      cases isKept
      exact ⟨fun none => notEmpty (List.isEmpty_iff.mpr none), (sound hadLinks).distinct.filter _⟩
  · exact sound found

theorem links_foldl_unlink_iff (target : Path) (removed : List Path)
    (sources : OrderedMap Path (List Path)) (from? into : Path) :
    Links (removed.foldl (unlink target) sources) from? into ↔
      Links sources from? into ∧ ¬(target == into ∧ ∃ source ∈ removed, source == from?) := by
  induction removed generalizing sources with
  | nil => simp
  | cons head rest ih =>
      rw [List.foldl_cons, ih, links_unlink_iff]
      by_cases isTarget : target == into
      · by_cases isHead : head == from? <;> simp [isTarget, isHead]
      · simp [isTarget]

theorem soundSources_foldl_unlink {sources : OrderedMap Path (List Path)}
    (sound : SoundSources sources) (target : Path) (removed : List Path) :
    SoundSources (removed.foldl (unlink target) sources) := by
  induction removed generalizing sources with
  | nil => exact sound
  | cons head rest ih => exact ih (soundSources_unlink sound target head)

theorem get?_targets_withoutTarget (index : ReferenceIndex) (target other : Path) :
    (index.withoutTarget target).targets.get? other =
      if target == other then none else index.targets.get? other := by
  unfold withoutTarget
  split
  · next found =>
      split
      · next same => rw [← index.targets.get?_congr same, found]
      · rfl
  · exact OrderedMap.get?_erase _ _ _

theorem stored?_withoutTarget (index : ReferenceIndex) (target other : Path) (lines : LineRange)
    (source : Path) :
    (index.withoutTarget target).stored? other lines source =
      if target == other then none else index.stored? other lines source := by
  unfold stored? storedIn?
  rw [get?_targets_withoutTarget]
  split <;> rfl

theorem exists_source_of_stored? {ranges : RangeMap} {lines : LineRange} {source : Path}
    {index : ReferenceIndex} {target : Path} (hasTarget : index.targets.get? target = some ranges)
    (isStored : (index.stored? target lines source).isSome) :
    ∃ other ∈ ranges.values.flatten.map Reference.source, other == source := by
  obtain ⟨reference, found⟩ := Option.isSome_iff_exists.mp isStored
  have sameSource := source_of_stored? found
  unfold stored? storedIn? at found
  rw [hasTarget, Option.bind_some] at found
  obtain ⟨references, hasLines, isFound⟩ := Option.bind_eq_some_iff.mp found
  obtain ⟨stored, inRanges, _⟩ := OrderedMap.exists_mem_of_get? hasLines
  refine ⟨reference.source, List.mem_map.mpr ⟨reference, ?_, rfl⟩, sameSource⟩
  exact List.mem_flatten.mpr
    ⟨references, List.mem_map.mpr ⟨_, inRanges, rfl⟩, List.mem_of_find?_eq_some isFound⟩

theorem links_withoutTarget_iff {index : ReferenceIndex} (consistent : index.Consistent)
    (target source other : Path) :
    Links (index.withoutTarget target).sources source other ↔
      Links index.sources source other ∧ (target == other) = false := by
  unfold withoutTarget
  split
  · next found =>
      refine ⟨fun links => ⟨links, Bool.eq_false_iff.mpr fun same => ?_⟩, fun links => links.1⟩
      obtain ⟨lines, isStored⟩ := (consistent.links_iff source other).mp links
      unfold stored? storedIn? at isStored
      rw [← index.targets.get?_congr same, found] at isStored
      cases isStored
  · next ranges found =>
      rw [links_foldl_unlink_iff]
      refine and_congr_right fun links => ?_
      rw [← Bool.not_eq_true]
      refine not_congr ⟨fun gone => gone.1, fun same => ⟨same, ?_⟩⟩
      obtain ⟨lines, isStored⟩ := (consistent.links_iff source other).mp links
      rw [← index.stored?_congr lines same BEq.rfl] at isStored
      exact exists_source_of_stored? found isStored

theorem soundSources_withoutTarget {index : ReferenceIndex} (sound : SoundSources index.sources)
    (target : Path) : SoundSources (index.withoutTarget target).sources := by
  unfold withoutTarget
  split
  · exact sound
  · exact soundSources_foldl_unlink sound target _

theorem Consistent.withoutTarget {index : ReferenceIndex} (consistent : index.Consistent)
    (target : Path) : (index.withoutTarget target).Consistent where
  targets {other ranges} found := by
    rw [get?_targets_withoutTarget] at found
    split at found
    · cases found
    · exact consistent.targets found
  sources := soundSources_withoutTarget consistent.sources target
  links_iff source other := by
    rw [links_withoutTarget_iff consistent, consistent.links_iff]
    simp only [stored?_withoutTarget]
    split <;> simp_all

/-! The public changes. -/

theorem Consistent.touched {index : ReferenceIndex} (consistent : index.Consistent) :
    index.touched.Consistent :=
  ⟨consistent.targets, consistent.sources, consistent.links_iff⟩

theorem Consistent.removeOutbound {index : ReferenceIndex} (consistent : index.Consistent)
    (source : Path) : (index.removeOutbound source).1.Consistent :=
  (consistent.withoutSource source).touched

theorem Consistent.removeFile {index : ReferenceIndex} (consistent : index.Consistent)
    (file : Path) : (index.removeFile file).Consistent :=
  ((consistent.withoutSource file).withoutTarget file).touched

theorem Consistent.clear (index : ReferenceIndex) : index.clear.Consistent :=
  ⟨consistent_empty.targets, consistent_empty.sources, consistent_empty.links_iff⟩

theorem stored?_removeOutbound {index : ReferenceIndex} (consistent : index.Consistent)
    (source target : Path) (lines : LineRange) (other : Path) :
    (index.removeOutbound source).1.stored? target lines other =
      if source == other then none else index.stored? target lines other :=
  stored?_withoutSource consistent source target lines other

theorem stored?_removeFile {index : ReferenceIndex} (consistent : index.Consistent)
    (file target : Path) (lines : LineRange) (source : Path) :
    (index.removeFile file).stored? target lines source =
      if file == target ∨ file == source then none else index.stored? target lines source := by
  change ((index.withoutSource file).withoutTarget file).stored? target lines source = _
  rw [stored?_withoutTarget, stored?_withoutSource consistent]
  by_cases isTarget : file == target <;> simp [isTarget]

inductive Reachable : ReferenceIndex → Prop
  | empty : Reachable empty
  | insert {index} (target reference) :
      Reachable index → Reachable (index.insert target reference).1
  | removeOutbound {index} (source) : Reachable index → Reachable (index.removeOutbound source).1
  | removeFile {index} (file) : Reachable index → Reachable (index.removeFile file)
  | clear {index} : Reachable index → Reachable index.clear

theorem Reachable.consistent {index : ReferenceIndex} (reachable : Reachable index) :
    index.Consistent := by
  induction reachable with
  | empty => exact consistent_empty
  | insert target reference _ ih => exact ih.insert target reference
  | removeOutbound source _ ih => exact ih.removeOutbound source
  | removeFile file _ ih => exact ih.removeFile file
  | clear _ _ => exact .clear _

end CodePointers.ReferenceIndex
