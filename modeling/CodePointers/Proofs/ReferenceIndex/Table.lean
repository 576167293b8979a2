import CodePointers.Proofs.OrderedMap
import CodePointers.ReferenceIndex

/-!
The reverse index as a keyed table: a target, a line range and a source have at most one
reference. Each change of the index is described by what it does to that table, on indexes whose
two maps agree with each other.
-/

namespace CodePointers.ReferenceIndex

def storedIn? (targets : OrderedMap Path RangeMap) (target : Path) (lines : LineRange)
    (source : Path) : Option Reference :=
  ((targets.get? target).bind (·.get? lines)).bind fun references =>
    references.find? fun reference => reference.source == source

def stored? (index : ReferenceIndex) (target : Path) (lines : LineRange) (source : Path) :
    Option Reference :=
  storedIn? index.targets target lines source

def Links (sources : OrderedMap Path (List Path)) (source target : Path) : Prop :=
  ∃ pointedAt, sources.get? source = some pointedAt ∧ ∃ other ∈ pointedAt, other == target

structure SoundReferences (lines : LineRange) (references : List Reference) : Prop where
  nonempty : references ≠ []
  lines_eq : ∀ reference ∈ references, reference.lines = lines
  distinct : references.Pairwise fun left right => (left.source == right.source) = false

structure SoundRanges (ranges : RangeMap) : Prop where
  nonempty : ranges.entries ≠ []
  references : ∀ {lines references}, ranges.get? lines = some references →
    SoundReferences lines references

def SoundTargets (targets : OrderedMap Path RangeMap) : Prop :=
  ∀ {target ranges}, targets.get? target = some ranges → SoundRanges ranges

structure SoundLinks (pointedAt : List Path) : Prop where
  nonempty : pointedAt ≠ []
  distinct : pointedAt.Pairwise fun left right => (left == right) = false

def SoundSources (sources : OrderedMap Path (List Path)) : Prop :=
  ∀ {source pointedAt}, sources.get? source = some pointedAt → SoundLinks pointedAt

/-- Nothing is empty, keys are unique, and the map of sources links exactly what is stored. -/
structure Consistent (index : ReferenceIndex) : Prop where
  targets : SoundTargets index.targets
  sources : SoundSources index.sources
  links_iff : ∀ source target,
    Links index.sources source target ↔ ∃ lines, (index.stored? target lines source).isSome

theorem stored?_congr (index : ReferenceIndex) {target target' source source' : Path}
    (lines : LineRange) (sameTarget : target == target') (sameSource : source == source') :
    index.stored? target lines source = index.stored? target' lines source' := by
  unfold stored? storedIn?
  rw [index.targets.get?_congr sameTarget]
  congr 1
  funext references
  congr 1
  funext reference
  exact BEq.congr_right sameSource

theorem source_of_stored? {index : ReferenceIndex} {target source : Path} {lines : LineRange}
    {reference : Reference} (found : index.stored? target lines source = some reference) :
    (reference.source == source) = true := by
  obtain ⟨references, _, isFound⟩ := Option.bind_eq_some_iff.mp found
  simpa using List.find?_some isFound

theorem lines_of_stored? {index : ReferenceIndex} (sound : SoundTargets index.targets)
    {target source : Path} {lines : LineRange} {reference : Reference}
    (found : index.stored? target lines source = some reference) : reference.lines = lines := by
  obtain ⟨references, inTargets, isFound⟩ := Option.bind_eq_some_iff.mp found
  obtain ⟨ranges, hasTarget, hasLines⟩ := Option.bind_eq_some_iff.mp inTargets
  exact ((sound hasTarget).references hasLines).lines_eq reference
    (List.mem_of_find?_eq_some isFound)

theorem Links.congr {sources : OrderedMap Path (List Path)} {source source' target target' : Path}
    (links : Links sources source target) (sameSource : source == source')
    (sameTarget : target == target') : Links sources source' target' := by
  obtain ⟨pointedAt, found, other, member, same⟩ := links
  rw [sources.get?_congr sameSource] at found
  exact ⟨pointedAt, found, other, member, BEq.trans same sameTarget⟩

/-! The empty index. -/

theorem consistent_empty : empty.Consistent where
  targets found := nomatch found
  sources found := nomatch found
  links_iff source target := by
    constructor
    · rintro ⟨pointedAt, found, _⟩
      cases found
    · rintro ⟨lines, found⟩
      cases found

/-! Recording a reference. -/

theorem find?_placeReference {reference : Reference} {references : List Reference}
    (sameLines : ∀ stored ∈ references, stored.lines = reference.lines) (source : Path) :
    (placeReference reference references).find? (fun stored => stored.source == source) =
      if reference.source == source then some reference
      else references.find? fun stored => stored.source == source := by
  induction references with
  | nil =>
      rw [placeReference, List.find?_cons]
      split <;> simp_all
  | cons head rest ih =>
      have headLines : head.lines = reference.lines := sameLines head List.mem_cons_self
      have restIh := ih fun stored member => sameLines stored (List.mem_cons_of_mem _ member)
      have keyEq : head.sameKey reference = (head.source == reference.source) := by
        simp [Reference.sameKey, headLines]
      rw [placeReference, keyEq]
      by_cases same : head.source == reference.source
      · rw [if_pos same, List.find?_cons, List.find?_cons, BEq.congr_left same]
        split <;> simp_all
      · rw [if_neg same, List.find?_cons, List.find?_cons]
        by_cases isHead : head.source == source
        · have apart : (reference.source == source) = false :=
            Bool.eq_false_iff.mpr fun isReference =>
              same (BEq.trans isHead (BEq.symm isReference))
          simp [isHead, apart]
        · simp only [isHead]
          exact restIh

theorem any_sameKey_iff {reference : Reference} {references : List Reference}
    (sameLines : ∀ stored ∈ references, stored.lines = reference.lines) :
    (references.any fun stored => stored.sameKey reference) = true ↔
      (references.find? fun stored => stored.source == reference.source).isSome := by
  rw [List.any_eq_true, List.find?_isSome]
  refine exists_congr fun stored => and_congr_right fun member => ?_
  simp [Reference.sameKey, sameLines stored member]

theorem mem_placeReference {reference stored : Reference} {references : List Reference}
    (member : stored ∈ placeReference reference references) :
    stored = reference ∨ stored ∈ references := by
  induction references with
  | nil => exact .inl (List.mem_singleton.mp member)
  | cons head rest ih =>
      rw [placeReference] at member
      split at member
      · rcases List.mem_cons.mp member with rfl | inRest
        · exact .inl rfl
        · exact .inr (List.mem_cons_of_mem _ inRest)
      · rcases List.mem_cons.mp member with rfl | inRest
        · exact .inr List.mem_cons_self
        · exact (ih inRest).imp id (List.mem_cons_of_mem _)

theorem placeReference_ne_nil (reference : Reference) (references : List Reference) :
    placeReference reference references ≠ [] := by
  cases references with
  | nil => simp [placeReference]
  | cons head rest =>
      rw [placeReference]
      split <;> simp

theorem placeReference_distinct {reference : Reference} {references : List Reference}
    (sameLines : ∀ stored ∈ references, stored.lines = reference.lines)
    (distinct : references.Pairwise fun left right => (left.source == right.source) = false) :
    (placeReference reference references).Pairwise
      fun left right => (left.source == right.source) = false := by
  induction references with
  | nil => exact List.pairwise_singleton _ _
  | cons head rest ih =>
      obtain ⟨apart, restDistinct⟩ := List.pairwise_cons.mp distinct
      have keyEq : head.sameKey reference = (head.source == reference.source) := by
        simp [Reference.sameKey, sameLines head List.mem_cons_self]
      rw [placeReference, keyEq]
      split
      · next same =>
        refine List.pairwise_cons.mpr ⟨fun stored member => ?_, restDistinct⟩
        rw [← BEq.congr_left same]
        exact apart stored member
      · next differs =>
        refine List.pairwise_cons.mpr
          ⟨?_, ih (fun stored member => sameLines stored (List.mem_cons_of_mem _ member))
            restDistinct⟩
        intro stored member
        rcases mem_placeReference member with rfl | inRest
        · exact Bool.eq_false_iff.mpr differs
        · exact apart stored inRest

theorem get?_rangesOf (index : ReferenceIndex) (target : Path) (lines : LineRange) :
    (index.rangesOf target).get? lines = (index.targets.get? target).bind (·.get? lines) := by
  unfold rangesOf
  cases index.targets.get? target <;> rfl

def referencesTo (index : ReferenceIndex) (target : Path) (lines : LineRange) : List Reference :=
  ((index.rangesOf target).get? lines).getD []

theorem stored?_eq_find? (index : ReferenceIndex) (target : Path) (lines : LineRange)
    (source : Path) :
    index.stored? target lines source =
      (index.referencesTo target lines).find? fun reference => reference.source == source := by
  unfold referencesTo stored? storedIn?
  rw [get?_rangesOf]
  cases (index.targets.get? target).bind (·.get? lines) <;> rfl

theorem soundReferences_or_nil {index : ReferenceIndex} (sound : SoundTargets index.targets)
    (target : Path) (lines : LineRange) :
    index.referencesTo target lines = [] ∨
      SoundReferences lines (index.referencesTo target lines) := by
  unfold referencesTo
  cases found : (index.rangesOf target).get? lines with
  | none => exact .inl rfl
  | some references =>
      rw [get?_rangesOf] at found
      obtain ⟨ranges, hasTarget, hasLines⟩ := Option.bind_eq_some_iff.mp found
      exact .inr ((sound hasTarget).references hasLines)

theorem lines_of_mem_referencesTo {index : ReferenceIndex} (sound : SoundTargets index.targets)
    {target : Path} {lines : LineRange} {reference : Reference}
    (member : reference ∈ index.referencesTo target lines) : reference.lines = lines := by
  rcases soundReferences_or_nil sound target lines with none | references
  · rw [none] at member
    cases member
  · exact references.lines_eq reference member

theorem referencesTo_distinct {index : ReferenceIndex} (sound : SoundTargets index.targets)
    (target : Path) (lines : LineRange) :
    (index.referencesTo target lines).Pairwise
      fun left right => (left.source == right.source) = false := by
  rcases soundReferences_or_nil sound target lines with none | references
  · rw [none]
    exact List.Pairwise.nil
  · exact references.distinct

theorem targets_insert (index : ReferenceIndex) (target : Path) (reference : Reference) :
    (index.insert target reference).1.targets = index.targets.insert target
      ((index.rangesOf target).insert reference.lines
        (placeReference reference (index.referencesTo target reference.lines))) := rfl

theorem stored?_insert {index : ReferenceIndex} (sound : SoundTargets index.targets)
    (target : Path) (reference : Reference) (other : Path) (lines : LineRange) (source : Path) :
    (index.insert target reference).1.stored? other lines source =
      if target == other ∧ reference.lines = lines ∧ reference.source == source then
        some reference
      else index.stored? other lines source := by
  unfold stored? storedIn?
  rw [targets_insert, OrderedMap.get?_insert]
  by_cases sameTarget : target == other
  · rw [if_pos sameTarget, Option.bind_some, OrderedMap.get?_insert]
    by_cases sameLines : reference.lines = lines
    · rw [if_pos (beq_iff_eq.mpr sameLines), Option.bind_some,
        find?_placeReference fun stored member => lines_of_mem_referencesTo sound member,
        ← stored?_eq_find?, index.stored?_congr _ sameTarget BEq.rfl, sameLines]
      simp [sameTarget, stored?, storedIn?]
    · rw [if_neg (by simpa using sameLines), get?_rangesOf,
        index.targets.get?_congr sameTarget]
      simp [sameLines]
  · simp [sameTarget]

theorem soundTargets_insert {index : ReferenceIndex} (sound : SoundTargets index.targets)
    (target : Path) (reference : Reference) :
    SoundTargets (index.insert target reference).1.targets := by
  intro other ranges found
  rw [targets_insert, OrderedMap.get?_insert] at found
  split at found
  · cases found
    constructor
    · have placed := OrderedMap.get?_insert (index.rangesOf target) reference.lines reference.lines
        (placeReference reference (index.referencesTo target reference.lines))
      rw [if_pos BEq.rfl] at placed
      exact OrderedMap.entries_ne_nil_of_get? placed
    · intro lines references hasLines
      rw [OrderedMap.get?_insert] at hasLines
      have sameLines : ∀ stored ∈ index.referencesTo target reference.lines,
          stored.lines = reference.lines :=
        fun stored member => lines_of_mem_referencesTo sound member
      split at hasLines
      · next linesEq =>
        cases hasLines
        rw [← beq_iff_eq.mp linesEq]
        refine ⟨placeReference_ne_nil _ _, ?_,
          placeReference_distinct sameLines (referencesTo_distinct sound _ _)⟩
        intro stored member
        rcases mem_placeReference member with rfl | inOld
        · rfl
        · exact sameLines stored inOld
      · rw [get?_rangesOf] at hasLines
        obtain ⟨old, hasTarget, inOld⟩ := Option.bind_eq_some_iff.mp hasLines
        exact (sound hasTarget).references inOld
  · exact sound found

def withLink (target : Path) (pointedAt : List Path) : List Path :=
  if pointedAt.any (· == target) then pointedAt else pointedAt ++ [target]

theorem exists_mem_withLink_iff {target other : Path} {pointedAt : List Path} :
    (∃ linked ∈ withLink target pointedAt, linked == other) ↔
      (∃ linked ∈ pointedAt, linked == other) ∨ target == other := by
  unfold withLink
  split
  · next known =>
    obtain ⟨linked, member, same⟩ := List.any_eq_true.mp known
    refine ⟨.inl, ?_⟩
    rintro (found | isTarget)
    · exact found
    · exact ⟨linked, member, BEq.trans same isTarget⟩
  · constructor
    · rintro ⟨linked, member, same⟩
      rcases List.mem_append.mp member with inOld | isNew
      · exact .inl ⟨linked, inOld, same⟩
      · rw [List.mem_singleton] at isNew
        subst isNew
        exact .inr same
    · rintro (⟨linked, member, same⟩ | isTarget)
      · exact ⟨linked, List.mem_append_left _ member, same⟩
      · exact ⟨target, List.mem_append_right _ (List.mem_singleton.mpr rfl), isTarget⟩

theorem soundLinks_withLink {target : Path} {pointedAt : List Path}
    (distinct : pointedAt.Pairwise fun left right => (left == right) = false) :
    SoundLinks (withLink target pointedAt) := by
  unfold withLink
  split
  · next known =>
    refine ⟨?_, distinct⟩
    rintro rfl
    simp at known
  · next unknown =>
    refine ⟨by simp, ?_⟩
    refine List.pairwise_append.mpr ⟨distinct, List.pairwise_singleton _ _, ?_⟩
    intro linked member other isTarget
    rw [List.mem_singleton] at isTarget
    subst isTarget
    exact Bool.eq_false_iff.mpr fun same => unknown (List.any_eq_true.mpr ⟨linked, member, same⟩)

theorem sources_insert (index : ReferenceIndex) (target : Path) (reference : Reference) :
    (index.insert target reference).1.sources =
      if (index.referencesTo target reference.lines).any (·.sameKey reference) then index.sources
      else index.sources.insert reference.source
        (withLink target ((index.sources.get? reference.source).getD [])) := rfl

theorem links_insert_iff {index : ReferenceIndex} (consistent : index.Consistent)
    (target : Path) (reference : Reference) (source other : Path) :
    Links (index.insert target reference).1.sources source other ↔
      Links index.sources source other ∨ (reference.source == source) = true ∧ target == other := by
  unfold Links
  rw [sources_insert]
  split
  · next known =>
    refine ⟨.inl, ?_⟩
    rintro (links | ⟨sameSource, sameTarget⟩)
    · exact links
    · rw [any_sameKey_iff fun stored member =>
        lines_of_mem_referencesTo consistent.targets member, ← stored?_eq_find?] at known
      exact ((consistent.links_iff _ _).mpr ⟨_, known⟩).congr sameSource sameTarget
  · rw [OrderedMap.get?_insert]
    by_cases sameSource : reference.source == source
    · rw [if_pos sameSource, index.sources.get?_congr sameSource]
      simp only [Option.some.injEq, exists_eq_left', exists_mem_withLink_iff, sameSource, true_and]
      cases index.sources.get? source with
      | none => simp
      | some pointedAt => simp
    · simp [sameSource]

theorem soundSources_insert {index : ReferenceIndex} (sound : SoundSources index.sources)
    (target : Path) (reference : Reference) :
    SoundSources (index.insert target reference).1.sources := by
  intro source pointedAt found
  rw [sources_insert] at found
  split at found
  · exact sound found
  · rw [OrderedMap.get?_insert] at found
    split at found
    · cases found
      apply soundLinks_withLink
      cases old : index.sources.get? reference.source with
      | none => exact List.Pairwise.nil
      | some pointedAt => exact (sound old).distinct
    · exact sound found

theorem Consistent.insert {index : ReferenceIndex} (consistent : index.Consistent)
    (target : Path) (reference : Reference) :
    (index.insert target reference).1.Consistent where
  targets := soundTargets_insert consistent.targets target reference
  sources := soundSources_insert consistent.sources target reference
  links_iff source other := by
    rw [links_insert_iff consistent, consistent.links_iff]
    simp only [stored?_insert consistent.targets]
    constructor
    · rintro (⟨lines, found⟩ | ⟨sameSource, sameTarget⟩)
      · refine ⟨lines, ?_⟩
        split
        · rfl
        · exact found
      · exact ⟨reference.lines, by simp [sameSource, sameTarget]⟩
    · rintro ⟨lines, found⟩
      split at found
      · next sameKey => exact .inr ⟨sameKey.2.2, sameKey.1⟩
      · exact .inl ⟨lines, found⟩

end CodePointers.ReferenceIndex
