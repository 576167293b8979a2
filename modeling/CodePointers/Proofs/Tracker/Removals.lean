import CodePointers.Proofs.Disk.WorkspaceFiles
import CodePointers.Proofs.ReferenceIndex.Entries
import CodePointers.Proofs.Tracker.Coupling
import CodePointers.Proofs.Tracker.Fences

/-!
What is left of a tracker when files are forgotten: the pointers of all other sources, and of these
only the targets that are not gone.
-/

namespace CodePointers

namespace Tracker

def releaseFrom (gone : Path → Bool) (tracked : TrackedPointer) : TrackedPointer :=
  { tracked with target? := tracked.target?.filter fun target => !gone target }

/-- Whether the files of which some are gone are forgotten: as sources, and as targets. -/
structure Drops (gone : Path → Bool) (before after : Tracker) : Prop where
  congr : ∀ {path other : Path}, path == other → gone path = gone other
  layout : after.layout = before.layout
  settings : after.settings = before.settings
  tracked : ∀ source, after.tracked.get? source =
    if gone source then none else (before.tracked.get? source).map (List.map (releaseFrom gone))
  stored : ∀ target lines source, after.index.stored? target lines source =
    if gone target ∨ gone source then none else before.index.stored? target lines source

theorem releaseFrom_of_not_gone {gone : Path → Bool} {tracked : TrackedPointer}
    (stays : ∀ target, tracked.target? = some target → gone target = false) :
    releaseFrom gone tracked = tracked := by
  obtain ⟨pointer, start, stop, definitionLine, target?⟩ := tracked
  cases target? with
  | none => rfl
  | some target => simp [releaseFrom, Option.filter, stays target rfl]

theorem map_releaseFrom_of_not_gone {gone : Path → Bool} {pointers : List TrackedPointer}
    (stay : ∀ tracked ∈ pointers, ∀ target, tracked.target? = some target → gone target = false) :
    pointers.map (releaseFrom gone) = pointers := by
  have same : pointers.map (releaseFrom gone) = pointers.map id :=
    List.map_congr_left fun tracked member => releaseFrom_of_not_gone (stay tracked member)
  rw [same, List.map_id]

theorem releaseFrom_comp (gone more : Path → Bool) :
    releaseFrom more ∘ releaseFrom gone = releaseFrom fun path => gone path || more path := by
  funext tracked
  simp [releaseFrom, Option.filter_filter]

theorem release_eq_releaseFrom (file : Path) : release file = releaseFrom (file == ·) := by
  funext tracked
  rw [release_eq, releaseFrom]
  simp only [BEq.comm]

theorem drops_none (tracker : Tracker) : Drops (fun _ => false) tracker tracker where
  congr _ := rfl
  layout := rfl
  settings := rfl
  tracked source := by
    have same : List.map (releaseFrom fun _ => false) = id :=
      funext fun pointers => map_releaseFrom_of_not_gone fun _ _ _ _ => rfl
    rw [same, Option.map_id]
    rfl
  stored _ _ _ := by simp

theorem Drops.trans {gone more : Path → Bool} {first second third : Tracker}
    (left : Drops gone first second) (right : Drops more second third) :
    Drops (fun path => gone path || more path) first third where
  congr same := by rw [left.congr same, right.congr same]
  layout := right.layout.trans left.layout
  settings := right.settings.trans left.settings
  tracked source := by
    rw [right.tracked, left.tracked]
    cases gone source with
    | true => simp
    | false => cases before : first.tracked.get? source <;> simp [releaseFrom_comp]
  stored target lines source := by
    rw [right.stored, left.stored]
    cases gone target <;> cases gone source <;> simp

theorem drops_forget {tracker : Tracker} (consistent : tracker.index.Consistent) (file : Path) :
    Drops (file == ·) tracker (tracker.forget file) where
  congr same := BEq.congr_right same
  layout := rfl
  settings := rfl
  tracked source := by
    rw [tracked_forget, release_eq_releaseFrom]
  stored target lines source := stored?_forget consistent file target lines source

theorem drops_foldl_forget {tracker : Tracker} (consistent : tracker.index.Consistent)
    (files : List Path) :
    Drops (fun path => files.any (· == path)) tracker (files.foldl forget tracker) := by
  induction files generalizing tracker with
  | nil => exact drops_none tracker
  | cons file rest ih =>
      simp only [List.any_cons]
      exact (drops_forget consistent file).trans (ih (consistent_forget consistent file))

theorem Drops.pointersOf {gone : Path → Bool} {before after : Tracker}
    (drops : Drops gone before after) (source : Path) :
    after.pointersOf source =
      if gone source then [] else (before.pointersOf source).map (releaseFrom gone) := by
  rw [Tracker.pointersOf, drops.tracked]
  split
  · rfl
  · exact get?_map_getD ..

theorem Drops.lists {gone : Path → Bool} {before after : Tracker}
    (drops : Drops gone before after) {source : Path} {pointers : List TrackedPointer}
    (lists : Lists before source pointers) (stays : gone source = false)
    (targetsStay : ∀ tracked ∈ pointers, ∀ target, tracked.target? = some target →
      gone target = false) : Lists after source pointers where
  tracked := by
    rw [drops.tracked, stays, if_neg Bool.false_ne_true, lists.tracked, kept?]
    split
    · rfl
    · exact congrArg some (map_releaseFrom_of_not_gone targetsStay)
  stored target lines := by
    rw [drops.stored, lists.stored, stays]
    split
    · next isGone =>
      have isGone : gone target = true := by simpa using isGone
      cases found : lastInto? pointers target lines with
      | none => rfl
      | some tracked =>
          obtain ⟨member, points⟩ := mem_of_lastInto? found
          obtain ⟨_, own, isOwn, same⟩ := TrackedPointer.pointsTo_iff.mp points
          rw [← drops.congr same, targetsStay tracked member own isOwn] at isGone
          cases isGone
    · rfl

/-! The files that a removal visits. -/

def Knows (tracker : Tracker) (file : Path) : Prop :=
  (tracker.tracked.get? file).isSome ∨
    ∃ lines source, (tracker.index.stored? file lines source).isSome

theorem Knows.congr {tracker : Tracker} {file other : Path} (knows : tracker.Knows file)
    (same : file == other) : tracker.Knows other := by
  rcases knows with isTracked | ⟨lines, source, isStored⟩
  · exact .inl (by rwa [← tracker.tracked.get?_congr same])
  · exact .inr ⟨lines, source, by rwa [← tracker.index.stored?_congr lines same BEq.rfl]⟩

theorem knows_iff {tracker : Tracker} (consistent : tracker.index.Consistent) {file : Path} :
    tracker.Knows file ↔
      ∃ known ∈ tracker.tracked.keys ++ tracker.index.files, (known == file) = true := by
  rw [Knows, ← ReferenceIndex.exists_target_iff consistent, OrderedMap.get?_isSome_iff,
    OrderedMap.get?_isSome_iff]
  simp only [List.mem_append, or_and_right, exists_or]
  rfl

theorem exists_knownWithin_iff {tracker : Tracker} (consistent : tracker.index.Consistent)
    {path file : Path} (within : file.isWithin path = true) :
    (∃ known ∈ tracker.knownWithin path, (known == file) = true) ↔
      tracker.Knows file ∨ (file == path) = true := by
  rw [knownWithin, exists_mem_eraseDups_iff, knows_iff consistent]
  constructor
  · rintro ⟨known, member, same⟩
    rcases List.mem_append.mp member with inside | isPath
    · exact .inl ⟨known, (List.mem_filter.mp inside).1, same⟩
    · rw [List.mem_singleton.mp isPath] at same
      exact .inr (BEq.symm same)
  · rintro (⟨known, member, same⟩ | same)
    · have inside : known.isWithin path = true := by rw [Path.isWithin_congr same, within]
      exact ⟨known, List.mem_append_left _ (List.mem_filter.mpr ⟨member, inside⟩), same⟩
    · exact ⟨path, List.mem_append_right _ (List.mem_singleton_self _), BEq.symm same⟩

theorem isWithin_of_knownWithin {tracker : Tracker} {path file : Path}
    (known : ∃ known ∈ tracker.knownWithin path, (known == file) = true) :
    file.isWithin path = true := by
  rw [knownWithin, exists_mem_eraseDups_iff] at known
  obtain ⟨known, member, same⟩ := known
  rw [← Path.isWithin_congr same]
  rcases List.mem_append.mp member with inside | isPath
  · exact (List.mem_filter.mp inside).2
  · rw [List.mem_singleton.mp isPath]
    exact path.isWithin_self

theorem Coupled.knows_source {tracker : Tracker} (coupled : tracker.Coupled) {target source : Path}
    {lines : LineRange} (isStored : (tracker.index.stored? target lines source).isSome) :
    tracker.Knows source := by
  obtain ⟨reference, found⟩ := Option.isSome_iff_exists.mp isStored
  obtain ⟨tracked, member, _⟩ := coupled.carried found
  refine .inl (Option.isSome_iff_ne_none.mpr fun untracked => ?_)
  rw [pointersOf, untracked] at member
  cases member

theorem Coupled.knows_target {tracker : Tracker} (coupled : tracker.Coupled) {target source : Path}
    {tracked : TrackedPointer} (member : tracked ∈ tracker.pointersOf source)
    (isTarget : tracked.target? = some target) : tracker.Knows target :=
  .inr ⟨tracked.pointer.lines, source,
    coupled.stored member (TrackedPointer.pointsTo_iff.mpr ⟨rfl, target, isTarget, BEq.rfl⟩)⟩

theorem Coupled.stored?_eq_none {tracker : Tracker} (coupled : tracker.Coupled) {source : Path}
    (untracked : tracker.tracked.get? source = none) (target : Path) (lines : LineRange) :
    tracker.index.stored? target lines source = none := by
  cases found : tracker.index.stored? target lines source with
  | none => rfl
  | some reference =>
      obtain ⟨tracked, member, _⟩ := coupled.carried found
      rw [pointersOf, untracked] at member
      cases member

theorem Drops.of_known {gone other : Path → Bool} {before after : Tracker}
    (drops : Drops gone before after) (coupled : before.Coupled)
    (congr : ∀ {left right : Path}, left == right → other left = other right)
    (agree : ∀ path, before.Knows path → gone path = other path) : Drops other before after where
  congr := congr
  layout := drops.layout
  settings := drops.settings
  tracked source := by
    rw [drops.tracked]
    cases found : before.tracked.get? source with
    | none => simp
    | some pointers =>
        rw [agree source (.inl (by rw [found]; rfl))]
        have member {tracked : TrackedPointer} (inPointers : tracked ∈ pointers) :
            tracked ∈ before.pointersOf source := by
          rw [Tracker.pointersOf, found]
          exact inPointers
        have same : pointers.map (releaseFrom gone) = pointers.map (releaseFrom other) := by
          refine List.map_congr_left fun tracked inPointers => ?_
          have agreeTarget := fun target isTarget =>
            agree target (coupled.knows_target (member inPointers) isTarget)
          unfold releaseFrom
          cases isTarget : tracked.target? with
          | none => rfl
          | some target => rw [Option.filter, Option.filter, agreeTarget target isTarget]
        rw [Option.map_some, Option.map_some, same]
  stored target lines source := by
    rw [drops.stored]
    cases found : before.index.stored? target lines source with
    | none => simp
    | some reference =>
        have isStored : (before.index.stored? target lines source).isSome := by rw [found]; rfl
        rw [agree target (.inr ⟨lines, source, isStored⟩),
          agree source (coupled.knows_source isStored)]

theorem drops_forgetWithin {tracker : Tracker} (coupled : tracker.Coupled) (path : Path) :
    Drops (·.isWithin path) tracker (tracker.forgetWithin path) := by
  refine (drops_foldl_forget coupled.consistent (tracker.knownWithin path)).of_known coupled
    Path.isWithin_congr ?_
  intro file known
  rw [Bool.eq_iff_iff, List.any_eq_true]
  refine ⟨isWithin_of_knownWithin, fun within => ?_⟩
  exact (exists_knownWithin_iff coupled.consistent within).mpr (.inl known)

end Tracker

end CodePointers
