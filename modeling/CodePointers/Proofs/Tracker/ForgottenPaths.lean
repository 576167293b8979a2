import CodePointers.Proofs.Tracker.FolderRemoval
import CodePointers.Proofs.Tracker.PendingPointers

/-!
What is left when everything at or beneath a path is forgotten. Sources and targets there are gone,
pointers at such targets are pending, and nothing else is touched: least of all a neighbour whose
name begins like that of the path.
-/

namespace CodePointers

theorem Path.not_isWithin_of_longer_name {path source : Path} {folder below : List Part}
    {name suffix : Text} (isPath : path.parts = folder ++ [.name name])
    (isSource : source.parts = folder ++ .name (name ++ suffix) :: below) (longer : suffix ≠ []) :
    source.isWithin path = false := by
  refine Bool.eq_false_iff.mpr fun within => ?_
  rw [Path.isWithin, List.isPrefixOf_iff_prefix, isPath, isSource, List.prefix_append_right_inj,
    List.cons_prefix_cons, Part.name.injEq, List.self_eq_append_right] at within
  exact longer within.1

namespace Tracker

/-! Counting what is lost. -/

theorem countP_isPending_releaseFrom (gone : Path → Bool) (pointers : List TrackedPointer) :
    (pointers.map (releaseFrom gone)).countP TrackedPointer.isPending =
      pointers.countP TrackedPointer.isPending +
        pointers.countP fun tracked => tracked.target?.any gone := by
  induction pointers with
  | nil => rfl
  | cons head rest ih =>
      obtain ⟨pointer, start, stop, definitionLine, target?⟩ := head
      rw [List.map_cons, List.countP_cons, List.countP_cons, List.countP_cons, ih]
      cases target? with
      | none =>
          simp [releaseFrom, TrackedPointer.isPending]
          omega
      | some target =>
          cases isGone : gone target with
          | false => simp [releaseFrom, TrackedPointer.isPending, Option.filter, isGone]
          | true =>
              simp [releaseFrom, TrackedPointer.isPending, Option.filter, isGone]
              omega

/-- Forgetting makes the pointers pending that lose their target, and takes along the pending ones
of the sources that are gone. -/
theorem Drops.pendingCount {gone : Path → Bool} {before after : Tracker}
    (drops : Drops gone before after) :
    after.pendingCount +
        before.countPointers (fun source tracked => gone source && tracked.isPending) =
      before.pendingCount +
        before.countPointers fun source tracked => !gone source && tracked.target?.any gone := by
  let change (source : Path) (pointers : List TrackedPointer) : Option (List TrackedPointer) :=
    if gone source then none else some (pointers.map (releaseFrom gone))
  have congr {left right : Path} (same : left == right) : change left = change right := by
    funext pointers
    simp only [change, drops.congr same]
  have isAfter (source : Path) :
      after.tracked.get? source = (before.tracked.filterMap change).get? source := by
    rw [drops.tracked, OrderedMap.get?_filterMap_of_congr congr]
    cases before.tracked.get? source <;> cases isGone : gone source <;> simp [change, isGone]
  rw [Tracker.pendingCount, OrderedMap.total_congr _ isAfter, OrderedMap.total_filterMap,
    ← List.sum_eq_foldr, pendingCount_eq, countPointers, countPointers, countPointers,
    ← List.sum_map_add, ← List.sum_map_add]
  refine congrArg List.sum (List.map_congr_left fun entry _ => ?_)
  cases isGone : gone entry.1 with
  | true => simp [change, isGone]
  | false => simpa [change, isGone] using countP_isPending_releaseFrom gone entry.2

/-! Forgetting what is not known. -/

/-- Whether the two stores hold the same, however often they were changed. -/
structure SameStores (left right : Tracker) : Prop where
  tracked : left.tracked = right.tracked
  targets : left.index.targets = right.index.targets
  sources : left.index.sources = right.index.sources

theorem pointersOf_of_mem {tracker : Tracker} {entry : Path × List TrackedPointer}
    (member : entry ∈ tracker.tracked.entries) : tracker.pointersOf entry.1 = entry.2 := by
  rw [pointersOf, OrderedMap.get?_of_mem member BEq.rfl]
  rfl

section Unknown

variable {tracker : Tracker} (coupled : tracker.Coupled) {file : Path}
  (unknown : ¬tracker.Knows file)
include coupled unknown

theorem tracked_forget_of_unknown : (tracker.forget file).tracked = tracker.tracked := by
  have untracked : tracker.tracked.get? file = none :=
    Option.not_isSome_iff_eq_none.mp fun isTracked => unknown (.inl isTracked)
  change (tracker.tracked.erase file).mapValues _ = _
  rw [OrderedMap.erase_of_get?_eq_none untracked, release_eq_releaseFrom]
  refine OrderedMap.mapValues_eq_self fun entry member => ?_
  rw [← pointersOf_of_mem member]
  refine map_releaseFrom_of_not_gone fun tracked inEntry target isTarget => ?_
  refine Bool.eq_false_iff.mpr fun same => unknown ?_
  exact (coupled.knows_target inEntry isTarget).congr (BEq.symm same)

theorem withoutSource_of_unknown : tracker.index.withoutSource file = tracker.index := by
  have unlinked : tracker.index.sources.get? file = none := by
    cases found : tracker.index.sources.get? file with
    | none => rfl
    | some pointedAt =>
        obtain ⟨target, member⟩ :=
          List.exists_mem_of_ne_nil _ (coupled.consistent.sources found).nonempty
        obtain ⟨lines, isStored⟩ := (coupled.consistent.links_iff file target).mp
          ⟨pointedAt, found, target, member, BEq.rfl⟩
        exact absurd (coupled.knows_source isStored) unknown
  rw [ReferenceIndex.withoutSource, unlinked]

theorem withoutTarget_of_unknown : tracker.index.withoutTarget file = tracker.index := by
  have noTarget : tracker.index.targets.get? file = none := by
    rw [← Option.not_isSome_iff_eq_none, ReferenceIndex.exists_target_iff coupled.consistent]
    exact fun isTarget => unknown (.inr isTarget)
  rw [ReferenceIndex.withoutTarget, noTarget]

theorem sameStores_forget_of_unknown : SameStores (tracker.forget file) tracker := by
  have sameIndex : (tracker.forget file).index = tracker.index.touched := by
    change ((tracker.index.withoutSource file).withoutTarget file).touched = _
    rw [withoutSource_of_unknown coupled unknown, withoutTarget_of_unknown coupled unknown]
  exact ⟨tracked_forget_of_unknown coupled unknown, by rw [sameIndex]; rfl, by rw [sameIndex]; rfl⟩

end Unknown

theorem knownWithin_eq {tracker : Tracker} (consistent : tracker.index.Consistent) {path : Path}
    (unknown : ∀ file, file.isWithin path = true → ¬tracker.Knows file) :
    tracker.knownWithin path = [path] := by
  have none : (tracker.tracked.keys ++ tracker.index.files).filter (·.isWithin path) = [] := by
    refine List.filter_eq_nil_iff.mpr fun file member within => unknown file within ?_
    exact (knows_iff consistent).mpr ⟨file, member, BEq.rfl⟩
  rw [knownWithin, none]
  rfl

structure Orphaned (path : Path) (before after : TrackedPointer) : Prop where
  orphaned : ∀ target, before.target? = some target → target.isWithin path = true →
    after = { before with target? := none }
  kept : (∀ target, before.target? = some target → target.isWithin path = false) → after = before

/-- Whether a tracker is what is left of another one when everything at or beneath a path is
forgotten, and nothing else. -/
structure ForgetsExactly (path : Path) (before after : Tracker) : Prop where
  untracked : ∀ source, source.isWithin path = true → after.tracked.get? source = none
  unstored : ∀ target lines reference, after.index.Stores target lines reference →
    target.isWithin path = false ∧ reference.source.isWithin path = false
  stored : ∀ target lines reference, target.isWithin path = false →
    reference.source.isWithin path = false →
      (after.index.Stores target lines reference ↔ before.index.Stores target lines reference)
  tracked : ∀ source, source.isWithin path = false →
    (after.tracked.get? source).isSome = (before.tracked.get? source).isSome
  pointers : ∀ source, source.isWithin path = false →
    List.Forall₂ (Orphaned path) (before.pointersOf source) (after.pointersOf source)
  /-- A path whose name is only the beginning of another one leaves that other one alone. -/
  neighbours : ∀ (folder below : List Part) (name suffix : Text) (source : Path),
    path.parts = folder ++ [.name name] →
    source.parts = folder ++ .name (name ++ suffix) :: below → suffix ≠ [] →
      source.isWithin path = false
  pending : after.pendingCount +
      before.countPointers (fun source tracked => source.isWithin path && tracked.isPending) =
    before.pendingCount + before.countPointers fun source tracked =>
      !source.isWithin path && tracked.target?.any (·.isWithin path)
  again : SameStores (after.forgetWithin path) after

theorem orphaned_releaseFrom (path : Path) (tracked : TrackedPointer) :
    Orphaned path tracked (releaseFrom (·.isWithin path) tracked) where
  orphaned target isTarget within := by
    rw [releaseFrom, isTarget, Option.filter, within]
    rfl
  kept := releaseFrom_of_not_gone

theorem Drops.not_knows {gone : Path → Bool} {before after : Tracker}
    (drops : Drops gone before after) {file : Path} (isGone : gone file = true) :
    ¬after.Knows file := by
  rintro (isTracked | ⟨lines, source, isStored⟩)
  · rw [drops.tracked, if_pos isGone] at isTracked
    cases isTracked
  · rw [drops.stored, if_pos (.inl isGone)] at isStored
    cases isStored

/-- Forgetting a path takes away what lies at or beneath it and nothing else. -/
theorem Reachable.forgetsExactly {tracker : Tracker} (reachable : tracker.Reachable)
    (path : Path) : ForgetsExactly path tracker (tracker.forgetWithin path) := by
  have coupled := reachable.coupled
  have after := (reachable.forgetWithin path).coupled
  have drops := drops_forgetWithin coupled path
  have unknown (file : Path) (within : file.isWithin path = true) :
      ¬(tracker.forgetWithin path).Knows file := drops.not_knows within
  constructor
  · intro source within
    rw [drops.tracked, if_pos within]
  · intro target lines reference isStored
    rw [ReferenceIndex.stores_iff after.consistent, drops.stored] at isStored
    split at isStored
    · cases isStored
    · next outside => simpa [not_or] using outside
  · intro target lines reference targetOutside sourceOutside
    rw [ReferenceIndex.stores_iff after.consistent, ReferenceIndex.stores_iff coupled.consistent,
      drops.stored, if_neg (by simp [targetOutside, sourceOutside])]
  · intro source outside
    rw [drops.tracked, outside, if_neg Bool.false_ne_true, Option.isSome_map]
  · intro source outside
    rw [drops.pointersOf, outside, if_neg Bool.false_ne_true]
    exact List.forall₂_map_right_iff.mpr
      (List.forall₂_same.mpr fun tracked _ => orphaned_releaseFrom path tracked)
  · intro folder below name suffix source isPath isSource longer
    exact Path.not_isWithin_of_longer_name isPath isSource longer
  · exact drops.pendingCount
  · have onlyPath : (tracker.forgetWithin path).knownWithin path = [path] :=
      knownWithin_eq after.consistent unknown
    have isWithin : path.isWithin path = true := List.isPrefixOf_iff_prefix.mpr List.prefix_rfl
    rw [Tracker.forgetWithin, onlyPath]
    exact sameStores_forget_of_unknown after (unknown path isWithin)

theorem forgetsExactly_of_folder_with_neighbour :
    let layout : Layout := ⟨.ofText "/w".toList, []⟩
    let folder := Path.ofText "/w/d".toList
    let neighbour := Path.ofText "/w/d2/c.md".toList
    let disk := ((Disk.empty.write (.ofText "/w/d/a.md".toList) ⟨.text [], 0⟩).write
      (.ofText "/w/d/b.md".toList) ⟨.text [], 0⟩).write (.ofText "/w/m/x.rs".toList) ⟨.text [], 0⟩
    let tracker := (((Tracker.ofLayout layout .default).perform disk
      (.reindex (.ofText "/w/d/a.md".toList) "@d/b.md:L1 @m/x.rs:L1".toList)).perform disk
      (.reindex (.ofText "/w/d/b.md".toList) "@d/a.md:L1 @m/none.rs:L1".toList)).perform disk
      (.reindex neighbour "@d/a.md:L1 @m/x.rs:L1".toList)
    let after := tracker.forgetWithin folder
    tracker.Reachable ∧ ForgetsExactly folder tracker after ∧
      neighbour.isWithin folder = false ∧ tracker.index.size = 5 ∧ tracker.pendingCount = 1 ∧
      after.index.size = 1 ∧ after.pendingCount = 1 ∧ (after.pointersOf neighbour).length = 2 := by
  intro layout folder neighbour disk tracker after
  have reachable : tracker.Reachable :=
    ⟨_, _, .perform disk (.reindex _ _) (.perform disk (.reindex _ _)
      (.perform disk (.reindex _ _) (.refl _)))⟩
  exact ⟨reachable, reachable.forgetsExactly folder, by decide +kernel⟩

end Tracker

end CodePointers
