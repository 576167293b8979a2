import CodePointers.Proofs.Tracker.Coupling
import Mathlib.Algebra.BigOperators.Group.List.Basic
import Mathlib.Algebra.Ring.Nat
import Mathlib.Data.List.Forall2

/-!
Trying pending pointers again. Each one that the disk has a target for gets it, together with a
reference in the index, and nothing else changes; a second try on the same disk finds nothing to do.
-/

namespace CodePointers

namespace Tracker

/-! Counting tracked pointers. -/

def countPointers (tracker : Tracker) (test : Path → TrackedPointer → Bool) : Nat :=
  (tracker.tracked.entries.map fun entry => entry.2.countP (test entry.1)).sum

theorem pendingCount_eq (tracker : Tracker) :
    tracker.pendingCount = tracker.countPointers fun _ => TrackedPointer.isPending := by
  rw [pendingCount, OrderedMap.total, countPointers, List.sum_eq_foldr, List.foldr_map]

/-! One pointer. -/

def gain? (disk : Disk) (layout : Layout) (tracked : TrackedPointer) : Option Path :=
  if tracked.isPending then layout.target? disk tracked.pointer else none

theorem gain?_of_not_pending {tracked : TrackedPointer} (resolved : tracked.isPending = false)
    (disk : Disk) (layout : Layout) : gain? disk layout tracked = none := by
  rw [gain?, resolved]
  rfl

theorem isPending_of_gain? {disk : Disk} {layout : Layout} {tracked : TrackedPointer}
    {target : Path} (gains : gain? disk layout tracked = some target) :
    tracked.isPending = true := by
  cases pending : tracked.isPending with
  | true => rfl
  | false =>
      rw [gain?_of_not_pending pending] at gains
      cases gains

theorem renew_of_gain? {disk : Disk} {layout : Layout} {tracked : TrackedPointer} {target : Path}
    (gains : gain? disk layout tracked = some target) :
    renew disk layout tracked = { tracked with target? := some target } := by
  obtain ⟨pointer, start, stop, definitionLine, target?⟩ := tracked
  cases target? with
  | none => exact congrArg (TrackedPointer.mk pointer start stop definitionLine) gains
  | some own => cases gains

theorem renew_of_gain?_eq_none {disk : Disk} {layout : Layout} {tracked : TrackedPointer}
    (gainsNothing : gain? disk layout tracked = none) : renew disk layout tracked = tracked := by
  obtain ⟨pointer, start, stop, definitionLine, target?⟩ := tracked
  cases target? with
  | none => exact congrArg (TrackedPointer.mk pointer start stop definitionLine) gainsNothing
  | some own => rfl

theorem isPending_renew (disk : Disk) (layout : Layout) (tracked : TrackedPointer) :
    (renew disk layout tracked).isPending =
      (tracked.isPending && !(gain? disk layout tracked).isSome) := by
  cases gains : gain? disk layout tracked with
  | none => rw [renew_of_gain?_eq_none gains, Option.isSome_none, Bool.not_false, Bool.and_true]
  | some target =>
      rw [renew_of_gain? gains, Option.isSome_some, Bool.not_true, Bool.and_false]
      rfl

theorem gain?_renew (disk : Disk) (layout : Layout) (tracked : TrackedPointer) :
    gain? disk layout (renew disk layout tracked) = none := by
  cases gains : gain? disk layout tracked with
  | none => rw [renew_of_gain?_eq_none gains, gains]
  | some target =>
      rw [renew_of_gain? gains]
      rfl

theorem pointsTo_renew_iff {disk : Disk} {layout : Layout} {tracked : TrackedPointer}
    {target : Path} {lines : LineRange} :
    (renew disk layout tracked).pointsTo target lines = true ↔
      tracked.pointsTo target lines = true ∨ tracked.pointer.lines = lines ∧
        ∃ own, gain? disk layout tracked = some own ∧ (own == target) = true := by
  cases gains : gain? disk layout tracked with
  | none => simp [renew_of_gain?_eq_none gains]
  | some own =>
      rw [renew_of_gain? gains, TrackedPointer.pointsTo_iff,
        TrackedPointer.not_pointsTo_of_isPending (isPending_of_gain? gains)]
      simp

/-! The pointers of one source. -/

theorem length_resolvable (disk : Disk) (layout : Layout) (pointers : List TrackedPointer) :
    (resolvable disk layout pointers).length =
      pointers.countP fun tracked => (gain? disk layout tracked).isSome := by
  unfold resolvable
  rw [List.filter_map, List.length_map, List.filter_filter, ← List.countP_eq_length_filter]
  refine List.countP_congr fun tracked _ => ?_
  rw [Function.comp_apply, isPending_renew]
  cases pending : tracked.isPending with
  | false => simp [gain?_of_not_pending pending]
  | true => simp

theorem countP_isPending_renew (disk : Disk) (layout : Layout) (pointers : List TrackedPointer) :
    pointers.countP TrackedPointer.isPending =
      (pointers.map (renew disk layout)).countP TrackedPointer.isPending +
        pointers.countP fun tracked => (gain? disk layout tracked).isSome := by
  induction pointers with
  | nil => rfl
  | cons head rest ih =>
      rw [List.map_cons, List.countP_cons, List.countP_cons, List.countP_cons, ih,
        isPending_renew]
      cases pending : head.isPending with
      | false => simp [gain?_of_not_pending pending]
      | true => cases (gain? disk layout head).isSome <;> simp <;> omega

theorem resolvable_eq_nil {disk : Disk} {layout : Layout} {pointers : List TrackedPointer}
    (gainNothing : ∀ tracked ∈ pointers, gain? disk layout tracked = none) :
    resolvable disk layout pointers = [] := by
  rw [← List.length_eq_zero_iff, length_resolvable, List.countP_eq_zero]
  intro tracked member
  rw [gainNothing tracked member]
  exact Bool.false_ne_true

/-! The whole tracker. -/

theorem entries_retryPending (disk : Disk) (tracker : Tracker) :
    (tracker.retryPending disk).1.tracked.entries =
      tracker.tracked.entries.map fun entry =>
        (entry.1, entry.2.map (renew disk tracker.layout)) :=
  OrderedMap.entries_mapValues _ tracker.tracked

theorem foldr_length_eq (found : List (Path × List TrackedPointer)) :
    found.foldr (fun entry count => entry.2.length + count) 0 =
      (found.map fun entry => entry.2.length).sum := by
  rw [List.sum_eq_foldr, List.foldr_map]

theorem retried_eq (disk : Disk) (tracker : Tracker) :
    (tracker.retryPending disk).2 =
      tracker.countPointers fun _ tracked => (gain? disk tracker.layout tracked).isSome := by
  let found := tracker.tracked.entries.map fun entry =>
    (entry.1, resolvable disk tracker.layout entry.2)
  change found.foldr (fun entry count => entry.2.length + count) 0 = _
  rw [foldr_length_eq, List.map_map, countPointers]
  refine congrArg List.sum (List.map_congr_left fun entry _ => ?_)
  exact length_resolvable disk tracker.layout entry.2

theorem pendingCount_retryPending (disk : Disk) (tracker : Tracker) :
    tracker.pendingCount =
      (tracker.retryPending disk).1.pendingCount + (tracker.retryPending disk).2 := by
  rw [retried_eq, pendingCount_eq, pendingCount_eq, countPointers, countPointers, countPointers,
    entries_retryPending, List.map_map, ← List.sum_map_add]
  refine congrArg List.sum (List.map_congr_left fun entry _ => ?_)
  exact countP_isPending_renew disk tracker.layout entry.2

theorem addSources_eq_self {index : ReferenceIndex} {found : List (Path × List TrackedPointer)}
    (nothing : ∀ entry ∈ found, entry.2 = []) : addSources index found = index := by
  induction found with
  | nil => rfl
  | cons head rest ih =>
      obtain ⟨source, pointers⟩ := head
      obtain ⟨rfl, restNothing⟩ := List.forall_mem_cons.mp nothing
      exact ih restNothing

theorem retryPending_eq_self {disk : Disk} {tracker : Tracker}
    (gainNothing : ∀ entry ∈ tracker.tracked.entries, ∀ tracked ∈ entry.2,
      gain? disk tracker.layout tracked = none) :
    tracker.retryPending disk = (tracker, 0) := by
  have sameTracked : (tracker.retryPending disk).1.tracked = tracker.tracked := by
    refine OrderedMap.mapValues_eq_self fun entry member => ?_
    refine (List.map_congr_left fun tracked inEntry => ?_).trans (List.map_id entry.2)
    exact renew_of_gain?_eq_none (gainNothing entry member tracked inEntry)
  have sameIndex : (tracker.retryPending disk).1.index = tracker.index := by
    refine addSources_eq_self fun found member => ?_
    obtain ⟨entry, inTracked, rfl⟩ := List.mem_map.mp member
    exact resolvable_eq_nil (gainNothing entry inTracked)
  have noneRetried : (tracker.retryPending disk).2 = 0 := by
    have same := tracker.pendingCount_retryPending disk
    rw [pendingCount, pendingCount, sameTracked] at same
    omega
  calc tracker.retryPending disk
      _ = ({ tracker with
            index := (tracker.retryPending disk).1.index
            tracked := (tracker.retryPending disk).1.tracked },
          (tracker.retryPending disk).2) := rfl
      _ = (tracker, 0) := by rw [sameTracked, sameIndex, noneRetried]

/-- What a retry does to a pointer. -/
structure Retried (disk : Disk) (layout : Layout) (before after : TrackedPointer) : Prop where
  gained : ∀ target, gain? disk layout before = some target →
    after = { before with target? := some target }
  kept : gain? disk layout before = none → after = before

/-- Whether a tracker is what a retry makes of another one, with the number that it tells. -/
structure Retries (disk : Disk) (before after : Tracker) (retried : Nat) : Prop where
  sources : after.tracked.keys = before.tracked.keys
  pointers : ∀ source, List.Forall₂ (Retried disk before.layout) (before.pointersOf source)
    (after.pointersOf source)
  retried_eq : retried =
    before.countPointers fun _ tracked => (gain? disk before.layout tracked).isSome
  pending : before.pendingCount = after.pendingCount + retried
  triples : ∀ target lines source,
    (∃ reference, after.index.Stores target lines reference ∧
        (reference.source == source) = true) ↔
      (∃ reference, before.index.Stores target lines reference ∧
          (reference.source == source) = true) ∨
        ∃ tracked ∈ before.pointersOf source, tracked.pointer.lines = lines ∧
          ∃ own, gain? disk before.layout tracked = some own ∧ (own == target) = true
  others : ∀ target lines reference, before.index.Stores target lines reference →
    (∀ tracked ∈ before.pointersOf reference.source, ∀ own,
      gain? disk before.layout tracked = some own → (own == target) = true →
        tracked.pointer.lines ≠ lines) →
    after.index.Stores target lines reference
  noneLeft : ∀ source, ∀ tracked ∈ after.pointersOf source, tracked.target? = none →
    before.layout.target? disk tracked.pointer = none
  again : after.retryPending disk = (after, 0)

theorem retried_renew (disk : Disk) (layout : Layout) (tracked : TrackedPointer) :
    Retried disk layout tracked (renew disk layout tracked) :=
  ⟨fun _ gains => renew_of_gain? gains, renew_of_gain?_eq_none⟩

theorem exists_pointsTo_renew_iff {disk : Disk} {layout : Layout} {pointers : List TrackedPointer}
    {target : Path} {lines : LineRange} :
    (∃ tracked ∈ pointers.map (renew disk layout), tracked.pointsTo target lines = true) ↔
      (∃ tracked ∈ pointers, tracked.pointsTo target lines = true) ∨
        ∃ tracked ∈ pointers, tracked.pointer.lines = lines ∧
          ∃ own, gain? disk layout tracked = some own ∧ (own == target) = true := by
  simp only [List.mem_map, exists_exists_and_eq_and, pointsTo_renew_iff, and_or_left, exists_or]

theorem resolvable_points {disk : Disk} {layout : Layout} {pointers : List TrackedPointer}
    {found : TrackedPointer} (isFound : found ∈ resolvable disk layout pointers) {target : Path}
    {lines : LineRange} (points : found.pointsTo target lines = true) :
    ∃ tracked ∈ pointers, tracked.pointer.lines = lines ∧
      ∃ own, gain? disk layout tracked = some own ∧ (own == target) = true := by
  obtain ⟨_, old, inPointers, pending, rfl⟩ := mem_resolvable_iff.mp isFound
  rcases pointsTo_renew_iff.mp points with alreadyPoints | gains
  · rw [TrackedPointer.not_pointsTo_of_isPending pending] at alreadyPoints
    cases alreadyPoints
  · exact ⟨old, inPointers, gains⟩

theorem stored?_retryPending_of_apart {tracker : Tracker} (consistent : tracker.index.Consistent)
    {disk : Disk} {target : Path} {lines : LineRange} {source : Path}
    (apart : ∀ tracked ∈ tracker.pointersOf source, ∀ own,
      gain? disk tracker.layout tracked = some own → (own == target) = true →
        tracked.pointer.lines ≠ lines) :
    (tracker.retryPending disk).1.index.stored? target lines source =
      tracker.index.stored? target lines source := by
  obtain ⟨spelled, _, stored⟩ := stored?_retryPending consistent disk source
  have noneAdded : lastInto? (resolvable disk tracker.layout (tracker.pointersOf source)) target
      lines = none := by
    refine lastInto?_eq_none_iff.mpr fun found isFound => Bool.eq_false_iff.mpr fun points => ?_
    obtain ⟨tracked, member, sameLines, own, gains, same⟩ := resolvable_points isFound points
    exact apart tracked member own gains same sameLines
  rw [stored, noneAdded]
  rfl

theorem target?_of_mem_retryPending {disk : Disk} {tracker : Tracker} {source : Path}
    {tracked : TrackedPointer} (member : tracked ∈ (tracker.retryPending disk).1.pointersOf source)
    (pending : tracked.target? = none) :
    tracker.layout.target? disk tracked.pointer = none := by
  rw [pointersOf_retryPending] at member
  obtain ⟨old, _, rfl⟩ := List.mem_map.mp member
  have isPending : (renew disk tracker.layout old).isPending = true :=
    Option.isNone_iff_eq_none.mpr pending
  have gainsNothing := gain?_renew disk tracker.layout old
  rwa [gain?, if_pos isPending] at gainsNothing

/-- A retry is complete and exact, and a second one does nothing. -/
theorem Reachable.retries {tracker : Tracker} (reachable : tracker.Reachable) (disk : Disk) :
    Retries disk tracker (tracker.retryPending disk).1 (tracker.retryPending disk).2 := by
  have coupled := reachable.coupled
  have after := coupled.retryPending disk
  constructor
  · exact OrderedMap.keys_mapValues _ tracker.tracked
  · intro source
    rw [pointersOf_retryPending]
    exact List.forall₂_map_right_iff.mpr
      (List.forall₂_same.mpr fun tracked _ => retried_renew disk tracker.layout tracked)
  · exact retried_eq disk tracker
  · exact tracker.pendingCount_retryPending disk
  · intro target lines source
    rw [after.exists_stores_iff, coupled.exists_stores_iff, pointersOf_retryPending]
    exact exists_pointsTo_renew_iff
  · intro target lines reference isStored apart
    rw [ReferenceIndex.stores_iff coupled.consistent] at isStored
    rw [ReferenceIndex.stores_iff after.consistent,
      stored?_retryPending_of_apart coupled.consistent apart, isStored]
  · intro source tracked member pending
    exact target?_of_mem_retryPending member pending
  · refine retryPending_eq_self fun entry member tracked inEntry => ?_
    rw [entries_retryPending] at member
    obtain ⟨before, _, rfl⟩ := List.mem_map.mp member
    obtain ⟨old, _, rfl⟩ := List.mem_map.mp inEntry
    exact gain?_renew disk tracker.layout old

theorem retries_of_two_pointers_at_one_place :
    let layout : Layout := ⟨.ofText "/w".toList, []⟩
    let disk := Disk.empty.write (.ofText "/w/x.rs".toList) ⟨.text [], 0⟩
    let tracker := (Tracker.ofLayout layout .default).perform .empty
      (.reindex (.ofText "/w/a.md".toList) "@m/x.rs:L1 @n/x.rs:L1 @m/y.rs:L2".toList)
    let after := (tracker.retryPending disk).1
    tracker.Reachable ∧ Retries disk tracker after 2 ∧ tracker.pendingCount = 3 ∧
      after.pendingCount = 1 ∧ after.index.size = 1 := by
  intro layout disk tracker after
  have reachable : tracker.Reachable := ⟨_, _, .perform .empty (.reindex _ _) (.refl _)⟩
  have retries := reachable.retries disk
  have two : (tracker.retryPending disk).2 = 2 := by decide +kernel
  rw [two] at retries
  exact ⟨reachable, retries, by decide +kernel⟩

end Tracker

end CodePointers
