import CodePointers.Notification
import CodePointers.Proofs.Tracker.PendingPointers
import CodePointers.Proofs.Tracker.ShownPointers
import CodePointers.Proofs.Tracker.Trails

/-!
Events that a tracker never hears of, because what happened lies in an excluded folder or changed a
file that is not scanned. Such an event would read no source and forget none. All that it would do
is to give pending pointers the targets that they have on the disk, and to take the targets away
that are gone: pointers may point into excluded folders.
-/

namespace CodePointers

/-! What is heard. -/

def Notification.meant (disk : Disk) (notification : Notification) : List FileEvent :=
  match notification.kind with
  | .created | .renamedTo => notification.paths.map .created
  | .removed | .renamedFrom => notification.paths.map .removed
  | .renamedBoth =>
      (notification.paths.head?.map .removed).toList ++
        (notification.paths[1]?.map .created).toList
  | .renamedSomehow =>
      notification.paths.map fun path =>
        if disk.pathExists path then .created path else .removed path
  | .modified => notification.paths.map .changed
  | .other => []

namespace FileEvent

def isHeard (root : Path) : FileEvent → Bool
  | changed path => isIndexable root path
  | created path | removed path => !hasExcludedAncestor root path
  | rescan => true

def NotAbove (root : Path) (event : FileEvent) : Prop :=
  ∀ path, event.path? = some path → path.isWithin root = true ∨ root.isWithin path = false

end FileEvent

open FileEvent

theorem isHeard_of_moved {root path : Path} {isThere : Bool} :
    isHeard root (if isThere then created path else removed path) =
      !hasExcludedAncestor root path := by
  cases isThere <;> rfl

theorem isHeard_changed {root path : Path} :
    (isIndexable root path && !hasExcludedAncestor root path) = isHeard root (changed path) := by
  rw [isHeard, isIndexable, Bool.and_assoc, Bool.and_self]

theorem filter_map_toList {root : Path} {event : Path → FileEvent} (path? : Option Path) :
    (path?.map event).toList.filter (isHeard root) =
      ((path?.filter fun path => isHeard root (event path)).map event).toList := by
  cases path? with
  | none => rfl
  | some path => cases heard : isHeard root (event path) <;> simp [Option.filter, heard]

/-- A notification leads to the events that it stands for, less those that are not heard. -/
theorem Notification.events_eq (disk : Disk) (root : Path) (notification : Notification) :
    notification.events disk root =
      if notification.needsRescan then [.rescan]
      else (notification.meant disk).filter (isHeard root) := by
  unfold Notification.events Notification.meant
  split
  · rfl
  · cases notification.kind with
    | created | removed | renamedFrom | renamedTo =>
        dsimp only
        rw [List.filter_map]
        rfl
    | renamedBoth =>
        dsimp only
        rw [List.filter_append, filter_map_toList, filter_map_toList]
        rfl
    | renamedSomehow =>
        dsimp only
        rw [List.filter_map]
        simp only [Function.comp_def, isHeard_of_moved]
    | modified =>
        dsimp only
        rw [List.filter_filter, List.filter_map]
        simp only [Function.comp_def, isHeard_changed]
    | other => rfl

namespace Tracker

/-! What an event does that is not heard. -/

def retargeted (disk : Disk) (layout : Layout) (event : FileEvent) (tracked : TrackedPointer) :
    TrackedPointer :=
  { tracked with target? := retarget disk layout tracked.pointer tracked.target? event }

/-- Whether an event changes no more than the targets of pointers: each source keeps its pointers,
and the index the references of all pointers that point where they did. -/
structure OnlyRetargets (disk : Disk) (event : FileEvent) (before after : Tracker) : Prop where
  pointers : ∀ source, after.tracked.get? source =
    (before.tracked.get? source).map (List.map (retargeted disk before.layout event))
  stored : ∀ target lines source,
    (∀ tracked ∈ before.pointersOf source,
      (retargeted disk before.layout event tracked).pointsTo target lines =
        tracked.pointsTo target lines) →
      after.index.stored? target lines source = before.index.stored? target lines source

theorem renew_eq_retargeted (disk : Disk) (layout : Layout) (path : Path) :
    renew disk layout = retargeted disk layout (created path) := by
  funext tracked
  obtain ⟨pointer, start, stop, definitionLine, target?⟩ := tracked
  cases target? <;> rfl

section Unheard

variable {disk : Disk} {layout : Layout} {settings : Settings} {tracker : Tracker}

theorem isHeard_of_mem_sources {event : FileEvent} {file : Path}
    (notAbove : event.NotAbove layout.root) (member : file ∈ event.sources disk layout) :
    isHeard layout.root event = true := by
  have indexable := indexable_of_mem_sources member
  have notExcluded := hasExcludedAncestor_of_isIndexable indexable
  cases event with
  | changed path =>
      rw [FileEvent.sources] at member
      split at member
      · next indexable => exact indexable
      · cases member
  | created path =>
      have beneath : file.isWithin path = true := by
        rw [FileEvent.sources] at member
        split at member
        · exact Disk.isWithin_of_mem_walk (List.mem_filter.mp member).1
        · split at member
          · rw [List.mem_singleton.mp member]
            exact path.isWithin_self
          · cases member
      rw [isHeard, Bool.not_eq_true', ← Bool.not_eq_true]
      intro excluded
      rw [hasExcludedAncestor_of_isWithin excluded beneath (notAbove path rfl)] at notExcluded
      cases notExcluded
  | removed path => cases member
  | rescan => rfl

variable (orderly : Orderly layout settings tracker) {path : Path}
include orderly

theorem Orderly.onlyRetargets_changed (unheard : isHeard layout.root (changed path) = false) :
    OnlyRetargets disk (changed path) tracker (tracker.apply disk (changed path)) := by
  have notIndexable : isIndexable tracker.layout.root path ≠ true := by
    rw [orderly.layout]
    exact Bool.eq_false_iff.mp unheard
  have unchanged : tracker.apply disk (changed path) = tracker := by rw [apply, if_neg notIndexable]
  have same : retargeted disk tracker.layout (changed path) = id := rfl
  rw [unchanged]
  refine ⟨fun source => ?_, fun _ _ _ _ => rfl⟩
  rw [same, List.map_id_fun, Option.map_id]
  rfl

theorem Orderly.onlyRetargets_created (notAbove : (created path).NotAbove layout.root)
    (unheard : isHeard layout.root (created path) = false) :
    OnlyRetargets disk (created path) tracker (tracker.apply disk (created path)) := by
  obtain ⟨reread, rereadSound, rereads, isAfter⟩ := @apply_created disk tracker orderly.sound path
  have noSource (file : Path) : file ∉ (created path).sources disk tracker.layout := by
    rw [orderly.layout]
    intro member
    have heard := isHeard_of_mem_sources notAbove member
    rw [unheard] at heard
    cases heard
  have unchanged (source : Path) : SameSource source reread tracker :=
    rereads.others source fun file member => absurd member (noSource file)
  rw [isAfter]
  refine ⟨fun source => ?_, fun target lines source same => ?_⟩
  · rw [tracked_retryPending, (unchanged source).tracked, rereads.layout,
      renew_eq_retargeted disk tracker.layout path]
  · rw [← (unchanged source).stored]
    refine stored?_retryPending_of_apart rereadSound.coupled.consistent
      fun tracked member own gains isTarget sameLines => ?_
    rw [(unchanged source).pointersOf] at member
    rw [rereads.layout] at gains
    have points := same tracked member
    rw [← renew_eq_retargeted, renew_of_gain? gains,
      TrackedPointer.not_pointsTo_of_isPending (isPending_of_gain? gains)] at points
    have pointsNow : { tracked with target? := some own }.pointsTo target lines = true :=
      TrackedPointer.pointsTo_iff.mpr ⟨sameLines, own, rfl, isTarget⟩
    rw [pointsNow] at points
    cases points

theorem Orderly.untracked {source : Path} (notAbove : (removed path).NotAbove layout.root)
    (unheard : isHeard layout.root (removed path) = false) (within : source.isWithin path = true) :
    tracker.tracked.get? source = none := by
  rw [isHeard, Bool.not_eq_false'] at unheard
  refine Option.not_isSome_iff_eq_none.mp fun isTracked => ?_
  have notExcluded := hasExcludedAncestor_of_isIndexable (orderly.indexable source isTracked)
  rw [hasExcludedAncestor_of_isWithin unheard within (notAbove path rfl)] at notExcluded
  cases notExcluded

theorem Orderly.onlyRetargets_removed (notAbove : (removed path).NotAbove layout.root)
    (unheard : isHeard layout.root (removed path) = false) :
    OnlyRetargets disk (removed path) tracker (tracker.apply disk (removed path)) := by
  have drops := drops_forgetWithin orderly.sound.coupled path
  have untracked {source : Path} (within : source.isWithin path = true) :=
    orderly.untracked notAbove unheard within
  refine ⟨fun source => ?_, fun target lines source same => ?_⟩
  · have isAfter := drops.tracked source
    split at isAfter
    · next within =>
      rw [untracked within]
      exact isAfter
    · exact isAfter
  · have isAfter := drops.stored target lines source
    split at isAfter
    · next gone =>
      refine isAfter.trans (Option.eq_none_iff_forall_ne_some.mpr fun reference found => ?_).symm
      obtain ⟨tracked, member, points, _⟩ := orderly.sound.coupled.carried found
      rcases gone with targetGone | sourceGone
      · rw [← same tracked member] at points
        obtain ⟨_, own, isOwn, isTarget⟩ := TrackedPointer.pointsTo_iff.mp points
        have stays := (of_target?_releaseFrom isOwn).2
        rw [Path.isWithin_congr isTarget, targetGone] at stays
        cases stays
      · rw [pointersOf, untracked sourceGone] at member
        cases member
    · exact isAfter

end Unheard

/-! What has to change for that. -/

section

variable {disk : Disk} {event : FileEvent} {before after : Tracker}
  (retargets : OnlyRetargets disk event before after)
include retargets

theorem OnlyRetargets.sameSource {source : Path}
    (same : ∀ tracked ∈ before.pointersOf source,
      retarget disk before.layout tracked.pointer tracked.target? event = tracked.target?) :
    SameSource source after before := by
  have unchanged : ∀ tracked ∈ before.pointersOf source,
      retargeted disk before.layout event tracked = tracked := fun tracked member => by
    rw [retargeted, same tracked member]
  refine ⟨?_, fun target lines => retargets.stored target lines source fun tracked member => ?_⟩
  · rw [retargets.pointers]
    cases found : before.tracked.get? source with
    | none => rfl
    | some pointers =>
        rw [pointersOf, found] at unchanged
        exact congrArg some ((List.map_congr_left unchanged).trans (List.map_id _))
  · rw [unchanged tracked member]

theorem OnlyRetargets.sameContents_iff (consistent : before.index.Consistent)
    (afterConsistent : after.index.Consistent) :
    SameContents after before ↔ ∀ source, ∀ tracked ∈ before.pointersOf source,
      retarget disk before.layout tracked.pointer tracked.target? event = tracked.target? := by
  constructor
  · intro same source tracked member
    have unchanged := (retargets.pointers source).symm.trans (same.tracked source)
    rw [pointersOf] at member
    cases found : before.tracked.get? source with
    | none =>
        rw [found] at member
        cases member
    | some pointers =>
        rw [found] at member unchanged
        have isSame := List.map_inj_left.mp ((Option.some.inj unchanged).trans (List.map_id _).symm)
          tracked member
        exact congrArg TrackedPointer.target? isSame
  · intro same
    exact sameContents_of_sameSource afterConsistent consistent fun source =>
      retargets.sameSource (same source)

end

/-- An event that is not heard would change no more than the targets of pointers: pending ones would
get those that they have on the disk, and those at or beneath a removed path would be taken away.
The contents stay as they are just when no target changes, as when a file has only changed. -/
theorem Watched.unheard_event_only_retargets {layout : Layout} {settings : Settings}
    {tracker : Tracker} (watched : Watched layout settings tracker) {disk : Disk}
    {notification : Notification} (noRescan : notification.needsRescan = false) {event : FileEvent}
    (meant : event ∈ notification.meant disk)
    (unheard : event ∉ notification.events disk layout.root)
    (notAbove : event.NotAbove layout.root) :
    OnlyRetargets disk event tracker (tracker.apply disk event) ∧
      (event.isChanged = true → SameContents (tracker.apply disk event) tracker) ∧
      (SameContents (tracker.apply disk event) tracker ↔
        ∀ source, ∀ tracked ∈ tracker.pointersOf source,
          retarget disk layout tracked.pointer tracked.target? event = tracked.target?) := by
  have orderly := watched.orderly
  have notHeard : isHeard layout.root event = false := by
    rw [notification.events_eq, noRescan, if_neg Bool.false_ne_true, List.mem_filter] at unheard
    exact Bool.eq_false_iff.mpr fun heard => unheard ⟨meant, heard⟩
  have retargets : OnlyRetargets disk event tracker (tracker.apply disk event) := by
    cases event with
    | changed path => exact orderly.onlyRetargets_changed notHeard
    | created path => exact orderly.onlyRetargets_created notAbove notHeard
    | removed path => exact orderly.onlyRetargets_removed notAbove notHeard
    | rescan => cases notHeard
  have applied := @sound_apply disk tracker orderly.sound event
  have same_iff := retargets.sameContents_iff orderly.sound.coupled.consistent
    applied.coupled.consistent
  rw [orderly.layout] at same_iff
  refine ⟨retargets, fun isChange => same_iff.mpr fun source tracked _ => ?_, same_iff⟩
  cases event with
  | changed path => rfl
  | created path => cases isChange
  | removed path => cases isChange
  | rescan => cases isChange

theorem unheard_removal_takes_target :
    let layout : Layout := ⟨.ofText "/w".toList, []⟩
    let target := Path.ofText "/w/m/node_modules/x.rs".toList
    let later := (Disk.empty.write (.ofText "/w/a.md".toList)
      ⟨.text "@m/node_modules/x.rs:L1 @m/y.rs:L2".toList, 0⟩).write
        (.ofText "/w/m/y.rs".toList) ⟨.text [], 0⟩
    let disk := later.write target ⟨.text [], 0⟩
    let tracker := scanned disk layout .default
    let notification : Notification := ⟨.removed, [target], false⟩
    let after := tracker.apply later (.removed target)
    Watched layout .default tracker ∧ .removed target ∈ notification.meant later ∧
      .removed target ∉ notification.events later layout.root ∧
      (FileEvent.removed target).NotAbove layout.root ∧
      OnlyRetargets later (.removed target) tracker after ∧
      tracker.index.size = 2 ∧ tracker.pendingCount = 0 ∧
      after.index.size = 1 ∧ after.pendingCount = 1 := by
  intro layout target later disk tracker notification after
  have watched : Watched layout .default tracker := .scan .start disk {} rfl
  have meant : .removed target ∈ notification.meant later := List.mem_singleton_self _
  have excluded : hasExcludedAncestor layout.root target = true := by decide +kernel
  have unheard : .removed target ∉ notification.events later layout.root := by
    rw [notification.events_eq, if_neg Bool.false_ne_true, List.mem_filter, isHeard, excluded]
    exact fun heard => Bool.false_ne_true heard.2
  have within : target.isWithin layout.root = true := by decide +kernel
  have notAbove : (FileEvent.removed target).NotAbove layout.root := fun path isPath =>
    Option.some.inj isPath ▸ .inl within
  have retargets := (watched.unheard_event_only_retargets rfl meant unheard notAbove).1
  exact ⟨watched, meant, unheard, notAbove, retargets, by decide +kernel⟩

/-- What lies above the root is judged on all of its folders, what lies beneath it only on those
below the root. The removal of an unheard folder above the root would forget the sources in it. -/
example :
    let layout : Layout := ⟨.ofText "/target/d/w".toList, []⟩
    let source := layout.root.descend ["a.md".toList]
    let above := Path.ofText "/target/d".toList
    let disk := Disk.empty.write source ⟨.text "@m/x.rs:L1".toList, 0⟩
    let tracker := scanned disk layout .default
    isHeard layout.root (.removed above) = false ∧ (tracker.pointersOf source).length = 1 ∧
      ((tracker.apply .empty (.removed above)).pointersOf source).length = 0 := by
  decide +kernel

/-- Resolution looks into excluded folders, so that a file which is created there unheard can be the
target of a pending pointer. -/
theorem unheard_creation_resolves_pointer :
    let layout : Layout := ⟨.ofText "/w".toList, []⟩
    let target := Path.ofText "/w/m/node_modules/x.rs".toList
    let disk := Disk.empty.write (.ofText "/w/a.md".toList)
      ⟨.text "@m/node_modules/x.rs:L1".toList, 0⟩
    let later := disk.write target ⟨.text [], 0⟩
    let session : Session := { tracker := .ofLayout layout .default }
    let tracker := (session.scan disk).2.tracker
    let notification : Notification := ⟨.created, [target], false⟩
    let after := tracker.apply later (.created target)
    (session.scan disk).1.cancelled = false ∧ .created target ∈ notification.meant later ∧
      notification.events later layout.root = [] ∧ ¬SameContents after tracker ∧
      tracker.index.size = 0 ∧ tracker.pendingCount = 1 ∧
      after.index.size = 1 ∧ after.pendingCount = 0 := by
  intro layout target disk later session tracker notification after
  have excluded : hasExcludedAncestor layout.root target = true := by decide +kernel
  have unheard : notification.events later layout.root = [] := by
    rw [notification.events_eq, if_neg Bool.false_ne_true, List.filter_eq_nil_iff]
    intro event meant heard
    rw [List.mem_singleton.mp meant, isHeard, excluded] at heard
    cases heard
  have pending : tracker.pendingCount = 1 := by decide +kernel
  have resolved : after.pendingCount = 0 := by decide +kernel
  refine ⟨Session.completed_scan disk rfl, List.mem_singleton_self _, unheard, fun same => ?_, ?_⟩
  · have samePending := pendingCount_congr same.tracked
    rw [pending, resolved] at samePending
    cases samePending
  · exact ⟨by decide +kernel, pending, by decide +kernel, resolved⟩

end Tracker

end CodePointers
