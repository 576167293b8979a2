import CodePointers.Proofs.Tracker.Histories

/-!
What an event does to a tracker. The files that it is about are read anew, and then the pending
pointers are tried again, or what is gone is forgotten. Whatever events and scans there were, all
sources are files that can be indexed.
-/

namespace CodePointers

namespace Tracker

variable {disk : Disk} {tracker : Tracker} (sound : tracker.Sound)
include sound

theorem sound_apply (event : FileEvent) : (tracker.apply disk event).Sound :=
  sound.moves (moves_apply disk fun file _ => Guard.given_admits file)

omit sound in
theorem sameSetup_apply (disk : Disk) (tracker : Tracker) (event : FileEvent) :
    (tracker.apply disk event).layout = tracker.layout ∧
      (tracker.apply disk event).settings = tracker.settings :=
  (moves_apply disk fun file _ => Guard.given_admits file).sameSetup

theorem apply_changed (path : Path) :
    ∃ reread, reread.Sound ∧
      Rereads disk (disk.reading? tracker.settings)
        ((FileEvent.changed path).sources disk tracker.layout) tracker reread ∧
      tracker.apply disk (.changed path) =
        if isIndexable tracker.layout.root path = true ∧ disk.pathExists path = false then
          reread.forget path
        else reread := by
  rw [FileEvent.sources]
  by_cases indexable : isIndexable tracker.layout.root path = true
  · obtain ⟨rereads, fails⟩ := @rereads_refresh disk tracker sound path
    have refreshed : (tracker.refresh disk path).2.Sound :=
      sound.moves (moves_refresh disk (Guard.given_admits path) tracker)
    refine ⟨_, refreshed, by rw [if_pos indexable]; exact rereads, ?_⟩
    rw [apply, if_pos indexable]
    cases result : tracker.refresh disk path with
    | mk outcome after =>
        cases outcome with
        | error error =>
            dsimp only
            cases disk.pathExists path <;> simp [indexable]
        | ok outcome =>
            have isThere : disk.pathExists path = true := by
              rw [← Bool.not_eq_false]
              intro missing
              have unread : disk.reading? tracker.settings path = none := by
                rw [Disk.reading?, Option.not_isSome_iff_eq_none.mp (Bool.eq_false_iff.mp missing)]
                rfl
              obtain ⟨error, isError⟩ := fails.mpr unread
              rw [result] at isError
              cases isError
            rw [if_neg (by simp [isThere])]
  · refine ⟨tracker, sound, by rw [if_neg indexable]; exact rereads_nil disk _ tracker, ?_⟩
    rw [apply, if_neg indexable, if_neg (by simp [indexable])]

theorem apply_created (path : Path) :
    ∃ reread, reread.Sound ∧
      Rereads disk (disk.reading? tracker.settings)
        ((FileEvent.created path).sources disk tracker.layout) tracker reread ∧
      tracker.apply disk (.created path) = (reread.retryPending disk).1 := by
  rw [FileEvent.sources, apply]
  by_cases isFolder : disk.isFolder path = true
  · let session : Session := { tracker }
    let files := session.newFiles disk path
    have distinct : files.Pairwise fun left right => (left == right) = false :=
      (disk.walk_distinct path).filter _
    have rereads : Rereads disk (disk.reading? session.tracker.settings) files session.tracker
        (Session.scanNewFiles disk files session).2.tracker :=
      Session.rereads_scanNewFiles distinct rfl sound
    have proceeds : Proceeds disk .given session (Session.scanNewFiles disk files session).2 :=
      Session.proceeds_scanNewFiles disk (fun file _ => Guard.given_admits file) session
        (Guard.admitsEdit_default _)
    refine ⟨_, sound.moves proceeds.moves, ?_, ?_⟩
    · rw [if_pos isFolder]
      exact rereads
    · rw [if_pos isFolder]
      rfl
  · rw [if_neg isFolder, if_neg isFolder]
    by_cases indexable : isIndexable tracker.layout.root path = true
    · refine ⟨(tracker.refresh disk path).2,
        sound.moves (moves_refresh disk (Guard.given_admits path) tracker), ?_, ?_⟩
      · rw [if_pos indexable]
        exact (rereads_refresh sound path).1
      · dsimp only
        rw [if_pos indexable]
    · refine ⟨tracker, sound, ?_, ?_⟩
      · rw [if_neg indexable]
        exact rereads_nil disk _ tracker
      · dsimp only
        rw [if_neg indexable]

omit sound

/-- The tracker in the middle of a scan, when all files are read and nothing is forgotten yet. -/
def rescanned (disk : Disk) (tracker : Tracker) : Tracker :=
  (Session.scanFiles disk (tracker.layout.indexableFiles disk) { tracker }).2.tracker

def lost (disk : Disk) (tracker : Tracker) (path : Path) : Bool :=
  (tracker.tracked.get? path).isSome &&
    !(tracker.layout.indexableFiles disk).any (· == path)

theorem cache_foldl_forget (files : List Path) (tracker : Tracker) :
    (files.foldl forget tracker).cache = files.foldl OrderedMap.erase tracker.cache := by
  induction files generalizing tracker with
  | nil => rfl
  | cons head rest ih => exact ih (tracker.forget head)

include sound

theorem apply_rescan :
    (tracker.rescanned disk).Sound ∧
      Rereads disk (Session.reading? disk { tracker }) (tracker.layout.indexableFiles disk) tracker
        (tracker.rescanned disk) ∧
      Drops ((tracker.rescanned disk).lost disk) (tracker.rescanned disk)
        (tracker.apply disk .rescan) ∧
      ∃ gone : List Path, (∀ path, gone.any (· == path) = (tracker.rescanned disk).lost disk path) ∧
        (tracker.apply disk .rescan).cache =
          gone.foldl OrderedMap.erase (tracker.rescanned disk).cache := by
  let session : Session := { tracker }
  let files := tracker.layout.indexableFiles disk
  let scanned := (Session.scanFiles disk files session).2
  have completed : (session.scan disk).1.cancelled = false := Session.completed_scan disk rfl
  obtain ⟨running, _, isScanned⟩ := Session.scan_of_completed completed
  have undisturbed : session.Undisturbed := rfl
  have rescannedSound : scanned.tracker.Sound :=
    Session.sound_scanFiles disk files undisturbed sound
  have rereads : Rereads disk (Session.reading? disk session) files tracker scanned.tracker :=
    Session.rereads_scanFiles (tracker.layout.indexableFiles_distinct disk) undisturbed sound
      running
  have isForgotten : tracker.apply disk .rescan =
      (scanned.vanished files).foldl forget scanned.tracker := congrArg Session.tracker isScanned
  have isLost (path : Path) :
      (scanned.vanished files).any (· == path) = scanned.tracker.lost disk path := by
    rw [Bool.eq_iff_iff, List.any_eq_true, Session.mem_vanished_iff, lost, rereads.layout]
    simp [files]
  have drops := drops_foldl_forget rescannedSound.coupled.consistent (scanned.vanished files)
  rw [funext isLost, ← isForgotten] at drops
  refine ⟨rescannedSound, rereads, drops, scanned.vanished files, isLost, ?_⟩
  rw [isForgotten, cache_foldl_forget]
  rfl

omit sound

/-! Events and scans. -/

/-- Events and scans one after the other, the disk changing in any way between them. -/
inductive Watched (layout : Layout) (settings : Settings) : Tracker → Prop
  | start : Watched layout settings (.ofLayout layout settings)
  | scan {tracker : Tracker} (watched : Watched layout settings tracker) (disk : Disk)
      (circumstances : Circumstances) (unedited : circumstances.edit? = none) :
      Watched layout settings (Session.scan disk { tracker, circumstances }).2.tracker
  | apply {tracker : Tracker} (watched : Watched layout settings tracker) (disk : Disk)
      (event : FileEvent) : Watched layout settings (tracker.apply disk event)

structure Orderly (layout : Layout) (settings : Settings) (tracker : Tracker) : Prop where
  sound : tracker.Sound
  indexable : ∀ source, (tracker.tracked.get? source).isSome →
    isIndexable layout.root source = true
  layout : tracker.layout = layout
  settings : tracker.settings = settings

def indexes (layout : Layout) : Guard :=
  fun tracker file number => isIndexable layout.root file = true ∧ number ≤ tracker.sequence

theorem indexes_admits {layout : Layout} {file : Path}
    (indexable : isIndexable layout.root file = true) : (indexes layout).Admits file :=
  fun _ _ below => ⟨indexable, below⟩

theorem indexable_of_mem_sources {layout : Layout} {event : FileEvent} {file : Path}
    (member : file ∈ event.sources disk layout) : isIndexable layout.root file = true := by
  cases event with
  | changed path =>
      rw [FileEvent.sources] at member
      split at member
      · next indexable => exact List.mem_singleton.mp member ▸ indexable
      · cases member
  | created path =>
      rw [FileEvent.sources] at member
      split at member
      · exact (List.mem_filter.mp member).2
      · split at member
        · next indexable => exact List.mem_singleton.mp member ▸ indexable
        · cases member
  | removed path => cases member
  | rescan => exact Layout.isIndexable_of_mem_indexableFiles member

variable {layout : Layout} {settings : Settings}

theorem Orderly.moves {last : Tracker} (orderly : Orderly layout settings tracker)
    (moves : Moves disk (indexes layout) tracker last) : Orderly layout settings last := by
  refine moves.invariant (fun before next move orderly => ?_) orderly
  obtain ⟨sameLayout, sameSettings⟩ := move.sameSetup
  refine ⟨orderly.sound.move (fun _ _ _ guarded => guarded.2) move, fun source isTracked => ?_,
    sameLayout.trans orderly.layout, sameSettings.trans orderly.settings⟩
  exact tracked_of_move (fun same indexable => isIndexable_congr layout.root same ▸ indexable)
    (fun _ _ _ guarded => guarded.1) orderly.sound.coupled.consistent orderly.indexable move
    isTracked

theorem Watched.orderly (watched : Watched layout settings tracker) :
    Orderly layout settings tracker := by
  induction watched with
  | start => exact ⟨sound_ofLayout layout settings, nofun, rfl, rfl⟩
  | @scan tracker _ disk circumstances unedited ih =>
      refine ih.moves (Session.moves_scan disk { tracker, circumstances }
        (Session.admitsEdit_of_undisturbed unedited) fun file member => ?_)
      rw [ih.layout] at member
      exact indexes_admits (Layout.isIndexable_of_mem_indexableFiles member)
  | apply _ disk event ih =>
      refine ih.moves (moves_apply disk fun file member => ?_)
      rw [ih.layout] at member
      exact indexes_admits (indexable_of_mem_sources member)

end Tracker

end CodePointers
