import CodePointers.Proofs.Tracker.ScanContents

/-!
The states that a tracker gets into while all its sources are files of the workspace, and the scan
that makes all of them equal: what was there before does not show in the contents any more.
-/

namespace CodePointers

def Layout.grants (layout : Layout) : Guard :=
  fun tracker file number => layout.Proper file ∧ number ≤ tracker.sequence

theorem Layout.Proper.congr {layout : Layout} {file other : Path} (proper : layout.Proper file)
    (same : file == other) : layout.Proper other where
  within := by rw [← Path.isWithin_congr same, proper.within]
  indexable := by rw [← isIndexable_congr layout.root same, proper.indexable]
  plain := by
    rw [← Path.beq_iff.mp same]
    exact proper.plain

theorem Layout.Proper.admitted {layout : Layout} {file : Path} (proper : layout.Proper file) :
    layout.grants.Admits file :=
  fun _ _ below => ⟨proper, below⟩

namespace Tracker

/-- Operations and events one after the other, the disk changing in any way between them, as long
as every file that is reindexed is one of the workspace. -/
inductive History (layout : Layout) (settings : Settings) : Tracker → Prop
  | start : History layout settings (.ofLayout layout settings)
  | perform {tracker} (history : History layout settings tracker) (disk : Disk)
      (operation : Operation) (within : operation.Within layout.grants disk tracker) :
      History layout settings (tracker.perform disk operation)
  | apply {tracker} (history : History layout settings tracker) (disk : Disk) (event : FileEvent)
      (proper : ∀ file ∈ event.sources disk layout, layout.Proper file) :
      History layout settings (tracker.apply disk event)

structure Tidy (layout : Layout) (settings : Settings) (tracker : Tracker) : Prop where
  sound : tracker.Sound
  proper : ∀ source, (tracker.tracked.get? source).isSome → layout.Proper source
  layout : tracker.layout = layout
  settings : tracker.settings = settings

theorem tidy_ofLayout (layout : Layout) (settings : Settings) :
    Tidy layout settings (ofLayout layout settings) :=
  ⟨sound_ofLayout layout settings, nofun, rfl, rfl⟩

/-- Only a request makes a file a source. -/
theorem tracked_of_move {disk : Disk} {guard : Guard} {property : Path → Prop}
    (congr : ∀ {file other : Path}, (file == other) = true → property file → property other)
    (guarded : ∀ tracker file number, guard tracker file number → property file)
    {tracker next : Tracker} (consistent : tracker.index.Consistent)
    (before : ∀ source, (tracker.tracked.get? source).isSome → property source)
    (move : Move disk guard tracker next) {source : Path}
    (isTracked : (next.tracked.get? source).isSome) : property source := by
  cases move with
  | reserve => exact before source isTracked
  | forgetText => exact before source isTracked
  | read => exact before source isTracked
  | reindexAt file text number granted =>
      by_cases same : file == source
      · exact congr same (guarded tracker file number granted)
      · have unchanged := sameSource_reindexAt consistent disk text number
          (Bool.eq_false_iff.mpr same)
        rw [unchanged.tracked] at isTracked
        exact before source isTracked
  | forget file =>
      refine before source ?_
      rw [tracked_forget] at isTracked
      split at isTracked
      · cases isTracked
      · rwa [Option.isSome_map] at isTracked
  | retryPending =>
      refine before source ?_
      rwa [tracked_retryPending, Option.isSome_map] at isTracked
  | clear => cases isTracked

theorem Tidy.move {layout : Layout} {settings : Settings} {disk : Disk} {tracker next : Tracker}
    (tidy : Tidy layout settings tracker) (move : Move disk layout.grants tracker next) :
    Tidy layout settings next := by
  obtain ⟨sameLayout, sameSettings⟩ := move.sameSetup
  refine ⟨tidy.sound.move (fun _ _ _ granted => granted.2) move, fun source isTracked => ?_,
    sameLayout.trans tidy.layout, sameSettings.trans tidy.settings⟩
  exact tracked_of_move (fun same proper => proper.congr same) (fun _ _ _ granted => granted.1)
    tidy.sound.coupled.consistent tidy.proper move isTracked

theorem Tidy.apply {layout : Layout} {settings : Settings} {disk : Disk} {tracker : Tracker}
    (tidy : Tidy layout settings tracker) {event : FileEvent}
    (proper : ∀ file ∈ event.sources disk layout, layout.Proper file) :
    Tidy layout settings (tracker.apply disk event) := by
  have admits : ∀ file ∈ event.sources disk tracker.layout, layout.grants.Admits file := by
    rw [tidy.layout]
    exact fun file member => (proper file member).admitted
  exact Moves.invariant (fun _ _ move before => before.move move) (moves_apply disk admits) tidy

def SourcesProper (tracker : Tracker) : Prop :=
  ∀ source, (tracker.tracked.get? source).isSome → tracker.layout.Proper source

theorem Tidy.sourcesProper {layout : Layout} {settings : Settings} {tracker : Tracker}
    (tidy : Tidy layout settings tracker) : tracker.SourcesProper := by
  intro source isTracked
  rw [tidy.layout]
  exact tidy.proper source isTracked

theorem SourcesProper.apply {disk : Disk} {tracker : Tracker}
    (sourcesProper : tracker.SourcesProper)
    (sound : tracker.Sound) {event : FileEvent}
    (proper : ∀ file ∈ event.sources disk tracker.layout, tracker.layout.Proper file) :
    (tracker.apply disk event).SourcesProper := by
  have tidy : Tidy tracker.layout tracker.settings tracker := ⟨sound, sourcesProper, rfl, rfl⟩
  exact (tidy.apply proper).sourcesProper

theorem History.tidy {layout : Layout} {settings : Settings} {tracker : Tracker}
    (history : History layout settings tracker) : Tidy layout settings tracker := by
  induction history with
  | start => exact tidy_ofLayout layout settings
  | perform _ disk operation within ih =>
      exact Moves.invariant (fun _ _ move before => before.move move) (moves_perform disk within) ih
  | apply _ disk event proper ih => exact ih.apply proper

section

variable {layout : Layout} {settings : Settings} {session : Session} {disk : Disk}
  (tidy : Tidy layout settings session.tracker) (undisturbed : session.Undisturbed)
  (current : ∀ file ∈ layout.indexableFiles disk, session.Current disk file)
  (completed : (session.scan disk).1.cancelled = false)
  (noFailures : (session.scan disk).1.filesFailed = 0)
include tidy undisturbed current completed noFailures

theorem Tidy.readable_of_scan :
    ∀ file ∈ layout.indexableFiles disk, (disk.reading? settings file).isSome := by
  obtain ⟨sound, _, sameLayout, sameSettings⟩ := tidy
  subst sameLayout sameSettings
  obtain ⟨_, scansBy⟩ := Session.exists_scansBy undisturbed sound completed
  intro file member
  rw [← Session.reading?_of_current (current file member)
    (Layout.isFile_of_mem_indexableFiles member)]
  exact scansBy.complete noFailures file member

theorem Tidy.upToDate_scan :
    (session.scan disk).2.tracker.UpToDate disk ∧
      (session.scan disk).2.tracker.layout = layout ∧
      (session.scan disk).2.tracker.settings = settings ∧
      (session.scan disk).2.tracker.Sound := by
  have readable := tidy.readable_of_scan undisturbed current completed noFailures
  obtain ⟨sound, proper, sameLayout, sameSettings⟩ := tidy
  subst sameLayout sameSettings
  have readsDisk : session.ReadsDisk disk (session.tracker.layout.indexableFiles disk) := by
    refine ⟨undisturbed, fun file member => ?_⟩
    exact Session.reading?_of_current (current file member)
      (Layout.isFile_of_mem_indexableFiles member)
  have scannable : session.Scannable disk := by
    refine ⟨sound, proper, readsDisk, fun file member unreadable => ?_⟩
    have isRead := readable file member
    rw [unreadable] at isRead
    cases isRead
  obtain ⟨upToDate, layout, settings⟩ := scannable.upToDate_scan completed
  exact ⟨upToDate, layout, settings, Session.sound_scan disk undisturbed sound⟩

end

def scanned (disk : Disk) (layout : Layout) (settings : Settings) : Tracker :=
  (Session.scan disk { tracker := .ofLayout layout settings }).2.tracker

theorem upToDate_scanned (disk : Disk) (layout : Layout) (settings : Settings) :
    (scanned disk layout settings).UpToDate disk ∧
      (scanned disk layout settings).layout = layout ∧
      (scanned disk layout settings).settings = settings ∧
      (scanned disk layout settings).Sound := by
  let session : Session := { tracker := .ofLayout layout settings }
  have fromDisk : session.FromDisk := ⟨rfl, rfl⟩
  have scannable := Session.scannable_of_new disk rfl fromDisk
  obtain ⟨upToDate, sameLayout, sameSettings⟩ :=
    scannable.upToDate_scan (Session.completed_scan disk rfl)
  exact ⟨upToDate, sameLayout, sameSettings, Session.sound_scan disk rfl scannable.sound⟩

/-- Whatever a tracker has been through, a complete scan of files that can all be read leaves it
with the contents that a new tracker gets from its first scan of the same disk. -/
theorem rescan_forgets_history {layout : Layout} {settings : Settings} {session : Session}
    (history : History layout settings session.tracker) {disk : Disk}
    (undisturbed : session.Undisturbed)
    (current : ∀ file ∈ layout.indexableFiles disk, session.Current disk file)
    (completed : (session.scan disk).1.cancelled = false)
    (noFailures : (session.scan disk).1.filesFailed = 0) :
    SameContents (session.scan disk).2.tracker (scanned disk layout settings) := by
  obtain ⟨upToDate, sameLayout, sameSettings, sound⟩ :=
    history.tidy.upToDate_scan undisturbed current completed noFailures
  obtain ⟨newUpToDate, newLayout, newSettings, newSound⟩ := upToDate_scanned disk layout settings
  refine sameContents_of_sameSource sound.coupled.consistent newSound.coupled.consistent ?_
  exact upToDate.sameSource newUpToDate sound.coupled newSound.coupled
    (sameLayout.trans newLayout.symm)
    (congrArg Settings.maxFileSize (sameSettings.trans newSettings.symm))

theorem rescan_forgets_vanished_file :
    let layout : Layout := ⟨.ofText "/w".toList, []⟩
    let file := Path.ofText "/w/a.md".toList
    let gone := Path.ofText "/w/b.md".toList
    let text := "@m/x.rs:L1".toList
    let disk :=
      (Disk.empty.write file ⟨.text text, 0⟩).write (.ofText "/w/m/x.rs".toList) ⟨.text [], 0⟩
    let session : Session :=
      { tracker := (Tracker.ofLayout layout .default).perform .empty (.reindex gone text) }
    History layout .default session.tracker ∧ session.Undisturbed ∧
      (∀ file ∈ layout.indexableFiles disk, session.Current disk file) ∧
      (session.scan disk).1.cancelled = false ∧ (session.scan disk).1.filesFailed = 0 ∧
      SameContents (session.scan disk).2.tracker (scanned disk layout .default) ∧
      (session.tracker.pointersOf gone).length = 1 ∧
      (session.scan disk).2.tracker.index.size = 1 := by
  intro layout file gone text disk session
  have proper : layout.Proper gone := ⟨by decide, by decide +kernel, by decide⟩
  have history : History layout .default session.tracker :=
    .perform .start .empty (.reindex gone text) proper.admitted
  have current (file : Path) : session.Current disk file :=
    Session.current_of_truthfulAt ⟨rfl, rfl⟩ (TextCache.truthfulAt_of_get?_eq_none rfl disk)
  have completed : (session.scan disk).1.cancelled = false := Session.completed_scan disk rfl
  have noFailures : (session.scan disk).1.filesFailed = 0 := by decide +kernel
  have same := rescan_forgets_history history rfl (fun file _ => current file) completed noFailures
  exact ⟨history, rfl, fun file _ => current file, completed, noFailures, same, by decide +kernel,
    by decide +kernel⟩

end Tracker

end CodePointers
