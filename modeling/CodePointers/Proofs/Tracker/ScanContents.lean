import CodePointers.Proofs.Resolution.Targets
import CodePointers.Proofs.Tracker.Removals
import CodePointers.Proofs.Tracker.Requests
import CodePointers.Proofs.Tracker.ScanResults

/-!
What a tracker holds after a scan of the workspace: the pointers of the files that are scanned, as
their texts on the disk have them, and no others.
-/

namespace CodePointers

def pointersIn (disk : Disk) (layout : Layout) (settings : Settings) (file : Path) :
    List TrackedPointer :=
  Tracker.extract disk layout ((disk.reading? settings file).getD [])

theorem pointersIn_congr (disk : Disk) (layout : Layout) {settings other : Settings}
    (limit : settings.maxFileSize = other.maxFileSize) (file : Path) :
    pointersIn disk layout settings file = pointersIn disk layout other file := by
  have reading : disk.readingOf? settings = disk.readingOf? other := by
    funext node
    rw [Disk.readingOf?, Disk.readingOf?, limit]
  rw [pointersIn, pointersIn, Disk.reading?, Disk.reading?, reading]

namespace Tracker

/-- Whether a tracker has the pointers of all files that are scanned and of no other source. -/
structure UpToDate (disk : Disk) (tracker : Tracker) : Prop where
  listed : ∀ file ∈ tracker.layout.indexableFiles disk,
    Lists tracker file (pointersIn disk tracker.layout tracker.settings file)
  others : ∀ source, (∀ file ∈ tracker.layout.indexableFiles disk, (file == source) = false) →
    tracker.tracked.get? source = none

theorem lists_nil {tracker : Tracker} (coupled : tracker.Coupled) {source : Path}
    (untracked : tracker.tracked.get? source = none) : Lists tracker source [] :=
  ⟨untracked, coupled.stored?_eq_none untracked⟩

theorem UpToDate.sameSource {disk : Disk} {left right : Tracker} (leftUpToDate : left.UpToDate disk)
    (rightUpToDate : right.UpToDate disk) (leftCoupled : left.Coupled)
    (rightCoupled : right.Coupled)
    (layout : left.layout = right.layout)
    (limit : left.settings.maxFileSize = right.settings.maxFileSize)
    (source : Path) : SameSource source left right := by
  obtain ⟨listed, others⟩ := leftUpToDate
  simp only [layout, pointersIn_congr disk right.layout limit] at listed
  rw [layout] at others
  obtain ⟨file, member, same⟩ | apart :=
    Path.listed_or_apart (right.layout.indexableFiles disk) source
  · exact ((listed file member).sameSource (rightUpToDate.listed file member)).congr same
  · exact (lists_nil leftCoupled (others source apart)).sameSource
      (lists_nil rightCoupled (rightUpToDate.others source apart))

theorem UpToDate.stores_iff {disk : Disk} {tracker : Tracker} (upToDate : tracker.UpToDate disk)
    (coupled : tracker.Coupled) {target : Path} {lines : LineRange} {reference : Reference} :
    tracker.index.Stores target lines reference ↔
      ∃ file ∈ tracker.layout.indexableFiles disk, ∃ tracked,
        lastInto? (pointersIn disk tracker.layout tracker.settings file) target lines =
          some tracked ∧ tracked.reference file = reference := by
  rw [ReferenceIndex.stores_iff coupled.consistent]
  constructor
  · intro found
    obtain ⟨file, member, same⟩ | apart :=
      Path.listed_or_apart (tracker.layout.indexableFiles disk) reference.source
    · rw [← tracker.index.stored?_congr lines BEq.rfl same,
        (upToDate.listed file member).stored] at found
      obtain ⟨tracked, isLast, isReference⟩ := Option.map_eq_some_iff.mp found
      exact ⟨file, member, tracked, isLast, isReference⟩
    · rw [coupled.stored?_eq_none (upToDate.others reference.source apart)] at found
      cases found
  · rintro ⟨file, member, tracked, isLast, rfl⟩
    change tracker.index.stored? target lines file = _
    rw [(upToDate.listed file member).stored, isLast]
    rfl

/-! Sources that no scan reads. -/

def isStray (disk : Disk) (tracker : Tracker) (path : Path) : Bool :=
  tracker.tracked.keys.any (· == path) &&
    !(tracker.layout.indexableFiles disk).any (· == path)

theorem isStray_iff {disk : Disk} {tracker : Tracker} {path : Path} :
    tracker.isStray disk path = true ↔ (tracker.tracked.get? path).isSome ∧
      ∀ file ∈ tracker.layout.indexableFiles disk, (file == path) = false := by
  rw [isStray, Bool.and_eq_true, List.any_eq_true, OrderedMap.get?_isSome_iff, Bool.not_eq_true',
    List.any_eq_false]
  simp only [Bool.not_eq_true]

theorem isStray_eq_false_of_mem {disk : Disk} {tracker : Tracker} {file : Path}
    (member : file ∈ tracker.layout.indexableFiles disk) : tracker.isStray disk file = false := by
  refine Bool.eq_false_iff.mpr fun stray => ?_
  have apart := (isStray_iff.mp stray).2 file member
  rw [BEq.rfl] at apart
  cases apart

theorem isStray_eq_false_of_isFile {disk : Disk} {tracker : Tracker}
    (proper : ∀ source, (tracker.tracked.get? source).isSome → tracker.layout.Proper source)
    {file target : Path} (member : file ∈ tracker.layout.indexableFiles disk)
    (isFile : disk.isFile target = true) : tracker.isStray disk target = false := by
  refine Bool.eq_false_iff.mpr fun stray => ?_
  obtain ⟨isTracked, notScanned⟩ := isStray_iff.mp stray
  have rootIsThere : disk.pathExists tracker.layout.root = true := by
    rw [← Bool.not_eq_false]
    intro missing
    rw [Layout.indexableFiles_eq_nil missing] at member
    cases member
  obtain ⟨found, isFound, same⟩ :=
    (proper target isTracked).exists_indexable rootIsThere BEq.rfl isFile
  rw [notScanned found isFound] at same
  cases same

end Tracker

namespace Session

open Tracker

theorem scan_of_completed {disk : Disk} {session : Session}
    (completed : (session.scan disk).1.cancelled = false) :
    let files := session.tracker.layout.indexableFiles disk
    let scanned := scanFiles disk files session
    (∀ result ∈ scanned.1, result ≠ .cancelled) ∧
      ((session.scan disk).1.filesFailed = 0 → ∀ result ∈ scanned.1, result ≠ .failed) ∧
      (session.scan disk).2 =
        { scanned.2 with
          tracker := (scanned.2.vanished files).foldl Tracker.forget scanned.2.tracker } := by
  intro files scanned
  have ends := scan_eq_of_completed completed
  rw [summary_scan] at completed
  rw [ends]
  exact ⟨ScanSummary.cancelled_ofResults_iff.mp completed,
    ScanSummary.filesFailed_ofResults_iff.mp, rfl⟩

theorem completed_scan (disk : Disk) {session : Session} (plain : session.circumstances = {}) :
    (session.scan disk).1.cancelled = false := by
  rw [summary_scan]
  exact ScanSummary.cancelled_ofResults_iff.mpr (completed_scanFiles disk _ plain)

theorem mem_vanished_iff {session : Session} {files : List Path} {source : Path} :
    (∃ gone ∈ session.vanished files, (gone == source) = true) ↔
      (session.tracker.tracked.get? source).isSome ∧
        ∀ file ∈ files, (file == source) = false := by
  rw [OrderedMap.get?_isSome_iff]
  unfold vanished
  simp only [List.mem_filter, Bool.not_eq_true', List.any_eq_false]
  constructor
  · rintro ⟨gone, ⟨member, notFile⟩, same⟩
    refine ⟨⟨gone, member, same⟩, fun file isFile => ?_⟩
    rw [← BEq.congr_right same]
    exact Bool.eq_false_iff.mpr (notFile file isFile)
  · rintro ⟨⟨gone, member, same⟩, notFile⟩
    refine ⟨gone, ⟨member, fun file isFile => ?_⟩, same⟩
    rw [BEq.congr_right same, notFile file isFile]
    exact Bool.false_ne_true

section

variable {disk : Disk} {session : Session}

/-- What a completed scan needs to find, so that all that comes from before gives way to what is on
the disk now. A file that cannot be read counts as one that was never a source. -/
structure Scannable (disk : Disk) (session : Session) : Prop where
  sound : session.tracker.Sound
  proper : ∀ source, (session.tracker.tracked.get? source).isSome →
    session.tracker.layout.Proper source
  readsDisk : ReadsDisk disk (session.tracker.layout.indexableFiles disk) session
  unread : ∀ file ∈ session.tracker.layout.indexableFiles disk,
    disk.reading? session.tracker.settings file = none →
      session.tracker.tracked.get? file = none

theorem sound_scanFiles (disk : Disk) (files : List Path) {session : Session}
    (undisturbed : session.Undisturbed) (sound : session.tracker.Sound) :
    (scanFiles disk files session).2.tracker.Sound :=
  sound.moves (proceeds_scanFiles disk (fun file _ => Guard.given_admits file) session
    (admitsEdit_of_undisturbed undisturbed)).moves

theorem sound_scan (disk : Disk) {session : Session} (undisturbed : session.Undisturbed)
    (sound : session.tracker.Sound) : (session.scan disk).2.tracker.Sound :=
  sound.moves (moves_scan disk session (admitsEdit_of_undisturbed undisturbed)
    fun file _ => Guard.given_admits file)

theorem scannable_of_new (disk : Disk) {layout : Layout} {settings : Settings} {session : Session}
    (isNew : session.tracker = .ofLayout layout settings) (fromDisk : session.FromDisk) :
    Scannable disk session := by
  have untracked (source : Path) : session.tracker.tracked.get? source = none := by
    rw [isNew]
    rfl
  have truthful (file : Path) : session.tracker.cache.TruthfulAt disk file := by
    rw [isNew]
    exact TextCache.truthfulAt_of_get?_eq_none rfl disk
  constructor
  case sound =>
    rw [isNew]
    exact sound_ofLayout layout settings
  case proper =>
    intro source isTracked
    rw [untracked] at isTracked
    cases isTracked
  case readsDisk =>
    exact ⟨fromDisk.undisturbed, fun file _ => reading?_of_truthfulAt fromDisk (truthful file)⟩
  case unread => exact fun file _ _ => untracked file

structure ScansBy (disk : Disk) (session : Session) (read : Tracker) : Prop where
  sound : read.Sound
  rereads : Rereads disk (session.reading? disk) (session.tracker.layout.indexableFiles disk)
    session.tracker read
  drops : Drops (session.tracker.isStray disk) read (session.scan disk).2.tracker
  complete : (session.scan disk).1.filesFailed = 0 →
    ∀ file ∈ session.tracker.layout.indexableFiles disk, (session.reading? disk file).isSome

theorem exists_scansBy (undisturbed : session.Undisturbed) (sound : session.tracker.Sound)
    (completed : (session.scan disk).1.cancelled = false) :
    ∃ read, ScansBy disk session read := by
  let files := session.tracker.layout.indexableFiles disk
  let scanned := (scanFiles disk files session).2
  obtain ⟨running, succeeds, isScanned⟩ := scan_of_completed completed
  have soundScanned : scanned.tracker.Sound := sound_scanFiles disk files undisturbed sound
  have distinct := session.tracker.layout.indexableFiles_distinct disk
  have rereads := rereads_scanFiles distinct undisturbed sound running
  have results := results_scanFiles distinct undisturbed sound running
  have vanished : (fun path => (scanned.vanished files).any (· == path)) =
      session.tracker.isStray disk := by
    funext path
    rw [Bool.eq_iff_iff, List.any_eq_true, mem_vanished_iff, isStray_iff]
    exact and_congr_left fun notScanned => by rw [(rereads.others path notScanned).tracked]
  refine ⟨scanned.tracker, soundScanned, rereads, ?_, fun noFailures file member => ?_⟩
  · rw [isScanned, ← vanished]
    exact drops_foldl_forget soundScanned.coupled.consistent (scanned.vanished files)
  · have succeeded := succeeds noFailures
    rw [results, List.forall_mem_map] at succeeded
    exact isSome_reading?_of_resultOf (succeeded file member)

theorem Scannable.upToDate_scan (scannable : Scannable disk session)
    (completed : (session.scan disk).1.cancelled = false) :
    (session.scan disk).2.tracker.UpToDate disk ∧
      (session.scan disk).2.tracker.layout = session.tracker.layout ∧
      (session.scan disk).2.tracker.settings = session.tracker.settings := by
  obtain ⟨sound, proper, readsDisk, unread⟩ := scannable
  obtain ⟨read, soundRead, rereads, drops, _⟩ :=
    exists_scansBy readsDisk.undisturbed sound completed
  have rereads := rereads.congr readsDisk.reading
  have listed {file : Path} (member : file ∈ session.tracker.layout.indexableFiles disk) :
      Lists read file (pointersIn disk session.tracker.layout session.tracker.settings file) := by
    unfold pointersIn
    cases isText : disk.reading? session.tracker.settings file with
    | some text => exact rereads.read file member text isText
    | none =>
        have same := rereads.unread file member isText
        exact lists_nil soundRead.coupled (same.tracked.trans (unread file member isText))
  have layout := drops.layout.trans rereads.layout
  have settings := drops.settings.trans rereads.settings
  refine ⟨⟨?_, ?_⟩, layout, settings⟩
  · rw [layout, settings]
    intro file member
    refine drops.lists (listed member) (isStray_eq_false_of_mem member) ?_
    intro tracked inPointers target isTarget
    rw [target?_of_mem_extract inPointers] at isTarget
    exact isStray_eq_false_of_isFile proper member (Layout.isFile_of_target? isTarget)
  · rw [layout]
    intro source notScanned
    rw [drops.tracked]
    split
    · rfl
    · next stays =>
      rw [isStray_iff, not_and_or, Option.not_isSome_iff_eq_none] at stays
      rw [(rereads.others source notScanned).tracked,
        stays.resolve_right (not_not_intro notScanned)]
      rfl

end

end Session

end CodePointers
