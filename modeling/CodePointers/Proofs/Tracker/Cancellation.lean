import CodePointers.Proofs.Tracker.ScanContents
import CodePointers.Proofs.Tracker.ScanResults

/-!
Scans whose token is cancelled, before they start or during one of their reads. The files up to that
moment are read like in a scan that nobody cancels, and nothing is done to any other source.
-/

namespace CodePointers

namespace Circumstances

def uncancelled (circumstances : Circumstances) : Circumstances :=
  { circumstances with cancelled := false, cancelAtRead? := none }

theorem uncancelled_countRead (circumstances : Circumstances) :
    circumstances.countRead.uncancelled = circumstances.uncancelled := by
  unfold countRead
  split <;> rfl

end Circumstances

open Tracker

namespace Session

def uncancelled (session : Session) : Session :=
  { session with circumstances := session.circumstances.uncancelled }

def reindexNext (disk : Disk) (session : Session) (file : Path) :
    Except ReadError Outcome × Session :=
  reindexFromDisk disk { session with tracker := session.tracker.reserve } file
    session.tracker.nextSequence

def readFile (disk : Disk) (session : Session) (file : Path) : Session :=
  (session.reindexNext disk file).2

def readFiles (disk : Disk) (session : Session) (files : List Path) : Session :=
  files.foldl (readFile disk) session

/-! The token does not matter for what is read. -/

theorem readText_uncancelled (disk : Disk) (session : Session) (file : Path) :
    session.uncancelled.readText disk file =
      ((session.readText disk file).1, (session.readText disk file).2.uncancelled) := by
  have sameServed : session.uncancelled.circumstances.servedText? file =
      session.circumstances.servedText? file := rfl
  rw [readText, readText, sameServed]
  cases session.circumstances.servedText? file <;> rfl

theorem meetEdit_uncancelled (disk : Disk) (session : Session) (file : Path) :
    session.uncancelled.meetEdit disk file = (session.meetEdit disk file).uncancelled := by
  have sameEdit : session.uncancelled.circumstances.edit? = session.circumstances.edit? := rfl
  rw [meetEdit, meetEdit, sameEdit]
  cases session.circumstances.edit? with
  | none => rfl
  | some edit =>
      dsimp only
      split <;> rfl

theorem fetch_uncancelled (disk : Disk) (session : Session) (file : Path) :
    session.uncancelled.fetch disk file =
      ((session.fetch disk file).1, (session.fetch disk file).2.uncancelled) := by
  let counted := { session with circumstances := session.circumstances.countRead }
  let text := (counted.readText disk file).1
  let read := (counted.readText disk file).2
  have sameCount : { session.uncancelled with
      circumstances := session.uncancelled.circumstances.countRead } = counted.uncancelled :=
    congrArg (Session.mk session.tracker) (Circumstances.uncancelled_countRead _).symm
  have sameRead : { session.uncancelled with
      circumstances := session.uncancelled.circumstances.countRead }.readText disk file =
        (text, read.uncancelled) := by
    rw [sameCount, readText_uncancelled]
  calc session.uncancelled.fetch disk file
    _ = (text, read.uncancelled.meetEdit disk file) := by
      rw [fetch]
      dsimp only
      rw [sameRead]
    _ = (text, (read.meetEdit disk file).uncancelled) := by rw [meetEdit_uncancelled]

theorem reindexFromDisk_uncancelled (disk : Disk) (session : Session) (file : Path) (number : Nat) :
    session.uncancelled.reindexFromDisk disk file number =
      ((session.reindexFromDisk disk file number).1,
        (session.reindexFromDisk disk file number).2.uncancelled) := by
  unfold reindexFromDisk
  rw [fetch_uncancelled]
  change (if ((disk.size? file).map session.isOversized).getD false then _ else _) = _
  split
  · rfl
  · obtain ⟨text | text, after⟩ := session.fetch disk file
    · rfl
    · dsimp only
      by_cases large : after.isOversized (byteLength text) = true
      · have stillLarge : after.uncancelled.isOversized (byteLength text) = true := large
        rw [if_pos stillLarge, if_pos large]
        rfl
      · have stillSmall : ¬after.uncancelled.isOversized (byteLength text) = true := large
        rw [if_neg stillSmall, if_neg large]
        rfl

theorem reindexNext_uncancelled (disk : Disk) (session : Session) (file : Path) :
    session.uncancelled.reindexNext disk file =
      ((session.reindexNext disk file).1, (session.reindexNext disk file).2.uncancelled) :=
  reindexFromDisk_uncancelled disk { session with tracker := session.tracker.reserve } file
    session.tracker.nextSequence

theorem readFiles_uncancelled (disk : Disk) (session : Session) (files : List Path) :
    session.uncancelled.readFiles disk files = (session.readFiles disk files).uncancelled := by
  induction files generalizing session with
  | nil => rfl
  | cons head rest ih =>
      change (session.uncancelled.readFile disk head).readFiles disk rest = _
      rw [readFile, reindexNext_uncancelled, ih]
      rfl

/-! What the token decides is only whether a file is read. -/

def resultOfRead : Except ReadError Outcome → FileResult
  | .error _ => .failed
  | .ok outcome => if outcome.oversized then .skipped else .indexed outcome

theorem isCancelled_resultOfRead (read : Except ReadError Outcome) :
    (resultOfRead read).isCancelled = false := by
  unfold resultOfRead
  split
  · rfl
  · split <;> rfl

theorem scanFile_of_cancelled {session : Session}
    (cancelled : session.circumstances.cancelled = true)
    (disk : Disk) (file : Path) : session.scanFile disk file = (.cancelled, session) := by
  rw [scanFile, if_pos cancelled]

theorem scanFile_eq {session : Session} (running : session.circumstances.cancelled = false)
    (disk : Disk) (file : Path) :
    session.scanFile disk file =
      (resultOfRead (session.reindexNext disk file).1, session.readFile disk file) := by
  rw [scanFile, if_neg (by simp [running]), readFile, reindexNext]
  dsimp only
  split
  · next read => rw [read, resultOfRead]
  · next read => rw [read, resultOfRead]

theorem scanFile_uncancelled {session : Session} (running : session.circumstances.cancelled = false)
    (disk : Disk) (file : Path) :
    session.uncancelled.scanFile disk file =
      ((session.scanFile disk file).1, (session.scanFile disk file).2.uncancelled) := by
  have stillRunning : session.uncancelled.circumstances.cancelled = false := rfl
  rw [scanFile_eq stillRunning, scanFile_eq running, readFile, reindexNext_uncancelled]
  rfl

/-! The moment at which the token is cancelled. -/

theorem scanFiles_of_cancelled {session : Session}
    (cancelled : session.circumstances.cancelled = true) (disk : Disk) (files : List Path) :
    scanFiles disk files session = (List.replicate files.length .cancelled, session) := by
  induction files with
  | nil => rfl
  | cons head rest ih =>
      rw [scanFiles, scanFile_of_cancelled cancelled]
      dsimp only
      rw [ih]
      rfl

/-- The number of the files, from the first one on, whose reading starts before the token is
cancelled. -/
structure StartsOf (disk : Disk) (session : Session) (files : List Path) (count : Nat) : Prop where
  le_length : count ≤ files.length
  running : ∀ earlier < count,
    (session.readFiles disk (files.take earlier)).circumstances.cancelled = false
  stopped : count < files.length →
    (session.readFiles disk (files.take count)).circumstances.cancelled = true

theorem startsOf_zero {disk : Disk} {session : Session}
    (cancelled : session.circumstances.cancelled = true) (files : List Path) :
    StartsOf disk session files 0 :=
  ⟨Nat.zero_le _, nofun, fun _ => cancelled⟩

theorem startsOf_cons {disk : Disk} {session : Session} {head : Path} {rest : List Path}
    {count : Nat} (running : session.circumstances.cancelled = false)
    (starts : StartsOf disk (session.readFile disk head) rest count) :
    StartsOf disk session (head :: rest) (count + 1) := by
  obtain ⟨bound, before, after⟩ := starts
  refine ⟨Nat.succ_le_succ bound, ?_, fun more => after (Nat.lt_of_succ_lt_succ more)⟩
  intro earlier below
  cases earlier with
  | zero => exact running
  | succ earlier => exact before earlier (Nat.lt_of_succ_lt_succ below)

theorem exists_startsOf (disk : Disk) (files : List Path) (session : Session) :
    ∃ count, StartsOf disk session files count ∧
      (scanFiles disk files session).2 = session.readFiles disk (files.take count) ∧
      (scanFiles disk files session).1.map FileResult.isCancelled =
        List.replicate count false ++ List.replicate (files.length - count) true := by
  induction files generalizing session with
  | nil => exact ⟨0, ⟨Nat.le_refl 0, nofun, nofun⟩, rfl, rfl⟩
  | cons head rest ih =>
      by_cases running : session.circumstances.cancelled = false
      · obtain ⟨count, starts, isRead, results⟩ := ih (session.readFile disk head)
        have first := scanFile_eq running disk head
        refine ⟨count + 1, startsOf_cons running starts, ?_, ?_⟩
        · rw [scanFiles, first]
          exact isRead
        · rw [scanFiles, first]
          change FileResult.isCancelled (resultOfRead _) :: List.map _ _ = _
          rw [isCancelled_resultOfRead, results, List.length_cons, Nat.add_sub_add_right]
          rfl
      · have cancelled : session.circumstances.cancelled = true := by simpa using running
        refine ⟨0, startsOf_zero cancelled _, ?_, ?_⟩
        · rw [scanFiles_of_cancelled cancelled]
          rfl
        · rw [scanFiles_of_cancelled cancelled, List.map_replicate]
          rfl

theorem scanFiles_uncancelled {disk : Disk} {files : List Path} {session : Session}
    (completed : ∀ result ∈ (scanFiles disk files session).1, result ≠ .cancelled) :
    scanFiles disk files session.uncancelled =
      ((scanFiles disk files session).1, (scanFiles disk files session).2.uncancelled) := by
  induction files generalizing session with
  | nil => rfl
  | cons head rest ih =>
      obtain ⟨running, restCompleted⟩ := completed_scanFiles_cons completed
      rw [scanFiles, scanFile_uncancelled running]
      dsimp only
      rw [ih restCompleted]
      rfl

theorem conclude_uncancelled (files : List Path) (results : List FileResult) (session : Session) :
    conclude files (results, session.uncancelled) =
      ((conclude files (results, session)).1,
        (conclude files (results, session)).2.uncancelled) := by
  unfold conclude
  dsimp only
  split <;> rfl

theorem scan_uncancelled {disk : Disk} {session : Session}
    (completed : (session.scan disk).1.cancelled = false) :
    session.uncancelled.scan disk =
      ((session.scan disk).1, (session.scan disk).2.uncancelled) := by
  let files := session.tracker.layout.indexableFiles disk
  have same : scanFiles disk files session.uncancelled = _ :=
    scanFiles_uncancelled (scan_of_completed completed).1
  calc session.uncancelled.scan disk
    _ = conclude files (scanFiles disk files session.uncancelled) := rfl
    _ = ((session.scan disk).1, (session.scan disk).2.uncancelled) := by
      rw [same, conclude_uncancelled]
      rfl

/-! Sessions whose token nobody cancels. -/

structure NeverCancelled (session : Session) : Prop where
  running : session.circumstances.cancelled = false
  notDue : session.circumstances.cancelAtRead? = none

theorem uncancelled_eq_self_iff {session : Session} :
    session.uncancelled = session ↔ session.NeverCancelled := by
  obtain ⟨tracker, served, edit?, cancelled, cancelAtRead?⟩ := session
  constructor
  · intro same
    injection same with _ same
    injection same with _ _ notCancelled notDue
    exact ⟨notCancelled.symm, notDue.symm⟩
  · rintro ⟨running, notDue⟩
    dsimp only at running notDue
    subst running notDue
    rfl

theorem NeverCancelled.readFiles {session : Session} (never : session.NeverCancelled) (disk : Disk)
    (files : List Path) : (session.readFiles disk files).NeverCancelled := by
  rw [← uncancelled_eq_self_iff, ← readFiles_uncancelled, uncancelled_eq_self_iff.mpr never]

theorem NeverCancelled.scanFiles {session : Session} (never : session.NeverCancelled) (disk : Disk)
    (files : List Path) :
    ∀ result ∈ (Session.scanFiles disk files session).1, result ≠ .cancelled := by
  obtain ⟨count, starts, _, flags⟩ := exists_startsOf disk files session
  have all : ¬count < files.length := by
    intro less
    have stopped := starts.stopped less
    rw [(never.readFiles disk _).running] at stopped
    cases stopped
  rw [Nat.sub_eq_zero_of_le (Nat.not_lt.mp all), List.replicate_zero, List.append_nil] at flags
  intro result member
  rw [← FileResult.isCancelled_eq_false_iff]
  have inFlags := List.mem_map_of_mem (f := FileResult.isCancelled) member
  rw [flags] at inFlags
  exact List.eq_of_mem_replicate inFlags

theorem NeverCancelled.scan {session : Session} (never : session.NeverCancelled) (disk : Disk) :
    (session.scan disk).1.cancelled = false := by
  rw [summary_scan]
  exact ScanSummary.cancelled_ofResults_iff.mpr (never.scanFiles disk _)

/-! What is read leaves the other sources alone. -/

theorem Reads.consistent {disk : Disk} {file : Path} {number : Nat} {before after : Session}
    (reads : Reads disk file number before after) (consistent : before.tracker.index.Consistent) :
    after.tracker.index.Consistent := by
  obtain ⟨cache, isTracker⟩ := reads.tracker
  rw [isTracker]
  split
  · exact consistent
  · next text _ =>
    exact @consistent_reindexAt { before.tracker with cache } consistent disk file text number

theorem Reads.sameSource {disk : Disk} {file source : Path} {number : Nat} {before after : Session}
    (reads : Reads disk file number before after) (consistent : before.tracker.index.Consistent)
    (unread : (file == source) = true → before.reading? disk file = none) :
    SameSource source after.tracker before.tracker := by
  obtain ⟨cache, isTracker⟩ := reads.tracker
  rw [isTracker]
  split
  · exact ⟨rfl, fun _ _ => rfl⟩
  · next text isText =>
    have other : (file == source) = false := by
      refine Bool.eq_false_iff.mpr fun same => ?_
      rw [unread same] at isText
      cases isText
    have same := @sameSource_reindexAt { before.tracker with cache } consistent disk file source
      text number other
    exact ⟨same.tracked, same.stored⟩

theorem reads_readFile {session : Session} (undisturbed : session.Undisturbed) (disk : Disk)
    (file : Path) :
    Reads disk file session.tracker.nextSequence
      { session with tracker := session.tracker.reserve } (session.readFile disk file) :=
  (@reindexFromDisk_of_undisturbed disk { session with tracker := session.tracker.reserve }
    undisturbed file session.tracker.nextSequence).1

theorem sameSource_readFiles {disk : Disk} {files : List Path} {session : Session} {source : Path}
    (distinct : files.Pairwise fun left right => (left == right) = false)
    (consistent : session.tracker.index.Consistent) (undisturbed : session.Undisturbed)
    (unread : ∀ file ∈ files, (file == source) = true → session.reading? disk file = none) :
    SameSource source (session.readFiles disk files).tracker session.tracker := by
  induction files generalizing session with
  | nil => exact .refl source session.tracker
  | cons head rest ih =>
      obtain ⟨apart, restDistinct⟩ := List.pairwise_cons.mp distinct
      obtain ⟨unreadHead, unreadRest⟩ := List.forall_mem_cons.mp unread
      have reads := reads_readFile undisturbed disk head
      have headSame : SameSource source (session.readFile disk head).tracker session.tracker := by
        have same := reads.sameSource consistent fun same =>
          (reading?_reserve disk session head).trans (unreadHead same)
        exact ⟨same.tracked, same.stored⟩
      have restUnread (file : Path) (member : file ∈ rest) (same : (file == source) = true) :
          (session.readFile disk head).reading? disk file = none := by
        rw [reading?_congr disk reads.settings reads.served (reads.cache file (apart file member)),
          reading?_reserve]
        exact unreadRest file member same
      exact (ih restDistinct (reads.consistent consistent) (reads.undisturbed undisturbed)
        restUnread).trans headSame

/-! The scan of a workspace. -/

theorem ofResults_of_passed {results : List FileResult} {count passed : Nat}
    (flags : results.map FileResult.isCancelled =
      List.replicate count false ++ List.replicate passed true) :
    (ScanSummary.ofResults results).filesSeen = count + passed ∧
      (ScanSummary.ofResults results).filesIndexed + (ScanSummary.ofResults results).filesFailed +
        (ScanSummary.ofResults results).filesSkipped = count ∧
      ((ScanSummary.ofResults results).cancelled = true ↔ 0 < passed) := by
  refine ⟨?_, ?_, ?_⟩
  · have lengths := congrArg List.length flags
    rw [List.length_map, List.length_append, List.length_replicate,
      List.length_replicate] at lengths
    rw [ScanSummary.ofResults_eq, lengths]
  · calc (ScanSummary.ofResults results).filesIndexed +
          (ScanSummary.ofResults results).filesFailed +
          (ScanSummary.ofResults results).filesSkipped
      _ = results.countP fun result => !result.isCancelled := ScanSummary.started_ofResults results
      _ = (results.map FileResult.isCancelled).countP fun flag => !flag := by
        rw [List.countP_map]
        rfl
      _ = count := by
        rw [flags, List.countP_append, List.countP_replicate, List.countP_replicate]
        simp
  · have same : results.any FileResult.isCancelled =
        (results.map FileResult.isCancelled).any id := by
      rw [List.any_map]
      rfl
    rw [ScanSummary.ofResults_eq, same, flags, List.any_append]
    simp [Nat.pos_iff_ne_zero]

/-- What a scan amounts to whose token is cancelled when the reading of `count` files has started.
Of a file that cannot be read nothing is taken up. -/
structure PrefixScan (disk : Disk) (session : Session) (count : Nat) : Prop where
  starts : StartsOf disk session (session.tracker.layout.indexableFiles disk) count
  started : (session.scan disk).1.filesIndexed + (session.scan disk).1.filesFailed +
    (session.scan disk).1.filesSkipped = count
  seen : (session.scan disk).1.filesSeen =
    (session.tracker.layout.indexableFiles disk).length
  cancelled_iff : (session.scan disk).1.cancelled = true ↔
    count < (session.scan disk).1.filesSeen
  removed : (session.scan disk).1.cancelled = true → (session.scan disk).1.filesRemoved = 0
  tracker : (session.scan disk).1.cancelled = true →
    (session.scan disk).2.tracker = (session.uncancelled.readFiles disk
      ((session.tracker.layout.indexableFiles disk).take count)).tracker
  others : (session.scan disk).1.cancelled = true → session.Undisturbed → ∀ source,
    (∀ file ∈ (session.tracker.layout.indexableFiles disk).take count,
      (file == source) = true → session.reading? disk file = none) →
    SameSource source (session.scan disk).2.tracker session.tracker
  completed : (session.scan disk).1.cancelled = false →
    (session.scan disk).1 = (session.uncancelled.scan disk).1 ∧
      (session.scan disk).2.tracker = (session.uncancelled.scan disk).2.tracker

/-- Whenever the token is cancelled, the scan is one of the first files. -/
theorem exists_prefixScan {session : Session} (reachable : session.tracker.Reachable)
    (disk : Disk) : ∃ count, PrefixScan disk session count := by
  let files := session.tracker.layout.indexableFiles disk
  obtain ⟨count, starts, isRead, flags⟩ := exists_startsOf disk files session
  obtain ⟨seen, started, cancelled_iff⟩ := ofResults_of_passed flags
  have atMost := starts.le_length
  have summary := summary_scan disk session
  have cut (cancelled : (session.scan disk).1.cancelled = true) :
      session.scan disk = (ScanSummary.ofResults (scanFiles disk files session).1,
        session.readFiles disk (files.take count)) := by
    rw [scan_eq_of_cancelled cancelled, ← isRead]
  refine ⟨count, ?_⟩
  constructor
  · exact starts
  · rw [summary]
    exact started
  · rw [summary]
    exact seen.trans (Nat.add_sub_cancel' atMost)
  · rw [summary]
    change (ScanSummary.ofResults (scanFiles disk files session).1).cancelled = true ↔
      count < (ScanSummary.ofResults (scanFiles disk files session).1).filesSeen
    rw [cancelled_iff]
    omega
  · intro cancelled
    rw [cut cancelled, ScanSummary.ofResults_eq]
  · intro cancelled
    rw [cut cancelled, readFiles_uncancelled]
    rfl
  · intro cancelled undisturbed source unread
    rw [cut cancelled]
    exact sameSource_readFiles (session.tracker.layout.indexableFiles_distinct disk).take
      reachable.coupled.consistent undisturbed unread
  · intro completed
    rw [scan_uncancelled completed]
    exact ⟨rfl, rfl⟩

theorem exists_prefixScan_of_cancelled_read :
    let layout : Layout := ⟨.ofText "/w".toList, []⟩
    let gone := Path.ofText "/w/gone.md".toList
    let first := Path.ofText "/w/a.md".toList
    let second := Path.ofText "/w/b.md".toList
    let disk := (Disk.empty.write first ⟨.text "@w/b.md:L1".toList, 0⟩).write second
      ⟨.text "@w/a.md:L1".toList, 0⟩
    let tracker := ((Tracker.ofLayout layout .default).perform disk
      (.reindex second "@w/b.md:L2".toList)).perform disk (.reindex gone "@w/b.md:L1".toList)
    let session : Session := { tracker, circumstances := { cancelAtRead? := some 1 } }
    let summary := (session.scan disk).1
    session.tracker.Reachable ∧ (∃ count, PrefixScan disk session count) ∧
      summary = { filesSeen := 2, filesIndexed := 1, references := 1, cancelled := true } ∧
      (session.scan disk).2.tracker.index.size = 3 := by
  intro layout gone first second disk tracker session summary
  have reachable : tracker.Reachable :=
    ⟨_, _, .perform disk (.reindex _ _) (.perform disk (.reindex _ _) (.refl _))⟩
  exact ⟨reachable, exists_prefixScan reachable disk, by decide +kernel, by decide +kernel⟩

end Session

end CodePointers
