import CodePointers.Proofs.Tracker.Rereads
import CodePointers.Proofs.Tracker.Summaries

/-!
What a scan reports of each file. As long as nobody interferes, the result depends on the file and
its text alone, and not on which files were read before.
-/

namespace CodePointers

namespace Tracker

def tally (disk : Disk) (layout : Layout) (text : Text) : Outcome :=
  { matched := (Occurrence.findAll text).length
    indexed := (extract disk layout text).countP fun tracked => !tracked.isPending
    parseFailures := (Occurrence.findAll text).countP isMalformed
    unresolved := (extract disk layout text).countP TrackedPointer.isPending }

theorem outcome_reindexAt {tracker : Tracker} {file : Path} {number : Nat}
    (newer : ¬number < tracker.appliedTo file) (disk : Disk) (text : Text) :
    (tracker.reindexAt disk file text number).2 = tally disk tracker.layout text := by
  rw [reindexAt, if_neg newer]
  rfl

end Tracker

open Tracker

namespace Session

/-- The text of a file that the session takes up when it reads the file now; none of one that is
too large. -/
def intake (disk : Disk) (session : Session) (file : Path) : Except ReadError (Option Text) :=
  if ((disk.size? file).map session.isOversized).getD false then .ok none
  else (session.readText disk file).1.map fun text =>
    if session.isOversized (byteLength text) then none else some text

def resultOf (disk : Disk) (session : Session) (file : Path) : FileResult :=
  match session.intake disk file with
  | .error _ => .failed
  | .ok none => .skipped
  | .ok (some text) => .indexed (tally disk session.tracker.layout text)

def indexedText? (disk : Disk) (session : Session) (file : Path) : Option Text :=
  (session.intake disk file).toOption.join

theorem reading?_eq_intake (disk : Disk) (session : Session) (file : Path) :
    session.reading? disk file = (session.intake disk file).toOption.map (·.getD []) := by
  unfold reading? intake
  split
  · rfl
  · cases (session.readText disk file).1 with
    | error error => rfl
    | ok text =>
        refine congrArg some ?_
        cases large : session.isOversized (byteLength text) <;> simp [large]

theorem intake_congr (disk : Disk) {left right : Session} {file : Path}
    (settings : left.tracker.settings = right.tracker.settings)
    (served : left.circumstances.served = right.circumstances.served)
    (cache : left.tracker.cache.get? file = right.tracker.cache.get? file) :
    left.intake disk file = right.intake disk file := by
  rw [intake, intake, readText_congr disk served cache, isOversized_congr settings]

theorem resultOf_congr (disk : Disk) {left right : Session} {file : Path}
    (layout : left.tracker.layout = right.tracker.layout)
    (settings : left.tracker.settings = right.tracker.settings)
    (served : left.circumstances.served = right.circumstances.served)
    (cache : left.tracker.cache.get? file = right.tracker.cache.get? file) :
    left.resultOf disk file = right.resultOf disk file := by
  rw [resultOf, resultOf, intake_congr disk settings served cache, layout]

theorem outcome?_resultOf (disk : Disk) (session : Session) (file : Path) :
    (session.resultOf disk file).outcome? =
      (session.indexedText? disk file).map (tally disk session.tracker.layout) := by
  unfold resultOf indexedText?
  cases session.intake disk file with
  | error error => rfl
  | ok text? => cases text? <;> rfl

theorem isCancelled_resultOf (disk : Disk) (session : Session) (file : Path) :
    (session.resultOf disk file).isCancelled = false := by
  unfold resultOf
  split <;> rfl

theorem isSome_reading?_of_resultOf {disk : Disk} {session : Session} {file : Path}
    (succeeds : session.resultOf disk file ≠ .failed) : (session.reading? disk file).isSome := by
  rw [reading?_eq_intake]
  unfold resultOf at succeeds
  cases taken : session.intake disk file with
  | error error =>
      rw [taken] at succeeds
      exact absurd rfl succeeds
  | ok text? => rfl

/-! One file. -/

theorem Reads.layout {disk : Disk} {file : Path} {number : Nat} {before after : Session}
    (reads : Reads disk file number before after) :
    after.tracker.layout = before.tracker.layout := by
  obtain ⟨cache, isTracker⟩ := reads.tracker
  rw [isTracker]
  split
  · rfl
  · rw [layout_reindexAt]

section

variable {disk : Disk} {session : Session} {file : Path} {number : Nat}

theorem outcome_dropOversized (newer : ¬number < session.tracker.appliedTo file) :
    (session.dropOversized disk file number).1 =
      { tally disk session.tracker.layout [] with oversized := true } := by
  rw [← outcome_reindexAt newer]
  rfl

theorem outcome_reindexFromDisk (undisturbed : session.Undisturbed)
    (newer : ¬number < session.tracker.appliedTo file) :
    (session.reindexFromDisk disk file number).1 = (session.intake disk file).map fun text? =>
      { tally disk session.tracker.layout (text?.getD []) with oversized := text?.isNone } := by
  obtain ⟨sameText, cache, isFetched, _⟩ := fetch_of_undisturbed disk undisturbed file
  unfold reindexFromDisk intake
  split
  · exact congrArg Except.ok (outcome_dropOversized newer)
  · rw [← sameText]
    split
    · next error after result =>
      rw [result]
      rfl
    · next text after result =>
      rw [result] at isFetched
      obtain rfl : after = _ := isFetched
      rw [result]
      let read : Session :=
        { tracker := { session.tracker with cache }
          circumstances := session.circumstances.countRead }
      have readNewer : ¬number < read.tracker.appliedTo file := newer
      refine congrArg Except.ok ?_
      change (if session.isOversized (byteLength text) then read.dropOversized disk file number
        else read.reindexAt disk file text number).1 = _
      dsimp only
      cases session.isOversized (byteLength text) with
      | true => exact outcome_dropOversized readNewer
      | false => exact outcome_reindexAt readNewer disk text

theorem result_scanFile (running : session.circumstances.cancelled = false)
    (sound : session.tracker.Sound) (undisturbed : session.Undisturbed) :
    (session.scanFile disk file).1 = session.resultOf disk file := by
  have newer : ¬session.tracker.nextSequence < session.tracker.appliedTo file :=
    Nat.not_lt.mpr (Nat.le_succ_of_le (sound.numbered file))
  let reserved := { session with tracker := session.tracker.reserve }
  have reservedUndisturbed : reserved.Undisturbed := undisturbed
  have outcome := @outcome_reindexFromDisk disk reserved file _ reservedUndisturbed newer
  have sameIntake : reserved.intake disk file = session.intake disk file :=
    intake_congr disk rfl rfl rfl
  rw [scanFile, if_neg (by rw [running]; exact Bool.false_ne_true), resultOf, ← sameIntake]
  dsimp only
  split
  · next error after result =>
    rw [result] at outcome
    cases taken : reserved.intake disk file with
    | error error => rfl
    | ok text? =>
        rw [taken] at outcome
        cases outcome
  · next result =>
    rw [result] at outcome
    cases taken : reserved.intake disk file with
    | error error =>
        rw [taken] at outcome
        cases outcome
    | ok text? =>
        rw [taken] at outcome
        cases outcome
        cases text? <;> rfl

end

/-! Many files. -/

theorem resultOf_scanFile {disk : Disk} {session : Session} {head file : Path}
    (undisturbed : session.Undisturbed) (running : session.circumstances.cancelled = false)
    (apart : (head == file) = false) :
    (session.scanFile disk head).2.resultOf disk file = session.resultOf disk file := by
  have reads : Reads disk head session.tracker.nextSequence
      { session with tracker := session.tracker.reserve } (session.scanFile disk head).2 :=
    (scanFile_of_running running undisturbed).1
  exact resultOf_congr disk reads.layout reads.settings reads.served (reads.cache file apart)

/-- The result of each file is the one that it would have if it were read first. -/
theorem results_scanFiles {disk : Disk} {files : List Path} {session : Session}
    (distinct : files.Pairwise fun left right => (left == right) = false)
    (undisturbed : session.Undisturbed) (sound : session.tracker.Sound)
    (completed : ∀ result ∈ (scanFiles disk files session).1, result ≠ .cancelled) :
    (scanFiles disk files session).1 = files.map (session.resultOf disk) := by
  induction files generalizing session with
  | nil => rfl
  | cons head rest ih =>
      obtain ⟨apart, restDistinct⟩ := List.pairwise_cons.mp distinct
      obtain ⟨running, restCompleted⟩ := completed_scanFiles_cons completed
      have sameResults : rest.map ((session.scanFile disk head).2.resultOf disk) =
          rest.map (session.resultOf disk) :=
        List.map_congr_left fun file member =>
          resultOf_scanFile undisturbed running (apart file member)
      calc (session.scanFile disk head).1 ::
            (scanFiles disk rest (session.scanFile disk head).2).1
          _ = session.resultOf disk head ::
                rest.map ((session.scanFile disk head).2.resultOf disk) := by
            rw [result_scanFile running sound undisturbed,
              ih restDistinct (undisturbed_scanFile undisturbed running)
                (sound_scanFile undisturbed sound) restCompleted]
          _ = (head :: rest).map (session.resultOf disk) := by rw [sameResults, List.map_cons]

/-! The end of a scan. -/

def conclude (files : List Path) (scanned : List FileResult × Session) : ScanSummary × Session :=
  let (results, session) := scanned
  let summary := ScanSummary.ofResults results
  if summary.cancelled then (summary, session)
  else
    ({ summary with filesRemoved := (session.vanished files).length },
      { session with tracker := (session.vanished files).foldl Tracker.forget session.tracker })

theorem scan_eq_conclude (disk : Disk) (session : Session) :
    session.scan disk =
      let files := session.tracker.layout.indexableFiles disk
      conclude files (scanFiles disk files session) := rfl

theorem summary_scan (disk : Disk) (session : Session) :
    (session.scan disk).1 =
      { ScanSummary.ofResults
          (scanFiles disk (session.tracker.layout.indexableFiles disk) session).1 with
        filesRemoved := (session.scan disk).1.filesRemoved } := by
  rw [scan_eq_conclude]
  unfold conclude
  dsimp only
  split <;> rfl

theorem scan_eq_of_cancelled {disk : Disk} {session : Session}
    (cancelled : (session.scan disk).1.cancelled = true) :
    session.scan disk =
      let scanned := scanFiles disk (session.tracker.layout.indexableFiles disk) session
      (ScanSummary.ofResults scanned.1, scanned.2) := by
  rw [summary_scan] at cancelled
  exact if_pos cancelled

theorem scan_eq_of_completed {disk : Disk} {session : Session}
    (completed : (session.scan disk).1.cancelled = false) :
    session.scan disk =
      let files := session.tracker.layout.indexableFiles disk
      let scanned := scanFiles disk files session
      ({ ScanSummary.ofResults scanned.1 with
          filesRemoved := (scanned.2.vanished files).length },
        { scanned.2 with
          tracker := (scanned.2.vanished files).foldl Tracker.forget scanned.2.tracker }) := by
  rw [summary_scan] at completed
  exact if_neg (Bool.eq_false_iff.mp completed)

end Session

end CodePointers
