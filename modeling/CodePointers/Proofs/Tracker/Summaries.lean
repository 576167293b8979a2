import CodePointers.Tracker.Scan
import Mathlib.Algebra.BigOperators.Group.List.Basic
import Mathlib.Algebra.Ring.Nat
import Mathlib.Data.List.Count

/-!
What the summary of a scan adds up: each result counts for one number, so that the order in which
the results come in does not show.
-/

namespace CodePointers

namespace FileResult

def outcome? : FileResult → Option Outcome
  | indexed outcome => some outcome
  | skipped | failed | cancelled => none

def isSkipped : FileResult → Bool
  | skipped => true
  | indexed _ | failed | cancelled => false

def isFailed : FileResult → Bool
  | failed => true
  | indexed _ | skipped | cancelled => false

def isCancelled : FileResult → Bool
  | cancelled => true
  | indexed _ | skipped | failed => false

theorem isCancelled_eq_false_iff {result : FileResult} :
    result.isCancelled = false ↔ result ≠ cancelled := by
  cases result <;> simp [isCancelled]

theorem isFailed_eq_false_iff {result : FileResult} :
    result.isFailed = false ↔ result ≠ failed := by
  cases result <;> simp [isFailed]

end FileResult

namespace ScanSummary

theorem foldl_add_eq (results : List FileResult) (summary : ScanSummary) :
    results.foldl add summary =
      let outcomes := results.filterMap FileResult.outcome?
      { summary with
        filesIndexed := summary.filesIndexed + outcomes.length
        filesFailed := summary.filesFailed + results.countP FileResult.isFailed
        filesSkipped := summary.filesSkipped + results.countP FileResult.isSkipped
        references := summary.references + (outcomes.map Outcome.indexed).sum
        parseFailures := summary.parseFailures + (outcomes.map Outcome.parseFailures).sum
        unresolved := summary.unresolved + (outcomes.map Outcome.unresolved).sum
        cancelled := summary.cancelled || results.any FileResult.isCancelled } := by
  induction results generalizing summary with
  | nil => simp
  | cons head rest ih =>
      rw [List.foldl_cons, ih]
      cases head <;> simp [add, FileResult.outcome?, FileResult.isFailed, FileResult.isSkipped,
        FileResult.isCancelled, List.filterMap_cons, List.countP_cons, Nat.add_assoc, Nat.add_comm,
        Nat.add_left_comm]

theorem ofResults_eq (results : List FileResult) :
    ofResults results =
      let outcomes := results.filterMap FileResult.outcome?
      { filesSeen := results.length
        filesIndexed := outcomes.length
        filesFailed := results.countP FileResult.isFailed
        filesSkipped := results.countP FileResult.isSkipped
        references := (outcomes.map Outcome.indexed).sum
        parseFailures := (outcomes.map Outcome.parseFailures).sum
        unresolved := (outcomes.map Outcome.unresolved).sum
        cancelled := results.any FileResult.isCancelled } := by
  rw [ofResults, foldl_add_eq]
  simp

theorem cancelled_ofResults_iff {results : List FileResult} :
    (ofResults results).cancelled = false ↔ ∀ result ∈ results, result ≠ .cancelled := by
  rw [ofResults_eq, List.any_eq_false]
  simp only [Bool.not_eq_true, FileResult.isCancelled_eq_false_iff]

theorem filesFailed_ofResults_iff {results : List FileResult} :
    (ofResults results).filesFailed = 0 ↔ ∀ result ∈ results, result ≠ .failed := by
  rw [ofResults_eq, List.countP_eq_zero]
  simp only [Bool.not_eq_true, FileResult.isFailed_eq_false_iff]

theorem ofResults_perm {results other : List FileResult} (perm : results.Perm other) :
    ofResults results = ofResults other := by
  have outcomes := perm.filterMap FileResult.outcome?
  have cancelled : results.any FileResult.isCancelled = other.any FileResult.isCancelled := by
    rw [Bool.eq_iff_iff, List.any_eq_true, List.any_eq_true]
    simp only [perm.mem_iff]
  rw [ofResults_eq, ofResults_eq]
  simp only [perm.length_eq, outcomes.length_eq, perm.countP_eq, (outcomes.map _).sum_eq, cancelled]

theorem started_ofResults (results : List FileResult) :
    (ofResults results).filesIndexed + (ofResults results).filesFailed +
        (ofResults results).filesSkipped =
      results.countP fun result => !result.isCancelled := by
  rw [ofResults_eq]
  induction results with
  | nil => rfl
  | cons head rest ih =>
      cases head <;> grind [FileResult.outcome?, FileResult.isFailed, FileResult.isSkipped,
        FileResult.isCancelled]

end ScanSummary

end CodePointers
