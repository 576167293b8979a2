import CodePointers.Proofs.Tracker.Cancellation

/-!
Scans that read the files in some other order, as workers that share the files do. Nothing of the
order shows in the end: neither in the summary nor in the pointers and the dump of the index.
-/

namespace CodePointers

namespace Tracker

theorem Rereads.sameSource {disk : Disk} {reading : Path → Option Text} {files other : List Path}
    {before left right : Tracker} (inLeft : Rereads disk reading files before left)
    (inRight : Rereads disk reading other before right)
    (sameFiles : ∀ file, file ∈ files ↔ file ∈ other) (source : Path) :
    SameSource source left right := by
  obtain ⟨file, member, same⟩ | apart := Path.listed_or_apart files source
  · have otherMember := (sameFiles file).mp member
    refine SameSource.congr ?_ same
    cases isText : reading file with
    | some text =>
        exact (inLeft.read file member text isText).sameSource
          (inRight.read file otherMember text isText)
    | none =>
        exact (inLeft.unread file member isText).trans
          (inRight.unread file otherMember isText).symm
  · exact (inLeft.others source apart).trans
      (inRight.others source fun file member => apart file ((sameFiles file).mpr member)).symm

theorem Drops.sameSource {gone : Path → Bool} {left right leftAfter rightAfter : Tracker}
    (inLeft : Drops gone left leftAfter) (inRight : Drops gone right rightAfter)
    (same : ∀ source, SameSource source left right) (source : Path) :
    SameSource source leftAfter rightAfter where
  tracked := by rw [inLeft.tracked, inRight.tracked, (same source).tracked]
  stored target lines := by rw [inLeft.stored, inRight.stored, (same source).stored]

theorem consistent_foldl_forget {tracker : Tracker} (consistent : tracker.index.Consistent)
    (files : List Path) : (files.foldl forget tracker).index.Consistent := by
  induction files generalizing tracker with
  | nil => exact consistent
  | cons file rest ih => exact ih (consistent_forget consistent file)

end Tracker

open Tracker

namespace Session

theorem length_vanished (session : Session) (files : List Path) :
    (session.vanished files).length =
      (session.tracker.tracked.filterMap fun source pointers =>
        if files.any (· == source) then none else some pointers).total fun _ => 1 := by
  rw [OrderedMap.total_filterMap]
  unfold vanished OrderedMap.keys
  induction session.tracker.tracked.entries with
  | nil => rfl
  | cons head rest ih =>
      rw [List.map_cons, List.filter_cons, List.map_cons, List.foldr_cons, ← ih]
      cases files.any (· == head.1) <;> simp [Nat.add_comm]

theorem length_vanished_congr {left right : Session} (files : List Path)
    (same : ∀ source, left.tracker.tracked.get? source = right.tracker.tracked.get? source) :
    (left.vanished files).length = (right.vanished files).length := by
  have congr {path other : Path} (spelling : path == other) :
      (fun pointers : List TrackedPointer =>
          if files.any (· == path) then none else some pointers) =
        fun pointers => if files.any (· == other) then none else some pointers := by
    have sameFile : (fun file : Path => file == path) = fun file => file == other :=
      funext fun file => BEq.congr_right spelling
    rw [sameFile]
  rw [length_vanished, length_vanished]
  refine OrderedMap.total_congr _ fun source => ?_
  rw [OrderedMap.get?_filterMap_of_congr congr, OrderedMap.get?_filterMap_of_congr congr, same]

section

variable {disk : Disk} {session : Session} {order : List Path}

theorem distinct_of_perm (isOrder : order.Perm (session.tracker.layout.indexableFiles disk)) :
    order.Pairwise fun left right => (left == right) = false :=
  (isOrder.pairwise_iff fun apart => BEq.comm.trans apart).mpr
    (session.tracker.layout.indexableFiles_distinct disk)

theorem sameSource_scanFiles (undisturbed : session.Undisturbed) (sound : session.tracker.Sound)
    (never : session.NeverCancelled)
    (isOrder : order.Perm (session.tracker.layout.indexableFiles disk)) (source : Path) :
    SameSource source (scanFiles disk order session).2.tracker
      (scanFiles disk (session.tracker.layout.indexableFiles disk) session).2.tracker := by
  have inOrder := rereads_scanFiles (distinct_of_perm isOrder) undisturbed sound
    (never.scanFiles disk order)
  have inFiles := rereads_scanFiles (session.tracker.layout.indexableFiles_distinct disk)
    undisturbed sound (never.scanFiles disk _)
  exact inOrder.sameSource inFiles (fun _ => isOrder.mem_iff) source

theorem ofResults_scanFiles (undisturbed : session.Undisturbed) (sound : session.tracker.Sound)
    (never : session.NeverCancelled)
    (isOrder : order.Perm (session.tracker.layout.indexableFiles disk)) :
    ScanSummary.ofResults (scanFiles disk order session).1 = ScanSummary.ofResults
      (scanFiles disk (session.tracker.layout.indexableFiles disk) session).1 := by
  rw [results_scanFiles (distinct_of_perm isOrder) undisturbed sound (never.scanFiles disk order),
    results_scanFiles (session.tracker.layout.indexableFiles_distinct disk) undisturbed sound
      (never.scanFiles disk _)]
  exact ScanSummary.ofResults_perm (isOrder.map _)

/-- A scan may read the files, collect the results and forget the vanished sources in any order. -/
theorem reordered_scan {results : List FileResult} {gone : List Path}
    (reachable : session.tracker.Reachable)
    (numbered : ∀ file, session.tracker.appliedTo file ≤ session.tracker.sequence)
    (undisturbed : session.Undisturbed) (never : session.NeverCancelled)
    (isOrder : order.Perm (session.tracker.layout.indexableFiles disk))
    (isResults : results.Perm (scanFiles disk order session).1)
    (isGone : gone.Perm ((scanFiles disk order session).2.vanished
      (session.tracker.layout.indexableFiles disk))) :
    { ScanSummary.ofResults results with filesRemoved := gone.length } = (session.scan disk).1 ∧
      SameContents (gone.foldl Tracker.forget (scanFiles disk order session).2.tracker)
        (session.scan disk).2.tracker := by
  have sound : session.tracker.Sound := ⟨reachable.coupled, numbered⟩
  let files := session.tracker.layout.indexableFiles disk
  let inOrder := (scanFiles disk order session).2
  let inFiles := (scanFiles disk files session).2
  have same : ∀ source, SameSource source inOrder.tracker inFiles.tracker :=
    sameSource_scanFiles undisturbed sound never isOrder
  have sameSummary := ofResults_scanFiles undisturbed sound never isOrder
  have ends := scan_eq_of_completed (never.scan disk)
  constructor
  · rw [ends, ScanSummary.ofResults_perm isResults, sameSummary, isGone.length_eq,
      length_vanished_congr files fun source => (same source).tracked]
  · have samePaths : (fun path => gone.any (· == path)) =
        fun path => (inFiles.vanished files).any (· == path) := by
      funext path
      rw [Bool.eq_iff_iff, List.any_eq_true, List.any_eq_true]
      simp only [isGone.mem_iff]
      rw [mem_vanished_iff, mem_vanished_iff, (same path).tracked]
    have orderSound := sound_scanFiles disk order undisturbed sound
    have filesSound := sound_scanFiles disk files undisturbed sound
    have fromOrder := drops_foldl_forget orderSound.coupled.consistent gone
    have fromFiles := drops_foldl_forget filesSound.coupled.consistent (inFiles.vanished files)
    rw [samePaths] at fromOrder
    rw [ends]
    exact sameContents_of_sameSource
      (consistent_foldl_forget orderSound.coupled.consistent gone)
      (consistent_foldl_forget filesSound.coupled.consistent _)
      fun source => fromOrder.sameSource fromFiles same source

end

theorem reordered_scan_of_two_files :
    let layout : Layout := ⟨.ofText "/w".toList, []⟩
    let first := Path.ofText "/w/a.md".toList
    let second := Path.ofText "/w/b.md".toList
    let old := Path.ofText "/w/old.md".toList
    let older := Path.ofText "/w/older.md".toList
    let disk := (Disk.empty.write first ⟨.text "@w/b.md:L1 @w/b.md:L2".toList, 0⟩).write second
      ⟨.text "@w/a.md:L1 @w/a.md:L1".toList, 0⟩
    let tracker := ((Tracker.ofLayout layout .default).perform disk
      (.reindex old "@w/a.md:L1".toList)).perform disk (.reindex older "@w/b.md:L1".toList)
    let session : Session := { tracker }
    let files := session.tracker.layout.indexableFiles disk
    let gone := ((scanFiles disk files.reverse session).2.vanished files).reverse
    tracker.Reachable ∧ (∀ file, tracker.appliedTo file ≤ tracker.sequence) ∧
      { ScanSummary.ofResults (scanFiles disk files.reverse session).1.reverse with
        filesRemoved := gone.length } = (session.scan disk).1 ∧
      SameContents (gone.foldl Tracker.forget (scanFiles disk files.reverse session).2.tracker)
        (session.scan disk).2.tracker ∧
      (session.scan disk).1 =
        { filesSeen := 2, filesIndexed := 2, filesRemoved := 2, references := 4 } ∧
      (session.scan disk).2.tracker.index.size = 3 := by
  intro layout first second old older disk tracker session files gone
  have reachable : tracker.Reachable :=
    ⟨_, _, .perform disk (.reindex _ _) (.perform disk (.reindex _ _) (.refl _))⟩
  have sound : tracker.Sound :=
    (sound_ofLayout layout .default).moves
      ((moves_reindex disk (Guard.given_admits old) _ _).trans
        (moves_reindex disk (Guard.given_admits older) _ _))
  have undisturbed : session.Undisturbed := rfl
  have same := @reordered_scan disk session files.reverse _ gone reachable sound.numbered
    undisturbed ⟨rfl, rfl⟩ files.reverse_perm (List.reverse_perm _) (List.reverse_perm _)
  exact ⟨reachable, sound.numbered, same.1, same.2, by decide +kernel, by decide +kernel⟩

end Session

end CodePointers
