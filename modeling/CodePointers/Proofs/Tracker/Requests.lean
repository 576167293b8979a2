import CodePointers.Proofs.Snapshot
import CodePointers.Proofs.Tracker.Fences
import CodePointers.Proofs.Tracker.Sources

/-!
Numbered requests that arrive in any order. For each file only the request with the highest number
counts: what the tracker ends with does not depend on the order of the others.
-/

namespace CodePointers

structure Request where
  file : Path
  text : Text
  number : Nat

namespace Tracker

def carryOut (disk : Disk) (tracker : Tracker) (request : Request) : Tracker :=
  (tracker.reindexAt disk request.file request.text request.number).1

def carryOutAll (disk : Disk) (tracker : Tracker) (requests : List Request) : Tracker :=
  requests.foldl (carryOut disk) tracker

def Newest (requests : List Request) (request : Request) : Prop :=
  ∀ other ∈ requests, other.file == request.file →
    other = request ∨ other.number < request.number

def latest (requests : List Request) : List Request :=
  requests.filter fun request =>
    requests.all fun other =>
      !(other.file == request.file) || decide (other.number ≤ request.number)

/-- Trackers with the same pointers of every source and the same snapshot. -/
structure SameContents (left right : Tracker) : Prop where
  tracked : ∀ file, left.tracked.get? file = right.tracked.get? file
  snapshot : (left.snapshot == right.snapshot) = true

structure Holds (disk : Disk) (tracker : Tracker) (request : Request) : Prop where
  lists : Lists tracker request.file (extract disk tracker.layout request.text)
  applied : tracker.appliedTo request.file = request.number

theorem Holds.sameSource {disk : Disk} {left right : Tracker} {request : Request}
    (inLeft : Holds disk left request) (inRight : Holds disk right request)
    (layout : left.layout = right.layout) : SameSource request.file left right := by
  have lists := inLeft.lists
  rw [layout] at lists
  exact lists.sameSource inRight.lists

theorem sameContents_of_sameSource {left right : Tracker}
    (leftConsistent : left.index.Consistent) (rightConsistent : right.index.Consistent)
    (same : ∀ source, SameSource source left right) : SameContents left right where
  tracked file := (same file).tracked
  snapshot := snapshot_beq_of_sameStored leftConsistent rightConsistent
    fun target lines source => (same source).stored target lines

/-! One request. -/

theorem layout_carryOut (disk : Disk) (tracker : Tracker) (request : Request) :
    (carryOut disk tracker request).layout = tracker.layout :=
  layout_reindexAt ..

theorem consistent_carryOut {tracker : Tracker} (consistent : tracker.index.Consistent)
    (disk : Disk) (request : Request) : (carryOut disk tracker request).index.Consistent :=
  consistent_reindexAt consistent ..

theorem sameSource_carryOut {tracker : Tracker} (consistent : tracker.index.Consistent)
    (disk : Disk) {request : Request} {source : Path} (other : (request.file == source) = false) :
    SameSource source (carryOut disk tracker request) tracker :=
  sameSource_reindexAt consistent disk request.text request.number other

theorem holds_carryOut {tracker : Tracker} (consistent : tracker.index.Consistent) (disk : Disk)
    {request : Request} (newer : ¬request.number < tracker.appliedTo request.file) :
    Holds disk (carryOut disk tracker request) request where
  lists := by
    rw [layout_carryOut]
    exact lists_reindexAt consistent newer disk request.text
  applied := by
    unfold carryOut
    rw [appliedTo_reindexAt_accepted newer, if_pos BEq.rfl]

theorem Holds.carryOut {disk : Disk} {tracker : Tracker} {request other : Request}
    (holds : Holds disk tracker request) (consistent : tracker.index.Consistent)
    (replaced : other.file == request.file → other = request ∨ other.number < request.number) :
    Holds disk (carryOut disk tracker other) request := by
  by_cases same : other.file == request.file
  · rcases replaced same with rfl | older
    · refine holds_carryOut consistent disk ?_
      rw [holds.applied]
      omega
    · have superseded : other.number < tracker.appliedTo other.file := by
        rw [tracker.appliedTo_congr same, holds.applied]
        exact older
      unfold Tracker.carryOut
      rw [reindexAt_of_lt superseded]
      exact holds
  · have differs : (other.file == request.file) = false := Bool.eq_false_iff.mpr same
    have unchanged := sameSource_carryOut consistent disk differs
    constructor
    · rw [layout_carryOut]
      exact holds.lists.congr unchanged
    · unfold Tracker.carryOut
      rw [appliedTo_reindexAt, if_neg same, holds.applied]

/-! Many requests. -/

theorem layout_carryOutAll (disk : Disk) (tracker : Tracker) (requests : List Request) :
    (carryOutAll disk tracker requests).layout = tracker.layout := by
  induction requests generalizing tracker with
  | nil => rfl
  | cons head rest ih => exact (ih _).trans (layout_carryOut ..)

theorem consistent_carryOutAll {tracker : Tracker} (consistent : tracker.index.Consistent)
    (disk : Disk) (requests : List Request) :
    (carryOutAll disk tracker requests).index.Consistent := by
  induction requests generalizing tracker with
  | nil => exact consistent
  | cons head rest ih => exact ih (consistent_carryOut consistent disk head)

theorem sameSource_carryOutAll {tracker : Tracker} (consistent : tracker.index.Consistent)
    (disk : Disk) {requests : List Request} {source : Path}
    (others : ∀ request ∈ requests, (request.file == source) = false) :
    SameSource source (carryOutAll disk tracker requests) tracker := by
  induction requests generalizing tracker with
  | nil => exact ⟨rfl, fun _ _ => rfl⟩
  | cons head rest ih =>
      refine (ih (consistent_carryOut consistent disk head)
        fun request member => others request (List.mem_cons_of_mem _ member)).trans ?_
      exact sameSource_carryOut consistent disk (others head List.mem_cons_self)

theorem Holds.carryOutAll {disk : Disk} {tracker : Tracker} {request : Request}
    (holds : Holds disk tracker request) (consistent : tracker.index.Consistent)
    {requests : List Request} (newest : Newest requests request) :
    Holds disk (carryOutAll disk tracker requests) request := by
  induction requests generalizing tracker with
  | nil => exact holds
  | cons head rest ih =>
      refine ih (holds.carryOut consistent (newest head List.mem_cons_self))
        (consistent_carryOut consistent disk head) ?_
      exact fun other member => newest other (List.mem_cons_of_mem _ member)

/-- The newest request of its file determines how the file ends, wherever it stands. -/
theorem holds_carryOutAll {tracker : Tracker} (consistent : tracker.index.Consistent)
    (disk : Disk) {requests : List Request} {request : Request} (member : request ∈ requests)
    (newest : Newest requests request)
    (newer : tracker.appliedTo request.file ≤ request.number) :
    Holds disk (carryOutAll disk tracker requests) request := by
  induction requests generalizing tracker with
  | nil => cases member
  | cons head rest ih =>
      have newestRest : Newest rest request :=
        fun other inRest => newest other (List.mem_cons_of_mem _ inRest)
      have headConsistent := consistent_carryOut consistent disk head
      -- Until the newest request comes, the number of its file stays at or below its own.
      rcases List.mem_cons.mp member with rfl | inRest
      · exact (holds_carryOut consistent disk (by omega)).carryOutAll headConsistent newestRest
      · refine ih headConsistent inRest newestRest ?_
        unfold carryOut
        rw [appliedTo_reindexAt]
        split
        · next same =>
          have headNumber : head.number ≤ request.number := by
            rcases newest head List.mem_cons_self same with rfl | older <;> omega
          omega
        · exact newer

theorem lt_appliedTo_carryOutAll_iff (disk : Disk) (tracker : Tracker) (requests : List Request)
    (file : Path) (number : Nat) :
    number < (carryOutAll disk tracker requests).appliedTo file ↔
      number < tracker.appliedTo file ∨
        ∃ other ∈ requests, (other.file == file) = true ∧ number < other.number := by
  induction requests generalizing tracker with
  | nil => simp [carryOutAll]
  | cons head rest ih =>
      change number < (carryOutAll disk (carryOut disk tracker head) rest).appliedTo file ↔ _
      rw [ih, carryOut, appliedTo_reindexAt]
      simp only [List.mem_cons, exists_eq_or_imp]
      split
      · next same =>
        have either : number < max (tracker.appliedTo file) head.number ↔
            number < tracker.appliedTo file ∨ number < head.number := by omega
        rw [either, or_assoc]
        simp only [same, true_and]
      · next differs => simp [differs]

theorem Newest.cons {head newest : Request} {rest : List Request} (isNewest : Newest rest newest)
    (notNewer : head.file == newest.file → head.number < newest.number) :
    Newest (head :: rest) newest := by
  intro other member same
  rcases List.mem_cons.mp member with rfl | inRest
  · exact .inr (notNewer same)
  · exact isNewest other inRest same

theorem Newest.head {head newest : Request} {rest : List Request} (isNewest : Newest rest newest)
    (sameFile : head.file == newest.file) (newer : newest.number < head.number) :
    Newest (head :: rest) head := by
  intro other member same
  rcases List.mem_cons.mp member with rfl | inRest
  · exact .inl rfl
  · rcases isNewest other inRest (BEq.trans same sameFile) with rfl | older
    · exact .inr newer
    · exact .inr (Nat.lt_trans older newer)

theorem newest_of_only {head : Request} {rest : List Request}
    (only : ∀ other ∈ rest, (other.file == head.file) = false) : Newest (head :: rest) head := by
  intro other member same
  rcases List.mem_cons.mp member with rfl | inRest
  · exact .inl rfl
  · rw [only other inRest] at same
    cases same

theorem exists_newest {requests : List Request} {source : Path}
    (distinct : requests.Pairwise fun left right => left.number ≠ right.number)
    (known : ∃ request ∈ requests, (request.file == source) = true) :
    ∃ newest ∈ requests, (newest.file == source) = true ∧ Newest requests newest := by
  induction distinct with
  | nil =>
      obtain ⟨_, member, _⟩ := known
      cases member
  | @cons head rest apart _ ih =>
      by_cases inRest : ∃ request ∈ rest, (request.file == source) = true
      · obtain ⟨newest, member, isSource, isNewest⟩ := ih inRest
        have differs := apart newest member
        by_cases newer : (head.file == newest.file) = true ∧ newest.number < head.number
        · exact ⟨head, List.mem_cons_self, BEq.trans newer.1 isSource,
            isNewest.head newer.1 newer.2⟩
        · refine ⟨newest, List.mem_cons_of_mem _ member, isSource, isNewest.cons fun same => ?_⟩
          have notNewer : ¬newest.number < head.number := fun above => newer ⟨same, above⟩
          omega
      · obtain ⟨request, member, isSource⟩ := known
        rcases List.mem_cons.mp member with rfl | requestInRest
        · refine ⟨request, List.mem_cons_self, isSource, newest_of_only fun other otherInRest => ?_⟩
          refine Bool.eq_false_iff.mpr fun same => ?_
          exact inRest ⟨other, otherInRest, BEq.trans same isSource⟩
        · exact absurd ⟨request, requestInRest, isSource⟩ inRest

theorem mem_latest_of_newest {requests : List Request} {request : Request}
    (member : request ∈ requests) (newest : Newest requests request) :
    request ∈ latest requests := by
  refine List.mem_filter.mpr ⟨member, List.all_eq_true.mpr fun other otherMember => ?_⟩
  rw [Bool.or_eq_true, Bool.not_eq_true', decide_eq_true_eq]
  by_cases same : other.file == request.file
  · rcases newest other otherMember same with rfl | older
    · exact .inr (Nat.le_refl _)
    · exact .inr (Nat.le_of_lt older)
  · exact .inl (Bool.eq_false_iff.mpr same)

theorem sameContents_carryOutAll {tracker : Tracker} (consistent : tracker.index.Consistent)
    (disk : Disk) {requests left right : List Request}
    (distinct : requests.Pairwise fun left right => left.number ≠ right.number)
    (newer : ∀ request ∈ requests, tracker.appliedTo request.file < request.number)
    (leftSubset : left ⊆ requests) (rightSubset : right ⊆ requests)
    (leftLatest : latest requests ⊆ left) (rightLatest : latest requests ⊆ right) :
    SameContents (carryOutAll disk tracker left) (carryOutAll disk tracker right) := by
  refine sameContents_of_sameSource (consistent_carryOutAll consistent disk left)
    (consistent_carryOutAll consistent disk right) fun source => ?_
  by_cases known : ∃ request ∈ requests, (request.file == source) = true
  · obtain ⟨newest, member, isSource, isNewest⟩ := exists_newest distinct known
    have inLatest := mem_latest_of_newest member isNewest
    have notOlder := Nat.le_of_lt (newer newest member)
    have inLeft := holds_carryOutAll consistent disk (leftLatest inLatest)
      (fun other otherMember => isNewest other (leftSubset otherMember)) notOlder
    have inRight := holds_carryOutAll consistent disk (rightLatest inLatest)
      (fun other otherMember => isNewest other (rightSubset otherMember)) notOlder
    refine (inLeft.sameSource inRight ?_).congr isSource
    rw [layout_carryOutAll, layout_carryOutAll]
  · have others {list : List Request} (subset : list ⊆ requests) :
        ∀ request ∈ list, (request.file == source) = false :=
      fun request member => Bool.eq_false_iff.mpr fun same =>
        known ⟨request, subset member, same⟩
    exact (sameSource_carryOutAll consistent disk (others leftSubset)).trans
      (sameSource_carryOutAll consistent disk (others rightSubset)).symm

theorem subset_of_latest (requests : List Request) : latest requests ⊆ requests :=
  List.filter_subset_self ..

theorem superseded_carryOutAll_iff (disk : Disk) {tracker : Tracker} {request : Request}
    (newer : tracker.appliedTo request.file < request.number) (before : List Request) :
    ((carryOutAll disk tracker before).reindexAt disk request.file request.text
        request.number).2.superseded = true ↔
      ∃ other ∈ before, (other.file == request.file) = true ∧ request.number < other.number := by
  have notApplied : ¬request.number < tracker.appliedTo request.file := Nat.lt_asymm newer
  rw [reindexAt_superseded_iff, lt_appliedTo_carryOutAll_iff]
  simp only [notApplied, false_or]

theorem carryOut_of_superseded {disk : Disk} {tracker : Tracker} {request : Request}
    (superseded : (tracker.reindexAt disk request.file request.text
      request.number).2.superseded = true) : carryOut disk tracker request = tracker := by
  rw [reindexAt_superseded_iff] at superseded
  rw [carryOut, reindexAt_of_lt superseded]

theorem Run.fenced_of_forget {earlier before later : Tracker} {file spelled : Path}
    (given : Run earlier.reserve before) (same : file == spelled)
    (after : Run (before.forget file) later) : Fenced spelled earlier.nextSequence later := by
  have below : earlier.nextSequence ≤ before.sequence := given.sequence_le
  have fenced : Fenced file earlier.nextSequence (before.forget file) :=
    (fenced_foldl_forget_iff below [file] file).mpr
      (.inl ⟨file, List.mem_singleton_self _, BEq.rfl⟩)
  exact (fenced.congr same).run after

/-- Of requests that are carried out in any order, on a tracker whose index came about by changes
of an index, the newest one of each file wins. The last part is about a number that was given out
before a file was removed, whatever was done in between and afterwards. -/
theorem latest_requests_win {tracker : Tracker} (built : tracker.index.Reachable) (disk : Disk)
    {requests : List Request}
    (distinct : requests.Pairwise fun left right => left.number ≠ right.number)
    (newer : ∀ request ∈ requests, tracker.appliedTo request.file < request.number) :
    (∀ order other : List Request, order.Perm requests → other.Perm requests →
      SameContents (carryOutAll disk tracker order) (carryOutAll disk tracker other)) ∧
    (∀ order newest : List Request, order.Perm requests → newest.Perm (latest requests) →
      SameContents (carryOutAll disk tracker order) (carryOutAll disk tracker newest)) ∧
    (∀ (before : List Request) (request : Request) (after : List Request),
      (before ++ request :: after).Perm requests →
        let reached := carryOutAll disk tracker before
        let answer := reached.reindexAt disk request.file request.text request.number
        (answer.2.superseded = true ↔
          ∃ other ∈ before, (other.file == request.file) = true ∧
            request.number < other.number) ∧
        (answer.2.superseded = true → answer.1 = reached)) ∧
    (∀ earlier before later : Tracker, ∀ file spelled : Path, Run earlier.reserve before →
      (file == spelled) = true → Run (before.forget file) later → ∀ (disk : Disk) (text : Text),
        later.reindexAt disk spelled text earlier.nextSequence =
          (later, { superseded := true })) := by
  have consistent := built.consistent
  have latestSubset := subset_of_latest requests
  refine ⟨fun order other isOrder isOther => ?_, fun order newest isOrder isNewest => ?_,
    fun before request after isOrder => ?_, fun earlier before later file spelled => ?_⟩
  · exact sameContents_carryOutAll consistent disk distinct newer isOrder.subset isOther.subset
      (List.Subset.trans latestSubset isOrder.symm.subset)
      (List.Subset.trans latestSubset isOther.symm.subset)
  · exact sameContents_carryOutAll consistent disk distinct newer isOrder.subset
      (List.Subset.trans isNewest.subset latestSubset)
      (List.Subset.trans latestSubset isOrder.symm.subset) isNewest.symm.subset
  · have member : request ∈ requests := isOrder.subset (by simp)
    exact ⟨superseded_carryOutAll_iff disk (newer request member) before,
      carryOut_of_superseded⟩
  · intro given same after disk text
    exact (given.fenced_of_forget same after).reindexAt disk text

theorem latest_requests_win_of_two_files :
    let start : Tracker := .ofLayout ⟨.ofText ['/', 'w'], []⟩ .default
    let old : Request := ⟨.ofText ['/', 'w', '/', 'a'], "see @m/x.rs:L1".toList, 1⟩
    let new : Request := ⟨.ofText ['/', 'w', '/', 'a'], "see @m/y.rs:L2".toList, 2⟩
    let other : Request := ⟨.ofText ['/', 'w', '/', 'b'], "see @m/z.rs:L3".toList, 3⟩
    ([old, new, other].Pairwise fun left right => left.number ≠ right.number) ∧
      (∀ request ∈ [old, new, other], start.appliedTo request.file < request.number) ∧
      SameContents (carryOutAll .empty start [old, new, other])
        (carryOutAll .empty start [other, new, old]) ∧
      ((carryOutAll .empty start [other, new]).reindexAt .empty old.file old.text
        old.number).2.superseded = true := by
  intro start old new other
  have distinct : [old, new, other].Pairwise fun left right => left.number ≠ right.number := by
    simp [old, new, other]
  have newer : ∀ request ∈ [old, new, other], start.appliedTo request.file < request.number := by
    simp [old, new, other, start, ofLayout, appliedTo]
  have built : start.index.Reachable := .empty
  have wins := latest_requests_win built .empty distinct newer
  refine ⟨distinct, newer, wins.1 _ _ (List.Perm.refl _) ?_,
    (wins.2.2.1 [other, new] old [] ?_).1.mpr ?_⟩
  · exact List.reverse_perm [old, new, other]
  · exact List.reverse_perm [old, new, other]
  · exact ⟨new, by simp, BEq.rfl, by decide⟩

end Tracker

end CodePointers
