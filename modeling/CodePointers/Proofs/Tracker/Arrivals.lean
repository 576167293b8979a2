import CodePointers.Proofs.Tracker.LastReferences

/-!
The order in which the pointers of a source get their targets. Reindexing the source gives targets
in the order of its text, but a retry gives them to earlier pointers after later ones. What the
index stores for a target and a range is the pointer that arrived there last, so that it is the last
one of the text only if that one arrived last as well.
-/

namespace CodePointers

def resolved (pointers : List TrackedPointer) : List TrackedPointer :=
  pointers.filter fun tracked => !tracked.isPending

theorem lastInto?_append (left right : List TrackedPointer) (target : Path) (lines : LineRange) :
    lastInto? (left ++ right) target lines =
      (lastInto? right target lines).or (lastInto? left target lines) := by
  rw [lastInto?, List.reverse_append, List.find?_append, lastInto?, lastInto?]

theorem lastInto?_filter {pointers : List TrackedPointer} {test : TrackedPointer → Bool}
    {target : Path} {lines : LineRange}
    (kept : ∀ tracked ∈ pointers, tracked.pointsTo target lines = true → test tracked = true) :
    lastInto? (pointers.filter test) target lines = lastInto? pointers target lines := by
  induction pointers with
  | nil => rfl
  | cons head rest ih =>
      obtain ⟨headKept, restKept⟩ := List.forall_mem_cons.mp kept
      rw [lastInto?_cons, List.filter_cons, ← ih restKept]
      cases points : head.pointsTo target lines with
      | true => rw [headKept points, if_pos rfl, lastInto?_cons, points]
      | false =>
          cases test head with
          | true => rw [if_pos rfl, lastInto?_cons, points]
          | false => simp

theorem lastInto?_resolved (pointers : List TrackedPointer) (target : Path) (lines : LineRange) :
    lastInto? (resolved pointers) target lines = lastInto? pointers target lines := by
  refine lastInto?_filter fun tracked _ points => ?_
  rw [TrackedPointer.not_isPending_of_pointsTo points]
  rfl

theorem Spaced.filter {pointers : List TrackedPointer} (spaced : Spaced pointers)
    (test : TrackedPointer → Bool) : Spaced (pointers.filter test) where
  disjoint := spaced.disjoint.filter test
  start_lt_stop tracked member := spaced.start_lt_stop tracked (List.mem_of_mem_filter member)

namespace Tracker

open ReferenceIndex

def arrivalsBut (file : Path) (arrived : List TrackedPointer) : List TrackedPointer :=
  arrived.filter fun tracked => !tracked.target?.any (· == file)

theorem lastInto?_arrivalsBut (file : Path) (arrived : List TrackedPointer) (target : Path)
    (lines : LineRange) :
    lastInto? (arrivalsBut file arrived) target lines =
      if file == target then none else lastInto? arrived target lines := by
  cases gone : file == target with
  | true =>
      refine lastInto?_eq_none_iff.mpr fun tracked member => Bool.eq_false_iff.mpr fun points => ?_
      obtain ⟨_, own, isOwn, isTarget⟩ := TrackedPointer.pointsTo_iff.mp points
      have notFile := (List.mem_filter.mp member).2
      simp [isOwn, BEq.trans isTarget (BEq.symm gone)] at notFile
  | false =>
      refine lastInto?_filter fun tracked _ points => ?_
      obtain ⟨_, own, isOwn, isTarget⟩ := TrackedPointer.pointsTo_iff.mp points
      rw [isOwn, Option.any_some, Bool.not_eq_true', BEq.congr_left isTarget, BEq.comm, gone]

/-- The resolved pointers of a source in the order in which they got their targets, told from how
the tracker came about. -/
inductive Arrivals (source : Path) : List TrackedPointer → Tracker → Prop
  | start (layout settings) : Arrivals source [] (ofLayout layout settings)
  | reserve {arrived tracker} : Arrivals source arrived tracker →
      Arrivals source arrived tracker.reserve
  | forgetText {arrived tracker} (file) : Arrivals source arrived tracker →
      Arrivals source arrived (tracker.forgetText file)
  | read {arrived tracker} (disk file) : Arrivals source arrived tracker →
      Arrivals source arrived { tracker with cache := (tracker.cache.read disk file).2 }
  | reindexOther {arrived tracker file} (disk text number) (other : (file == source) = false) :
      Arrivals source arrived tracker →
      Arrivals source arrived (tracker.reindexAt disk file text number).1
  | reindex {arrived tracker file number} (disk text) (own : (file == source) = true)
      (newer : ¬number < tracker.appliedTo file) : Arrivals source arrived tracker →
      Arrivals source (resolved (extract disk tracker.layout text))
        (tracker.reindexAt disk file text number).1
  | forgetOther {arrived tracker file} (other : (file == source) = false) :
      Arrivals source arrived tracker →
      Arrivals source (arrivalsBut file arrived) (tracker.forget file)
  | forget {arrived tracker file} (own : (file == source) = true) :
      Arrivals source arrived tracker → Arrivals source [] (tracker.forget file)
  | retryPending {arrived tracker} (disk) : Arrivals source arrived tracker →
      Arrivals source (arrived ++ resolvable disk tracker.layout (tracker.pointersOf source))
        (tracker.retryPending disk).1
  | clear {arrived tracker} : Arrivals source arrived tracker → Arrivals source [] tracker.clear

theorem Arrivals.move {disk : Disk} {source : Path} {arrived : List TrackedPointer}
    {tracker next : Tracker} (arrivals : Arrivals source arrived tracker)
    (move : Move disk .none tracker next) : ∃ later, Arrivals source later next := by
  cases move with
  | reserve => exact ⟨_, arrivals.reserve⟩
  | forgetText file => exact ⟨_, arrivals.forgetText file⟩
  | read file => exact ⟨_, arrivals.read disk file⟩
  | reindexAt file text number =>
      by_cases older : number < tracker.appliedTo file
      · rw [reindexAt_of_lt older]
        exact ⟨_, arrivals⟩
      · cases own : file == source with
        | true => exact ⟨_, arrivals.reindex disk text own older⟩
        | false => exact ⟨_, arrivals.reindexOther disk text number own⟩
  | forget file =>
      cases own : file == source with
      | true => exact ⟨_, arrivals.forget own⟩
      | false => exact ⟨_, arrivals.forgetOther own⟩
  | retryPending => exact ⟨_, arrivals.retryPending disk⟩
  | clear => exact ⟨_, arrivals.clear⟩

theorem Reachable.exists_arrivals {tracker : Tracker} (reachable : tracker.Reachable)
    (source : Path) : ∃ arrived, Arrivals source arrived tracker := by
  obtain ⟨layout, settings, run⟩ := reachable
  have preserved (disk : Disk) (tracker next : Tracker) (move : Move disk .none tracker next)
      (before : ∃ arrived, Arrivals source arrived tracker) :
      ∃ arrived, Arrivals source arrived next := by
    obtain ⟨_, arrivals⟩ := before
    exact arrivals.move move
  exact run.invariant preserved ⟨[], .start layout settings⟩

theorem Arrivals.coupled {source : Path} {arrived : List TrackedPointer} {tracker : Tracker}
    (arrivals : Arrivals source arrived tracker) : tracker.Coupled := by
  induction arrivals with
  | start layout settings => exact coupled_ofLayout layout settings
  | reserve _ coupled => exact coupled.congr rfl rfl
  | forgetText _ _ coupled => exact coupled.congr rfl rfl
  | read _ _ _ coupled => exact coupled.congr rfl rfl
  | reindexOther disk text number _ _ coupled => exact coupled.reindexAt disk _ text number
  | reindex disk text _ _ _ coupled => exact coupled.reindexAt disk _ text _
  | forgetOther _ _ coupled => exact coupled.forget _
  | forget _ _ coupled => exact coupled.forget _
  | retryPending disk _ coupled => exact coupled.retryPending disk
  | clear _ _ => exact coupled_clear

/-! Which pointers have arrived. -/

theorem resolved_map_release (file : Path) (pointers : List TrackedPointer) :
    resolved (pointers.map (release file)) = arrivalsBut file (resolved pointers) := by
  induction pointers with
  | nil => rfl
  | cons head rest ih =>
      unfold resolved arrivalsBut at ih ⊢
      rw [List.map_cons, List.filter_cons, List.filter_cons, ih, release_eq]
      obtain ⟨pointer, start, stop, definitionLine, target?⟩ := head
      cases target? with
      | none => simp [TrackedPointer.isPending]
      | some target =>
          cases same : target == file <;>
            simp [TrackedPointer.isPending, Option.filter, same]

theorem perm_resolved_map_renew (disk : Disk) (layout : Layout) (pointers : List TrackedPointer) :
    (resolved (pointers.map (renew disk layout))).Perm
      (resolved pointers ++ resolvable disk layout pointers) := by
  induction pointers with
  | nil => exact .nil
  | cons head rest ih =>
      unfold resolved at ih ⊢
      rw [List.map_cons, List.filter_cons, List.filter_cons, resolvable_cons]
      cases pending : head.isPending with
      | false =>
          rw [renew_of_not_isPending disk layout pending, pending]
          simpa using ih
      | true =>
          cases renewed : (renew disk layout head).isPending with
          | true => simpa using ih
          | false => simpa using (ih.cons _).trans List.perm_middle.symm

/-! What is stored is what arrived last. -/

/-- Whether a list holds the resolved pointers of a source, the last ones into each place being the
ones that the index stores. -/
structure ArrivedIn (arrived : List TrackedPointer) (tracker : Tracker) (source : Path) : Prop where
  perm : arrived.Perm (resolved (tracker.pointersOf source))
  stored : ∀ target lines, (tracker.index.stored? target lines source ==
    (lastInto? arrived target lines).map (·.reference source)) = true

theorem ArrivedIn.congr {arrived : List TrackedPointer} {left right : Tracker} {source : Path}
    (isIn : ArrivedIn arrived right source) (same : SameSource source left right) :
    ArrivedIn arrived left source where
  perm := by
    rw [same.pointersOf]
    exact isIn.perm
  stored target lines := by
    rw [same.stored]
    exact isIn.stored target lines

theorem arrivedIn_nil {tracker : Tracker} {source : Path}
    (untracked : tracker.pointersOf source = [])
    (unstored : ∀ target lines, tracker.index.stored? target lines source = none) :
    ArrivedIn [] tracker source where
  perm := by
    rw [untracked]
    exact .nil
  stored target lines := by
    rw [unstored]
    rfl

theorem KeepsLast.arrivedIn {tracker : Tracker} {source : Path} (keeps : tracker.KeepsLast source) :
    ArrivedIn (resolved (tracker.pointersOf source)) tracker source where
  perm := .refl _
  stored target lines := by
    rw [lastInto?_resolved]
    exact keeps target lines

theorem ArrivedIn.forget {arrived : List TrackedPointer} {tracker : Tracker} {source file : Path}
    (isIn : ArrivedIn arrived tracker source) (consistent : tracker.index.Consistent)
    (other : (file == source) = false) :
    ArrivedIn (arrivalsBut file arrived) (tracker.forget file) source where
  perm := by
    rw [pointersOf_forget, if_neg (by simp [other]), resolved_map_release]
    exact isIn.perm.filter _
  stored target lines := by
    rw [stored?_forget consistent, lastInto?_arrivalsBut]
    cases gone : file == target with
    | true => simp
    | false => simpa [other] using isIn.stored target lines

/-- A retry upserts, so what it resolves takes the place of what arrived before, wherever the two
stand in the text. -/
theorem ArrivedIn.retryPending {arrived : List TrackedPointer} {tracker : Tracker} {source : Path}
    (isIn : ArrivedIn arrived tracker source) (consistent : tracker.index.Consistent)
    (disk : Disk) :
    ArrivedIn (arrived ++ resolvable disk tracker.layout (tracker.pointersOf source))
      (tracker.retryPending disk).1 source where
  perm := by
    rw [pointersOf_retryPending]
    exact (isIn.perm.append_right _).trans (perm_resolved_map_renew ..).symm
  stored target lines := by
    obtain ⟨spelled, same, stored⟩ := stored?_retryPending consistent disk source
    rw [stored, lastInto?_append]
    cases lastInto? (resolvable disk tracker.layout (tracker.pointersOf source)) target lines with
    | none => exact isIn.stored target lines
    | some found => exact found.reference_beq same

theorem Arrivals.arrivedIn {source : Path} {arrived : List TrackedPointer} {tracker : Tracker}
    (arrivals : Arrivals source arrived tracker) : ArrivedIn arrived tracker source := by
  induction arrivals with
  | start => exact arrivedIn_nil rfl fun _ _ => rfl
  | reserve _ isIn => exact isIn.congr ⟨rfl, fun _ _ => rfl⟩
  | forgetText _ _ isIn => exact isIn.congr ⟨rfl, fun _ _ => rfl⟩
  | read _ _ _ isIn => exact isIn.congr ⟨rfl, fun _ _ => rfl⟩
  | reindexOther disk text number other before isIn =>
      exact isIn.congr (sameSource_reindexAt before.coupled.consistent disk text number other)
  | @reindex _ tracker file number disk text own newer before _ =>
      have lists := lists_reindexAt before.coupled.consistent newer disk text
      have isIn := (lists.keepsLast.respell own).arrivedIn
      rwa [← pointersOf_congr _ own, lists.pointersOf] at isIn
  | forgetOther other before isIn => exact isIn.forget before.coupled.consistent other
  | forget own before _ =>
      refine arrivedIn_nil ?_ fun target lines => ?_
      · rw [pointersOf_forget, if_pos own]
      · rw [stored?_forget before.coupled.consistent, if_pos (.inr own)]
  | retryPending disk before isIn => exact isIn.retryPending before.coupled.consistent disk
  | clear => exact arrivedIn_nil rfl fun _ _ => rfl

theorem ArrivedIn.mem {arrived : List TrackedPointer} {tracker : Tracker} {source : Path}
    (isIn : ArrivedIn arrived tracker source) {tracked : TrackedPointer}
    (member : tracked ∈ arrived) : tracked ∈ tracker.pointersOf source :=
  List.mem_of_mem_filter (isIn.perm.subset member)

theorem ArrivedIn.last_stored_iff {arrived : List TrackedPointer} {tracker : Tracker}
    {source : Path} (isIn : ArrivedIn arrived tracker source)
    (spaced : Spaced (tracker.pointersOf source)) (target : Path) (lines : LineRange) :
    (tracker.index.stored? target lines source ==
        (lastInto? (tracker.pointersOf source) target lines).map (·.reference source)) = true ↔
      lastInto? arrived target lines = lastInto? (tracker.pointersOf source) target lines := by
  rw [BEq.congr_left (isIn.stored target lines)]
  cases arrivedLast : lastInto? arrived target lines with
  | none =>
      cases textLast : lastInto? (tracker.pointersOf source) target lines with
      | none => simp
      | some last => simp
  | some found =>
      cases textLast : lastInto? (tracker.pointersOf source) target lines with
      | none => simp
      | some last =>
          rw [Option.some.injEq]
          constructor
          · intro same
            have sameReference : (found.reference source == last.reference source) = true := same
            have sameStart : found.start = last.start := (Reference.beq_iff.mp sameReference).2.1
            exact spaced.eq_of_start_eq (isIn.mem (mem_of_lastInto? arrivedLast).1)
              (mem_of_lastInto? textLast).1 sameStart
          · rintro rfl
            exact BEq.rfl

/-! Which changes keep the last pointer of the text. -/

theorem spaced_resolvable {pointers : List TrackedPointer} (spaced : Spaced pointers) (disk : Disk)
    (layout : Layout) : Spaced (resolvable disk layout pointers) :=
  ((spaced.filter _).map (start_renew disk layout) (stop_renew disk layout)).filter _

/-- Whether the last pointer into each place that a retry resolves stands behind those that point
there already. -/
def RetriesBehind (disk : Disk) (layout : Layout) (pointers : List TrackedPointer) : Prop :=
  ∀ target lines found, lastInto? (resolvable disk layout pointers) target lines = some found →
    ∀ other ∈ pointers, other.pointsTo target lines = true → other.start < found.start

theorem lastInto?_map_renew_eq_some_iff {disk : Disk} {layout : Layout}
    {pointers : List TrackedPointer} (spaced : Spaced pointers) {target : Path} {lines : LineRange}
    {found : TrackedPointer}
    (isFound : lastInto? (resolvable disk layout pointers) target lines = some found) :
    lastInto? (pointers.map (renew disk layout)) target lines = some found ↔
      ∀ other ∈ pointers, other.pointsTo target lines = true → other.start < found.start := by
  have renewed := spaced.map (start_renew disk layout) (stop_renew disk layout)
  obtain ⟨member, points⟩ := mem_of_lastInto? isFound
  obtain ⟨_, old, inPointers, pending, rfl⟩ := mem_resolvable_iff.mp member
  constructor
  · intro isLast other inOthers otherPoints
    have inRenewed : other ∈ pointers.map (renew disk layout) :=
      List.mem_map.mpr ⟨other, inOthers, renew_of_pointsTo disk layout otherPoints⟩
    have notBehind := start_le_of_lastInto? (renewed.increasing.imp And.left) isLast inRenewed
      otherPoints
    refine Nat.lt_of_le_of_ne notBehind fun sameStart => ?_
    -- Only the found pointer itself stands where it stands, and that one was pending.
    rw [start_renew] at sameStart
    rw [spaced.eq_of_start_eq inOthers inPointers sameStart,
      TrackedPointer.not_pointsTo_of_isPending pending] at otherPoints
    cases otherPoints
  · intro inFront
    refine (lastInto?_eq_some_iff renewed).mpr
      ⟨List.mem_map_of_mem inPointers, points, fun later inRenewed behind => ?_⟩
    refine Bool.eq_false_iff.mpr fun laterPoints => ?_
    obtain ⟨before, inBefore, rfl⟩ := List.mem_map.mp inRenewed
    cases wasPending : before.isPending with
    | true =>
        have resolves := TrackedPointer.not_isPending_of_pointsTo laterPoints
        have alsoFound := mem_resolvable_iff.mpr ⟨resolves, before, inBefore, wasPending, rfl⟩
        rw [((lastInto?_eq_some_iff (spaced_resolvable spaced disk layout)).mp isFound).2.2 _
          alsoFound behind] at laterPoints
        cases laterPoints
    | false =>
        rw [renew_of_not_isPending disk layout wasPending] at laterPoints behind
        exact Nat.lt_asymm behind (inFront before inBefore laterPoints)

theorem lastInto?_append_resolvable_iff {disk : Disk} {layout : Layout}
    {pointers : List TrackedPointer} (spaced : Spaced pointers) (target : Path)
    (lines : LineRange) :
    (lastInto? (resolvable disk layout pointers) target lines).or
          (lastInto? pointers target lines) =
        lastInto? (pointers.map (renew disk layout)) target lines ↔
      ∀ found, lastInto? (resolvable disk layout pointers) target lines = some found →
        ∀ other ∈ pointers, other.pointsTo target lines = true → other.start < found.start := by
  cases isFound : lastInto? (resolvable disk layout pointers) target lines with
  | none =>
      refine iff_of_true ?_ nofun
      rw [lastInto?_map_renew, isFound]
      intro tracked member points
      rw [lastInto?_eq_none_iff.mp isFound tracked member] at points
      cases points
  | some found =>
      rw [Option.some_or, eq_comm, lastInto?_map_renew_eq_some_iff spaced isFound]
      simp

/-- A retry is the one change that can put an earlier pointer into the place of a later one. -/
theorem KeepsLast.retryPending_iff {tracker : Tracker} {source : Path}
    (keeps : tracker.KeepsLast source) (coupled : tracker.Coupled) (disk : Disk) :
    (tracker.retryPending disk).1.KeepsLast source ↔
      RetriesBehind disk tracker.layout (tracker.pointersOf source) := by
  have isIn := keeps.arrivedIn.retryPending coupled.consistent disk
  have spaced := (coupled.retryPending disk).spaced source
  unfold KeepsLast RetriesBehind
  refine forall_congr' fun target => forall_congr' fun lines => ?_
  rw [isIn.last_stored_iff spaced, lastInto?_append, lastInto?_resolved, pointersOf_retryPending]
  exact lastInto?_append_resolvable_iff (coupled.spaced source) target lines

theorem KeepsLast.move {disk : Disk} {tracker next : Tracker} {source : Path}
    (keeps : tracker.KeepsLast source) (consistent : tracker.index.Consistent)
    (move : Move disk .none tracker next) :
    next.KeepsLast source ∨ next = (tracker.retryPending disk).1 := by
  cases move with
  | reserve => exact .inl keeps
  | forgetText => exact .inl keeps
  | read => exact .inl keeps
  | reindexAt file text number =>
      by_cases older : number < tracker.appliedTo file
      · rw [reindexAt_of_lt older]
        exact .inl keeps
      · cases own : file == source with
        | true => exact .inl ((lists_reindexAt consistent older disk text).keepsLast.respell own)
        | false =>
            exact .inl (keeps.congr (sameSource_reindexAt consistent disk text number own))
  | forget file => exact .inl ((drops_forget consistent file).keepsLast keeps)
  | retryPending => exact .inr rfl
  | clear => exact .inl fun _ _ => rfl

/-- What the index stores of a source, in whichever order its pointers got their targets. -/
structure StoresLastArrival (tracker : Tracker) (source : Path) : Prop where
  arrives : ∃ arrived, Arrivals source arrived tracker
  arrivedIn : ∀ arrived, Arrivals source arrived tracker → ArrivedIn arrived tracker source
  lastOfText_iff : ∀ arrived, Arrivals source arrived tracker → ∀ target lines,
    (tracker.index.stored? target lines source ==
        (lastInto? (tracker.pointersOf source) target lines).map (·.reference source)) = true ↔
      lastInto? arrived target lines = lastInto? (tracker.pointersOf source) target lines
  retried_iff : tracker.KeepsLast source → ∀ disk,
    ((tracker.retryPending disk).1.KeepsLast source ↔
      RetriesBehind disk tracker.layout (tracker.pointersOf source))
  otherMoves : tracker.KeepsLast source → ∀ disk next, Move disk .none tracker next →
    next.KeepsLast source ∨ next = (tracker.retryPending disk).1

/-- The index stores the pointer of a source that arrived last, and only a retry can make this
another one than the last one of the text. -/
theorem Reachable.storesLastArrival {tracker : Tracker} (reachable : tracker.Reachable)
    (source : Path) : tracker.StoresLastArrival source where
  arrives := reachable.exists_arrivals source
  arrivedIn _ arrivals := arrivals.arrivedIn
  lastOfText_iff _ arrivals :=
    arrivals.arrivedIn.last_stored_iff (reachable.coupled.spaced source)
  retried_iff keeps := keeps.retryPending_iff reachable.coupled
  otherMoves keeps _ _ := keeps.move reachable.coupled.consistent

theorem storesLastArrival_of_returning_pointer :
    let layout : Layout := ⟨.ofText "/w".toList, []⟩
    let source := Path.ofText "/w/a.md".toList
    let gone := Path.ofText "/w/m/x.rs".toList
    let target := Path.ofText "/w/lib/x.rs".toList
    let lines : LineRange := ⟨1, 1, by decide, by decide⟩
    let disk := (Disk.empty.write gone ⟨.text [], 0⟩).write target ⟨.text [], 0⟩
    let tracker := (((Tracker.ofLayout layout .default).perform disk
      (.reindex source "@lib/x.rs:L1 @m/x.rs:L1".toList)).perform (disk.remove gone)
      (.forget gone)).perform (disk.remove gone) .retryPending
    tracker.Reachable ∧ (tracker.index.stored? target lines source).map Reference.start = some 13 ∧
      ∃ arrived, Arrivals source arrived tracker ∧ arrived.length = 2 ∧
        lastInto? arrived target lines = lastInto? (tracker.pointersOf source) target lines := by
  intro layout source gone target lines disk tracker
  have reachable : tracker.Reachable :=
    ⟨_, _, .perform _ .retryPending
      (.perform _ (.forget _) (.perform disk (.reindex _ _) (.refl _)))⟩
  have storesLast := reachable.storesLastArrival source
  obtain ⟨arrived, arrivals⟩ := storesLast.arrives
  have two : (resolved (tracker.pointersOf source)).length = 2 := by decide +kernel
  refine ⟨reachable, by decide +kernel, arrived, arrivals,
    (storesLast.arrivedIn arrived arrivals).perm.length_eq.trans two, ?_⟩
  exact (storesLast.lastOfText_iff arrived arrivals target lines).mp (by decide +kernel)

/-- A pointer that loses its target and finds another one in a retry takes the place of a later one
that points there already. Reindexing the source on the same disk puts the later one back. -/
theorem not_keepsLast_after_retry :
    let layout : Layout := ⟨.ofText "/w".toList, []⟩
    let source := Path.ofText "/w/a.md".toList
    let gone := Path.ofText "/w/m/x.rs".toList
    let target := Path.ofText "/w/lib/x.rs".toList
    let lines : LineRange := ⟨1, 1, by decide, by decide⟩
    let text := "@m/x.rs:L1 @lib/x.rs:L1".toList
    let disk := (Disk.empty.write gone ⟨.text [], 0⟩).write target ⟨.text [], 0⟩
    let left := disk.remove gone
    let tracker := (((Tracker.ofLayout layout .default).perform disk (.reindex source text)).perform
      left (.forget gone)).perform left .retryPending
    let reindexed := tracker.perform left (.reindex source text)
    tracker.Reachable ∧ ¬tracker.KeepsLast source ∧
      (lastInto? (tracker.pointersOf source) target lines).map TrackedPointer.start = some 11 ∧
      (tracker.index.stored? target lines source).map Reference.start = some 0 ∧
      (reindexed.index.stored? target lines source).map Reference.start = some 11 := by
  intro layout source gone target lines text disk left tracker reindexed
  have reachable : tracker.Reachable :=
    ⟨_, _, .perform _ .retryPending
      (.perform _ (.forget _) (.perform disk (.reindex _ _) (.refl _)))⟩
  have differs : (tracker.index.stored? target lines source ==
      (lastInto? (tracker.pointersOf source) target lines).map (·.reference source)) = false := by
    decide +kernel
  refine ⟨reachable, fun keeps => ?_, by decide +kernel⟩
  rw [keeps target lines] at differs
  cases differs

end Tracker

end CodePointers
