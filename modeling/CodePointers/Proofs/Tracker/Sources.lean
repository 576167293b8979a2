import CodePointers.Proofs.ReferenceIndex.Removal
import CodePointers.Tracker.Removal
import CodePointers.Tracker.Retry

/-!
What each change of a tracker does to one source: to its pointers, to the references stored for
it, and to the number of the request applied to it.
-/

namespace CodePointers

namespace TrackedPointer

def pointsTo (tracked : TrackedPointer) (target : Path) (lines : LineRange) : Bool :=
  tracked.pointer.lines == lines && tracked.target?.any (· == target)

theorem pointsTo_iff {tracked : TrackedPointer} {target : Path} {lines : LineRange} :
    tracked.pointsTo target lines = true ↔
      tracked.pointer.lines = lines ∧ ∃ own, tracked.target? = some own ∧ own == target := by
  simp [pointsTo, Option.any_eq_true]

theorem not_pointsTo_of_isPending {tracked : TrackedPointer} (pending : tracked.isPending = true)
    (target : Path) (lines : LineRange) : tracked.pointsTo target lines = false := by
  rw [isPending, Option.isNone_iff_eq_none] at pending
  simp [pointsTo, pending]

theorem not_isPending_of_pointsTo {tracked : TrackedPointer} {target : Path} {lines : LineRange}
    (points : tracked.pointsTo target lines = true) : tracked.isPending = false := by
  refine Bool.eq_false_iff.mpr fun pending => ?_
  rw [not_pointsTo_of_isPending pending] at points
  cases points

end TrackedPointer

/-- The last pointer of a list that is resolved to the target and names the lines. -/
def lastInto? (pointers : List TrackedPointer) (target : Path) (lines : LineRange) :
    Option TrackedPointer :=
  pointers.reverse.find? fun tracked => tracked.pointsTo target lines

@[simp] theorem lastInto?_nil (target : Path) (lines : LineRange) :
    lastInto? [] target lines = none := rfl

theorem lastInto?_cons (head : TrackedPointer) (rest : List TrackedPointer) (target : Path)
    (lines : LineRange) :
    lastInto? (head :: rest) target lines =
      (lastInto? rest target lines).or
        (if head.pointsTo target lines then some head else none) := by
  rw [lastInto?, List.reverse_cons, List.find?_append]
  congr 1
  rw [List.find?_cons]
  cases head.pointsTo target lines <;> rfl

theorem mem_of_lastInto? {pointers : List TrackedPointer} {target : Path} {lines : LineRange}
    {tracked : TrackedPointer} (found : lastInto? pointers target lines = some tracked) :
    tracked ∈ pointers ∧ tracked.pointsTo target lines = true :=
  ⟨List.mem_reverse.mp (List.mem_of_find?_eq_some found), by simpa using List.find?_some found⟩

theorem lastInto?_isSome_iff {pointers : List TrackedPointer} {target : Path} {lines : LineRange} :
    (lastInto? pointers target lines).isSome ↔
      ∃ tracked ∈ pointers, tracked.pointsTo target lines = true := by
  simp [lastInto?, List.find?_isSome]

theorem lastInto?_eq_none_iff {pointers : List TrackedPointer} {target : Path} {lines : LineRange} :
    lastInto? pointers target lines = none ↔
      ∀ tracked ∈ pointers, tracked.pointsTo target lines = false := by
  simp [lastInto?]

namespace Tracker

open ReferenceIndex

structure SameSource (source : Path) (left right : Tracker) : Prop where
  tracked : left.tracked.get? source = right.tracked.get? source
  stored : ∀ target lines,
    left.index.stored? target lines source = right.index.stored? target lines source

theorem SameSource.refl (source : Path) (tracker : Tracker) : SameSource source tracker tracker :=
  ⟨rfl, fun _ _ => rfl⟩

theorem SameSource.trans {source : Path} {first second third : Tracker}
    (left : SameSource source first second) (right : SameSource source second third) :
    SameSource source first third :=
  ⟨left.tracked.trans right.tracked,
    fun target lines => (left.stored target lines).trans (right.stored target lines)⟩

theorem SameSource.symm {source : Path} {left right : Tracker}
    (same : SameSource source left right) : SameSource source right left :=
  ⟨same.tracked.symm, fun target lines => (same.stored target lines).symm⟩

theorem SameSource.congr {source other : Path} {left right : Tracker}
    (same : SameSource source left right) (spelling : source == other) :
    SameSource other left right where
  tracked := by
    rw [← left.tracked.get?_congr spelling, ← right.tracked.get?_congr spelling]
    exact same.tracked
  stored target lines := by
    rw [← left.index.stored?_congr lines BEq.rfl spelling,
      ← right.index.stored?_congr lines BEq.rfl spelling]
    exact same.stored target lines

/-! Recording the pointers of a source. -/

theorem consistent_addReference {index : ReferenceIndex} (consistent : index.Consistent)
    (source : Path) (tracked : TrackedPointer) :
    (addReference source index tracked).Consistent := by
  unfold addReference
  split
  · exact consistent
  · exact consistent.insert _ _

theorem stored?_addReference {index : ReferenceIndex} (consistent : index.Consistent)
    (source : Path) (tracked : TrackedPointer) (target : Path) (lines : LineRange) (other : Path) :
    (addReference source index tracked).stored? target lines other =
      if tracked.pointsTo target lines ∧ source == other then some (tracked.reference source)
      else index.stored? target lines other := by
  unfold addReference TrackedPointer.pointsTo
  cases tracked.target? with
  | none => simp
  | some own =>
      change (index.insert own (tracked.reference source)).1.stored? target lines other = _
      rw [stored?_insert consistent.targets]
      congr 1
      simp [TrackedPointer.reference, and_assoc, and_comm, and_left_comm]

theorem consistent_foldl_addReference {index : ReferenceIndex} (consistent : index.Consistent)
    (source : Path) (pointers : List TrackedPointer) :
    (pointers.foldl (addReference source) index).Consistent := by
  induction pointers generalizing index with
  | nil => exact consistent
  | cons head rest ih => exact ih (consistent_addReference consistent source head)

/-- Of several pointers with one target and range the last one is stored. -/
theorem stored?_foldl_addReference {index : ReferenceIndex} (consistent : index.Consistent)
    (source : Path) (pointers : List TrackedPointer) (target : Path) (lines : LineRange)
    (other : Path) :
    (pointers.foldl (addReference source) index).stored? target lines other =
      if source == other then
        ((lastInto? pointers target lines).map (·.reference source)).or
          (index.stored? target lines other)
      else index.stored? target lines other := by
  induction pointers generalizing index with
  | nil => simp
  | cons head rest ih =>
      rw [List.foldl_cons, ih (consistent_addReference consistent source head),
        stored?_addReference consistent, lastInto?_cons]
      by_cases same : source == other
      · rw [if_pos same, if_pos same]
        cases lastInto? rest target lines with
        | some later => rfl
        | none => by_cases points : head.pointsTo target lines <;> simp [points, same]
      · simp [same]

/-! Reindexing a file. -/

theorem pointersOf_congr (tracker : Tracker) {left right : Path} (same : left == right) :
    tracker.pointersOf left = tracker.pointersOf right := by
  rw [pointersOf, pointersOf, tracker.tracked.get?_congr same]

theorem appliedTo_congr (tracker : Tracker) {left right : Path} (same : left == right) :
    tracker.appliedTo left = tracker.appliedTo right := by
  rw [appliedTo, appliedTo, tracker.applied.get?_congr same]

theorem reindexAt_superseded_iff (disk : Disk) (tracker : Tracker) (file : Path) (text : Text)
    (number : Nat) :
    (tracker.reindexAt disk file text number).2.superseded = true ↔
      number < tracker.appliedTo file := by
  unfold reindexAt
  split
  · next older => simp [older]
  · next newer => simp [newer]

theorem reindexAt_of_lt {tracker : Tracker} {file : Path} {number : Nat}
    (older : number < tracker.appliedTo file) (disk : Disk) (text : Text) :
    tracker.reindexAt disk file text number = (tracker, { superseded := true }) := by
  rw [reindexAt, if_pos older]

def kept? (pointers : List TrackedPointer) : Option (List TrackedPointer) :=
  if pointers.isEmpty then none else some pointers

theorem kept?_getD (pointers : List TrackedPointer) : (kept? pointers).getD [] = pointers := by
  cases pointers <;> rfl

structure Lists (tracker : Tracker) (source : Path) (pointers : List TrackedPointer) : Prop where
  tracked : tracker.tracked.get? source = kept? pointers
  stored : ∀ target lines, tracker.index.stored? target lines source =
    (lastInto? pointers target lines).map (·.reference source)

theorem Lists.congr {left right : Tracker} {source : Path} {pointers : List TrackedPointer}
    (lists : Lists right source pointers) (same : SameSource source left right) :
    Lists left source pointers where
  tracked := same.tracked.trans lists.tracked
  stored target lines := (same.stored target lines).trans (lists.stored target lines)

theorem Lists.sameSource {left right : Tracker} {source : Path} {pointers : List TrackedPointer}
    (inLeft : Lists left source pointers) (inRight : Lists right source pointers) :
    SameSource source left right where
  tracked := inLeft.tracked.trans inRight.tracked.symm
  stored target lines := (inLeft.stored target lines).trans (inRight.stored target lines).symm

theorem Lists.pointersOf {tracker : Tracker} {source : Path} {pointers : List TrackedPointer}
    (lists : Lists tracker source pointers) : tracker.pointersOf source = pointers := by
  rw [Tracker.pointersOf, lists.tracked, kept?_getD]

theorem SameSource.pointersOf {source : Path} {left right : Tracker}
    (same : SameSource source left right) : left.pointersOf source = right.pointersOf source := by
  rw [Tracker.pointersOf, same.tracked, Tracker.pointersOf]

section Accepted

variable {tracker : Tracker} {file : Path} {number : Nat}
  (newer : ¬number < tracker.appliedTo file) (disk : Disk) (text : Text)
include newer

theorem tracked_reindexAt (source : Path) :
    (tracker.reindexAt disk file text number).1.tracked.get? source =
      if file == source then kept? (extract disk tracker.layout text)
      else tracker.tracked.get? source := by
  rw [reindexAt, if_neg newer]
  dsimp only
  unfold kept?
  split
  · rw [OrderedMap.get?_erase]
  · rw [OrderedMap.get?_insert]

theorem pointersOf_reindexAt (source : Path) :
    (tracker.reindexAt disk file text number).1.pointersOf source =
      if file == source then extract disk tracker.layout text
      else tracker.pointersOf source := by
  rw [pointersOf, tracked_reindexAt newer]
  split
  · exact kept?_getD _
  · rfl

theorem stored?_reindexAt (consistent : tracker.index.Consistent) (target : Path)
    (lines : LineRange) (source : Path) :
    (tracker.reindexAt disk file text number).1.index.stored? target lines source =
      if file == source then
        (lastInto? (extract disk tracker.layout text) target lines).map (·.reference file)
      else tracker.index.stored? target lines source := by
  rw [reindexAt, if_neg newer]
  dsimp only
  rw [stored?_foldl_addReference (consistent.removeOutbound file),
    stored?_removeOutbound consistent]
  split <;> simp

theorem appliedTo_reindexAt_accepted (source : Path) :
    (tracker.reindexAt disk file text number).1.appliedTo source =
      if file == source then number else tracker.appliedTo source := by
  rw [reindexAt, if_neg newer]
  unfold appliedTo
  dsimp only
  rw [OrderedMap.get?_insert]
  split <;> rfl

end Accepted

theorem appliedTo_reindexAt (disk : Disk) (tracker : Tracker) (file : Path) (text : Text)
    (number : Nat) (source : Path) :
    (tracker.reindexAt disk file text number).1.appliedTo source =
      if file == source then max (tracker.appliedTo source) number
      else tracker.appliedTo source := by
  by_cases older : number < tracker.appliedTo file
  · rw [reindexAt_of_lt older]
    split
    · next same =>
      rw [tracker.appliedTo_congr same] at older
      exact (Nat.max_eq_left (Nat.le_of_lt older)).symm
    · rfl
  · rw [appliedTo_reindexAt_accepted older]
    split
    · next same =>
      rw [tracker.appliedTo_congr same] at older
      exact (Nat.max_eq_right (Nat.le_of_not_lt older)).symm
    · rfl

theorem consistent_reindexAt {tracker : Tracker} (consistent : tracker.index.Consistent)
    (disk : Disk) (file : Path) (text : Text) (number : Nat) :
    (tracker.reindexAt disk file text number).1.index.Consistent := by
  unfold reindexAt
  split
  · exact consistent
  · exact consistent_foldl_addReference (consistent.removeOutbound file) file _

theorem sameSource_reindexAt {tracker : Tracker} (consistent : tracker.index.Consistent)
    (disk : Disk) {file source : Path} (text : Text) (number : Nat)
    (other : (file == source) = false) :
    SameSource source (tracker.reindexAt disk file text number).1 tracker := by
  by_cases older : number < tracker.appliedTo file
  · rw [reindexAt_of_lt older]
    exact ⟨rfl, fun _ _ => rfl⟩
  · constructor
    · rw [tracked_reindexAt older, if_neg (by simp [other])]
    · intro target lines
      rw [stored?_reindexAt older disk text consistent, if_neg (by simp [other])]

theorem lists_reindexAt {tracker : Tracker} (consistent : tracker.index.Consistent) {file : Path}
    {number : Nat} (newer : ¬number < tracker.appliedTo file) (disk : Disk) (text : Text) :
    Lists (tracker.reindexAt disk file text number).1 file (extract disk tracker.layout text) where
  tracked := by rw [tracked_reindexAt newer, if_pos BEq.rfl]
  stored target lines := by rw [stored?_reindexAt newer disk text consistent, if_pos BEq.rfl]

theorem layout_reindexAt (disk : Disk) (tracker : Tracker) (file : Path) (text : Text)
    (number : Nat) : (tracker.reindexAt disk file text number).1.layout = tracker.layout := by
  unfold reindexAt
  split <;> rfl

theorem settings_reindexAt (disk : Disk) (tracker : Tracker) (file : Path) (text : Text)
    (number : Nat) : (tracker.reindexAt disk file text number).1.settings = tracker.settings := by
  unfold reindexAt
  split <;> rfl

theorem cache_reindexAt (disk : Disk) (tracker : Tracker) (file : Path) (text : Text)
    (number : Nat) : (tracker.reindexAt disk file text number).1.cache = tracker.cache := by
  unfold reindexAt
  split <;> rfl

theorem sequence_reindexAt (disk : Disk) (tracker : Tracker) (file : Path) (text : Text)
    (number : Nat) : (tracker.reindexAt disk file text number).1.sequence = tracker.sequence := by
  unfold reindexAt
  split <;> rfl

/-! Forgetting a file. -/

theorem get?_map_getD {κ : Type} [BEq κ] {α β : Type} (map : OrderedMap κ (List α))
    (change : α → β) (key : κ) :
    ((map.get? key).map (List.map change)).getD [] = ((map.get? key).getD []).map change := by
  cases map.get? key <;> rfl

theorem tracked_forget (tracker : Tracker) (file source : Path) :
    (tracker.forget file).tracked.get? source =
      if file == source then none
      else (tracker.tracked.get? source).map (List.map (release file)) := by
  change ((tracker.tracked.erase file).mapValues _).get? source = _
  rw [OrderedMap.get?_mapValues, OrderedMap.get?_erase]
  split <;> rfl

theorem pointersOf_forget (tracker : Tracker) (file source : Path) :
    (tracker.forget file).pointersOf source =
      if file == source then [] else (tracker.pointersOf source).map (release file) := by
  rw [pointersOf, tracked_forget]
  split
  · rfl
  · exact get?_map_getD ..

theorem stored?_forget {tracker : Tracker} (consistent : tracker.index.Consistent)
    (file target : Path) (lines : LineRange) (source : Path) :
    (tracker.forget file).index.stored? target lines source =
      if file == target ∨ file == source then none
      else tracker.index.stored? target lines source :=
  stored?_removeFile consistent file target lines source

theorem appliedTo_forget (tracker : Tracker) (file source : Path) :
    (tracker.forget file).appliedTo source =
      if file == source then tracker.nextSequence else tracker.appliedTo source := by
  change ((tracker.applied.insert file tracker.nextSequence).get? source).getD 0 = _
  rw [OrderedMap.get?_insert]
  split <;> rfl

theorem consistent_forget {tracker : Tracker} (consistent : tracker.index.Consistent)
    (file : Path) : (tracker.forget file).index.Consistent :=
  consistent.removeFile file

theorem release_eq (file : Path) (tracked : TrackedPointer) :
    release file tracked =
      { tracked with target? := tracked.target?.filter fun target => !(target == file) } := by
  obtain ⟨pointer, start, stop, definitionLine, target?⟩ := tracked
  cases target? with
  | none => rfl
  | some target =>
      unfold release
      dsimp only
      by_cases same : target == file <;> simp [same, Option.filter]

theorem pointsTo_release (file : Path) (tracked : TrackedPointer) (target : Path)
    (lines : LineRange) :
    (release file tracked).pointsTo target lines =
      (tracked.pointsTo target lines && !(file == target)) := by
  rw [release_eq]
  unfold TrackedPointer.pointsTo
  cases tracked.target? with
  | none => simp
  | some own =>
      cases isFile : own == file with
      | true => simp [isFile, Option.filter, BEq.congr_left isFile]
      | false =>
          cases isTarget : own == target with
          | true =>
              have apart : (file == target) = false := by
                rw [← BEq.congr_right isTarget, BEq.comm, isFile]
              simp [isFile, Option.filter, isTarget, apart]
          | false => simp [isFile, Option.filter, isTarget]

/-! Retrying pending pointers. -/

theorem renew_of_not_isPending (disk : Disk) (layout : Layout) {tracked : TrackedPointer}
    (resolved : tracked.isPending = false) : renew disk layout tracked = tracked := by
  unfold renew
  split
  · next noTarget => simp [TrackedPointer.isPending, noTarget] at resolved
  · rfl

theorem mem_resolvable_iff {disk : Disk} {layout : Layout} {pointers : List TrackedPointer}
    {tracked : TrackedPointer} :
    tracked ∈ resolvable disk layout pointers ↔
      tracked.isPending = false ∧
        ∃ old ∈ pointers, old.isPending = true ∧ renew disk layout old = tracked := by
  simp only [resolvable, List.mem_filter, List.mem_map, Bool.not_eq_true']
  constructor
  · rintro ⟨⟨old, ⟨member, pending⟩, renewed⟩, resolved⟩
    exact ⟨resolved, old, member, pending, renewed⟩
  · rintro ⟨resolved, old, member, pending, renewed⟩
    exact ⟨⟨old, ⟨member, pending⟩, renewed⟩, resolved⟩

theorem tracked_retryPending (disk : Disk) (tracker : Tracker) (source : Path) :
    (tracker.retryPending disk).1.tracked.get? source =
      (tracker.tracked.get? source).map (List.map (renew disk tracker.layout)) :=
  OrderedMap.get?_mapValues ..

theorem pointersOf_retryPending (disk : Disk) (tracker : Tracker) (source : Path) :
    (tracker.retryPending disk).1.pointersOf source =
      (tracker.pointersOf source).map (renew disk tracker.layout) := by
  rw [pointersOf, tracked_retryPending]
  exact get?_map_getD ..

def addSources (index : ReferenceIndex) (found : List (Path × List TrackedPointer)) :
    ReferenceIndex :=
  found.foldl (fun index (source, pointers) => pointers.foldl (addReference source) index) index

theorem consistent_addSources {index : ReferenceIndex} (consistent : index.Consistent)
    (found : List (Path × List TrackedPointer)) : (addSources index found).Consistent := by
  induction found generalizing index with
  | nil => exact consistent
  | cons head rest ih => exact ih (consistent_foldl_addReference consistent head.1 head.2)

theorem stored?_addSources_of_not_mem {index : ReferenceIndex} (consistent : index.Consistent)
    {found : List (Path × List TrackedPointer)} {source : Path}
    (notIn : ∀ entry ∈ found, (entry.1 == source) = false) (target : Path) (lines : LineRange) :
    (addSources index found).stored? target lines source = index.stored? target lines source := by
  induction found generalizing index with
  | nil => rfl
  | cons head rest ih =>
      change (addSources (head.2.foldl (addReference head.1) index) rest).stored? _ _ _ = _
      rw [ih (consistent_foldl_addReference consistent head.1 head.2)
          fun entry member => notIn entry (List.mem_cons_of_mem _ member),
        stored?_foldl_addReference consistent, if_neg (by simp [notIn head List.mem_cons_self])]

theorem stored?_addSources_of_mem {index : ReferenceIndex} (consistent : index.Consistent)
    {found : List (Path × List TrackedPointer)}
    (distinct : found.Pairwise fun left right => (left.1 == right.1) = false)
    {entry : Path × List TrackedPointer} (member : entry ∈ found) {source : Path}
    (same : entry.1 == source) (target : Path) (lines : LineRange) :
    (addSources index found).stored? target lines source =
      ((lastInto? entry.2 target lines).map (·.reference entry.1)).or
        (index.stored? target lines source) := by
  induction found generalizing index with
  | nil => cases member
  | cons head rest ih =>
      obtain ⟨apart, restDistinct⟩ := List.pairwise_cons.mp distinct
      have headConsistent := consistent_foldl_addReference consistent head.1 head.2
      change (addSources (head.2.foldl (addReference head.1) index) rest).stored? _ _ _ = _
      rcases List.mem_cons.mp member with rfl | inRest
      · rw [stored?_addSources_of_not_mem headConsistent, stored?_foldl_addReference consistent,
          if_pos same]
        intro other otherMember
        rw [BEq.comm, ← BEq.congr_left same]
        exact apart other otherMember
      · rw [ih headConsistent restDistinct inRest, stored?_foldl_addReference consistent, if_neg]
        rw [← BEq.congr_right same, apart entry inRest]
        simp

/-- A retry adds the pointers of a source that resolve now, under the spelling of the source that
is tracked. -/
theorem stored?_retryPending {tracker : Tracker} (consistent : tracker.index.Consistent)
    (disk : Disk) (source : Path) :
    ∃ spelled, (spelled == source) = true ∧ ∀ target lines,
      (tracker.retryPending disk).1.index.stored? target lines source =
        ((lastInto? (resolvable disk tracker.layout (tracker.pointersOf source)) target
          lines).map (·.reference spelled)).or (tracker.index.stored? target lines source) := by
  let found := tracker.tracked.entries.map fun entry =>
    (entry.1, resolvable disk tracker.layout entry.2)
  change ∃ spelled, _ ∧ ∀ target lines,
    (addSources tracker.index found).stored? target lines source = _
  have distinct : found.Pairwise fun left right => (left.1 == right.1) = false :=
    List.pairwise_map.mpr tracker.tracked.distinct
  cases isTracked : tracker.tracked.get? source with
  | none =>
      refine ⟨source, BEq.rfl, fun target lines => ?_⟩
      rw [stored?_addSources_of_not_mem consistent, pointersOf, isTracked]
      · rfl
      · intro entry member
        obtain ⟨⟨key, pointers⟩, inTracked, rfl⟩ := List.mem_map.mp member
        refine Bool.eq_false_iff.mpr fun same => ?_
        rw [OrderedMap.get?_of_mem inTracked same] at isTracked
        cases isTracked
  | some pointers =>
      obtain ⟨spelled, member, same⟩ := OrderedMap.exists_mem_of_get? isTracked
      refine ⟨spelled, same, fun target lines => ?_⟩
      rw [stored?_addSources_of_mem consistent distinct (List.mem_map.mpr ⟨_, member, rfl⟩) same,
        pointersOf, isTracked]
      rfl

theorem consistent_retryPending {tracker : Tracker} (consistent : tracker.index.Consistent)
    (disk : Disk) : (tracker.retryPending disk).1.index.Consistent :=
  consistent_addSources consistent _

end Tracker

end CodePointers
