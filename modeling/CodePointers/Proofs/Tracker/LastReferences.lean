import CodePointers.Proofs.Tracker.Rereads
import CodePointers.Proofs.Tracker.Removals
import CodePointers.Proofs.Tracker.Requests

/-!
Of several pointers of a source with one target and range, the index can store one. As long as this
is the last one, the pointers tell all that the index holds.
-/

namespace CodePointers

theorem TrackedPointer.reference_beq {source other : Path} (same : source == other)
    (tracked : TrackedPointer) : (tracked.reference source == tracked.reference other) = true :=
  Reference.beq_iff.mpr ⟨same, rfl, rfl, rfl, rfl⟩

theorem map_reference_beq {source other : Path} (same : source == other)
    (last? : Option TrackedPointer) :
    (last?.map (·.reference source) == last?.map (·.reference other)) = true := by
  cases last? with
  | none => rfl
  | some last => exact last.reference_beq same

namespace Tracker

/-- Whether two trackers have the same pointers and references of a source, however it is spelled
in the references. -/
structure SimilarSource (source : Path) (left right : Tracker) : Prop where
  tracked : left.tracked.get? source = right.tracked.get? source
  stored : ∀ target lines, (left.index.stored? target lines source ==
    right.index.stored? target lines source) = true

theorem SameSource.similar {source : Path} {left right : Tracker}
    (same : SameSource source left right) : SimilarSource source left right where
  tracked := same.tracked
  stored target lines := by
    rw [same.stored]
    exact BEq.rfl

theorem SimilarSource.symm {source : Path} {left right : Tracker}
    (similar : SimilarSource source left right) : SimilarSource source right left :=
  ⟨similar.tracked.symm, fun target lines => BEq.symm (similar.stored target lines)⟩

theorem SimilarSource.trans {source : Path} {first second third : Tracker}
    (left : SimilarSource source first second) (right : SimilarSource source second third) :
    SimilarSource source first third :=
  ⟨left.tracked.trans right.tracked,
    fun target lines => BEq.trans (left.stored target lines) (right.stored target lines)⟩

theorem sameContents_of_similar {left right : Tracker} (leftCoupled : left.Coupled)
    (rightCoupled : right.Coupled) (similar : ∀ source, SimilarSource source left right) :
    SameContents left right where
  tracked source := (similar source).tracked
  snapshot := snapshot_beq_of_similarStored leftCoupled.consistent rightCoupled.consistent
    fun target lines source => (similar source).stored target lines

/-- Whether the index stores the last pointer of the source for every target and range. -/
def KeepsLast (tracker : Tracker) (source : Path) : Prop :=
  ∀ target lines, (tracker.index.stored? target lines source ==
    (lastInto? (tracker.pointersOf source) target lines).map (·.reference source)) = true

theorem Lists.keepsLast {tracker : Tracker} {source : Path} {pointers : List TrackedPointer}
    (lists : Lists tracker source pointers) : tracker.KeepsLast source := by
  intro target lines
  rw [lists.pointersOf, lists.stored]
  exact BEq.rfl

theorem KeepsLast.congr {source : Path} {left right : Tracker} (keeps : right.KeepsLast source)
    (same : SameSource source left right) : left.KeepsLast source := by
  intro target lines
  rw [same.stored, same.pointersOf]
  exact keeps target lines

theorem KeepsLast.respell {tracker : Tracker} {source other : Path}
    (keeps : tracker.KeepsLast source) (same : source == other) : tracker.KeepsLast other := by
  intro target lines
  rw [← tracker.index.stored?_congr lines BEq.rfl same, ← tracker.pointersOf_congr same]
  exact BEq.trans (keeps target lines) (map_reference_beq same _)

def PointsApart (tracker : Tracker) (source : Path) : Prop :=
  ∀ left ∈ tracker.pointersOf source, ∀ right ∈ tracker.pointersOf source, ∀ target lines,
    left.pointsTo target lines = true → right.pointsTo target lines = true → left = right

theorem PointsApart.keepsLast {tracker : Tracker} {source : Path}
    (apart : tracker.PointsApart source) (coupled : tracker.Coupled) :
    tracker.KeepsLast source := by
  intro target lines
  cases found : tracker.index.stored? target lines source with
  | none =>
      cases isLast : lastInto? (tracker.pointersOf source) target lines with
      | none => rfl
      | some last =>
          obtain ⟨member, points⟩ := mem_of_lastInto? isLast
          have isStored := coupled.stored member points
          rw [found] at isStored
          cases isStored
  | some reference =>
      obtain ⟨tracked, member, points, start, stop, definitionLine⟩ := coupled.carried found
      obtain ⟨last, isLast⟩ :=
        Option.isSome_iff_exists.mp (lastInto?_isSome_iff.mpr ⟨tracked, member, points⟩)
      obtain ⟨lastMember, lastPoints⟩ := mem_of_lastInto? isLast
      obtain rfl := apart tracked member last lastMember target lines points lastPoints
      have sameLines := (TrackedPointer.pointsTo_iff.mp points).1
      have isOwn : (reference == tracked.reference source) = true :=
        Reference.beq_iff.mpr ⟨ReferenceIndex.source_of_stored? found, start, stop,
          (ReferenceIndex.lines_of_stored? coupled.consistent.targets found).trans sameLines.symm,
          definitionLine⟩
      rw [isLast]
      exact isOwn

/-! What keeps the last references. -/

theorem Rereads.keepsLast {disk : Disk} {reading : Path → Option Text} {files : List Path}
    {before after : Tracker} (rereads : Rereads disk reading files before after) {source : Path}
    (keeps : before.KeepsLast source) : after.KeepsLast source := by
  rcases rereads.source_cases source with ⟨file, text, same, lists⟩ | unchanged
  · exact lists.keepsLast.respell same
  · exact keeps.congr unchanged

theorem lastInto?_map_releaseFrom {gone : Path → Bool}
    (congr : ∀ {path other : Path}, path == other → gone path = gone other)
    (pointers : List TrackedPointer) (target : Path) (lines : LineRange) :
    lastInto? (pointers.map (releaseFrom gone)) target lines =
      if gone target then none else lastInto? pointers target lines := by
  induction pointers with
  | nil => exact (ite_self none).symm
  | cons head rest ih =>
      have points : (releaseFrom gone head).pointsTo target lines =
          (!gone target && head.pointsTo target lines) := by
        obtain ⟨pointer, start, stop, definitionLine, target?⟩ := head
        unfold releaseFrom TrackedPointer.pointsTo
        cases target? with
        | none => simp
        | some own =>
            cases same : own == target with
            | true => cases isGone : gone target <;> simp [Option.filter, congr same, isGone, same]
            | false => cases isGone : gone own <;> simp [Option.filter, isGone, same]
      rw [List.map_cons, lastInto?_cons, lastInto?_cons, ih, points]
      cases isGone : gone target with
      | true => simp
      | false =>
          cases headPoints : head.pointsTo target lines with
          | false => simp
          | true =>
              obtain ⟨_, own, isOwn, same⟩ := TrackedPointer.pointsTo_iff.mp headPoints
              have stays : releaseFrom gone head = head := by
                refine releaseFrom_of_not_gone fun other isOther => ?_
                obtain rfl := Option.some.inj (isOwn.symm.trans isOther)
                rw [congr same, isGone]
              simp [stays]

theorem Drops.keepsLast {gone : Path → Bool} {before after : Tracker}
    (drops : Drops gone before after) {source : Path} (keeps : before.KeepsLast source) :
    after.KeepsLast source := by
  intro target lines
  rw [drops.stored, drops.pointersOf]
  cases isGone : gone source with
  | true => simp
  | false =>
      rw [if_neg Bool.false_ne_true, lastInto?_map_releaseFrom drops.congr]
      cases targetGone : gone target with
      | true => simp
      | false => simpa using keeps target lines

theorem resolvable_cons (disk : Disk) (layout : Layout) (head : TrackedPointer)
    (rest : List TrackedPointer) :
    resolvable disk layout (head :: rest) =
      if head.isPending = true ∧ (renew disk layout head).isPending = false then
        renew disk layout head :: resolvable disk layout rest
      else resolvable disk layout rest := by
  unfold resolvable
  cases pending : head.isPending with
  | false => simp [pending]
  | true => cases renewed : (renew disk layout head).isPending <;> simp [pending, renewed]

/-- A retry adds the pointers that it resolves behind all others, so the last one of the source is
stored when none of the others points to the same place. -/
theorem lastInto?_map_renew {disk : Disk} {layout : Layout} {pointers : List TrackedPointer}
    {target : Path} {lines : LineRange}
    (apart : ∀ found ∈ resolvable disk layout pointers, found.pointsTo target lines = true →
      ∀ other ∈ pointers, other.pointsTo target lines = false) :
    lastInto? (pointers.map (renew disk layout)) target lines =
      (lastInto? (resolvable disk layout pointers) target lines).or
        (lastInto? pointers target lines) := by
  induction pointers with
  | nil => rfl
  | cons head rest ih =>
      have restApart : ∀ found ∈ resolvable disk layout rest, found.pointsTo target lines = true →
          ∀ other ∈ rest, other.pointsTo target lines = false := by
        intro found member points other inRest
        refine apart found ?_ points other (List.mem_cons_of_mem _ inRest)
        rw [resolvable_cons]
        split
        · exact List.mem_cons_of_mem _ member
        · exact member
      rw [List.map_cons, lastInto?_cons, ih restApart, lastInto?_cons, resolvable_cons]
      cases pending : head.isPending with
      | false =>
          rw [renew_of_not_isPending disk layout pending, Option.or_assoc]
          simp
      | true =>
          rw [TrackedPointer.not_pointsTo_of_isPending pending]
          cases renewed : (renew disk layout head).isPending with
          | true =>
              rw [TrackedPointer.not_pointsTo_of_isPending renewed]
              simp
          | false =>
              have inFound : renew disk layout head ∈ resolvable disk layout (head :: rest) := by
                rw [resolvable_cons, if_pos ⟨pending, renewed⟩]
                exact List.mem_cons_self
              simp only [true_and, if_true, lastInto?_cons, Bool.false_eq_true, if_false,
                Option.or_none]
              split
              -- What is resolved to this place has no other pointer at it, before it or behind it.
              · next points =>
                have noOther : lastInto? rest target lines = none :=
                  lastInto?_eq_none_iff.mpr fun other inRest =>
                    apart _ inFound points other (List.mem_cons_of_mem _ inRest)
                rw [noOther, Option.or_none, Option.or_none]
              · rw [Option.or_none, Option.or_none]

theorem KeepsLast.retryPending {disk : Disk} {tracker : Tracker} {source : Path}
    (keeps : tracker.KeepsLast source) (consistent : tracker.index.Consistent)
    (apart : ∀ target lines, ∀ found ∈ resolvable disk tracker.layout (tracker.pointersOf source),
      found.pointsTo target lines = true →
        ∀ other ∈ tracker.pointersOf source, other.pointsTo target lines = false) :
    (tracker.retryPending disk).1.KeepsLast source := by
  intro target lines
  obtain ⟨spelled, same, stored⟩ := stored?_retryPending consistent disk source
  rw [stored, pointersOf_retryPending, lastInto?_map_renew (apart target lines)]
  cases lastInto? (resolvable disk tracker.layout (tracker.pointersOf source)) target lines with
  | none => exact keeps target lines
  | some found => exact found.reference_beq same

/-! What the pointers tell then. -/

theorem similar_of_keepsLast {source : Path} {left right : Tracker}
    (tracked : left.tracked.get? source = right.tracked.get? source)
    (leftKeeps : left.KeepsLast source) (rightKeeps : right.KeepsLast source) :
    SimilarSource source left right := by
  refine ⟨tracked, fun target lines => ?_⟩
  have samePointers : left.pointersOf source = right.pointersOf source := by
    rw [pointersOf, tracked, pointersOf]
  have inLeft := leftKeeps target lines
  rw [samePointers] at inLeft
  exact BEq.trans inLeft (BEq.symm (rightKeeps target lines))

theorem pendingCount_congr {left right : Tracker}
    (tracked : ∀ source, left.tracked.get? source = right.tracked.get? source) :
    left.pendingCount = right.pendingCount :=
  OrderedMap.total_congr _ tracked

end Tracker

end CodePointers
