import CodePointers.Proofs.Occurrences
import CodePointers.Proofs.ReferenceIndex.Entries
import CodePointers.Proofs.Tracker.Runs
import CodePointers.Proofs.Tracker.Sources

/-!
The two stores of a tracker say the same thing: what is stored in the index is what the tracked
pointers of the sources are resolved to, in every state that a tracker gets into.
-/

namespace CodePointers

/-- Pointers in the order of their text, none of them reaching into the next. -/
structure Spaced (pointers : List TrackedPointer) : Prop where
  disjoint : pointers.Pairwise fun left right => left.stop ≤ right.start
  start_lt_stop : ∀ tracked ∈ pointers, tracked.start < tracked.stop

theorem Spaced.map {pointers : List TrackedPointer} (spaced : Spaced pointers)
    {change : TrackedPointer → TrackedPointer}
    (start : ∀ tracked, (change tracked).start = tracked.start)
    (stop : ∀ tracked, (change tracked).stop = tracked.stop) : Spaced (pointers.map change) where
  disjoint := List.pairwise_map.mpr (spaced.disjoint.imp fun apart => by rwa [start, stop])
  start_lt_stop := by
    intro tracked member
    obtain ⟨old, inOld, rfl⟩ := List.mem_map.mp member
    rw [start, stop]
    exact spaced.start_lt_stop old inOld

theorem Spaced.eq_of_start_eq {pointers : List TrackedPointer} (spaced : Spaced pointers)
    {left right : TrackedPointer} (leftMember : left ∈ pointers) (rightMember : right ∈ pointers)
    (same : left.start = right.start) : left = right := by
  obtain ⟨disjoint, start_lt_stop⟩ := spaced
  induction disjoint with
  | nil => cases leftMember
  | @cons head rest apart _ ih =>
      have headSpan := start_lt_stop head List.mem_cons_self
      rcases List.mem_cons.mp leftMember with rfl | inLeft <;>
        rcases List.mem_cons.mp rightMember with rfl | inRight
      · rfl
      · have := apart right inRight
        omega
      · have := apart left inLeft
        omega
      · exact ih inLeft inRight fun tracked member =>
          start_lt_stop tracked (List.mem_cons_of_mem _ member)

theorem Spaced.increasing {pointers : List TrackedPointer} (spaced : Spaced pointers) :
    pointers.Pairwise fun left right => left.start < right.start ∧ left.stop ≤ right.start := by
  refine spaced.disjoint.imp_of_mem fun leftMember _ apart => ⟨?_, apart⟩
  exact Nat.lt_of_lt_of_le (spaced.start_lt_stop _ leftMember) apart

theorem start_le_of_lastInto? {pointers : List TrackedPointer}
    (increasing : pointers.Pairwise fun left right => left.start < right.start) {target : Path}
    {lines : LineRange} {last : TrackedPointer}
    (isLast : lastInto? pointers target lines = some last)
    {tracked : TrackedPointer} (member : tracked ∈ pointers)
    (points : tracked.pointsTo target lines = true) : tracked.start ≤ last.start := by
  induction increasing with
  | nil => cases member
  | @cons head rest before _ ih =>
      rw [lastInto?_cons, Option.or_eq_some_iff] at isLast
      rcases isLast with inRest | ⟨noneLater, isHead⟩
      · rcases List.mem_cons.mp member with rfl | later
        · exact Nat.le_of_lt (before last (mem_of_lastInto? inRest).1)
        · exact ih inRest later
      · rcases List.mem_cons.mp member with rfl | later
        · rw [if_pos points] at isHead
          cases isHead
          exact Nat.le_refl _
        · rw [lastInto?_eq_none_iff.mp noneLater tracked later] at points
          cases points

theorem lastInto?_eq_some_iff {pointers : List TrackedPointer} (spaced : Spaced pointers)
    {target : Path} {lines : LineRange} {tracked : TrackedPointer} :
    lastInto? pointers target lines = some tracked ↔
      tracked ∈ pointers ∧ tracked.pointsTo target lines = true ∧
        ∀ later ∈ pointers, tracked.start < later.start →
          later.pointsTo target lines = false := by
  have increasing : pointers.Pairwise fun left right => left.start < right.start :=
    spaced.increasing.imp And.left
  constructor
  · intro isLast
    obtain ⟨member, points⟩ := mem_of_lastInto? isLast
    refine ⟨member, points, fun later laterMember behind =>
      Bool.eq_false_iff.mpr fun alsoPoints => ?_⟩
    have := start_le_of_lastInto? increasing isLast laterMember alsoPoints
    omega
  · rintro ⟨member, points, noneLater⟩
    obtain ⟨last, isLast⟩ := Option.isSome_iff_exists.mp
      (lastInto?_isSome_iff.mpr ⟨tracked, member, points⟩)
    obtain ⟨lastMember, lastPoints⟩ := mem_of_lastInto? isLast
    have notBefore := start_le_of_lastInto? increasing isLast member points
    have notBehind : ¬tracked.start < last.start := by
      intro behind
      rw [noneLater last lastMember behind] at lastPoints
      cases lastPoints
    rw [isLast, spaced.eq_of_start_eq lastMember member (by omega)]

namespace Tracker

theorem track?_eq_some {disk : Disk} {layout : Layout} {found : Occurrence}
    {tracked : TrackedPointer} (isTracked : track? disk layout found = some tracked) :
    ∃ pointer, Pointer.parse found.text = .ok pointer ∧
      tracked = { pointer, start := found.start, stop := found.stop, definitionLine := found.line
                  target? := layout.target? disk pointer } := by
  unfold track? at isTracked
  split at isTracked
  · cases isTracked
  · next pointer parsed =>
    cases isTracked
    exact ⟨pointer, parsed, rfl⟩

theorem spaced_extract (disk : Disk) (layout : Layout) (text : Text) :
    Spaced (extract disk layout text) where
  disjoint := by
    refine (Occurrence.findAll_disjoint text).filterMap _ ?_
    intro left right apart first isFirst second isSecond
    obtain ⟨_, _, rfl⟩ := track?_eq_some isFirst
    obtain ⟨_, _, rfl⟩ := track?_eq_some isSecond
    exact apart
  start_lt_stop := by
    intro tracked member
    obtain ⟨found, inText, isTracked⟩ := List.mem_filterMap.mp member
    obtain ⟨_, _, rfl⟩ := track?_eq_some isTracked
    exact Occurrence.start_lt_stop inText

theorem target?_of_mem_extract {disk : Disk} {layout : Layout} {text : Text}
    {tracked : TrackedPointer} (member : tracked ∈ extract disk layout text) :
    tracked.target? = layout.target? disk tracked.pointer := by
  obtain ⟨_, _, isTracked⟩ := List.mem_filterMap.mp member
  obtain ⟨pointer, _, rfl⟩ := track?_eq_some isTracked
  rfl

def Carries (reference : Reference) (tracked : TrackedPointer) : Prop :=
  reference.start = tracked.start ∧ reference.stop = tracked.stop ∧
    reference.definitionLine = tracked.definitionLine

structure Coupled (tracker : Tracker) : Prop where
  consistent : tracker.index.Consistent
  stored : ∀ {source tracked target lines}, tracked ∈ tracker.pointersOf source →
    tracked.pointsTo target lines = true → (tracker.index.stored? target lines source).isSome
  carried : ∀ {target lines source reference},
    tracker.index.stored? target lines source = some reference →
      ∃ tracked ∈ tracker.pointersOf source, tracked.pointsTo target lines = true ∧
        Carries reference tracked
  nonempty : ∀ source, tracker.tracked.get? source ≠ some []
  spaced : ∀ source, Spaced (tracker.pointersOf source)

theorem coupled_ofLayout (layout : Layout) (settings : Settings) :
    (ofLayout layout settings).Coupled where
  consistent := ReferenceIndex.consistent_empty
  stored member := nomatch member
  carried found := nomatch found
  nonempty _ found := nomatch found
  spaced _ := ⟨List.Pairwise.nil, fun _ member => nomatch member⟩

theorem coupled_clear {tracker : Tracker} : tracker.clear.Coupled where
  consistent := .clear _
  stored member := nomatch member
  carried found := nomatch found
  nonempty _ found := nomatch found
  spaced _ := ⟨List.Pairwise.nil, fun _ member => nomatch member⟩

theorem carries_of_lastInto? {pointers : List TrackedPointer} {target : Path} {lines : LineRange}
    {source : Path} {reference : Reference}
    (found : (lastInto? pointers target lines).map (·.reference source) = some reference) :
    ∃ tracked ∈ pointers, tracked.pointsTo target lines = true ∧ Carries reference tracked := by
  obtain ⟨tracked, isLast, rfl⟩ := Option.map_eq_some_iff.mp found
  obtain ⟨member, points⟩ := mem_of_lastInto? isLast
  exact ⟨tracked, member, points, rfl, rfl, rfl⟩

theorem Coupled.reindexAt {tracker : Tracker} (coupled : tracker.Coupled) (disk : Disk)
    (file : Path) (text : Text) (number : Nat) :
    (tracker.reindexAt disk file text number).1.Coupled := by
  by_cases older : number < tracker.appliedTo file
  · rw [reindexAt_of_lt older]
    exact coupled
  constructor
  case consistent => exact consistent_reindexAt coupled.consistent disk file text number
  case stored =>
    intro source tracked target lines member points
    rw [pointersOf_reindexAt older] at member
    rw [stored?_reindexAt older disk text coupled.consistent]
    split at member
    · next same =>
      rw [if_pos same, Option.isSome_map, lastInto?_isSome_iff]
      exact ⟨tracked, member, points⟩
    · next differs =>
      rw [if_neg differs]
      exact coupled.stored member points
  case carried =>
    intro target lines source reference found
    rw [stored?_reindexAt older disk text coupled.consistent] at found
    rw [pointersOf_reindexAt older]
    split at found
    · next same =>
      rw [if_pos same]
      exact carries_of_lastInto? found
    · next differs =>
      rw [if_neg differs]
      exact coupled.carried found
  case nonempty =>
    intro source
    rw [tracked_reindexAt older]
    split
    · unfold kept?
      split
      · nofun
      · next notEmpty => simpa [List.isEmpty_iff] using notEmpty
    · exact coupled.nonempty source
  case spaced =>
    intro source
    rw [pointersOf_reindexAt older]
    split
    · exact spaced_extract disk tracker.layout text
    · exact coupled.spaced source

theorem map_ne_some_nil {pointers? : Option (List TrackedPointer)}
    {change : TrackedPointer → TrackedPointer} (nonempty : pointers? ≠ some []) :
    pointers?.map (List.map change) ≠ some [] := by
  intro isEmpty
  obtain ⟨pointers, rfl, mapped⟩ := Option.map_eq_some_iff.mp isEmpty
  rw [List.map_eq_nil_iff.mp mapped] at nonempty
  exact nonempty rfl

theorem Coupled.forget {tracker : Tracker} (coupled : tracker.Coupled) (file : Path) :
    (tracker.forget file).Coupled where
  consistent := consistent_forget coupled.consistent file
  stored {source tracked target lines} member points := by
    rw [pointersOf_forget] at member
    split at member
    · cases member
    · next otherSource =>
      obtain ⟨old, inOld, rfl⟩ := List.mem_map.mp member
      rw [pointsTo_release, Bool.and_eq_true, Bool.not_eq_true'] at points
      rw [stored?_forget coupled.consistent, if_neg (by simp [points.2, otherSource])]
      exact coupled.stored inOld points.1
  carried {target lines source reference} found := by
    rw [stored?_forget coupled.consistent] at found
    split at found
    · cases found
    · next others =>
      rw [not_or, Bool.not_eq_true, Bool.not_eq_true] at others
      obtain ⟨old, inOld, points, carries⟩ := coupled.carried found
      rw [pointersOf_forget, if_neg (by simp [others.2])]
      refine ⟨release file old, List.mem_map_of_mem inOld, ?_, ?_⟩
      · rw [pointsTo_release, points, others.1]
        rfl
      · rw [release_eq]
        exact carries
  nonempty source := by
    rw [tracked_forget]
    split
    · nofun
    · exact map_ne_some_nil (coupled.nonempty source)
  spaced source := by
    rw [pointersOf_forget]
    split
    · exact ⟨List.Pairwise.nil, fun _ member => nomatch member⟩
    · exact (coupled.spaced source).map (fun tracked => by rw [release_eq])
        fun tracked => by rw [release_eq]

theorem pointer_renew (disk : Disk) (layout : Layout) (tracked : TrackedPointer) :
    (renew disk layout tracked).pointer = tracked.pointer ∧
      (renew disk layout tracked).target? =
        tracked.target?.or (layout.target? disk tracked.pointer) := by
  unfold renew
  cases isTarget : tracked.target? with
  | none => exact ⟨rfl, rfl⟩
  | some target => exact ⟨rfl, isTarget⟩

theorem start_renew (disk : Disk) (layout : Layout) (tracked : TrackedPointer) :
    (renew disk layout tracked).start = tracked.start := by
  unfold renew
  split <;> rfl

theorem stop_renew (disk : Disk) (layout : Layout) (tracked : TrackedPointer) :
    (renew disk layout tracked).stop = tracked.stop := by
  unfold renew
  split <;> rfl

theorem renew_of_pointsTo (disk : Disk) (layout : Layout) {tracked : TrackedPointer}
    {target : Path} {lines : LineRange} (points : tracked.pointsTo target lines = true) :
    renew disk layout tracked = tracked := by
  exact renew_of_not_isPending disk layout (TrackedPointer.not_isPending_of_pointsTo points)

theorem Coupled.retryPending {tracker : Tracker} (coupled : tracker.Coupled) (disk : Disk) :
    (tracker.retryPending disk).1.Coupled where
  consistent := consistent_retryPending coupled.consistent disk
  stored {source tracked target lines} member points := by
    obtain ⟨spelled, _, stored⟩ := stored?_retryPending coupled.consistent disk source
    rw [stored, Option.isSome_or, Bool.or_eq_true, Option.isSome_map, lastInto?_isSome_iff]
    rw [pointersOf_retryPending] at member
    obtain ⟨old, inOld, rfl⟩ := List.mem_map.mp member
    -- A pointer to the target was either stored before or is one that the retry resolves.
    by_cases pending : old.isPending = true
    · have resolves := TrackedPointer.not_isPending_of_pointsTo points
      exact .inl ⟨_, mem_resolvable_iff.mpr ⟨resolves, old, inOld, pending, rfl⟩, points⟩
    · rw [renew_of_not_isPending disk tracker.layout (Bool.eq_false_iff.mpr pending)] at points
      exact .inr (coupled.stored inOld points)
  carried {target lines source reference} found := by
    obtain ⟨spelled, _, stored⟩ := stored?_retryPending coupled.consistent disk source
    rw [stored, Option.or_eq_some_iff] at found
    rw [pointersOf_retryPending]
    rcases found with added | ⟨_, before⟩
    · obtain ⟨tracked, member, points, carries⟩ := carries_of_lastInto? added
      obtain ⟨_, old, inOld, _, rfl⟩ := mem_resolvable_iff.mp member
      exact ⟨_, List.mem_map_of_mem inOld, points, carries⟩
    · obtain ⟨old, inOld, points, carries⟩ := coupled.carried before
      refine ⟨old, List.mem_map.mpr ⟨old, inOld, ?_⟩, points, carries⟩
      exact renew_of_pointsTo disk tracker.layout points
  nonempty source := by
    rw [tracked_retryPending]
    exact map_ne_some_nil (coupled.nonempty source)
  spaced source := by
    rw [pointersOf_retryPending]
    exact (coupled.spaced source).map (start_renew disk tracker.layout)
      (stop_renew disk tracker.layout)

theorem Coupled.congr {left right : Tracker} (coupled : right.Coupled)
    (tracked : left.tracked = right.tracked) (index : left.index = right.index) :
    left.Coupled := by
  obtain ⟨_, _, leftIndex, leftTracked, _, _, _⟩ := left
  dsimp only at tracked index
  subst tracked index
  exact ⟨coupled.consistent, coupled.stored, coupled.carried, coupled.nonempty, coupled.spaced⟩

theorem Coupled.move {disk : Disk} {guard : Guard} {tracker next : Tracker}
    (move : Move disk guard tracker next) (coupled : tracker.Coupled) : next.Coupled := by
  cases move with
  | reserve => exact coupled.congr rfl rfl
  | forgetText => exact coupled.congr rfl rfl
  | read => exact coupled.congr rfl rfl
  | reindexAt file text number => exact coupled.reindexAt disk file text number
  | forget file => exact coupled.forget file
  | retryPending => exact coupled.retryPending disk
  | clear => exact coupled_clear

theorem Reachable.coupled {tracker : Tracker} (reachable : tracker.Reachable) :
    tracker.Coupled := by
  obtain ⟨layout, settings, run⟩ := reachable
  exact run.invariant (fun _ _ _ move before => before.move move)
    (coupled_ofLayout layout settings)

/-- What a tracker lists under its targets is what its pointers are resolved to. -/
structure StoresAgree (tracker : Tracker) : Prop where
  triples : ∀ target lines source,
    (∃ reference, tracker.index.Stores target lines reference ∧
        (reference.source == source) = true) ↔
      ∃ pointers, tracker.tracked.get? source = some pointers ∧
        ∃ tracked ∈ pointers, tracked.pointer.lines = lines ∧
          ∃ own, tracked.target? = some own ∧ (own == target) = true
  carried : ∀ target lines reference, tracker.index.Stores target lines reference →
    reference.lines = lines ∧
      ∃ tracked ∈ tracker.pointersOf reference.source, tracked.pointer.lines = lines ∧
        (∃ own, tracked.target? = some own ∧ (own == target) = true) ∧
        reference.start = tracked.start ∧ reference.stop = tracked.stop ∧
        reference.definitionLine = tracked.definitionLine
  unique : ∀ target lines left right, tracker.index.Stores target lines left →
    tracker.index.Stores target lines right → (left.source == right.source) = true → left = right
  nonempty : ∀ source, tracker.tracked.get? source ≠ some []
  increasing : ∀ source, (tracker.pointersOf source).Pairwise fun left right =>
    left.start < right.start ∧ left.stop ≤ right.start
  spans : ∀ source, ∀ tracked ∈ tracker.pointersOf source, tracked.start < tracked.stop
  pending : ∀ source, ∀ tracked ∈ tracker.pointersOf source, tracked.target? = none →
    ∀ target lines reference, tracker.index.Stores target lines reference →
      (reference.source == source) = true → reference.start ≠ tracked.start
  resolved : ∀ source, ∀ tracked ∈ tracker.pointersOf source, ∀ target,
    tracked.target? = some target → ∃ reference,
      tracker.index.Stores target tracked.pointer.lines reference ∧
        (reference.source == source) = true

theorem Coupled.exists_stores_iff {tracker : Tracker} (coupled : tracker.Coupled)
    (target : Path) (lines : LineRange) (source : Path) :
    (∃ reference, tracker.index.Stores target lines reference ∧
        (reference.source == source) = true) ↔
      ∃ tracked ∈ tracker.pointersOf source, tracked.pointsTo target lines = true := by
  simp only [ReferenceIndex.stores_iff coupled.consistent]
  constructor
  · rintro ⟨reference, found, same⟩
    obtain ⟨tracked, member, points, _⟩ := coupled.carried found
    rw [tracker.pointersOf_congr same] at member
    exact ⟨tracked, member, points⟩
  · rintro ⟨tracked, member, points⟩
    obtain ⟨reference, found⟩ := Option.isSome_iff_exists.mp (coupled.stored member points)
    have same := ReferenceIndex.source_of_stored? found
    rw [← tracker.index.stored?_congr lines BEq.rfl same] at found
    exact ⟨reference, found, same⟩

theorem exists_pointersOf_iff {tracker : Tracker} {source : Path}
    {property : TrackedPointer → Prop} :
    (∃ tracked ∈ tracker.pointersOf source, property tracked) ↔
      ∃ pointers, tracker.tracked.get? source = some pointers ∧
        ∃ tracked ∈ pointers, property tracked := by
  unfold pointersOf
  cases tracker.tracked.get? source <;> simp

theorem Coupled.start_ne_of_isPending {tracker : Tracker} (coupled : tracker.Coupled)
    {source : Path} {tracked : TrackedPointer} (member : tracked ∈ tracker.pointersOf source)
    (pending : tracked.target? = none) {target : Path} {lines : LineRange} {reference : Reference}
    (found : tracker.index.stored? target lines source = some reference) :
    reference.start ≠ tracked.start := by
  intro sameStart
  obtain ⟨other, otherMember, points, start, _⟩ := coupled.carried found
  have same := (coupled.spaced source).eq_of_start_eq otherMember member (start ▸ sameStart)
  rw [same, TrackedPointer.not_pointsTo_of_isPending] at points
  · cases points
  · rw [TrackedPointer.isPending, pending]
    rfl

theorem Reachable.storesAgree {tracker : Tracker} (reachable : tracker.Reachable) :
    tracker.StoresAgree := by
  have coupled := reachable.coupled
  constructor
  · intro target lines source
    rw [coupled.exists_stores_iff, exists_pointersOf_iff]
    simp only [TrackedPointer.pointsTo_iff]
  · intro target lines reference isStored
    rw [ReferenceIndex.stores_iff coupled.consistent] at isStored
    obtain ⟨tracked, member, points, carries⟩ := coupled.carried isStored
    obtain ⟨sameLines, isTarget⟩ := TrackedPointer.pointsTo_iff.mp points
    exact ⟨ReferenceIndex.lines_of_stored? coupled.consistent.targets isStored, tracked, member,
      sameLines, isTarget, carries⟩
  · intro target lines left right isLeft isRight same
    rw [ReferenceIndex.stores_iff coupled.consistent] at isLeft isRight
    rw [tracker.index.stored?_congr lines BEq.rfl same, isRight] at isLeft
    exact (Option.some.inj isLeft).symm
  · exact coupled.nonempty
  · exact fun source => (coupled.spaced source).increasing
  · exact fun source => (coupled.spaced source).start_lt_stop
  · intro source tracked member pending target lines reference isStored same
    rw [ReferenceIndex.stores_iff coupled.consistent,
      tracker.index.stored?_congr lines BEq.rfl same] at isStored
    exact coupled.start_ne_of_isPending member pending isStored
  · intro source tracked member target isTarget
    rw [coupled.exists_stores_iff]
    exact ⟨tracked, member,
      TrackedPointer.pointsTo_iff.mpr ⟨rfl, target, isTarget, BEq.rfl⟩⟩

theorem storesAgree_of_two_pointers :
    let disk := Disk.empty.write (.ofText "/w/m/x.rs".toList) { content := .text [], modified := 0 }
    let start : Tracker := .ofLayout ⟨.ofText "/w".toList, []⟩ .default
    let tracker := (start.reindex disk (.ofText "/w/a".toList) "@m/x.rs:L1 @m/y.rs:L2".toList).1
    tracker.Reachable ∧ tracker.StoresAgree ∧ tracker.index.size = 1 ∧
      tracker.pendingCount = 1 := by
  intro disk start tracker
  have reachable : tracker.Reachable := ⟨_, _, .perform disk (.reindex _ _) (.refl _)⟩
  exact ⟨reachable, reachable.storesAgree, by decide, by decide⟩

end Tracker

end CodePointers
