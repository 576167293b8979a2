import CodePointers.Proofs.ReferenceIndex.Filings
import CodePointers.Proofs.ReferenceIndex.Queries
import CodePointers.Proofs.Tracker.Coupling
import Mathlib.Data.List.Dedup

/-!
How many references are stored. A source has one for each place that its pointers are resolved to,
however many of them are resolved to the same place.
-/

namespace CodePointers

namespace TrackedPointer

def place? (tracked : TrackedPointer) : Option (List Part × LineRange) :=
  tracked.target?.map fun target => (target.parts, tracked.pointer.lines)

theorem place?_eq_some_iff {tracked : TrackedPointer} {target : Path} {lines : LineRange} :
    tracked.place? = some (target.parts, lines) ↔ tracked.pointsTo target lines = true := by
  rw [pointsTo_iff, place?]
  simp only [Option.map_eq_some_iff, Prod.mk.injEq, Path.beq_iff]
  constructor
  · rintro ⟨own, isTarget, sameTarget, sameLines⟩
    exact ⟨sameLines, own, isTarget, sameTarget⟩
  · rintro ⟨sameLines, own, isTarget, sameTarget⟩
    exact ⟨own, isTarget, sameTarget, sameLines⟩

theorem isSome_place? (tracked : TrackedPointer) :
    tracked.place?.isSome = !tracked.isPending := by
  rw [place?, Option.isSome_map, isPending, Option.not_isNone]

end TrackedPointer

def placeCount (pointers : List TrackedPointer) : Nat :=
  (pointers.filterMap TrackedPointer.place?).dedup.length

def PlacesDistinct (pointers : List TrackedPointer) : Prop :=
  pointers.Pairwise fun left right => ∀ target lines,
    left.pointsTo target lines = true → right.pointsTo target lines = false

theorem placesDistinct_nil : PlacesDistinct [] := List.Pairwise.nil

theorem placesDistinct_iff {pointers : List TrackedPointer} :
    PlacesDistinct pointers ↔ (pointers.filterMap TrackedPointer.place?).Nodup := by
  rw [List.Nodup, List.pairwise_filterMap]
  refine List.Pairwise.iff fun left right => ?_
  constructor
  · intro apart place isLeft other isRight same
    obtain ⟨target, _, rfl⟩ := Option.map_eq_some_iff.mp isLeft
    have leftPoints := TrackedPointer.place?_eq_some_iff.mp isLeft
    have rightPoints :=
      TrackedPointer.place?_eq_some_iff.mp (isRight.trans (congrArg some same.symm))
    rw [apart target _ leftPoints] at rightPoints
    cases rightPoints
  · intro differ target lines leftPoints
    refine Bool.eq_false_iff.mpr fun rightPoints => ?_
    exact differ _ (TrackedPointer.place?_eq_some_iff.mpr leftPoints) _
      (TrackedPointer.place?_eq_some_iff.mpr rightPoints) rfl

theorem length_places (pointers : List TrackedPointer) :
    (pointers.filterMap TrackedPointer.place?).length =
      pointers.countP fun tracked => !tracked.isPending := by
  rw [List.length_filterMap_eq_countP]
  simp only [TrackedPointer.isSome_place?]

theorem placeCount_le (pointers : List TrackedPointer) :
    placeCount pointers ≤ pointers.countP fun tracked => !tracked.isPending := by
  rw [← length_places]
  exact (List.dedup_sublist _).length_le

theorem placeCount_eq_iff {pointers : List TrackedPointer} :
    (placeCount pointers = pointers.countP fun tracked => !tracked.isPending) ↔
      PlacesDistinct pointers := by
  rw [← length_places, placesDistinct_iff, ← List.dedup_eq_self]
  exact ⟨(List.dedup_sublist _).eq_of_length, congrArg List.length⟩

def Filing.place (filing : Filing) : List Part × LineRange :=
  (filing.target.parts, filing.reference.lines)

theorem Filing.sameKey_of_place_eq {left right : Filing} {source : Path}
    (leftFrom : left.isFrom source = true) (rightFrom : right.isFrom source = true)
    (same : left.place = right.place) : left.sameKey right = true := by
  obtain ⟨sameTarget, sameLines⟩ := Prod.mk.inj same
  exact Filing.sameKey_iff.mpr
    ⟨Path.beq_iff.mpr sameTarget, BEq.trans leftFrom (BEq.symm rightFrom), sameLines⟩

namespace Tracker

open ReferenceIndex

theorem Coupled.mem_places_iff {tracker : Tracker} (coupled : tracker.Coupled) {source : Path}
    {place : List Part × LineRange} :
    place ∈ (tracker.index.filings.filter (·.isFrom source)).map Filing.place ↔
      place ∈ (tracker.pointersOf source).filterMap TrackedPointer.place? := by
  rw [List.mem_map, List.mem_filterMap]
  constructor
  · rintro ⟨filing, member, rfl⟩
    obtain ⟨inFilings, isFrom⟩ := List.mem_filter.mp member
    have stores := stores_of_mem_filings coupled.consistent inFilings
    obtain ⟨tracked, inPointers, points⟩ :=
      (coupled.exists_stores_iff _ _ source).mp ⟨_, stores, isFrom⟩
    exact ⟨tracked, inPointers, TrackedPointer.place?_eq_some_iff.mpr points⟩
  · rintro ⟨tracked, inPointers, isPlace⟩
    obtain ⟨target, _, rfl⟩ := Option.map_eq_some_iff.mp isPlace
    have points := TrackedPointer.place?_eq_some_iff.mp isPlace
    obtain ⟨reference, stores, isFrom⟩ :=
      (coupled.exists_stores_iff _ _ source).mpr ⟨tracked, inPointers, points⟩
    obtain ⟨filing, inFilings, isInto, rfl⟩ := exists_mem_filings stores
    refine ⟨filing, List.mem_filter.mpr ⟨inFilings, isFrom⟩, ?_⟩
    rw [stores_iff coupled.consistent] at stores
    rw [Filing.place, Path.beq_iff.mp isInto, lines_of_stored? coupled.consistent.targets stores]

/-- Of a source as many references are stored as there are places that it points at. -/
theorem Coupled.countP_isFrom {tracker : Tracker} (coupled : tracker.Coupled) (source : Path) :
    tracker.index.filings.countP (·.isFrom source) = placeCount (tracker.pointersOf source) := by
  have distinct : ((tracker.index.filings.filter (·.isFrom source)).map Filing.place).Nodup := by
    refine List.pairwise_map.mpr
      (((filings_distinct coupled.consistent).filter _).imp_of_mem ?_)
    intro left right inLeft inRight apart same
    have sameKey := Filing.sameKey_of_place_eq (List.mem_filter.mp inLeft).2
      (List.mem_filter.mp inRight).2 same
    rw [apart] at sameKey
    cases sameKey
  have perm := (List.perm_ext_iff_of_nodup distinct (List.nodup_dedup _)).mpr fun place =>
    (coupled.mem_places_iff).trans List.mem_dedup.symm
  rw [placeCount, ← perm.length_eq, List.length_map, List.countP_eq_length_filter]

theorem Coupled.size_eq {tracker : Tracker} (coupled : tracker.Coupled) :
    tracker.index.size = tracker.tracked.total placeCount := by
  have perSource : tracker.tracked.values.map placeCount = tracker.tracked.keys.map fun source =>
      (tracker.index.filings.filter (·.isFrom source)).length := by
    rw [OrderedMap.values, OrderedMap.keys, List.map_map, List.map_map]
    refine List.map_congr_left fun entry member => ?_
    have pointers : tracker.pointersOf entry.1 = entry.2 := by
      rw [pointersOf, OrderedMap.get?_of_mem member BEq.rfl, Option.getD_some]
    rw [Function.comp_apply, Function.comp_apply, ← List.countP_eq_length_filter,
      coupled.countP_isFrom, pointers]
  have all : (tracker.index.filings.filter fun filing =>
      tracker.tracked.keys.any fun source => filing.isFrom source) = tracker.index.filings := by
    refine List.filter_eq_self.mpr fun filing member => ?_
    have stores := stores_of_mem_filings coupled.consistent member
    obtain ⟨pointers, isTracked, _⟩ := exists_pointersOf_iff.mp
      ((coupled.exists_stores_iff _ _ filing.reference.source).mp ⟨_, stores, BEq.rfl⟩)
    obtain ⟨listed, inKeys, same⟩ :=
      OrderedMap.get?_isSome_iff.mp (Option.isSome_of_eq_some isTracked)
    exact List.any_eq_true.mpr ⟨listed, inKeys, BEq.symm same⟩
  -- The filings are counted source by source: each belongs to one of the tracked sources only.
  have disjoint : tracker.tracked.keys.Pairwise fun left right =>
      ∀ filing ∈ tracker.index.filings,
        filing.isFrom left = true → filing.isFrom right = false := by
    refine tracker.tracked.keys_distinct.imp fun {left right} apart filing _ isLeft => ?_
    refine Bool.eq_false_iff.mpr fun isRight => ?_
    rw [BEq.trans (BEq.symm isLeft) isRight] at apart
    cases apart
  have perm := flatMap_filter_perm disjoint
  rw [all] at perm
  rw [size_eq_length_filings, ← perm.length_eq, List.length_flatMap, OrderedMap.total_eq_foldr,
    perSource, List.sum_eq_foldr]

end Tracker

end CodePointers
