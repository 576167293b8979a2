import CodePointers.Proofs.Tracker.LastReferences

/-!
What reindexing a file replaces: what the file itself points at, and nothing else. References into
the file stay, also those that share a target and a range with one that goes, and repeating the
request finds everything in place.
-/

namespace CodePointers

namespace Tracker

/-- A reference that the text of a file produces: it comes from a pointer of the text that is on
the disk resolved to the target. -/
structure Produces (disk : Disk) (layout : Layout) (file : Path) (text : Text) (target : Path)
    (lines : LineRange) (reference : Reference) (found : Occurrence) (pointer : Pointer) :
    Prop where
  inText : found ∈ Occurrence.findAll text
  parsed : Pointer.parse found.text = .ok pointer
  resolved : ∃ own, layout.target? disk pointer = some own ∧ (own == target) = true
  lines_eq : pointer.lines = lines
  reference_eq : reference =
    { source := file, start := found.start, stop := found.stop, lines
      definitionLine := found.line }

/-- Whether a tracker is what another one becomes when the pointers of a file are replaced by those
of a text, as the request of a number. -/
structure ReplacesOwn (disk : Disk) (file : Path) (text : Text) (number : Nat)
    (before after : Tracker) : Prop where
  othersStored : ∀ target lines reference, (file == reference.source) = false →
    (after.index.Stores target lines reference ↔ before.index.Stores target lines reference)
  othersTracked : ∀ source, (file == source) = false →
    after.tracked.get? source = before.tracked.get? source
  pointers : after.pointersOf file = extract disk before.layout text
  stored : ∀ target lines reference, (file == reference.source) = true →
    (after.index.Stores target lines reference ↔
      (lastInto? (extract disk before.layout text) target lines).map (·.reference file) =
        some reference)
  produced : ∀ target lines reference, (file == reference.source) = true →
    after.index.Stores target lines reference →
      ∃ found pointer, Produces disk before.layout file text target lines reference found pointer
  /-- The same request once more, however the file is spelled in it, changes nothing. -/
  again : ∀ spelled later, (file == spelled) = true → number ≤ later →
    (after.reindexAt disk spelled text later).2.superseded = false ∧
      SameContents (after.reindexAt disk spelled text later).1 after

theorem exists_produces {disk : Disk} {layout : Layout} {file target : Path} {text : Text}
    {lines : LineRange} {reference : Reference}
    (isLast : (lastInto? (extract disk layout text) target lines).map (·.reference file) =
      some reference) :
    ∃ found pointer, Produces disk layout file text target lines reference found pointer := by
  obtain ⟨tracked, isTracked, rfl⟩ := Option.map_eq_some_iff.mp isLast
  obtain ⟨member, points⟩ := mem_of_lastInto? isTracked
  obtain ⟨found, inText, tracks⟩ := List.mem_filterMap.mp member
  obtain ⟨pointer, parsed, rfl⟩ := track?_eq_some tracks
  obtain ⟨rfl, resolved⟩ := TrackedPointer.pointsTo_iff.mp points
  exact ⟨found, pointer, inText, parsed, resolved, rfl, rfl⟩

theorem sameContents_reindexAt {tracker : Tracker} (coupled : tracker.Coupled) {disk : Disk}
    {file spelled : Path} {text : Text} {number : Nat} (same : file == spelled)
    (lists : Lists tracker file (extract disk tracker.layout text))
    (newer : ¬number < tracker.appliedTo spelled) :
    SameContents (tracker.reindexAt disk spelled text number).1 tracker := by
  have reindexed := lists_reindexAt coupled.consistent newer disk text
  refine sameContents_of_similar (coupled.reindexAt disk spelled text number) coupled
    fun source => ?_
  cases isSource : spelled == source with
  | true =>
      refine similar_of_keepsLast ?_ (reindexed.keepsLast.respell isSource)
        (lists.keepsLast.respell (BEq.trans same isSource))
      rw [tracked_reindexAt newer, if_pos isSource, ← lists.tracked]
      exact tracker.tracked.get?_congr (BEq.trans same isSource)
  | false => exact (sameSource_reindexAt coupled.consistent disk text number isSource).similar

/-- Reindexing a file replaces what it points at, and touches nothing else. -/
theorem Reachable.replacesOwn {tracker : Tracker} (reachable : tracker.Reachable) {disk : Disk}
    {file : Path} {text : Text} {number : Nat}
    (accepted : (tracker.reindexAt disk file text number).2.superseded = false) :
    ReplacesOwn disk file text number tracker (tracker.reindexAt disk file text number).1 := by
  have newer : ¬number < tracker.appliedTo file := by
    rw [← reindexAt_superseded_iff disk tracker file text number, accepted]
    exact Bool.false_ne_true
  have coupled := reachable.coupled
  have after := coupled.reindexAt disk file text number
  have lists := lists_reindexAt coupled.consistent newer disk text
  have stored (target : Path) (lines : LineRange) (reference : Reference)
      (own : (file == reference.source) = true) :
      (tracker.reindexAt disk file text number).1.index.Stores target lines reference ↔
        (lastInto? (extract disk tracker.layout text) target lines).map (·.reference file) =
          some reference := by
    rw [ReferenceIndex.stores_iff after.consistent,
      ← ReferenceIndex.stored?_congr _ lines BEq.rfl own, lists.stored]
  constructor
  · intro target lines reference other
    have unchanged := sameSource_reindexAt coupled.consistent disk text number other
    rw [ReferenceIndex.stores_iff after.consistent, ReferenceIndex.stores_iff coupled.consistent,
      unchanged.stored]
  · intro source other
    exact (sameSource_reindexAt coupled.consistent disk text number other).tracked
  · exact lists.pointersOf
  · exact stored
  · intro target lines reference own isStored
    exact exists_produces ((stored target lines reference own).mp isStored)
  · intro spelled later same notBelow
    have stillNewer :
        ¬later < (tracker.reindexAt disk file text number).1.appliedTo spelled := by
      rw [appliedTo_reindexAt_accepted newer, if_pos same]
      omega
    rw [← layout_reindexAt disk tracker file text number] at lists
    refine ⟨?_, sameContents_reindexAt after same lists stillNewer⟩
    rw [Bool.eq_false_iff, Ne, reindexAt_superseded_iff]
    exact stillNewer

theorem replacesOwn_of_shared_place :
    let layout : Layout := ⟨.ofText "/w".toList, []⟩
    let file := Path.ofText "/w/a.md".toList
    let other := Path.ofText "/w/b.md".toList
    let disk := Disk.empty.write file ⟨.text [], 0⟩
    let tracker := ((Tracker.ofLayout layout .default).perform disk
      (.reindex file "@w/a.md:L1 @w/a.md:L2".toList)).perform disk
      (.reindex other "@w/a.md:L1".toList)
    let after := (tracker.reindexAt disk file "@w/a.md:L1 @w/a.md:L1".toList 3).1
    tracker.Reachable ∧
      (tracker.reindexAt disk file "@w/a.md:L1 @w/a.md:L1".toList 3).2.superseded = false ∧
      ReplacesOwn disk file "@w/a.md:L1 @w/a.md:L1".toList 3 tracker after ∧
      tracker.index.size = 3 ∧ after.index.size = 2 ∧ (after.pointersOf file).length = 2 := by
  intro layout file other disk tracker after
  have reachable : tracker.Reachable :=
    ⟨_, _, .perform disk (.reindex _ _) (.perform disk (.reindex _ _) (.refl _))⟩
  have accepted : (tracker.reindexAt disk file "@w/a.md:L1 @w/a.md:L1".toList 3).2.superseded =
      false := by decide +kernel
  exact ⟨reachable, accepted, reachable.replacesOwn accepted, by decide +kernel⟩

end Tracker

end CodePointers
