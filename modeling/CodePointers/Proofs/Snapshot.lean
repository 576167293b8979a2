import CodePointers.Proofs.PathOrder
import CodePointers.Proofs.ReferenceIndex.Entries
import CodePointers.Proofs.Sorted
import CodePointers.Snapshot

/-!
The dump of an index depends on what is stored and on nothing else: not on the order in which the
references came in, nor on the version.
-/

namespace CodePointers

theorem Reference.beq_iff {left right : Reference} :
    (left == right) = true ↔
      (left.source == right.source) = true ∧ left.start = right.start ∧ left.stop = right.stop ∧
        left.lines = right.lines ∧ left.definitionLine = right.definitionLine := by
  cases left
  cases right
  simp [BEq.beq, instBEqReference.beq]

instance : EquivBEq Reference where
  symm same := by
    obtain ⟨source, start, stop, lines, definitionLine⟩ := Reference.beq_iff.mp same
    exact Reference.beq_iff.mpr
      ⟨BEq.symm source, start.symm, stop.symm, lines.symm, definitionLine.symm⟩
  trans first second := by
    obtain ⟨source, start, stop, lines, definitionLine⟩ := Reference.beq_iff.mp first
    obtain ⟨source', start', stop', lines', definitionLine'⟩ := Reference.beq_iff.mp second
    exact Reference.beq_iff.mpr ⟨BEq.trans source source', start.trans start', stop.trans stop',
      lines.trans lines', definitionLine.trans definitionLine'⟩

instance : EquivBEq (Option Reference) where
  rfl {reference?} := by
    cases reference? with
    | none => rfl
    | some reference =>
        rw [Option.some_beq_some]
        exact BEq.rfl
  symm {left right} same := by
    cases left <;> cases right
    · rfl
    · cases same
    · cases same
    · rw [Option.some_beq_some] at same ⊢
      exact BEq.symm same
  trans {first second third} same also := by
    cases first <;> cases second <;> cases third
    · rfl
    · cases also
    · cases same
    · cases same
    · cases same
    · cases same
    · cases also
    · rw [Option.some_beq_some] at same also ⊢
      exact BEq.trans same also

namespace ReferenceIndex

def SameStored (left right : ReferenceIndex) : Prop :=
  ∀ target lines source, left.stored? target lines source = right.stored? target lines source

/-- Whether the same references are stored, the spelling of their sources left aside. -/
def SimilarStored (left right : ReferenceIndex) : Prop :=
  ∀ target lines source,
    (left.stored? target lines source == right.stored? target lines source) = true

theorem SameStored.similar {left right : ReferenceIndex} (same : SameStored left right) :
    SimilarStored left right := by
  intro target lines source
  rw [same]
  exact BEq.rfl

theorem SimilarStored.symm {left right : ReferenceIndex} (similar : SimilarStored left right) :
    SimilarStored right left := fun target lines source => BEq.symm (similar target lines source)

theorem SimilarStored.exists_stored {left right : ReferenceIndex}
    (similar : SimilarStored left right) {target source : Path} {lines : LineRange}
    {reference : Reference} (found : left.stored? target lines source = some reference) :
    ∃ other, right.stored? target lines source = some other ∧ (reference == other) = true := by
  have same := similar target lines source
  rw [found] at same
  cases inRight : right.stored? target lines source with
  | none => rw [inRight] at same; cases same
  | some other => rw [inRight] at same; exact ⟨other, rfl, same⟩

instance : Std.TransCmp Reference.bySource :=
  inferInstanceAs
    (Std.TransCmp (compareLex (compareOn Reference.source) (compareOn Reference.start)))

theorem source_of_bySource {left right : Reference}
    (equal : Reference.bySource left right = .eq) : (left.source == right.source) = true :=
  Path.compare_eq_iff.mp (Ordering.then_eq_eq.mp equal).1

theorem bySource_ne_eq {left right : Reference} (differ : (left.source == right.source) = false) :
    Reference.bySource left right ≠ .eq := by
  intro equal
  rw [source_of_bySource equal] at differ
  cases differ

theorem bySource_of_beq {left right : Reference} (same : (left == right) = true) :
    Reference.bySource left right = .eq := by
  obtain ⟨source, start, _⟩ := Reference.beq_iff.mp same
  refine Ordering.then_eq_eq.mpr ⟨Path.compare_eq_iff.mpr source, ?_⟩
  rw [compareOn, start]
  exact Std.ReflCmp.compare_self

/-! One list of references. -/

section References

variable {left right : ReferenceIndex} (leftConsistent : left.Consistent)
  (rightConsistent : right.Consistent) (similar : SimilarStored left right)
  {target target' : Path} (sameTarget : target == target') {leftRanges rightRanges : RangeMap}
  {lines : LineRange} {leftReferences rightReferences : List Reference}
  (leftTarget : left.targets.get? target = some leftRanges)
  (leftLines : leftRanges.get? lines = some leftReferences)
  (rightTarget : right.targets.get? target' = some rightRanges)
  (rightLines : rightRanges.get? lines = some rightReferences)
include leftConsistent rightConsistent similar sameTarget leftTarget leftLines rightTarget
  rightLines

theorem exists_similar {reference : Reference} (member : reference ∈ leftReferences) :
    ∃ other ∈ rightReferences, (reference == other) = true := by
  rw [mem_of_get?_iff leftConsistent leftTarget leftLines] at member
  obtain ⟨other, found, same⟩ := similar.exists_stored member
  have source := (Reference.beq_iff.mp same).1
  rw [right.stored?_congr lines sameTarget source] at found
  exact ⟨other, (mem_of_get?_iff rightConsistent rightTarget rightLines).mpr found, same⟩

theorem sorted_references_beq :
    (sorted Reference.bySource leftReferences == sorted Reference.bySource rightReferences) =
      true := by
  have leftSound := (leftConsistent.targets leftTarget).references leftLines
  have rightSound := (rightConsistent.targets rightTarget).references rightLines
  have inRight {reference : Reference} (member : reference ∈ leftReferences) :=
    exists_similar leftConsistent rightConsistent similar sameTarget leftTarget leftLines
      rightTarget rightLines member
  have inLeft {reference : Reference} (member : reference ∈ rightReferences) :=
    exists_similar rightConsistent leftConsistent similar.symm (BEq.symm sameTarget) rightTarget
      rightLines leftTarget leftLines member
  have related := forall₂_sorted (leftSound.distinct.imp bySource_ne_eq)
    (rightSound.distinct.imp bySource_ne_eq)
    (fun value member => by
      obtain ⟨other, otherMember, same⟩ := inRight member
      exact ⟨other, otherMember, bySource_of_beq same⟩)
    (fun other member => by
      obtain ⟨value, valueMember, same⟩ := inLeft member
      exact ⟨value, valueMember, bySource_of_beq (BEq.symm same)⟩)
  refine beq_of_forall₂ (forall₂_of_mem related fun value member other otherMember equal => ?_)
  -- Sources are distinct in a list, so the two of one source are the similar ones.
  rw [mem_sorted] at member otherMember
  obtain ⟨found, foundMember, same⟩ := inRight member
  have sameSource := BEq.trans (BEq.symm (Reference.beq_iff.mp same).1) (source_of_bySource equal)
  rw [mem_of_get?_iff rightConsistent rightTarget rightLines] at foundMember otherMember
  rw [right.stored?_congr lines BEq.rfl sameSource, otherMember] at foundMember
  rw [Option.some.inj foundMember]
  exact same

end References

/-! The ranges of a target. -/

theorem compareOn_ne_eq {κ : Type} [Ord κ] [Std.LawfulEqOrd κ] {α : Type} (key : α → κ)
    {left right : α} (differ : key left ≠ key right) : compareOn key left right ≠ .eq :=
  fun equal => differ (Std.LawfulEqOrd.eq_of_compare equal)

def rangeEntries (index : ReferenceIndex) (target : Path) : List RangeEntry :=
  (index.entries target).map fun (range, references) => Tracker.rangeEntry range references

theorem rangeEntries_distinct (index : ReferenceIndex) (target : Path) :
    (index.rangeEntries target).Pairwise
      fun left right => compareOn RangeEntry.range left right ≠ .eq := by
  refine List.pairwise_map.mpr ((index.rangesOf target).distinct.imp ?_)
  intro left right apart
  exact compareOn_ne_eq RangeEntry.range (beq_eq_false_iff_ne.mp apart)

theorem RangeEntry.beq_iff {left right : RangeEntry} :
    (left == right) = true ↔
      left.range = right.range ∧ (left.references == right.references) = true := by
  cases left
  cases right
  simp [BEq.beq, instBEqRangeEntry.beq]

theorem get?_of_mem_rangeEntries {index : ReferenceIndex} {target : Path} {entry : RangeEntry}
    (member : entry ∈ index.rangeEntries target) :
    ∃ ranges references, index.targets.get? target = some ranges ∧
      ranges.get? entry.range = some references ∧
      entry.references = sorted Reference.bySource references := by
  obtain ⟨⟨lines, references⟩, inEntries, rfl⟩ := List.mem_map.mp member
  cases hasTarget : index.targets.get? target with
  | none => simp [entries, rangesOf, hasTarget, OrderedMap.empty] at inEntries
  | some ranges =>
      rw [entries_of_get? hasTarget] at inEntries
      exact ⟨ranges, references, rfl, OrderedMap.get?_of_mem inEntries BEq.rfl, rfl⟩

theorem exists_rangeEntry {left right : ReferenceIndex} (leftConsistent : left.Consistent)
    (rightConsistent : right.Consistent) (similar : SimilarStored left right)
    {target target' : Path} (sameTarget : target == target') {entry : RangeEntry}
    (member : entry ∈ left.rangeEntries target) :
    ∃ other ∈ right.rangeEntries target', compareOn RangeEntry.range entry other = .eq := by
  obtain ⟨ranges, references, hasTarget, hasLines, _⟩ := get?_of_mem_rangeEntries member
  obtain ⟨source, isStored⟩ := (exists_ranges_iff leftConsistent target entry.range).mp
    ⟨ranges, references, hasTarget, hasLines⟩
  obtain ⟨reference, found⟩ := Option.isSome_iff_exists.mp isStored
  obtain ⟨other, inRight, _⟩ := similar.exists_stored found
  rw [right.stored?_congr entry.range sameTarget BEq.rfl] at inRight
  obtain ⟨rightRanges, rightReferences, rightTarget, rightLines⟩ :=
    (exists_ranges_iff rightConsistent target' entry.range).mpr
      ⟨source, Option.isSome_of_eq_some inRight⟩
  obtain ⟨stored, rightMember, sameLines⟩ := OrderedMap.exists_mem_of_get? rightLines
  rw [beq_iff_eq] at sameLines
  refine ⟨Tracker.rangeEntry stored rightReferences, ?_, ?_⟩
  · rw [rangeEntries, entries_of_get? rightTarget]
    exact List.mem_map.mpr ⟨_, rightMember, rfl⟩
  · rw [compareOn, Tracker.rangeEntry, sameLines]
    exact Std.ReflCmp.compare_self

theorem sorted_rangeEntries_beq {left right : ReferenceIndex} (leftConsistent : left.Consistent)
    (rightConsistent : right.Consistent) (similar : SimilarStored left right)
    {target target' : Path} (sameTarget : target == target') :
    (sorted (compareOn RangeEntry.range) (left.rangeEntries target) ==
      sorted (compareOn RangeEntry.range) (right.rangeEntries target')) = true := by
  have related := forall₂_sorted (left.rangeEntries_distinct target)
    (right.rangeEntries_distinct target')
    (fun entry member => exists_rangeEntry leftConsistent rightConsistent similar sameTarget member)
    (fun entry member => by
      obtain ⟨other, otherMember, equal⟩ := exists_rangeEntry rightConsistent leftConsistent
        similar.symm (BEq.symm sameTarget) member
      exact ⟨other, otherMember, Std.OrientedCmp.eq_symm equal⟩)
  refine beq_of_forall₂ (forall₂_of_mem related fun entry member other otherMember equal => ?_)
  rw [mem_sorted] at member otherMember
  have sameRange : entry.range = other.range := Std.LawfulEqOrd.eq_of_compare equal
  obtain ⟨leftRanges, leftReferences, leftTarget, leftLines, isLeft⟩ :=
    get?_of_mem_rangeEntries member
  obtain ⟨rightRanges, rightReferences, rightTarget, rightLines, isRight⟩ :=
    get?_of_mem_rangeEntries otherMember
  rw [← sameRange] at rightLines
  rw [RangeEntry.beq_iff, isLeft, isRight]
  exact ⟨sameRange, sorted_references_beq leftConsistent rightConsistent similar sameTarget
    leftTarget leftLines rightTarget rightLines⟩

/-! The targets. -/

theorem files_distinct (index : ReferenceIndex) :
    index.files.Pairwise fun left right => compare left right ≠ .eq := by
  refine index.targets.keys_distinct.imp ?_
  intro left right apart equal
  rw [Path.compare_eq_iff.mp equal] at apart
  cases apart

theorem exists_file_of_similarStored {left right : ReferenceIndex}
    (leftConsistent : left.Consistent)
    (rightConsistent : right.Consistent) (similar : SimilarStored left right) {file : Path}
    (member : file ∈ left.files) : ∃ other ∈ right.files, compare file other = .eq := by
  have hasTarget : (left.targets.get? file).isSome :=
    OrderedMap.get?_isSome_iff.mpr ⟨file, member, BEq.rfl⟩
  obtain ⟨lines, source, isStored⟩ := (exists_target_iff leftConsistent file).mp hasTarget
  obtain ⟨reference, found⟩ := Option.isSome_iff_exists.mp isStored
  obtain ⟨stored, inRight, _⟩ := similar.exists_stored found
  have alsoTarget := (exists_target_iff rightConsistent file).mpr
    ⟨lines, source, Option.isSome_of_eq_some inRight⟩
  obtain ⟨other, otherMember, sameFile⟩ := OrderedMap.get?_isSome_iff.mp alsoTarget
  exact ⟨other, otherMember, Path.compare_eq_iff.mpr (BEq.symm sameFile)⟩

theorem forall₂_files {left right : ReferenceIndex} (leftConsistent : left.Consistent)
    (rightConsistent : right.Consistent) (similar : SimilarStored left right) :
    List.Forall₂ (fun file other => compare file other = .eq) (sorted compare left.files)
      (sorted compare right.files) := by
  refine forall₂_sorted left.files_distinct right.files_distinct ?_ ?_
  · intro file member
    exact exists_file_of_similarStored leftConsistent rightConsistent similar member
  · intro other member
    obtain ⟨file, fileMember, equal⟩ :=
      exists_file_of_similarStored rightConsistent leftConsistent similar.symm member
    exact ⟨file, fileMember, Std.OrientedCmp.eq_symm equal⟩

end ReferenceIndex

namespace Tracker

def targetEntry (tracker : Tracker) (file : Path) : TargetEntry :=
  { file, ranges := sorted (compareOn RangeEntry.range) (tracker.index.rangeEntries file) }

theorem snapshot_eq_map (tracker : Tracker) :
    tracker.snapshot = (sorted compare tracker.index.files).map tracker.targetEntry := rfl

theorem targetEntry_beq {left right : Tracker} {file other : Path} (sameFile : file == other)
    (ranges : ((left.targetEntry file).ranges == (right.targetEntry other).ranges) = true) :
    (left.targetEntry file == right.targetEntry other) = true := by
  change (file == other && _ == _) = true
  rw [sameFile]
  exact ranges

/-- Snapshots are compared like the paths in them: how a source or a target is spelled does not
matter. -/
theorem snapshot_beq_of_similarStored {left right : Tracker}
    (leftConsistent : left.index.Consistent) (rightConsistent : right.index.Consistent)
    (similar : left.index.SimilarStored right.index) :
    (left.snapshot == right.snapshot) = true := by
  rw [snapshot_eq_map, snapshot_eq_map]
  have related := ReferenceIndex.forall₂_files leftConsistent rightConsistent similar
  refine beq_of_forall₂ (List.forall₂_map_left_iff.mpr (List.forall₂_map_right_iff.mpr ?_))
  refine related.imp fun file other equal => ?_
  have sameFile := Path.compare_eq_iff.mp equal
  exact targetEntry_beq sameFile
    (ReferenceIndex.sorted_rangeEntries_beq leftConsistent rightConsistent similar sameFile)

theorem snapshot_beq_of_sameStored {left right : Tracker} (leftConsistent : left.index.Consistent)
    (rightConsistent : right.index.Consistent) (same : left.index.SameStored right.index) :
    (left.snapshot == right.snapshot) = true :=
  snapshot_beq_of_similarStored leftConsistent rightConsistent same.similar

end Tracker

end CodePointers
