import CodePointers.Proofs.Tracker.Events

/-!
The pointers of the sources without their targets. They depend on the texts of the files alone, so
that a change of the disk matters only to the sources at the place where it happens.
-/

namespace CodePointers

def TrackedPointer.unresolved (tracked : TrackedPointer) : TrackedPointer :=
  { tracked with target? := none }

namespace Tracker

def outline (tracker : Tracker) (source : Path) : Option (List TrackedPointer) :=
  (tracker.tracked.get? source).map (List.map TrackedPointer.unresolved)

def outlineOf (text : Text) : List TrackedPointer :=
  (extract .empty ⟨.empty, []⟩ text).map TrackedPointer.unresolved

theorem map_unresolved_extract (disk : Disk) (layout : Layout) (text : Text) :
    (extract disk layout text).map TrackedPointer.unresolved = outlineOf text := by
  rw [outlineOf, extract, extract, List.map_filterMap, List.map_filterMap]
  congr 1
  funext found
  unfold track?
  split <;> rfl

theorem map_kept? (change : TrackedPointer → TrackedPointer) (pointers : List TrackedPointer) :
    (kept? pointers).map (List.map change) = kept? (pointers.map change) := by
  cases pointers <;> rfl

/-! What happens to the outline of one source. -/

theorem SameSource.outline {source : Path} {left right : Tracker}
    (same : SameSource source left right) : left.outline source = right.outline source := by
  rw [Tracker.outline, same.tracked, Tracker.outline]

theorem Lists.outline {tracker : Tracker} {disk : Disk} {layout : Layout} {source : Path}
    {text : Text} (lists : Lists tracker source (extract disk layout text)) :
    tracker.outline source = kept? (outlineOf text) := by
  rw [Tracker.outline, lists.tracked, map_kept?, map_unresolved_extract]

theorem outline_congr (tracker : Tracker) {source other : Path} (same : source == other) :
    tracker.outline source = tracker.outline other := by
  rw [outline, tracker.tracked.get?_congr same, outline]

theorem outline_retryPending (disk : Disk) (tracker : Tracker) (source : Path) :
    (tracker.retryPending disk).1.outline source = tracker.outline source := by
  have same :
      TrackedPointer.unresolved ∘ renew disk tracker.layout = TrackedPointer.unresolved := by
    funext tracked
    unfold renew
    dsimp only [Function.comp]
    split <;> rfl
  rw [outline, tracked_retryPending, Option.map_map, outline]
  congr 1
  funext pointers
  rw [Function.comp, List.map_map, same]

theorem Drops.outline {gone : Path → Bool} {before after : Tracker}
    (drops : Drops gone before after) (source : Path) :
    after.outline source = if gone source then none else before.outline source := by
  rw [Tracker.outline, drops.tracked, Tracker.outline]
  split
  · rfl
  · rw [Option.map_map]
    congr 1
    funext pointers
    exact List.map_map

/-! The outline that belongs to a source, told by the file that it is. -/

def outlineAt? (disk : Disk) (layout : Layout) (settings : Settings) (source : Path)
    (names : List Text) : Option (List TrackedPointer) :=
  if source.isWithin layout.root = true ∧ isIndexable layout.root source = true then
    (disk.fileAt? names).bind fun data =>
      kept? (outlineOf ((data.reading? settings).getD []))
  else none

theorem reading?_of_fileAt? {disk : Disk} {settings : Settings} {file : Path} {names : List Text}
    {data : File} (spells : file.Spells names) (isFile : disk.isFile file = true)
    (isData : disk.fileAt? names = some data) :
    disk.reading? settings file = data.reading? settings := by
  obtain ⟨own, found⟩ := Disk.isFile_iff.mp isFile
  have atNames := spells.node?_eq_some found
  rw [Disk.fileAt?, atNames] at isData
  cases isData
  rw [Disk.reading?, found]
  rfl

theorem outlineAt?_eq_none {disk : Disk} {layout : Layout} {settings : Settings} {source : Path}
    {names : List Text} (missing : disk.fileAt? names = none) :
    outlineAt? disk layout settings source names = none := by
  rw [outlineAt?, missing]
  exact ite_self none

section UpToDate

variable {disk : Disk} {tracker : Tracker} (upToDate : tracker.UpToDate disk)
  {above : List Text} (root : tracker.layout.root.Spells above) {source : Path}
include upToDate root

theorem UpToDate.outline_eq (isThere : disk.pathExists tracker.layout.root = true)
    {names : List Text} (spells : source.Spells names) :
    tracker.outline source = outlineAt? disk tracker.layout tracker.settings source names := by
  have known_iff := Path.exists_indexable_iff root isThere spells
  obtain ⟨file, member, same⟩ | apart :=
    Path.listed_or_apart (tracker.layout.indexableFiles disk) source
  · obtain ⟨within, indexable, isFile⟩ := known_iff.mp ⟨file, member, same⟩
    obtain ⟨data, isData⟩ := Option.isSome_iff_exists.mp isFile
    have isReading : disk.reading? tracker.settings file = data.reading? tracker.settings :=
      reading?_of_fileAt? (spells.congr (BEq.symm same))
        (Layout.isFile_of_mem_indexableFiles member) isData
    rw [← tracker.outline_congr same, (upToDate.listed file member).outline, isReading, outlineAt?,
      if_pos ⟨within, indexable⟩, isData]
    rfl
  · rw [outline, upToDate.others source apart, outlineAt?]
    split
    · next proper =>
      have missing : ¬(disk.fileAt? names).isSome := by
        intro isFile
        obtain ⟨file, member, same⟩ := known_iff.mpr ⟨proper.1, proper.2, isFile⟩
        rw [apart file member] at same
        cases same
      rw [Option.not_isSome_iff_eq_none.mp missing]
      rfl
    · rfl

theorem UpToDate.outline_eq_none (unspelled : ∀ names, ¬source.Spells names) :
    tracker.outline source = none := by
  have differ (file : Path) (member : file ∈ tracker.layout.indexableFiles disk) :
      (file == source) = false := by
    refine Bool.eq_false_iff.mpr fun same => ?_
    obtain ⟨names, areNames, rfl, _⟩ := Disk.mem_walk_iff.mp (List.mem_filter.mp member).1
    exact unspelled _ ((root.descend areNames).congr same)
  rw [outline, upToDate.others source differ]
  rfl

end UpToDate

end Tracker

end CodePointers
