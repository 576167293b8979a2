import CodePointers.Command.Report
import CodePointers.Proofs.Disk.Spellings
import CodePointers.Proofs.ReferenceIndex.Queries
import CodePointers.Proofs.Tracker.Anchors
import CodePointers.Proofs.Tracker.Histories
import Mathlib.Data.List.Perm.Basic

/-!
What a query finds, told from what the snapshot lists. A query goes to the canonical path of its
file while the index keeps the spelling that a pointer was resolved to. The two are the same path
unless the spelling has `..` segments, which only declared content roots bring in. It is the same
for the report on one line, which scans the workspace again and is given the file as it was printed.
-/

namespace CodePointers

def TargetEntry.referencesAt (entry : TargetEntry) (line : Nat) : List Reference :=
  (entry.ranges.filter (·.range.contains line)).flatMap RangeEntry.references

/-! The references of one target. -/

namespace ReferenceIndex

theorem referencesAt_congr (index : ReferenceIndex) {target other : Path} (same : target == other)
    (line : Nat) : index.referencesAt target line = index.referencesAt other line := by
  rw [referencesAt, referencesAt, rangesOf, rangesOf, index.targets.get?_congr same]

theorem referencesAt_eq_flatMap (index : ReferenceIndex) (target : Path) (line : Nat) :
    index.referencesAt target line =
      ((index.entries target).filter (·.1.contains line)).flatMap Prod.snd := by
  rw [referencesAt, flatMap_ite]
  rfl

theorem mem_referencesAt_iff {index : ReferenceIndex} {target : Path} {line : Nat}
    {reference : Reference} :
    reference ∈ index.referencesAt target line ↔
      ∃ lines, lines.contains line = true ∧ index.Stores target lines reference := by
  rw [referencesAt_eq_flatMap, List.mem_flatMap]
  constructor
  · rintro ⟨⟨lines, references⟩, selected, member⟩
    obtain ⟨inEntries, contains⟩ := List.mem_filter.mp selected
    exact ⟨lines, contains, references, inEntries, member⟩
  · rintro ⟨lines, contains, references, inEntries, member⟩
    exact ⟨_, List.mem_filter.mpr ⟨inEntries, contains⟩, member⟩

theorem Consistent.exists_stores {index : ReferenceIndex} (consistent : index.Consistent)
    {file : Path} (member : file ∈ index.files) :
    ∃ lines reference, index.Stores file lines reference := by
  have hasTarget : (index.targets.get? file).isSome :=
    OrderedMap.get?_isSome_iff.mpr ⟨file, member, BEq.rfl⟩
  obtain ⟨lines, source, isStored⟩ := (exists_target_iff consistent file).mp hasTarget
  obtain ⟨reference, found⟩ := Option.isSome_iff_exists.mp isStored
  rw [← index.stored?_congr lines BEq.rfl (source_of_stored? found)] at found
  exact ⟨lines, reference, (stores_iff consistent).mpr found⟩

end ReferenceIndex

namespace Tracker

theorem referencesAt_targetEntry_perm (tracker : Tracker) (file : Path) (line : Nat) :
    ((tracker.targetEntry file).referencesAt line).Perm (tracker.index.referencesAt file line) := by
  have sortedRanges := sorted_perm (compareOn RangeEntry.range) (tracker.index.rangeEntries file)
  refine ((sortedRanges.filter fun entry => entry.range.contains line).flatMap_right _).trans ?_
  rw [ReferenceIndex.rangeEntries, List.filter_map, List.flatMap_map,
    ReferenceIndex.referencesAt_eq_flatMap]
  exact List.Perm.flatMap_left _ fun entry _ => sorted_perm Reference.bySource entry.2

theorem mem_snapshot_iff {tracker : Tracker} {entry : TargetEntry} :
    entry ∈ tracker.snapshot ↔ ∃ file ∈ tracker.index.files, tracker.targetEntry file = entry := by
  rw [snapshot_eq_map, List.mem_map]
  simp only [mem_sorted]

theorem eq_of_mem_snapshot {tracker : Tracker} {left right : TargetEntry}
    (leftMember : left ∈ tracker.snapshot) (rightMember : right ∈ tracker.snapshot)
    (same : (left.file == right.file) = true) : left = right := by
  obtain ⟨file, inFiles, rfl⟩ := mem_snapshot_iff.mp leftMember
  obtain ⟨other, alsoInFiles, rfl⟩ := mem_snapshot_iff.mp rightMember
  have : Std.Symm fun left right : Path => compare left right ≠ .eq :=
    ⟨fun _ _ differ equal => differ (Std.OrientedCmp.eq_symm equal)⟩
  refine congrArg tracker.targetEntry (Classical.byContradiction fun differ => ?_)
  have apart := tracker.index.files_distinct.forall inFiles alsoInFiles differ
  exact apart (Path.compare_eq_iff.mpr same)

section

variable {tracker : Tracker} (coupled : tracker.Coupled)
include coupled

theorem Coupled.eq_of_start_eq {target other : Path} {lines others : LineRange}
    {left right : Reference} (isLeft : tracker.index.Stores target lines left)
    (isRight : tracker.index.Stores other others right)
    (sameSource : (left.source == right.source) = true) (sameStart : left.start = right.start) :
    (target == other) = true ∧ lines = others := by
  rw [ReferenceIndex.stores_iff coupled.consistent] at isLeft isRight
  obtain ⟨first, inFirst, firstPoints, firstStart, _⟩ := coupled.carried isLeft
  obtain ⟨second, inSecond, secondPoints, secondStart, _⟩ := coupled.carried isRight
  rw [tracker.pointersOf_congr sameSource] at inFirst
  obtain rfl : first = second := (coupled.spaced right.source).eq_of_start_eq inFirst inSecond
    (firstStart.symm.trans (sameStart.trans secondStart))
  obtain ⟨isLines, own, isOwn, ownTarget⟩ := TrackedPointer.pointsTo_iff.mp firstPoints
  obtain ⟨areOthers, another, isAnother, anotherTarget⟩ :=
    TrackedPointer.pointsTo_iff.mp secondPoints
  cases isOwn.symm.trans isAnother
  exact ⟨BEq.trans (BEq.symm ownTarget) anotherTarget, isLines.symm.trans areOthers⟩

theorem Coupled.distinct_referencesAt (target : Path) (line : Nat) :
    (tracker.index.referencesAt target line).Pairwise fun left right =>
      Reference.bySource left right ≠ .eq := by
  rw [ReferenceIndex.referencesAt_eq_flatMap, List.pairwise_flatMap]
  constructor
  · intro entry selected
    rw [← ReferenceIndex.references_of_mem_rangesOf (List.mem_filter.mp selected).1]
    exact (ReferenceIndex.referencesTo_distinct coupled.consistent.targets target entry.1).imp
      ReferenceIndex.bySource_ne_eq
  · -- References in different ranges are told apart by their pointers.
    refine (List.Pairwise.imp_of_mem ?_ (tracker.index.rangesOf target).distinct).filter _
    intro left right inLeft inRight apart first inFirst second inSecond equal
    obtain ⟨sameSource, sameStart⟩ := Ordering.then_eq_eq.mp equal
    have sameLines := (coupled.eq_of_start_eq ⟨left.2, inLeft, inFirst⟩ ⟨right.2, inRight, inSecond⟩
      (Path.compare_eq_iff.mp sameSource) (Std.LawfulEqOrd.eq_of_compare sameStart)).2
    rw [sameLines] at apart
    simp at apart

theorem Coupled.referencesAt_perm_of_sameStored {other : Tracker} (otherCoupled : other.Coupled)
    (same : tracker.index.SameStored other.index) (target : Path) (line : Nat) :
    (tracker.index.referencesAt target line).Perm (other.index.referencesAt target line) := by
  have nodup {tracker : Tracker} (coupled : tracker.Coupled) :
      (tracker.index.referencesAt target line).Nodup := by
    refine (coupled.distinct_referencesAt target line).imp fun differ isSame => differ ?_
    rw [isSame]
    exact Std.ReflCmp.compare_self
  rw [List.perm_ext_iff_of_nodup (nodup coupled) (nodup otherCoupled)]
  intro reference
  simp only [ReferenceIndex.mem_referencesAt_iff, ReferenceIndex.stores_iff coupled.consistent,
    ReferenceIndex.stores_iff otherCoupled.consistent, same target]

end

/-! A query for a listed target. -/

theorem resolveInput_of_isAbsolute (disk : Disk) (tracker : Tracker) {file : Path}
    (absolute : file.isAbsolute = true) :
    tracker.resolveInput disk file = (disk.canonical? file).getD file := by
  rw [resolveInput, Path.join, if_pos absolute]

theorem referencesAt_targetEntry_perm_of_beq {disk : Disk} {tracker : Tracker} {path file : Path}
    (same : (tracker.resolveInput disk path == file) = true) (line : Nat) :
    (tracker.referencesAt disk path line).Perm ((tracker.targetEntry file).referencesAt line) := by
  rw [Tracker.referencesAt, tracker.index.referencesAt_congr same]
  exact (tracker.referencesAt_targetEntry_perm file line).symm

section

variable {disk : Disk} {tracker : Tracker} {file : Path}

theorem resolveInput_beq (absolute : file.isAbsolute = true) (plain : Part.parent ∉ file.parts) :
    (tracker.resolveInput disk file == file) = true := by
  obtain ⟨names, spells⟩ := Path.exists_spells absolute plain
  rw [resolveInput_of_isAbsolute disk tracker absolute, spells.canonical_getD.beq_iff spells]

/-- A file whose key has `..` segments is looked up under another one, and what is found there comes
from other pointers. -/
theorem Coupled.not_found_of_climbs (coupled : tracker.Coupled)
    (inFiles : file ∈ tracker.index.files)
    (isFile : disk.isFile file = true) (climbs : Part.parent ∈ file.parts) :
    ∃ line, ¬(tracker.referencesAt disk file line).Perm
      ((tracker.targetEntry file).referencesAt line) := by
  obtain ⟨lines, reference, isListed⟩ := coupled.consistent.exists_stores inFiles
  refine ⟨lines.first, fun found => ?_⟩
  have contains : lines.contains lines.first = true :=
    decide_eq_true ⟨Nat.le_refl _, lines.first_le_last⟩
  have inEntry := ReferenceIndex.mem_referencesAt_iff.mpr ⟨lines, contains, isListed⟩
  rw [← (tracker.referencesAt_targetEntry_perm file _).mem_iff, ← found.mem_iff] at inEntry
  obtain ⟨others, _, isStored⟩ := ReferenceIndex.mem_referencesAt_iff.mp inEntry
  -- A reference under both keys would come from one pointer, which has one target.
  have same := (coupled.eq_of_start_eq isListed isStored BEq.rfl rfl).1
  obtain ⟨names, areNames, isCanonical⟩ :=
    Path.exists_canonical_of_pathExists (Disk.pathExists_of_isFile isFile)
  rw [resolveInput_of_isAbsolute disk tracker (Path.isAbsolute_of_isFile isFile), isCanonical,
    Option.getD_some] at same
  rw [Path.beq_iff.mp same] at climbs
  exact (Path.spells_ofNames_of_areNames areNames).not_parent_mem_parts climbs

theorem Reachable.plain_of_mem_files (reachable : tracker.Reachable) (plain : tracker.layout.Plain)
    (inFiles : file ∈ tracker.index.files) : Part.parent ∉ file.parts := by
  obtain ⟨layout, settings, run⟩ := reachable
  rw [layout_of_run run] at plain
  have initially : (ofLayout layout settings).Aims fun target => Part.parent ∉ target.parts := by
    refine aims_ofLayout settings fun disk pointer target plainModule found => ?_
    obtain ⟨names, denotes⟩ := plain.denotes_of_target? plainModule found
    exact denotes.spells.not_parent_mem_parts
  exact (initially.run run).files file inFiles

end

/-! What queries find. -/

/-- Whether the queries on a disk find what the snapshot lists, as far as the keys are free of `..`
segments. -/
structure FindsListed (disk : Disk) (tracker : Tracker) : Prop where
  found_iff : ∀ entry ∈ tracker.snapshot, disk.isFile entry.file = true →
    ((∀ line, (tracker.referencesAt disk entry.file line).Perm (entry.referencesAt line)) ↔
      Part.parent ∉ entry.file.parts)
  unique : ∀ left ∈ tracker.snapshot, ∀ right ∈ tracker.snapshot,
    Part.parent ∉ left.file.parts → Part.parent ∉ right.file.parts →
    disk.isFile left.file = true → disk.locate? left.file = disk.locate? right.file → left = right
  plain : tracker.layout.Plain → ∀ entry ∈ tracker.snapshot, Part.parent ∉ entry.file.parts

theorem Reachable.findsListed {tracker : Tracker} (reachable : tracker.Reachable) (disk : Disk) :
    tracker.FindsListed disk := by
  have coupled := reachable.coupled
  constructor
  · intro entry member isFile
    obtain ⟨file, inFiles, rfl⟩ := mem_snapshot_iff.mp member
    constructor
    · intro found climbs
      obtain ⟨line, notFound⟩ := coupled.not_found_of_climbs inFiles isFile climbs
      exact notFound (found line)
    · intro plain line
      have same := @resolveInput_beq disk tracker file (Path.isAbsolute_of_isFile isFile) plain
      exact referencesAt_targetEntry_perm_of_beq same line
  · intro left leftMember right rightMember leftPlain rightPlain isFile samePlace
    obtain ⟨data, isData⟩ := Disk.isFile_iff.mp isFile
    obtain ⟨found, isFound, _⟩ := Option.bind_eq_some_iff.mp isData
    obtain ⟨names, spells⟩ := Path.exists_spells (Path.isAbsolute_of_locate? isFound) leftPlain
    rw [isFound] at samePlace
    obtain ⟨others, also⟩ :=
      Path.exists_spells (Path.isAbsolute_of_locate? samePlace.symm) rightPlain
    refine eq_of_mem_snapshot leftMember rightMember ((spells.beq_iff also).mpr ?_)
    rw [← spells.located_eq isFound, also.located_eq samePlace.symm]
  · intro plain entry member
    obtain ⟨file, inFiles, rfl⟩ := mem_snapshot_iff.mp member
    exact reachable.plain_of_mem_files plain inFiles

end Tracker

/-! What the commands report. -/

theorem Layout.exists_root_spells {disk : Disk} {root : Path}
    (isThere : disk.isFolder root = true) :
    ∃ names, (Layout.ofDisk disk root).root.Spells names := by
  obtain ⟨names, areNames, isCanonical⟩ :=
    Path.exists_canonical_of_pathExists (Disk.pathExists_of_isFolder isThere)
  refine ⟨names, ?_⟩
  rw [Layout.ofDisk, isCanonical]
  exact Path.spells_ofNames_of_areNames areNames

section

variable {disk : Disk} {root : Path} (settings others : Settings)

theorem RefsReport.references_increasing (disk : Disk) (root file : Path) (line : Nat) :
    (RefsReport.ofDisk disk root file line settings).references.Pairwise fun left right =>
      Reference.bySource left right = .lt := by
  obtain ⟨_, _, _, sound⟩ := Tracker.upToDate_scanned disk (.ofDisk disk root) settings
  exact pairwise_lt_sorted (sound.coupled.distinct_referencesAt _ line)

theorem RefsReport.references_perm (isThere : disk.isFolder root = true)
    (limit : settings.maxFileSize = others.maxFileSize) {entry : TargetEntry}
    (member : entry ∈ (ScanReport.ofDisk disk root settings).targets)
    (isFile : disk.isFile entry.file = true) (plain : Part.parent ∉ entry.file.parts) (line : Nat) :
    let shown := Path.displayWithin (ScanReport.ofDisk disk root settings).root entry.file
    (RefsReport.ofDisk disk root (.ofText shown.toList) line others).references.Perm
      (entry.referencesAt line) := by
  let layout := Layout.ofDisk disk root
  obtain ⟨upToDate, sameLayout, sameSettings, sound⟩ :=
    Tracker.upToDate_scanned disk layout settings
  obtain ⟨otherUpToDate, otherLayout, otherSettings, otherSound⟩ :=
    Tracker.upToDate_scanned disk layout others
  obtain ⟨file, inFiles, rfl⟩ := Tracker.mem_snapshot_iff.mp member
  obtain ⟨above, rootSpells⟩ := Layout.exists_root_spells isThere
  have absolute := Path.isAbsolute_of_isFile isFile
  obtain ⟨names, spells⟩ := Path.exists_spells absolute plain
  have areNames : names.all isEntryName = true :=
    Disk.areNames_of_fileAt? ((spells.denotes_of_isFile isFile).isFile_iff.mp isFile)
  intro shown
  have isRoot : (ScanReport.ofDisk disk root settings).root = layout.root :=
    congrArg Layout.root sameLayout
  -- What is shown for the file leads back to it, so that the lookup is at its own key.
  have isInput : (layout.root.join (.ofText shown.toList) == file) = true := by
    have joined := Path.join_displayWithin rootSpells.isAbsolute absolute (spells.noSlash areNames)
    rwa [← isRoot] at joined ⊢
  have resolved : ((Tracker.scanned disk layout others).resolveInput disk (.ofText shown.toList) ==
      file) = true := by
    have canonical := @Path.Spells.canonical_getD disk _ _ (spells.congr (BEq.symm isInput))
    rw [Tracker.resolveInput, otherLayout]
    exact (canonical.beq_iff spells).mpr rfl
  have sameStored : (Tracker.scanned disk layout others).index.SameStored
      (Tracker.scanned disk layout settings).index := fun target lines source =>
    (otherUpToDate.sameSource upToDate otherSound.coupled sound.coupled
      (otherLayout.trans sameLayout.symm)
      (by rw [otherSettings, sameSettings, limit]) source).stored target lines
  refine (sorted_perm Reference.bySource _).trans ?_
  change (Tracker.referencesAt disk (Tracker.scanned disk layout others) _ line).Perm _
  rw [Tracker.referencesAt, ReferenceIndex.referencesAt_congr _ resolved]
  have samePerm :=
    otherSound.coupled.referencesAt_perm_of_sameStored sound.coupled sameStored file line
  exact samePerm.trans (Tracker.referencesAt_targetEntry_perm _ file line).symm

end

/-- Whether the reports on single lines have, in order, the references that the report of a scan
lists for them, each file being given as that report prints it. -/
structure ReportsAgree (disk : Disk) (root : Path) (settings others : Settings) : Prop where
  increasing : ∀ file line, (RefsReport.ofDisk disk root file line others).references.Pairwise
    fun left right => Reference.bySource left right = .lt
  listed : ∀ entry ∈ (ScanReport.ofDisk disk root settings).targets,
    disk.isFile entry.file = true → Part.parent ∉ entry.file.parts → ∀ line,
      let shown := Path.displayWithin (ScanReport.ofDisk disk root settings).root entry.file
      (RefsReport.ofDisk disk root (.ofText shown.toList) line others).references.Perm
        (entry.referencesAt line)

namespace Tracker

/-- Queries find what the index lists under every key without `..` segments, and such a key is the
only one of its file. All keys are so unless a declared content root has `..` segments; a file whose
key has them is not found under it. -/
theorem Reachable.queries_find_listed {tracker : Tracker} (reachable : tracker.Reachable)
    (disk : Disk) :
    tracker.FindsListed disk ∧
      ∀ root settings others, disk.isFolder root = true →
        settings.maxFileSize = others.maxFileSize → ReportsAgree disk root settings others :=
  ⟨reachable.findsListed disk, fun root settings others isThere limit =>
    ⟨RefsReport.references_increasing others disk root,
      fun _ member => RefsReport.references_perm settings others isThere limit member⟩⟩

theorem queries_find_listed_in_module :
    let layout : Layout := ⟨.ofText "/w".toList, [⟨"m".toList, [.ofText "/w/./lib/".toList]⟩]⟩
    let file := Path.ofText "/w/./lib/x.rs".toList
    let disk := (Disk.empty.write (.ofText "/w/lib/x.rs".toList) ⟨.text [], 0⟩).write
      (.ofText "/w/a.md".toList) ⟨.text "@lib/x.rs:L1".toList, 0⟩
    let tracker := (Tracker.ofLayout layout .default).perform disk
      (.reindex (.ofText "/w/a.md".toList) "@m/x.rs:L1-3".toList)
    tracker.Reachable ∧ tracker.layout.Plain ∧ disk.isFolder layout.root = true ∧
      tracker.snapshot.map (·.file.segments) = [file.segments] ∧
      (tracker.referencesAt disk file 2).length = 1 ∧
      (ScanReport.ofDisk disk layout.root .default).targets.length = 1 ∧
      tracker.FindsListed disk ∧
      ReportsAgree disk layout.root .default ⟨Settings.default.maxFileSize, false⟩ := by
  intro layout file disk tracker
  have reachable : tracker.Reachable := ⟨layout, .default, .perform disk (.reindex _ _) (.refl _)⟩
  have isThere : disk.isFolder layout.root = true := by decide +kernel
  have plain : layout.Plain := by
    refine ⟨⟨["w".toList], by rfl⟩, fun declared isDeclared base isRoot => ?_⟩
    obtain rfl := List.mem_singleton.mp isDeclared
    obtain rfl := List.mem_singleton.mp isRoot
    exact ⟨["w".toList, "lib".toList], by rfl⟩
  have finds := reachable.queries_find_listed disk
  exact ⟨reachable, plain, isThere, by decide +kernel, by decide +kernel, by decide +kernel,
    finds.1, finds.2 layout.root .default _ isThere rfl⟩

/-- A content root that climbs gives a file two keys, and a query for it misses one of them. -/
theorem not_found_under_climbing_root :
    let layout : Layout := ⟨.ofText "/w".toList, [⟨"m".toList, [.ofText "/w/sub/../lib".toList]⟩]⟩
    let file := Path.ofText "/w/lib/x.rs".toList
    let climbing := Path.ofText "/w/sub/../lib/x.rs".toList
    let disk := (Disk.empty.write file ⟨.text [], 0⟩).makeFolder (.ofText "/w/sub".toList)
    let tracker := (Tracker.ofLayout layout .default).perform disk
      (.reindex (.ofText "/w/a.md".toList) "@m/x.rs:L1 @lib/x.rs:L1".toList)
    tracker.Reachable ∧ (climbing == file) = false ∧
      tracker.snapshot.map (·.file.segments) = [file.segments, climbing.segments] ∧
      disk.isFile climbing = true ∧ disk.locate? climbing = disk.locate? file ∧
      ¬(tracker.referencesAt disk climbing 1).Perm
        ((tracker.targetEntry climbing).referencesAt 1) := by
  intro layout file climbing disk tracker
  refine ⟨⟨layout, .default, .perform disk (.reindex _ _) (.refl _)⟩, by decide, by decide +kernel,
    by decide +kernel, by decide +kernel, fun found => ?_⟩
  have starts := found.map Reference.start
  have isFound : (tracker.referencesAt disk climbing 1).map Reference.start = [11] := by
    decide +kernel
  have isListed : ((tracker.targetEntry climbing).referencesAt 1).map Reference.start = [0] := by
    decide +kernel
  rw [isFound, isListed] at starts
  simp at starts

end Tracker

end CodePointers
