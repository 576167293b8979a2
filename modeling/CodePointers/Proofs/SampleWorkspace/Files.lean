import CodePointers.Proofs.Disk.WrittenFiles
import CodePointers.Proofs.Resolution.SearchOrder
import CodePointers.Proofs.SampleWorkspace.Texts

/-!
A sample workspace on the disk. Written into an empty folder, it is what there is in it, and each of
its pointers leads to one of its own source files.
-/

namespace CodePointers

/-! Paths that are made of names. -/

namespace Path

variable {names : List Text}

theorem goesDown_of_areNames (areNames : names.all isEntryName = true) (below : names ≠ []) :
    GoesDown ⟨names⟩ names := by
  have goesDown := goesDown_ofPlainNames fun name member =>
    ofSegment?_of_isEntryName (List.all_eq_true.mp areNames name member)
  rwa [ofPlainNames, if_neg below] at goesDown

theorem plain?_of_areNames (areNames : names.all isEntryName = true) (below : names ≠ []) :
    plain? ⟨names⟩ = some ⟨names⟩ := by
  have goesDown := goesDown_of_areNames areNames below
  have spelled := parts_of_relative goesDown.relative
  rw [goesDown.spelled] at spelled
  rw [plain?, plainNames?_of_parts spelled, Option.map_some, ofPlainNames, if_neg below]

theorem join_child (base : Path) {name : Text} {rest : List Text} (isName : name ≠ [])
    (relative : isAbsolute ⟨name :: rest⟩ = false) (restRelative : isAbsolute ⟨rest⟩ = false) :
    (base.child name).join ⟨rest⟩ = base.join ⟨name :: rest⟩ := by
  have isLast : (base.child name).segments.getLast? ≠ some [] := by
    rw [getLast?_child]
    exact fun isNil => isName (Option.some.inj isNil)
  rw [join, restRelative, if_neg Bool.false_ne_true, if_neg isLast, join, relative,
    if_neg Bool.false_ne_true]
  obtain ⟨segments⟩ := base
  by_cases slash : segments.getLast? = some []
  · obtain ⟨init, rfl⟩ := List.getLast?_eq_some_iff.mp slash
    rw [if_pos slash, child_of_concat_nil, List.dropLast_concat, List.append_assoc]
    rfl
  · rw [if_neg slash, child_of_getLast?_ne slash, List.append_assoc]
    rfl

theorem join_eq_descend (base : Path) (areNames : names.all isEntryName = true)
    (below : names ≠ []) :
    base.join ⟨names⟩ = base.descend names := by
  induction names generalizing base with
  | nil => exact absurd rfl below
  | cons name rest ih =>
      have relative := (goesDown_of_areNames areNames below).relative
      rw [List.all_cons, Bool.and_eq_true] at areNames
      by_cases isLast : rest = []
      · rw [isLast]
        rfl
      · have restRelative := (goesDown_of_areNames areNames.2 isLast).relative
        rw [descend_cons, ← ih (base.child name) areNames.2 isLast,
          base.join_child (ne_nil_of_isEntryName areNames.1) relative restRelative]

end Path

theorem isEntryName_cons {first : Char} {rest : Text} (notDot : first ≠ '.')
    (noSlash : '/' ∉ first :: rest) : isEntryName (first :: rest) = true := by
  simpa [isEntryName, notDot] using noSlash

/-! Resolution in a workspace without a manifest. -/

theorem Layout.resolve?_of_isFile {disk : Disk} {layout : Layout} {moduleName relativePath : Text}
    {relative : Path} (noModules : layout.modules = []) (notEmpty : relativePath ≠ [])
    (plain : (Path.ofText relativePath).plain? = some relative)
    (isFile : disk.isFile ((layout.root.join (.ofText moduleName)).join relative) = true) :
    layout.resolve? disk moduleName relativePath =
      some ⟨(layout.root.join (.ofText moduleName)).join relative, .moduleFolder⟩ := by
  have noRoots : Resolution.inModuleRoots? (layout.on disk) moduleName relative = none := by
    rw [Resolution.inModuleRoots?, Layout.module?, on, noModules]
    rfl
  have inFolder : Resolution.inModuleFolder? (layout.on disk) (layout.on disk).root moduleName
      relative = some ((layout.root.join (.ofText moduleName)).join relative) := if_pos isFile
  rw [resolve?, Workspace.resolve?, if_neg notEmpty, plain, Option.bind_some,
    Resolution.ofRelative?, noRoots, inFolder]
  rfl

theorem Disk.exists_canonical_of_node? {disk : Disk} {path : Path} {node : Node}
    (isNode : disk.node? path = some node) : ∃ names, disk.canonical? path = some (.ofNames names) ∧
      (Path.ofNames names).Denotes names ∧ disk.node? (.ofNames names) = some node := by
  obtain ⟨names, located, atNames⟩ := Option.bind_eq_some_iff.mp isNode
  have denotes := Path.denotes_ofNames (areNames_of_at? atNames)
  exact ⟨names, by rw [canonical?, located, Option.map_some], denotes, by rwa [denotes.node?_eq]⟩

theorem decimal_injective {left right : Nat} (same : decimal left = decimal right) :
    left = right := by
  rw [← decimalValue_decimal left, same, decimalValue_decimal]

open Occurrence

namespace SampleSize

/-! Where the files stand. -/

def innerNames (file : Nat) : List Text :=
  ["src".toList, "file_".toList ++ decimal file ++ ".rs".toList]

def sourceNames (moduleNumber file : Nat) : List Text := moduleName moduleNumber :: innerNames file

def noteNames (note : Nat) : List Text :=
  ["docs".toList, "doc_".toList ++ decimal note ++ ".md".toList]

theorem isEntryName_around {before after : Text} (number : Nat) (notDot : before.head? ≠ some '.')
    (notEmpty : before ≠ []) (noSlash : '/' ∉ before ∧ '/' ∉ after) :
    isEntryName (before ++ decimal number ++ after) = true := by
  have noneInside : '/' ∉ before ++ decimal number ++ after := by
    simp only [List.mem_append, noSlash, not_slash_mem_decimal, or_self, not_false_eq_true]
  obtain ⟨first, rest, rfl⟩ := List.exists_cons_of_ne_nil notEmpty
  exact isEntryName_cons (fun isDot => notDot (congrArg some isDot)) noneInside

theorem isEntryName_moduleName (number : Nat) : isEntryName (moduleName number) = true := by
  have isName := @isEntryName_around "mod_".toList [] number (by decide) (by decide) (by decide)
  rwa [List.append_nil] at isName

theorem areNames_moduleName (number : Nat) : [moduleName number].all isEntryName = true := by
  rw [List.all_cons, isEntryName_moduleName]
  rfl

theorem areNames_innerNames (file : Nat) : (innerNames file).all isEntryName = true := by
  have isFile := @isEntryName_around "file_".toList ".rs".toList file (by decide) (by decide)
    (by decide)
  have isFolder : isEntryName "src".toList = true := by decide
  simp only [innerNames, List.all_cons, isFolder, isFile, List.all_nil, Bool.and_self]

theorem areNames_sourceNames (moduleNumber file : Nat) :
    (sourceNames moduleNumber file).all isEntryName = true := by
  rw [sourceNames, List.all_cons, isEntryName_moduleName, areNames_innerNames]
  rfl

theorem areNames_noteNames (note : Nat) : (noteNames note).all isEntryName = true := by
  have isFile := @isEntryName_around "doc_".toList ".md".toList note (by decide) (by decide)
    (by decide)
  have isFolder : isEntryName "docs".toList = true := by decide
  simp only [noteNames, List.all_cons, isFolder, isFile, List.all_nil, Bool.and_self]

theorem ofText_of_areNames {names : List Text} (areNames : names.all isEntryName = true)
    (below : names ≠ []) : Path.ofText (List.intercalate ['/'] names) = ⟨names⟩ :=
  Path.ofText_text below fun name member =>
    Path.not_mem_of_isEntryName (List.all_eq_true.mp areNames name member)

theorem ofText_moduleName (number : Nat) :
    Path.ofText (moduleName number) = ⟨[moduleName number]⟩ := by
  have names := ofText_of_areNames (areNames_moduleName number) (List.cons_ne_nil _ _)
  rwa [List.intercalate_singleton] at names

theorem intercalate_innerNames (file : Nat) :
    List.intercalate ['/'] (innerNames file) = sourceName file := by
  have isName : "src/file_".toList = "src".toList ++ '/' :: "file_".toList := by decide
  unfold innerNames sourceName
  rw [isName]
  simp only [List.intercalate_cons_cons, List.intercalate_singleton, List.append_assoc,
    List.cons_append, List.nil_append]

theorem ofText_sourceName (file : Nat) : Path.ofText (sourceName file) = ⟨innerNames file⟩ := by
  rw [← intercalate_innerNames]
  exact ofText_of_areNames (areNames_innerNames file) (List.cons_ne_nil _ _)

theorem ofText_sourcePath (moduleNumber file : Nat) :
    Path.ofText (sourcePath moduleNumber file) = ⟨sourceNames moduleNumber file⟩ := by
  rw [sourcePath, ← intercalate_innerNames]
  exact ofText_of_areNames (areNames_sourceNames moduleNumber file) (List.cons_ne_nil _ _)

theorem ofText_notePath (note : Nat) : Path.ofText (notePath note) = ⟨noteNames note⟩ := by
  have names := ofText_of_areNames (areNames_noteNames note) (List.cons_ne_nil _ _)
  have isName : "docs/doc_".toList = "docs".toList ++ '/' :: "doc_".toList := by decide
  have isPath : List.intercalate ['/'] (noteNames note) = notePath note := by
    unfold notePath noteNames
    rw [isName]
    simp only [List.intercalate_cons_cons, List.intercalate_singleton, List.append_assoc,
      List.cons_append, List.nil_append]
  rwa [isPath] at names

theorem names_of_mem_files {size : SampleSize} {file : Text × Text} (member : file ∈ size.files) :
    ∃ names, Path.ofText file.1 = ⟨names⟩ ∧
      ((∃ moduleNumber number, names = sourceNames moduleNumber number) ∨
        ∃ note, names = noteNames note) := by
  rcases size.source_or_note_of_mem_files member with ⟨moduleNumber, number, _, rfl⟩ | ⟨note, rfl⟩
  · exact ⟨_, ofText_sourcePath moduleNumber number, .inl ⟨moduleNumber, number, rfl⟩⟩
  · exact ⟨_, ofText_notePath note, .inr ⟨note, rfl⟩⟩

theorem apart_of_ne {left right : List Text} (sameLength : left.length = right.length)
    (differ : left ≠ right) : Apart left right :=
  ⟨fun isPrefix => differ (isPrefix.eq_of_length sameLength),
    fun isPrefix => differ (isPrefix.eq_of_length sameLength.symm).symm⟩

theorem sourceNames_inj {moduleNumber file otherModule other : Nat}
    (same : sourceNames moduleNumber file = sourceNames otherModule other) :
    moduleNumber = otherModule ∧ file = other := by
  rw [sourceNames, sourceNames, innerNames, innerNames] at same
  simp only [moduleName, List.cons.injEq, List.append_cancel_left_eq,
    List.append_cancel_right_eq, and_true, true_and] at same
  exact ⟨decimal_injective same.1, decimal_injective same.2⟩

theorem noteNames_inj {note other : Nat} (same : noteNames note = noteNames other) :
    note = other := by
  rw [noteNames, noteNames] at same
  simp only [List.cons.injEq, List.append_cancel_left_eq, List.append_cancel_right_eq, and_true,
    true_and] at same
  exact decimal_injective same

theorem apart_sourceNames_noteNames (moduleNumber file note : Nat) :
    Apart (sourceNames moduleNumber file) (noteNames note) := by
  have differ : moduleName moduleNumber ≠ "docs".toList := fun same => by
    have heads : some 'm' = some 'd' := congrArg List.head? same
    cases heads
  simp only [Apart, sourceNames, innerNames, noteNames, List.cons_prefix_cons]
  exact ⟨fun isPrefix => differ isPrefix.1, fun isPrefix => differ isPrefix.1.symm⟩

theorem apart_files (size : SampleSize) : size.files.Pairwise fun left right =>
    Apart (Path.ofText left.1).segments (Path.ofText right.1).segments := by
  have numbers (count : Nat) : (List.range count).Pairwise (· ≠ ·) := List.nodup_range
  unfold files
  split
  · exact .nil
  · refine List.pairwise_append.mpr
      ⟨List.pairwise_flatMap.mpr ⟨fun moduleNumber _ => ?_, ?_⟩, ?_, ?_⟩
    · refine List.pairwise_map.mpr ((numbers size.filesPerModule).imp fun differ => ?_)
      rw [ofText_sourcePath, ofText_sourcePath]
      exact apart_of_ne rfl fun same => differ (sourceNames_inj same).2
    · refine (numbers size.moduleCount).imp fun differ left inLeft right inRight => ?_
      obtain ⟨file, _, rfl⟩ := List.mem_map.mp inLeft
      obtain ⟨other, _, rfl⟩ := List.mem_map.mp inRight
      rw [ofText_sourcePath, ofText_sourcePath]
      exact apart_of_ne rfl fun same => differ (sourceNames_inj same).1
    · refine List.pairwise_map.mpr ((numbers size.noteCount).imp fun differ => ?_)
      rw [ofText_notePath, ofText_notePath]
      exact apart_of_ne rfl fun same => differ (noteNames_inj same)
    · intro source inSources note inNotes
      obtain ⟨moduleNumber, _, inModule⟩ := List.mem_flatMap.mp inSources
      obtain ⟨file, _, rfl⟩ := List.mem_map.mp inModule
      obtain ⟨number, _, rfl⟩ := List.mem_map.mp inNotes
      rw [ofText_sourcePath, ofText_notePath]
      exact apart_sourceNames_noteNames moduleNumber file number

theorem areNames_of_mem_files {size : SampleSize} {file : Text × Text}
    (member : file ∈ size.files) :
    (Path.ofText file.1).segments.all isEntryName = true ∧ (Path.ofText file.1).segments ≠ [] := by
  obtain ⟨names, isPath, ⟨moduleNumber, number, rfl⟩ | ⟨note, rfl⟩⟩ := names_of_mem_files member
  · rw [isPath]
    exact ⟨areNames_sourceNames moduleNumber number, List.cons_ne_nil _ _⟩
  · rw [isPath]
    exact ⟨areNames_noteNames note, List.cons_ne_nil _ _⟩

theorem isExcludedName_moduleName (number : Nat) : isExcludedName (moduleName number) = false := by
  have noModule : ∀ excluded ∈ excludedDirectories, excluded.toList.take 4 ≠ "mod_".toList := by
    decide
  rw [Bool.eq_false_iff]
  intro isExcluded
  obtain ⟨excluded, member, same⟩ := List.any_eq_true.mp isExcluded
  refine noModule excluded member ?_
  rw [beq_iff_eq.mp same]
  rfl

theorem included_of_mem_files {size : SampleSize} {file : Text × Text}
    (member : file ∈ size.files) :
    ∀ name ∈ (Path.ofText file.1).segments.dropLast, isExcludedName name = false := by
  obtain ⟨names, isPath, ⟨moduleNumber, number, rfl⟩ | ⟨note, rfl⟩⟩ := names_of_mem_files member
  · rw [isPath]
    intro name inNames
    rcases List.mem_pair.mp inNames with rfl | rfl
    · exact isExcludedName_moduleName moduleNumber
    · decide
  · rw [isPath]
    intro name inNames
    rw [List.mem_singleton.mp inNames]
    decide

/-! What is written. -/

def entries (size : SampleSize) (modified : Nat) : List (List Text × File) :=
  size.files.map fun file => ((Path.ofText file.1).segments, { content := .text file.2, modified })

theorem writeSample_eq_writeAll (disk : Disk) (root : Path) (size : SampleSize) (modified : Nat) :
    disk.writeSample root size modified = disk.writeAll root (size.entries modified) := by
  rw [Disk.writeSample, Disk.writeAll, entries, List.foldl_map]
  refine List.foldl_ext _ _ disk fun before file member => ?_
  obtain ⟨areNames, below⟩ := areNames_of_mem_files member
  dsimp only
  rw [← root.join_eq_descend areNames below]

theorem isVoid_iff {size : SampleSize} :
    size.isVoid = true ↔ size.moduleCount = 0 ∨ size.filesPerModule = 0 := by
  rw [isVoid, Bool.or_eq_true, beq_iff_eq, beq_iff_eq]

theorem mem_files_of_lt {size : SampleSize} {moduleNumber number : Nat}
    (isModule : moduleNumber < size.moduleCount) (isFile : number < size.filesPerModule) :
    (sourcePath moduleNumber number,
        size.sourceText (moduleNumber * size.filesPerModule + number)) ∈
      size.files := by
  have notVoid : ¬size.isVoid = true := by
    rw [isVoid_iff]
    omega
  rw [files, if_neg notVoid]
  refine List.mem_append_left _
    (List.mem_flatMap.mpr ⟨moduleNumber, List.mem_range.mpr isModule, ?_⟩)
  exact List.mem_map_of_mem (List.mem_range.mpr isFile)

theorem pos_of_mem_files {size : SampleSize} {file : Text × Text} (member : file ∈ size.files) :
    0 < size.moduleCount ∧ 0 < size.filesPerModule := by
  unfold files at member
  split at member
  · cases member
  · next notVoid =>
    rw [isVoid_iff] at notVoid
    omega

structure SampledBy (size : SampleSize) (modified : Nat) (disk : Disk) (layout : Layout) :
    Prop where
  root : ∃ names, layout.root.Spells names
  holds : ∃ tree, disk.node? layout.root = some (.folder tree) ∧ tree.Holds (size.entries modified)
  noModules : layout.modules = []

theorem manifestModules_eq_nil {size : SampleSize} {modified : Nat} {disk : Disk} {root : Path}
    {tree : Folder} (isRoot : disk.node? root = some (.folder tree))
    (holds : tree.Holds (size.entries modified)) : Layout.manifestModules disk root = [] := by
  have isPath : Path.ofText manifestName.toList = ⟨[manifestName.toList]⟩ :=
    congrArg Path.mk (List.splitOn_eq_singleton (by decide))
  have isName : [manifestName.toList].all isEntryName = true := by decide
  have noManifest : disk.file? (root.join (.ofText manifestName.toList)) = none := by
    rw [isPath, root.join_eq_descend isName (List.cons_ne_nil _ _),
      Disk.file?_descend isRoot isName]
    by_contra there
    obtain ⟨data, found⟩ := Option.ne_none_iff_exists'.mp there
    obtain ⟨file, member, same⟩ := List.mem_map.mp ((holds.fileAt?_iff _ _).mp found)
    obtain ⟨names, isNames, ⟨moduleNumber, number, rfl⟩ | ⟨note, rfl⟩⟩ := names_of_mem_files member
    · rw [isNames] at same
      cases congrArg (fun entry => entry.1.length) same
    · rw [isNames] at same
      cases congrArg (fun entry => entry.1.length) same
  rw [Layout.manifestModules, noManifest]

theorem sampledBy_writeSample {disk : Disk} {root : Path} (size : SampleSize) (modified : Nat)
    (isEmpty : disk.node? root = some (.folder .empty)) :
    let written := disk.writeSample root size modified
    size.SampledBy modified written (Layout.ofDisk written root) := by
  intro written
  have areNames : ∀ entry ∈ size.entries modified,
      entry.1.all isEntryName = true ∧ entry.1 ≠ [] := by
    intro entry member
    obtain ⟨file, inFiles, rfl⟩ := List.mem_map.mp member
    exact areNames_of_mem_files inFiles
  obtain ⟨tree, isRoot, holds⟩ := Disk.holds_writeAll isEmpty areNames
    (List.pairwise_map.mpr (apart_files size))
  rw [← writeSample_eq_writeAll] at isRoot
  obtain ⟨names, isCanonical, denotes, isFolder⟩ := Disk.exists_canonical_of_node? isRoot
  have layoutRoot : (Layout.ofDisk written root).root = .ofNames names := by
    rw [Layout.ofDisk, isCanonical, Option.getD_some]
  refine ⟨⟨names, ?_⟩, ⟨tree, ?_, holds⟩, ?_⟩
  · rw [layoutRoot]
    exact denotes.spells
  · rw [layoutRoot]
    exact isFolder
  · rw [Layout.ofDisk, isCanonical, Option.getD_some]
    exact manifestModules_eq_nil isFolder holds

namespace SampledBy

variable {size : SampleSize} {modified : Nat} {disk : Disk} {layout : Layout}
  (sampled : size.SampledBy modified disk layout)
include sampled

theorem file?_eq {file : Text × Text} (member : file ∈ size.files) :
    disk.file? (layout.root.join (.ofText file.1)) =
      some { content := .text file.2, modified } := by
  obtain ⟨tree, isRoot, holds⟩ := sampled.holds
  obtain ⟨areNames, below⟩ := areNames_of_mem_files member
  rw [layout.root.join_eq_descend areNames below, Disk.file?_descend isRoot areNames]
  exact (holds.fileAt?_iff _ _).mpr (List.mem_map.mpr ⟨file, member, rfl⟩)

theorem files_perm :
    (layout.files disk).Perm (size.files.map fun file => layout.root.join (.ofText file.1)) := by
  obtain ⟨names, spells⟩ := sampled.root
  obtain ⟨tree, isRoot, holds⟩ := sampled.holds
  have walked := Disk.walk_perm spells isRoot holds
    (fun entry member => by
      obtain ⟨file, inFiles, rfl⟩ := List.mem_map.mp member
      exact (areNames_of_mem_files inFiles).1)
    (fun entry member => by
      obtain ⟨file, inFiles, rfl⟩ := List.mem_map.mp member
      exact included_of_mem_files inFiles)
    (List.pairwise_map.mpr (apart_files size))
  have sameFiles : ((size.entries modified).map fun entry => layout.root.descend entry.1) =
      size.files.map fun file => layout.root.join (.ofText file.1) := by
    rw [entries, List.map_map]
    refine List.map_congr_left fun file member => ?_
    obtain ⟨areNames, below⟩ := areNames_of_mem_files member
    exact (layout.root.join_eq_descend areNames below).symm
  rwa [sameFiles] at walked

theorem resolve?_eq {moduleNumber number : Nat} (isModule : moduleNumber < size.moduleCount)
    (isFile : number < size.filesPerModule) :
    layout.resolve? disk (moduleName moduleNumber) (sourceName number) =
      some ⟨layout.root.join (.ofText (sourcePath moduleNumber number)), .moduleFolder⟩ := by
  have areInner := areNames_innerNames number
  have notEmpty : sourceName number ≠ [] := (isRun_sourceName number).nonempty
  have plain : (Path.ofText (sourceName number)).plain? = some ⟨innerNames number⟩ := by
    rw [ofText_sourceName]
    exact Path.plain?_of_areNames areInner (List.cons_ne_nil _ _)
  have isPlace : (layout.root.join (.ofText (moduleName moduleNumber))).join ⟨innerNames number⟩ =
      layout.root.join (.ofText (sourcePath moduleNumber number)) := by
    rw [ofText_moduleName, ofText_sourcePath,
      Path.join_eq_descend _ (areNames_moduleName _) (List.cons_ne_nil _ _),
      Path.join_eq_descend _ areInner (List.cons_ne_nil _ _),
      Path.join_eq_descend _ (areNames_sourceNames _ _) (List.cons_ne_nil _ _)]
    rfl
  have isThere :
      disk.isFile (layout.root.join (.ofText (sourcePath moduleNumber number))) = true := by
    rw [Disk.isFile, sampled.file?_eq (mem_files_of_lt isModule isFile)]
    rfl
  rw [← isPlace] at isThere ⊢
  exact Layout.resolve?_of_isFile sampled.noModules notEmpty plain isThere

end SampledBy

/-- A sample workspace that is written into an empty folder is what its size tells: the folder has
the files of the sample and no others, they have as many pointers as are counted for the size, and
each pointer can be read, stays within the lines, and leads to a source file of the sample. -/
theorem writeSample_matches_size {disk : Disk} {root : Path} {size : SampleSize} (modified : Nat)
    (isEmpty : disk.node? root = some (.folder .empty)) (fits : size.linesPerFile ≤ maxLine) :
    let written := disk.writeSample root size modified
    let layout := Layout.ofDisk written root
    (size.moduleCount = 0 ∨ size.filesPerModule = 0 → written = disk ∧ size.pointerCount = 0) ∧
    (layout.files written).Perm (size.files.map fun file => layout.root.join (.ofText file.1)) ∧
    (∀ file ∈ size.files, written.file? (layout.root.join (.ofText file.1)) =
      some { content := .text file.2, modified }) ∧
    (size.files.map fun file => (findAll file.2).length).sum = size.pointerCount ∧
    ∀ file ∈ size.files, ∀ found ∈ findAll file.2, ∃ pointer,
      Pointer.parse found.text = .ok pointer ∧
      (1 ≤ pointer.lines.first ∧ pointer.lines.first ≤ pointer.lines.last ∧
        pointer.lines.last ≤ max size.linesPerFile 1) ∧
      ∃ moduleNumber < size.moduleCount, ∃ number < size.filesPerModule,
        layout.resolve? written pointer.moduleName pointer.relativePath =
          some ⟨layout.root.join (.ofText (sourcePath moduleNumber number)), .moduleFolder⟩ := by
  intro written layout
  have sampled : size.SampledBy modified written layout :=
    sampledBy_writeSample size modified isEmpty
  refine ⟨fun none => ⟨?_, if_pos (isVoid_iff.mpr none)⟩, sampled.files_perm,
    fun file => sampled.file?_eq, size.sum_findAll, fun file member found inText => ?_⟩
  · change disk.writeSample root size modified = disk
    rw [Disk.writeSample, files, if_pos (isVoid_iff.mpr none)]
    rfl
  · obtain ⟨ordinal, isText⟩ := size.exists_pointers_of_mem_files member
    have isPointer : found.text ∈ size.pointers ordinal := isText ▸ List.mem_map_of_mem inText
    obtain ⟨position, _, isPointerText⟩ := List.mem_map.mp isPointer
    obtain ⟨someModule, someFile⟩ := pos_of_mem_files member
    have isModule := Nat.mod_lt (ordinal + position + 1) someModule
    have isFile := Nat.mod_lt (ordinal + position) someFile
    let lines := size.pointedLines position
    rw [← isPointerText]
    exact ⟨_, size.parse_pointerText fits ordinal position,
      ⟨lines.one_le_first, lines.first_le_last, size.last_pointedLines_le position⟩,
      _, isModule, _, isFile, sampled.resolve?_eq isModule isFile⟩

theorem writeSample_matches_size_of_small :
    let root := Path.ofNames ["w".toList]
    let disk := Disk.empty.makeFolder root
    disk.node? root = some (.folder .empty) ∧ small.linesPerFile ≤ maxLine ∧
      (small.files.map fun file => (findAll file.2).length).sum = 34 := by
  intro root disk
  have isEmpty : disk.node? root = some (.folder .empty) := by decide
  have fits : small.linesPerFile ≤ maxLine := by decide
  obtain ⟨_, _, _, counted, _⟩ := writeSample_matches_size 1 isEmpty fits
  exact ⟨isEmpty, fits, counted⟩

end SampleSize

end CodePointers
