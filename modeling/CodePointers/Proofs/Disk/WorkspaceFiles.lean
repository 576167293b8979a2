import CodePointers.Layout
import CodePointers.Proofs.Disk.Changes
import CodePointers.Proofs.Disk.Joins
import Mathlib.Data.List.Pairwise

/-!
Which files are scanned for pointers: below an existing place, those of its files that are
indexable, whatever way they are found.
-/

namespace CodePointers

/-! Paths that are equal up to their spelling. -/

namespace Path

variable {path other base : Path}

theorem isWithin_congr (same : path == other) : path.isWithin base = other.isWithin base := by
  unfold isWithin
  rw [Path.beq_iff.mp same]

theorem isWithin_self (path : Path) : path.isWithin path = true :=
  List.isPrefixOf_iff_prefix.mpr List.prefix_rfl

theorem fileName?_congr (same : path == other) : path.fileName? = other.fileName? := by
  unfold fileName?
  rw [Path.beq_iff.mp same]

end Path

theorem hasIndexedExtension_congr {path other : Path} (same : path == other) :
    hasIndexedExtension path = hasIndexedExtension other := by
  unfold hasIndexedExtension Path.fileExtension?
  rw [Path.fileName?_congr same]

theorem isIndexable_congr (root : Path) {path other : Path} (same : path == other) :
    isIndexable root path = isIndexable root other := by
  unfold isIndexable hasExcludedAncestor
  rw [hasIndexedExtension_congr same, Path.isWithin_congr same, Path.beq_iff.mp same]

theorem hasExcludedAncestor_of_parts {root path : Path} {names : List Text}
    (below : path.parts = root.parts ++ names.map .name) :
    hasExcludedAncestor root path = names.dropLast.any isExcludedName := by
  have within : path.isWithin root = true := by
    rw [Path.isWithin, List.isPrefixOf_iff_prefix, below]
    exact List.prefix_append ..
  unfold hasExcludedAncestor
  rw [if_pos within, below, List.drop_left]
  dsimp only
  rw [← List.map_dropLast, List.any_map]
  rfl

/-- What lies at or beneath a path with an excluded ancestor has one too. The ancestors of the root
do not count for what lies beneath it, so the path must not be one of them. -/
theorem hasExcludedAncestor_of_isWithin {root path file : Path}
    (excluded : hasExcludedAncestor root path = true) (beneath : file.isWithin path = true)
    (notAbove : path.isWithin root = true ∨ root.isWithin path = false) :
    hasExcludedAncestor root file = true := by
  have still {inner below : List Part} {test : Part → Bool}
      (found : inner.dropLast.any test = true) :
      (inner ++ below).dropLast.any test = true := by
    rw [List.any_eq_true] at found ⊢
    obtain ⟨part, member, isExcluded⟩ := found
    refine ⟨part, ?_, isExcluded⟩
    rw [List.dropLast_append]
    split
    · exact member
    · exact List.mem_append_left _ ((List.dropLast_prefix inner).mem member)
  simp only [Path.isWithin, ← Bool.not_eq_true, List.isPrefixOf_iff_prefix] at beneath notAbove
  unfold hasExcludedAncestor at excluded ⊢
  simp only [Path.isWithin, List.isPrefixOf_iff_prefix] at excluded ⊢
  obtain ⟨below, isBelow⟩ := id beneath
  by_cases within : root.parts <+: path.parts
  · rw [if_pos within] at excluded
    rw [if_pos (within.trans beneath), ← isBelow, List.drop_append_of_le_length within.length_le]
    exact still excluded
  · have outside : ¬root.parts <+: file.parts := fun inRoot =>
      (List.prefix_or_prefix_of_prefix inRoot beneath).elim within (notAbove.resolve_left within)
    rw [if_neg within] at excluded
    rw [if_neg outside, ← isBelow]
    exact still excluded

theorem isIndexable_descend_iff {root : Path} {names : List Text}
    (areNames : names.all isEntryName = true) :
    isIndexable root (root.descend names) = true ↔
      hasIndexedExtension (root.descend names) = true ∧
        ∀ folder ∈ names.dropLast, isExcludedName folder = false := by
  rw [isIndexable, hasExcludedAncestor_of_parts (Path.parts_descend root areNames)]
  simp

theorem hasExcludedAncestor_of_isIndexable {root file : Path}
    (indexable : isIndexable root file = true) :
    hasExcludedAncestor root file = false := by
  rw [isIndexable, Bool.and_eq_true, Bool.not_eq_true'] at indexable
  exact indexable.2

theorem Disk.isWithin_of_mem_walk {disk : Disk} {start file : Path}
    (member : file ∈ disk.walk start) :
    file.isWithin start = true := by
  obtain ⟨names, areNames, rfl, _⟩ := Disk.mem_walk_iff.mp member
  rw [Path.isWithin, List.isPrefixOf_iff_prefix, Path.parts_descend start areNames]
  exact List.prefix_append ..

theorem Layout.indexableFiles_eq (disk : Disk) (layout : Layout) :
    layout.indexableFiles disk = (disk.walk layout.root).filter (isIndexable layout.root) := by
  refine List.filter_congr fun file member => ?_
  obtain ⟨names, areNames, rfl, notExcluded, _⟩ := Disk.mem_walk_iff.mp member
  rw [Bool.eq_iff_iff, isIndexable_descend_iff areNames]
  exact ⟨fun indexed => ⟨indexed, notExcluded⟩, And.left⟩

theorem Layout.indexableFiles_distinct (disk : Disk) (layout : Layout) :
    (layout.indexableFiles disk).Pairwise fun left right => (left == right) = false :=
  (disk.walk_distinct layout.root).filter hasIndexedExtension

theorem Layout.eq_of_mem_indexableFiles {disk : Disk} {layout : Layout} {file other : Path}
    (member : file ∈ layout.indexableFiles disk) (also : other ∈ layout.indexableFiles disk)
    (same : (other == file) = true) : other = file := by
  have agree := (layout.indexableFiles_distinct disk).imp (S := fun left right : Path =>
    (left == right) = true → left = right) fun apart same => by rw [apart] at same; cases same
  have symm : Std.Symm fun left right : Path => (left == right) = true → left = right :=
    ⟨fun _ _ agree same => (agree (BEq.symm same)).symm⟩
  exact agree.forall_of_forall (fun _ _ _ => rfl) also member same

theorem Layout.isIndexable_of_mem_indexableFiles {disk : Disk} {layout : Layout} {file : Path}
    (member : file ∈ layout.indexableFiles disk) : isIndexable layout.root file = true := by
  rw [indexableFiles_eq] at member
  exact (List.mem_filter.mp member).2

theorem Layout.isFile_of_mem_indexableFiles {disk : Disk} {layout : Layout} {file : Path}
    (member : file ∈ layout.indexableFiles disk) : disk.isFile file = true := by
  obtain ⟨_, _, _, _, isFile⟩ := Disk.mem_walk_iff.mp (List.mem_filter.mp member).1
  exact isFile

namespace Path

variable {disk : Disk} {root start source : Path} {above inner names : List Text}

theorem Spells.isFile_descend_iff (spells : start.Spells above)
    (isThere : disk.pathExists start = true) (areNames : names.all isEntryName = true) :
    disk.isFile (start.descend names) = true ↔ (disk.fileAt? (above ++ names)).isSome := by
  obtain ⟨node, isNode⟩ := Option.isSome_iff_exists.mp isThere
  rw [Disk.isFile, Disk.file?_eq, Disk.node?_descend disk start areNames, Disk.fileAt?,
    Disk.at?_append, isNode, spells.node?_eq_some isNode]

theorem exists_walked_iff (rootSpells : root.Spells above)
    (startSpells : start.Spells (above ++ inner))
    (isThere : disk.pathExists start = true) (spells : source.Spells names) :
    (∃ file ∈ (disk.walk start).filter (isIndexable root), (file == source) = true) ↔
      source.isWithin start = true ∧ isIndexable root source = true ∧
        (disk.fileAt? names).isSome := by
  rw [spells.isWithin_iff startSpells]
  constructor
  · rintro ⟨file, member, same⟩
    obtain ⟨walked, indexable⟩ := List.mem_filter.mp member
    obtain ⟨more, areNames, rfl, _, isFile⟩ := Disk.mem_walk_iff.mp walked
    have isNames : above ++ inner ++ more = names :=
      (startSpells.descend areNames).names_eq (spells.congr (BEq.symm same))
    rw [startSpells.isFile_descend_iff isThere areNames, isNames] at isFile
    rw [isIndexable_congr root same] at indexable
    exact ⟨⟨more, isNames⟩, indexable, isFile⟩
  · rintro ⟨⟨more, rfl⟩, indexable, isFile⟩
    have areNames : more.all isEntryName = true := by
      have all := Disk.areNames_of_fileAt? isFile
      rw [List.all_append, Bool.and_eq_true] at all
      exact all.2
    have same : (start.descend more == source) = true :=
      ((startSpells.descend areNames).beq_iff spells).mpr rfl
    have below : source.parts = root.parts ++ (inner ++ more).map .name := by
      rw [spells, rootSpells, List.append_assoc, List.map_append]
      rfl
    -- No folder on the way from the root is excluded, and those below the start are among them.
    have notExcluded : ∀ folder ∈ more.dropLast, isExcludedName folder = false := by
      rw [isIndexable, hasExcludedAncestor_of_parts below] at indexable
      intro folder member
      have inBoth : folder ∈ (inner ++ more).dropLast := by
        rw [List.dropLast_append_of_ne_nil (by rintro rfl; cases member)]
        exact List.mem_append_right _ member
      simp only [Bool.and_eq_true, Bool.not_eq_true', List.any_eq_false] at indexable
      exact Bool.eq_false_iff.mpr (indexable.2 folder inBoth)
    refine ⟨start.descend more, List.mem_filter.mpr ⟨Disk.mem_walk_iff.mpr
      ⟨more, areNames, rfl, notExcluded, ?_⟩, ?_⟩, same⟩
    · exact (startSpells.isFile_descend_iff isThere areNames).mpr isFile
    · rw [isIndexable_congr root same, indexable]

theorem exists_indexable_iff {layout : Layout} (root : layout.root.Spells above)
    (isThere : disk.pathExists layout.root = true) (spells : source.Spells names) :
    (∃ file ∈ layout.indexableFiles disk, (file == source) = true) ↔
      source.isWithin layout.root = true ∧ isIndexable layout.root source = true ∧
        (disk.fileAt? names).isSome := by
  rw [layout.indexableFiles_eq]
  have rootSpells : layout.root.Spells (above ++ []) := by rw [List.append_nil]; exact root
  exact exists_walked_iff root rootSpells isThere spells

end Path

/-- Whether a file lies below the root without a `..` segment and is one that is scanned. -/
structure Layout.Proper (layout : Layout) (file : Path) : Prop where
  within : file.isWithin layout.root = true
  indexable : isIndexable layout.root file = true
  plain : Part.parent ∉ file.parts

namespace Layout

variable {disk : Disk} {layout : Layout} {file : Path}

theorem proper_of_mem_indexableFiles (plain : Part.parent ∉ layout.root.parts)
    (member : file ∈ layout.indexableFiles disk) : layout.Proper file := by
  rw [indexableFiles_eq] at member
  obtain ⟨walked, indexable⟩ := List.mem_filter.mp member
  refine ⟨Disk.isWithin_of_mem_walk walked, indexable, ?_⟩
  obtain ⟨names, areNames, rfl, _⟩ := Disk.mem_walk_iff.mp walked
  rw [Path.parts_descend layout.root areNames]
  simp [plain]

theorem Proper.exists_indexable (proper : layout.Proper file)
    (isThere : disk.pathExists layout.root = true) {target : Path}
    (same : (target == file) = true) (isFile : disk.isFile target = true) :
    ∃ found ∈ layout.indexableFiles disk, (found == file) = true := by
  have plain : Part.parent ∉ target.parts := by
    rw [Path.beq_iff.mp same]
    exact proper.plain
  have rootPlain : Part.parent ∉ layout.root.parts := fun member =>
    proper.plain ((List.isPrefixOf_iff_prefix.mp proper.within).subset member)
  obtain ⟨names, spells⟩ := Path.exists_spells (Path.isAbsolute_of_isFile isFile) plain
  obtain ⟨above, root⟩ := Path.exists_spells (Path.isAbsolute_of_pathExists isThere) rootPlain
  have fileSpells := spells.congr same
  refine (Path.exists_indexable_iff root isThere fileSpells).mpr
    ⟨proper.within, proper.indexable, ?_⟩
  exact (spells.denotes_of_isFile isFile).isFile_iff.mp isFile

theorem indexableFiles_eq_nil (missing : disk.pathExists layout.root = false) :
    layout.indexableFiles disk = [] := by
  rw [Disk.pathExists, Option.isSome_eq_false_iff, Option.isNone_iff_eq_none] at missing
  rw [indexableFiles, files, Disk.walk, missing]
  rfl

end Layout

/-! Disks on which every file can be read. -/

def Disk.Legible (disk : Disk) (base : Path) : Prop :=
  ∀ names, names.all isEntryName = true → ∀ data,
    disk.file? (base.descend names) = some data → ∃ text, data.content = .text text

def Content.isText : Content → Bool
  | .text _ => true
  | .binary _ => false

def Folder.isText : Folder → Bool
  | empty => true
  | fileEntry _ data rest => data.content.isText && rest.isText
  | folderEntry _ inner rest => inner.isText && rest.isText

theorem Folder.isText_of_at? {folder : Folder} (isText : folder.isText = true) {names : List Text}
    {data : File} (found : Node.at? names (.folder folder) = some (.file data)) :
    data.content.isText = true := by
  cases names with
  | nil => cases found
  | cons name names =>
      induction folder generalizing name names with
      | empty => cases found
      | fileEntry other own rest ih =>
          rw [Folder.isText, Bool.and_eq_true] at isText
          rw [Node.at?_cons, Node.get?, get?] at found
          split at found
          · rw [Option.bind_some, Node.at?_file] at found
            split at found
            · cases found
              exact isText.1
            · cases found
          · exact ih isText.2 name names found
      | folderEntry other inner rest innerIh restIh =>
          rw [Folder.isText, Bool.and_eq_true] at isText
          rw [Node.at?_cons, Node.get?, get?] at found
          split at found
          · cases names with
            | nil => cases found
            | cons next names => exact innerIh isText.1 next names found
          · exact restIh isText.2 name names found

theorem Disk.legible_of_isText {disk : Disk} (isText : disk.root.isText = true) (base : Path) :
    disk.Legible base := by
  intro names _ data found
  have ofContent (content : Content) (isText : content.isText = true) :
      ∃ text, content = .text text := by
    cases content with
    | text text => exact ⟨text, rfl⟩
    | binary size => cases isText
  rw [file?_eq] at found
  obtain ⟨node, isNode, isData⟩ := Option.bind_eq_some_iff.mp found
  obtain ⟨located, _, atLocated⟩ := Option.bind_eq_some_iff.mp isNode
  cases node with
  | folder tree => cases isData
  | file own =>
      cases isData
      rw [Node.at?_folder] at atLocated
      exact ofContent _ (Folder.isText_of_at? isText atLocated)

end CodePointers
