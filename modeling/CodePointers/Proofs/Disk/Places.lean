import CodePointers.Proofs.Disk.Walk
import Mathlib.Data.List.Basic

/-!
Absolute paths without `..` segments spell the names that lead to a place on the disk: containment
of such paths is that of their names, and which file they denote depends on the names alone.
-/

namespace CodePointers

/-! The names that a path is made of. -/

namespace Path

/-- Whether the path is absolute and made of the names, however it is spelled. -/
def Spells (path : Path) (names : List Text) : Prop := path.parts = .root :: names.map .name

theorem map_name_injective : Function.Injective (List.map Part.name) :=
  List.map_injective_iff.mpr fun _ _ same => Part.name.inj same

section Spells

variable {path other base : Path} {names others above : List Text}

theorem Spells.names_eq (spells : path.Spells names) (also : path.Spells others) :
    names = others := by
  rw [Spells, spells] at also
  exact map_name_injective (List.cons.inj also).2

theorem Spells.congr (spells : path.Spells names) (same : path == other) : other.Spells names :=
  (beq_iff.mp same).symm.trans spells

theorem Spells.beq_iff (spells : path.Spells names) (also : other.Spells others) :
    (path == other) = true ↔ names = others := by
  rw [Path.beq_iff, spells, also, List.cons.injEq]
  exact ⟨fun same => map_name_injective same.2, fun same => ⟨rfl, congrArg _ same⟩⟩

theorem prefix_map_name_iff : above.map Part.name <+: names.map Part.name ↔ above <+: names := by
  constructor
  · rintro ⟨rest, isRest⟩
    obtain ⟨left, right, rfl, isLeft, _⟩ := List.map_eq_append_iff.mp isRest.symm
    exact ⟨right, by rw [map_name_injective isLeft]⟩
  · rintro ⟨rest, rfl⟩
    exact ⟨rest.map Part.name, List.map_append.symm⟩

theorem Spells.isWithin_iff (spells : path.Spells names) (above : base.Spells others) :
    path.isWithin base = true ↔ others <+: names := by
  rw [isWithin, List.isPrefixOf_iff_prefix, spells, above, List.cons_prefix_cons]
  simp only [true_and]
  exact prefix_map_name_iff

theorem Spells.descend (spells : base.Spells above) (areNames : names.all isEntryName = true) :
    (base.descend names).Spells (above ++ names) := by
  rw [Spells, parts_descend base areNames, spells, List.map_append]
  rfl

theorem Spells.eq_of_beq_descend {left right : List Text} (spells : base.Spells above)
    (areLeft : left.all isEntryName = true) (areRight : right.all isEntryName = true)
    (same : (base.descend left == base.descend right) = true) :
    base.descend left = base.descend right := by
  have appended := ((spells.descend areLeft).beq_iff (spells.descend areRight)).mp same
  rw [List.append_cancel_left appended]

theorem Spells.segments (spells : path.Spells names) :
    ∃ next rest, path.segments = [] :: next :: rest ∧
      innerParts (next :: rest) = names.map .name := by
  obtain ⟨segments⟩ := path
  have noRoot (segments : List Text) : Part.root ∉ innerParts segments := by
    intro member
    obtain ⟨segment, _, isRoot⟩ := List.mem_filterMap.mp member
    unfold Part.ofSegment? at isRoot
    split at isRoot
    · cases isRoot
    · split at isRoot <;> cases isRoot
  unfold Spells parts at spells
  split at spells
  · next next rest isSegments => exact ⟨next, rest, isSegments, (List.cons.inj spells).2⟩
  · cases spells
  · next isSegments =>
    refine absurd ?_ (noRoot segments)
    rw [spells]
    exact List.mem_cons_self

end Spells

end Path

/-! What is there. -/

section

variable {disk : Disk} {path : Path}

theorem Disk.pathExists_of_isFile (isFile : disk.isFile path = true) :
    disk.pathExists path = true := by
  obtain ⟨data, found⟩ := Disk.isFile_iff.mp isFile
  exact Option.isSome_of_eq_some found

theorem Disk.pathExists_of_isFolder (isFolder : disk.isFolder path = true) :
    disk.pathExists path = true := by
  unfold Disk.isFolder at isFolder
  split at isFolder
  · next tree found => exact Option.isSome_of_eq_some found
  · cases isFolder

theorem Path.isAbsolute_of_locate? {found : List Text} (located : disk.locate? path = some found) :
    path.isAbsolute = true := by
  unfold Disk.locate? at located
  split at located
  · next absolute => exact absolute
  · cases located

theorem Path.isAbsolute_of_pathExists (isThere : disk.pathExists path = true) :
    path.isAbsolute = true := by
  obtain ⟨node, isNode⟩ := Option.isSome_iff_exists.mp isThere
  obtain ⟨found, located, _⟩ := Option.bind_eq_some_iff.mp isNode
  exact isAbsolute_of_locate? located

theorem Path.isAbsolute_of_isFile (isFile : disk.isFile path = true) : path.isAbsolute = true :=
  isAbsolute_of_pathExists (Disk.pathExists_of_isFile isFile)

end

/-! What stands at the names. -/

def Node.data? : Node → Option File
  | .file data => some data
  | .folder _ => none

namespace Disk

def fileAt? (disk : Disk) (names : List Text) : Option File :=
  (disk.root.at? names).bind Node.data?

theorem file?_eq (disk : Disk) (path : Path) :
    disk.file? path = (disk.node? path).bind Node.data? := by
  unfold file?
  split
  · next found =>
    rw [found]
    rfl
  · next noFile =>
    cases found : disk.node? path with
    | none => rfl
    | some node =>
        cases node with
        | file data => exact absurd found (noFile data)
        | folder tree => rfl

theorem at?_append (disk : Disk) (names more : List Text) :
    disk.root.at? (names ++ more) = (disk.root.at? names).bind (Node.at? more) := by
  rw [Node.at?_folder, Node.at?_append, ← Node.at?_folder]

theorem foldlM_step_eq {disk : Disk} {segments names start found : List Text}
    (spelled : Path.innerParts segments = names.map .name)
    (followed : segments.foldlM disk.step start = some found) : found = start ++ names := by
  induction segments generalizing names start with
  | nil =>
      cases names with
      | nil =>
          cases followed
          rw [List.append_nil]
      | cons name names => cases spelled
  | cons segment rest ih =>
      rw [List.foldlM_cons] at followed
      obtain ⟨next, stepped, followed⟩ := Option.bind_eq_some_iff.mp followed
      unfold step at stepped
      split at stepped
      -- A filler leaves the names as they are, and any other segment is the next of them.
      · cases isPart : Part.ofSegment? segment with
        | none =>
            rw [Path.innerParts, List.filterMap_cons_none isPart] at spelled
            rw [isPart] at stepped
            cases stepped
            exact ih spelled followed
        | some part =>
            rw [Path.innerParts, List.filterMap_cons_some isPart] at spelled
            cases names with
            | nil => cases spelled
            | cons name names =>
                rw [List.map_cons, List.cons.injEq] at spelled
                obtain ⟨rfl, spelled⟩ := spelled
                have isName := Path.segment_of_ofSegment? isPart
                rw [isPart] at stepped
                dsimp only at stepped
                split at stepped
                · cases stepped
                  rw [ih spelled followed, ← isName, Part.segment, List.append_assoc,
                    List.singleton_append]
                · cases stepped
      · cases stepped

theorem folder_of_folder_append {disk : Disk} {names more : List Text} {tree : Folder}
    (found : disk.root.at? (names ++ more) = some (.folder tree)) :
    ∃ above, disk.root.at? names = some (.folder above) := by
  rw [at?_append] at found
  obtain ⟨node, isNode, below⟩ := Option.bind_eq_some_iff.mp found
  cases node with
  | folder above => exact ⟨above, isNode⟩
  | file data =>
      rw [Node.at?_file] at below
      split at below <;> cases below

theorem foldlM_step_of_folder {disk : Disk} {segments names start : List Text} {tree : Folder}
    (spelled : Path.innerParts segments = names.map .name)
    (isFolder : disk.root.at? (start ++ names) = some (.folder tree)) :
    segments.foldlM disk.step start = some (start ++ names) := by
  induction segments generalizing names start with
  | nil =>
      cases names with
      | nil => exact congrArg some (List.append_nil start).symm
      | cons name names => cases spelled
  | cons segment rest ih =>
      obtain ⟨above, isAbove⟩ := folder_of_folder_append isFolder
      cases isPart : Part.ofSegment? segment with
      | none =>
          rw [Path.innerParts, List.filterMap_cons_none isPart] at spelled
          rw [List.foldlM_cons, step, isAbove, isPart]
          exact ih spelled isFolder
      | some part =>
          rw [Path.innerParts, List.filterMap_cons_some isPart] at spelled
          cases names with
          | nil => cases spelled
          | cons name names =>
              rw [List.map_cons, List.cons.injEq] at spelled
              obtain ⟨rfl, spelled⟩ := spelled
              obtain rfl : name = segment := Path.segment_of_ofSegment? isPart
              have regrouped : start ++ name :: names = start ++ [name] ++ names := by simp
              rw [regrouped] at isFolder ⊢
              obtain ⟨inner, isInner⟩ := folder_of_folder_append isFolder
              have inAbove : (above.get? name).isSome := by
                rw [at?_concat, isAbove] at isInner
                exact Option.isSome_of_eq_some isInner
              rw [List.foldlM_cons, step, isAbove, isPart]
              simp only [inAbove, if_true]
              exact ih spelled isFolder

end Disk

namespace Path

variable {disk : Disk} {path base : Path} {names above : List Text}

theorem Spells.locate?_eq (spells : path.Spells names) :
    disk.locate? path =
      ((path.segments.drop 1).foldlM disk.step []) := by
  obtain ⟨next, rest, isSegments, _⟩ := spells.segments
  rw [Disk.locate?, if_pos]
  rw [isAbsolute, isSegments]

theorem Spells.node?_eq_some (spells : path.Spells names) {node : Node}
    (found : disk.node? path = some node) : disk.root.at? names = some node := by
  obtain ⟨next, rest, isSegments, spelled⟩ := spells.segments
  obtain ⟨located, isLocated, isNode⟩ := Option.bind_eq_some_iff.mp found
  rw [spells.locate?_eq, isSegments] at isLocated
  rw [Disk.foldlM_step_eq spelled isLocated] at isNode
  exact isNode

theorem Spells.node?_eq_folder_iff (spells : path.Spells names) {tree : Folder} :
    disk.node? path = some (.folder tree) ↔ disk.root.at? names = some (.folder tree) := by
  refine ⟨spells.node?_eq_some, fun isFolder => ?_⟩
  obtain ⟨next, rest, isSegments, spelled⟩ := spells.segments
  have located : disk.locate? path = some names := by
    rw [spells.locate?_eq, isSegments]
    exact Disk.foldlM_step_of_folder spelled isFolder
  rw [Disk.node?_eq, located]
  exact isFolder

/-- Whether a path denotes what the names lead to, on every disk. -/
structure Denotes (path : Path) (names : List Text) : Prop where
  spells : path.Spells names
  node?_eq : ∀ disk : Disk, disk.node? path = disk.root.at? names

theorem Spells.exists_last (spells : path.Spells names) :
    ∃ inner last, path.segments = [] :: (inner ++ [last]) ∧
      innerParts (inner ++ [last]) = names.map .name := by
  obtain ⟨next, rest, isSegments, spelled⟩ := spells.segments
  obtain ⟨inner, last, isConcat⟩ : ∃ inner last, next :: rest = inner ++ [last] :=
    ⟨_, _, (List.dropLast_append_getLast (List.cons_ne_nil next rest)).symm⟩
  rw [isConcat] at isSegments spelled
  exact ⟨inner, last, isSegments, spelled⟩

theorem eq_concat_of_last {inner : List Text} {last : Text} (plain : isFiller last = false)
    (spelled : innerParts (inner ++ [last]) = names.map .name) :
    ∃ above, innerParts inner = above.map .name ∧ names = above ++ [last] ∧
      Part.ofSegment? last = some (.name last) := by
  obtain ⟨part, isPart⟩ := exists_part plain
  have lastPart : innerParts [last] = [part] := List.filterMap_cons_some isPart
  rw [innerParts_append, lastPart] at spelled
  obtain ⟨above, below, rfl, isAbove, isBelow⟩ := List.map_eq_append_iff.mp spelled.symm
  obtain ⟨name, rfl, rfl⟩ := List.map_eq_singleton_iff.mp isBelow
  obtain rfl : name = last := segment_of_ofSegment? isPart
  exact ⟨above, isAbove.symm, rfl, isPart⟩

/-- A path that does not end with a slash or a `.` denotes the same place on every disk: whatever
else it is spelled with, each folder on the way has to be there anyway. -/
theorem Spells.denotes_of_last (spells : path.Spells names) {last : Text}
    (isLast : path.segments.getLast? = some last) (plain : isFiller last = false) :
    path.Denotes names := by
  refine ⟨spells, fun disk => ?_⟩
  obtain ⟨inner, other, isSegments, spelled⟩ := spells.exists_last
  obtain rfl : other = last := by
    rw [isSegments, ← List.cons_append, List.getLast?_concat] at isLast
    exact Option.some.inj isLast
  obtain ⟨above, isAbove, rfl, isPart⟩ := eq_concat_of_last plain spelled
  have followed : disk.node? path = (inner.foldlM disk.step []).bind fun found =>
      (disk.root.at? found).bind (Node.get? other) := by
    have located := disk.locate?_cons_concat [] inner other
    rw [if_pos rfl, ← isSegments] at located
    rw [Disk.node?_eq, located, Option.bind_assoc]
    exact congrArg _ (funext fun found => disk.at?_step found isPart)
  rw [followed, Disk.at?_concat]
  cases found : inner.foldlM disk.step [] with
  | some reached => rw [Disk.foldlM_step_eq isAbove found]; rfl
  | none =>
      cases atAbove : disk.root.at? above with
      | none => rfl
      | some node =>
          cases node with
          | file data => rfl
          | folder tree =>
              have fromRoot : disk.root.at? ([] ++ above) = some (.folder tree) := atAbove
              rw [Disk.foldlM_step_of_folder isAbove fromRoot] at found
              cases found

theorem not_isFiller_of_isFile {last : Text} (isFile : disk.isFile path = true)
    (isLast : path.segments.getLast? = some last) : isFiller last = false := by
  obtain ⟨segments⟩ := path
  obtain ⟨init, rfl⟩ := List.getLast?_eq_some_iff.mp isLast
  obtain ⟨data, isData⟩ := Disk.isFile_iff.mp isFile
  obtain ⟨found, isFound, isNode⟩ := Option.bind_eq_some_iff.mp isData
  refine Bool.eq_false_iff.mpr fun filler => ?_
  cases init with
  | nil => cases last <;> cases isFound
  | cons head inner =>
      rw [List.cons_append, disk.locate?_cons_concat] at isFound
      split at isFound
      · obtain ⟨reached, _, stepped⟩ := Option.bind_eq_some_iff.mp isFound
        -- What has a filler behind it is a folder.
        unfold Disk.step at stepped
        split at stepped
        · next tree isFolder =>
          rw [ofSegment?_eq_none_iff.mpr filler] at stepped
          cases stepped
          cases isFolder.symm.trans isNode
        · cases stepped
      · cases isFound

theorem Spells.denotes_of_isFile (spells : path.Spells names) {disk : Disk}
    (isFile : disk.isFile path = true) : path.Denotes names := by
  obtain ⟨inner, last, isSegments, _⟩ := spells.exists_last
  have isLast : path.segments.getLast? = some last := by
    rw [isSegments, ← List.cons_append, List.getLast?_concat]
  exact spells.denotes_of_last isLast (not_isFiller_of_isFile isFile isLast)

theorem getLast?_child (path : Path) (name : Text) :
    (path.child name).segments.getLast? = some name := by
  obtain ⟨segments⟩ := path
  by_cases slash : segments.getLast? = some []
  · obtain ⟨init, rfl⟩ := List.getLast?_eq_some_iff.mp slash
    rw [child_of_concat_nil, List.getLast?_concat]
  · rw [child_of_getLast?_ne slash, List.getLast?_concat]

theorem descend_concat (base : Path) (names : List Text) (name : Text) :
    base.descend (names ++ [name]) = (base.descend names).child name := by
  rw [descend, List.foldl_append]
  rfl

theorem Spells.denotes_descend (spells : base.Spells above)
    (areNames : names.all isEntryName = true) (below : names ≠ []) :
    (base.descend names).Denotes (above ++ names) := by
  obtain ⟨inner, last, rfl⟩ : ∃ inner last, names = inner ++ [last] :=
    ⟨_, _, (List.dropLast_append_getLast below).symm⟩
  have isName : isEntryName last = true := List.all_eq_true.mp areNames last (by simp)
  refine (spells.descend areNames).denotes_of_last ?_
    (isFiller_of_ofSegment? (ofSegment?_of_isEntryName isName))
  rw [descend_concat, getLast?_child]

theorem Denotes.descend (denotes : base.Denotes above) (areNames : names.all isEntryName = true) :
    (base.descend names).Denotes (above ++ names) := by
  cases names with
  | nil => rwa [List.append_nil]
  | cons name rest => exact denotes.spells.denotes_descend areNames (List.cons_ne_nil name rest)

theorem Denotes.file?_eq (denotes : path.Denotes names) (disk : Disk) :
    disk.file? path = disk.fileAt? names := by
  rw [Disk.file?_eq, denotes.node?_eq]
  rfl

theorem Denotes.isFile_iff (denotes : path.Denotes names) :
    disk.isFile path = true ↔ (disk.fileAt? names).isSome := by
  rw [Disk.isFile, denotes.file?_eq]

end Path

end CodePointers
