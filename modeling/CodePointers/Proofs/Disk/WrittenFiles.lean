import CodePointers.Proofs.Disk.Spellings
import Mathlib.Data.List.Induction

/-!
Files that are written one after the other into an empty folder. As long as none of them stands
where another one needs a folder, the folder has all of them in the end, and nothing else.
-/

namespace CodePointers

def Apart (left right : List Text) : Prop := ¬left <+: right ∧ ¬right <+: left

theorem apart_or_below (names other : List Text) :
    Apart names other ∨ (∃ more, other = names ++ more) ∨
      ∃ more, more ≠ [] ∧ names = other ++ more := by
  by_cases below : names <+: other
  · obtain ⟨more, isOther⟩ := below
    exact .inr (.inl ⟨more, isOther.symm⟩)
  · by_cases above : other <+: names
    · obtain ⟨more, rfl⟩ := above
      refine .inr (.inr ⟨more, fun none => below ?_, rfl⟩)
      simp [none]
    · exact .inl ⟨below, above⟩

namespace Folder

/-! What a put node leaves. -/

theorem putAt_cons {folder : Folder} {node : Node} {name : Text} {rest : List Text}
    (below : rest ≠ []) : folder.putAt node (name :: rest) =
      folder.put name (.folder ((folder.inner name).putAt node rest)) := by
  obtain ⟨next, others, rfl⟩ := List.exists_cons_of_ne_nil below
  rfl

theorem at?_inner {folder : Folder} {name : Text} {rest : List Text} (below : rest ≠ []) :
    Node.at? rest (.folder (folder.inner name)) = Node.at? (name :: rest) (.folder folder) := by
  obtain ⟨next, others, rfl⟩ := List.exists_cons_of_ne_nil below
  rw [Node.at?_cons name, Node.get?, inner]
  cases found : folder.get? name with
  | none => rfl
  | some node => cases node <;> rfl

theorem at?_putAt_of_apart {folder : Folder} {names other : List Text} (node : Node)
    (apart : Apart names other) :
    Node.at? other (.folder (folder.putAt node names)) = Node.at? other (.folder folder) := by
  induction names generalizing folder other with
  | nil => exact absurd List.nil_prefix apart.1
  | cons name rest ih =>
      cases other with
      | nil => exact absurd List.nil_prefix apart.2
      | cons first others =>
          rw [Apart, List.cons_prefix_cons, List.cons_prefix_cons] at apart
          by_cases same : name = first
          · subst same
            have restApart : Apart rest others := by simpa [Apart] using apart
            have below : rest ≠ [] := fun none => restApart.1 (none ▸ List.nil_prefix)
            have otherBelow : others ≠ [] := fun none => restApart.2 (none ▸ List.nil_prefix)
            rw [putAt_cons below, at?_cons_put, if_pos rfl, ih restApart, at?_inner otherBelow]
          · by_cases below : rest = []
            · rw [below, putAt, at?_cons_put, if_neg same]
            · rw [putAt_cons below, at?_cons_put, if_neg same]

theorem at?_putAt_above {folder : Folder} {above more : List Text} (node : Node)
    (below : more ≠ []) :
    ∃ tree, Node.at? above (.folder (folder.putAt node (above ++ more))) = some (.folder tree) := by
  induction above generalizing folder with
  | nil => exact ⟨_, rfl⟩
  | cons name rest ih =>
      rw [List.cons_append, putAt_cons (List.append_ne_nil_of_right_ne_nil rest below),
        at?_cons_put, if_pos rfl]
      exact ih

theorem at?_putAt_append {folder tree : Folder} {above names : List Text} (node : Node)
    (below : names ≠ []) (isFolder : Node.at? above (.folder folder) = some (.folder tree)) :
    Node.at? above (.folder (folder.putAt node (above ++ names))) =
      some (.folder (tree.putAt node names)) := by
  induction above generalizing folder with
  | nil =>
      cases isFolder
      rfl
  | cons name rest ih =>
      obtain ⟨other, isOther, below'⟩ := Option.bind_eq_some_iff.mp isFolder
      obtain ⟨own, rfl⟩ := folder_of_at? below'
      rw [Node.get?] at isOther
      have isOwn : folder.inner name = own := by rw [inner, isOther]
      rw [List.cons_append, putAt_cons (List.append_ne_nil_of_right_ne_nil rest below),
        at?_cons_put, if_pos rfl, isOwn]
      exact ih below'

/-! Folders with known files. -/

/-- Whether a folder has the given files, and apart from them only the folders on the way. -/
structure Holds (folder : Folder) (files : List (List Text × File)) : Prop where
  fileAt?_iff : ∀ names data, folder.fileAt? names = some data ↔ (names, data) ∈ files
  onTheWay : ∀ names node, Node.at? names (.folder folder) = some node →
    names = [] ∨ ∃ file ∈ files, names <+: file.1

variable {folder : Folder} {files : List (List Text × File)} {names : List Text}

theorem holds_empty : empty.Holds [] where
  fileAt?_iff names data := by
    cases names <;> exact ⟨nofun, nofun⟩
  onTheWay names node found := by
    cases names with
    | nil => exact .inl rfl
    | cons name rest => cases found

theorem Holds.at?_eq_none (holds : folder.Holds files) (below : names ≠ [])
    (apart : ∀ file ∈ files, Apart file.1 names) : Node.at? names (.folder folder) = none := by
  by_contra there
  obtain ⟨node, isNode⟩ := Option.ne_none_iff_exists'.mp there
  rcases holds.onTheWay names node isNode with isNil | ⟨file, member, isPrefix⟩
  · exact below isNil
  · exact (apart file member).2 isPrefix

theorem Holds.put (holds : folder.Holds files) (below : names ≠ []) (data : File)
    (apart : ∀ file ∈ files, Apart file.1 names) :
    (folder.putAt (.file data) names).Holds (files ++ [(names, data)]) where
  fileAt?_iff other found := by
    rw [List.mem_append, List.mem_singleton, Prod.mk.injEq, fileAt?]
    -- The place that is asked for lies elsewhere, at or below the new file, or on the way to it.
    rcases apart_or_below names other with away | ⟨more, rfl⟩ | ⟨more, some, rfl⟩
    · have differs : other ≠ names := fun same => away.1 (same ▸ List.prefix_refl names)
      rw [at?_putAt_of_apart _ away]
      exact (holds.fileAt?_iff other found).trans (by simp [differs])
    · have notBefore : (names ++ more, found) ∉ files := fun member =>
        (apart _ member).2 (List.prefix_append names more)
      rw [at?_putAt below, Node.at?_file]
      by_cases isNil : more = []
      · rw [isNil, List.append_nil] at notBefore ⊢
        simp [notBefore, Node.data?, eq_comm]
      · simp [notBefore, isNil]
    · obtain ⟨tree, isFolder⟩ := @at?_putAt_above folder other more (.file data) some
      have notBefore : (other, found) ∉ files := fun member =>
        (apart _ member).1 (List.prefix_append other more)
      rw [isFolder]
      simp [notBefore, some, Node.data?]
  onTheWay other node isNode := by
    rcases apart_or_below names other with away | ⟨more, rfl⟩ | ⟨more, _, rfl⟩
    · rw [at?_putAt_of_apart _ away] at isNode
      rcases holds.onTheWay other node isNode with isNil | ⟨file, member, isPrefix⟩
      · exact .inl isNil
      · exact .inr ⟨file, List.mem_append_left _ member, isPrefix⟩
    · rw [at?_putAt below, Node.at?_file] at isNode
      split at isNode
      · next isNil =>
        refine .inr ⟨(names, data), List.mem_append_right _ List.mem_cons_self, ?_⟩
        simp [isNil]
      · cases isNode
    · exact .inr ⟨(other ++ more, data), List.mem_append_right _ List.mem_cons_self,
        List.prefix_append other more⟩

end Folder

/-! Paths to what is there stay. -/

namespace Disk

def Extends (disk next : Disk) : Prop :=
  ∀ names node, disk.root.at? names = some node → ∃ other, next.root.at? names = some other ∧
    ∀ tree, node = .folder tree → ∃ inner, other = .folder inner

variable {disk next : Disk}

theorem Extends.step (kept : Extends disk next) {names found : List Text} {segment : Text}
    (stepped : disk.step names segment = some found) : next.step names segment = some found := by
  unfold Disk.step at stepped
  split at stepped
  · next folder isFolder =>
    obtain ⟨other, isOther, stays⟩ := kept names _ isFolder
    obtain ⟨inner, rfl⟩ := stays folder rfl
    rw [Disk.step, isOther]
    split at stepped
    · exact stepped
    · exact stepped
    · split at stepped
      · next inFolder =>
        obtain ⟨node, isNode⟩ := Option.isSome_iff_exists.mp inFolder
        have below : disk.root.at? (names ++ [segment]) = some node := by
          rw [at?_concat, isFolder]
          exact isNode
        obtain ⟨also, isAlso, _⟩ := kept _ node below
        rw [at?_concat, isOther] at isAlso
        have inInner : (inner.get? segment).isSome := Option.isSome_of_eq_some isAlso
        simpa [inInner] using stepped
      · cases stepped
  · cases stepped

theorem Extends.locate? (kept : Extends disk next) {path : Path} {found : List Text}
    (located : disk.locate? path = some found) : next.locate? path = some found := by
  have steps (segments start : List Text)
      (followed : segments.foldlM disk.step start = some found) :
      segments.foldlM next.step start = some found := by
    induction segments generalizing start with
    | nil => exact followed
    | cons segment rest ih =>
        rw [List.foldlM_cons] at followed ⊢
        obtain ⟨other, stepped, followed⟩ := Option.bind_eq_some_iff.mp followed
        exact Option.bind_eq_some_iff.mpr ⟨other, kept.step stepped, ih other followed⟩
  unfold Disk.locate? at located ⊢
  split at located
  · next absolute =>
    rw [if_pos absolute]
    exact steps _ _ located
  · cases located

theorem extends_putNode {names : List Text} {node : Node} (ordered : Folder.NodeOrdered node)
    (areNames : names.all isEntryName = true) (below : names ≠ [])
    (isNew : disk.root.at? names = none) : Extends disk (disk.putNode names node ordered) := by
  intro other there isThere
  rw [root_putNode ordered areNames]
  rcases apart_or_below names other with away | ⟨more, rfl⟩ | ⟨more, some, rfl⟩
  · refine ⟨there, ?_, fun tree isTree => ⟨tree, isTree⟩⟩
    rw [Node.at?_folder, Folder.at?_putAt_of_apart node away, ← Node.at?_folder, isThere]
  · rw [at?_append, isNew] at isThere
    cases isThere
  · obtain ⟨tree, isFolder⟩ := @Folder.at?_putAt_above disk.root other more node some
    rw [← Node.at?_folder] at isFolder
    exact ⟨.folder tree, isFolder, fun _ _ => ⟨tree, rfl⟩⟩

/-! Writing below a folder. -/

theorem namesOf_descend (base : Path) {names : List Text}
    (areNames : names.all isEntryName = true) :
    namesOf (base.descend names) = namesOf base ++ names := by
  rw [namesOf_eq_foldl, Path.parts_descend base areNames, List.foldl_append,
    foldl_map_name (fun _ _ => rfl), ← namesOf_eq_foldl]

theorem node?_write {root : Path} {tree : Folder} {names : List Text}
    (isRoot : disk.node? root = some (.folder tree)) (areNames : names.all isEntryName = true)
    (below : names ≠ []) (isNew : Node.at? names (.folder tree) = none) (data : File) :
    (disk.write (root.descend names) data).node? root =
      some (.folder (tree.putAt (.file data) names)) := by
  obtain ⟨above, located, atAbove⟩ := Option.bind_eq_some_iff.mp isRoot
  have whole : (above ++ names).all isEntryName = true := by
    rw [List.all_append, areNames_of_at? atAbove, areNames]
    rfl
  have notThere : disk.root.at? (above ++ names) = none := by
    rw [at?_append, atAbove]
    exact isNew
  have belowRoot := List.append_ne_nil_of_right_ne_nil above below
  have stays :=
    (@extends_putNode disk _ (.file data) trivial whole belowRoot notThere).locate? located
  rw [write, namesOf_descend root areNames, namesOf_of_located located, node?_eq, stays,
    Option.bind_some]
  refine (congrArg (Folder.at? above) (root_putNode _ whole)).trans ?_
  rw [Node.at?_folder] at atAbove ⊢
  exact Folder.at?_putAt_append _ below atAbove

def writeAll (disk : Disk) (root : Path) (files : List (List Text × File)) : Disk :=
  files.foldl (fun disk file => disk.write (root.descend file.1) file.2) disk

theorem holds_writeAll {root : Path} (isEmpty : disk.node? root = some (.folder .empty))
    {files : List (List Text × File)}
    (areNames : ∀ file ∈ files, file.1.all isEntryName = true ∧ file.1 ≠ [])
    (apart : files.Pairwise fun left right => Apart left.1 right.1) :
    ∃ tree, (disk.writeAll root files).node? root = some (.folder tree) ∧ tree.Holds files := by
  induction files using List.reverseRecOn with
  | nil => exact ⟨.empty, isEmpty, Folder.holds_empty⟩
  | append_singleton files last ih =>
      obtain ⟨before, _, between⟩ := List.pairwise_append.mp apart
      rw [List.forall_mem_append, List.forall_mem_singleton] at areNames
      obtain ⟨areBefore, areLast, below⟩ := areNames
      obtain ⟨tree, isRoot, holds⟩ := ih areBefore before
      have away : ∀ file ∈ files, Apart file.1 last.1 :=
        fun file member => between file member last List.mem_cons_self
      refine ⟨tree.putAt (.file last.2) last.1, ?_, holds.put below last.2 away⟩
      rw [writeAll, List.foldl_append]
      exact node?_write isRoot areLast below (holds.at?_eq_none below away) last.2

theorem file?_descend {base : Path} {tree : Folder} (isBase : disk.node? base = some (.folder tree))
    {names : List Text} (areNames : names.all isEntryName = true) :
    disk.file? (base.descend names) = tree.fileAt? names := by
  rw [file?_eq, node?_descend disk base areNames, isBase]
  rfl

theorem walk_perm {base : Path} {above : List Text} {tree : Folder}
    {files : List (List Text × File)}
    (spells : base.Spells above) (isBase : disk.node? base = some (.folder tree))
    (holds : tree.Holds files) (areNames : ∀ file ∈ files, file.1.all isEntryName = true)
    (included : ∀ file ∈ files, ∀ name ∈ file.1.dropLast, isExcludedName name = false)
    (apart : files.Pairwise fun left right => Apart left.1 right.1) :
    (disk.walk base).Perm (files.map fun file => base.descend file.1) := by
  refine (List.perm_ext_iff_of_nodup ?_ ?_).mpr fun path => ?_
  · exact (disk.walk_distinct base).imp fun differs same => by
      rw [same, BEq.rfl] at differs
      cases differs
  · refine List.pairwise_map.mpr (apart.imp_of_mem fun inLeft inRight away same => away.1 ?_)
    have names := (spells.descend (areNames _ inLeft)).names_eq
      (same ▸ spells.descend (areNames _ inRight))
    exact List.append_cancel_left names ▸ List.prefix_refl _
  · rw [mem_walk_iff, List.mem_map]
    constructor
    · rintro ⟨names, areEntries, rfl, _, isFile⟩
      rw [Disk.isFile, file?_descend isBase areEntries] at isFile
      obtain ⟨data, found⟩ := Option.isSome_iff_exists.mp isFile
      exact ⟨(names, data), (holds.fileAt?_iff names data).mp found, rfl⟩
    · rintro ⟨file, member, rfl⟩
      refine ⟨file.1, areNames file member, rfl, included file member, ?_⟩
      rw [Disk.isFile, file?_descend isBase (areNames file member),
        (holds.fileAt?_iff _ _).mpr member]
      rfl

end Disk

end CodePointers
