import CodePointers.FileEvent
import CodePointers.Proofs.Disk.Places

/-!
The changes of a disk that are reported one by one: something is created, a file is rewritten, or
something is removed. Each of them leaves all files elsewhere as they were.
-/

namespace CodePointers

/-! Putting a node into a folder and taking it out. -/

namespace Folder

def fileAt? (folder : Folder) (names : List Text) : Option File :=
  (Node.at? names (.folder folder)).bind Node.data?

theorem at?_cons_put (folder : Folder) (name other : Text) (node : Node) (names : List Text) :
    Node.at? (other :: names) (.folder (folder.put name node)) =
      if name = other then node.at? names else Node.at? (other :: names) (.folder folder) := by
  rw [Node.at?_cons, Node.get?, get?_put]
  split <;> rfl

theorem at?_cons_remove {folder : Folder} (ordered : folder.Ordered) (name other : Text)
    (names : List Text) :
    Node.at? (other :: names) (.folder (folder.remove name)) =
      if name = other then none else Node.at? (other :: names) (.folder folder) := by
  rw [Node.at?_cons, Node.get?, get?_remove name other ordered]
  split <;> rfl

theorem folder_of_at? {names : List Text} {node : Node} {tree : Folder}
    (found : node.at? names = some (.folder tree)) : ∃ inner, node = .folder inner := by
  cases node with
  | folder inner => exact ⟨inner, rfl⟩
  | file data =>
      rw [Node.at?_file] at found
      split at found <;> cases found

def HasParent (folder : Folder) (names : List Text) : Prop :=
  ∃ tree, Node.at? names.dropLast (.folder folder) = some (.folder tree)

theorem HasParent.tail {folder : Folder} {name next : Text} {rest : List Text}
    (parent : folder.HasParent (name :: next :: rest)) :
    ∃ inner, folder.get? name = some (.folder inner) ∧ inner.HasParent (next :: rest) := by
  obtain ⟨tree, found⟩ := parent
  obtain ⟨node, isNode, below⟩ := Option.bind_eq_some_iff.mp found
  obtain ⟨inner, rfl⟩ := folder_of_at? below
  exact ⟨inner, isNode, tree, below⟩

theorem at?_putAt {folder : Folder} {names : List Text} (below : names ≠ []) (node : Node)
    (more : List Text) :
    Node.at? (names ++ more) (.folder (folder.putAt node names)) = node.at? more := by
  induction names generalizing folder with
  | nil => exact absurd rfl below
  | cons name rest ih =>
      cases rest with
      | nil => rw [List.singleton_append, putAt, at?_cons_put, if_pos rfl]
      | cons next rest =>
          rw [List.cons_append, putAt, at?_cons_put, if_pos rfl]
          · exact ih (List.cons_ne_nil next rest)
          · exact List.cons_ne_nil next rest

theorem fileAt?_putAt {folder : Folder} {names : List Text} (parent : folder.HasParent names)
    (node : Node) {other : List Text} (outside : ¬names <+: other) :
    (folder.putAt node names).fileAt? other = folder.fileAt? other := by
  induction names generalizing folder other with
  | nil => exact absurd List.nil_prefix outside
  | cons name rest ih =>
      cases other with
      | nil => rfl
      | cons first others =>
          rw [List.cons_prefix_cons, not_and] at outside
          unfold fileAt?
          cases rest with
          | nil =>
              rw [putAt, at?_cons_put, if_neg]
              exact fun same => outside same List.nil_prefix
          | cons next rest =>
              obtain ⟨inner, isInner, innerParent⟩ := parent.tail
              have isThere : folder.inner name = inner := by rw [Folder.inner, isInner]
              rw [putAt, at?_cons_put, isThere]
              · by_cases same : name = first
                · subst same
                  rw [if_pos rfl, Node.at?_cons, Node.get?, isInner]
                  exact ih innerParent (outside rfl)
                · rw [if_neg same]
              · exact List.cons_ne_nil next rest

theorem at?_removeAt {folder : Folder} (ordered : folder.Ordered) {names : List Text}
    (below : names ≠ []) (more : List Text) :
    Node.at? (names ++ more) (.folder (folder.removeAt names)) = none := by
  induction names generalizing folder with
  | nil => exact absurd rfl below
  | cons name rest ih =>
      cases rest with
      | nil => rw [List.singleton_append, removeAt, at?_cons_remove ordered, if_pos rfl]
      | cons next rest =>
          unfold removeAt
          split
          · next inner isInner =>
            rw [List.cons_append, at?_cons_put, if_pos rfl]
            exact ih (ordered.get? isInner) (List.cons_ne_nil next rest)
          · next notFolder =>
            rw [List.cons_append, Node.at?_cons, Node.get?]
            cases found : folder.get? name with
            | none => rfl
            | some node =>
                cases node with
                | file data => exact (Node.at?_file data _).trans (if_neg (by simp))
                | folder inner => exact absurd found (notFolder inner)

theorem fileAt?_removeAt {folder : Folder} (ordered : folder.Ordered) {names other : List Text}
    (outside : ¬names <+: other) :
    (folder.removeAt names).fileAt? other = folder.fileAt? other := by
  induction names generalizing folder other with
  | nil => exact absurd List.nil_prefix outside
  | cons name rest ih =>
      cases other with
      | nil => rfl
      | cons first others =>
          rw [List.cons_prefix_cons, not_and] at outside
          unfold fileAt?
          cases rest with
          | nil =>
              rw [removeAt, at?_cons_remove ordered, if_neg]
              exact fun same => outside same List.nil_prefix
          | cons next rest =>
              unfold removeAt
              split
              · next inner isInner =>
                rw [at?_cons_put]
                by_cases same : name = first
                · subst same
                  rw [if_pos rfl, Node.at?_cons, Node.get?, isInner]
                  exact ih (ordered.get? isInner) (outside rfl)
                · rw [if_neg same]
              · rfl

theorem isFolder_removeAt {folder tree : Folder} {above names : List Text} (below : names ≠ [])
    (isFolder : Node.at? above (.folder folder) = some (.folder tree)) :
    ∃ after,
      Node.at? above (.folder (folder.removeAt (above ++ names))) = some (.folder after) := by
  induction above generalizing folder with
  | nil => exact ⟨_, rfl⟩
  | cons name rest ih =>
      obtain ⟨node, isNode, isBelow⟩ := Option.bind_eq_some_iff.mp isFolder
      obtain ⟨inner, rfl⟩ := folder_of_at? isBelow
      obtain ⟨next, others, isNext⟩ : ∃ next others, rest ++ names = next :: others :=
        List.exists_cons_of_ne_nil (List.append_ne_nil_of_right_ne_nil rest below)
      obtain ⟨after, isAfter⟩ := ih isBelow
      rw [isNext] at isAfter
      have isInner : folder.get? name = some (.folder inner) := isNode
      refine ⟨after, ?_⟩
      rw [List.cons_append, isNext, removeAt]
      · rw [isInner]
        dsimp only
        rw [at?_cons_put, if_pos rfl]
        exact isAfter
      · exact List.cons_ne_nil next others

theorem areNames_of_at? {folder : Folder} (ordered : folder.Ordered) {names : List Text}
    {node : Node} (found : Node.at? names (.folder folder) = some node) :
    names.all isEntryName = true := by
  induction names generalizing folder with
  | nil => rfl
  | cons name rest ih =>
      obtain ⟨head, isHead, below⟩ := Option.bind_eq_some_iff.mp found
      have isName := isEntryName_of_get? ordered (Option.isSome_of_eq_some isHead)
      rw [List.all_cons, isName, Bool.true_and]
      cases head with
      | folder inner => exact ih (ordered.get? isHead) below
      | file data =>
          rw [Node.at?_file] at below
          split at below
          · next none => rw [none]; rfl
          · cases below

end Folder

namespace Disk

theorem fileAt?_eq (disk : Disk) (names : List Text) :
    disk.fileAt? names = disk.root.fileAt? names := by
  rw [fileAt?, Node.at?_folder]
  rfl

theorem areNames_of_at? {disk : Disk} {names : List Text} {node : Node}
    (found : disk.root.at? names = some node) : names.all isEntryName = true :=
  Folder.areNames_of_at? disk.ordered (Node.at?_folder names disk.root ▸ found)

theorem areNames_of_fileAt? {disk : Disk} {names : List Text}
    (isFile : (disk.fileAt? names).isSome) : names.all isEntryName = true := by
  obtain ⟨data, found⟩ := Option.isSome_iff_exists.mp isFile
  obtain ⟨node, isNode, _⟩ := Option.bind_eq_some_iff.mp found
  exact areNames_of_at? isNode

theorem fileAt?_append_eq_none {disk : Disk} {names more : List Text} (below : more ≠ [])
    (isFile : (disk.fileAt? names).isSome) : disk.fileAt? (names ++ more) = none := by
  obtain ⟨data, found⟩ := Option.isSome_iff_exists.mp isFile
  obtain ⟨node, isNode, isData⟩ := Option.bind_eq_some_iff.mp found
  cases node with
  | folder tree => cases isData
  | file own => rw [fileAt?, at?_append, isNode, Option.bind_some, Node.at?_file, if_neg below]; rfl

def EmptyAt (disk : Disk) (names : List Text) : Prop :=
  ∀ other, names <+: other → disk.fileAt? other = none

def SameOutside (names : List Text) (disk next : Disk) : Prop :=
  ∀ other, ¬names <+: other → next.fileAt? other = disk.fileAt? other

end Disk

theorem foldl_map_name {step : List Text → Part → List Text}
    (appends : ∀ names name, step names (.name name) = names ++ [name]) (names before : List Text) :
    (names.map Part.name).foldl step before = before ++ names := by
  induction names generalizing before with
  | nil => exact (List.append_nil before).symm
  | cons name names ih =>
      rw [List.map_cons, List.foldl_cons, appends, ih, List.append_assoc]
      rfl

theorem Path.Spells.namesOf_eq {path : Path} {names : List Text} (spells : path.Spells names) :
    Disk.namesOf path = names := by
  rw [Disk.namesOf, spells]
  exact foldl_map_name (fun _ _ => rfl) names []

/-- A change of the disk below a folder, and the event that reports it. -/
inductive Change (base : Path) (disk : Disk) : FileEvent → Disk → Prop
  | created (names : List Text) (node : Node) (ordered : Folder.NodeOrdered node)
      (areNames : names.all isEntryName = true) (below : names ≠ [])
      (inFolder : disk.isFolder (base.descend names.dropLast) = true)
      (isNew : disk.pathExists (base.descend names) = false) :
      Change base disk (.created (base.descend names))
        (disk.putNode (Disk.namesOf (base.descend names)) node ordered)
  | rewritten (names : List Text) (data : File) (areNames : names.all isEntryName = true)
      (below : names ≠ []) (isFile : disk.isFile (base.descend names) = true) :
      Change base disk (.changed (base.descend names)) (disk.write (base.descend names) data)
  | removed (names : List Text) (areNames : names.all isEntryName = true) (below : names ≠ [])
      (isThere : disk.pathExists (base.descend names) = true) :
      Change base disk (.removed (base.descend names)) (disk.remove (base.descend names))

inductive ChangesAt (names : List Text) (path : Path) (disk next : Disk) : FileEvent → Prop
  | created (empty : disk.EmptyAt names) (isThere : (next.root.at? names).isSome) :
      ChangesAt names path disk next (.created path)
  | rewritten (before : (disk.fileAt? names).isSome) (after : (next.fileAt? names).isSome) :
      ChangesAt names path disk next (.changed path)
  | removed (empty : next.EmptyAt names) : ChangesAt names path disk next (.removed path)

namespace Disk

theorem hasParent_of_isFolder {disk : Disk} {base : Path} {above names : List Text}
    (spells : base.Spells above) (areNames : names.all isEntryName = true) (below : names ≠ [])
    (inFolder : disk.isFolder (base.descend names.dropLast) = true) :
    disk.root.HasParent (above ++ names) := by
  have parentNames : names.dropLast.all isEntryName = true :=
    List.all_eq_true.mpr fun name member =>
      List.all_eq_true.mp areNames name (List.dropLast_subset names member)
  unfold isFolder at inFolder
  split at inFolder
  · next tree found =>
    have atNames := (spells.descend parentNames).node?_eq_some found
    rw [Node.at?_folder] at atNames
    exact ⟨tree, by rw [List.dropLast_append_of_ne_nil below]; exact atNames⟩
  · cases inFolder

theorem hasParent_of_fileAt? {disk : Disk} {names : List Text} (below : names ≠ [])
    (isFile : (disk.fileAt? names).isSome) : disk.root.HasParent names := by
  obtain ⟨data, found⟩ := Option.isSome_iff_exists.mp isFile
  obtain ⟨node, isNode, _⟩ := Option.bind_eq_some_iff.mp found
  rw [← List.dropLast_append_getLast below, at?_concat] at isNode
  obtain ⟨parent, isParent, inParent⟩ := Option.bind_eq_some_iff.mp isNode
  cases parent with
  | file data => cases inParent
  | folder tree => exact ⟨tree, by rw [← Node.at?_folder]; exact isParent⟩

section

variable {disk : Disk} {names : List Text} {path : Path} (spells : path.Spells names)
  (areNames : names.all isEntryName = true)

theorem root_putNode {node : Node} (ordered : Folder.NodeOrdered node)
    (areNames : names.all isEntryName = true) :
    (disk.putNode names node ordered).root = disk.root.putAt node names := by
  rw [putNode, dif_pos areNames]

include spells areNames

theorem root_remove : (disk.remove path).root = disk.root.removeAt names := by
  obtain rfl := spells.namesOf_eq
  unfold remove
  dsimp only
  rw [dif_pos areNames]

theorem sameOutside_remove : SameOutside names disk (disk.remove path) := by
  intro other outside
  rw [fileAt?_eq, fileAt?_eq, root_remove spells areNames]
  exact Folder.fileAt?_removeAt disk.ordered outside

theorem emptyAt_remove (below : names ≠ []) : (disk.remove path).EmptyAt names := by
  rintro other ⟨more, rfl⟩
  rw [fileAt?_eq, Folder.fileAt?, root_remove spells areNames,
    Folder.at?_removeAt disk.ordered below more]
  rfl

omit spells

theorem sameOutside_putNode {node : Node} (ordered : Folder.NodeOrdered node)
    (parent : disk.root.HasParent names) :
    SameOutside names disk (disk.putNode names node ordered) := by
  intro other outside
  rw [fileAt?_eq, fileAt?_eq, root_putNode ordered areNames]
  exact Folder.fileAt?_putAt parent node outside

theorem at?_putNode {node : Node} (ordered : Folder.NodeOrdered node) (below : names ≠ []) :
    (disk.putNode names node ordered).root.at? names = some node := by
  have put := @Folder.at?_putAt disk.root names below node []
  rw [List.append_nil] at put
  rw [root_putNode ordered areNames, Node.at?_folder, put, Node.at?_nil]

end

end Disk

theorem Path.Denotes.emptyAt_of_not_pathExists {path : Path} {names : List Text} {disk : Disk}
    (denotes : path.Denotes names) (missing : disk.pathExists path = false) :
    disk.EmptyAt names := by
  rintro other ⟨more, rfl⟩
  rw [Disk.pathExists, denotes.node?_eq] at missing
  rw [Disk.fileAt?, Disk.at?_append,
    Option.not_isSome_iff_eq_none.mp (Bool.eq_false_iff.mp missing)]
  rfl

theorem Disk.pathExists_of_descend {disk : Disk} {base : Path} {names : List Text}
    (areNames : names.all isEntryName = true)
    (isThere : disk.pathExists (base.descend names) = true) : disk.pathExists base = true := by
  rw [pathExists, node?_descend disk base areNames] at isThere
  obtain ⟨node, found⟩ := Option.isSome_iff_exists.mp isThere
  obtain ⟨above, isAbove, _⟩ := Option.bind_eq_some_iff.mp found
  exact Option.isSome_of_eq_some isAbove

/-- What a change does: it happens at some names below the base, which stays where it is, as do the
files everywhere else. -/
structure ChangesBelow (base : Path) (above names : List Text) (disk next : Disk)
    (event : FileEvent) : Prop where
  areNames : names.all isEntryName = true
  below : names ≠ []
  before : disk.pathExists base = true
  after : next.pathExists base = true
  outside : Disk.SameOutside (above ++ names) disk next
  change : ChangesAt (above ++ names) (base.descend names) disk next event

section

variable {base : Path} {above names : List Text} {disk : Disk} (spells : base.Spells above)
  (areNames : names.all isEntryName = true) (below : names ≠ [])
include spells areNames below

theorem changesBelow_putNode {node : Node} (ordered : Folder.NodeOrdered node)
    (allNames : (above ++ names).all isEntryName = true) (before : disk.pathExists base = true)
    (parent : disk.root.HasParent (above ++ names)) {event : FileEvent}
    (change : (disk.putNode (above ++ names) node ordered).root.at? (above ++ names) = some node →
      ChangesAt (above ++ names) (base.descend names) disk
        (disk.putNode (above ++ names) node ordered) event) :
    ChangesBelow base above names disk (disk.putNode (above ++ names) node ordered) event := by
  have allBelow : above ++ names ≠ [] := List.append_ne_nil_of_right_ne_nil above below
  have found := @Disk.at?_putNode disk (above ++ names) allNames node ordered allBelow
  refine ⟨areNames, below, before, Disk.pathExists_of_descend areNames ?_,
    Disk.sameOutside_putNode allNames ordered parent, change found⟩
  rw [Disk.pathExists, (spells.denotes_descend areNames below).node?_eq, found]
  rfl

theorem changesBelow_remove (isThere : disk.pathExists (base.descend names) = true) :
    ChangesBelow base above names disk (disk.remove (base.descend names))
      (.removed (base.descend names)) := by
  have denotes := spells.denotes_descend areNames below
  have before := Disk.pathExists_of_descend areNames isThere
  rw [Disk.pathExists, denotes.node?_eq] at isThere
  obtain ⟨node, isNode⟩ := Option.isSome_iff_exists.mp isThere
  have allNames := Disk.areNames_of_at? isNode
  have allBelow : above ++ names ≠ [] := List.append_ne_nil_of_right_ne_nil above below
  refine ⟨areNames, below, before, ?_, Disk.sameOutside_remove denotes.spells allNames,
    .removed (Disk.emptyAt_remove denotes.spells allNames allBelow)⟩
  -- The base has something below it, so it is a folder, and the removal leaves it one.
  rw [Disk.at?_append] at isNode
  obtain ⟨upper, isUpper, isLower⟩ := Option.bind_eq_some_iff.mp isNode
  cases upper with
  | file data =>
      rw [Node.at?_file, if_neg below] at isLower
      cases isLower
  | folder tree =>
      rw [Node.at?_folder] at isUpper
      obtain ⟨after, isAfter⟩ := Folder.isFolder_removeAt below isUpper
      rw [← Disk.root_remove denotes.spells allNames, ← Node.at?_folder] at isAfter
      exact Option.isSome_of_eq_some (spells.node?_eq_folder_iff.mpr isAfter)

end

theorem Change.changesBelow {base : Path} {disk next : Disk} {event : FileEvent}
    {above : List Text} (change : Change base disk event next) (spells : base.Spells above) :
    ∃ names, ChangesBelow base above names disk next event := by
  cases change with
  | created names node ordered areNames below inFolder isNew =>
      have denotes := spells.denotes_descend areNames below
      have parent := Disk.hasParent_of_isFolder spells areNames below inFolder
      have allNames : (above ++ names).all isEntryName = true := by
        obtain ⟨tree, found⟩ := parent
        have beforeLast := Folder.areNames_of_at? disk.ordered found
        rw [List.dropLast_append_of_ne_nil below, List.all_append, Bool.and_eq_true] at beforeLast
        rw [List.all_append, beforeLast.1, areNames]
        rfl
      have before : disk.pathExists base = true := by
        have parentNames : names.dropLast.all isEntryName = true :=
          List.all_eq_true.mpr fun name member =>
            List.all_eq_true.mp areNames name (List.dropLast_subset names member)
        exact Disk.pathExists_of_descend parentNames (Disk.pathExists_of_isFolder inFolder)
      rw [denotes.spells.namesOf_eq]
      refine ⟨names, changesBelow_putNode spells areNames below ordered allNames before parent ?_⟩
      exact fun found => .created (denotes.emptyAt_of_not_pathExists isNew)
        (Option.isSome_of_eq_some found)
  | rewritten names data areNames below isFile =>
      have denotes := spells.denotes_descend areNames below
      have isThere := denotes.isFile_iff.mp isFile
      have allBelow : above ++ names ≠ [] := List.append_ne_nil_of_right_ne_nil above below
      have before := Disk.pathExists_of_descend areNames (Disk.pathExists_of_isFile isFile)
      have ordered : Folder.NodeOrdered (.file data) := trivial
      rw [Disk.write, denotes.spells.namesOf_eq]
      refine ⟨names, changesBelow_putNode spells areNames below ordered
        (Disk.areNames_of_fileAt? isThere) before (Disk.hasParent_of_fileAt? allBelow isThere) ?_⟩
      intro found
      refine .rewritten isThere ?_
      rw [Disk.fileAt?, found]
      rfl
  | removed names areNames below isThere =>
      exact ⟨names, changesBelow_remove spells areNames below isThere⟩

end CodePointers
