import CodePointers.Disk.Walk
import CodePointers.Proofs.Disk.Descent
import CodePointers.Proofs.PathOrder

/-!
A walk lists the files that are reached by names without going through an excluded folder, in the
order of their paths and each of them once.
-/

namespace CodePointers

namespace Folder

theorem compare_of_before {name other : Text} {folder : Folder}
    (before : folder.AllNames fun later => compare name later = .lt)
    (found : (folder.get? other).isSome) : compare name other = .lt := by
  induction folder with
  | empty => cases found
  | fileEntry first data rest ih =>
      rw [get?] at found
      split at found
      · next same => exact same ▸ before.1
      · exact ih before.2 found
  | folderEntry first inner rest _ ih =>
      rw [get?] at found
      split at found
      · next same => exact same ▸ before.1
      · exact ih before.2 found

theorem isEntryName_of_get? {folder : Folder} (ordered : folder.Ordered) {name : Text}
    (found : (folder.get? name).isSome) : isEntryName name = true := by
  induction folder with
  | empty => cases found
  | fileEntry other data rest ih =>
      rw [get?] at found
      split at found
      · next same => exact same ▸ ordered.1
      · exact ih ordered.2.2 found
  | folderEntry other inner rest _ ih =>
      rw [get?] at found
      split at found
      · next same => exact same ▸ ordered.1
      · exact ih ordered.2.2.2 found

structure Visits (folder : Folder) (names : List Text) : Prop where
  isFile : ∃ data, Node.at? names (.folder folder) = some (.file data)
  included : ∀ name ∈ names.dropLast, isExcludedName name = false

theorem not_visits_nil (folder : Folder) : ¬folder.Visits [] := by
  rintro ⟨⟨data, found⟩, _⟩
  cases found

theorem visits_cons_iff {folder : Folder} {name : Text} {names : List Text} :
    folder.Visits (name :: names) ↔
      (∃ data, folder.get? name = some (.file data) ∧ names = []) ∨
        ∃ inner, folder.get? name = some (.folder inner) ∧ isExcludedName name = false ∧
          inner.Visits names := by
  constructor
  · rintro ⟨⟨data, found⟩, included⟩
    obtain ⟨node, isNode, inNode⟩ := Option.bind_eq_some_iff.mp found
    cases node with
    | file inner =>
        rw [Node.at?_file] at inNode
        split at inNode
        · next isLast => exact .inl ⟨inner, isNode, isLast⟩
        · cases inNode
    | folder inner =>
        have below : names ≠ [] := by
          rintro rfl
          cases inNode
        rw [List.dropLast_cons_of_ne_nil below, List.forall_mem_cons] at included
        exact .inr ⟨inner, isNode, included.1, ⟨data, inNode⟩, included.2⟩
  · rintro (⟨data, isFile, rfl⟩ | ⟨inner, isFolder, notExcluded, ⟨data, found⟩, included⟩)
    · refine ⟨⟨data, ?_⟩, by simp⟩
      exact Option.bind_eq_some_iff.mpr ⟨_, isFile, rfl⟩
    · refine ⟨⟨data, Option.bind_eq_some_iff.mpr ⟨_, isFolder, found⟩⟩, ?_⟩
      have below : names ≠ [] := by
        rintro rfl
        cases found
      rw [List.dropLast_cons_of_ne_nil below, List.forall_mem_cons]
      exact ⟨notExcluded, included⟩

theorem Visits.areNames {folder : Folder} (ordered : folder.Ordered) {names : List Text}
    (visits : folder.Visits names) : names.all isEntryName = true := by
  induction names generalizing folder with
  | nil => rfl
  | cons name names ih =>
      rw [List.all_cons, Bool.and_eq_true]
      rcases visits_cons_iff.mp visits with ⟨data, isFile, rfl⟩ | ⟨inner, isFolder, _, inside⟩
      · exact ⟨isEntryName_of_get? ordered (by rw [isFile]; rfl), rfl⟩
      · exact ⟨isEntryName_of_get? ordered (by rw [isFolder]; rfl),
          ih (ordered.get? isFolder) inside⟩

theorem visits_fileEntry_iff {name : Text} {data : File} {rest : Folder}
    (ordered : (fileEntry name data rest).Ordered) {names : List Text} :
    (fileEntry name data rest).Visits names ↔ names = [name] ∨ rest.Visits names := by
  cases names with
  | nil => simp [not_visits_nil]
  | cons first below =>
      rw [visits_cons_iff, visits_cons_iff, get?]
      by_cases same : name = first
      · subst same
        simp [get?_eq_none_of_before ordered.2.1]
      · simp [same, Ne.symm same]

theorem visits_folderEntry_iff {name : Text} {inner rest : Folder}
    (ordered : (folderEntry name inner rest).Ordered) {names : List Text} :
    (folderEntry name inner rest).Visits names ↔
      (isExcludedName name = false ∧ ∃ below, names = name :: below ∧ inner.Visits below) ∨
        rest.Visits names := by
  cases names with
  | nil => simp [not_visits_nil]
  | cons first below =>
      rw [visits_cons_iff, visits_cons_iff, get?]
      by_cases same : name = first
      · subst same
        simp [get?_eq_none_of_before ordered.2.1]
      · simp [same, Ne.symm same]

theorem mem_walk_iff {folder : Folder} (ordered : folder.Ordered) {base path : Path} :
    path ∈ folder.walk base ↔ ∃ names, path = base.descend names ∧ folder.Visits names := by
  induction folder generalizing base with
  | empty =>
      constructor
      · intro member
        cases member
      · rintro ⟨names, _, ⟨data, found⟩, _⟩
        cases names <;> cases found
  | fileEntry name data rest ih =>
      rw [walk, List.mem_cons, ih ordered.2.2]
      simp only [visits_fileEntry_iff ordered, and_or_left, exists_or, exists_eq_right]
      rfl
  | folderEntry name inner rest innerIh ih =>
      have inInner : path ∈ (if isExcludedName name then [] else inner.walk (base.child name)) ↔
          isExcludedName name = false ∧
            ∃ below, path = (base.child name).descend below ∧ inner.Visits below := by
        rw [← innerIh ordered.2.2.1]
        split
        · next excluded => simp [excluded]
        · next notExcluded => simp [notExcluded]
      rw [walk, List.mem_append, inInner, ih ordered.2.2.2]
      simp only [visits_folderEntry_iff ordered, and_or_left, exists_or]
      refine or_congr_left ⟨?_, ?_⟩
      · rintro ⟨notExcluded, below, isPath, visits⟩
        exact ⟨name :: below, isPath, notExcluded, below, rfl, visits⟩
      · rintro ⟨_, isPath, notExcluded, below, rfl, visits⟩
        exact ⟨notExcluded, below, isPath, visits⟩

theorem exists_name_of_mem_walk {folder : Folder} (ordered : folder.Ordered) {base path : Path}
    (member : path ∈ folder.walk base) :
    ∃ name below, (folder.get? name).isSome ∧
      path.parts = base.parts ++ .name name :: List.map .name below := by
  obtain ⟨names, rfl, visits⟩ := (mem_walk_iff ordered).mp member
  have areNames := visits.areNames ordered
  cases names with
  | nil => exact absurd visits (not_visits_nil folder)
  | cons name below =>
      refine ⟨name, below, ?_, Path.parts_descend base areNames⟩
      rcases visits_cons_iff.mp visits with ⟨data, isFile, _⟩ | ⟨inner, isFolder, _⟩
      · rw [isFile]
        rfl
      · rw [isFolder]
        rfl

theorem compare_of_parts {left right : Path} {base leftBelow rightBelow : List Part}
    {first second : Text} (before : compare first second = .lt)
    (isLeft : left.parts = base ++ .name first :: leftBelow)
    (isRight : right.parts = base ++ .name second :: rightBelow) : compare left right = .lt := by
  change List.compareLex compare left.parts right.parts = .lt
  rw [isLeft, isRight]
  clear isLeft isRight
  induction base with
  | nil =>
      have names : compare (Part.name first) (Part.name second) = .lt :=
        (congrArg (Ordering.then .eq) before :)
      rw [List.nil_append, List.nil_append, List.compareLex_cons_cons, names]
      rfl
  | cons part base ih =>
      have same : compare part part = .eq := Std.ReflCmp.compare_self
      rw [List.cons_append, List.cons_append, List.compareLex_cons_cons, same]
      exact ih

theorem compare_of_mem_walk {name : Text} {rest : Folder} (ordered : rest.Ordered)
    (before : rest.AllNames fun other => compare name other = .lt) {base left right : Path}
    {below : List Part} (isLeft : left.parts = base.parts ++ .name name :: below)
    (member : right ∈ rest.walk base) : compare left right = .lt := by
  obtain ⟨other, otherBelow, found, isRight⟩ := exists_name_of_mem_walk ordered member
  exact compare_of_parts (compare_of_before before found) isLeft isRight

theorem walk_sorted {folder : Folder} (ordered : folder.Ordered) (base : Path) :
    (folder.walk base).Pairwise fun left right => compare left right = .lt := by
  induction folder generalizing base with
  | empty => exact List.Pairwise.nil
  | fileEntry name data rest ih =>
      refine List.pairwise_cons.mpr ⟨fun path member => ?_, ih ordered.2.2 base⟩
      exact compare_of_mem_walk ordered.2.2 ordered.2.1 (Path.parts_child base ordered.1) member
  | folderEntry name inner rest innerIh ih =>
      refine List.pairwise_append.mpr ⟨?_, ih ordered.2.2.2 base, ?_⟩
      · split
        · exact List.Pairwise.nil
        · exact innerIh ordered.2.2.1 _
      · intro left leftMember right rightMember
        split at leftMember
        · cases leftMember
        · obtain ⟨first, below, _, isLeft⟩ := exists_name_of_mem_walk ordered.2.2.1 leftMember
          rw [Path.parts_child base ordered.1, List.append_assoc] at isLeft
          exact compare_of_mem_walk ordered.2.2.2 ordered.2.1 isLeft rightMember

end Folder

namespace Disk

theorem nodeOrdered_of_node? {disk : Disk} {path : Path} {node : Node}
    (found : disk.node? path = some node) : Folder.NodeOrdered node := by
  obtain ⟨names, _, isNode⟩ := Option.bind_eq_some_iff.mp found
  exact nodeOrdered_at? disk.ordered isNode

theorem isFile_iff {disk : Disk} {path : Path} :
    disk.isFile path = true ↔ ∃ data, disk.node? path = some (.file data) := by
  rw [isFile, file?]
  split
  · next data found => simp [found]
  · next noFile =>
    constructor
    · intro absurd
      cases absurd
    · rintro ⟨data, found⟩
      exact absurd found (noFile data)

/-- A walk gets to the files that are reached by names without an excluded folder on the way. -/
theorem mem_walk_iff {disk : Disk} {start path : Path} :
    path ∈ disk.walk start ↔
      ∃ names, names.all isEntryName = true ∧ path = start.descend names ∧
        (∀ name ∈ names.dropLast, isExcludedName name = false) ∧ disk.isFile path = true := by
  have isFile_descend {names : List Text} (areNames : names.all isEntryName = true) :
      disk.isFile (start.descend names) = true ↔
        ∃ data, (disk.node? start).bind (Node.at? names) = some (.file data) := by
    rw [isFile_iff, node?_descend disk start areNames]
  unfold walk
  split
  · next missing =>
    simp only [missing, Option.bind_none] at isFile_descend
    constructor
    · intro member
      cases member
    · rintro ⟨names, areNames, rfl, _, isFile⟩
      obtain ⟨data, found⟩ := (isFile_descend areNames).mp isFile
      cases found
  · next data found =>
    simp only [found, Option.bind_some, Node.at?_file] at isFile_descend
    -- A file is walked as itself, and no names but the empty list lead from it to a file.
    rw [List.mem_singleton]
    constructor
    · rintro rfl
      exact ⟨[], rfl, rfl, fun _ member => (nomatch member), isFile_iff.mpr ⟨data, found⟩⟩
    · rintro ⟨names, areNames, rfl, _, isFile⟩
      obtain ⟨other, atNames⟩ := (isFile_descend areNames).mp isFile
      split at atNames
      · next isStart =>
        rw [isStart]
        rfl
      · cases atNames
  · next tree found =>
    have ordered : tree.Ordered := nodeOrdered_of_node? found
    simp only [found, Option.bind_some] at isFile_descend
    rw [Folder.mem_walk_iff ordered]
    constructor
    · rintro ⟨names, rfl, visits⟩
      have areNames := visits.areNames ordered
      exact ⟨names, areNames, rfl, visits.included, (isFile_descend areNames).mpr visits.isFile⟩
    · rintro ⟨names, areNames, rfl, included, isFile⟩
      exact ⟨names, rfl, (isFile_descend areNames).mp isFile, included⟩

theorem walk_sorted (disk : Disk) (start : Path) :
    (disk.walk start).Pairwise fun left right => compare left right = .lt := by
  unfold walk
  split
  · exact List.Pairwise.nil
  · exact List.pairwise_singleton _ _
  · next tree found => exact Folder.walk_sorted (nodeOrdered_of_node? found) start

theorem walk_distinct (disk : Disk) (start : Path) :
    (disk.walk start).Pairwise fun left right => (left == right) = false :=
  (disk.walk_sorted start).imp fun before => Bool.eq_false_iff.mpr fun same => by
    rw [Path.compare_eq_iff.mpr same] at before
    cases before

end Disk

end CodePointers
