import CodePointers.Disk

/-!
Going down from a path by names of entries: the names are the last parts of the lower path, and
what stands there is found from what stands at the upper one.
-/

namespace CodePointers

/-! The parts of a path. -/

namespace Path

def descend (path : Path) (names : List Text) : Path := names.foldl child path

@[simp] theorem descend_nil (path : Path) : path.descend [] = path := rfl

@[simp] theorem descend_cons (path : Path) (name : Text) (names : List Text) :
    path.descend (name :: names) = (path.child name).descend names := rfl

theorem isFiller_of_ofSegment? {segment : Text} {part : Part}
    (isPart : Part.ofSegment? segment = some part) : isFiller segment = false := by
  rw [Bool.eq_false_iff, Ne, ← ofSegment?_eq_none_iff, isPart]
  exact Option.some_ne_none part

theorem exists_part {segment : Text} (plain : isFiller segment = false) :
    ∃ part, Part.ofSegment? segment = some part := by
  refine Option.ne_none_iff_exists'.mp fun none => ?_
  rw [ofSegment?_eq_none_iff, plain] at none
  cases none

theorem ofSegment?_of_isEntryName {name : Text} (isName : isEntryName name = true) :
    Part.ofSegment? name = some (.name name) := by
  simp only [isEntryName, Bool.and_eq_true, bne_iff_ne] at isName
  obtain ⟨⟨⟨notEmpty, notCurrent⟩, notParent⟩, _⟩ := isName
  simp [Part.ofSegment?, notEmpty, notCurrent, notParent]

theorem ne_nil_of_isEntryName {name : Text} (isName : isEntryName name = true) : name ≠ [] := by
  rintro rfl
  cases isName

theorem innerParts_append (left right : List Text) :
    innerParts (left ++ right) = innerParts left ++ innerParts right :=
  List.filterMap_append ..

theorem innerParts_concat (segments : List Text) {name : Text} (isName : isEntryName name = true) :
    innerParts (segments ++ [name]) = innerParts segments ++ [.name name] := by
  rw [innerParts_append]
  simp [innerParts, ofSegment?_of_isEntryName isName]

def firstParts (segment : Text) : List Part :=
  if segment = [] then [.root]
  else if segment = ['.'] then [.current]
  else innerParts [segment]

theorem parts_cons_cons (head next : Text) (rest : List Text) :
    parts ⟨head :: next :: rest⟩ = firstParts head ++ innerParts (next :: rest) := by
  unfold firstParts
  split
  · next isRoot =>
    subst isRoot
    rfl
  · split
    · next isCurrent =>
      subst isCurrent
      rfl
    · next notRoot notCurrent =>
      unfold parts
      split
      · next same =>
        cases same
        exact absurd rfl notRoot
      · next same =>
        cases same
        exact absurd rfl notCurrent
      · rw [← innerParts_append, List.singleton_append]

theorem parts_singleton {segment : Text} (notEmpty : segment ≠ []) :
    parts ⟨[segment]⟩ = firstParts segment := by
  rw [firstParts, if_neg notEmpty]
  split
  · next isCurrent =>
    subst isCurrent
    rfl
  · next notCurrent =>
    unfold parts
    split
    · next same => cases same
    · next same =>
      cases same
      exact absurd rfl notCurrent
    · rfl

theorem parts_cons_concat (head : Text) (inner : List Text) (last : Text) :
    parts ⟨head :: (inner ++ [last])⟩ = firstParts head ++ innerParts (inner ++ [last]) := by
  cases inner <;> exact parts_cons_cons ..

theorem firstParts_of_isEntryName {name : Text} (isName : isEntryName name = true) :
    firstParts name = [.name name] := by
  simp only [isEntryName, Bool.and_eq_true, bne_iff_ne] at isName
  obtain ⟨⟨⟨notEmpty, notCurrent⟩, notParent⟩, _⟩ := isName
  simp [firstParts, innerParts, Part.ofSegment?, notEmpty, notCurrent, notParent]

theorem child_of_concat_nil (init : List Text) (name : Text) :
    child ⟨init ++ [[]]⟩ name = ⟨init ++ [name]⟩ := by
  simp [child, join, isAbsolute]

theorem child_of_getLast?_ne {segments : List Text} (noSlash : segments.getLast? ≠ some [])
    (name : Text) : child ⟨segments⟩ name = ⟨segments ++ [name]⟩ := by
  simp [child, join, isAbsolute, noSlash]

theorem parts_child (path : Path) {name : Text} (isName : isEntryName name = true) :
    (path.child name).parts = path.parts ++ [.name name] := by
  obtain ⟨segments⟩ := path
  have nameParts : parts ⟨[name]⟩ = [.name name] := by
    rw [parts_singleton (ne_nil_of_isEntryName isName), firstParts_of_isEntryName isName]
  by_cases slash : segments.getLast? = some []
  · obtain ⟨init, rfl⟩ := List.getLast?_eq_some_iff.mp slash
    rw [child_of_concat_nil]
    cases init with
    | nil => exact nameParts
    | cons head inner =>
        have noPart : innerParts (inner ++ [[]]) = innerParts inner := by
          simp [innerParts, Part.ofSegment?]
        rw [List.cons_append, List.cons_append, parts_cons_concat, parts_cons_concat,
          innerParts_concat inner isName, noPart, List.append_assoc]
  · rw [child_of_getLast?_ne slash]
    cases segments with
    | nil => exact nameParts
    | cons head rest =>
        cases rest with
        | nil =>
            have notEmpty : head ≠ [] := by simpa using slash
            have inner : innerParts [name] = [.name name] := innerParts_concat [] isName
            rw [List.singleton_append, parts_cons_cons, parts_singleton notEmpty, inner]
        | cons next rest =>
            have inner := innerParts_concat (next :: rest) isName
            rw [List.cons_append, List.cons_append, parts_cons_cons, parts_cons_cons,
              ← List.cons_append, inner, List.append_assoc]

theorem parts_descend (path : Path) {names : List Text} (areNames : names.all isEntryName = true) :
    (path.descend names).parts = path.parts ++ names.map .name := by
  induction names generalizing path with
  | nil => simp
  | cons name names ih =>
      rw [List.all_cons, Bool.and_eq_true] at areNames
      rw [descend_cons, ih _ areNames.2, parts_child path areNames.1]
      simp

end Path

/-! What stands at the lower path. -/

namespace Node

def get? (name : Text) : Node → Option Node
  | .file _ => none
  | .folder tree => tree.get? name

def at? : List Text → Node → Option Node
  | [], node => some node
  | name :: names, node => (node.get? name).bind (at? names)

@[simp] theorem at?_nil (node : Node) : node.at? [] = some node := rfl

@[simp] theorem at?_cons (name : Text) (names : List Text) (node : Node) :
    node.at? (name :: names) = (node.get? name).bind (at? names) := rfl

theorem at?_append (names more : List Text) (node : Node) :
    node.at? (names ++ more) = (node.at? names).bind (at? more) := by
  induction names generalizing node with
  | nil => rfl
  | cons name names ih =>
      rw [List.cons_append, at?_cons, at?_cons, Option.bind_assoc]
      exact congrArg _ (funext ih)

theorem at?_file (data : File) (names : List Text) :
    at? names (.file data) = if names = [] then some (.file data) else none := by
  cases names <;> rfl

theorem at?_folder (names : List Text) (tree : Folder) :
    tree.at? names = at? names (.folder tree) := by
  induction names generalizing tree with
  | nil => rfl
  | cons name names ih =>
      rw [Folder.at?, at?_cons, get?]
      cases tree.get? name with
      | none => rfl
      | some node =>
          cases node with
          | file data => exact (at?_file data names).symm
          | folder inner => exact ih inner

end Node

namespace Disk

variable (disk : Disk)

theorem node?_eq (path : Path) :
    disk.node? path = (disk.locate? path).bind fun names => disk.root.at? names := rfl

theorem at?_concat (names : List Text) (name : Text) :
    disk.root.at? (names ++ [name]) = (disk.root.at? names).bind (Node.get? name) := by
  rw [Node.at?_folder, Node.at?_append, ← Node.at?_folder]
  congr 1
  funext node
  exact Option.bind_fun_some _

theorem at?_step (names : List Text) {name : Text}
    (isPart : Part.ofSegment? name = some (.name name)) :
    ((disk.step names name).bind fun found => disk.root.at? found) =
      (disk.root.at? names).bind (Node.get? name) := by
  unfold step
  split
  · next tree found =>
    rw [isPart, found]
    dsimp only
    split
    · rw [Option.bind_some, at?_concat, found]
    · next missing =>
      exact (Option.not_isSome_iff_eq_none.mp missing).symm
  · next noFolder =>
    cases found : disk.root.at? names with
    | none => rfl
    | some node =>
        cases node with
        | file data => rfl
        | folder tree => exact absurd found (noFolder tree)

/-- An empty segment, as after a slash at the end, leads nowhere else. -/
theorem get?_at?_step_nil (names : List Text) (name : Text) :
    (((disk.step names []).bind fun found => disk.root.at? found).bind (Node.get? name)) =
      (disk.root.at? names).bind (Node.get? name) := by
  unfold step
  split
  · next tree found => simp [Part.ofSegment?, found]
  · next noFolder =>
    cases found : disk.root.at? names with
    | none => rfl
    | some node =>
        cases node with
        | file data => rfl
        | folder tree => exact absurd found (noFolder tree)

theorem locate?_cons_cons (head next : Text) (rest : List Text) :
    disk.locate? ⟨head :: next :: rest⟩ =
      if head = [] then (next :: rest).foldlM disk.step [] else none := by
  cases head <;> rfl

theorem locate?_cons_concat (head : Text) (inner : List Text) (last : Text) :
    disk.locate? ⟨head :: (inner ++ [last])⟩ =
      if head = [] then (inner.foldlM disk.step []).bind fun names => disk.step names last
      else none := by
  have appended : (inner ++ [last]).foldlM disk.step [] =
      (inner.foldlM disk.step []).bind fun names => disk.step names last := by
    simp
  rw [← appended]
  cases inner <;> exact locate?_cons_cons ..

theorem node?_child (path : Path) {name : Text} (isName : isEntryName name = true) :
    disk.node? (path.child name) = (disk.node? path).bind (Node.get? name) := by
  obtain ⟨segments⟩ := path
  have isPart := Path.ofSegment?_of_isEntryName isName
  -- A path that ends with a slash takes the name in place of its empty last segment.
  by_cases slash : segments.getLast? = some []
  · obtain ⟨init, rfl⟩ := List.getLast?_eq_some_iff.mp slash
    rw [Path.child_of_concat_nil, node?_eq, node?_eq]
    cases init with
    | nil => cases name <;> rfl
    | cons head inner =>
        rw [List.cons_append, List.cons_append, locate?_cons_concat, locate?_cons_concat]
        split
        · rw [Option.bind_assoc, Option.bind_assoc, Option.bind_assoc]
          congr 1
          funext names
          rw [at?_step disk names isPart, ← get?_at?_step_nil, Option.bind_assoc]
        · rfl
  · rw [Path.child_of_getLast?_ne slash, node?_eq, node?_eq]
    cases segments with
    | nil => cases name <;> rfl
    | cons head rest =>
        cases rest with
        | nil =>
            have notEmpty : head ≠ [] := by simpa using slash
            rw [List.singleton_append, locate?_cons_cons, if_neg notEmpty]
            cases head <;> rfl
        | cons next rest =>
            rw [List.cons_append, locate?_cons_concat, locate?_cons_cons]
            split
            · rw [Option.bind_assoc, Option.bind_assoc]
              congr 1
              funext names
              exact at?_step disk names isPart
            · rfl

theorem node?_descend (path : Path) {names : List Text} (areNames : names.all isEntryName = true) :
    disk.node? (path.descend names) = (disk.node? path).bind (Node.at? names) := by
  induction names generalizing path with
  | nil => exact (Option.bind_fun_some _).symm
  | cons name names ih =>
      rw [List.all_cons, Bool.and_eq_true] at areNames
      rw [Path.descend_cons, ih _ areNames.2, node?_child disk path areNames.1, Option.bind_assoc]
      rfl

end Disk

end CodePointers
