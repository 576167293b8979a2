import CodePointers.Text

/-!
Files and folders. A folder lists its entries one after the other, in strictly increasing order of
their names; adding and removing entries keeps that order, here and in every folder below.
-/

namespace CodePointers

/-- A file's content: its text when the bytes are UTF-8, otherwise the bytes. -/
inductive Content where
  | text (text : Text)
  | binary (bytes : List UInt8)
deriving DecidableEq

namespace Content

def ofBytes (bytes : List UInt8) : Content :=
  match String.fromUTF8? (ByteArray.mk bytes.toArray) with
  | some decoded => .text decoded.toList
  | none => .binary bytes

def size : Content → Nat
  | .text chars => byteLength chars
  | .binary bytes => bytes.length

end Content

structure File where
  content : Content
  modified : Nat
deriving DecidableEq

inductive Folder where
  | empty
  | fileEntry (name : Text) (data : File) (rest : Folder)
  | folderEntry (name : Text) (inner : Folder) (rest : Folder)
deriving DecidableEq

inductive Node where
  | file (data : File)
  | folder (tree : Folder)
deriving DecidableEq

def isEntryName (name : Text) : Bool :=
  name != [] && name != ['.'] && name != ['.', '.'] && !name.contains '/'

namespace Folder

def get? (name : Text) : Folder → Option Node
  | empty => none
  | fileEntry other data rest => if other = name then some (.file data) else rest.get? name
  | folderEntry other inner rest => if other = name then some (.folder inner) else rest.get? name

def link (name : Text) (node : Node) (rest : Folder) : Folder :=
  match node with
  | .file data => .fileEntry name data rest
  | .folder inner => .folderEntry name inner rest

def put (name : Text) (node : Node) : Folder → Folder
  | empty => link name node empty
  | fileEntry other data rest =>
      match compare name other with
      | .lt => link name node (.fileEntry other data rest)
      | .eq => link name node rest
      | .gt => .fileEntry other data (rest.put name node)
  | folderEntry other inner rest =>
      match compare name other with
      | .lt => link name node (.folderEntry other inner rest)
      | .eq => link name node rest
      | .gt => .folderEntry other inner (rest.put name node)

def remove (name : Text) : Folder → Folder
  | empty => empty
  | fileEntry other data rest =>
      if other = name then rest else .fileEntry other data (rest.remove name)
  | folderEntry other inner rest =>
      if other = name then rest else .folderEntry other inner (rest.remove name)

def at? : List Text → Folder → Option Node
  | [], folder => some (.folder folder)
  | name :: names, folder =>
      match folder.get? name with
      | none => none
      | some (.file data) => if names = [] then some (.file data) else none
      | some (.folder inner) => inner.at? names

def inner (name : Text) (folder : Folder) : Folder :=
  match folder.get? name with
  | some (.folder inner) => inner
  | _ => empty

/-- Puts a node at the end of a chain of names, making the folders on the way. -/
def putAt (node : Node) : List Text → Folder → Folder
  | [], folder => folder
  | [name], folder => folder.put name node
  | name :: names, folder => folder.put name (.folder ((folder.inner name).putAt node names))

def removeAt : List Text → Folder → Folder
  | [], folder => folder
  | [name], folder => folder.remove name
  | name :: names, folder =>
      match folder.get? name with
      | some (.folder inner) => folder.put name (.folder (inner.removeAt names))
      | _ => folder

def AllNames (predicate : Text → Prop) : Folder → Prop
  | empty => True
  | fileEntry name _ rest => predicate name ∧ rest.AllNames predicate
  | folderEntry name _ rest => predicate name ∧ rest.AllNames predicate

/-- Names are entry names in strictly increasing order, here and in every folder below. -/
def Ordered : Folder → Prop
  | empty => True
  | fileEntry name _ rest =>
      isEntryName name = true ∧ rest.AllNames (fun other => compare name other = .lt) ∧
        rest.Ordered
  | folderEntry name inner rest =>
      isEntryName name = true ∧ rest.AllNames (fun other => compare name other = .lt) ∧
        inner.Ordered ∧ rest.Ordered

theorem AllNames.imp {first second : Text → Prop} {folder : Folder}
    (all : folder.AllNames first) (implies : ∀ name, first name → second name) :
    folder.AllNames second := by
  induction folder with
  | empty => trivial
  | fileEntry name _ rest ih => exact ⟨implies name all.1, ih all.2⟩
  | folderEntry name _ rest _ ih => exact ⟨implies name all.1, ih all.2⟩

theorem AllNames.link {predicate : Text → Prop} {name : Text} {node : Node} {rest : Folder}
    (holds : predicate name) (all : rest.AllNames predicate) :
    (Folder.link name node rest).AllNames predicate := by
  cases node <;> exact ⟨holds, all⟩

theorem AllNames.put {predicate : Text → Prop} {name : Text} {node : Node} {folder : Folder}
    (holds : predicate name) (all : folder.AllNames predicate) :
    (folder.put name node).AllNames predicate := by
  induction folder with
  | empty => exact .link holds trivial
  | fileEntry other data rest ih =>
      rw [Folder.put]
      split
      · exact .link holds all
      · exact .link holds all.2
      · exact ⟨all.1, ih all.2⟩
  | folderEntry other inner rest _ ih =>
      rw [Folder.put]
      split
      · exact .link holds all
      · exact .link holds all.2
      · exact ⟨all.1, ih all.2⟩

theorem AllNames.remove {predicate : Text → Prop} {name : Text} {folder : Folder}
    (all : folder.AllNames predicate) : (folder.remove name).AllNames predicate := by
  induction folder with
  | empty => trivial
  | fileEntry other data rest ih =>
      rw [Folder.remove]
      split
      · exact all.2
      · exact ⟨all.1, ih all.2⟩
  | folderEntry other inner rest _ ih =>
      rw [Folder.remove]
      split
      · exact all.2
      · exact ⟨all.1, ih all.2⟩

def NodeOrdered : Node → Prop
  | .file _ => True
  | .folder tree => tree.Ordered

theorem Ordered.link {name : Text} {node : Node} {rest : Folder} (isName : isEntryName name = true)
    (nodeOrdered : NodeOrdered node)
    (before : rest.AllNames fun other => compare name other = .lt) (ordered : rest.Ordered) :
    (Folder.link name node rest).Ordered := by
  cases node with
  | file data => exact ⟨isName, before, ordered⟩
  | folder inner => exact ⟨isName, before, nodeOrdered, ordered⟩

theorem before_trans {name other : Text} {rest : Folder} (first : compare name other = .lt)
    (before : rest.AllNames fun third => compare other third = .lt) :
    rest.AllNames fun third => compare name third = .lt :=
  before.imp fun _ second => Std.TransCmp.lt_trans first second

theorem Ordered.put {name : Text} {node : Node} {folder : Folder}
    (isName : isEntryName name = true) (nodeOrdered : NodeOrdered node)
    (ordered : folder.Ordered) : (folder.put name node).Ordered := by
  induction folder with
  | empty => exact .link isName nodeOrdered trivial trivial
  | fileEntry other data rest ih =>
      rw [Folder.put]
      split
      · next less =>
        exact .link isName nodeOrdered ⟨less, before_trans less ordered.2.1⟩ ordered
      · next same =>
        rw [Std.LawfulEqOrd.eq_of_compare same]
        exact .link ordered.1 nodeOrdered ordered.2.1 ordered.2.2
      · next greater =>
        exact ⟨ordered.1, .put (Std.OrientedCmp.lt_of_gt greater) ordered.2.1, ih ordered.2.2⟩
  | folderEntry other inner rest _ ih =>
      rw [Folder.put]
      split
      · next less =>
        exact .link isName nodeOrdered ⟨less, before_trans less ordered.2.1⟩ ordered
      · next same =>
        rw [Std.LawfulEqOrd.eq_of_compare same]
        exact .link ordered.1 nodeOrdered ordered.2.1 ordered.2.2.2
      · next greater =>
        exact ⟨ordered.1, .put (Std.OrientedCmp.lt_of_gt greater) ordered.2.1, ordered.2.2.1,
          ih ordered.2.2.2⟩

theorem Ordered.remove {name : Text} {folder : Folder} (ordered : folder.Ordered) :
    (folder.remove name).Ordered := by
  induction folder with
  | empty => trivial
  | fileEntry other data rest ih =>
      rw [Folder.remove]
      split
      · exact ordered.2.2
      · exact ⟨ordered.1, ordered.2.1.remove, ih ordered.2.2⟩
  | folderEntry other inner rest _ ih =>
      rw [Folder.remove]
      split
      · exact ordered.2.2.2
      · exact ⟨ordered.1, ordered.2.1.remove, ordered.2.2.1, ih ordered.2.2.2⟩

theorem Ordered.get? {name : Text} {node : Node} {folder : Folder} (ordered : folder.Ordered)
    (found : folder.get? name = some node) : NodeOrdered node := by
  induction folder with
  | empty => cases found
  | fileEntry other data rest ih =>
      rw [Folder.get?] at found
      split at found
      · cases found
        trivial
      · exact ih ordered.2.2 found
  | folderEntry other inner rest _ ih =>
      rw [Folder.get?] at found
      split at found
      · cases found
        exact ordered.2.2.1
      · exact ih ordered.2.2.2 found

theorem Ordered.inner {name : Text} {folder : Folder} (ordered : folder.Ordered) :
    (folder.inner name).Ordered := by
  unfold Folder.inner
  split
  · next found => exact ordered.get? found
  · trivial

theorem Ordered.putAt {node : Node} (nodeOrdered : NodeOrdered node) (names : List Text)
    (areNames : names.all isEntryName = true) :
    ∀ {folder : Folder}, folder.Ordered → (folder.putAt node names).Ordered := by
  induction names with
  | nil => exact id
  | cons name rest ih =>
      intro folder ordered
      simp only [List.all_cons, Bool.and_eq_true] at areNames
      cases rest with
      | nil => exact ordered.put areNames.1 nodeOrdered
      | cons next rest => exact ordered.put areNames.1 (ih areNames.2 ordered.inner)

theorem Ordered.removeAt (names : List Text) (areNames : names.all isEntryName = true) :
    ∀ {folder : Folder}, folder.Ordered → (folder.removeAt names).Ordered := by
  induction names with
  | nil => exact id
  | cons name rest ih =>
      intro folder ordered
      simp only [List.all_cons, Bool.and_eq_true] at areNames
      cases rest with
      | nil => exact ordered.remove
      | cons next rest =>
          unfold Folder.removeAt
          split
          · next found => exact ordered.put areNames.1 (ih areNames.2 (ordered.get? found))
          · exact ordered

theorem get?_link (name other : Text) (node : Node) (rest : Folder) :
    (link name node rest).get? other = if name = other then some node else rest.get? other := by
  cases node <;> rfl

theorem ne_of_compare_ne_eq {name other : Text} (differ : compare name other ≠ .eq) :
    name ≠ other := by
  rintro rfl
  exact differ Std.ReflCmp.compare_self

theorem get?_put (name other : Text) (node : Node) (folder : Folder) :
    (folder.put name node).get? other = if name = other then some node else folder.get? other := by
  induction folder with
  | empty => exact get?_link name other node empty
  | fileEntry first data rest ih =>
      rw [put]
      split
      · exact get?_link ..
      · next same =>
        rw [get?_link, get?, ← Std.LawfulEqOrd.eq_of_compare same]
        split <;> rfl
      · next greater =>
        rw [get?, get?, ih]
        split
        · next found => rw [if_neg (found ▸ ne_of_compare_ne_eq (by simp [greater]))]
        · rfl
  | folderEntry first inner rest _ ih =>
      rw [put]
      split
      · exact get?_link ..
      · next same =>
        rw [get?_link, get?, ← Std.LawfulEqOrd.eq_of_compare same]
        split <;> rfl
      · next greater =>
        rw [get?, get?, ih]
        split
        · next found => rw [if_neg (found ▸ ne_of_compare_ne_eq (by simp [greater]))]
        · rfl

theorem get?_eq_none_of_before {name : Text} {folder : Folder}
    (before : folder.AllNames fun other => compare name other = .lt) : folder.get? name = none := by
  induction folder with
  | empty => rfl
  | fileEntry other data rest ih =>
      rw [get?, if_neg, ih before.2]
      exact fun same => ne_of_compare_ne_eq (by simp [before.1]) same.symm
  | folderEntry other inner rest _ ih =>
      rw [get?, if_neg, ih before.2]
      exact fun same => ne_of_compare_ne_eq (by simp [before.1]) same.symm

theorem get?_remove (name other : Text) {folder : Folder} (ordered : folder.Ordered) :
    (folder.remove name).get? other = if name = other then none else folder.get? other := by
  induction folder with
  | empty =>
      rw [remove, get?]
      split <;> rfl
  | fileEntry first data rest ih =>
      rw [remove]
      split
      · next same =>
        subst same
        rw [get?]
        split
        · next found => exact found ▸ get?_eq_none_of_before ordered.2.1
        · rfl
      · next differs =>
        rw [get?, get?, ih ordered.2.2]
        split
        · next found => rw [if_neg fun same => differs (found.trans same.symm)]
        · rfl
  | folderEntry first inner rest _ ih =>
      rw [remove]
      split
      · next same =>
        subst same
        rw [get?]
        split
        · next found => exact found ▸ get?_eq_none_of_before ordered.2.1
        · rfl
      · next differs =>
        rw [get?, get?, ih ordered.2.2.2]
        split
        · next found => rw [if_neg fun same => differs (found.trans same.symm)]
        · rfl

end Folder

end CodePointers
