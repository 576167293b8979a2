import CodePointers.Disk.Folder
import CodePointers.Path

/-!
The file system as one tree of folders. A path is looked up part by part, as an operating system
does it: whatever has a further segment after it, even an empty one, has to be a folder.

There are regular files and folders and nothing else, no links and no special files. All folders can
be listed and all files opened, so that a file fails to be read only when its content is no text.
The names are texts. There is no current folder: a path that is not absolute leads nowhere.
-/

namespace CodePointers

structure Disk where
  root : Folder
  ordered : root.Ordered
  /-- The size that is reported for a folder with these contents. -/
  folderSize : Folder → Nat

namespace Disk

def empty : Disk := { root := .empty, ordered := trivial, folderSize := fun _ => 4096 }

instance : Inhabited Disk := ⟨empty⟩

def step (disk : Disk) (names : List Text) (segment : Text) : Option (List Text) :=
  match disk.root.at? names with
  | some (.folder folder) =>
      match Part.ofSegment? segment with
      | none => some names
      | some .parent => some names.dropLast
      | some _ => if (folder.get? segment).isSome then some (names ++ [segment]) else none
  | _ => none

/-- The names that lead from the root to what an absolute path denotes, if it exists. -/
def locate? (disk : Disk) (path : Path) : Option (List Text) :=
  if path.isAbsolute then (path.segments.drop 1).foldlM disk.step [] else none

def node? (disk : Disk) (path : Path) : Option Node :=
  (disk.locate? path).bind fun names => disk.root.at? names

def file? (disk : Disk) (path : Path) : Option File :=
  match disk.node? path with
  | some (.file data) => some data
  | _ => none

def isFile (disk : Disk) (path : Path) : Bool := (disk.file? path).isSome

def isFolder (disk : Disk) (path : Path) : Bool :=
  match disk.node? path with
  | some (.folder _) => true
  | _ => false

def pathExists (disk : Disk) (path : Path) : Bool := (disk.node? path).isSome

def canonical? (disk : Disk) (path : Path) : Option Path :=
  (disk.locate? path).map Path.ofNames

def nodeSize (disk : Disk) : Node → Nat
  | .file data => data.content.size
  | .folder tree => disk.folderSize tree

def size? (disk : Disk) (path : Path) : Option Nat := (disk.node? path).map disk.nodeSize

def putNode (disk : Disk) (names : List Text) (node : Node)
    (nodeOrdered : Folder.NodeOrdered node) : Disk :=
  if areNames : names.all isEntryName = true then
    { disk with
      root := disk.root.putAt node names
      ordered := disk.ordered.putAt nodeOrdered names areNames }
  else disk

/-- The names of a path with each `..` cancelling the name before it. -/
def namesOf (path : Path) : List Text :=
  path.parts.foldl (fun names part => match part with
    | .name name => names ++ [name]
    | .parent => names.dropLast
    | .root | .current => names) []

def write (disk : Disk) (path : Path) (file : File) : Disk :=
  disk.putNode (namesOf path) (.file file) trivial

def makeFolder (disk : Disk) (path : Path) : Disk :=
  if disk.isFolder (Path.ofNames (namesOf path)) then disk
  else disk.putNode (namesOf path) (.folder .empty) trivial

def remove (disk : Disk) (path : Path) : Disk :=
  let names := namesOf path
  if areNames : names.all isEntryName = true then
    { disk with
      root := disk.root.removeAt names
      ordered := disk.ordered.removeAt names areNames }
  else disk

theorem nodeOrdered_at? {names : List Text} : ∀ {folder : Folder} {node : Node}, folder.Ordered →
    folder.at? names = some node → Folder.NodeOrdered node := by
  induction names with
  | nil =>
      intro folder node ordered found
      cases found
      exact ordered
  | cons name names ih =>
      intro folder node ordered found
      rw [Folder.at?] at found
      split at found
      · cases found
      · split at found
        · cases found
          trivial
        · cases found
      · next inFolder => exact ih (ordered.get? inFolder) found

def rename (disk : Disk) (source target : Path) : Disk :=
  match found : disk.root.at? (namesOf source) with
  | none => disk
  | some node => (disk.remove source).putNode (namesOf target) node
      (nodeOrdered_at? disk.ordered found)

end Disk

end CodePointers
