import CodePointers.Disk.Walk
import CodePointers.Manifest

/-!
The layout of a workspace: its root and its declared modules. Which files it has is asked of the
disk anew each time; resolution only needs the answers, wherever they come from.
-/

namespace CodePointers

structure DeclaredModule where
  name : Text
  contentRoots : List Path

structure Layout where
  root : Path
  modules : List DeclaredModule

/-- A layout with the files that resolution finds in it. -/
structure Workspace extends Layout where
  isFile : Path → Bool
  filesNamed : Text → List Path

namespace Layout

/-- A module without declared roots lies in the folder of its name. -/
def declaredModule (root : Path) (entry : ManifestEntry) : DeclaredModule :=
  { name := entry.name
    contentRoots :=
      if entry.roots = [] then [root.join (.ofText entry.name)]
      else entry.roots.map fun folder => root.join (.ofText folder) }

/-- The modules of the manifest; one that is missing or cannot be read declares none. -/
def manifestModules (disk : Disk) (root : Path) : List DeclaredModule :=
  match disk.file? (root.join (.ofText manifestName.toList)) with
  | some { content := .text text, .. } =>
      ((ManifestEntry.listOfText? text).getD []).map (declaredModule root)
  | _ => []

def ofDisk (disk : Disk) (root : Path) : Layout :=
  let root := (disk.canonical? root).getD root
  { root, modules := manifestModules disk root }

def withModule (layout : Layout) (name : Text) (roots : List Path) : Layout :=
  { layout with
    modules := layout.modules ++ [{ name, contentRoots := roots.map layout.root.join }] }

def module? (layout : Layout) (name : Text) : Option DeclaredModule :=
  layout.modules.find? fun declared => declared.name == name

def files (disk : Disk) (layout : Layout) : List Path := disk.walk layout.root

def filesNamed (disk : Disk) (layout : Layout) (name : Text) : List Path :=
  (layout.files disk).filter fun file => file.fileName? == some name

def indexableFiles (disk : Disk) (layout : Layout) : List Path :=
  (layout.files disk).filter hasIndexedExtension

def on (disk : Disk) (layout : Layout) : Workspace :=
  { layout with isFile := disk.isFile, filesNamed := layout.filesNamed disk }

end Layout

end CodePointers
