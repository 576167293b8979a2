import CodePointers.Layout
import CodePointers.Pointer

/-!
Resolution of pointers to files: the places a module and a path may stand for are probed one after
the other, and the last resort is a search for the file's name.
-/

namespace CodePointers

inductive Strategy where
  | moduleRegistry
  | moduleFolder
  | rootRelative
  | siblingWorkspace
  | conventionalDirectory
  | fileName
deriving DecidableEq

def Strategy.label : Strategy → String
  | moduleRegistry => "module-registry"
  | moduleFolder => "module-prefix"
  | rootRelative => "root-relative"
  | siblingWorkspace => "sibling-workspace"
  | conventionalDirectory => "conventional-directory"
  | fileName => "file-name-fallback"

structure Resolution where
  path : Path
  strategy : Strategy

namespace Resolution

def existing? (workspace : Workspace) (path : Path) : Option Path :=
  if workspace.isFile path then some path else none

def inModuleRoots? (workspace : Workspace) (moduleName : Text) (relative : Path) :
    Option Path := do
  let declared ← workspace.module? moduleName
  declared.contentRoots.findSome? fun base => existing? workspace (base.join relative)

def inModuleFolder? (workspace : Workspace) (base : Path) (moduleName : Text) (relative : Path) :
    Option Path :=
  existing? workspace ((base.join (.ofText moduleName)).join relative)

def inConventional? (workspace : Workspace) (bases : List Path) (moduleName : Text)
    (relative : Path) : Option Path :=
  conventionalDirectories.findSome? fun directory =>
    let directory := Path.ofText directory.toList
    let moduleFolder := Path.ofText moduleName
    bases.findSome? fun base =>
      existing? workspace (((base.join moduleFolder).join directory).join relative) <|>
        existing? workspace (((base.join directory).join moduleFolder).join relative)

def lastSegment (text : Text) : Text :=
  match splitLast? '/' text with
  | some (_, name) => name
  | none => text

/-- Searches the workspace for the file name at the end of the text; of several files, the first
whose path contains the whole text is preferred. -/
def byFileName? (workspace : Workspace) (text : Text) : Option Path :=
  if lastSegment text = [] then none
  else match workspace.filesNamed (lastSegment text) with
    | [] => none
    | [only] => some only
    | first :: others =>
        some (((first :: others).find? fun file => occursIn text file.text).getD first)

/-- A pointer without a path names a file by its module part. -/
def ofBareName? (workspace : Workspace) (name : Text) : Option Resolution := do
  let relative ← (Path.ofText name).plain?
  if relative.isEmpty then none
  else
    (existing? workspace (workspace.root.join relative)).map (⟨·, .rootRelative⟩) <|>
      (byFileName? workspace name).map (⟨·, .fileName⟩)

def ofRelative? (workspace : Workspace) (moduleName relativePath : Text) (relative : Path) :
    Option Resolution :=
  let sibling? := workspace.root.parent?
  (inModuleRoots? workspace moduleName relative).map (⟨·, .moduleRegistry⟩) <|>
  (inModuleFolder? workspace workspace.root moduleName relative).map (⟨·, .moduleFolder⟩) <|>
  (existing? workspace (workspace.root.join relative)).map (⟨·, .rootRelative⟩) <|>
  (sibling?.bind fun sibling => inModuleFolder? workspace sibling moduleName relative).map
    (⟨·, .siblingWorkspace⟩) <|>
  (inConventional? workspace (workspace.root :: sibling?.toList) moduleName relative).map
    (⟨·, .conventionalDirectory⟩) <|>
  (byFileName? workspace relativePath).map (⟨·, .fileName⟩)

end Resolution

def Workspace.resolve? (workspace : Workspace) (moduleName relativePath : Text) :
    Option Resolution :=
  if relativePath = [] then Resolution.ofBareName? workspace moduleName
  else (Path.ofText relativePath).plain?.bind
    (Resolution.ofRelative? workspace moduleName relativePath)

namespace Layout

def resolve? (disk : Disk) (layout : Layout) (moduleName relativePath : Text) :
    Option Resolution :=
  (layout.on disk).resolve? moduleName relativePath

def target? (disk : Disk) (layout : Layout) (pointer : Pointer) : Option Path :=
  (layout.resolve? disk pointer.moduleName pointer.relativePath).map (·.path)

end Layout

end CodePointers
