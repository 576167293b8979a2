import CodePointers.Proofs.Disk.Joins
import CodePointers.Proofs.Pointer.Parsing
import CodePointers.Resolution.Candidates

/-!
The order in which resolution looks for the file of a pointer, in any workspace: the candidates are
probed one after the other, and the first that is a file wins. Only when none is one are the files
searched for their names.
-/

namespace CodePointers

namespace Resolution

/-! The probes as a search through one list. -/

theorem existing?_eq (workspace : Workspace) (path : Path) :
    existing? workspace path = [path].find? fun candidate => workspace.isFile candidate := by
  rw [existing?, List.find?_singleton]

theorem findSome?_existing? {α : Type} (workspace : Workspace) (place : α → Path) (items : List α) :
    (items.findSome? fun item => existing? workspace (place item)) =
      (items.map place).find? fun candidate => workspace.isFile candidate := by
  induction items with
  | nil => rfl
  | cons item items ih =>
      rw [List.findSome?_cons, List.map_cons, List.find?_cons, ih, existing?]
      cases workspace.isFile (place item) <;> rfl

theorem inModuleRoots?_eq (workspace : Workspace) (moduleName : Text) (relative : Path) :
    inModuleRoots? workspace moduleName relative =
      ((((workspace.module? moduleName).map (·.contentRoots)).getD []).map
        (·.join relative)).find? fun candidate => workspace.isFile candidate := by
  unfold inModuleRoots?
  cases workspace.module? moduleName with
  | none => rfl
  | some declared => exact findSome?_existing? workspace (·.join relative) declared.contentRoots

theorem inConventional?_eq (workspace : Workspace) (bases : List Path) (moduleName : Text)
    (relative : Path) :
    inConventional? workspace bases moduleName relative =
      ((conventionalDirectories.map fun name => Path.ofText name.toList).flatMap fun directory =>
        bases.flatMap fun base =>
          conventionalPlaces base (Path.ofText moduleName) relative directory).find?
        fun candidate => workspace.isFile candidate := by
  have places (base moduleFolder directory : Path) :
      (conventionalPlaces base moduleFolder relative directory).find?
          (fun candidate => workspace.isFile candidate) =
        (existing? workspace (((base.join moduleFolder).join directory).join relative)).or
          (existing? workspace (((base.join directory).join moduleFolder).join relative)) := by
    rw [existing?_eq, existing?_eq, ← List.find?_append]
    rfl
  rw [inConventional?, List.find?_flatMap, List.findSome?_map]
  simp only [Function.comp_def, List.find?_flatMap, places, Option.orElse_eq_orElse,
    Option.orElse_eq_or]

def searched? (moduleName relativePath : Text) : Option Text :=
  if relativePath = [] then
    (Path.ofText moduleName).plain?.bind fun relative =>
      if relative.isEmpty then none else some moduleName
  else (Path.ofText relativePath).plain?.map fun _ => relativePath

theorem find?_placed (workspace : Workspace) (strategy : Strategy) (paths : List Path) :
    (paths.map (Resolution.mk · strategy)).find?
        (fun candidate => workspace.isFile candidate.path) =
      (paths.find? fun path => workspace.isFile path).map (⟨·, strategy⟩) :=
  List.find?_map

theorem candidates_eq (layout : Layout) (moduleName : Text) (relative : Path) :
    candidates layout moduleName relative =
      ((((layout.module? moduleName).map (·.contentRoots)).getD []).map (·.join relative)).map
        (⟨·, .moduleRegistry⟩) ++
      ([(layout.root.join (Path.ofText moduleName)).join relative].map (⟨·, .moduleFolder⟩) ++
      ([layout.root.join relative].map (⟨·, .rootRelative⟩) ++
      ((layout.root.parent?.toList.map fun base =>
        (base.join (Path.ofText moduleName)).join relative).map (⟨·, .siblingWorkspace⟩) ++
      ((conventionalDirectories.map fun name => Path.ofText name.toList).flatMap fun directory =>
        (layout.root :: layout.root.parent?.toList).flatMap fun base =>
          conventionalPlaces base (Path.ofText moduleName) relative directory).map
            (⟨·, .conventionalDirectory⟩)))) := by
  simp [candidates, List.map_flatMap, Function.comp_def]

theorem ofRelative?_eq (workspace : Workspace) (moduleName relativePath : Text)
    (relative : Path) :
    ofRelative? workspace moduleName relativePath relative =
      ((candidates workspace.toLayout moduleName relative).find? fun candidate =>
        workspace.isFile candidate.path).or
        ((byFileName? workspace relativePath).map (⟨·, .fileName⟩)) := by
  have sibling : (workspace.root.parent?.bind fun sibling =>
      inModuleFolder? workspace sibling moduleName relative) =
      (workspace.root.parent?.toList.map fun base =>
        (base.join (Path.ofText moduleName)).join relative).find?
        fun candidate => workspace.isFile candidate := by
    cases workspace.root.parent? with
    | none => rfl
    | some sibling => exact existing?_eq ..
  rw [candidates_eq]
  simp only [List.find?_append, find?_placed]
  unfold ofRelative?
  rw [← inModuleRoots?_eq, ← inConventional?_eq, ← sibling, ← existing?_eq, ← existing?_eq]
  simp only [inModuleFolder?, Option.orElse_eq_orElse, Option.orElse_eq_or, Option.or_assoc]

/-- Resolution takes the first candidate that is a file, or else searches for the file name. -/
theorem resolve?_eq (workspace : Workspace) (moduleName relativePath : Text) :
    workspace.resolve? moduleName relativePath =
      ((candidatesOf workspace.toLayout moduleName relativePath).find? fun candidate =>
        workspace.isFile candidate.path).or
        (((searched? moduleName relativePath).bind (byFileName? workspace)).map
          (⟨·, .fileName⟩)) := by
  unfold Workspace.resolve? candidatesOf searched?
  split
  · unfold ofBareName?
    cases (Path.ofText moduleName).plain? with
    | none => rfl
    | some relative =>
        dsimp only [Option.bind_some, Option.bind_eq_bind]
        split
        · rfl
        · rw [Option.orElse_eq_orElse, Option.orElse_eq_or, existing?_eq, ← find?_placed]
          rfl
  · cases (Path.ofText relativePath).plain? with
    | none => rfl
    | some relative => exact ofRelative?_eq ..

theorem byFileName?_eq (workspace : Workspace) (text : Text) :
    byFileName? workspace text =
      if lastSegment text = [] then none
      else ((workspace.filesNamed (lastSegment text)).find? fun file =>
        occursIn text file.text).or (workspace.filesNamed (lastSegment text)).head? := by
  unfold byFileName?
  split
  · rfl
  · cases workspace.filesNamed (lastSegment text) with
    | nil => rfl
    | cons first others =>
        cases others with
        | nil =>
            rw [List.find?_singleton]
            cases occursIn text first.text <;> rfl
        | cons second others =>
            cases found : (first :: second :: others).find? fun file => occursIn text file.text with
            | none => simp only [found]; rfl
            | some file => simp only [found]; rfl

end Resolution

/-! On a disk. -/

namespace Layout

theorem byFileName?_eq (disk : Disk) (layout : Layout) (text : Text) :
    Resolution.byFileName? (layout.on disk) text =
      if Resolution.lastSegment text = [] then none
      else ((layout.filesNamed disk (Resolution.lastSegment text)).find? fun file =>
        occursIn text file.text).or
          (layout.filesNamed disk (Resolution.lastSegment text)).head? :=
  Resolution.byFileName?_eq (layout.on disk) text

theorem resolve?_eq (disk : Disk) (layout : Layout) (moduleName relativePath : Text) :
    layout.resolve? disk moduleName relativePath =
      ((Resolution.candidatesOf layout moduleName relativePath).find? fun candidate =>
        disk.isFile candidate.path).or
        (((Resolution.searched? moduleName relativePath).bind
          (Resolution.byFileName? (layout.on disk))).map (⟨·, .fileName⟩)) :=
  Resolution.resolve?_eq (layout.on disk) moduleName relativePath

end Layout

end CodePointers
