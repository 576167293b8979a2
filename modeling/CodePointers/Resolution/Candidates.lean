import CodePointers.Resolution

/-!
The fixed list of places at which the file of a pointer may stand, in the order of preference. The
search by file name is the only other way to a target.
-/

namespace CodePointers.Resolution

def conventionalPlaces (base moduleFolder relative directory : Path) : List Path :=
  [((base.join moduleFolder).join directory).join relative,
    ((base.join directory).join moduleFolder).join relative]

def candidates (layout : Layout) (moduleName : Text) (relative : Path) : List Resolution :=
  let moduleFolder := Path.ofText moduleName
  let siblings := layout.root.parent?.toList
  let contentRoots := ((layout.module? moduleName).map (·.contentRoots)).getD []
  let directories := conventionalDirectories.map fun name => Path.ofText name.toList
  contentRoots.map (fun base => ⟨base.join relative, .moduleRegistry⟩) ++
  ⟨(layout.root.join moduleFolder).join relative, .moduleFolder⟩ ::
  ⟨layout.root.join relative, .rootRelative⟩ ::
  siblings.map (fun base => ⟨(base.join moduleFolder).join relative, .siblingWorkspace⟩) ++
  directories.flatMap fun directory =>
    (layout.root :: siblings).flatMap fun base =>
      (conventionalPlaces base moduleFolder relative directory).map
        (⟨·, .conventionalDirectory⟩)

def candidatesOf (layout : Layout) (moduleName relativePath : Text) : List Resolution :=
  if relativePath = [] then
    match (Path.ofText moduleName).plain? with
    | some relative =>
        if relative.isEmpty then [] else [⟨layout.root.join relative, .rootRelative⟩]
    | none => []
  else
    match (Path.ofText relativePath).plain? with
    | some relative => candidates layout moduleName relative
    | none => []

end CodePointers.Resolution
