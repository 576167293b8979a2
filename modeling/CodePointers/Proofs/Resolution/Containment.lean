import CodePointers.Proofs.Disk.WorkspaceFiles
import CodePointers.Proofs.Resolution.Targets

/-!
Where pointers can lead, told from the parts of the paths alone. The path of a pointer is relative
and free of `..` segments before it is used, and so is a module that names a file by itself; a
module that names a folder is used as it stands.
-/

namespace CodePointers

namespace Path

def Under (path base : Path) : Prop :=
  ∃ names : List Text, path.parts = base.parts ++ names.map .name

def Below (path base : Path) : Prop :=
  ∃ names : List Text, names ≠ [] ∧ path.parts = base.parts ++ names.map .name

section

variable {disk : Disk} {path base other : Path} {names : List Text}

theorem Below.under (below : path.Below base) : path.Under base := by
  obtain ⟨names, _, isPath⟩ := below
  exact ⟨names, isPath⟩

theorem Under.isWithin (under : path.Under base) : path.isWithin base = true := by
  obtain ⟨names, isPath⟩ := under
  rw [Path.isWithin, List.isPrefixOf_iff_prefix, isPath]
  exact List.prefix_append ..

theorem Under.trans {lower upper : Path} (left : lower.Under path) (right : path.Under upper) :
    lower.Under upper := by
  obtain ⟨inner, isLower⟩ := left
  obtain ⟨outer, isPath⟩ := right
  exact ⟨outer ++ inner, by rw [isLower, isPath, List.map_append, List.append_assoc]⟩

theorem parent_mem_parts_iff (relative : path.isAbsolute = false) :
    Part.parent ∈ path.parts ↔ Part.parent ∈ innerParts path.segments := by
  rcases parts_of_relative relative with isParts | isParts <;> simp [isParts]

theorem parts_of_isAbsolute_join (relative : other.isAbsolute = false)
    (notNil : other.segments ≠ [])
    (absolute : (base.join other).isAbsolute = true) :
    base.isAbsolute = true ∧ (base.join other).parts = base.parts ++ innerParts other.segments := by
  rw [isAbsolute_join relative notNil] at absolute
  exact ⟨absolute, parts_join relative notNil absolute⟩

theorem GoesDown.parts_join (down : other.GoesDown names)
    (absolute : (base.join other).isAbsolute = true) :
    base.isAbsolute = true ∧ (base.join other).parts = base.parts ++ names.map .name := by
  rw [← down.spelled]
  exact parts_of_isAbsolute_join down.relative down.notNil absolute

theorem getLast?_join (down : other.GoesDown names) :
    (base.join other).segments.getLast? = other.segments.getLast? := by
  unfold join
  rw [down.relative, if_neg Bool.false_ne_true]
  split <;> exact List.getLast?_append_of_ne_nil _ down.notNil

/-- A file at the end of a relative path is not the place where that path starts. -/
theorem below_of_isFile_join (down : other.GoesDown names)
    (isFile : disk.isFile (base.join other) = true) : (base.join other).Below base := by
  refine ⟨names, ?_, (down.parts_join (isAbsolute_of_isFile isFile)).2⟩
  rintro rfl
  obtain ⟨init, last, isSegments⟩ : ∃ init last, other.segments = init ++ [last] :=
    ⟨_, _, (List.dropLast_append_getLast down.notNil).symm⟩
  have isLast : (base.join other).segments.getLast? = some last := by
    rw [getLast?_join down, isSegments, List.getLast?_concat]
  have filler := innerParts_eq_nil_iff.mp down.spelled
  rw [isSegments, List.all_append, Bool.and_eq_true, List.all_cons, Bool.and_eq_true,
    not_isFiller_of_isFile isFile isLast] at filler
  cases filler.2.1

end

end Path

/-- The folder above the root, or the root itself when there is none. -/
def Layout.site (layout : Layout) : Path := layout.root.parent?.getD layout.root

/-- Whether a path lies at or below the folder above the root, without `..` segments other than
those of the root. -/
structure Layout.Contains (layout : Layout) (path : Path) : Prop where
  within : path.isWithin layout.site = true
  plain : path.Under layout.root ∨ path.Under layout.site

/-- Whether a pointer with this module may lead there: below a content root of the module when it
was found in the registry, and else to a place that the layout contains. -/
def Layout.Allows (layout : Layout) (moduleName : Text) (resolution : Resolution) : Prop :=
  if resolution.strategy = .moduleRegistry then
    ∃ declared, layout.module? moduleName = some declared ∧
      ∃ base ∈ declared.contentRoots, resolution.path.Below base
  else layout.Contains resolution.path

namespace Layout

variable {disk : Disk} {layout : Layout} {path base : Path}

theorem parts_root (absolute : layout.root.isAbsolute = true) :
    ∃ last, layout.root.parts = layout.site.parts ++ last := by
  unfold site
  cases isParent : layout.root.parent? with
  | none => exact ⟨[], (List.append_nil _).symm⟩
  | some parent =>
      obtain ⟨_, last, isRoot⟩ := Path.parts_of_parent? absolute isParent
      exact ⟨[last], isRoot⟩

theorem contains_of_under_root (absolute : layout.root.isAbsolute = true)
    (under : path.Under layout.root) : layout.Contains path := by
  refine ⟨?_, .inl under⟩
  obtain ⟨last, isRoot⟩ := parts_root absolute
  obtain ⟨names, isPath⟩ := under
  rw [Path.isWithin, List.isPrefixOf_iff_prefix, isPath, isRoot, List.append_assoc]
  exact List.prefix_append ..

theorem contains_of_under_base (isBase : base ∈ layout.bases) (absolute : base.isAbsolute = true)
    (under : path.Under base) : layout.Contains path := by
  rcases List.mem_cons.mp isBase with rfl | isSibling
  · exact contains_of_under_root absolute under
  · have isSite : layout.site = base := by
      rw [site, Option.mem_toList.mp isSibling, Option.getD_some]
    rw [← isSite] at under
    exact ⟨under.isWithin, .inr under⟩

theorem root_under_site (absolute : layout.root.isAbsolute = true)
    (named : layout.root.fileName?.isSome) : layout.root.Under layout.site := by
  unfold site
  cases isParent : layout.root.parent? with
  | none => exact ⟨[], (List.append_nil _).symm⟩
  | some parent =>
      obtain ⟨_, last, isRoot⟩ := Path.parts_of_parent? absolute isParent
      rw [Path.fileName?, isRoot, List.getLast?_concat] at named
      cases last with
      | name name => exact ⟨[name], isRoot⟩
      | root => cases named
      | current => cases named
      | parent => cases named

theorem base_under_site (isBase : base ∈ layout.bases) (under : layout.root.Under layout.site) :
    base.Under layout.site := by
  rcases List.mem_cons.mp isBase with rfl | isSibling
  · exact under
  · rw [site, Option.mem_toList.mp isSibling]
    exact ⟨[], (List.append_nil _).symm⟩

theorem contains_of_mem_files (member : path ∈ layout.files disk) : layout.Contains path := by
  obtain ⟨names, areNames, rfl, _, isFile⟩ := Disk.mem_walk_iff.mp member
  have isThere := Disk.pathExists_of_descend areNames (Disk.pathExists_of_isFile isFile)
  exact contains_of_under_root (Path.isAbsolute_of_pathExists isThere)
    ⟨names, Path.parts_descend layout.root areNames⟩

end Layout

/-! Modules that are folders on the way. -/

namespace Resolution

variable {disk : Disk} {layout : Layout} {moduleName : Text} {relative : Path}
  {resolution : Resolution}

theorem parts_of_place (place : Place layout moduleName relative resolution)
    (down : ∃ names, relative.GoesDown names) (enters : resolution.strategy.entersModule = true)
    (moduleRelative : (Path.ofText moduleName).isAbsolute = false)
    (isFile : disk.isFile resolution.path = true) :
    ∃ base ∈ layout.bases, base.isAbsolute = true ∧ ∃ before after : List Text,
      resolution.path.parts = base.parts ++ (before.map .name ++
        (Path.innerParts (Path.ofText moduleName).segments ++ after.map .name)) := by
  obtain ⟨names, down⟩ := down
  have notNil : (Path.ofText moduleName).segments ≠ [] := List.splitOn_ne_nil _ _
  have absolute := Path.isAbsolute_of_isFile isFile
  cases place with
  | registered => cases enters
  | atRoot => cases enters
  | inModule isBase =>
      obtain ⟨absolute, isPath⟩ := down.parts_join absolute
      obtain ⟨absolute, isFolder⟩ := Path.parts_of_isAbsolute_join moduleRelative notNil absolute
      refine ⟨_, isBase, absolute, [], names, ?_⟩
      simp [isPath, isFolder]
  | moduleFirst isBase isKnown =>
      obtain ⟨directoryNames, directoryDown⟩ := Path.goesDown_conventional isKnown
      obtain ⟨absolute, isPath⟩ := down.parts_join absolute
      obtain ⟨absolute, isDirectory⟩ := directoryDown.parts_join absolute
      obtain ⟨absolute, isFolder⟩ := Path.parts_of_isAbsolute_join moduleRelative notNil absolute
      refine ⟨_, isBase, absolute, [], directoryNames ++ names, ?_⟩
      simp [isPath, isDirectory, isFolder]
  | directoryFirst isBase isKnown =>
      obtain ⟨directoryNames, directoryDown⟩ := Path.goesDown_conventional isKnown
      obtain ⟨absolute, isPath⟩ := down.parts_join absolute
      obtain ⟨absolute, isFolder⟩ := Path.parts_of_isAbsolute_join moduleRelative notNil absolute
      obtain ⟨absolute, isDirectory⟩ := directoryDown.parts_join absolute
      refine ⟨_, isBase, absolute, directoryNames, names, ?_⟩
      simp [isPath, isDirectory, isFolder]

theorem below_of_place (place : Place layout moduleName relative resolution)
    (down : ∃ names, relative.GoesDown names) (enters : resolution.strategy.entersModule = true)
    (moduleAbsolute : (Path.ofText moduleName).isAbsolute = true)
    (isFile : disk.isFile resolution.path = true) :
    resolution.path.Below (.ofText moduleName) := by
  obtain ⟨names, down⟩ := down
  have replaces (base : Path) : base.join (.ofText moduleName) = .ofText moduleName := by
    rw [Path.join, if_pos moduleAbsolute]
  cases place with
  | registered => cases enters
  | atRoot => cases enters
  | inModule =>
      rw [replaces] at isFile ⊢
      exact Path.below_of_isFile_join down isFile
  | moduleFirst isBase isKnown =>
      obtain ⟨directoryNames, directoryDown⟩ := Path.goesDown_conventional isKnown
      rw [replaces] at isFile ⊢
      obtain ⟨more, notNil, isPath⟩ := Path.below_of_isFile_join down isFile
      obtain ⟨absolute, _⟩ := down.parts_join (Path.isAbsolute_of_isFile isFile)
      refine ⟨directoryNames ++ more, List.append_ne_nil_of_right_ne_nil _ notNil, ?_⟩
      rw [isPath, (directoryDown.parts_join absolute).2, List.map_append, List.append_assoc]
  | directoryFirst =>
      rw [replaces] at isFile ⊢
      exact Path.below_of_isFile_join down isFile

theorem allows_of_place (place : Place layout moduleName relative resolution)
    (down : ∃ names, relative.GoesDown names) (isFile : disk.isFile resolution.path = true)
    (stays : resolution.strategy.entersModule = true →
      (Path.ofText moduleName).isAbsolute = false ∧
        Part.parent ∉ Path.innerParts (Path.ofText moduleName).segments) :
    layout.Allows moduleName resolution := by
  unfold Layout.Allows
  split
  · next isRegistry =>
    obtain ⟨names, down⟩ := down
    cases place with
    | registered found isRoot =>
        exact ⟨_, found, _, isRoot, Path.below_of_isFile_join down isFile⟩
    | atRoot => cases isRegistry
    | @inModule base strategy _ enters =>
        obtain rfl : strategy = .moduleRegistry := isRegistry
        cases enters
    | moduleFirst => cases isRegistry
    | directoryFirst => cases isRegistry
  · next notRegistry =>
    by_cases enters : resolution.strategy.entersModule = true
    · obtain ⟨moduleRelative, plain⟩ := stays enters
      obtain ⟨base, isBase, absolute, before, after, isPath⟩ :=
        parts_of_place place down enters moduleRelative isFile
      obtain ⟨names, isModule⟩ := Path.exists_names plain
      refine Layout.contains_of_under_base isBase absolute ⟨before ++ (names ++ after), ?_⟩
      rw [isPath, isModule, List.map_append, List.map_append]
    · cases place with
      | registered => exact absurd rfl notRegistry
      | atRoot =>
          obtain ⟨names, down⟩ := down
          have absolute := (down.parts_join (Path.isAbsolute_of_isFile isFile)).1
          exact Layout.contains_of_under_root absolute (Path.below_of_isFile_join down isFile).under
      | inModule _ entersModule => exact absurd entersModule enters
      | moduleFirst => exact absurd rfl enters
      | directoryFirst => exact absurd rfl enters

theorem not_contains_of_place (place : Place layout moduleName relative resolution)
    (down : ∃ names, relative.GoesDown names) (enters : resolution.strategy.entersModule = true)
    (moduleRelative : (Path.ofText moduleName).isAbsolute = false)
    (climbs : Part.parent ∈ Path.innerParts (Path.ofText moduleName).segments)
    (absolute : layout.root.isAbsolute = true) (named : layout.root.fileName?.isSome)
    (isFile : disk.isFile resolution.path = true) : ¬layout.Contains resolution.path := by
  obtain ⟨base, isBase, _, before, after, isPath⟩ :=
    parts_of_place place down enters moduleRelative isFile
  have underSite := Layout.root_under_site absolute named
  intro contains
  obtain ⟨names, isNames⟩ : resolution.path.Under layout.site :=
    contains.plain.elim (·.trans underSite) id
  obtain ⟨upper, isUpper⟩ := Layout.base_under_site isBase underSite
  rw [isPath, isUpper, List.append_assoc] at isNames
  have member : Part.parent ∈ names.map Part.name := by
    rw [← List.append_cancel_left isNames]
    simp [climbs]
  simp at member

end Resolution

namespace Layout

open Resolution

variable {disk : Disk} {layout : Layout} {moduleName relativePath : Text} {resolution : Resolution}

theorem resolve?_cases (found : layout.resolve? disk moduleName relativePath = some resolution) :
    (∃ relative, (∃ names, relative.GoesDown names) ∧
        Place layout moduleName relative resolution ∧ disk.isFile resolution.path = true) ∨
      (resolution.strategy = .fileName ∧ resolution.path ∈ layout.files disk) := by
  refine (mem_candidatesOf_or_mem_files found).imp_left ?_
  rintro ⟨member, isFile⟩
  obtain ⟨relative, down, place⟩ := place_of_mem_candidatesOf member
  exact ⟨relative, down, place, isFile⟩

theorem allows_of_stays
    (found : layout.resolve? disk moduleName relativePath = some resolution)
    (stays : resolution.strategy.entersModule = true →
      (Path.ofText moduleName).isAbsolute = false ∧
        Part.parent ∉ Path.innerParts (Path.ofText moduleName).segments) :
    layout.Allows moduleName resolution := by
  rcases resolve?_cases found with ⟨relative, down, place, isFile⟩ | ⟨isSearch, inFiles⟩
  · exact allows_of_place place down isFile stays
  · rw [Allows, isSearch, if_neg nofun]
    exact contains_of_mem_files inFiles

/-- Resolution stays within the allowed places as long as the module is not a folder on the way, or
is a relative path without `..` segments. Otherwise it leads to what the module says: below the
module's own path when that is absolute, and out of the folder above the root when it climbs. -/
theorem allows_of_resolve?
    (found : layout.resolve? disk moduleName relativePath = some resolution) :
    let folder := Path.ofText moduleName
    ((resolution.strategy.entersModule = true →
        folder.isAbsolute = false ∧ Part.parent ∉ folder.parts) →
      layout.Allows moduleName resolution) ∧
    (resolution.strategy.entersModule = true → folder.isAbsolute = true →
      resolution.path.Below folder) ∧
    (resolution.strategy.entersModule = true → folder.isAbsolute = false →
      Part.parent ∈ folder.parts → layout.root.isAbsolute = true → layout.root.fileName?.isSome →
      ¬layout.Allows moduleName resolution) := by
  intro folder
  have placed (enters : resolution.strategy.entersModule = true) :
      ∃ relative, (∃ names, relative.GoesDown names) ∧
        Place layout moduleName relative resolution ∧ disk.isFile resolution.path = true := by
    rcases resolve?_cases found with place | ⟨isSearch, _⟩
    · exact place
    · rw [isSearch] at enters
      cases enters
  refine ⟨fun stays => allows_of_stays found fun enters => ?_, fun enters moduleAbsolute => ?_,
    fun enters moduleRelative climbs absolute named => ?_⟩
  · obtain ⟨moduleRelative, plain⟩ := stays enters
    exact ⟨moduleRelative, (Path.parent_mem_parts_iff moduleRelative).not.mp plain⟩
  · obtain ⟨relative, down, place, isFile⟩ := placed enters
    exact below_of_place place down enters moduleAbsolute isFile
  · obtain ⟨relative, down, place, isFile⟩ := placed enters
    have notRegistry : resolution.strategy ≠ .moduleRegistry := by
      intro isRegistry
      rw [isRegistry] at enters
      cases enters
    rw [Allows, if_neg notRegistry]
    exact not_contains_of_place place down enters moduleRelative
      ((Path.parent_mem_parts_iff moduleRelative).mp climbs) absolute named isFile

theorem allows_of_resolve?_in_sibling :
    let layout : Layout := ⟨.ofText "/a/ws".toList, []⟩
    let disk := Disk.empty.write (.ofText "/a/m/src/x.rs".toList) ⟨.text [], 0⟩
    let resolution : Resolution := ⟨.ofText "/a/m/src/x.rs".toList, .conventionalDirectory⟩
    let folder := Path.ofText "m".toList
    layout.root.isAbsolute = true ∧ layout.root.parent?.isSome ∧
      layout.resolve? disk "m".toList "x.rs".toList = some resolution ∧
      folder.isAbsolute = false ∧ Part.parent ∉ folder.parts ∧
      layout.Allows "m".toList resolution := by
  intro layout disk resolution folder
  have found : layout.resolve? disk "m".toList "x.rs".toList = some resolution := by rfl
  have relative : folder.isAbsolute = false := by decide
  have plain : Part.parent ∉ folder.parts := by decide
  exact ⟨by decide, by decide, found, relative, plain,
    (allows_of_resolve? found).1 fun _ => ⟨relative, plain⟩⟩

/-- A module that climbs leads to a file beside the folder above the root. -/
theorem not_allows_of_climbing_module :
    let layout : Layout := ⟨.ofText "/a/ws".toList, []⟩
    let disk := (Disk.empty.makeFolder layout.root).write (.ofText "/secret.txt".toList)
      ⟨.text "s".toList, 0⟩
    let resolution : Resolution := ⟨.ofText "/a/../secret.txt".toList, .siblingWorkspace⟩
    layout.root.isAbsolute = true ∧ layout.root.parent?.isSome ∧
      (∃ pointer, Pointer.parse "@../secret.txt:L1".toList = .ok pointer ∧
        layout.resolve? disk pointer.moduleName pointer.relativePath = some resolution ∧
        ¬layout.Allows pointer.moduleName resolution) ∧
      disk.canonical? resolution.path = some (.ofText "/secret.txt".toList) := by
  intro layout disk resolution
  refine ⟨by decide, by decide, ⟨⟨"..".toList, "secret.txt".toList, ⟨1, 1, by decide, by decide⟩⟩,
    by rfl, by rfl, fun allows => ?_⟩, by rfl⟩
  have contains : layout.Contains resolution.path := allows
  have climbs : Part.parent ∈ resolution.path.parts := by decide
  have rootPlain : Part.parent ∉ layout.root.parts := by decide
  have sitePlain : Part.parent ∉ layout.site.parts := by decide
  rcases contains.plain with ⟨names, isPath⟩ | ⟨names, isPath⟩
  · rw [isPath] at climbs
    simp [rootPlain] at climbs
  · rw [isPath] at climbs
    simp [sitePlain] at climbs

/-! Scanned pointers. -/

/-- Whether a path lies below a declared content root, or else where the layout contains it. -/
def Covers (layout : Layout) (path : Path) : Prop :=
  (∃ declared ∈ layout.modules, ∃ base ∈ declared.contentRoots, path.Below base) ∨
    layout.Contains path

/-- The module of a scanned pointer is one plain name, so it cannot lead astray. -/
theorem covers_of_target? {pointer : Pointer} {target : Path}
    (plainModule : pointer.HasPlainModule) (found : layout.target? disk pointer = some target) :
    layout.Covers target := by
  obtain ⟨resolution, isFound, rfl⟩ := Option.map_eq_some_iff.mp found
  obtain ⟨names, down⟩ := Path.goesDown_ofText plainModule
  have allows : layout.Allows pointer.moduleName resolution := by
    refine allows_of_stays isFound fun _ => ⟨down.relative, ?_⟩
    rw [down.spelled]
    simp
  unfold Allows at allows
  split at allows
  · obtain ⟨declared, isDeclared, base, isRoot, below⟩ := allows
    exact .inl ⟨declared, List.mem_of_find?_eq_some isDeclared, base, isRoot, below⟩
  · exact .inr allows

end Layout

end CodePointers
