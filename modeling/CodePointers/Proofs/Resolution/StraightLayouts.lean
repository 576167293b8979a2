import CodePointers.Proofs.Resolution.Containment

/-!
Layouts without `..` segments. What a pointer is resolved to has none either, as long as its module
has none, so that it is the same place on every disk.
-/

namespace CodePointers

namespace Layout

structure Straight (layout : Layout) : Prop where
  root : Part.parent ∉ layout.root.parts
  contentRoots : ∀ declared ∈ layout.modules, ∀ base ∈ declared.contentRoots,
    Part.parent ∉ base.parts

open Resolution

variable {disk : Disk} {layout : Layout} {moduleName relativePath : Text}
  {relative : Path} {resolution : Resolution}

theorem Straight.base (straight : layout.Straight) {base : Path} (isBase : base ∈ layout.bases)
    (absolute : base.isAbsolute = true) : Part.parent ∉ base.parts := by
  rcases List.mem_cons.mp isBase with rfl | isSibling
  · exact straight.root
  · have isParent := Option.mem_toList.mp isSibling
    have rootAbsolute := Path.isAbsolute_of_parent? isParent absolute
    obtain ⟨_, last, isRoot⟩ := Path.parts_of_parent? rootAbsolute isParent
    have plain := straight.root
    rw [isRoot, List.mem_append, not_or] at plain
    exact plain.1

theorem Straight.not_parent_mem_of_place (straight : layout.Straight)
    (straightModule : Part.parent ∉ (Path.ofText moduleName).parts)
    (place : Place layout moduleName relative resolution)
    (down : ∃ names, relative.GoesDown names) (isFile : disk.isFile resolution.path = true) :
    Part.parent ∉ resolution.path.parts := by
  have absolute := Path.isAbsolute_of_isFile isFile
  by_cases enters : resolution.strategy.entersModule = true
  · cases moduleAbsolute : (Path.ofText moduleName).isAbsolute with
    | true =>
        obtain ⟨names, _, isPath⟩ := below_of_place place down enters moduleAbsolute isFile
        rw [isPath]
        simp [straightModule]
    | false =>
        obtain ⟨base, isBase, absolute, before, after, isPath⟩ :=
          parts_of_place place down enters moduleAbsolute isFile
        have inner := (Path.parent_mem_parts_iff moduleAbsolute).not.mp straightModule
        rw [isPath]
        simp [straight.base isBase absolute, inner]
  · obtain ⟨names, down⟩ := down
    cases place with
    | @registered declared base found member =>
        rw [(down.parts_join absolute).2]
        simp [straight.contentRoots _ (List.mem_of_find?_eq_some found) _ member]
    | atRoot =>
        rw [(down.parts_join absolute).2]
        simp [straight.root]
    | inModule _ entersModule => exact absurd entersModule enters
    | moduleFirst => exact absurd rfl enters
    | directoryFirst => exact absurd rfl enters

theorem Straight.denotes_of_resolve? (straight : layout.Straight)
    (straightModule : Part.parent ∉ (Path.ofText moduleName).parts)
    (found : layout.resolve? disk moduleName relativePath = some resolution) :
    ∃ names, resolution.path.Denotes names := by
  have isFile := isFile_of_resolve? found
  have plain : Part.parent ∉ resolution.path.parts := by
    rcases resolve?_cases found with ⟨relative, down, place, isFile⟩ | ⟨_, inFiles⟩
    · exact straight.not_parent_mem_of_place straightModule place down isFile
    · obtain ⟨names, areNames, isPath, _⟩ := Disk.mem_walk_iff.mp inFiles
      rw [isPath, Path.parts_descend layout.root areNames]
      simp [straight.root]
  obtain ⟨names, spells⟩ := Path.exists_spells (Path.isAbsolute_of_isFile isFile) plain
  exact ⟨names, spells.denotes_of_isFile isFile⟩

/-! Scanned pointers in a plain layout. -/

theorem Plain.straight (plain : layout.Plain) : layout.Straight where
  root := by
    obtain ⟨names, spells⟩ := plain.root
    exact spells.not_parent_mem_parts
  contentRoots declared isDeclared base isRoot := by
    obtain ⟨names, spells⟩ := plain.contentRoots declared isDeclared base isRoot
    exact spells.not_parent_mem_parts

theorem not_parent_mem_of_hasPlainModule {pointer : Pointer}
    (plainModule : pointer.HasPlainModule) :
    Part.parent ∉ (Path.ofText pointer.moduleName).parts := by
  obtain ⟨names, down⟩ := Path.goesDown_ofText plainModule
  rw [Path.parent_mem_parts_iff down.relative, down.spelled]
  simp

theorem Plain.denotes_of_target? {pointer : Pointer} {target : Path} (plain : layout.Plain)
    (plainModule : pointer.HasPlainModule) (found : layout.target? disk pointer = some target) :
    ∃ names, target.Denotes names := by
  obtain ⟨resolution, isFound, rfl⟩ := Option.map_eq_some_iff.mp found
  exact plain.straight.denotes_of_resolve? (not_parent_mem_of_hasPlainModule plainModule) isFound

end Layout

end CodePointers
