import CodePointers.Proofs.Resolution.Probing
import CodePointers.Proofs.Resolution.ScannedPointers

/-!
What a pointer is resolved to: the first of its candidates that is a file, or else a file of the
workspace with the name that is searched for. Every candidate is put together in one of a few ways.
-/

namespace CodePointers

/-! The folders that a pointer can name. -/

namespace Path

theorem goesDown_ofText {name : Text} (plain : name.all isModuleChar = true) :
    ∃ names, (ofText name).GoesDown names := by
  have isChar (char : Char) (member : char ∈ name) : isModuleChar char = true :=
    List.all_eq_true.mp plain char member
  have single : (ofText name).segments = [name] := by
    refine List.splitOn_eq_singleton fun slash => ?_
    have := isChar '/' slash
    cases this
  have noDot : '.' ∉ name := by
    intro dot
    have := isChar '.' dot
    cases this
  have relative : (ofText name).isAbsolute = false := by
    rw [isAbsolute, single]
    cases name <;> rfl
  have notNil : (ofText name).segments ≠ [] := by
    rw [single]
    exact List.cons_ne_nil _ _
  by_cases empty : name = []
  · exact ⟨[], notNil, relative, by rw [single, empty]; rfl⟩
  · have isPart : Part.ofSegment? name = some (.name name) := by
      unfold Part.ofSegment?
      rw [if_neg, if_neg]
      · rintro rfl
        exact noDot List.mem_cons_self
      · rintro (rfl | rfl)
        · exact empty rfl
        · exact noDot List.mem_cons_self
    exact ⟨[name], notNil, relative, by rw [single]; exact List.filterMap_cons_some isPart⟩

theorem goesDown_conventional {directory : String} (member : directory ∈ conventionalDirectories) :
    ∃ names, (ofText directory.toList).GoesDown names := by
  have plain : ∀ known ∈ conventionalDirectories, known.toList.all isModuleChar = true := by decide
  exact goesDown_ofText (plain directory member)

end Path

/-! The candidates of a pointer and the search for its file name. -/

structure Layout.Plain (layout : Layout) : Prop where
  root : ∃ names, layout.root.Spells names
  contentRoots : ∀ declared ∈ layout.modules, ∀ base ∈ declared.contentRoots,
    ∃ names, base.Spells names

def Layout.bases (layout : Layout) : List Path := layout.root :: layout.root.parent?.toList

def Strategy.entersModule : Strategy → Bool
  | moduleFolder | siblingWorkspace | conventionalDirectory => true
  | moduleRegistry | rootRelative | fileName => false

namespace Resolution

theorem mem_files_of_byFileName? {disk : Disk} {layout : Layout} {text : Text} {file : Path}
    (found : byFileName? (layout.on disk) text = some file) : file ∈ layout.files disk := by
  rw [byFileName?_eq] at found
  split at found
  · cases found
  · rcases Option.or_eq_some_iff.mp found with preferred | ⟨_, first⟩
    · exact (List.mem_filter.mp (List.mem_of_find?_eq_some preferred)).1
    · exact (List.mem_filter.mp (List.mem_of_head? first)).1

inductive Place (layout : Layout) (moduleName : Text) (relative : Path) : Resolution → Prop
  | registered {declared base} (found : layout.module? moduleName = some declared)
      (member : base ∈ declared.contentRoots) :
      Place layout moduleName relative ⟨base.join relative, .moduleRegistry⟩
  | atRoot : Place layout moduleName relative ⟨layout.root.join relative, .rootRelative⟩
  | inModule {base strategy} (isBase : base ∈ layout.bases)
      (enters : strategy.entersModule = true) :
      Place layout moduleName relative ⟨(base.join (.ofText moduleName)).join relative, strategy⟩
  | moduleFirst {base directory} (isBase : base ∈ layout.bases)
      (isKnown : directory ∈ conventionalDirectories) :
      Place layout moduleName relative
        ⟨((base.join (.ofText moduleName)).join (.ofText directory.toList)).join relative,
          .conventionalDirectory⟩
  | directoryFirst {base directory} (isBase : base ∈ layout.bases)
      (isKnown : directory ∈ conventionalDirectories) :
      Place layout moduleName relative
        ⟨((base.join (.ofText directory.toList)).join (.ofText moduleName)).join relative,
          .conventionalDirectory⟩

theorem place_of_mem_candidates {layout : Layout} {moduleName : Text} {relative : Path}
    {candidate : Resolution} (member : candidate ∈ candidates layout moduleName relative) :
    Place layout moduleName relative candidate := by
  unfold candidates at member
  simp only [List.mem_append, List.mem_cons, List.mem_map, List.mem_flatMap] at member
  rcases member with ((⟨base, inRoots, rfl⟩ | rfl | rfl | ⟨base, isSibling, rfl⟩) | conventional)
  · cases found : layout.module? moduleName with
    | none => rw [found] at inRoots; cases inRoots
    | some declared =>
        rw [found] at inRoots
        exact .registered found inRoots
  · exact .inModule List.mem_cons_self rfl
  · exact .atRoot
  · exact .inModule (List.mem_cons_of_mem _ isSibling) rfl
  · obtain ⟨_, ⟨directory, isKnown, rfl⟩, base, inBases, place, inPlaces, rfl⟩ := conventional
    have isBase : base ∈ layout.bases := List.mem_cons.mpr inBases
    unfold conventionalPlaces at inPlaces
    simp only [List.mem_cons, List.not_mem_nil, or_false] at inPlaces
    rcases inPlaces with rfl | rfl
    · exact .moduleFirst isBase isKnown
    · exact .directoryFirst isBase isKnown

theorem place_of_mem_candidatesOf {layout : Layout} {moduleName relativePath : Text}
    {candidate : Resolution} (member : candidate ∈ candidatesOf layout moduleName relativePath) :
    ∃ relative, (∃ names, relative.GoesDown names) ∧
      Place layout moduleName relative candidate := by
  unfold candidatesOf at member
  split at member
  · split at member
    · next relative isPlain =>
      split at member
      · cases member
      · rw [List.mem_singleton.mp member]
        exact ⟨relative, Path.goesDown_of_plain? isPlain, .atRoot⟩
    · cases member
  · split at member
    · next relative isPlain =>
      exact ⟨relative, Path.goesDown_of_plain? isPlain, place_of_mem_candidates member⟩
    · cases member

end Resolution

namespace Layout

open Resolution

variable {disk : Disk} {layout : Layout} {moduleName relativePath : Text} {resolution : Resolution}
  {pointer : Pointer} {target : Path}

theorem mem_candidatesOf_or_mem_files
    (found : layout.resolve? disk moduleName relativePath = some resolution) :
    (resolution ∈ candidatesOf layout moduleName relativePath ∧
        disk.isFile resolution.path = true) ∨
      (resolution.strategy = .fileName ∧ resolution.path ∈ layout.files disk) := by
  rw [resolve?_eq] at found
  rcases Option.or_eq_some_iff.mp found with candidate | ⟨_, searched⟩
  · have isFile := List.find?_some candidate
    exact .inl ⟨List.mem_of_find?_eq_some candidate, isFile⟩
  · obtain ⟨file, isFound, rfl⟩ := Option.map_eq_some_iff.mp searched
    obtain ⟨text, _, isFound⟩ := Option.bind_eq_some_iff.mp isFound
    exact .inr ⟨rfl, mem_files_of_byFileName? isFound⟩

theorem isFile_of_resolve?
    (found : layout.resolve? disk moduleName relativePath = some resolution) :
    disk.isFile resolution.path = true := by
  rcases mem_candidatesOf_or_mem_files found with ⟨_, isFile⟩ | ⟨_, inFiles⟩
  · exact isFile
  · obtain ⟨_, _, _, _, isFile⟩ := Disk.mem_walk_iff.mp inFiles
    exact isFile

theorem isFile_of_target? (found : layout.target? disk pointer = some target) :
    disk.isFile target = true := by
  obtain ⟨resolution, isFound, rfl⟩ := Option.map_eq_some_iff.mp found
  exact isFile_of_resolve? isFound

end Layout

end CodePointers
