import CodePointers.Proofs.Disk.Changes
import CodePointers.Proofs.Resolution.Preference
import CodePointers.Proofs.Resolution.StraightLayouts

/-!
Resolution on two disks of which one has all the files of the other. Without `..` segments it does
not matter which folders there are besides, and only a file that is new can change an answer.
-/

namespace CodePointers

/-! Files that are there and more. -/

namespace Disk

def HasFilesOf (more fewer : Disk) : Prop :=
  ∀ names, (fewer.fileAt? names).isSome → (more.fileAt? names).isSome

theorem hasFilesOf_remove (disk : Disk) {path : Path} {names : List Text}
    (spells : path.Spells names) (areNames : names.all isEntryName = true) (below : names ≠ []) :
    disk.HasFilesOf (disk.remove path) := by
  intro other isFile
  by_cases inside : names <+: other
  · rw [emptyAt_remove spells areNames below other inside] at isFile
    cases isFile
  · rwa [sameOutside_remove spells areNames other inside] at isFile

theorem hasFilesOf_makeFolder (disk : Disk) {path : Path} {names : List Text}
    (spells : path.Spells names) (areNames : names.all isEntryName = true) (below : names ≠ [])
    (parent : disk.root.HasParent names) : disk.HasFilesOf (disk.makeFolder path) := by
  have ordered : Folder.NodeOrdered (.folder .empty) := trivial
  have isMade : disk.makeFolder path = disk ∨
      disk.makeFolder path = disk.putNode names (.folder .empty) ordered := by
    rw [makeFolder, spells.namesOf_eq]
    split
    · exact .inl rfl
    · exact .inr rfl
  intro other isFile
  rcases isMade with isMade | isMade <;> rw [isMade] at isFile
  · exact isFile
  · by_cases inside : names <+: other
    · obtain ⟨inner, rfl⟩ := inside
      rw [fileAt?, at?_append, at?_putNode areNames ordered below] at isFile
      cases inner <;> cases isFile
    · rwa [sameOutside_putNode areNames ordered parent other inside] at isFile

end Disk

namespace Layout

variable {fewer more : Disk} {layout : Layout} {moduleName relativePath : Text}
  {resolution : Resolution}

/-- What resolution on a disk with more files owes to resolution on the disk with fewer. -/
structure LosesOnlyToNew (layout : Layout) (fewer more : Disk) (moduleName relativePath : Text) :
    Prop where
  same_or_new : layout.resolve? more moduleName relativePath =
      layout.resolve? fewer moduleName relativePath ∨
    ∃ found names, layout.resolve? more moduleName relativePath = some found ∧
      found.path.Denotes names ∧ (more.fileAt? names).isSome ∧ fewer.fileAt? names = none
  same_of_kept : ∀ found, layout.resolve? more moduleName relativePath = some found →
    fewer.isFile found.path = true → layout.resolve? fewer moduleName relativePath = some found
  none_of_none : layout.resolve? more moduleName relativePath = none →
    layout.resolve? fewer moduleName relativePath = none
  found_of_found : ∀ own, layout.resolve? fewer moduleName relativePath = some own →
    ∃ found, layout.resolve? more moduleName relativePath = some found ∧
      (found = own ∨ fewer.isFile found.path = false)

section

variable (straight : layout.Straight)
  (straightModule : Part.parent ∉ (Path.ofText moduleName).parts)
  (moreFiles : more.HasFilesOf fewer)
include straight straightModule moreFiles

theorem Straight.isFile_of_more
    (found : layout.resolve? fewer moduleName relativePath = some resolution) :
    more.isFile resolution.path = true := by
  obtain ⟨names, denotes⟩ := straight.denotes_of_resolve? straightModule found
  rw [denotes.isFile_iff]
  exact moreFiles names (denotes.isFile_iff.mp (isFile_of_resolve? found))

theorem Straight.found_of_found
    (found : layout.resolve? fewer moduleName relativePath = some resolution) :
    ∃ other, layout.resolve? more moduleName relativePath = some other ∧
      (other = resolution ∨ fewer.isFile other.path = false) :=
  resolve?_of_stays found (straight.isFile_of_more straightModule moreFiles found)

theorem Straight.none_of_none (missing : layout.resolve? more moduleName relativePath = none) :
    layout.resolve? fewer moduleName relativePath = none := by
  refine Option.eq_none_iff_forall_ne_some.mpr fun own isOwn => ?_
  obtain ⟨found, isFound, _⟩ := straight.found_of_found straightModule moreFiles isOwn
  rw [isFound] at missing
  cases missing

theorem Straight.same_of_kept
    (found : layout.resolve? more moduleName relativePath = some resolution)
    (isKept : fewer.isFile resolution.path = true) :
    layout.resolve? fewer moduleName relativePath = some resolution := by
  obtain ⟨other, isOther, same | isNew⟩ := resolve?_of_stays found isKept
  · rw [isOther, same]
  · rw [straight.isFile_of_more straightModule moreFiles isOther] at isNew
    cases isNew

theorem Straight.same_or_new : layout.resolve? more moduleName relativePath =
      layout.resolve? fewer moduleName relativePath ∨
    ∃ found names, layout.resolve? more moduleName relativePath = some found ∧
      found.path.Denotes names ∧ (more.fileAt? names).isSome ∧ fewer.fileAt? names = none := by
  cases isFound : layout.resolve? more moduleName relativePath with
  | none => exact .inl (straight.none_of_none straightModule moreFiles isFound).symm
  | some found =>
      cases isKept : fewer.isFile found.path with
      | true => exact .inl (straight.same_of_kept straightModule moreFiles isFound isKept).symm
      | false =>
          obtain ⟨names, denotes⟩ := straight.denotes_of_resolve? straightModule isFound
          have isFile := denotes.isFile_iff.mp (isFile_of_resolve? isFound)
          rw [← Bool.not_eq_true, denotes.isFile_iff, Option.not_isSome_iff_eq_none] at isKept
          exact .inr ⟨found, names, rfl, denotes, isFile, isKept⟩

/-- With all the old files in place, only a new one can change an answer. -/
theorem loses_only_to_new : layout.LosesOnlyToNew fewer more moduleName relativePath where
  same_or_new := straight.same_or_new straightModule moreFiles
  same_of_kept _ := straight.same_of_kept straightModule moreFiles
  none_of_none := straight.none_of_none straightModule moreFiles
  found_of_found _ := straight.found_of_found straightModule moreFiles

end

theorem loses_only_to_new_of_removed_file :
    let layout : Layout := ⟨.ofText "/ws".toList, [⟨"m".toList, [.ofText "/lib".toList]⟩]⟩
    let target := Path.ofText "/lib/x.rs".toList
    let more := (Disk.empty.write (.ofText "/ws/x.rs".toList) ⟨.text [], 0⟩).write target
      ⟨.text [], 0⟩
    let fewer := more.remove target
    layout.Straight ∧ Part.parent ∉ (Path.ofText "m".toList).parts ∧ more.HasFilesOf fewer ∧
      layout.resolve? more "m".toList "x.rs".toList = some ⟨target, .moduleRegistry⟩ ∧
      layout.resolve? fewer "m".toList "x.rs".toList =
        some ⟨.ofText "/ws/x.rs".toList, .rootRelative⟩ ∧
      layout.LosesOnlyToNew fewer more "m".toList "x.rs".toList := by
  intro layout target more fewer
  have straight : layout.Straight := by
    refine ⟨by decide, fun declared isDeclared base isRoot => ?_⟩
    obtain rfl := List.mem_singleton.mp isDeclared
    obtain rfl := List.mem_singleton.mp isRoot
    decide
  have straightModule : Part.parent ∉ (Path.ofText "m".toList).parts := by decide
  have spells : target.Spells ["lib".toList, "x.rs".toList] := rfl
  have moreFiles : more.HasFilesOf fewer :=
    more.hasFilesOf_remove spells (by decide) (List.cons_ne_nil _ _)
  exact ⟨straight, straightModule, moreFiles, by rfl, by rfl,
    loses_only_to_new straight straightModule moreFiles⟩

/-- Behind a `..` segment of the root, which is only kept when there was no such folder at first, an
empty folder makes the difference. -/
theorem not_loses_only_to_new_under_climbing_root :
    let layout := Layout.ofDisk Disk.empty (.ofText "/x/../ws".toList)
    let more := Disk.empty.write (.ofText "/ws/a.rs".toList) ⟨.text [], 0⟩
    let fewer := more.makeFolder (.ofText "/x".toList)
    layout.modules = [] ∧ Part.parent ∉ (Path.ofText "m".toList).parts ∧ more.HasFilesOf fewer ∧
      layout.resolve? fewer "m".toList "a.rs".toList =
        some ⟨.ofText "/x/../ws/a.rs".toList, .rootRelative⟩ ∧
      layout.resolve? more "m".toList "a.rs".toList = none ∧
      ¬layout.LosesOnlyToNew fewer more "m".toList "a.rs".toList := by
  intro layout more fewer
  have spells : (Path.ofText "/x".toList).Spells ["x".toList] := rfl
  have moreFiles : more.HasFilesOf fewer :=
    more.hasFilesOf_makeFolder spells (by decide) (List.cons_ne_nil _ _) ⟨more.root, rfl⟩
  have inFewer : layout.resolve? fewer "m".toList "a.rs".toList =
      some ⟨.ofText "/x/../ws/a.rs".toList, .rootRelative⟩ := by rfl
  have inMore : layout.resolve? more "m".toList "a.rs".toList = none := by rfl
  refine ⟨rfl, by decide, moreFiles, inFewer, inMore, fun loses => ?_⟩
  have missing := loses.none_of_none inMore
  rw [inFewer] at missing
  cases missing

/-! The same files. -/

theorem Plain.target?_congr {disk next : Disk} {pointer : Pointer} (plain : layout.Plain)
    (plainModule : pointer.HasPlainModule)
    (same : ∀ names, (next.fileAt? names).isSome = (disk.fileAt? names).isSome) :
    layout.target? next pointer = layout.target? disk pointer := by
  have moreFiles : next.HasFilesOf disk := fun names isFile => by rw [same, isFile]
  rcases plain.straight.same_or_new (not_parent_mem_of_hasPlainModule plainModule) moreFiles with
    isSame | ⟨_, names, _, _, isFile, missing⟩
  · exact congrArg (Option.map Resolution.path) isSame
  · rw [same, missing] at isFile
    cases isFile

end Layout

end CodePointers
