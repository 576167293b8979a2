import CodePointers.Proofs.ReferenceIndex.Table

/-!
The spellings of the targets in an index: a target comes in by a reference to it, and removals
bring none in.
-/

namespace CodePointers.ReferenceIndex

theorem mem_files_insert {index : ReferenceIndex} {target file : Path} {reference : Reference}
    (member : file ∈ (index.insert target reference).1.files) :
    file = target ∨ file ∈ index.files :=
  OrderedMap.mem_keys_insert member

theorem keys_dropSource_subset (source : Path) (targets : OrderedMap Path RangeMap)
    (target : Path) : (dropSource source targets target).keys ⊆ targets.keys := by
  unfold dropSource
  split
  · exact List.Subset.refl _
  · next ranges found =>
    dsimp only
    split
    · exact targets.keys_erase_subset target
    · rw [OrderedMap.keys_insert_of_get? found]
      exact List.Subset.refl _

theorem keys_foldl_dropSource_subset (source : Path) (pointedAt : List Path)
    (targets : OrderedMap Path RangeMap) :
    (pointedAt.foldl (dropSource source) targets).keys ⊆ targets.keys := by
  induction pointedAt generalizing targets with
  | nil => exact List.Subset.refl _
  | cons target rest ih =>
      exact List.Subset.trans (ih _) (keys_dropSource_subset source targets target)

theorem files_withoutSource_subset (index : ReferenceIndex) (source : Path) :
    (index.withoutSource source).files ⊆ index.files := by
  unfold withoutSource
  split
  · exact List.Subset.refl _
  · exact keys_foldl_dropSource_subset source _ index.targets

theorem files_withoutTarget_subset (index : ReferenceIndex) (target : Path) :
    (index.withoutTarget target).files ⊆ index.files := by
  unfold withoutTarget
  split
  · exact List.Subset.refl _
  · exact index.targets.keys_erase_subset target

theorem files_removeOutbound_subset (index : ReferenceIndex) (source : Path) :
    (index.removeOutbound source).1.files ⊆ index.files :=
  index.files_withoutSource_subset source

theorem files_removeFile_subset (index : ReferenceIndex) (file : Path) :
    (index.removeFile file).files ⊆ index.files :=
  List.Subset.trans ((index.withoutSource file).files_withoutTarget_subset file)
    (index.files_withoutSource_subset file)

end CodePointers.ReferenceIndex
