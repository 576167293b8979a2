import CodePointers.Proofs.Pointer.Agreement
import CodePointers.Proofs.Tracker.Coupling

/-!
The pointers that come out of a text: the module of each is written in the characters of a module
name, so that it is one plain segment of a path.
-/

namespace CodePointers

def Pointer.HasPlainModule (pointer : Pointer) : Prop := pointer.moduleName.all isModuleChar = true

theorem Occurrence.hasPlainModule_of_parse {found : Occurrence} {text : Text} {pointer : Pointer}
    (member : found ∈ findAll text) (parsed : Pointer.parse found.text = .ok pointer) :
    pointer.HasPlainModule := by
  obtain ⟨shape, isText⟩ := isPointerText_of_mem_findAll member
  rw [← isText] at parsed
  rw [Pointer.HasPlainModule, (shape.readsAs.parts pointer parsed).1]
  exact List.all_eq_true.mpr shape.isModule.all

theorem Tracker.hasPlainModule_of_mem_extract {disk : Disk} {layout : Layout} {text : Text}
    {tracked : TrackedPointer} (member : tracked ∈ extract disk layout text) :
    tracked.pointer.HasPlainModule := by
  obtain ⟨found, inText, isTracked⟩ := List.mem_filterMap.mp member
  obtain ⟨pointer, parsed, rfl⟩ := track?_eq_some isTracked
  exact Occurrence.hasPlainModule_of_parse inText parsed

end CodePointers
