import CodePointers.Proofs.Pointer.Parsing
import CodePointers.Proofs.Pointer.Tokenisation

/-!
A pointer that a text is scanned for is read as the parts that it was scanned as, and scanning it on
its own finds it again.
-/

namespace CodePointers

namespace PointerShape

theorem withoutMark_text (shape : PointerShape) : Pointer.withoutMark shape.text = shape.body := by
  obtain ⟨char, rest, isBody, unmarked⟩ := shape.exists_body
  rw [text]
  split
  · rfl
  · rw [Pointer.withoutMark]
    rw [isBody]
    rintro body isMarked
    exact unmarked (List.cons.inj isMarked).1

theorem splitLocation_location (shape : PointerShape) :
    Pointer.splitLocation shape.location = (shape.moduleName, shape.relativePath) :=
  Pointer.splitLocation_append (shape.isModule.not_mem rfl) shape.relativePath

theorem marked_iff (shape : PointerShape) : shape.marked ↔ shape.text.head? = some '@' := by
  obtain ⟨char, rest, isBody, unmarked⟩ := shape.exists_body
  rw [text]
  split
  · next isMarked => simp [isMarked]
  · next isMarked => simp [isMarked, isBody, unmarked]

theorem text_injective {left right : PointerShape} (same : left.text = right.text) :
    left = right := by
  have sameMark := left.marked_iff.trans (same ▸ right.marked_iff.symm)
  have sameBody : left.body = right.body := by
    rw [← withoutMark_text, ← withoutMark_text, same]
  obtain ⟨sameLocation, sameSuffix⟩ := Pointer.eq_of_suffixed sameBody
  have sameParts := congrArg Pointer.splitLocation sameLocation
  rw [splitLocation_location, splitLocation_location, Prod.mk.injEq] at sameParts
  obtain ⟨_, _, _, _, _, _⟩ := left
  obtain ⟨_, _, _, _, _, _⟩ := right
  simp_all

end PointerShape

/-- A text is read as a shape's parts: its first slash and its colon cut it, and its numbers are the
bounds of the lines. It fails to be read only for its numbers. -/
structure ReadsAs (text : Text) (shape : PointerShape) : Prop where
  hasSuffix : Pointer.parse text ≠ .error .missingSuffix
  fails_iff : (∃ error, Pointer.parse text = .error error) ↔
    maxLine < shape.suffix.first ∨ maxLine < shape.suffix.last ∨ shape.suffix.first = 0 ∨
      shape.suffix.last < shape.suffix.first
  parts : ∀ pointer, Pointer.parse text = .ok pointer →
    pointer.moduleName = shape.moduleName ∧ pointer.relativePath = shape.relativePath ∧
      pointer.lines.first = shape.suffix.first ∧ pointer.lines.last = shape.suffix.last

theorem PointerShape.readsAs (shape : PointerShape) : ReadsAs shape.text shape where
  hasSuffix := Pointer.parse_ne_missingSuffix shape.withoutMark_text
  fails_iff := Pointer.exists_error_iff shape.withoutMark_text
  parts pointer parsed := by
    obtain ⟨_, isSplit, isLines⟩ := (Pointer.parse_eq_ok_iff shape.withoutMark_text).mp parsed
    rw [splitLocation_location, Prod.mk.injEq] at isSplit
    exact ⟨isSplit.1.symm, isSplit.2.symm, isLines⟩

namespace Occurrence

theorem findAll_of_isPointerText {text : Text} (isPointer : IsPointerText text) :
    findAll text = [⟨text, 0, byteLength text, 1⟩] := by
  have between : Between ⟨text, 0, byteLength text, 1⟩ 0 1 [] [] text :=
    ⟨(List.append_nil text).symm, rfl, (Nat.zero_add _).symm, rfl, isPointer.ne_nil⟩
  refine (tokenises_scanFrom 0 1 text).unique
    (.next between isPointer ?_ ?_ (tokenises_nil _ _))
  · intro passed rest isNil nonempty
    exact absurd (List.nil_eq_append_iff.mp isNil).2 nonempty
  · intro part isPrefix _
    exact (List.append_nil text ▸ isPrefix).length_le

/-- Scanning and reading agree: the text of every occurrence has one shape only, is read as that
shape's parts, and is scanned as one occurrence when it stands alone. -/
theorem readsAs_of_mem_findAll {found : Occurrence} {text : Text} (member : found ∈ findAll text) :
    ∃ shape : PointerShape, (∀ other : PointerShape, other.text = found.text ↔ other = shape) ∧
      ReadsAs found.text shape ∧
      findAll found.text = [⟨found.text, 0, byteLength found.text, 1⟩] := by
  have alone := findAll_of_isPointerText (isPointerText_of_mem_findAll member)
  obtain ⟨shape, isText⟩ := isPointerText_of_mem_findAll member
  refine ⟨shape, fun other => ⟨fun same => ?_, ?_⟩, isText ▸ shape.readsAs, alone⟩
  · exact PointerShape.text_injective (same.trans isText.symm)
  · rintro rfl
    exact isText

theorem readsAs_of_marked_range :
    let found : Occurrence := ⟨"@m/x.rs:L1-2".toList, 4, 16, 1⟩
    found ∈ findAll "see @m/x.rs:L1-2".toList ∧
      ∃ shape : PointerShape, (∀ other : PointerShape, other.text = found.text ↔ other = shape) ∧
        ReadsAs found.text shape ∧ findAll found.text = [⟨found.text, 0, 12, 1⟩] := by
  intro found
  have member : found ∈ findAll "see @m/x.rs:L1-2".toList := by decide +kernel
  exact ⟨member, readsAs_of_mem_findAll member⟩

end Occurrence

end CodePointers
