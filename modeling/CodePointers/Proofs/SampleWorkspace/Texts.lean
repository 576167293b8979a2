import CodePointers.Proofs.Pointer.Embedding
import CodePointers.SampleWorkspace
import Mathlib.Algebra.BigOperators.Group.List.Basic
import Mathlib.Algebra.Ring.Nat

/-!
The pointers in the texts of a sample workspace: those that were written into them, in their order,
and no others.
-/

namespace CodePointers

/-! The pointers in a text that is put together. -/

namespace Occurrence

def textsIn (text : Text) : List Text := (findAll text).map (·.text)

theorem map_text_shift (bytes lines : Nat) (found : List Occurrence) :
    (found.map (shift bytes lines)).map (·.text) = found.map (·.text) := by
  rw [List.map_map]
  rfl

theorem textsIn_append (before : Text) {after : Text} (apart : StandsApart after) :
    textsIn (before ++ after) = textsIn before ++ textsIn after := by
  rw [textsIn, findAll_append before apart, List.map_append, map_text_shift]
  rfl

theorem textsIn_append_newline (line rest : Text) :
    textsIn (line ++ '\n' :: rest) = textsIn line ++ textsIn rest := by
  rw [textsIn, findAll_append_newline, List.map_append, map_text_shift]
  rfl

theorem textsIn_newline (rest : Text) : textsIn ('\n' :: rest) = textsIn rest :=
  textsIn_append_newline [] rest

theorem textsIn_of_no_slash {text : Text} (noSlash : '/' ∉ text) : textsIn text = [] := by
  refine List.map_eq_nil_iff.mpr (List.eq_nil_iff_forall_not_mem.mpr fun found member => noSlash ?_)
  obtain ⟨before, after, between⟩ := between_of_mem_findAll member
  obtain ⟨shape, isText⟩ := isPointerText_of_mem_findAll member
  have slash : '/' ∈ found.text := by
    rw [← isText, PointerShape.text]
    split <;> simp [PointerShape.body, PointerShape.location]
  rw [between.text_eq]
  exact List.mem_append_right _ (List.mem_append_left _ slash)

theorem textsIn_render {moduleName relativePath : Text} (isModule : IsRun isModuleChar moduleName)
    (isPath : IsRun isPathChar relativePath) (first last : Nat) {after : Text}
    (ends : ∀ char rest, after = char :: rest → char.isDigit = false ∧ char ≠ '-') :
    textsIn (Pointer.render moduleName relativePath first last ++ after) =
      Pointer.render moduleName relativePath first last :: textsIn after := by
  have isText := text_writtenShape isModule isPath first last
  have endsBefore : EndsBefore (.ofLines first last) after :=
    endsBefore_ofLines (fun char rest isAfter => (ends char rest isAfter).1)
      fun _ char rest isAfter => absurd rfl (ends '-' _ isAfter).2
  have isLength := @length?_of_endsBefore (writtenShape isModule isPath first last) after endsBefore
  have isPointer : IsPointerText (writtenShape isModule isPath first last).text := ⟨_, rfl⟩
  rw [← isText]
  have behind := tokenises_scanFrom
    (0 + byteLength (writtenShape isModule isPath first last).text) (1 + 0) after
  have whole := (tokenises_scanFrom 0 1 _).unique (behind.cons isPointer isLength)
  rw [textsIn, findAll, whole, scanFrom_add, List.map_cons, map_text_shift]
  rfl

theorem standsApart_render (moduleName relativePath : Text) (first last : Nat) (after : Text) :
    StandsApart (Pointer.render moduleName relativePath first last ++ after) := by
  intro char isHead
  cases isHead
  rfl

/-- If each piece of a text holds its own pointers whatever follows it, then so do all of them. -/
theorem textsIn_flatMap {α : Type} {piece : α → Text} {pointers : α → List Text}
    (reads : ∀ item rest, textsIn (piece item ++ rest) = pointers item ++ textsIn rest)
    (items : List α) (rest : Text) :
    textsIn (items.flatMap piece ++ rest) = items.flatMap pointers ++ textsIn rest := by
  induction items with
  | nil => rfl
  | cons item items ih =>
      rw [List.flatMap_cons, List.append_assoc, reads, ih, List.flatMap_cons, List.append_assoc]

end Occurrence

open Occurrence

/-! The names of modules and files. -/

theorem IsRun.around {isKind : Char → Bool} {run : Text} (isRun : IsRun isKind run)
    (before after : Text) (isBefore : before.all isKind = true)
    (isAfter : after.all isKind = true) :
    IsRun isKind (before ++ run ++ after) where
  nonempty := List.append_ne_nil_of_left_ne_nil
    (List.append_ne_nil_of_right_ne_nil before isRun.nonempty) after
  all := by
    rw [List.forall_mem_append, List.forall_mem_append]
    exact ⟨⟨List.all_eq_true.mp isBefore, isRun.all⟩, List.all_eq_true.mp isAfter⟩

theorem isRun_isModuleChar_decimal (number : Nat) : IsRun isModuleChar (decimal number) where
  nonempty := (isRun_decimal number).nonempty
  all char member := by
    simp [isModuleChar, Char.isAlphanum, (isRun_decimal number).all char member]

theorem isRun_isPathChar_decimal (number : Nat) : IsRun isPathChar (decimal number) where
  nonempty := (isRun_decimal number).nonempty
  all char member := by
    rw [isPathChar, (isRun_isModuleChar_decimal number).all char member]
    rfl

namespace SampleSize

theorem isRun_moduleName (number : Nat) : IsRun isModuleChar (moduleName number) := by
  have isRun := (isRun_isModuleChar_decimal number).around "mod_".toList [] (by decide) rfl
  rwa [List.append_nil] at isRun

theorem isRun_sourceName (number : Nat) : IsRun isPathChar (sourceName number) :=
  (isRun_isPathChar_decimal number).around _ _ (by decide) (by decide)

/-! The texts. -/

variable (size : SampleSize)

theorem textsIn_pointerText (ordinal position : Nat) {after : Text}
    (ends : ∀ char rest, after = char :: rest → char.isDigit = false ∧ char ≠ '-') :
    textsIn (size.pointerText ordinal position ++ after) =
      size.pointerText ordinal position :: textsIn after :=
  textsIn_render (isRun_moduleName _) (isRun_sourceName _) _ _ ends

theorem standsApart_pointerText (ordinal position : Nat) (after : Text) :
    StandsApart (size.pointerText ordinal position ++ after) :=
  standsApart_render _ _ _ _ after

theorem textsIn_pointerLine (ordinal position : Nat) (rest : Text) :
    textsIn (size.pointerLine ordinal position ++ rest) =
      [size.pointerText ordinal position] ++ textsIn rest := by
  have noPointer : textsIn "// see ".toList = [] := by decide +kernel
  unfold pointerLine
  rw [List.append_assoc, List.append_assoc,
    textsIn_append _ (size.standsApart_pointerText ordinal position _), noPointer,
    textsIn_pointerText]
  · exact congrArg (List.cons _) (textsIn_newline rest)
  · intro char others isAfter
    cases isAfter
    exact ⟨rfl, by decide⟩

theorem not_slash_mem_decimal (number : Nat) : '/' ∉ decimal number := fun member => by
  cases (isRun_decimal number).all '/' member

theorem textsIn_codeLine (ordinal line : Nat) (rest : Text) :
    textsIn (codeLine ordinal line ++ rest) = [] ++ textsIn rest := by
  have isLine : codeLine ordinal line ++ rest =
      ("fn item_".toList ++ decimal ordinal ++ '_' :: decimal line ++ "() -> usize \x7b ".toList ++
        decimal line ++ " \x7d".toList) ++ '\n' :: rest := by
    unfold codeLine
    have lineEnd : " \x7d\n".toList = " \x7d".toList ++ ['\n'] := by decide
    rw [lineEnd, ← List.append_assoc, List.append_assoc _ ['\n'] rest]
    rfl
  rw [isLine, textsIn_append_newline, textsIn_of_no_slash]
  simp only [List.mem_append, List.mem_cons, not_slash_mem_decimal, or_false]
  decide

theorem textsIn_noteStep (note position : Nat) (rest : Text) :
    textsIn (size.noteStep note position ++ rest) =
      [size.pointerText note position] ++ textsIn rest := by
  have noPointer : textsIn ("Step ".toList ++ decimal (position + 1) ++
      " is implemented in ".toList) = [] := by
    refine textsIn_of_no_slash ?_
    simp only [List.mem_append, not_slash_mem_decimal, or_false]
    decide
  have behind : textsIn (".\n\n".toList ++ rest) = textsIn rest := by
    have isEnd : ".\n\n".toList ++ rest = ['.'] ++ '\n' :: '\n' :: rest := rfl
    rw [isEnd, textsIn_append_newline, textsIn_newline, textsIn_of_no_slash (by decide)]
    rfl
  unfold noteStep
  rw [List.append_assoc, List.append_assoc,
    textsIn_append _ (size.standsApart_pointerText note position _), noPointer,
    textsIn_pointerText, behind]
  · rfl
  · intro char others isAfter
    cases isAfter
    exact ⟨rfl, by decide⟩

def pointers (ordinal : Nat) : List Text :=
  (List.range size.pointersPerFile).map (size.pointerText ordinal)

theorem textsIn_sourceText (ordinal : Nat) :
    textsIn (size.sourceText ordinal) = size.pointers ordinal := by
  have noCode := textsIn_flatMap (textsIn_codeLine ordinal)
    ((List.range size.linesPerFile).drop size.pointersPerFile) []
  have noPointers (lines : List Nat) : (lines.flatMap fun _ => ([] : List Text)) = [] :=
    List.flatMap_eq_nil_iff.mpr fun _ _ => rfl
  rw [List.append_nil, noPointers] at noCode
  rw [sourceText, textsIn_flatMap (size.textsIn_pointerLine ordinal), noCode, ← List.map_eq_flatMap]
  exact List.append_nil _

theorem textsIn_noteText (note : Nat) : textsIn (size.noteText note) = size.pointers note := by
  have steps := textsIn_flatMap (size.textsIn_noteStep note) (List.range size.pointersPerFile) []
  rw [List.append_nil, ← List.map_eq_flatMap] at steps
  have isText : size.noteText note = ("# Design note ".toList ++ decimal note) ++ '\n' :: '\n' ::
      (List.range size.pointersPerFile).flatMap (size.noteStep note) := by
    unfold noteText
    rw [List.append_assoc]
    rfl
  rw [isText, textsIn_append_newline, textsIn_newline, steps, textsIn_of_no_slash]
  · exact List.append_nil _
  · simp only [List.mem_append, not_slash_mem_decimal, or_false]
    decide

theorem source_or_note_of_mem_files {file : Text × Text} (member : file ∈ size.files) :
    (∃ moduleNumber number ordinal,
        file = (sourcePath moduleNumber number, size.sourceText ordinal)) ∨
      ∃ note, file = (notePath note, size.noteText note) := by
  unfold files at member
  split at member
  · cases member
  · rcases List.mem_append.mp member with inSources | inNotes
    · obtain ⟨moduleNumber, _, inModule⟩ := List.mem_flatMap.mp inSources
      obtain ⟨number, _, rfl⟩ := List.mem_map.mp inModule
      exact .inl ⟨moduleNumber, number, _, rfl⟩
    · obtain ⟨note, _, rfl⟩ := List.mem_map.mp inNotes
      exact .inr ⟨note, rfl⟩

theorem exists_pointers_of_mem_files {file : Text × Text} (member : file ∈ size.files) :
    ∃ ordinal, textsIn file.2 = size.pointers ordinal := by
  rcases size.source_or_note_of_mem_files member with ⟨_, _, ordinal, rfl⟩ | ⟨note, rfl⟩
  · exact ⟨ordinal, size.textsIn_sourceText ordinal⟩
  · exact ⟨note, size.textsIn_noteText note⟩

theorem length_files (notVoid : size.isVoid = false) :
    size.files.length = size.moduleCount * size.filesPerModule + size.noteCount := by
  rw [files, notVoid, if_neg Bool.false_ne_true, List.length_append, sources, notes,
    List.length_flatMap, List.length_map, List.length_range]
  simp only [List.length_map, List.length_range, List.map_const', List.sum_replicate_nat]

theorem sum_findAll :
    (size.files.map fun file => (findAll file.2).length).sum = size.pointerCount := by
  have each : ∀ file ∈ size.files, (findAll file.2).length = size.pointersPerFile := by
    intro file member
    obtain ⟨ordinal, isText⟩ := size.exists_pointers_of_mem_files member
    have sameLength := congrArg List.length isText
    rw [pointers, List.length_map, List.length_range, textsIn, List.length_map] at sameLength
    exact sameLength
  rw [List.map_congr_left each, List.map_const', List.sum_replicate_nat, pointerCount]
  cases isVoid : size.isVoid with
  | true => rw [files, isVoid, if_pos rfl, if_pos rfl, List.length_nil, Nat.zero_mul]
  | false => rw [size.length_files isVoid, if_neg Bool.false_ne_true]

/-! Reading the pointers. -/

def pointedLines (position : Nat) : LineRange where
  first := position * 7 % max size.linesPerFile 1 + 1
  last := min (position * 7 % max size.linesPerFile 1 + 1 + 3) (max size.linesPerFile 1)
  one_le_first := Nat.le_add_left 1 _
  first_le_last := by
    have := Nat.mod_lt (position * 7) (show 0 < max size.linesPerFile 1 by omega)
    omega

theorem last_pointedLines_le (position : Nat) :
    (size.pointedLines position).last ≤ max size.linesPerFile 1 := Nat.min_le_right ..

theorem parse_pointerText (fits : size.linesPerFile ≤ maxLine) (ordinal position : Nat) :
    Pointer.parse (size.pointerText ordinal position) = .ok
      { moduleName := moduleName ((ordinal + position + 1) % size.moduleCount)
        relativePath := sourceName ((ordinal + position) % size.filesPerModule)
        lines := size.pointedLines position } := by
  have last := size.last_pointedLines_le position
  have ascends := (size.pointedLines position).first_le_last
  have atLeastOne : 1 ≤ maxLine := by decide
  have lastFits : (size.pointedLines position).last ≤ maxLine := by omega
  refine Pointer.parse_render ?_ (Nat.le_trans ascends lastFits) lastFits
  intro slash
  cases (isRun_moduleName _).all '/' slash

end SampleSize

end CodePointers
