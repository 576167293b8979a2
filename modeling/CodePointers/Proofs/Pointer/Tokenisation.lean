import CodePointers.Proofs.Occurrences
import CodePointers.Proofs.Pointer.Grammar

/-!
Scanning a text is cutting it up: from each place on, the next pointer is the one that begins first,
and of those that begin there the longest.
-/

namespace CodePointers

theorem IsPointerText.ne_nil {text : Text} (isPointer : IsPointerText text) : text ≠ [] := by
  obtain ⟨shape, rfl⟩ := isPointer
  rw [PointerShape.text]
  split <;> simp [PointerShape.body]

namespace Occurrence

/-- A list of occurrences that cuts up a text from an offset and a line on. -/
inductive Tokenises : Nat → Nat → Text → List Occurrence → Prop
  | stop {offset line text} (none : ∀ before after, text = before ++ after → ¬BeginsPointer after) :
      Tokenises offset line text []
  | next {offset line text found before after later}
      (between : found.Between offset line before after text)
      (isPointer : IsPointerText found.text)
      (leftmost : ∀ passed rest, before = passed ++ rest → rest ≠ [] →
        ¬BeginsPointer (rest ++ (found.text ++ after)))
      (longest : ∀ part, part <+: found.text ++ after → IsPointerText part →
        part.length ≤ found.text.length)
      (tokenises : Tokenises found.stop (found.line + found.text.count '\n') after later) :
      Tokenises offset line text (found :: later)

theorem behind_or_before {left rest left' rest' : Text} (same : left ++ rest = left' ++ rest') :
    (∃ gap, left' = left ++ gap ∧ rest = gap ++ rest') ∨
      ∃ inner, inner ≠ [] ∧ left = left' ++ inner ∧ rest' = inner ++ rest := by
  rcases List.append_eq_append_iff.mp same with behind | ⟨inner, isLeft, isRest⟩
  · exact .inl behind
  · by_cases empty : inner = []
    · subst empty
      exact .inl ⟨[], by simp [isLeft], isRest.symm⟩
    · exact .inr ⟨inner, empty, isLeft, isRest⟩

/-! Characters that are passed over. -/

theorem scanFrom_append (before after : Text) (offset line : Nat) :
    scanFrom before.length offset line (before ++ after) =
      scanFrom 0 (offset + byteLength before) (line + before.count '\n') after := by
  induction before generalizing offset line with
  | nil => rfl
  | cons char rest ih =>
      rw [List.length_cons, List.cons_append, scanFrom, ih, byteLength_cons, ← Nat.add_assoc,
        lineAfter_add_count]

theorem Between.appendLeft {found : Occurrence} {offset line : Nat} {before after text : Text}
    (skipped : Text) (between : found.Between (offset + byteLength skipped)
      (line + skipped.count '\n') before after text) :
    found.Between offset line (skipped ++ before) after (skipped ++ text) where
  text_eq := by rw [between.text_eq, List.append_assoc]
  start_eq := by rw [between.start_eq, byteLength_append, Nat.add_assoc]
  stop_eq := between.stop_eq
  line_eq := by rw [between.line_eq, List.count_append, Nat.add_assoc]
  nonempty := between.nonempty

theorem Tokenises.passOver {offset line : Nat} {skipped text : Text} {occurrences : List Occurrence}
    (tokenises :
      Tokenises (offset + byteLength skipped) (line + skipped.count '\n') text occurrences)
    (none : ∀ passed rest, skipped = passed ++ rest → rest ≠ [] → ¬BeginsPointer (rest ++ text)) :
    Tokenises offset line (skipped ++ text) occurrences := by
  cases tokenises with
  | stop noneLater =>
      refine .stop fun before after isSplit => ?_
      rcases behind_or_before isSplit with ⟨gap, _, isText⟩ | ⟨inner, nonempty, isSkipped, isAfter⟩
      · exact noneLater gap after isText
      · exact isAfter ▸ none before inner isSkipped nonempty
  | next between isPointer leftmost longest tokenises =>
      refine .next (between.appendLeft skipped) isPointer ?_ longest tokenises
      intro passed rest isSplit nonempty
      rcases behind_or_before isSplit with ⟨gap, _, isBefore⟩ | ⟨inner, some, isSkipped, isRest⟩
      · exact leftmost gap rest isBefore nonempty
      · rw [isRest, List.append_assoc, ← between.text_eq]
        exact none passed inner isSkipped some

/-- A pointer that begins inside a module name would begin with all of the name as well. -/
theorem not_beginsPointer_inside (passed : Text) {rest after : Text}
    (isModule : ∀ char ∈ passed ++ rest, isModuleChar char = true)
    (ends : after.takeWhile isModuleChar = [])
    (none : ¬BeginsPointer (passed ++ (rest ++ after))) (nonempty : rest ≠ []) :
    ¬BeginsPointer (rest ++ after) := by
  rintro ⟨_, ⟨more, same⟩, shape, rfl⟩
  have restModule : ∀ char ∈ rest, isModuleChar char = true :=
    fun char member => isModule char (List.mem_append_right _ member)
  have isBody : shape.text = shape.body := by
    rw [PointerShape.text]
    split
    · next marked =>
      obtain ⟨first, tail, rfl⟩ := List.exists_cons_of_ne_nil nonempty
      rw [PointerShape.text, if_pos marked] at same
      have isMark := restModule first List.mem_cons_self
      rw [← (List.cons.inj same).1] at isMark
      cases isMark
    · rfl
  have isName : shape.moduleName = rest := by
    have before := congrArg (List.takeWhile isModuleChar) same
    rw [List.takeWhile_append_of_pos restModule, ends, List.append_nil, isBody, PointerShape.body,
      PointerShape.location, List.append_assoc, List.append_assoc, List.cons_append,
      takeWhile_eq_of_isRun shape.isModule rfl] at before
    exact before
  -- The name can be lengthened to the left by what was passed over of it.
  let whole : PointerShape :=
    { shape with
      marked := false
      moduleName := passed ++ rest
      isModule := ⟨List.append_ne_nil_of_right_ne_nil _ nonempty, isModule⟩ }
  have isWhole : whole.text = passed ++ shape.text := by
    rw [isBody]
    simp [whole, PointerShape.text, PointerShape.body, PointerShape.location, isName]
  refine none ⟨whole.text, ⟨more, ?_⟩, whole, rfl⟩
  rw [isWhole, List.append_assoc, same]

theorem takeWhile_dropWhile_eq_nil (isKind : Char → Bool) (text : Text) :
    (text.dropWhile isKind).takeWhile isKind = [] := by
  have stops := List.head?_dropWhile_not isKind text
  cases isRest : text.dropWhile isKind with
  | nil => rfl
  | cons char rest =>
      rw [isRest] at stops
      exact List.takeWhile_cons_of_neg (Bool.eq_false_iff.mp (by simpa using stops))

/-- Where no pointer begins, none begins in the characters that are passed over either. -/
theorem exists_passedOver {char : Char} {rest : Text} (none : length? (char :: rest) = none) :
    ∃ skipped after, rest = skipped ++ after ∧ skipped.length = passedOver char rest ∧
      ∀ passed inner, char :: skipped = passed ++ inner → inner ≠ [] →
        ¬BeginsPointer (inner ++ after) := by
  have noneHere : ¬BeginsPointer (char :: rest) := by
    rw [beginsPointer_iff, none]
    exact Bool.false_ne_true
  unfold passedOver
  split
  · next isModule =>
    refine ⟨rest.takeWhile isModuleChar, rest.dropWhile isModuleChar,
      List.takeWhile_append_dropWhile.symm, rfl, fun passed inner isSplit nonempty => ?_⟩
    refine not_beginsPointer_inside passed ?_ (takeWhile_dropWhile_eq_nil _ rest) ?_ nonempty
    · rw [← isSplit, List.forall_mem_cons]
      exact ⟨isModule, List.all_eq_true.mp List.all_takeWhile⟩
    · rw [← List.append_assoc, ← isSplit, List.cons_append, List.takeWhile_append_dropWhile]
      exact noneHere
  · refine ⟨[], rest, rfl, rfl, fun passed inner isSplit nonempty => ?_⟩
    rcases List.append_eq_singleton_iff.mp isSplit.symm with ⟨_, rfl⟩ | ⟨_, isNil⟩
    · exact noneHere
    · exact absurd isNil nonempty

theorem not_beginsPointer_nil : ¬BeginsPointer [] := by
  rintro ⟨part, isPrefix, isPointer⟩
  exact isPointer.ne_nil (List.prefix_nil.mp isPrefix)

theorem tokenises_nil (offset line : Nat) : Tokenises offset line [] [] := by
  refine .stop fun before after isSplit => ?_
  rw [(List.nil_eq_append_iff.mp isSplit).2]
  exact not_beginsPointer_nil

theorem scanFrom_cons_append (char : Char) (before after : Text) (offset line : Nat) :
    scanFrom before.length (offset + char.utf8Size) (lineAfter line char) (before ++ after) =
      scanFrom 0 (offset + byteLength (char :: before)) (line + (char :: before).count '\n')
        after := by
  rw [scanFrom_append, byteLength_cons, Nat.add_assoc, lineAfter_add_count]

theorem tokenises_scanFrom (offset line : Nat) (text : Text) :
    Tokenises offset line text (scanFrom 0 offset line text) := by
  -- A whole pointer, or a whole name, is passed over at once: the induction is on the length.
  induction size : text.length using Nat.strongRecOn generalizing text offset line with
  | ind size ih =>
  subst size
  cases text with
  | nil => exact tokenises_nil offset line
  | cons char rest =>
      rw [scanFrom]
      cases found : length? (char :: rest) with
      | some length =>
          obtain ⟨part, after, isText, rfl, isPointer, longest⟩ := exists_longest_of_length? found
          obtain ⟨first, partRest, rfl⟩ := List.exists_cons_of_ne_nil isPointer.ne_nil
          rw [List.cons_append, List.cons.injEq] at isText
          obtain ⟨rfl, rfl⟩ := isText
          have isPart : (char :: (partRest ++ after)).take (char :: partRest).length =
              char :: partRest := by
            rw [← List.cons_append, List.take_left]
          have between : Between ⟨char :: partRest, offset, offset + byteLength (char :: partRest),
              line⟩ offset line [] after (char :: (partRest ++ after)) :=
            ⟨rfl, rfl, rfl, rfl, List.cons_ne_nil _ _⟩
          have shorter : after.length < (char :: (partRest ++ after)).length := by
            simp only [List.length_cons, List.length_append]
            omega
          dsimp only
          rw [isPart, List.length_cons, Nat.add_sub_cancel, scanFrom_cons_append]
          refine .next between isPointer ?_ longest (ih _ shorter _ _ after rfl)
          intro passed later isSplit nonempty
          exact absurd (List.nil_eq_append_iff.mp isSplit).2 nonempty
      | none =>
          obtain ⟨skipped, after, rfl, isLength, none⟩ := exists_passedOver found
          have shorter : after.length < (char :: (skipped ++ after)).length := by
            simp only [List.length_cons, List.length_append]
            omega
          dsimp only
          rw [← isLength, scanFrom_cons_append]
          exact Tokenises.passOver (ih _ shorter _ _ after rfl) none

/-! There is only one cutting up. -/

theorem exists_gap_of_leftmost {before rest before' rest' : Text}
    (same : before ++ rest = before' ++ rest') (begins : BeginsPointer rest')
    (leftmost : ∀ passed inner, before = passed ++ inner → inner ≠ [] →
      ¬BeginsPointer (inner ++ rest)) :
    ∃ gap, before' = before ++ gap ∧ rest = gap ++ rest' := by
  rcases behind_or_before same with behind | ⟨inner, nonempty, isBefore, isRest⟩
  · exact behind
  · exact absurd (isRest ▸ begins) (leftmost before' inner isBefore nonempty)

theorem eq_of_leftmost {before rest before' rest' : Text}
    (same : before ++ rest = before' ++ rest') (begins : BeginsPointer rest)
    (begins' : BeginsPointer rest')
    (leftmost : ∀ passed inner, before = passed ++ inner → inner ≠ [] →
      ¬BeginsPointer (inner ++ rest))
    (leftmost' : ∀ passed inner, before' = passed ++ inner → inner ≠ [] →
      ¬BeginsPointer (inner ++ rest')) :
    before = before' := by
  obtain ⟨gap, isLater, _⟩ := exists_gap_of_leftmost same begins' leftmost
  obtain ⟨gap', isEarlier, _⟩ := exists_gap_of_leftmost same.symm begins leftmost'
  have isPrefix : before <+: before' := ⟨gap, isLater.symm⟩
  have isPrefix' : before' <+: before := ⟨gap', isEarlier.symm⟩
  exact isPrefix.eq_of_length (Nat.le_antisymm isPrefix.length_le isPrefix'.length_le)

theorem beginsPointer_append {part : Text} (isPointer : IsPointerText part) (after : Text) :
    BeginsPointer (part ++ after) :=
  ⟨part, List.prefix_append _ _, isPointer⟩

theorem Between.eq_of_text {found other : Occurrence} {offset line : Nat}
    {before after after' text text' : Text} (between : found.Between offset line before after text)
    (also : other.Between offset line before after' text') (same : found.text = other.text) :
    found = other := by
  have start := between.start_eq.trans also.start_eq.symm
  have stop : found.stop = other.stop := by rw [between.stop_eq, also.stop_eq, start, same]
  have isLine := between.line_eq.trans also.line_eq.symm
  cases found
  cases other
  simp_all

theorem Tokenises.unique {offset line : Nat} {text : Text} {left right : List Occurrence}
    (tokenises : Tokenises offset line text left) (also : Tokenises offset line text right) :
    left = right := by
  induction tokenises generalizing right with
  | stop none =>
      cases also with
      | stop => rfl
      | next between isPointer =>
          exact absurd (beginsPointer_append isPointer _) (none _ _ between.text_eq)
  | next between isPointer leftmost longest tokenises ih =>
      cases also with
      | stop none => exact absurd (beginsPointer_append isPointer _) (none _ _ between.text_eq)
      | next between' isPointer' leftmost' longest' tokenises' =>
          have same := between.text_eq.symm.trans between'.text_eq
          obtain rfl := eq_of_leftmost same (beginsPointer_append isPointer _)
            (beginsPointer_append isPointer' _) leftmost leftmost'
          rw [List.append_cancel_left_eq] at same
          have noLonger := longest' _ ⟨_, same⟩ isPointer
          have noShorter := longest _ ⟨_, same.symm⟩ isPointer'
          obtain ⟨sameText, rfl⟩ := List.append_inj same (Nat.le_antisymm noLonger noShorter)
          have sameFound := between.eq_of_text between' sameText
          subst sameFound
          rw [ih tokenises']

/-! What is found, and what lies between. -/

theorem Tokenises.isPointerText {offset line : Nat} {text : Text} {occurrences : List Occurrence}
    (tokenises : Tokenises offset line text occurrences) :
    ∀ found ∈ occurrences, IsPointerText found.text := by
  induction tokenises with
  | stop none => simp
  | next between isPointer leftmost longest tokenises ih =>
      exact List.forall_mem_cons.mpr ⟨isPointer, ih⟩

theorem isPointerText_of_mem_findAll {found : Occurrence} {text : Text}
    (member : found ∈ findAll text) : IsPointerText found.text :=
  (tokenises_scanFrom 0 1 text).isPointerText found member

theorem Tokenises.exists_overlap {offset line : Nat} {text : Text} {occurrences : List Occurrence}
    (tokenises : Tokenises offset line text occurrences) {before part after : Text}
    (isText : text = before ++ (part ++ after)) (isPointer : IsPointerText part) :
    ∃ found ∈ occurrences, found.start < offset + byteLength (before ++ part) ∧
      offset + byteLength before < found.stop := by
  induction tokenises generalizing before with
  | stop none => exact absurd (beginsPointer_append isPointer after) (none before _ isText)
  | next between isFound leftmost longest tokenises ih =>
      have partBytes := byteLength_pos isPointer.ne_nil
      have start := between.start_eq
      have stop := between.stop_eq
      obtain ⟨inner, rfl, isRest⟩ := exists_gap_of_leftmost (between.text_eq.symm.trans isText)
        (beginsPointer_append isPointer after) leftmost
      rw [byteLength_append, byteLength_append]
      rcases behind_or_before isRest with ⟨gap, rfl, isAfter⟩ | ⟨reach, nonempty, isFoundText, _⟩
      · -- The pointer stands behind the occurrence.
        obtain ⟨other, member, begins, ends⟩ := ih isAfter
        rw [byteLength_append] at begins
        rw [byteLength_append]
        exact ⟨other, List.mem_cons_of_mem _ member, by omega, by omega⟩
      · have reachBytes := byteLength_pos nonempty
        have bytes := congrArg byteLength isFoundText
        rw [byteLength_append] at bytes
        exact ⟨_, List.mem_cons_self, by omega, by omega⟩

/-- Scanning gives the one cutting up of a text into pointers, each as far to the left and as long
as it can be. So every occurrence is a pointer at the place that it names, occurrences follow one
another without overlap, and no pointer lies between them. -/
theorem findAll_tokenises (text : Text) :
    (∀ occurrences, Tokenises 0 1 text occurrences ↔ occurrences = findAll text) ∧
    (∀ found ∈ findAll text, IsPointerText found.text ∧ ∃ before after,
      text = before ++ (found.text ++ after) ∧ found.start = byteLength before ∧
        found.stop = byteLength (before ++ found.text)) ∧
    (∀ found ∈ findAll text, found.start < found.stop) ∧
    (findAll text).Pairwise (fun left right => left.stop ≤ right.start) ∧
    ∀ before part after, text = before ++ (part ++ after) → IsPointerText part →
      ∃ found ∈ findAll text,
        found.start < byteLength (before ++ part) ∧ byteLength before < found.stop := by
  have tokenises := tokenises_scanFrom 0 1 text
  refine ⟨fun occurrences => ⟨fun also => also.unique tokenises, ?_⟩, fun found member => ?_,
    fun found member => start_lt_stop member, findAll_disjoint text, ?_⟩
  · rintro rfl
    exact tokenises
  · obtain ⟨before, after, between⟩ := between_of_mem_findAll member
    refine ⟨isPointerText_of_mem_findAll member, before, after, between.text_eq, ?_, ?_⟩
    · rw [between.start_eq, Nat.zero_add]
    · rw [between.stop_eq, between.start_eq, Nat.zero_add, byteLength_append]
  · intro before part after isText isPointer
    obtain ⟨found, member, begins, ends⟩ := tokenises.exists_overlap isText isPointer
    rw [Nat.zero_add] at begins ends
    exact ⟨found, member, begins, ends⟩

/-- A dash without a number stays outside, and a failed beginning hides no later pointer. -/
example : (findAll "é src/a:b m/x.rs:L3- @n/y:l007-12".toList).map (·.text) =
    ["m/x.rs:L3".toList, "@n/y:l007-12".toList] := by decide +kernel

end Occurrence

end CodePointers
