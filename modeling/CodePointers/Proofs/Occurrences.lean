import CodePointers.Pointer.Scan

/-!
Where the pointers of a text stand: each one is a part of the text at the place that it names, on
the line that the line feeds before it make, and behind all the pointers reported before it.
-/

namespace CodePointers

theorem byteLength_pos {text : Text} (nonempty : text ≠ []) : 0 < byteLength text := by
  cases text with
  | nil => exact absurd rfl nonempty
  | cons char rest =>
      rw [byteLength_cons]
      have := char.utf8Size_pos
      omega

theorem byteLength_take_le {text before : Text} {count : Nat} (isPrefix : before <+: text)
    (enough : count ≤ before.length) : byteLength (text.take count) ≤ byteLength before := by
  obtain ⟨after, rfl⟩ := isPrefix
  have split := congrArg byteLength (List.take_append_drop count before)
  rw [byteLength_append] at split
  rw [List.take_append_of_le_length enough]
  omega

theorem prefix_eq_of_byteLength_eq {left right leftRest rightRest : Text}
    (same : left ++ leftRest = right ++ rightRest) (bytes : byteLength left = byteLength right) :
    left = right := by
  induction left generalizing right with
  | nil =>
      cases right with
      | nil => rfl
      | cons other right =>
          have := byteLength_pos (List.cons_ne_nil other right)
          rw [← bytes, byteLength_nil] at this
          omega
  | cons char left ih =>
      cases right with
      | nil =>
          have := byteLength_pos (List.cons_ne_nil char left)
          rw [bytes, byteLength_nil] at this
          omega
      | cons other right =>
          rw [List.cons_append, List.cons_append, List.cons.injEq] at same
          obtain ⟨rfl, sameRest⟩ := same
          rw [byteLength_cons, byteLength_cons] at bytes
          rw [ih sameRest (by omega)]

namespace Occurrence

structure Between (found : Occurrence) (offset line : Nat) (before after text : Text) : Prop where
  text_eq : text = before ++ (found.text ++ after)
  start_eq : found.start = offset + byteLength before
  stop_eq : found.stop = found.start + byteLength found.text
  line_eq : found.line = line + before.count '\n'
  nonempty : found.text ≠ []

theorem length?_pos {text : Text} {length : Nat} (found : length? text = some length) :
    0 < length := by
  have bodyPos {body : Text} {length : Nat} (found : bodyLength? body = some length) :
      0 < length := by
    unfold bodyLength? at found
    dsimp only at found
    split at found
    · cases found
    · split at found
      · split at found
        · cases found
        · obtain ⟨suffix, _, rfl⟩ := Option.map_eq_some_iff.mp found
          omega
      · cases found
  unfold length? at found
  split at found
  · obtain ⟨body, _, rfl⟩ := Option.map_eq_some_iff.mp found
    omega
  · exact bodyPos found

theorem lineAfter_add_count (line : Nat) (char : Char) (rest : Text) :
    lineAfter line char + rest.count '\n' = line + (char :: rest).count '\n' := by
  rw [List.count_cons, lineAfter]
  by_cases feed : char = '\n'
  · simp [feed]
    omega
  · simp [feed]

theorem Between.cons {found : Occurrence} {offset line : Nat} {char : Char}
    {before after text : Text}
    (between : found.Between (offset + char.utf8Size) (lineAfter line char) before after text) :
    found.Between offset line (char :: before) after (char :: text) where
  text_eq := by rw [between.text_eq, List.cons_append]
  start_eq := by rw [between.start_eq, byteLength_cons, Nat.add_assoc]
  stop_eq := between.stop_eq
  line_eq := by rw [between.line_eq, lineAfter_add_count]
  nonempty := between.nonempty

theorem between_of_mem_scanFrom {found : Occurrence} {pending offset line : Nat} {text : Text}
    (member : found ∈ scanFrom pending offset line text) :
    ∃ before after, found.Between offset line before after text ∧ pending ≤ before.length := by
  induction text generalizing pending offset line with
  | nil => cases member
  | cons char rest ih =>
      have later {count : Nat} (inRest : found ∈ scanFrom count (offset + char.utf8Size)
          (lineAfter line char) rest) :
          ∃ before after, found.Between offset line before after (char :: rest) ∧
            count < before.length := by
        obtain ⟨before, after, between, passed⟩ := ih inRest
        exact ⟨char :: before, after, between.cons, Nat.lt_succ_of_le passed⟩
      cases pending with
      | succ pending =>
          rw [scanFrom] at member
          exact later member
      | zero =>
          rw [scanFrom] at member
          split at member
          · next length isPointer =>
            rcases List.mem_cons.mp member with rfl | inRest
            · refine ⟨[], (char :: rest).drop length, ?_, Nat.zero_le _⟩
              constructor
              · exact (List.take_append_drop length (char :: rest)).symm
              · rfl
              · rfl
              · rfl
              · obtain ⟨count, rfl⟩ := Nat.exists_eq_add_of_lt (length?_pos isPointer)
                simp
            · obtain ⟨before, after, between, _⟩ := later inRest
              exact ⟨before, after, between, Nat.zero_le _⟩
          · obtain ⟨before, after, between, _⟩ := later member
            exact ⟨before, after, between, Nat.zero_le _⟩

theorem scanFrom_disjoint (pending offset line : Nat) (text : Text) :
    (scanFrom pending offset line text).Pairwise fun left right => left.stop ≤ right.start := by
  induction text generalizing pending offset line with
  | nil => exact List.Pairwise.nil
  | cons char rest ih =>
      cases pending with
      | succ pending =>
          rw [scanFrom]
          exact ih _ _ _
      | zero =>
          rw [scanFrom]
          split
          · next length isPointer =>
            refine List.pairwise_cons.mpr ⟨?_, ih _ _ _⟩
            intro later member
            obtain ⟨before, after, between, passed⟩ := between_of_mem_scanFrom member
            obtain ⟨count, rfl⟩ := Nat.exists_eq_add_of_lt (length?_pos isPointer)
            have covered : byteLength (rest.take count) ≤ byteLength before :=
              byteLength_take_le ⟨_, between.text_eq.symm⟩ (by omega)
            rw [between.start_eq]
            simp only [Nat.zero_add, List.take_succ_cons, byteLength_cons]
            omega
          · exact ih _ _ _

theorem between_of_mem_findAll {found : Occurrence} {text : Text}
    (member : found ∈ findAll text) : ∃ before after, found.Between 0 1 before after text := by
  obtain ⟨before, after, between, _⟩ := between_of_mem_scanFrom member
  exact ⟨before, after, between⟩

theorem start_lt_stop {found : Occurrence} {text : Text} (member : found ∈ findAll text) :
    found.start < found.stop := by
  obtain ⟨before, after, between⟩ := between_of_mem_findAll member
  have := byteLength_pos between.nonempty
  rw [between.stop_eq]
  omega

theorem findAll_disjoint (text : Text) :
    (findAll text).Pairwise fun left right => left.stop ≤ right.start :=
  scanFrom_disjoint 0 0 1 text

end Occurrence

end CodePointers
