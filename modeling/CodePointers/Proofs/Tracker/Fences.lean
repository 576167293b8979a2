import CodePointers.Proofs.ReferenceIndex.Removal
import CodePointers.Proofs.Tracker.Runs
import CodePointers.Proofs.Tracker.Sources

/-!
Requests that are under way while files are removed. A removed file is fenced against every number
that was given out before, and no later operation takes a fence down.
-/

namespace CodePointers.Tracker

/-- A number that was given out, below the one of the last request applied to a file. -/
structure Fenced (file : Path) (number : Nat) (tracker : Tracker) : Prop where
  given : number ≤ tracker.sequence
  below : number < tracker.appliedTo file

theorem Run.sequence_le {first last : Tracker} (run : Run first last) :
    first.sequence ≤ last.sequence := by
  have preserved (disk : Disk) (tracker next : Tracker) (move : Move disk .none tracker next)
      (before : first.sequence ≤ tracker.sequence) : first.sequence ≤ next.sequence :=
    Nat.le_trans before move.sequence_le
  exact run.invariant preserved (Nat.le_refl _)

theorem Fenced.congr {file other : Path} {number : Nat} {tracker : Tracker}
    (fenced : Fenced file number tracker) (same : file == other) :
    Fenced other number tracker :=
  ⟨fenced.given, tracker.appliedTo_congr same ▸ fenced.below⟩

theorem Fenced.move {file : Path} {number : Nat} {disk : Disk} {guard : Guard}
    {tracker next : Tracker} (fenced : Fenced file number tracker)
    (move : Move disk guard tracker next) : Fenced file number next := by
  refine ⟨Nat.le_trans fenced.given move.sequence_le, ?_⟩
  have below := fenced.below
  cases move with
  | reserve => exact below
  | forgetText => exact below
  | read => exact below
  | reindexAt other text applied =>
      rw [appliedTo_reindexAt]
      split
      · omega
      · exact below
  | forget other =>
      rw [appliedTo_forget]
      split
      · exact Nat.lt_succ_of_le fenced.given
      · exact below
  | retryPending => exact below
  | clear => exact below

theorem Fenced.run {file : Path} {number : Nat} {first last : Tracker}
    (fenced : Fenced file number first) (run : Run first last) : Fenced file number last :=
  run.invariant (fun _ _ _ move before => before.move move) fenced

theorem Fenced.reindexAt {file : Path} {number : Nat} {tracker : Tracker}
    (fenced : Fenced file number tracker) (disk : Disk) (text : Text) :
    tracker.reindexAt disk file text number = (tracker, { superseded := true }) :=
  reindexAt_of_lt fenced.below disk text

theorem fenced_foldl_forget_iff {tracker : Tracker} {number : Nat}
    (given : number ≤ tracker.sequence) (files : List Path) (file : Path) :
    Fenced file number (files.foldl forget tracker) ↔
      (∃ removed ∈ files, (removed == file) = true) ∨ number < tracker.appliedTo file := by
  induction files generalizing tracker with
  | nil => exact ⟨fun fenced => .inr fenced.below, fun known => ⟨given, by simpa using known⟩⟩
  | cons head rest ih =>
      have givenAfter : number ≤ (tracker.forget head).sequence := Nat.le_succ_of_le given
      rw [List.foldl_cons, ih givenAfter, appliedTo_forget]
      simp only [List.mem_cons, exists_eq_or_imp]
      by_cases same : head == file
      · have below : number < tracker.nextSequence := Nat.lt_succ_of_le given
        simp [same, below]
      · simp [same]

theorem exists_mem_eraseDups_iff {α : Type} [BEq α] [EquivBEq α] {items : List α} {item : α} :
    (∃ found ∈ items.eraseDups, (found == item) = true) ↔
      ∃ found ∈ items, (found == item) = true := by
  -- What equals the head is filtered out of the rest, so the induction is on the length.
  generalize size : items.length = length
  induction length using Nat.strongRecOn generalizing items with
  | ind length ih =>
      cases items with
      | nil => simp
      | cons head rest =>
          have shorter : (rest.filter fun other => !other == head).length < length := by
            rw [← size]
            exact Nat.lt_succ_of_le (List.length_filter_le _ _)
          simp only [List.eraseDups_cons, List.mem_cons, exists_eq_or_imp, ih _ shorter rfl]
          constructor
          · rintro (same | ⟨found, member, same⟩)
            · exact .inl same
            · exact .inr ⟨found, (List.mem_filter.mp member).1, same⟩
          · rintro (same | ⟨found, member, same⟩)
            · exact .inl same
            · by_cases isHead : found == head
              · exact .inl (BEq.trans (BEq.symm isHead) same)
              · exact .inr ⟨found, List.mem_filter.mpr ⟨member, by simp [isHead]⟩, same⟩

end CodePointers.Tracker
