import CodePointers.Text

/-!
Inclusive one-based line ranges. Two ranges are the same only when both bounds agree, and they are
ordered by first line, then by last line.
-/

namespace CodePointers

structure LineRange where
  first : Nat
  last : Nat
  one_le_first : 1 ≤ first
  first_le_last : first ≤ last
deriving DecidableEq

namespace LineRange

def of? (first last : Nat) : Option LineRange :=
  if valid : 1 ≤ first ∧ first ≤ last then some ⟨first, last, valid.1, valid.2⟩ else none

def single? (line : Nat) : Option LineRange := of? line line

def contains (range : LineRange) (line : Nat) : Bool :=
  decide (range.first ≤ line ∧ line ≤ range.last)

def isSingleLine (range : LineRange) : Bool := range.first == range.last

instance : Ord LineRange where
  compare := compareLex (compareOn LineRange.first) (compareOn LineRange.last)

def labelOf (first last : Nat) : Text :=
  if first = last then 'L' :: decimal first else 'L' :: decimal first ++ '-' :: decimal last

def label (range : LineRange) : Text := labelOf range.first range.last

theorem of?_eq_some_iff {first last : Nat} {range : LineRange} :
    of? first last = some range ↔ range.first = first ∧ range.last = last := by
  unfold of?
  split
  · rw [Option.some.injEq]
    constructor
    · rintro rfl
      exact ⟨rfl, rfl⟩
    · rintro ⟨rfl, rfl⟩
      rfl
  · next invalid =>
      simp only [reduceCtorEq, false_iff]
      rintro ⟨rfl, rfl⟩
      exact invalid ⟨range.one_le_first, range.first_le_last⟩

theorem isSome_of?_iff {first last : Nat} :
    (of? first last).isSome ↔ 1 ≤ first ∧ first ≤ last := by
  unfold of?
  split <;> simp_all

end LineRange

end CodePointers
