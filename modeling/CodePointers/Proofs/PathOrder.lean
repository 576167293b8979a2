import CodePointers.LineRange
import CodePointers.Path
import Mathlib.Data.List.Basic

/-!
The orders of paths and line ranges. Two paths compare as equal exactly when they are equal as
paths, whatever their spelling.
-/

namespace CodePointers

instance : Std.TransOrd Part :=
  inferInstanceAs (Std.TransCmp (compareLex (compareOn Part.rank) (compareOn Part.segment)))

theorem Part.eq_of_rank_of_segment {left right : Part} (rank : left.rank = right.rank)
    (segment : left.segment = right.segment) : left = right := by
  cases left <;> cases right <;> simp_all [Part.rank, Part.segment]

instance : Std.LawfulEqOrd Part where
  eq_of_compare {left right} same := by
    obtain ⟨rank, segment⟩ := Ordering.then_eq_eq.mp same
    exact Part.eq_of_rank_of_segment (Std.LawfulEqOrd.eq_of_compare rank)
      (Std.LawfulEqOrd.eq_of_compare segment)

instance : Std.TransOrd Path where
  eq_swap {left right} := Std.OrientedOrd.eq_swap (a := left.parts) (b := right.parts)
  isLE_trans {first second third} :=
    Std.TransOrd.isLE_trans (a := first.parts) (b := second.parts) (c := third.parts)

theorem Path.compare_eq_iff {left right : Path} : compare left right = .eq ↔ left == right := by
  rw [Path.beq_iff]
  exact Std.LawfulEqOrd.compare_eq_iff_eq (a := left.parts) (b := right.parts)

instance : Std.TransOrd LineRange :=
  inferInstanceAs
    (Std.TransCmp (compareLex (compareOn LineRange.first) (compareOn LineRange.last)))

instance : Std.LawfulEqOrd LineRange where
  eq_of_compare {left right} same := by
    obtain ⟨first, last⟩ := Ordering.then_eq_eq.mp same
    have firstEq : left.first = right.first := Std.LawfulEqOrd.eq_of_compare first
    have lastEq : left.last = right.last := Std.LawfulEqOrd.eq_of_compare last
    cases left
    cases right
    simp_all

end CodePointers
