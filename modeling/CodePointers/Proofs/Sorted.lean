import CodePointers.Sorted
import Mathlib.Data.List.Forall2
import Mathlib.Data.List.Pairwise

/-!
Sorting as a canonical form: two lists that hold the same elements, each once up to the order, are
the same list when sorted.
-/

namespace CodePointers

variable {α : Type} {cmp : α → α → Ordering} [Std.TransCmp cmp]

theorem pairwise_lt_sorted {values : List α}
    (distinct : values.Pairwise fun left right => cmp left right ≠ .eq) :
    (sorted cmp values).Pairwise fun left right => cmp left right = .lt := by
  have distinctSorted : (sorted cmp values).Pairwise fun left right => cmp left right ≠ .eq := by
    refine (sorted_perm cmp values).symm.pairwise distinct ?_
    intro left right differ same
    exact differ (Std.OrientedCmp.eq_symm same)
  refine (pairwise_sorted cmp values).imp₂ ?_ distinctSorted
  intro left right ordered differ
  cases result : cmp left right with
  | lt => rfl
  | eq => exact absurd result differ
  | gt => simp [result] at ordered

theorem head_compare_eq {head other : α} {left right : List α}
    (leftFirst : ∀ value ∈ left, cmp head value = .lt)
    (rightFirst : ∀ value ∈ right, cmp other value = .lt)
    (headIn : ∃ value ∈ other :: right, cmp head value = .eq)
    (otherIn : ∃ value ∈ head :: left, cmp value other = .eq) : cmp head other = .eq := by
  obtain ⟨value, member, same⟩ := headIn
  rcases List.mem_cons.mp member with rfl | inRight
  · exact same
  obtain ⟨value', member', same'⟩ := otherIn
  rcases List.mem_cons.mp member' with rfl | inLeft
  · exact same'
  have below : cmp other head = .lt :=
    Std.TransCmp.lt_of_lt_of_eq (rightFirst value inRight) (Std.OrientedCmp.eq_symm same)
  have above : cmp head other = .lt := Std.TransCmp.lt_of_lt_of_eq (leftFirst value' inLeft) same'
  rw [Std.OrientedCmp.gt_of_lt above] at below
  cases below

theorem forall₂_of_pairwise_lt {left right : List α}
    (leftOrdered : left.Pairwise fun first second => cmp first second = .lt)
    (rightOrdered : right.Pairwise fun first second => cmp first second = .lt)
    (leftIn : ∀ value ∈ left, ∃ other ∈ right, cmp value other = .eq)
    (rightIn : ∀ other ∈ right, ∃ value ∈ left, cmp value other = .eq) :
    List.Forall₂ (fun value other => cmp value other = .eq) left right := by
  induction left generalizing right with
  | nil =>
      cases right with
      | nil => exact .nil
      | cons other right =>
          obtain ⟨value, member, _⟩ := rightIn other List.mem_cons_self
          cases member
  | cons head left ih =>
      cases right with
      | nil =>
          obtain ⟨other, member, _⟩ := leftIn head List.mem_cons_self
          cases member
      | cons other right =>
          obtain ⟨leftFirst, leftOrdered⟩ := List.pairwise_cons.mp leftOrdered
          obtain ⟨rightFirst, rightOrdered⟩ := List.pairwise_cons.mp rightOrdered
          have heads := head_compare_eq leftFirst rightFirst (leftIn head List.mem_cons_self)
            (rightIn other List.mem_cons_self)
          refine .cons heads (ih leftOrdered rightOrdered ?_ ?_)
          · intro value member
            obtain ⟨found, inRight, same⟩ := leftIn value (List.mem_cons_of_mem _ member)
            rcases List.mem_cons.mp inRight with rfl | inRight
            · have equal := Std.TransCmp.eq_trans heads (Std.OrientedCmp.eq_symm same)
              rw [leftFirst value member] at equal
              cases equal
            · exact ⟨found, inRight, same⟩
          · intro value member
            obtain ⟨found, inLeft, same⟩ := rightIn value (List.mem_cons_of_mem _ member)
            rcases List.mem_cons.mp inLeft with rfl | inLeft
            · have equal := Std.TransCmp.eq_trans (Std.OrientedCmp.eq_symm heads) same
              rw [rightFirst value member] at equal
              cases equal
            · exact ⟨found, inLeft, same⟩

theorem forall₂_sorted {left right : List α}
    (leftDistinct : left.Pairwise fun first second => cmp first second ≠ .eq)
    (rightDistinct : right.Pairwise fun first second => cmp first second ≠ .eq)
    (leftIn : ∀ value ∈ left, ∃ other ∈ right, cmp value other = .eq)
    (rightIn : ∀ other ∈ right, ∃ value ∈ left, cmp value other = .eq) :
    List.Forall₂ (fun value other => cmp value other = .eq) (sorted cmp left)
      (sorted cmp right) := by
  refine forall₂_of_pairwise_lt (pairwise_lt_sorted leftDistinct) (pairwise_lt_sorted rightDistinct)
    ?_ ?_
  · intro value member
    obtain ⟨other, inRight, same⟩ := leftIn value (mem_sorted.mp member)
    exact ⟨other, mem_sorted.mpr inRight, same⟩
  · intro other member
    obtain ⟨value, inLeft, same⟩ := rightIn other (mem_sorted.mp member)
    exact ⟨value, mem_sorted.mpr inLeft, same⟩

theorem forall₂_of_mem {relation stronger : α → α → Prop} {left right : List α}
    (related : List.Forall₂ relation left right)
    (implies : ∀ value ∈ left, ∀ other ∈ right, relation value other → stronger value other) :
    List.Forall₂ stronger left right := by
  induction related with
  | nil => exact .nil
  | cons heads _ ih =>
      refine .cons (implies _ List.mem_cons_self _ List.mem_cons_self heads) (ih ?_)
      intro value member other otherMember
      exact implies value (List.mem_cons_of_mem _ member) other (List.mem_cons_of_mem _ otherMember)

theorem beq_of_forall₂ [BEq α] {left right : List α}
    (related : List.Forall₂ (fun value other => (value == other) = true) left right) :
    (left == right) = true := by
  induction related with
  | nil => rfl
  | cons heads _ ih => rw [List.cons_beq_cons, heads, ih]; rfl

end CodePointers
