/-!
Stable sorting by insertion: the result is ordered, and equal elements keep their order.
-/

namespace CodePointers

variable {α : Type}

def insertSorted (cmp : α → α → Ordering) (value : α) : List α → List α
  | [] => [value]
  | head :: rest =>
      if (cmp value head).isLE then value :: head :: rest
      else head :: insertSorted cmp value rest

def sorted (cmp : α → α → Ordering) : List α → List α
  | [] => []
  | head :: rest => insertSorted cmp head (sorted cmp rest)

theorem insertSorted_perm (cmp : α → α → Ordering) (value : α) (values : List α) :
    (insertSorted cmp value values).Perm (value :: values) := by
  induction values with
  | nil => exact List.Perm.refl _
  | cons head rest ih =>
      rw [insertSorted]
      split
      · exact List.Perm.refl _
      · exact (ih.cons head).trans (List.Perm.swap value head rest)

theorem sorted_perm (cmp : α → α → Ordering) (values : List α) :
    (sorted cmp values).Perm values := by
  induction values with
  | nil => exact List.Perm.refl _
  | cons head rest ih => exact (insertSorted_perm cmp head _).trans (ih.cons head)

theorem mem_insertSorted {cmp : α → α → Ordering} {value other : α} {values : List α} :
    other ∈ insertSorted cmp value values ↔ other = value ∨ other ∈ values := by
  rw [(insertSorted_perm cmp value values).mem_iff, List.mem_cons]

theorem mem_sorted {cmp : α → α → Ordering} {value : α} {values : List α} :
    value ∈ sorted cmp values ↔ value ∈ values :=
  (sorted_perm cmp values).mem_iff

theorem pairwise_insertSorted {cmp : α → α → Ordering} [Std.TransCmp cmp] {value : α}
    {values : List α} (ordered : values.Pairwise fun left right => (cmp left right).isLE) :
    (insertSorted cmp value values).Pairwise fun left right => (cmp left right).isLE := by
  induction values with
  | nil => exact List.pairwise_singleton _ _
  | cons head rest ih =>
      obtain ⟨headFirst, restOrdered⟩ := List.pairwise_cons.mp ordered
      rw [insertSorted]
      split
      · next valueFirst =>
        refine List.pairwise_cons.mpr ⟨?_, ordered⟩
        intro other member
        rcases List.mem_cons.mp member with rfl | inRest
        · exact valueFirst
        · exact Std.TransCmp.isLE_trans valueFirst (headFirst other inRest)
      · next later =>
        refine List.pairwise_cons.mpr ⟨?_, ih restOrdered⟩
        intro other member
        rcases mem_insertSorted.mp member with rfl | inRest
        · rw [Std.OrientedCmp.lt_of_gt (Ordering.isLE_eq_false.mp (Bool.eq_false_iff.mpr later))]
          rfl
        · exact headFirst other inRest

theorem pairwise_sorted (cmp : α → α → Ordering) [Std.TransCmp cmp] (values : List α) :
    (sorted cmp values).Pairwise fun left right => (cmp left right).isLE := by
  induction values with
  | nil => exact List.Pairwise.nil
  | cons head rest ih => exact pairwise_insertSorted ih

end CodePointers
