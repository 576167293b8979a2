import CodePointers.OrderedMap
import Mathlib.Algebra.Ring.Nat

/-!
What a look-up says about the entries of a map: distinct keys make entries and look-ups two views
of the same contents.
-/

namespace CodePointers.OrderedMap

variable {κ α β : Type} [BEq κ]

theorem exists_mem_of_get? {map : OrderedMap κ α} {key : κ} {value : α}
    (found : map.get? key = some value) :
    ∃ stored, (stored, value) ∈ map.entries ∧ (stored == key) = true := by
  obtain ⟨entry, isFound, rfl⟩ := Option.map_eq_some_iff.mp found
  refine ⟨entry.1, List.mem_of_find?_eq_some isFound, ?_⟩
  simpa using List.find?_some isFound

theorem entries_ne_nil_of_get? {map : OrderedMap κ α} {key : κ} {value : α}
    (found : map.get? key = some value) : map.entries ≠ [] := by
  obtain ⟨stored, member, _⟩ := exists_mem_of_get? found
  exact List.ne_nil_of_mem member

theorem eq_empty_of_isEmpty {map : OrderedMap κ α} (isEmpty : map.isEmpty = true) :
    map = empty := by
  obtain ⟨entries, distinct⟩ := map
  obtain rfl : entries = [] := List.isEmpty_iff.mp isEmpty
  rfl

theorem keys_distinct (map : OrderedMap κ α) :
    map.keys.Pairwise fun left right => (left == right) = false :=
  List.pairwise_map.mpr map.distinct

/-! The spellings under which keys are stored. -/

theorem mem_keys_insert {map : OrderedMap κ α} {key stored : κ} {value : α}
    (member : stored ∈ (map.insert key value).keys) : stored = key ∨ stored ∈ map.keys := by
  obtain ⟨entry, inEntries, rfl⟩ := List.mem_map.mp member
  rcases key_of_mem_place inEntries with isKey | ⟨old, inOld, same⟩
  · exact .inl isKey
  · exact .inr (List.mem_map.mpr ⟨old, inOld, same⟩)

theorem keys_place {key : κ} {entries : List (κ × α)} (value : α)
    (known : ∃ entry ∈ entries, (entry.1 == key) = true) :
    (place key value entries).map (·.1) = entries.map (·.1) := by
  induction entries with
  | nil => simp at known
  | cons head rest ih =>
      rw [place]
      split
      · rfl
      · next differs =>
        simp only [List.mem_cons, exists_eq_or_imp, or_iff_right differs] at known
        rw [List.map_cons, ih known, List.map_cons]

theorem place_of_unknown {key : κ} {entries : List (κ × α)} (value : α)
    (unknown : ∀ entry ∈ entries, ¬(entry.1 == key) = true) :
    place key value entries = entries ++ [(key, value)] := by
  induction entries with
  | nil => rfl
  | cons head rest ih =>
      rw [place, if_neg (unknown head List.mem_cons_self),
        ih fun entry member => unknown entry (List.mem_cons_of_mem _ member)]
      rfl

theorem keys_insert_of_get? {map : OrderedMap κ α} {key : κ} {old : α}
    (found : map.get? key = some old) (value : α) : (map.insert key value).keys = map.keys := by
  obtain ⟨stored, member, same⟩ := exists_mem_of_get? found
  exact keys_place value ⟨_, member, same⟩

theorem keys_insert_of_get?_eq_none {map : OrderedMap κ α} {key : κ}
    (missing : map.get? key = none) (value : α) :
    (map.insert key value).keys = map.keys ++ [key] := by
  have unknown : ∀ entry ∈ map.entries, ¬(entry.1 == key) = true :=
    List.find?_eq_none.mp (Option.map_eq_none_iff.mp missing)
  calc (place key value map.entries).map (·.1)
      _ = (map.entries ++ [(key, value)]).map (·.1) := by rw [place_of_unknown value unknown]
      _ = map.keys ++ [key] := List.map_append

theorem keys_filterMap_sublist (change : κ → α → Option β) (map : OrderedMap κ α) :
    (map.filterMap change).keys.Sublist map.keys := by
  obtain ⟨entries, distinct⟩ := map
  change ((entries.filterMap fun entry => (change entry.1 entry.2).map (entry.1, ·)).map
    (·.1)).Sublist (entries.map (·.1))
  clear distinct
  induction entries with
  | nil => exact List.Sublist.refl _
  | cons head rest ih =>
      rw [List.filterMap_cons]
      cases change head.1 head.2 with
      | none => exact ih.cons head.1
      | some value => exact ih.cons_cons head.1

omit [BEq κ] in
theorem filterMap_entries_eq_self {change : κ → α → Option α} {entries : List (κ × α)}
    (unchanged : ∀ entry ∈ entries, change entry.1 entry.2 = some entry.2) :
    (entries.filterMap fun entry => (change entry.1 entry.2).map (entry.1, ·)) = entries := by
  induction entries with
  | nil => rfl
  | cons head rest ih =>
      rw [List.forall_mem_cons] at unchanged
      rw [List.filterMap_cons, unchanged.1, ih unchanged.2]
      rfl

theorem filterMap_eq_self {change : κ → α → Option α} {map : OrderedMap κ α}
    (unchanged : ∀ entry ∈ map.entries, change entry.1 entry.2 = some entry.2) :
    map.filterMap change = map := by
  obtain ⟨entries, distinct⟩ := map
  simp only [filterMap, filterMap_entries_eq_self unchanged]

theorem mapValues_eq_self {change : α → α} {map : OrderedMap κ α}
    (unchanged : ∀ entry ∈ map.entries, change entry.2 = entry.2) : map.mapValues change = map :=
  filterMap_eq_self fun entry member => congrArg some (unchanged entry member)

theorem erase_of_get?_eq_none {map : OrderedMap κ α} {key : κ} (missing : map.get? key = none) :
    map.erase key = map := by
  obtain ⟨entries, distinct⟩ := map
  have unknown : ∀ entry ∈ entries, ¬(entry.1 == key) = true :=
    List.find?_eq_none.mp (Option.map_eq_none_iff.mp missing)
  have same : entries.filter (fun entry => !(entry.1 == key)) = entries :=
    List.filter_eq_self.mpr fun entry member => by simp [unknown entry member]
  simp only [erase, same]

theorem keys_erase_subset (map : OrderedMap κ α) (key : κ) : (map.erase key).keys ⊆ map.keys :=
  List.map_subset _ fun _ member => (List.mem_filter.mp member).1

theorem total_eq_foldr (measure : α → Nat) (map : OrderedMap κ α) :
    map.total measure = (map.values.map measure).foldr (· + ·) 0 := by
  rw [total, values, List.map_map, List.foldr_map]
  rfl

omit [BEq κ] in
theorem foldr_filterMap (change : κ → α → Option β) (measure : β → Nat) (entries : List (κ × α)) :
    (entries.filterMap fun entry => (change entry.1 entry.2).map (entry.1, ·)).foldr
        (fun entry sum => measure entry.2 + sum) 0 =
      (entries.map fun entry => ((change entry.1 entry.2).map measure).getD 0).foldr (· + ·) 0 := by
  induction entries with
  | nil => rfl
  | cons head rest ih =>
      rw [List.filterMap_cons, List.map_cons, List.foldr_cons, ← ih]
      cases change head.1 head.2 with
      | none => exact (Nat.zero_add _).symm
      | some value => rfl

theorem total_filterMap (change : κ → α → Option β) (measure : β → Nat) (map : OrderedMap κ α) :
    (map.filterMap change).total measure =
      (map.entries.map fun entry => ((change entry.1 entry.2).map measure).getD 0).foldr
        (· + ·) 0 :=
  foldr_filterMap change measure map.entries

/-! The first entry. -/

theorem total_cons (measure : α → Nat) {head : κ × α} {rest : List (κ × α)}
    (distinct : (head :: rest).Pairwise fun left right => (left.1 == right.1) = false) :
    total measure ⟨head :: rest, distinct⟩ = measure head.2 + total measure ⟨rest, distinct.tail⟩ :=
  rfl

theorem get?_cons {head : κ × α} {rest : List (κ × α)}
    (distinct : (head :: rest).Pairwise fun left right => (left.1 == right.1) = false) (key : κ) :
    get? ⟨head :: rest, distinct⟩ key =
      if head.1 == key then some head.2 else get? ⟨rest, distinct.tail⟩ key := by
  rw [get?, List.find?_cons]
  cases head.1 == key <;> rfl

variable [EquivBEq κ]

theorem get?_congr (map : OrderedMap κ α) {left right : κ} (same : left == right) :
    map.get? left = map.get? right := by
  unfold get?
  congr 2
  funext entry
  exact BEq.congr_right same

theorem find?_of_mem {identity : α → κ} {values : List α} {value : α} {key : κ}
    (distinct : values.Pairwise fun left right => (identity left == identity right) = false)
    (member : value ∈ values) (same : identity value == key) :
    (values.find? fun other => identity other == key) = some value := by
  induction values with
  | nil => cases member
  | cons head rest ih =>
      obtain ⟨apart, restDistinct⟩ := List.pairwise_cons.mp distinct
      rw [List.find?_cons]
      rcases List.mem_cons.mp member with rfl | inRest
      · simp [same]
      · have differs : (identity head == key) = false := by
          rw [← BEq.congr_right same]
          exact apart value inRest
        simp only [differs]
        exact ih restDistinct inRest

theorem get?_of_mem {map : OrderedMap κ α} {stored key : κ} {value : α}
    (member : (stored, value) ∈ map.entries) (same : stored == key) :
    map.get? key = some value := by
  have found : (map.entries.find? fun entry => entry.1 == key) = some (stored, value) :=
    find?_of_mem map.distinct member same
  rw [get?, found]
  rfl

theorem get?_isSome_iff {map : OrderedMap κ α} {key : κ} :
    (map.get? key).isSome ↔ ∃ stored ∈ map.keys, (stored == key) = true := by
  constructor
  · intro found
    obtain ⟨value, isValue⟩ := Option.isSome_iff_exists.mp found
    obtain ⟨stored, member, same⟩ := exists_mem_of_get? isValue
    exact ⟨stored, List.mem_map.mpr ⟨_, member, rfl⟩, same⟩
  · rintro ⟨stored, member, same⟩
    obtain ⟨entry, inEntries, rfl⟩ := List.mem_map.mp member
    rw [get?_of_mem inEntries same]
    rfl

theorem isEmpty_iff {map : OrderedMap κ α} : map.isEmpty = true ↔ ∀ key, map.get? key = none := by
  rw [isEmpty, List.isEmpty_iff]
  constructor
  · intro empty key
    simp [get?, empty]
  · intro noValue
    refine List.eq_nil_iff_forall_not_mem.mpr ?_
    rintro ⟨stored, value⟩ member
    have found := get?_of_mem member BEq.rfl
    rw [noValue] at found
    cases found

theorem exists_get?_of_entries_ne_nil {map : OrderedMap κ α} (nonempty : map.entries ≠ []) :
    ∃ key value, map.get? key = some value := by
  obtain ⟨⟨key, value⟩, member⟩ := List.exists_mem_of_ne_nil _ nonempty
  exact ⟨key, value, get?_of_mem member BEq.rfl⟩

theorem get?_filterMap_of_congr {change : κ → α → Option β}
    (congr : ∀ {left right : κ}, left == right → change left = change right)
    (map : OrderedMap κ α) (key : κ) :
    (map.filterMap change).get? key = (map.get? key).bind (change key) := by
  cases found : map.get? key with
  | none =>
      rw [Option.bind_none, ← Option.not_isSome_iff_eq_none, get?_isSome_iff]
      rintro ⟨stored, member, same⟩
      obtain ⟨entry, changed, rfl⟩ := List.mem_map.mp member
      obtain ⟨old, inEntries, isChanged⟩ := List.mem_filterMap.mp changed
      obtain ⟨_, _, rfl⟩ := Option.map_eq_some_iff.mp isChanged
      rw [get?_of_mem inEntries same] at found
      cases found
  | some value =>
      obtain ⟨stored, member, same⟩ := exists_mem_of_get? found
      rw [Option.bind_some, ← congr same]
      cases changed : change stored value with
      | some result =>
          exact get?_of_mem (List.mem_filterMap.mpr ⟨_, member, by simp [changed]⟩) same
      | none =>
          rw [← Option.not_isSome_iff_eq_none, get?_isSome_iff]
          rintro ⟨other, otherMember, otherSame⟩
          obtain ⟨entry, inChanged, rfl⟩ := List.mem_map.mp otherMember
          obtain ⟨⟨oldKey, old⟩, inEntries, isChanged⟩ := List.mem_filterMap.mp inChanged
          obtain ⟨kept, isKept, rfl⟩ := Option.map_eq_some_iff.mp isChanged
          rw [get?_of_mem inEntries otherSame] at found
          cases found
          rw [congr (BEq.trans otherSame (BEq.symm same))] at isKept
          cases changed.symm.trans isKept

theorem get?_filterMap (change : α → Option β) (map : OrderedMap κ α) (key : κ) :
    (map.filterMap fun _ value => change value).get? key = (map.get? key).bind change :=
  get?_filterMap_of_congr (fun _ => rfl) map key

/-! Totals over the values. -/

theorem get?_tail {head : κ × α} {rest : List (κ × α)}
    (distinct : (head :: rest).Pairwise fun left right => (left.1 == right.1) = false) {key : κ}
    (same : head.1 == key) : get? ⟨rest, distinct.tail⟩ key = none := by
  rw [← Option.not_isSome_iff_eq_none, get?_isSome_iff]
  rintro ⟨stored, member, also⟩
  obtain ⟨entry, inRest, rfl⟩ := List.mem_map.mp member
  have apart := (List.pairwise_cons.mp distinct).1 entry inRest
  rw [BEq.trans same (BEq.symm also)] at apart
  cases apart

theorem total_erase (measure : α → Nat) {map : OrderedMap κ α} {key : κ} {value : α}
    (found : map.get? key = some value) :
    map.total measure = measure value + (map.erase key).total measure := by
  obtain ⟨entries, distinct⟩ := map
  induction entries with
  | nil => cases found
  | cons head rest ih =>
      rw [get?_cons] at found
      unfold erase
      simp only [List.filter_cons]
      split at found
      · next same =>
        cases found
        have others : rest.filter (fun entry => !(entry.1 == key)) = rest := by
          refine List.filter_eq_self.mpr fun entry member => ?_
          rw [← BEq.congr_right same, BEq.comm, (List.pairwise_cons.mp distinct).1 entry member]
          rfl
        simp only [same, others, Bool.not_true, Bool.false_eq_true, if_false]
        rfl
      · next differs =>
        have tail : total measure ⟨rest, distinct.tail⟩ = measure value +
            total measure ⟨rest.filter fun entry => !(entry.1 == key), distinct.tail.filter _⟩ :=
          ih distinct.tail found
        simp only [differs, Bool.not_false, if_true]
        rw [total_cons, total_cons, tail]
        omega

theorem total_congr (measure : α → Nat) {left right : OrderedMap κ α}
    (same : ∀ key, left.get? key = right.get? key) : left.total measure = right.total measure := by
  obtain ⟨entries, distinct⟩ := left
  induction entries generalizing right with
  | nil =>
      have empty : right.isEmpty = true := isEmpty_iff.mpr fun key => (same key).symm
      rw [total, total, List.isEmpty_iff.mp empty]
  | cons head rest ih =>
      have found : right.get? head.1 = some head.2 := by
        rw [← same, get?_cons, if_pos BEq.rfl]
      rw [total_cons, total_erase measure found, ih distinct.tail]
      intro key
      rw [get?_erase, ← same, get?_cons]
      split
      · next isHead => exact get?_tail distinct isHead
      · rfl

theorem total_eq_sum (measure : α → Nat) {map : OrderedMap κ α} {keys : List κ}
    (distinct : keys.Pairwise fun left right => (left == right) = false)
    (covered : ∀ key, (map.get? key).isSome → ∃ listed ∈ keys, (listed == key) = true) :
    map.total measure = (keys.map fun key => ((map.get? key).map measure).getD 0).sum := by
  induction keys generalizing map with
  | nil =>
      have empty : map.isEmpty = true := by
        refine isEmpty_iff.mpr fun key => Option.not_isSome_iff_eq_none.mp fun found => ?_
        obtain ⟨listed, member, _⟩ := covered key found
        cases member
      rw [total, List.isEmpty_iff.mp empty]
      rfl
  | cons head rest ih =>
      obtain ⟨apart, restDistinct⟩ := List.pairwise_cons.mp distinct
      have restCovered : ∀ key, ((map.erase head).get? key).isSome →
          ∃ listed ∈ rest, (listed == key) = true := by
        intro key found
        rw [get?_erase] at found
        split at found
        · cases found
        · next differs =>
          obtain ⟨listed, member, same⟩ := covered key found
          rcases List.mem_cons.mp member with rfl | inRest
          · exact absurd same differs
          · exact ⟨listed, inRest, same⟩
      -- Without the entry of the head the other keys have what they had.
      have restSame : (rest.map fun key => (((map.erase head).get? key).map measure).getD 0) =
          rest.map fun key => ((map.get? key).map measure).getD 0 := by
        refine List.map_congr_left fun key member => ?_
        rw [get?_erase, apart key member]
        rfl
      rw [List.map_cons, List.sum_cons, ← restSame, ← ih restDistinct restCovered]
      cases found : map.get? head with
      | none => rw [erase_of_get?_eq_none found, Option.map_none, Option.getD_none, Nat.zero_add]
      | some value => rw [total_erase measure found, Option.map_some, Option.getD_some]

end CodePointers.OrderedMap
