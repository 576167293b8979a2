/-!
Maps that remember the order in which their keys came in. A key that is equal to a stored one
keeps the stored spelling and place; a key that comes back after being erased starts anew.
-/

namespace CodePointers

structure OrderedMap (κ α : Type) [BEq κ] where
  entries : List (κ × α)
  distinct : entries.Pairwise fun left right => (left.1 == right.1) = false

namespace OrderedMap

variable {κ α β : Type} [BEq κ]

def empty : OrderedMap κ α := ⟨[], List.Pairwise.nil⟩

instance : Inhabited (OrderedMap κ α) := ⟨empty⟩

def keys (map : OrderedMap κ α) : List κ := map.entries.map (·.1)

def values (map : OrderedMap κ α) : List α := map.entries.map (·.2)

def isEmpty (map : OrderedMap κ α) : Bool := map.entries.isEmpty

def size (map : OrderedMap κ α) : Nat := map.entries.length

def total (measure : α → Nat) (map : OrderedMap κ α) : Nat :=
  map.entries.foldr (fun entry sum => measure entry.2 + sum) 0

def get? (map : OrderedMap κ α) (key : κ) : Option α :=
  (map.entries.find? fun entry => entry.1 == key).map (·.2)

def place (key : κ) (value : α) : List (κ × α) → List (κ × α)
  | [] => [(key, value)]
  | (stored, old) :: rest =>
      if stored == key then (stored, value) :: rest else (stored, old) :: place key value rest

theorem key_of_mem_place {key : κ} {value : α} {entries : List (κ × α)} {entry : κ × α}
    (member : entry ∈ place key value entries) :
    entry.1 = key ∨ ∃ old ∈ entries, old.1 = entry.1 := by
  induction entries with
  | nil =>
      rw [place, List.mem_singleton] at member
      exact .inl (congrArg Prod.fst member)
  | cons head rest ih =>
      rw [place] at member
      split at member
      · rcases List.mem_cons.mp member with rfl | inRest
        · exact .inr ⟨head, List.mem_cons_self, rfl⟩
        · exact .inr ⟨entry, List.mem_cons_of_mem _ inRest, rfl⟩
      · rcases List.mem_cons.mp member with rfl | inRest
        · exact .inr ⟨head, List.mem_cons_self, rfl⟩
        · rcases ih inRest with same | ⟨old, inOld, same⟩
          · exact .inl same
          · exact .inr ⟨old, List.mem_cons_of_mem _ inOld, same⟩

theorem place_distinct {key : κ} {value : α} {entries : List (κ × α)}
    (distinct : entries.Pairwise fun left right => (left.1 == right.1) = false) :
    (place key value entries).Pairwise fun left right => (left.1 == right.1) = false := by
  induction entries with
  | nil => exact List.pairwise_singleton _ _
  | cons head rest ih =>
      obtain ⟨apart, restDistinct⟩ := List.pairwise_cons.mp distinct
      rw [place]
      split
      · exact List.pairwise_cons.mpr ⟨fun entry member => apart entry member, restDistinct⟩
      · next differs =>
        refine List.pairwise_cons.mpr ⟨?_, ih restDistinct⟩
        intro entry member
        rcases key_of_mem_place member with same | ⟨old, inOld, same⟩
        · rw [same]
          exact Bool.eq_false_iff.mpr differs
        · rw [← same]
          exact apart old inOld

def insert (map : OrderedMap κ α) (key : κ) (value : α) : OrderedMap κ α :=
  ⟨place key value map.entries, place_distinct map.distinct⟩

def erase (map : OrderedMap κ α) (key : κ) : OrderedMap κ α :=
  ⟨map.entries.filter fun entry => !(entry.1 == key), map.distinct.filter _⟩

def filterMap (change : κ → α → Option β) (map : OrderedMap κ α) : OrderedMap κ β :=
  ⟨map.entries.filterMap fun entry => (change entry.1 entry.2).map (entry.1, ·), by
    refine map.distinct.filterMap _ ?_
    intro left right apart newLeft fromLeft newRight fromRight
    obtain ⟨_, _, rfl⟩ := Option.map_eq_some_iff.mp fromLeft
    obtain ⟨_, _, rfl⟩ := Option.map_eq_some_iff.mp fromRight
    exact apart⟩

def mapValues (change : α → β) (map : OrderedMap κ α) : OrderedMap κ β :=
  map.filterMap fun _ value => some (change value)

@[simp] theorem get?_empty (key : κ) : (empty : OrderedMap κ α).get? key = none := rfl

theorem find?_place [EquivBEq κ] (key other : κ) (value : α) (entries : List (κ × α)) :
    ((place key value entries).find? fun entry => entry.1 == other).map (·.2) =
      if key == other then some value
      else (entries.find? fun entry => entry.1 == other).map (·.2) := by
  induction entries with
  | nil =>
      rw [place, List.find?_cons]
      split <;> simp_all
  | cons head rest ih =>
      obtain ⟨stored, old⟩ := head
      rw [place]
      split
      · next same =>
        rw [List.find?_cons, List.find?_cons, BEq.congr_left same]
        split <;> simp_all
      · next differs =>
        rw [List.find?_cons, List.find?_cons]
        split
        · next found =>
          have apart : (key == other) = false :=
            Bool.eq_false_iff.mpr fun same => differs (BEq.trans found (BEq.symm same))
          simp [apart]
        · exact ih

theorem get?_insert [EquivBEq κ] (map : OrderedMap κ α) (key other : κ) (value : α) :
    (map.insert key value).get? other = if key == other then some value else map.get? other :=
  find?_place key other value map.entries

theorem get?_erase [EquivBEq κ] (map : OrderedMap κ α) (key other : κ) :
    (map.erase key).get? other = if key == other then none else map.get? other := by
  unfold get? erase
  rw [List.find?_filter]
  split
  · next same =>
    rw [List.find?_eq_none.mpr]
    · rfl
    · intro entry _
      rw [BEq.congr_right same]
      simp
  · next differs =>
    congr 2
    funext entry
    cases found : entry.1 == other with
    | false => simp
    | true =>
        have apart : (entry.1 == key) = false :=
          Bool.eq_false_iff.mpr fun same => differs (BEq.trans (BEq.symm same) found)
        simp [apart]

theorem entries_mapValues (change : α → β) (map : OrderedMap κ α) :
    (map.mapValues change).entries = map.entries.map fun entry => (entry.1, change entry.2) :=
  congrFun (List.filterMap_eq_map (f := fun entry : κ × α => (entry.1, change entry.2))) map.entries

theorem get?_mapValues (change : α → β) (map : OrderedMap κ α) (key : κ) :
    (map.mapValues change).get? key = (map.get? key).map change := by
  rw [get?, get?, entries_mapValues, List.find?_map, Option.map_map, Option.map_map]
  rfl

theorem keys_mapValues (change : α → β) (map : OrderedMap κ α) :
    (map.mapValues change).keys = map.keys := by
  rw [keys, keys, entries_mapValues, List.map_map]
  rfl

end OrderedMap

end CodePointers
