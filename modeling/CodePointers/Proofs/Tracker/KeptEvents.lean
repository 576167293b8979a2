import CodePointers.FileEvent
import Mathlib.Data.List.Destutter

/-!
What is kept of a batch of events. Each event is judged by those kept before it alone, so the first
part of a batch is kept as if it were a batch of its own.
-/

namespace CodePointers

namespace FileEvent

/-! Whether an event is kept. -/

theorem concerns_congr {path other : Path} (same : path == other) :
    concerns path = concerns other := by
  funext event
  unfold concerns
  split
  · rfl
  · exact BEq.congr_right same

theorem isRedundant_of_concerns {kept : List FileEvent} {event : FileEvent} {path : Path}
    (isConcerned : event.concerns path = true) :
    event.isRedundant kept =
      ((kept.find? (concerns path)).any isChanged && event.isChanged) := by
  cases event with
  | changed other =>
      rw [isRedundant, concerns_congr isConcerned]
      cases kept.find? (concerns path) <;> simp [isChanged]
  | created other => simp [isRedundant, isChanged]
  | removed other => simp [isRedundant, isChanged]
  | rescan => cases isConcerned

def comesOrGoes : FileEvent → Bool
  | created _ | removed _ => true
  | changed _ | rescan => false

theorem comesOrGoes_of_isRedundant {kept : List FileEvent} {event : FileEvent}
    (redundant : event.isRedundant kept = true) : event.comesOrGoes = false := by
  cases event with
  | changed _ | rescan => rfl
  | created _ | removed _ => cases redundant

/-! One more event. -/

@[simp] theorem coalesce_nil : coalesce [] = [] := rfl

theorem coalesce_concat (done : List FileEvent) (event : FileEvent) :
    coalesce (done ++ [event]) =
      if event.isRedundant (coalesce done).reverse then coalesce done
      else coalesce done ++ [event] := by
  rw [coalesce, coalesce, List.reverse_reverse, List.foldl_concat, keep]
  split
  · rfl
  · rw [List.reverse_cons]

theorem exists_coalesce_append (before after : List FileEvent) :
    ∃ later, later.Sublist after ∧ coalesce (before ++ after) = coalesce before ++ later := by
  induction after using List.reverseRec with
  | nil => exact ⟨[], List.Sublist.refl [], by simp⟩
  | append_singleton after event ih =>
      obtain ⟨later, sublist, isKept⟩ := ih
      rw [← List.append_assoc, coalesce_concat, isKept]
      split
      · exact ⟨later, sublist.trans (List.sublist_append_left after [event]), rfl⟩
      · exact ⟨later ++ [event], sublist.append (List.Sublist.refl [event]), List.append_assoc ..⟩

theorem coalesce_concat_rescan (before : List FileEvent) :
    coalesce (before ++ [rescan]) =
      if (coalesce before).getLast?.any isRescan then coalesce before
      else coalesce before ++ [rescan] := by
  rw [coalesce_concat, isRedundant, List.head?_reverse]
  cases (coalesce before).getLast? <;> rfl

theorem filter_comesOrGoes_coalesce (batch : List FileEvent) :
    (coalesce batch).filter comesOrGoes = batch.filter comesOrGoes := by
  induction batch using List.reverseRec with
  | nil => rfl
  | append_singleton done event ih =>
      rw [coalesce_concat, List.filter_append, ← ih]
      split
      · next redundant =>
        rw [List.filter_singleton, comesOrGoes_of_isRedundant redundant]
        simp
      · exact List.filter_append ..

/-! The events of one path. -/

section Destutter

variable {α : Type} (related : α → α → Prop) [DecidableRel related]

theorem destutter'_concat (first last : α) (values : List α) :
    (values ++ [last]).destutter' related first =
      if (values.destutter' related first).getLast?.all (fun before => related before last) then
        values.destutter' related first ++ [last]
      else values.destutter' related first := by
  induction values generalizing first with
  | nil => simp [List.destutter'_cons]
  | cons value values ih =>
      rw [List.cons_append, List.destutter'_cons, List.destutter'_cons]
      split
      · obtain ⟨head, rest, isCons⟩ :=
          List.exists_cons_of_ne_nil (List.destutter'_ne_nil values related (a := value))
        rw [ih, isCons, List.getLast?_cons_cons]
        split <;> rfl
      · exact ih first

theorem destutter_concat (values : List α) (last : α) :
    (values ++ [last]).destutter related =
      if (values.destutter related).getLast?.all (fun before => related before last) then
        values.destutter related ++ [last]
      else values.destutter related := by
  cases values with
  | nil => rfl
  | cons first values => exact destutter'_concat related first last values

end Destutter

def withoutRepeats (events : List FileEvent) : List FileEvent :=
  events.destutter fun earlier later => ¬(earlier.isChanged = true ∧ later.isChanged = true)

theorem withoutRepeats_concat (events : List FileEvent) (event : FileEvent) :
    withoutRepeats (events ++ [event]) =
      if (withoutRepeats events).getLast?.any isChanged && event.isChanged then
        withoutRepeats events
      else withoutRepeats events ++ [event] := by
  rw [withoutRepeats, destutter_concat, ← withoutRepeats]
  cases (withoutRepeats events).getLast? with
  | none => rfl
  | some last => cases event.isChanged <;> cases before : last.isChanged <;> simp [before]

theorem filter_concerns_coalesce (batch : List FileEvent) (path : Path) :
    (coalesce batch).filter (concerns path) = withoutRepeats (batch.filter (concerns path)) := by
  induction batch using List.reverseRec with
  | nil => rfl
  | append_singleton done event ih =>
      rw [coalesce_concat, List.filter_append, List.filter_singleton]
      cases isConcerned : event.concerns path with
      | false =>
          split
          · simpa using ih
          · simp [List.filter_append, isConcerned, ih]
      | true =>
          have isLast : (coalesce done).reverse.find? (concerns path) =
              (withoutRepeats (done.filter (concerns path))).getLast? := by
            rw [← ih, ← List.head?_filter, List.filter_reverse, List.head?_reverse]
          rw [cond_true, withoutRepeats_concat, isRedundant_of_concerns isConcerned, isLast, ← ih]
          split
          · rfl
          · rw [List.filter_append, List.filter_singleton, isConcerned]
            rfl

/-! Batches of which nothing is dropped. -/

def Settled : List FileEvent → Prop
  | [] => True
  | event :: earlier => event.isRedundant earlier = false ∧ Settled earlier

theorem settled_coalesce (batch : List FileEvent) : Settled (coalesce batch).reverse := by
  induction batch using List.reverseRec with
  | nil => trivial
  | append_singleton done event ih =>
      rw [coalesce_concat]
      split
      · exact ih
      · next kept =>
        rw [List.reverse_append]
        exact ⟨Bool.eq_false_iff.mpr kept, ih⟩

theorem Settled.coalesce_reverse {events : List FileEvent} (settled : Settled events) :
    coalesce events.reverse = events.reverse := by
  induction events with
  | nil => rfl
  | cons event earlier ih =>
      rw [List.reverse_cons, coalesce_concat, ih settled.2, List.reverse_reverse, settled.1]
      rfl

theorem coalesce_coalesce (batch : List FileEvent) :
    coalesce (coalesce batch) = coalesce batch := by
  have again := (settled_coalesce batch).coalesce_reverse
  rwa [List.reverse_reverse] at again

/-- What is kept of a batch is a subsequence of it. Of the events of any one path all are kept but
the repetitions in a run of `changed` ones, so everything that came or went is reported. A `rescan`
is dropped exactly when the event kept just before it is one too, whatever comes later. Of what was
kept, nothing more is dropped. -/
theorem coalesce_keeps (batch : List FileEvent) :
    (coalesce batch).Sublist batch ∧
    (∀ path, (coalesce batch).filter (concerns path) =
      withoutRepeats (batch.filter (concerns path))) ∧
    (coalesce batch).filter comesOrGoes = batch.filter comesOrGoes ∧
    (∀ before after, ∃ later, later.Sublist after ∧ coalesce (before ++ rescan :: after) =
      (if (coalesce before).getLast?.any isRescan then coalesce before
        else coalesce before ++ [rescan]) ++ later) ∧
    coalesce (coalesce batch) = coalesce batch := by
  refine ⟨?_, filter_concerns_coalesce batch, filter_comesOrGoes_coalesce batch, ?_,
    coalesce_coalesce batch⟩
  · obtain ⟨later, sublist, isKept⟩ := exists_coalesce_append [] batch
    rw [List.nil_append] at isKept
    exact isKept ▸ sublist
  · intro before after
    obtain ⟨later, sublist, isKept⟩ := exists_coalesce_append (before ++ [rescan]) after
    refine ⟨later, sublist, ?_⟩
    rw [← coalesce_concat_rescan, ← isKept, List.append_assoc]
    rfl

/-- A `rescan` between two changes of a file does not separate them, a removal does. -/
example : let path : Path := ⟨[['a']]⟩
    coalesce [changed path, rescan, rescan, changed path, removed path, changed path] =
      [changed path, rescan, removed path, changed path] := rfl

end FileEvent

end CodePointers
