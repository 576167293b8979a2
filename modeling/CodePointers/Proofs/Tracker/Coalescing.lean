import CodePointers.Proofs.Tracker.KeptEvents
import CodePointers.Proofs.Tracker.Retained

/-!
Batches of events on a disk that stays as it is. Dropping the events that are redundant does not
show in the contents, as long as what a removal takes away between two changes of a file comes back
before the second of them.
-/

namespace CodePointers

namespace FileEvent

/-! What is kept of a batch. -/

theorem isRedundant_changed_iff {kept : List FileEvent} {path : Path} :
    (changed path).isRedundant kept = true ↔
      (kept.find? (concerns path)).map isChanged = some true := by
  rw [isRedundant, Option.getD_eq_iff]
  simp

theorem find?_kept (batch : List FileEvent) (path : Path) :
    ((batch.foldl keep []).find? (concerns path)).map isChanged =
      (batch.reverse.find? (concerns path)).map isChanged := by
  -- The last event of the batch is the head of the reversed one.
  obtain ⟨events, rfl⟩ : ∃ events, batch = events.reverse := ⟨batch.reverse, by simp⟩
  induction events with
  | nil => rfl
  | cons event earlier ih =>
      rw [List.reverse_reverse] at ih ⊢
      rw [List.reverse_cons, List.foldl_concat, List.find?_cons]
      cases isConcerned : event.concerns path with
      | false =>
          dsimp only
          rw [← ih, keep]
          split
          · rfl
          · rw [List.find?_cons_of_neg (by simp [isConcerned])]
      | true =>
          rw [keep]
          split
          · next redundant =>
            cases event with
            | changed other =>
                rw [isRedundant_changed_iff, concerns_congr isConcerned] at redundant
                exact redundant
            | created other => cases redundant
            | removed other => cases redundant
            | rescan => cases isConcerned
          · rw [List.find?_cons_of_pos isConcerned]

theorem exists_changed_of_isRedundant {done : List FileEvent} {path : Path}
    (redundant : (changed path).isRedundant (done.foldl keep []) = true) :
    ∃ before file between, done = before ++ changed file :: between ∧ (file == path) = true ∧
      ∀ event ∈ between, event.concerns path = false := by
  rw [isRedundant_changed_iff, find?_kept, Option.map_eq_some_iff] at redundant
  obtain ⟨last, isLast, isChange⟩ := redundant
  obtain ⟨isConcerned, after, earlier, isDone, none⟩ := List.find?_eq_some_iff_append.mp isLast
  cases last with
  | changed file =>
      refine ⟨earlier.reverse, file, after.reverse, ?_, isConcerned, fun event member => ?_⟩
      · rw [← done.reverse_reverse, isDone]
        simp
      · simpa using none event (List.mem_reverse.mp member)
  | created file => cases isChange
  | removed file => cases isChange
  | rescan => cases isChange

/-- Whether, whenever an indexable file changes again with no other event of just that file in
between, nothing is gone of what the earlier change gave. -/
def Coalescible (disk : Disk) (layout : Layout) (settings : Settings) (batch : List FileEvent) :
    Prop :=
  ∀ before file between other after,
    batch = before ++ changed file :: (between ++ changed other :: after) →
    (file == other) = true → isIndexable layout.root file = true →
    (∀ event ∈ between, event.concerns other = false) → Spare disk layout settings file between

theorem coalescible_nil (disk : Disk) (layout : Layout) (settings : Settings) :
    Coalescible disk layout settings [] := by
  intro before file between other after isSplit
  have isEmpty := congrArg List.length isSplit
  simp at isEmpty

theorem Coalescible.cons {disk : Disk} {layout : Layout} {settings : Settings} {event : FileEvent}
    {rest : List FileEvent} (coalescible : Coalescible disk layout settings rest)
    (next : ∀ file other, event = changed file → changed other ∈ rest → (file == other) = true →
      Spare disk layout settings file (rest.takeWhile fun later => !later.concerns other)) :
    Coalescible disk layout settings (event :: rest) := by
  intro before file between other after isSplit same indexable apart
  cases before with
  | nil =>
      obtain ⟨rfl, rfl⟩ := List.cons.inj isSplit
      have isBetween : (between ++ changed other :: after).takeWhile
          (fun later => !later.concerns other) = between := by
        rw [List.takeWhile_append_of_pos fun later member => by rw [apart later member]; rfl]
        have isConcerned : (changed other).concerns other = true := BEq.rfl
        rw [List.takeWhile_cons_of_neg (by simp [isConcerned]), List.append_nil]
      have spare := next file other rfl (by simp) same
      rwa [isBetween] at spare
  | cons head before =>
      obtain ⟨rfl, isRest⟩ := List.cons.inj isSplit
      exact coalescible before file between other after isRest same indexable apart

theorem Coalescible.of_append {disk : Disk} {layout : Layout} {settings : Settings}
    {done rest : List FileEvent} (coalescible : Coalescible disk layout settings (done ++ rest)) :
    Coalescible disk layout settings done := by
  rintro before file between other after rfl
  exact coalescible before file between other (after ++ rest) (by simp)

end FileEvent

open FileEvent

namespace Tracker

theorem applyBatch_concat (disk : Disk) (tracker : Tracker) (done : List FileEvent)
    (event : FileEvent) :
    tracker.applyBatch disk (done ++ [event]) =
      if event.isRedundant (done.foldl keep []) then tracker.applyBatch disk done
      else (tracker.applyBatch disk done).apply disk event := by
  rw [applyBatch, coalesce, List.foldl_append]
  change (keep (done.foldl keep []) event).reverse.foldl (apply disk) tracker = _
  rw [keep]
  split
  · rfl
  · rw [List.reverse_cons, List.foldl_append]
    rfl

section Batch

variable {disk : Disk} {layout : Layout} {settings : Settings} {tracker : Tracker}
  {above : List Text} {done : List FileEvent} {event : FileEvent}

/-- What holds between the events of a batch that are done with and the tracker that has applied
only those of them that were kept. -/
structure InStep (disk : Disk) (layout : Layout) (settings : Settings) (tracker : Tracker)
    (done : List FileEvent) : Prop where
  sound : (tracker.applyBatch disk done).Sound
  fullSound : (done.foldl (apply disk) tracker).Sound
  sameLayout : (tracker.applyBatch disk done).layout = layout
  sameSettings : (tracker.applyBatch disk done).settings = settings
  sourcesProper : tracker.SourcesProper → (tracker.applyBatch disk done).SourcesProper
  alike : Alike disk (tracker.applyBatch disk done) (done.foldl (apply disk) tracker)
  retains : ∀ before file between, done = before ++ .changed file :: between →
    isIndexable layout.root file = true → (∀ event ∈ between, event.concerns file = false) →
      Retains disk file between (tracker.applyBatch disk done)
  swept : FileEvent.rescan.isRedundant (done.foldl keep []) = true →
    Swept disk (tracker.applyBatch disk done)

theorem inStep_nil (disk : Disk) (sound : tracker.Sound) :
    InStep disk tracker.layout tracker.settings tracker [] where
  sound := sound
  fullSound := sound
  sameLayout := rfl
  sameSettings := rfl
  sourcesProper := id
  alike := .refl disk tracker
  retains before file between isSplit := by
    have isEmpty := congrArg List.length isSplit
    simp at isEmpty
  swept := nofun

theorem concat_eq_cons_cases {before between : List FileEvent} {other : FileEvent}
    (isSplit : done ++ [event] = before ++ other :: between) :
    between = [] ∧ event = other ∨
      ∃ inner, between = inner ++ [event] ∧ done = before ++ other :: inner := by
  rcases List.eq_nil_or_concat between with rfl | ⟨inner, last, isConcat⟩
  · obtain ⟨_, isLast⟩ := List.append_inj' isSplit rfl
    exact .inl ⟨rfl, List.singleton_inj.mp isLast⟩
  · rw [List.concat_eq_append] at isConcat
    subst isConcat
    rw [← List.cons_append, ← List.append_assoc] at isSplit
    obtain ⟨isDone, isLast⟩ := List.append_inj' isSplit rfl
    obtain rfl := List.singleton_inj.mp isLast
    exact .inr ⟨inner, rfl, isDone⟩

variable (inStep : InStep disk layout settings tracker done) (root : layout.root.Denotes above)
include inStep root

theorem InStep.retains_of_isRedundant {path : Path}
    (below : ∀ event ∈ done ++ [.changed path], event.Below layout.root)
    (coalescible : Coalescible disk layout settings (done ++ [.changed path]))
    (redundant : (FileEvent.changed path).isRedundant (done.foldl keep []) = true)
    (indexable : isIndexable layout.root path = true) :
    Retains disk path [] (tracker.applyBatch disk done) := by
  obtain ⟨before, file, between, isDone, same, apart⟩ := exists_changed_of_isRedundant redundant
  subst isDone
  obtain ⟨names, areNames, rfl⟩ := below (.changed file) (by simp) file rfl
  obtain ⟨more, areMore, rfl⟩ := below (.changed path) (by simp) path rfl
  have isFile := root.spells.eq_of_beq_descend areNames areMore same
  rw [isFile] at coalescible inStep ⊢
  have retains := inStep.retains before _ between rfl indexable apart
  refine retains.of_spare ?_
  rw [inStep.sameLayout, inStep.sameSettings]
  exact coalescible before _ between _ [] (by simp) BEq.rfl indexable apart

variable (below : ∀ other ∈ done ++ [event], other.Below layout.root)
include below

theorem InStep.drop (coalescible : Coalescible disk layout settings (done ++ [event]))
    (redundant : event.isRedundant (done.foldl keep []) = true) :
    InStep disk layout settings tracker (done ++ [event]) := by
  have isBelow : event.Below layout.root := below event (by simp)
  have isBatch := applyBatch_concat disk tracker done event
  have isKept : (done ++ [event]).foldl keep [] = done.foldl keep [] := by
    rw [List.foldl_concat, keep, redundant, if_pos rfl]
  rw [redundant, if_pos rfl] at isBatch
  have spelled := @FileEvent.Below.spelled layout disk event above isBelow root.spells
  rw [← inStep.sameLayout] at spelled
  -- Applying the redundant event after all would make no difference.
  have unchanged : Alike disk ((tracker.applyBatch disk done).apply disk event)
      (tracker.applyBatch disk done) := by
    cases event with
    | changed path =>
        obtain ⟨names, areNames, rfl⟩ := isBelow path rfl
        refine alike_changed_of_retains inStep.sound (root.descend areNames) fun indexable => ?_
        rw [inStep.sameLayout] at indexable
        exact inStep.retains_of_isRedundant root below coalescible redundant indexable
    | created path => cases redundant
    | removed path => cases redundant
    | rescan => exact alike_rescan_of_swept inStep.sound (inStep.swept redundant) spelled
  constructor
  case sound => exact isBatch ▸ inStep.sound
  case fullSound =>
    rw [List.foldl_concat]
    exact sound_apply inStep.fullSound event
  case sameLayout => exact isBatch ▸ inStep.sameLayout
  case sameSettings => exact isBatch ▸ inStep.sameSettings
  case sourcesProper => exact isBatch ▸ inStep.sourcesProper
  case alike =>
    rw [isBatch, List.foldl_concat]
    exact unchanged.symm.trans (inStep.alike.apply inStep.sound inStep.fullSound spelled)
  case retains =>
    intro before file between isSplit indexable apart
    rw [isBatch]
    rcases concat_eq_cons_cases isSplit with ⟨rfl, rfl⟩ | ⟨inner, rfl, isDone⟩
    · exact inStep.retains_of_isRedundant root below coalescible redundant indexable
    · have retains := inStep.retains before file inner isDone indexable fun other member =>
        apart other (List.mem_append_left _ member)
      cases event with
      | changed path => exact retains.skip_changed (apart (.changed path) (by simp))
      | created path => cases redundant
      | removed path => cases redundant
      | rescan =>
          obtain ⟨names, areNames, rfl⟩ := below (.changed file) (by simp [isDone]) file rfl
          refine retains.skip_rescan (inStep.swept redundant) ?_
          rw [inStep.sameLayout]
          exact isBelow.eq_of_source root.spells areNames
  case swept =>
    rw [isBatch, isKept]
    exact inStep.swept

theorem InStep.keep (proper : event = .rescan → tracker.SourcesProper)
    (kept : event.isRedundant (done.foldl keep []) = false) :
    InStep disk layout settings tracker (done ++ [event]) := by
  have isBelow : event.Below layout.root := below event (by simp)
  have isBatch := applyBatch_concat disk tracker done event
  have isKept :
      (done ++ [event]).foldl FileEvent.keep [] = event :: done.foldl FileEvent.keep [] := by
    rw [List.foldl_concat, FileEvent.keep, kept, if_neg Bool.false_ne_true]
  rw [kept, if_neg Bool.false_ne_true] at isBatch
  have sources (file : Path) (member : file ∈ event.sources disk layout) : layout.Proper file :=
    isBelow.proper root.spells member
  have spelled := @FileEvent.Below.spelled layout disk event above isBelow root.spells
  obtain ⟨sameLayout, sameSettings⟩ := sameSetup_apply disk (tracker.applyBatch disk done) event
  obtain rfl := inStep.sameLayout
  obtain rfl := inStep.sameSettings
  constructor
  case sound => exact isBatch ▸ sound_apply inStep.sound event
  case fullSound =>
    rw [List.foldl_concat]
    exact sound_apply inStep.fullSound event
  case sameLayout => exact isBatch ▸ sameLayout
  case sameSettings => exact isBatch ▸ sameSettings
  case sourcesProper =>
    intro sourcesProper
    rw [isBatch]
    exact (inStep.sourcesProper sourcesProper).apply inStep.sound sources
  case alike =>
    rw [isBatch, List.foldl_concat]
    exact inStep.alike.apply inStep.sound inStep.fullSound spelled
  case retains =>
    intro before file between isSplit indexable apart
    rw [isBatch]
    rcases concat_eq_cons_cases isSplit with ⟨rfl, rfl⟩ | ⟨inner, rfl, isDone⟩
    · obtain ⟨names, areNames, rfl⟩ := isBelow file rfl
      exact retains_changed inStep.sound (root.descend areNames) indexable
    · obtain ⟨names, areNames, rfl⟩ := below (.changed file) (by simp [isDone]) file rfl
      have retains := inStep.retains before _ inner isDone indexable fun other member =>
        apart other (List.mem_append_left _ member)
      exact retains.apply root areNames inStep.sound isBelow fun isRescan =>
        inStep.sourcesProper (proper isRescan)
  case swept =>
    rw [isBatch, isKept]
    intro isLast
    cases event with
    | rescan => exact swept_rescan inStep.sound (inStep.sourcesProper (proper rfl))
    | changed path => cases isLast
    | created path => cases isLast
    | removed path => cases isLast

end Batch

/-- A batch of events at or below the root leads to the same contents whether its redundant events
are dropped or applied as well. For a scan in the batch all sources have to be files of the
workspace: it forgets others, and with them pointers that the next scan would find again. -/
theorem coalescing_is_invisible {disk : Disk} {tracker : Tracker} {names : List Text}
    {batch : List FileEvent} (reachable : tracker.Reachable)
    (numbered : ∀ file, tracker.appliedTo file ≤ tracker.sequence)
    (proper : .rescan ∈ batch → tracker.SourcesProper)
    (root : tracker.layout.root.Denotes names)
    (below : ∀ event ∈ batch, event.Below tracker.layout.root)
    (coalescible : Coalescible disk tracker.layout tracker.settings batch) :
    SameContents (tracker.applyBatch disk batch) (batch.foldl (apply disk) tracker) := by
  have inStep : InStep disk tracker.layout tracker.settings tracker batch := by
    obtain ⟨events, rfl⟩ : ∃ events, batch = events.reverse := ⟨batch.reverse, by simp⟩
    induction events with
    | nil => exact inStep_nil disk ⟨reachable.coupled, numbered⟩
    | cons event earlier ih =>
        rw [List.reverse_cons] at proper below coalescible ⊢
        have before := ih (fun member => proper (List.mem_append_left _ member))
          (fun other member => below other (List.mem_append_left _ member)) coalescible.of_append
        cases redundant : event.isRedundant (earlier.reverse.foldl keep []) with
        | true => exact before.drop root below coalescible redundant
        | false =>
            refine before.keep root below (fun isRescan => proper ?_) redundant
            simp [isRescan]
  exact inStep.alike.sameContents inStep.sound inStep.fullSound

theorem coalescing_is_invisible_of_restored_folder :
    let layout : Layout := ⟨.ofText "/w".toList, []⟩
    let folder := layout.root.descend ["d".toList]
    let file := layout.root.descend ["d".toList, "f.md".toList]
    let text := "@m/x.rs:L1".toList
    let disk :=
      (Disk.empty.write file ⟨.text text, 0⟩).write (.ofText "/w/m/x.rs".toList) ⟨.text [], 0⟩
    let tracker := (Tracker.ofLayout layout .default).apply disk .rescan
    let batch : List FileEvent :=
      [.changed file, .removed folder, .created folder, .changed file, .rescan, .rescan]
    tracker.Reachable ∧ (∀ file, tracker.appliedTo file ≤ tracker.sequence) ∧
      tracker.SourcesProper ∧ tracker.layout.root.Denotes ["w".toList] ∧
      (∀ event ∈ batch, event.Below tracker.layout.root) ∧
      Coalescible disk tracker.layout tracker.settings batch ∧
      SameContents (tracker.applyBatch disk batch) (batch.foldl (apply disk) tracker) ∧
      (coalesce batch).length = 4 ∧ (tracker.applyBatch disk batch).index.size = 1 := by
  intro layout folder file text disk tracker batch
  have new : (Tracker.ofLayout layout .default).Reachable := ⟨_, _, .refl _⟩
  have reachable : tracker.Reachable := new.apply disk .rescan
  have root : layout.root.Denotes ["w".toList] :=
    Path.Spells.denotes_of_last rfl rfl (by decide)
  have rescanBelow : FileEvent.rescan.Below layout.root := nofun
  have history : History layout .default tracker :=
    .apply .start disk .rescan fun _ member => rescanBelow.proper root.spells member
  have below : ∀ event ∈ batch, event.Below layout.root := by
    simp only [batch, List.forall_mem_cons]
    refine ⟨?_, ?_, ?_, ?_, nofun, nofun, nofun⟩
    all_goals exact fun path isPath => ⟨_, by decide, (Option.some.inj isPath).symm⟩
  have readsText : disk.reading? .default file = some text := by decide +kernel
  have isThere :
      isGone (reads disk layout file) file [.removed folder, .created folder] = false := by
    decide +kernel
  have targetsStay : (extract disk layout text).all (fun tracked =>
      tracked.target?.all fun target =>
        !isGone (renews disk layout file) target [.removed folder, .created folder]) = true := by
    decide +kernel
  have spare : Spare disk layout .default file [.removed folder, .created folder] := by
    intro found isFound
    obtain rfl := Option.some.inj (readsText.symm.trans isFound)
    refine ⟨isThere, fun tracked member target isTarget => ?_⟩
    have stays := List.all_eq_true.mp targetsStay tracked member
    simpa [isTarget] using stays
  have apart : (folder == file) = false := by decide +kernel
  have rescan : Coalescible disk layout .default [.rescan] :=
    (coalescible_nil disk layout .default).cons nofun
  have rescans : Coalescible disk layout .default [.rescan, .rescan] := rescan.cons nofun
  have changedAgain : Coalescible disk layout .default [.changed file, .rescan, .rescan] :=
    rescans.cons fun _ _ _ later => by simp at later
  have restored : Coalescible disk layout .default
      [.created folder, .changed file, .rescan, .rescan] := changedAgain.cons nofun
  have removed : Coalescible disk layout .default
      [.removed folder, .created folder, .changed file, .rescan, .rescan] := restored.cons nofun
  have coalescible : Coalescible disk layout .default batch := by
    refine removed.cons fun changed other isChanged later _ => ?_
    obtain rfl := FileEvent.changed.inj isChanged
    obtain rfl : other = file := by simpa using later
    have isBetween : [.removed folder, .created folder, .changed file, .rescan, .rescan].takeWhile
        (fun later => !concerns file later) = [.removed folder, .created folder] := by
      simp [List.takeWhile, concerns, path?, apart]
    rwa [isBetween]
  have tidy := history.tidy
  have trackerRoot : tracker.layout.root.Denotes ["w".toList] := by rwa [tidy.layout]
  have trackerBelow : ∀ event ∈ batch, event.Below tracker.layout.root := by rwa [tidy.layout]
  have trackerCoalescible : Coalescible disk tracker.layout tracker.settings batch := by
    rwa [tidy.layout, tidy.settings]
  have same := coalescing_is_invisible reachable tidy.sound.numbered (fun _ => tidy.sourcesProper)
    trackerRoot trackerBelow trackerCoalescible
  exact ⟨reachable, tidy.sound.numbered, tidy.sourcesProper, trackerRoot, trackerBelow,
    trackerCoalescible, same, by decide +kernel, by decide +kernel⟩

/-- The removal of a folder also takes its files, which are not heard of again when the change of
one of them is dropped behind it. -/
theorem coalescing_shows_behind_removed_folder :
    let layout : Layout := ⟨.ofText "/w".toList, []⟩
    let folder := layout.root.descend ["d".toList]
    let file := layout.root.descend ["d".toList, "f.md".toList]
    let disk := (Disk.empty.write file ⟨.text "@m/x.rs:L1".toList, 0⟩).write
      (.ofText "/w/m/x.rs".toList) ⟨.text [], 0⟩
    let tracker := Tracker.ofLayout layout .default
    let batch : List FileEvent := [.changed file, .removed folder, .changed file]
    disk.isFile file = true ∧ tracker.Reachable ∧
      ¬SameContents (tracker.applyBatch disk batch) (batch.foldl (apply disk) tracker) := by
  intro layout folder file disk tracker batch
  refine ⟨by decide +kernel, ⟨_, _, .refl _⟩, fun same => ?_⟩
  have sameTracked := congrArg Option.isSome (same.tracked file)
  revert sameTracked
  decide +kernel

end Tracker

end CodePointers
