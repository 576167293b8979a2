import CodePointers.Proofs.ReferenceIndex.Files
import CodePointers.Proofs.Resolution.StraightLayouts
import CodePointers.Proofs.Tracker.Coupling

/-!
What is true of everything that scanned pointers can be resolved to is true of all targets of a
tracker, also as the index spells them. So they lie where the layout lets pointers lead, and in a
plain layout they are places on the disk: each target denotes what some names lead to, on every disk
alike.
-/

namespace CodePointers.Tracker

/-! The targets that the index lists come from the pointers. -/

theorem mem_files_addReference {source file : Path} {index : ReferenceIndex}
    {tracked : TrackedPointer} (member : file ∈ (addReference source index tracked).files) :
    tracked.target? = some file ∨ file ∈ index.files := by
  unfold addReference at member
  split at member
  · exact .inr member
  · next target isTarget =>
    rcases ReferenceIndex.mem_files_insert member with rfl | before
    · exact .inl isTarget
    · exact .inr before

theorem mem_files_foldl_addReference {source file : Path} {index : ReferenceIndex}
    {pointers : List TrackedPointer}
    (member : file ∈ (pointers.foldl (addReference source) index).files) :
    (∃ tracked ∈ pointers, tracked.target? = some file) ∨ file ∈ index.files := by
  induction pointers generalizing index with
  | nil => exact .inr member
  | cons head rest ih =>
      rcases ih member with ⟨tracked, inRest, isTarget⟩ | before
      · exact .inl ⟨tracked, List.mem_cons_of_mem _ inRest, isTarget⟩
      · rcases mem_files_addReference before with isTarget | before
        · exact .inl ⟨head, List.mem_cons_self, isTarget⟩
        · exact .inr before

theorem mem_files_addSources {file : Path} {index : ReferenceIndex}
    {found : List (Path × List TrackedPointer)} (member : file ∈ (addSources index found).files) :
    (∃ entry ∈ found, ∃ tracked ∈ entry.2, tracked.target? = some file) ∨ file ∈ index.files := by
  induction found generalizing index with
  | nil => exact .inr member
  | cons head rest ih =>
      rcases ih member with ⟨entry, inRest, isTarget⟩ | before
      · exact .inl ⟨entry, List.mem_cons_of_mem _ inRest, isTarget⟩
      · rcases mem_files_foldl_addReference before with isTarget | before
        · exact .inl ⟨head, List.mem_cons_self, isTarget⟩
        · exact .inr before

/-! What all targets have in common. -/

/-- Whether all targets of a tracker have a property, and all that it can resolve pointers to. -/
structure Aims (property : Path → Prop) (tracker : Tracker) : Prop where
  resolved : ∀ disk pointer target, pointer.HasPlainModule →
    tracker.layout.target? disk pointer = some target → property target
  modules : ∀ source, ∀ tracked ∈ tracker.pointersOf source, tracked.pointer.HasPlainModule
  targets : ∀ source, ∀ tracked ∈ tracker.pointersOf source, ∀ target,
    tracked.target? = some target → property target
  files : ∀ file ∈ tracker.index.files, property file

theorem aims_ofLayout {property : Path → Prop} {layout : Layout} (settings : Settings)
    (resolved : ∀ disk pointer target, pointer.HasPlainModule →
      layout.target? disk pointer = some target → property target) :
    (ofLayout layout settings).Aims property :=
  ⟨resolved, nofun, nofun, nofun⟩

section

variable {property : Path → Prop} {tracker : Tracker} (aims : tracker.Aims property) (disk : Disk)
include aims

theorem Aims.of_mem_extract {text : Text} {tracked : TrackedPointer} {target : Path}
    (member : tracked ∈ extract disk tracker.layout text)
    (isTarget : tracked.target? = some target) : property target := by
  have plainModule := hasPlainModule_of_mem_extract member
  rw [target?_of_mem_extract member] at isTarget
  exact aims.resolved disk _ target plainModule isTarget

theorem Aims.of_renew {source : Path} {tracked : TrackedPointer} {target : Path}
    (member : tracked ∈ tracker.pointersOf source)
    (isTarget : (renew disk tracker.layout tracked).target? = some target) : property target := by
  cases before : tracked.target? with
  | some own =>
      rw [renew, before] at isTarget
      exact aims.targets source tracked member target isTarget
  | none =>
      rw [renew, before] at isTarget
      exact aims.resolved disk _ target (aims.modules source tracked member) isTarget

theorem Aims.reindexAt (file : Path) (text : Text) (number : Nat) :
    (tracker.reindexAt disk file text number).1.Aims property := by
  by_cases older : number < tracker.appliedTo file
  · rw [reindexAt_of_lt older]
    exact aims
  constructor
  case resolved =>
    rw [layout_reindexAt]
    exact aims.resolved
  case modules =>
    intro source tracked member
    rw [pointersOf_reindexAt older] at member
    split at member
    · exact hasPlainModule_of_mem_extract member
    · exact aims.modules source tracked member
  case targets =>
    intro source tracked member target isTarget
    rw [pointersOf_reindexAt older] at member
    split at member
    · exact aims.of_mem_extract disk member isTarget
    · exact aims.targets source tracked member target isTarget
  case files =>
    intro target member
    rw [Tracker.reindexAt, if_neg older] at member
    rcases mem_files_foldl_addReference member with ⟨tracked, inText, isTarget⟩ | before
    · exact aims.of_mem_extract disk inText isTarget
    · exact aims.files target (tracker.index.files_removeOutbound_subset file before)

theorem Aims.forget (file : Path) : (tracker.forget file).Aims property := by
  have released {source : Path} {tracked : TrackedPointer}
      (member : tracked ∈ (tracker.forget file).pointersOf source) :
      ∃ old ∈ tracker.pointersOf source, release file old = tracked := by
    rw [pointersOf_forget] at member
    split at member
    · cases member
    · exact List.mem_map.mp member
  refine ⟨aims.resolved, ?_, ?_, ?_⟩
  · intro source tracked member
    obtain ⟨old, inOld, rfl⟩ := released member
    rw [release_eq]
    exact aims.modules source old inOld
  · intro source tracked member target isTarget
    obtain ⟨old, inOld, rfl⟩ := released member
    rw [release_eq] at isTarget
    exact aims.targets source old inOld target (Option.mem_filter_iff.mp isTarget).1
  · exact fun target member =>
      aims.files target (tracker.index.files_removeFile_subset file member)

theorem Aims.retryPending : (tracker.retryPending disk).1.Aims property := by
  refine ⟨aims.resolved, ?_, ?_, ?_⟩
  · intro source tracked member
    rw [pointersOf_retryPending] at member
    obtain ⟨old, inOld, rfl⟩ := List.mem_map.mp member
    have same : (renew disk tracker.layout old).pointer = old.pointer := by
      unfold renew
      split <;> rfl
    rw [same]
    exact aims.modules source old inOld
  · intro source tracked member target isTarget
    rw [pointersOf_retryPending] at member
    obtain ⟨old, inOld, rfl⟩ := List.mem_map.mp member
    exact aims.of_renew disk inOld isTarget
  · intro target member
    rcases mem_files_addSources member with ⟨entry, inFound, tracked, inEntry, isTarget⟩ | before
    · obtain ⟨⟨source, pointers⟩, inTracked, rfl⟩ := List.mem_map.mp inFound
      obtain ⟨_, old, inOld, _, rfl⟩ := mem_resolvable_iff.mp inEntry
      refine @Aims.of_renew property tracker aims disk source old target ?_ isTarget
      rw [pointersOf, OrderedMap.get?_of_mem inTracked BEq.rfl]
      exact inOld
    · exact aims.files target before

end

section

variable {property : Path → Prop} {disk : Disk} {guard : Guard}

theorem Aims.move {tracker next : Tracker} (move : Move disk guard tracker next)
    (aims : tracker.Aims property) : next.Aims property := by
  cases move with
  | reserve => exact ⟨aims.resolved, aims.modules, aims.targets, aims.files⟩
  | forgetText => exact ⟨aims.resolved, aims.modules, aims.targets, aims.files⟩
  | read => exact ⟨aims.resolved, aims.modules, aims.targets, aims.files⟩
  | reindexAt file text number => exact aims.reindexAt disk file text number
  | forget file => exact aims.forget file
  | retryPending => exact aims.retryPending disk
  | clear => exact ⟨aims.resolved, nofun, nofun, nofun⟩

theorem Aims.moves {first last : Tracker} (aims : first.Aims property)
    (moves : Moves disk guard first last) : last.Aims property :=
  moves.invariant (fun _ _ move before => before.move move) aims

theorem Aims.run {first last : Tracker} (aims : first.Aims property) (run : Run first last) :
    last.Aims property :=
  run.invariant (fun _ _ _ move before => before.move move) aims

end

theorem layout_of_run {first last : Tracker} (run : Run first last) : last.layout = first.layout :=
  run.invariant (fun _ _ _ move before => move.sameSetup.1.trans before) rfl

/-- Whatever texts the files have, the index lists no target outside of the declared content roots
and of the folder above the root. -/
theorem Reachable.covers_files {tracker : Tracker} (reachable : tracker.Reachable) :
    ∀ file ∈ tracker.index.files, tracker.layout.Covers file := by
  obtain ⟨layout, settings, run⟩ := reachable
  have sameLayout : tracker.layout = layout := layout_of_run run
  have initially : (ofLayout layout settings).Aims layout.Covers :=
    aims_ofLayout settings fun _ _ _ plainModule found => Layout.covers_of_target? plainModule found
  rw [sameLayout]
  exact (initially.run run).files

theorem covers_files_of_three_pointers :
    let layout : Layout :=
      ⟨.ofText "/a/ws".toList, [⟨"lib".toList, [.ofText "/lib/../code".toList]⟩]⟩
    let registered := Path.ofText "/lib/../code/x.rs".toList
    let sibling := Path.ofText "/a/m/y.rs".toList
    let disk :=
      ((((Disk.empty.makeFolder (.ofText "/lib".toList)).write registered ⟨.text [], 0⟩).write
      sibling ⟨.text [], 0⟩).write (.ofText "/z.rs".toList) ⟨.text [], 0⟩).makeFolder layout.root
    let tracker := (Tracker.ofLayout layout .default).perform disk
      (.reindex (.ofText "/a/ws/b.md".toList) "@lib/x.rs:L1 @m/y.rs:L1 @../z.rs:L1".toList)
    tracker.Reachable ∧ tracker.index.files.map Path.segments =
        [registered.segments, sibling.segments] ∧
      ∀ file ∈ tracker.index.files, layout.Covers file := by
  intro layout registered sibling disk tracker
  have reachable : tracker.Reachable := ⟨layout, .default, .perform disk (.reindex _ _) (.refl _)⟩
  exact ⟨reachable, by decide +kernel, reachable.covers_files⟩

/-! Targets in a plain layout. -/

structure Anchored (tracker : Tracker) : Prop where
  plain : tracker.layout.Plain
  modules : ∀ source, ∀ tracked ∈ tracker.pointersOf source, tracked.pointer.HasPlainModule
  targets : ∀ source, ∀ tracked ∈ tracker.pointersOf source, ∀ target,
    tracked.target? = some target → ∃ names, target.Denotes names
  files : ∀ file ∈ tracker.index.files, ∃ names, file.Denotes names

theorem anchored_ofLayout {layout : Layout} (plain : layout.Plain) (settings : Settings) :
    (ofLayout layout settings).Anchored :=
  ⟨plain, nofun, nofun, nofun⟩

theorem Anchored.moves {disk : Disk} {guard : Guard} {first last : Tracker}
    (anchored : first.Anchored) (moves : Moves disk guard first last) : last.Anchored := by
  have aims : first.Aims fun target => ∃ names, target.Denotes names :=
    ⟨fun _ _ _ plainModule found => anchored.plain.denotes_of_target? plainModule found,
      anchored.modules, anchored.targets, anchored.files⟩
  obtain ⟨_, modules, targets, files⟩ := aims.moves moves
  refine ⟨?_, modules, targets, files⟩
  rw [moves.sameSetup.1]
  exact anchored.plain

end CodePointers.Tracker
