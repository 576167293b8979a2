import CodePointers.Proofs.Tracker.Histories

/-!
Sources that no scan reads: files outside of the workspace or in excluded folders, and files without
an indexed extension, that were reindexed one by one. A completed scan forgets them as if they were
deleted, so that a pointer at one of them is pending afterwards although its target is there.
-/

namespace CodePointers

namespace Tracker

/-- What a completed scan leaves of the pointers in the files that it reads: all of them, each with
the target that it has on the disk, unless that is a stray source. -/
structure ResolvesButStrays (disk : Disk) (session : Session) (after : Tracker) : Prop where
  pointers : ∀ file ∈ session.tracker.layout.indexableFiles disk, ∃ text,
    session.reading? disk file = some text ∧
      after.pointersOf file = (extract disk session.tracker.layout text).map
        (releaseFrom (session.tracker.isStray disk))
  target_eq : ∀ file ∈ session.tracker.layout.indexableFiles disk,
    ∀ tracked ∈ after.pointersOf file, tracked.target? =
      (session.tracker.layout.target? disk tracked.pointer).filter fun target =>
        !session.tracker.isStray disk target
  stored : ∀ file ∈ session.tracker.layout.indexableFiles disk, ∀ text,
    session.reading? disk file = some text → ∀ target lines,
      after.index.stored? target lines file =
        if session.tracker.isStray disk target then none
        else (lastInto? (extract disk session.tracker.layout text) target lines).map
          (·.reference file)
  others : ∀ source, (after.tracked.get? source).isSome →
    ∃ file ∈ session.tracker.layout.indexableFiles disk, (file == source) = true
  resolved_iff : (∀ file ∈ session.tracker.layout.indexableFiles disk,
      ∀ tracked ∈ after.pointersOf file,
        tracked.target? = session.tracker.layout.target? disk tracked.pointer) ↔
    ∀ file ∈ session.tracker.layout.indexableFiles disk, ∀ tracked ∈ after.pointersOf file,
      ∀ target, session.tracker.layout.target? disk tracked.pointer = some target →
        session.tracker.isStray disk target = false
  resolved_of_proper : session.tracker.SourcesProper →
    ∀ file ∈ session.tracker.layout.indexableFiles disk, ∀ tracked ∈ after.pointersOf file,
      tracked.target? = session.tracker.layout.target? disk tracked.pointer

theorem filter_eq_self_iff {target? : Option Path} {gone : Path → Bool} :
    (target?.filter fun target => !gone target) = target? ↔
      ∀ target, target? = some target → gone target = false := by
  cases target? with
  | none => simp
  | some target => cases isGone : gone target <;> simp [Option.filter, isGone]

section

variable {disk : Disk} {session : Session} {read : Tracker} {file : Path} {text : Text}
  (scansBy : Session.ScansBy disk session read)
  (member : file ∈ session.tracker.layout.indexableFiles disk)
  (isText : session.reading? disk file = some text)
include scansBy member isText

theorem pointersOf_scan : (session.scan disk).2.tracker.pointersOf file =
    (extract disk session.tracker.layout text).map
      (releaseFrom (session.tracker.isStray disk)) := by
  rw [scansBy.drops.pointersOf, isStray_eq_false_of_mem member, if_neg Bool.false_ne_true,
    (scansBy.rereads.read file member text isText).pointersOf]

theorem target?_of_mem_scan {tracked : TrackedPointer}
    (inPointers : tracked ∈ (session.scan disk).2.tracker.pointersOf file) :
    tracked.target? = (session.tracker.layout.target? disk tracked.pointer).filter fun target =>
      !session.tracker.isStray disk target := by
  rw [pointersOf_scan scansBy member isText] at inPointers
  obtain ⟨own, inText, rfl⟩ := List.mem_map.mp inPointers
  rw [releaseFrom, target?_of_mem_extract inText]

theorem stored?_scan (target : Path) (lines : LineRange) :
    (session.scan disk).2.tracker.index.stored? target lines file =
      if session.tracker.isStray disk target then none
      else (lastInto? (extract disk session.tracker.layout text) target lines).map
        (·.reference file) := by
  rw [scansBy.drops.stored, isStray_eq_false_of_mem member,
    (scansBy.rereads.read file member text isText).stored]
  simp only [Bool.false_eq_true, or_false]

end

/-- After a completed scan without failures the pointers of the files that it reads are resolved as
the disk has it, except for those at stray sources, which are pending. -/
theorem scan_resolves_but_strays {disk : Disk} {session : Session}
    (reachable : session.tracker.Reachable)
    (numbered : ∀ file, session.tracker.appliedTo file ≤ session.tracker.sequence)
    (undisturbed : session.Undisturbed) (completed : (session.scan disk).1.cancelled = false)
    (noFailures : (session.scan disk).1.filesFailed = 0) :
    ResolvesButStrays disk session (session.scan disk).2.tracker := by
  obtain ⟨read, scansBy⟩ :=
    Session.exists_scansBy undisturbed ⟨reachable.coupled, numbered⟩ completed
  have isRead (file : Path) (member : file ∈ session.tracker.layout.indexableFiles disk) :
      ∃ text, session.reading? disk file = some text :=
    Option.isSome_iff_exists.mp (scansBy.complete noFailures file member)
  have target_eq (file : Path) (member : file ∈ session.tracker.layout.indexableFiles disk)
      (tracked : TrackedPointer)
      (inPointers : tracked ∈ (session.scan disk).2.tracker.pointersOf file) :
      tracked.target? = (session.tracker.layout.target? disk tracked.pointer).filter fun target =>
        !session.tracker.isStray disk target := by
    obtain ⟨text, isText⟩ := isRead file member
    exact target?_of_mem_scan scansBy member isText inPointers
  constructor
  · intro file member
    obtain ⟨text, isText⟩ := isRead file member
    exact ⟨text, isText, pointersOf_scan scansBy member isText⟩
  · exact target_eq
  · exact fun file member text isText => stored?_scan scansBy member isText
  · intro source isTracked
    rw [scansBy.drops.tracked] at isTracked
    split at isTracked
    · cases isTracked
    · next notStray =>
      by_contra notScanned
      have apart (file : Path) (member : file ∈ session.tracker.layout.indexableFiles disk) :
          (file == source) = false :=
        Bool.eq_false_iff.mpr fun same => notScanned ⟨file, member, same⟩
      rw [(scansBy.rereads.others source apart).tracked, Option.isSome_map] at isTracked
      exact notStray (isStray_iff.mpr ⟨isTracked, apart⟩)
  · refine forall₂_congr fun file member => forall₂_congr fun tracked inPointers => ?_
    rw [target_eq file member tracked inPointers, filter_eq_self_iff]
  · intro proper file member tracked inPointers
    rw [target_eq file member tracked inPointers, filter_eq_self_iff]
    intro target isTarget
    exact isStray_eq_false_of_isFile proper member (Layout.isFile_of_target? isTarget)

theorem scan_resolves_but_strays_of_two_pointers :
    let layout : Layout := ⟨.ofText "/ws".toList, []⟩
    let file := Path.ofText "/ws/a.md".toList
    let stray := Path.ofText "/lib/x.md".toList
    let disk := ((Disk.empty.write file ⟨.text "@m/x.rs:L1 @lib/x.md:L1".toList, 0⟩).write stray
      ⟨.text [], 0⟩).write (.ofText "/ws/m/x.rs".toList) ⟨.text [], 0⟩
    let session : Session :=
      { tracker := (Tracker.ofLayout layout .default).perform disk
          (.reindex stray "@m/x.rs:L1".toList) }
    session.tracker.Reachable ∧
      (∀ file, session.tracker.appliedTo file ≤ session.tracker.sequence) ∧
      session.Undisturbed ∧ (session.scan disk).1.cancelled = false ∧
      (session.scan disk).1.filesFailed = 0 ∧
      ResolvesButStrays disk session (session.scan disk).2.tracker ∧
      ((session.scan disk).2.tracker.pointersOf file).length = 2 ∧
      (session.scan disk).2.tracker.index.size = 1 := by
  intro layout file stray disk session
  have reachable : session.tracker.Reachable := ⟨_, _, .perform disk (.reindex _ _) (.refl _)⟩
  have sound : session.tracker.Sound :=
    (sound_ofLayout layout .default).moves
      (Session.moves_reindex disk (Guard.given_admits stray) _ _)
  have completed : (session.scan disk).1.cancelled = false := Session.completed_scan disk rfl
  have noFailures : (session.scan disk).1.filesFailed = 0 := by decide +kernel
  exact ⟨reachable, sound.numbered, rfl, completed, noFailures,
    scan_resolves_but_strays reachable sound.numbered rfl completed noFailures,
    by decide +kernel, by decide +kernel⟩

/-- A pointer at a file beside the workspace loses its target when the file was reindexed before,
and has it again after one more scan. -/
theorem not_resolved_at_stray_source :
    let layout : Layout := ⟨.ofText "/ws".toList, []⟩
    let file := Path.ofText "/ws/a.md".toList
    let stray := Path.ofText "/lib/x.md".toList
    let text := "@lib/x.md:L1".toList
    let disk := (Disk.empty.write file ⟨.text text, 0⟩).write stray ⟨.text text, 0⟩
    let session : Session :=
      { tracker := (Tracker.ofLayout layout .default).perform disk (.reindex stray text) }
    let once := (session.scan disk).2
    session.tracker.Reachable ∧
      (∀ file, session.tracker.appliedTo file ≤ session.tracker.sequence) ∧
      session.Undisturbed ∧ (session.scan disk).1.cancelled = false ∧
      (session.scan disk).1.filesFailed = 0 ∧ disk.isFile stray = true ∧
      ¬(∀ file ∈ layout.indexableFiles disk, ∀ tracked ∈ once.tracker.pointersOf file,
        tracked.target? = layout.target? disk tracked.pointer) ∧
      once.tracker.pendingCount = 1 ∧ (once.scan disk).2.tracker.pendingCount = 0 := by
  intro layout file stray text disk session once
  have reachable : session.tracker.Reachable := ⟨_, _, .perform disk (.reindex _ _) (.refl _)⟩
  have sound : session.tracker.Sound :=
    (sound_ofLayout layout .default).moves
      (Session.moves_reindex disk (Guard.given_admits stray) _ _)
  have completed : (session.scan disk).1.cancelled = false := Session.completed_scan disk rfl
  have noFailures : (session.scan disk).1.filesFailed = 0 := by decide +kernel
  refine ⟨reachable, sound.numbered, rfl, completed, noFailures, by decide +kernel,
    fun resolved => ?_, by decide +kernel, by decide +kernel⟩
  have sameHere : ∀ file ∈ layout.indexableFiles disk, ∀ tracked ∈ once.tracker.pointersOf file,
      tracked.target?.isSome = (layout.target? disk tracked.pointer).isSome :=
    fun file member tracked inPointers => congrArg Option.isSome
      (resolved file member tracked inPointers)
  revert sameHere
  decide +kernel

end Tracker

end CodePointers
