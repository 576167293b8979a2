import CodePointers.Proofs.Tracker.Reading
import CodePointers.Proofs.Tracker.Removals

/-!
Requests that are under way while everything beneath a path is removed. The removal fences the
files it visits, which are those that are known as sources or targets, and no others.
-/

namespace CodePointers

namespace Tracker

/-- Whether a session refuses a request, in each of the ways in which it can be carried out, and
lets nothing of the file back in. -/
structure Refuses (disk : Disk) (session : Session) (file : Path) (number : Nat) : Prop where
  text : ∀ text, session.tracker.reindexAt disk file text number =
    (session.tracker, { superseded := true })
  oversized : session.dropOversized disk file number =
    ({ superseded := true, oversized := true }, session)
  read : ∀ outcome after, session.reindexFromDisk disk file number = (.ok outcome, after) →
    outcome.superseded = true
  unchanged : session.Undisturbed → ∃ cache,
    (session.reindexFromDisk disk file number).2.tracker = { session.tracker with cache }

theorem Fenced.dropOversized {disk : Disk} {session : Session} {file : Path} {number : Nat}
    (fenced : Fenced file number session.tracker) :
    session.dropOversized disk file number =
      ({ superseded := true, oversized := true }, session) := by
  simp only [Session.dropOversized, Session.reindexAt, fenced.reindexAt]

theorem Fenced.sessionReindexAt {disk : Disk} {session : Session} {file : Path} {number : Nat}
    (fenced : Fenced file number session.tracker) (text : Text) :
    session.reindexAt disk file text number = ({ superseded := true }, session) := by
  simp only [Session.reindexAt, fenced.reindexAt]

theorem Fenced.moves {disk : Disk} {guard : Guard} {first last : Tracker} {file : Path}
    {number : Nat} (fenced : Fenced file number first) (moves : Moves disk guard first last) :
    Fenced file number last :=
  moves.invariant (fun _ _ move before => before.move move) fenced

theorem Fenced.reindexFromDisk (disk : Disk) {session : Session} {file : Path} {number : Nat}
    (fenced : Fenced file number session.tracker) :
    (session.reindexFromDisk disk file number).2 = session ∨
      (session.reindexFromDisk disk file number).2 = (session.fetch disk file).2 := by
  have fencedAfter := fenced.moves (Session.moves_fetch disk session file)
  unfold Session.reindexFromDisk
  rw [fenced.dropOversized]
  split
  · exact .inl rfl
  · split
    · next result => exact .inr (by rw [result])
    · next result =>
      rw [result] at fencedAfter ⊢
      dsimp only
      rw [fencedAfter.dropOversized, fencedAfter.sessionReindexAt]
      split <;> exact .inr rfl

theorem Fenced.superseded_reindexFromDisk {disk : Disk} {session : Session} {file : Path}
    {number : Nat} (fenced : Fenced file number session.tracker) {outcome : Outcome}
    {after : Session} (done : session.reindexFromDisk disk file number = (.ok outcome, after)) :
    outcome.superseded = true := by
  have fencedAfter := fenced.moves (Session.moves_fetch disk session file)
  unfold Session.reindexFromDisk at done
  rw [fenced.dropOversized] at done
  split at done
  · cases done
    rfl
  · split at done
    · cases done
    · next result =>
      rw [result] at fencedAfter
      dsimp only at done
      rw [fencedAfter.dropOversized, fencedAfter.sessionReindexAt] at done
      split at done <;> cases done <;> rfl

theorem Fenced.refuses {disk : Disk} {session : Session} {file : Path} {number : Nat}
    (fenced : Fenced file number session.tracker) : Refuses disk session file number where
  text text := fenced.reindexAt disk text
  oversized := fenced.dropOversized
  read _ _ done := fenced.superseded_reindexFromDisk done
  unchanged undisturbed := by
    rcases fenced.reindexFromDisk disk with same | fetched
    · exact ⟨session.tracker.cache, by rw [same]⟩
    · obtain ⟨_, cache, isFetched, _⟩ := Session.fetch_of_undisturbed disk undisturbed file
      exact ⟨cache, by rw [fetched, isFetched]⟩

theorem Reachable.forgetWithin {tracker : Tracker} (reachable : tracker.Reachable) (path : Path) :
    (tracker.forgetWithin path).Reachable := by
  obtain ⟨layout, settings, run⟩ := reachable
  exact ⟨layout, settings, run.perform .empty (.forgetWithin path)⟩

/-- Whether the removal of everything beneath a path keeps a request for a file out: the file is
known, it is the path itself, or a newer request was applied to it already. -/
def KeepsOut (tracker : Tracker) (path file : Path) (number : Nat) : Prop :=
  tracker.Knows file ∨ (file == path) = true ∨ number < tracker.appliedTo file

theorem fenced_forgetWithin_iff {tracker : Tracker} (consistent : tracker.index.Consistent)
    {path file : Path} (within : file.isWithin path = true) {number : Nat}
    (given : number ≤ tracker.sequence) :
    Fenced file number (tracker.forgetWithin path) ↔ tracker.KeepsOut path file number := by
  rw [forgetWithin, fenced_foldl_forget_iff given, exists_knownWithin_iff consistent within,
    or_assoc, KeepsOut]

/-- Everything at or beneath a removed path is gone. A request for such a file whose number was
given out before is superseded right after the removal exactly when the removal keeps it out, and
then it is refused for good, in every way of carrying it out. -/
theorem refused_after_forgetWithin_iff {earlier tracker : Tracker}
    (reachable : tracker.Reachable) (given : Run earlier.reserve tracker) {path file : Path}
    (within : file.isWithin path = true) :
    ((tracker.forgetWithin path).tracked.get? file = none ∧
      ∀ target lines, (tracker.forgetWithin path).index.stored? target lines file = none) ∧
    (∀ disk text, ((tracker.forgetWithin path).reindexAt disk file text
        earlier.nextSequence).2.superseded = true ↔
      tracker.KeepsOut path file earlier.nextSequence) ∧
    (tracker.KeepsOut path file earlier.nextSequence → ∀ disk session,
      Run (tracker.forgetWithin path) session.tracker →
        Refuses disk session file earlier.nextSequence) := by
  have consistent := reachable.coupled.consistent
  have untracked : (tracker.forgetWithin path).tracked.get? file = none := by
    rw [(drops_forgetWithin reachable.coupled path).tracked, if_pos within]
  have below : earlier.nextSequence ≤ tracker.sequence := given.sequence_le
  have belowAfter : earlier.nextSequence ≤ (tracker.forgetWithin path).sequence :=
    Nat.le_trans below (Run.sequence_le (.perform .empty (.forgetWithin path) (.refl _)))
  have fenced_iff := fenced_forgetWithin_iff consistent within below
  refine ⟨⟨untracked, (reachable.forgetWithin path).coupled.stored?_eq_none untracked⟩, ?_, ?_⟩
  · intro disk text
    rw [reindexAt_superseded_iff, ← fenced_iff]
    exact ⟨fun superseded => ⟨belowAfter, superseded⟩, fun fenced => fenced.below⟩
  · intro keepsOut disk session later
    exact ((fenced_iff.mpr keepsOut).run later).refuses

theorem refused_after_forgetWithin_of_tracked :
    let earlier : Tracker := .ofLayout ⟨.ofText ['/', 'w'], []⟩ .default
    let folder := Path.ofText ['/', 'w', '/', 'd']
    let file := Path.ofText ['/', 'w', '/', 'd', '/', 'a']
    let tracker := (earlier.reserve.reindex .empty file "see @m/x.rs:L1".toList).1
    tracker.Reachable ∧ Run earlier.reserve tracker ∧ file.isWithin folder = true ∧
      tracker.Knows file ∧ Refuses .empty { tracker := tracker.forgetWithin folder } file
        earlier.nextSequence := by
  intro earlier folder file tracker
  have given : Run earlier.reserve tracker := .perform .empty (.reindex file _) (.refl _)
  have reachable : tracker.Reachable :=
    ⟨_, _, .perform .empty (.reindex file _) (.perform .empty .reserve (.refl _))⟩
  have within : file.isWithin folder = true := by decide
  have known : tracker.Knows file := .inl (by decide)
  have refused := (refused_after_forgetWithin_iff reachable given within).2.2 (.inl known)
  refine ⟨reachable, given, within, known, ?_⟩
  clear_value tracker
  exact refused .empty { tracker := tracker.forgetWithin folder } (.refl _)

/-- A file beneath a removed folder that was not known comes back with a request from before. -/
theorem not_refused_after_forgetWithin :
    let earlier : Tracker := .ofLayout ⟨.ofText ['/', 'w'], []⟩ .default
    let folder := Path.ofText ['/', 'w', '/', 'd']
    let file := Path.ofText ['/', 'w', '/', 'd', '/', 'a']
    let text := "see @m/x.rs:L1".toList
    let answer := (earlier.reserve.forgetWithin folder).reindexAt .empty file text
      earlier.nextSequence
    earlier.reserve.Reachable ∧ file.isWithin folder = true ∧ answer.2.superseded = false ∧
      (answer.1.pointersOf file).length = 1 := by
  intro earlier folder file text answer
  exact ⟨⟨_, _, .perform .empty .reserve (.refl _)⟩, by decide, by decide, by decide⟩

end Tracker

end CodePointers
