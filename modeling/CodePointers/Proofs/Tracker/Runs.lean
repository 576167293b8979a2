import CodePointers.FileEvent
import CodePointers.Proofs.Tracker.Sources
import Mathlib.Logic.Relation

/-!
Runs of a tracker. However involved an operation is, it changes the tracker by a chain of few
kinds of moves, so that what every move preserves is preserved by every operation.
-/

namespace CodePointers

open Relation

/-- A condition on requests: the tracker that gets one, its file and its number. -/
abbrev Guard := Tracker → Path → Nat → Prop

inductive Move (disk : Disk) (guard : Guard) : Tracker → Tracker → Prop
  | reserve (tracker) : Move disk guard tracker tracker.reserve
  | forgetText (tracker file) : Move disk guard tracker (tracker.forgetText file)
  | read (tracker file) :
      Move disk guard tracker { tracker with cache := (tracker.cache.read disk file).2 }
  | reindexAt (tracker file text number) (guarded : guard tracker file number) :
      Move disk guard tracker (tracker.reindexAt disk file text number).1
  | forget (tracker file) : Move disk guard tracker (tracker.forget file)
  | retryPending (tracker) : Move disk guard tracker (tracker.retryPending disk).1
  | clear (tracker) : Move disk guard tracker tracker.clear

abbrev Moves (disk : Disk) (guard : Guard) : Tracker → Tracker → Prop :=
  ReflTransGen (Move disk guard)

theorem Moves.invariant {disk : Disk} {guard : Guard} {invariant : Tracker → Prop}
    (preserved : ∀ tracker next, Move disk guard tracker next → invariant tracker → invariant next)
    {first last : Tracker} (moves : Moves disk guard first last) (initially : invariant first) :
    invariant last := by
  induction moves with
  | refl => exact initially
  | tail _ move before => exact preserved _ _ move before

theorem Move.sequence_le {disk : Disk} {guard : Guard} {tracker next : Tracker}
    (move : Move disk guard tracker next) : tracker.sequence ≤ next.sequence := by
  cases move with
  | reserve => exact Nat.le_succ _
  | forgetText => exact Nat.le_refl _
  | read => exact Nat.le_refl _
  | reindexAt file text number => exact Nat.le_of_eq (Tracker.sequence_reindexAt ..).symm
  | forget => exact Nat.le_succ _
  | retryPending => exact Nat.le_refl _
  | clear => exact Nat.le_refl _

theorem Move.sameSetup {disk : Disk} {guard : Guard} {tracker next : Tracker}
    (move : Move disk guard tracker next) :
    next.layout = tracker.layout ∧ next.settings = tracker.settings := by
  cases move with
  | reindexAt file text number =>
      exact ⟨Tracker.layout_reindexAt .., Tracker.settings_reindexAt ..⟩
  | reserve => exact ⟨rfl, rfl⟩
  | forgetText => exact ⟨rfl, rfl⟩
  | read => exact ⟨rfl, rfl⟩
  | forget => exact ⟨rfl, rfl⟩
  | retryPending => exact ⟨rfl, rfl⟩
  | clear => exact ⟨rfl, rfl⟩

theorem Moves.sameSetup {disk : Disk} {guard : Guard} {first last : Tracker}
    (moves : Moves disk guard first last) :
    last.layout = first.layout ∧ last.settings = first.settings := by
  have preserved (tracker next : Tracker) (move : Move disk guard tracker next)
      (before : tracker.layout = first.layout ∧ tracker.settings = first.settings) :
      next.layout = first.layout ∧ next.settings = first.settings :=
    ⟨move.sameSetup.1.trans before.1, move.sameSetup.2.trans before.2⟩
  exact moves.invariant preserved ⟨rfl, rfl⟩

theorem Moves.sequence_le {disk : Disk} {guard : Guard} {first last : Tracker}
    (moves : Moves disk guard first last) : first.sequence ≤ last.sequence := by
  have preserved (tracker next : Tracker) (move : Move disk guard tracker next)
      (before : first.sequence ≤ tracker.sequence) : first.sequence ≤ next.sequence :=
    Nat.le_trans before move.sequence_le
  exact moves.invariant preserved (Nat.le_refl _)

namespace Guard

def none : Guard := fun _ _ _ => True

/-- Whether requests for the file get through under every number that was given out. -/
def Admits (guard : Guard) (file : Path) : Prop :=
  ∀ tracker number, number ≤ tracker.sequence → guard tracker file number

def AdmitsEdit (guard : Guard) (circumstances : Circumstances) : Prop :=
  ∀ file text, circumstances.edit? = some (file, text) → guard.Admits file

theorem admitsEdit_default (guard : Guard) : guard.AdmitsEdit {} := by
  intro file text isEdit
  cases isEdit

end Guard

inductive Operation where
  | reserve
  | reindex (file : Path) (text : Text)
  | reindexAt (file : Path) (text : Text) (number : Nat)
  | reindexFromDisk (file : Path) (number : Nat) (circumstances : Circumstances)
  | addFile (file : Path) (text : Text)
  | addFolder (folder : Path) (circumstances : Circumstances)
  | forget (file : Path)
  | forgetWithin (path : Path)
  | forgetText (file : Path)
  | retryPending
  | scan (circumstances : Circumstances)
  | clear

namespace Tracker

def perform (disk : Disk) (tracker : Tracker) : Operation → Tracker
  | .reserve => tracker.reserve
  | .reindex file text => (tracker.reindex disk file text).1
  | .reindexAt file text number => (tracker.reindexAt disk file text number).1
  | .reindexFromDisk file number circumstances =>
      (Session.reindexFromDisk disk { tracker, circumstances } file number).2.tracker
  | .addFile file text => (tracker.addFile disk file text).1
  | .addFolder folder circumstances =>
      (Session.addFolder disk { tracker, circumstances } folder).2.tracker
  | .forget file => tracker.forget file
  | .forgetWithin path => tracker.forgetWithin path
  | .forgetText file => tracker.forgetText file
  | .retryPending => (tracker.retryPending disk).1
  | .scan circumstances => (Session.scan disk { tracker, circumstances }).2.tracker
  | .clear => tracker.clear

/-- Some operations after another, the disk changing in any way between two of them. -/
inductive Run : Tracker → Tracker → Prop
  | refl (tracker) : Run tracker tracker
  | perform {first last} (disk operation) : Run first last →
      Run first (last.perform disk operation)

def Reachable (tracker : Tracker) : Prop :=
  ∃ layout settings, Run (ofLayout layout settings) tracker

end Tracker

/-! Sessions. -/

/-- A session that has gone on by moves, with no new edit to come. -/
structure Proceeds (disk : Disk) (guard : Guard) (before after : Session) : Prop where
  moves : Moves disk guard before.tracker after.tracker
  edit : ∀ edit, after.circumstances.edit? = some edit → before.circumstances.edit? = some edit

namespace Proceeds

variable {disk : Disk} {guard : Guard}

theorem trans {first second third : Session} (left : Proceeds disk guard first second)
    (right : Proceeds disk guard second third) : Proceeds disk guard first third :=
  ⟨left.moves.trans right.moves, fun edit isEdit => left.edit edit (right.edit edit isEdit)⟩

theorem admitsEdit {before after : Session} (proceeds : Proceeds disk guard before after)
    (admits : guard.AdmitsEdit before.circumstances) : guard.AdmitsEdit after.circumstances :=
  fun file text isEdit => admits file text (proceeds.edit _ isEdit)

end Proceeds

namespace Session

theorem edit?_countRead (circumstances : Circumstances) :
    circumstances.countRead.edit? = circumstances.edit? := by
  unfold Circumstances.countRead
  split <;> rfl

variable {guard : Guard} (disk : Disk)

theorem proceeds_move {session : Session} {tracker : Tracker}
    (move : Move disk guard session.tracker tracker) :
    Proceeds disk guard session { session with tracker } :=
  ⟨.single move, fun _ isEdit => isEdit⟩

theorem proceeds_readText (session : Session) (file : Path) :
    Proceeds disk guard session (session.readText disk file).2 := by
  unfold readText
  split
  · exact ⟨.refl, fun _ isEdit => isEdit⟩
  · exact proceeds_move disk (.read _ _)

theorem moves_reindex {file : Path} (admits : guard.Admits file) (tracker : Tracker) (text : Text) :
    Moves disk guard tracker (tracker.reindex disk file text).1 :=
  .tail (.single (.reserve tracker)) (.reindexAt _ _ _ _ (admits _ _ (Nat.le_refl _)))

theorem proceeds_meetEdit (session : Session) (admits : guard.AdmitsEdit session.circumstances)
    (file : Path) : Proceeds disk guard session (session.meetEdit disk file) := by
  unfold meetEdit
  split
  · exact ⟨.refl, fun _ isEdit => isEdit⟩
  · next edited text isEdit =>
    split
    · exact ⟨moves_reindex disk (admits edited text isEdit) _ _, nofun⟩
    · exact ⟨.refl, fun _ isEdit => isEdit⟩

theorem proceeds_fetch (session : Session) (admits : guard.AdmitsEdit session.circumstances)
    (file : Path) : Proceeds disk guard session (session.fetch disk file).2 := by
  let counted := { session with circumstances := session.circumstances.countRead }
  have counts : Proceeds disk guard session counted :=
    ⟨.refl, fun _ isEdit => (edit?_countRead session.circumstances).symm.trans isEdit⟩
  have reads := counts.trans (proceeds_readText disk counted file)
  exact reads.trans (proceeds_meetEdit disk _ (reads.admitsEdit admits) file)

theorem moves_fetch (session : Session) (file : Path) :
    Moves disk .none session.tracker (session.fetch disk file).2.tracker :=
  (proceeds_fetch disk session (fun _ _ _ _ _ _ => trivial) file).moves

/-- Whether the request of a file under a number gets through, whatever else happens before. -/
def Awaits (guard : Guard) (session : Session) (file : Path) (number : Nat) : Prop :=
  ∀ reached : Tracker, session.tracker.sequence ≤ reached.sequence → guard reached file number

theorem proceeds_reindexFromDisk (session : Session)
    (admits : guard.AdmitsEdit session.circumstances) {file : Path} {number : Nat}
    (awaits : session.Awaits guard file number) :
    Proceeds disk guard session (session.reindexFromDisk disk file number).2 := by
  unfold reindexFromDisk
  split
  · exact proceeds_move disk (.reindexAt _ _ _ _ (awaits _ (Nat.le_refl _)))
  · have fetched := proceeds_fetch disk session admits file
    split
    · next error after result =>
      rw [result] at fetched
      exact fetched
    · next text after result =>
      rw [result] at fetched
      have guarded := awaits after.tracker fetched.moves.sequence_le
      dsimp only
      split
      · exact fetched.trans (proceeds_move disk (.reindexAt _ _ _ _ guarded))
      · exact fetched.trans (proceeds_move disk (.reindexAt _ _ _ _ guarded))

theorem proceeds_scanFile (session : Session) (admits : guard.AdmitsEdit session.circumstances)
    {file : Path} (admitsFile : guard.Admits file) :
    Proceeds disk guard session (session.scanFile disk file).2 := by
  unfold scanFile
  split
  · exact ⟨.refl, fun _ isEdit => isEdit⟩
  · let reserved := { session with tracker := session.tracker.reserve }
    have awaits : reserved.Awaits guard file session.tracker.nextSequence :=
      fun reached below => admitsFile reached _ below
    have reserves : Proceeds disk guard session reserved := proceeds_move disk (.reserve _)
    have reads := reserves.trans (proceeds_reindexFromDisk disk reserved admits awaits)
    dsimp only
    split
    · next result =>
      rw [result] at reads
      exact reads
    · next result =>
      rw [result] at reads
      exact reads

theorem proceeds_scanFiles {files : List Path} (admitsFiles : ∀ file ∈ files, guard.Admits file)
    (session : Session) (admits : guard.AdmitsEdit session.circumstances) :
    Proceeds disk guard session (scanFiles disk files session).2 := by
  induction files generalizing session with
  | nil => exact ⟨.refl, fun _ isEdit => isEdit⟩
  | cons file rest ih =>
      rw [List.forall_mem_cons] at admitsFiles
      have first := proceeds_scanFile disk session admits admitsFiles.1
      exact first.trans (ih admitsFiles.2 _ (first.admitsEdit admits))

theorem moves_foldl_forget (files : List Path) (tracker : Tracker) :
    Moves disk guard tracker (files.foldl Tracker.forget tracker) := by
  induction files generalizing tracker with
  | nil => exact .refl
  | cons file rest ih => exact .head (.forget tracker file) (ih _)

theorem moves_scan (session : Session) (admits : guard.AdmitsEdit session.circumstances)
    (admitsFiles : ∀ file ∈ session.tracker.layout.indexableFiles disk, guard.Admits file) :
    Moves disk guard session.tracker (session.scan disk).2.tracker := by
  have scanned := (proceeds_scanFiles disk admitsFiles session admits).moves
  unfold scan
  dsimp only
  split
  · exact scanned
  · exact scanned.trans (moves_foldl_forget disk _ _)

theorem proceeds_scanNewFiles {files : List Path} (admitsFiles : ∀ file ∈ files, guard.Admits file)
    (session : Session) (admits : guard.AdmitsEdit session.circumstances) :
    Proceeds disk guard session (scanNewFiles disk files session).2 := by
  induction files generalizing session with
  | nil => exact ⟨.refl, fun _ isEdit => isEdit⟩
  | cons file rest ih =>
      rw [List.forall_mem_cons] at admitsFiles
      have forgets : Proceeds disk guard session (session.forgetText file) :=
        proceeds_move disk (.forgetText _ _)
      have scanned := forgets.trans
        (proceeds_scanFile disk _ (forgets.admitsEdit admits) admitsFiles.1)
      unfold scanNewFiles
      split
      all_goals
        next result =>
          rw [result] at scanned
          first
          | exact scanned
          | exact scanned.trans (ih admitsFiles.2 _ (scanned.admitsEdit admits))

theorem moves_addFolder (session : Session) (admits : guard.AdmitsEdit session.circumstances)
    {folder : Path} (admitsFiles : ∀ file ∈ session.newFiles disk folder, guard.Admits file) :
    Moves disk guard session.tracker (session.addFolder disk folder).2.tracker :=
  (proceeds_scanNewFiles disk admitsFiles session admits).moves.tail (.retryPending _)

end Session

/-! Operations and events. -/

/-- Whether all requests that an operation leads to get through the guard. -/
def Operation.Within (guard : Guard) (disk : Disk) (tracker : Tracker) : Operation → Prop
  | .reindex file _ | .addFile file _ => guard.Admits file
  | .reindexAt file _ number => guard tracker file number
  | .reindexFromDisk file number circumstances =>
      Session.Awaits guard { tracker } file number ∧ guard.AdmitsEdit circumstances
  | .addFolder folder circumstances =>
      (∀ file ∈ Session.newFiles disk { tracker } folder, guard.Admits file) ∧
        guard.AdmitsEdit circumstances
  | .scan circumstances =>
      (∀ file ∈ tracker.layout.indexableFiles disk, guard.Admits file) ∧
        guard.AdmitsEdit circumstances
  | .reserve | .forget _ | .forgetWithin _ | .forgetText _ | .retryPending | .clear => True

/-- The files that an event may lead to requests for. -/
def FileEvent.sources (disk : Disk) (layout : Layout) : FileEvent → List Path
  | .changed path => if isIndexable layout.root path then [path] else []
  | .created path =>
      if disk.isFolder path then (disk.walk path).filter (isIndexable layout.root)
      else if isIndexable layout.root path then [path] else []
  | .removed _ => []
  | .rescan => layout.indexableFiles disk

namespace Tracker

variable {guard : Guard} (disk : Disk)

theorem moves_perform {tracker : Tracker} {operation : Operation}
    (within : operation.Within guard disk tracker) :
    Moves disk guard tracker (tracker.perform disk operation) := by
  cases operation with
  | reserve => exact .single (.reserve _)
  | reindex file text => exact Session.moves_reindex disk within tracker text
  | reindexAt file text number => exact .single (.reindexAt _ _ _ _ within)
  | reindexFromDisk file number circumstances =>
      have proceeds :=
        Session.proceeds_reindexFromDisk disk { tracker, circumstances } within.2 within.1
      exact proceeds.moves
  | addFile file text =>
      exact (Session.moves_reindex disk within tracker text).tail (.retryPending _)
  | addFolder folder circumstances =>
      exact Session.moves_addFolder disk { tracker, circumstances } within.2 within.1
  | forget file => exact .single (.forget _ _)
  | forgetWithin path => exact Session.moves_foldl_forget disk _ _
  | forgetText file => exact .single (.forgetText _ _)
  | retryPending => exact .single (.retryPending _)
  | scan circumstances => exact Session.moves_scan disk { tracker, circumstances } within.2 within.1
  | clear => exact .single (.clear _)

theorem moves_refresh {file : Path} (admits : guard.Admits file) (tracker : Tracker) :
    Moves disk guard tracker (tracker.refresh disk file).2 := by
  let session : Session := { tracker := tracker.reserve.forgetText file }
  have awaits : session.Awaits guard file tracker.nextSequence :=
    fun reached below => admits reached _ below
  exact .head (.reserve _) (.head (.forgetText _ file)
    (Session.proceeds_reindexFromDisk disk session guard.admitsEdit_default awaits).moves)

theorem moves_apply {tracker : Tracker} {event : FileEvent}
    (admits : ∀ file ∈ event.sources disk tracker.layout, guard.Admits file) :
    Moves disk guard tracker (tracker.apply disk event) := by
  cases event with
  | changed path =>
      rw [FileEvent.sources] at admits
      rw [apply]
      split
      · next indexable =>
        rw [if_pos indexable] at admits
        have refreshed := moves_refresh disk (admits path (List.mem_singleton_self _)) tracker
        split
        · next result => rw [result] at refreshed; exact refreshed
        · next result =>
          rw [result] at refreshed
          split
          · exact refreshed
          · exact refreshed.tail (.forget _ _)
      · exact .refl
  | created path =>
      rw [FileEvent.sources] at admits
      rw [apply]
      split
      · next isFolder =>
        rw [if_pos isFolder] at admits
        exact Session.moves_addFolder disk { tracker } guard.admitsEdit_default admits
      · next notFolder =>
        rw [if_neg notFolder] at admits
        dsimp only
        split
        · next indexable =>
          rw [if_pos indexable] at admits
          exact (moves_refresh disk (admits path (List.mem_singleton_self _)) tracker).tail
            (.retryPending _)
        · exact .single (.retryPending _)
  | removed path => exact Session.moves_foldl_forget disk _ _
  | rescan => exact Session.moves_scan disk { tracker } guard.admitsEdit_default admits

theorem within_none (tracker : Tracker) (operation : Operation) :
    operation.Within .none disk tracker := by
  cases operation with
  | reindexFromDisk => exact ⟨fun _ _ => trivial, fun _ _ _ _ _ _ => trivial⟩
  | addFolder => exact ⟨fun _ _ _ _ _ => trivial, fun _ _ _ _ _ _ => trivial⟩
  | scan => exact ⟨fun _ _ _ _ _ => trivial, fun _ _ _ _ _ _ => trivial⟩
  | reindex => exact fun _ _ _ => trivial
  | addFile => exact fun _ _ _ => trivial
  | _ => exact trivial

theorem Run.invariant {invariant : Tracker → Prop}
    (preserved : ∀ disk tracker next, Move disk .none tracker next → invariant tracker →
      invariant next)
    {first last : Tracker} (run : Run first last) (initially : invariant first) :
    invariant last := by
  induction run with
  | refl => exact initially
  | perform disk operation _ ih =>
      exact Moves.invariant (preserved disk) (moves_perform disk (within_none disk _ operation)) ih

theorem Run.refresh {first last : Tracker} (run : Run first last) (file : Path) :
    Run first (last.refresh disk file).2 := by
  have reserved := (run.perform disk .reserve).perform disk (.forgetText file)
  exact reserved.perform disk (.reindexFromDisk file last.nextSequence {})

theorem Run.apply {first last : Tracker} (run : Run first last) (event : FileEvent) :
    Run first (last.apply disk event) := by
  cases event with
  | changed path =>
      have refreshed := run.refresh disk path
      rw [Tracker.apply]
      split
      · split
        · next result => rwa [result] at refreshed
        · next result =>
          rw [result] at refreshed
          split
          · exact refreshed
          · exact refreshed.perform disk (.forget path)
      · exact run
  | created path =>
      rw [Tracker.apply]
      split
      · exact run.perform disk (.addFolder path {})
      · dsimp only
        split
        · exact (run.refresh disk path).perform disk .retryPending
        · exact run.perform disk .retryPending
  | removed path => exact run.perform disk (.forgetWithin path)
  | rescan => exact run.perform disk (.scan {})

theorem Reachable.apply {tracker : Tracker} (reachable : tracker.Reachable) (event : FileEvent) :
    (tracker.apply disk event).Reachable := by
  obtain ⟨layout, settings, run⟩ := reachable
  exact ⟨layout, settings, run.apply disk event⟩

end Tracker

end CodePointers
