import CodePointers.Proofs.Tracker.Coupling
import CodePointers.Proofs.Tracker.Reading

/-!
What reading some files anew does to a tracker: the sources that can be read get the pointers of
their texts on the disk, all other sources stay as they are.
-/

namespace CodePointers

theorem Path.listed_or_apart (files : List Path) (path : Path) :
    (∃ file ∈ files, (file == path) = true) ∨ ∀ file ∈ files, (file == path) = false := by
  by_cases listed : ∃ file ∈ files, (file == path) = true
  · exact .inl listed
  · exact .inr fun file member => Bool.eq_false_iff.mpr fun same => listed ⟨file, member, same⟩

def Guard.given : Guard := fun tracker _ number => number ≤ tracker.sequence

theorem Guard.given_admits (file : Path) : Guard.given.Admits file := fun _ _ below => below

namespace Tracker

/-- A tracker whose stores agree and whose requests were numbered by itself. -/
structure Sound (tracker : Tracker) : Prop where
  coupled : tracker.Coupled
  numbered : ∀ file, tracker.appliedTo file ≤ tracker.sequence

theorem sound_ofLayout (layout : Layout) (settings : Settings) :
    (ofLayout layout settings).Sound :=
  ⟨coupled_ofLayout layout settings, fun _ => Nat.le_refl _⟩

theorem Sound.move {disk : Disk} {guard : Guard}
    (given : ∀ tracker file number, guard tracker file number → number ≤ tracker.sequence)
    {tracker next : Tracker} (move : Move disk guard tracker next) (sound : tracker.Sound) :
    next.Sound := by
  refine ⟨sound.coupled.move move, fun file => ?_⟩
  have notAbove := sound.numbered file
  cases move with
  | reserve => exact Nat.le_succ_of_le notAbove
  | forgetText => exact notAbove
  | read => exact notAbove
  | reindexAt other text number guarded =>
      rw [appliedTo_reindexAt, sequence_reindexAt]
      have := given _ _ _ guarded
      split <;> omega
  | forget other =>
      rw [appliedTo_forget]
      split
      · exact Nat.le_refl _
      · exact Nat.le_succ_of_le notAbove
  | retryPending => exact notAbove
  | clear => exact notAbove

theorem Sound.moves {disk : Disk} {first last : Tracker} (sound : first.Sound)
    (moves : Moves disk .given first last) : last.Sound :=
  moves.invariant (fun _ _ move before => before.move (fun _ _ _ given => given) move) sound

structure Rereads (disk : Disk) (reading : Path → Option Text) (files : List Path)
    (before after : Tracker) : Prop where
  layout : after.layout = before.layout
  settings : after.settings = before.settings
  read : ∀ file ∈ files, ∀ text, reading file = some text →
    Lists after file (extract disk before.layout text)
  unread : ∀ file ∈ files, reading file = none → SameSource file after before
  others : ∀ other, (∀ file ∈ files, (file == other) = false) → SameSource other after before

section Rereads

variable {disk : Disk} {reading : Path → Option Text} {files : List Path}

theorem rereads_nil (disk : Disk) (reading : Path → Option Text) (tracker : Tracker) :
    Rereads disk reading [] tracker tracker :=
  ⟨rfl, rfl, nofun, nofun, fun other _ => .refl other tracker⟩

theorem Rereads.since {before after other : Tracker}
    (rereads : Rereads disk reading files before after) (layout : before.layout = other.layout)
    (settings : before.settings = other.settings) (tracked : before.tracked = other.tracked)
    (index : before.index = other.index) : Rereads disk reading files other after := by
  have same (source : Path) : SameSource source before other :=
    ⟨by rw [tracked], fun _ _ => by rw [index]⟩
  constructor
  case layout => exact rereads.layout.trans layout
  case settings => exact rereads.settings.trans settings
  case read =>
    rw [← layout]
    exact rereads.read
  case unread =>
    exact fun file member noText => (rereads.unread file member noText).trans (same file)
  case others => exact fun source differ => (rereads.others source differ).trans (same source)

theorem Rereads.congr {other : Path → Option Text} {before after : Tracker}
    (rereads : Rereads disk reading files before after)
    (same : ∀ file ∈ files, reading file = other file) : Rereads disk other files before after where
  layout := rereads.layout
  settings := rereads.settings
  read file member text isText := rereads.read file member text ((same file member).trans isText)
  unread file member noText := rereads.unread file member ((same file member).trans noText)
  others := rereads.others

theorem Rereads.cons {head : Path} {first second third : Tracker}
    (apart : ∀ file ∈ files, (head == file) = false)
    (readsHead : Rereads disk reading [head] first second)
    (readsRest : Rereads disk reading files second third) :
    Rereads disk reading (head :: files) first third := by
  have sameHead : SameSource head third second :=
    readsRest.others head fun file member => BEq.comm.trans (apart file member)
  have sameRest (file : Path) (member : file ∈ files) : SameSource file second first :=
    readsHead.others file (by simpa using apart file member)
  have inHead : head ∈ [head] := List.mem_singleton_self head
  refine ⟨readsRest.layout.trans readsHead.layout, readsRest.settings.trans readsHead.settings,
    ?_, ?_, ?_⟩
  · intro file member text isText
    rcases List.mem_cons.mp member with rfl | inRest
    · exact (readsHead.read file inHead text isText).congr sameHead
    · rw [← readsHead.layout]
      exact readsRest.read file inRest text isText
  · intro file member noText
    rcases List.mem_cons.mp member with rfl | inRest
    · exact sameHead.trans (readsHead.unread file inHead noText)
    · exact (readsRest.unread file inRest noText).trans (sameRest file inRest)
  · intro other differ
    rw [List.forall_mem_cons] at differ
    exact (readsRest.others other differ.2).trans
      (readsHead.others other (by simpa using differ.1))

theorem Rereads.source_cases {before after : Tracker}
    (rereads : Rereads disk reading files before after) (source : Path) :
    (∃ file text, (file == source) = true ∧
        Lists after file (extract disk before.layout text)) ∨
      SameSource source after before := by
  obtain ⟨file, member, same⟩ | apart := Path.listed_or_apart files source
  · cases isText : reading file with
    | some text => exact .inl ⟨file, text, same, rereads.read file member text isText⟩
    | none => exact .inr ((rereads.unread file member isText).congr same)
  · exact .inr (rereads.others source apart)

end Rereads

theorem get?_forgetText (tracker : Tracker) (file : Path) :
    (tracker.forgetText file).cache.get? file = none := by
  rw [forgetText, OrderedMap.get?_erase, if_pos BEq.rfl]

end Tracker

open Tracker

namespace Session

structure ReadsDisk (disk : Disk) (files : List Path) (session : Session) : Prop where
  undisturbed : session.Undisturbed
  reading : ∀ file ∈ files,
    session.reading? disk file = disk.reading? session.tracker.settings file

theorem Reads.settings {disk : Disk} {file : Path} {number : Nat} {before after : Session}
    (reads : Reads disk file number before after) :
    after.tracker.settings = before.tracker.settings := by
  obtain ⟨cache, isTracker⟩ := reads.tracker
  rw [isTracker]
  split
  · rfl
  · rw [settings_reindexAt]

theorem Reads.rereads {disk : Disk} {file : Path} {number : Nat} {before after : Session}
    (reads : Reads disk file number before after)
    (consistent : before.tracker.index.Consistent)
    (newer : ¬number < before.tracker.appliedTo file) :
    Rereads disk (before.reading? disk) [file] before.tracker after.tracker := by
  obtain ⟨cache, isTracker⟩ := reads.tracker
  cases isText : before.reading? disk file with
  | none =>
      rw [isText] at isTracker
      rw [isTracker]
      refine ⟨rfl, rfl, ?_, fun _ _ _ => ⟨rfl, fun _ _ => rfl⟩, fun _ _ => ⟨rfl, fun _ _ => rfl⟩⟩
      simp only [List.mem_singleton, forall_eq]
      rw [isText]
      nofun
  | some text =>
      rw [isText] at isTracker
      let read := { before.tracker with cache }
      have readConsistent : read.index.Consistent := consistent
      have readNewer : ¬number < read.appliedTo file := newer
      rw [isTracker]
      refine ⟨layout_reindexAt .., settings_reindexAt .., ?_, ?_, ?_⟩
      · simp only [List.mem_singleton, forall_eq]
        rw [isText]
        rintro _ ⟨rfl⟩
        exact lists_reindexAt readConsistent readNewer disk text
      · simp only [List.mem_singleton, forall_eq]
        rw [isText]
        nofun
      · intro other differs
        have same := sameSource_reindexAt readConsistent disk text number
          (differs file (List.mem_singleton_self _))
        exact ⟨same.tracked, same.stored⟩

/-! Reading one file. -/

theorem admitsEdit_of_undisturbed {guard : Guard} {session : Session}
    (undisturbed : session.Undisturbed) : guard.AdmitsEdit session.circumstances := by
  intro file text isEdit
  rw [undisturbed] at isEdit
  cases isEdit

theorem reading?_reserve (disk : Disk) (session : Session) (file : Path) :
    reading? disk { session with tracker := session.tracker.reserve } file =
      session.reading? disk file :=
  reading?_congr disk rfl rfl rfl

section

variable {disk : Disk} {session : Session} {file : Path}

theorem scanFile_of_running (running : session.circumstances.cancelled = false)
    (undisturbed : session.Undisturbed) :
    Reads disk file session.tracker.nextSequence
        { session with tracker := session.tracker.reserve } (session.scanFile disk file).2 ∧
      (session.scanFile disk file).1 ≠ .cancelled := by
  let reserved := { session with tracker := session.tracker.reserve }
  have reservedUndisturbed : reserved.Undisturbed := undisturbed
  have reads := (reindexFromDisk_of_undisturbed disk reservedUndisturbed file
    session.tracker.nextSequence).1
  rw [scanFile, if_neg (by rw [running]; exact Bool.false_ne_true)]
  dsimp only
  split
  · next error after result =>
    rw [result] at reads
    exact ⟨reads, nofun⟩
  · next outcome after result =>
    rw [result] at reads
    refine ⟨reads, ?_⟩
    split <;> nofun

theorem rereads_scanFile (running : session.circumstances.cancelled = false)
    (sound : session.tracker.Sound) (undisturbed : session.Undisturbed) :
    Rereads disk (session.reading? disk) [file] session.tracker
      (session.scanFile disk file).2.tracker := by
  have reads : Reads disk file session.tracker.nextSequence
      { session with tracker := session.tracker.reserve } (session.scanFile disk file).2 :=
    (scanFile_of_running running undisturbed).1
  have newer : ¬session.tracker.nextSequence < session.tracker.appliedTo file :=
    Nat.not_lt.mpr (Nat.le_succ_of_le (sound.numbered file))
  have rereads := (reads.rereads sound.coupled.consistent newer).congr
    fun other _ => reading?_reserve disk session other
  exact rereads.since rfl rfl rfl rfl

theorem sound_scanFile (undisturbed : session.Undisturbed) (sound : session.tracker.Sound) :
    (session.scanFile disk file).2.tracker.Sound :=
  sound.moves (proceeds_scanFile disk session (admitsEdit_of_undisturbed undisturbed)
    (Guard.given_admits file)).moves

end

/-! Reading many files. -/

theorem reading?_scanFile {disk : Disk} {head file : Path} {session : Session}
    (undisturbed : session.Undisturbed) (running : session.circumstances.cancelled = false)
    (apart : (head == file) = false) :
    (session.scanFile disk head).2.reading? disk file = session.reading? disk file := by
  have reads : Reads disk head session.tracker.nextSequence
      { session with tracker := session.tracker.reserve } (session.scanFile disk head).2 :=
    (scanFile_of_running running undisturbed).1
  rw [reading?_congr disk reads.settings reads.served (reads.cache file apart), reading?_reserve]

theorem undisturbed_scanFile {disk : Disk} {file : Path} {session : Session}
    (undisturbed : session.Undisturbed) (running : session.circumstances.cancelled = false) :
    (session.scanFile disk file).2.Undisturbed :=
  (scanFile_of_running running undisturbed).1.undisturbed undisturbed

theorem running_of_scanFile {disk : Disk} {session : Session} {file : Path}
    (completed : (session.scanFile disk file).1 ≠ .cancelled) :
    session.circumstances.cancelled = false := by
  refine Bool.eq_false_iff.mpr fun cancelled => completed ?_
  rw [scanFile, if_pos cancelled]

theorem completed_scanFiles_cons {disk : Disk} {head : Path} {rest : List Path} {session : Session}
    (completed : ∀ result ∈ (scanFiles disk (head :: rest) session).1, result ≠ .cancelled) :
    session.circumstances.cancelled = false ∧
      ∀ result ∈ (scanFiles disk rest (session.scanFile disk head).2).1, result ≠ .cancelled := by
  obtain ⟨notCancelled, restCompleted⟩ := List.forall_mem_cons.mp completed
  exact ⟨running_of_scanFile notCancelled, restCompleted⟩

theorem rereads_scanFiles {disk : Disk} {files : List Path} {session : Session}
    (distinct : files.Pairwise fun left right => (left == right) = false)
    (undisturbed : session.Undisturbed) (sound : session.tracker.Sound)
    (completed : ∀ result ∈ (scanFiles disk files session).1, result ≠ .cancelled) :
    Rereads disk (session.reading? disk) files session.tracker
      (scanFiles disk files session).2.tracker := by
  induction files generalizing session with
  | nil => exact rereads_nil disk _ session.tracker
  | cons head rest ih =>
      obtain ⟨apart, restDistinct⟩ := List.pairwise_cons.mp distinct
      obtain ⟨running, restCompleted⟩ := completed_scanFiles_cons completed
      have rereadsHead : Rereads disk (session.reading? disk) [head] session.tracker
          (session.scanFile disk head).2.tracker :=
        rereads_scanFile running sound undisturbed
      have sameReading (file : Path) (member : file ∈ rest) :
          (session.scanFile disk head).2.reading? disk file = session.reading? disk file :=
        reading?_scanFile undisturbed running (apart file member)
      have rereadsRest := ih restDistinct (undisturbed_scanFile undisturbed running)
        (sound_scanFile undisturbed sound) restCompleted
      exact rereadsHead.cons apart (rereadsRest.congr sameReading)

theorem reading?_of_unread {disk : Disk} {session : Session} {file : Path}
    (fromDisk : session.FromDisk) (unread : session.tracker.cache.get? file = none) :
    session.reading? disk file = disk.reading? session.tracker.settings file :=
  reading?_of_truthfulAt fromDisk (TextCache.truthfulAt_of_get?_eq_none unread disk)

theorem Reads.plain {disk : Disk} {file : Path} {number : Nat} {before after : Session}
    (reads : Reads disk file number before after) (plain : before.circumstances = {}) :
    after.circumstances = {} := by
  rcases reads.circumstances with same | counted
  · exact same.trans plain
  · rw [counted, plain]
    rfl

theorem plain_scanFile {disk : Disk} {session : Session} (plain : session.circumstances = {})
    (file : Path) :
    (session.scanFile disk file).2.circumstances = {} ∧
      (session.scanFile disk file).1 ≠ .cancelled := by
  have running : session.circumstances.cancelled = false := congrArg Circumstances.cancelled plain
  obtain ⟨reads, notCancelled⟩ :=
    @scanFile_of_running disk session file running (congrArg Circumstances.edit? plain)
  exact ⟨reads.plain plain, notCancelled⟩

theorem completed_scanFiles (disk : Disk) (files : List Path) {session : Session}
    (plain : session.circumstances = {}) :
    ∀ result ∈ (scanFiles disk files session).1, result ≠ .cancelled := by
  induction files generalizing session with
  | nil => exact nofun
  | cons head rest ih =>
      obtain ⟨stillPlain, notCancelled⟩ := @plain_scanFile disk session plain head
      exact List.forall_mem_cons.mpr ⟨notCancelled, ih stillPlain⟩

theorem rereads_scanNewFiles {disk : Disk} {files : List Path} {session : Session}
    (distinct : files.Pairwise fun left right => (left == right) = false)
    (plain : session.circumstances = {}) (sound : session.tracker.Sound) :
    Rereads disk (disk.reading? session.tracker.settings) files session.tracker
      (scanNewFiles disk files session).2.tracker := by
  induction files generalizing session with
  | nil => exact rereads_nil disk _ session.tracker
  | cons head rest ih =>
      obtain ⟨apart, restDistinct⟩ := List.pairwise_cons.mp distinct
      -- The text is forgotten first, so whatever was cached, the file is read from the disk.
      let forgotten := session.forgetText head
      have fromDisk : forgotten.FromDisk :=
        ⟨congrArg Circumstances.served plain, congrArg Circumstances.edit? plain⟩
      have running : forgotten.circumstances.cancelled = false :=
        congrArg Circumstances.cancelled plain
      have forgets : Moves disk .given session.tracker forgotten.tracker :=
        .single (.forgetText _ head)
      have sounder := sound.moves forgets
      obtain ⟨reads, notCancelled⟩ :=
        @scanFile_of_running disk forgotten head running fromDisk.undisturbed
      have sameReading : ∀ file ∈ [head], forgotten.reading? disk file =
          disk.reading? session.tracker.settings file := by
        simp only [List.mem_singleton, forall_eq]
        exact reading?_of_unread fromDisk (get?_forgetText session.tracker head)
      have rereadsHead : Rereads disk (disk.reading? session.tracker.settings) [head]
          session.tracker (forgotten.scanFile disk head).2.tracker :=
        ((rereads_scanFile running sounder fromDisk.undisturbed).congr sameReading).since
          rfl rfl rfl rfl
      have rereadsRest :=
        ih restDistinct (reads.plain plain) (sound_scanFile fromDisk.undisturbed sounder)
      rw [rereadsHead.settings] at rereadsRest
      unfold scanNewFiles
      split
      · next cancelled =>
        rw [cancelled] at notCancelled
        exact absurd rfl notCancelled
      · next result =>
        rw [result] at rereadsHead rereadsRest
        exact rereadsHead.cons apart rereadsRest
      · next result =>
        rw [result] at rereadsHead rereadsRest
        exact rereadsHead.cons apart rereadsRest

end Session

theorem Tracker.rereads_refresh {disk : Disk} {tracker : Tracker} (sound : tracker.Sound)
    (file : Path) :
    Rereads disk (disk.reading? tracker.settings) [file] tracker (tracker.refresh disk file).2 ∧
      ((∃ error, (tracker.refresh disk file).1 = .error error) ↔
        disk.reading? tracker.settings file = none) := by
  let session : Session := { tracker := tracker.reserve.forgetText file }
  have fromDisk : session.FromDisk := ⟨rfl, rfl⟩
  have reading : session.reading? disk file = disk.reading? tracker.settings file :=
    Session.reading?_of_unread fromDisk (get?_forgetText tracker.reserve file)
  obtain ⟨reads, fails⟩ := Session.reindexFromDisk_of_undisturbed disk fromDisk.undisturbed file
    tracker.nextSequence
  have newer : ¬tracker.nextSequence < session.tracker.appliedTo file :=
    Nat.not_lt.mpr (Nat.le_succ_of_le (sound.numbered file))
  rw [reading] at fails
  have rereads := (reads.rereads sound.coupled.consistent newer).congr
    (by simp only [List.mem_singleton, forall_eq]; exact reading)
  exact ⟨rereads.since rfl rfl rfl rfl, fails⟩

end CodePointers
