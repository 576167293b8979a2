import CodePointers.Proofs.Disk.Walk
import CodePointers.Proofs.Tracker.Runs

/-!
Reading files in a session. A read that nothing interferes with changes the cache alone, and what
comes of it for the pointers is told by the text that the session indexes for the file.
-/

namespace CodePointers

namespace TextCache

def firstText (file : Path) (content : Content) : Except ReadError Text :=
  match content with
  | .binary _ => .error (.unreadable file)
  | .text text => .ok text

/-- Whether the cached text of a file, if it counts as fresh, is the one on the disk. -/
def TruthfulAt (cache : TextCache) (disk : Disk) (file : Path) : Prop :=
  ∀ data, disk.node? file = some (.file data) → ∀ text, cache.fresh? file data = some text →
    data.content = .text text

theorem truthfulAt_of_get?_eq_none {cache : TextCache} {file : Path}
    (unread : cache.get? file = none) (disk : Disk) : cache.TruthfulAt disk file := by
  intro data _ text isFresh
  rw [fresh?, kept?, unread] at isFresh
  cases isFresh

theorem read_of_truthfulAt {cache : TextCache} {disk : Disk} {path : Path} {data : File}
    (truthful : cache.TruthfulAt disk path) (isFile : disk.node? path = some (.file data)) :
    (cache.read disk path).1 = firstText path data.content := by
  rw [read, readWith, isFile]
  cases isFresh : cache.fresh? path data with
  | some text =>
      rw [truthful data isFile text isFresh]
      simp only [isFresh, firstText]
  | none =>
      obtain ⟨content, modified⟩ := data
      cases content <;> simp only [isFresh, firstText]

theorem get?_read (cache : TextCache) (disk : Disk) {path other : Path}
    (differs : (path == other) = false) :
    (cache.read disk path).2.get? other = cache.get? other := by
  unfold read readWith
  split
  · rfl
  · split <;> rfl
  · split
    · rfl
    · split
      · rfl
      · rw [OrderedMap.get?_insert, differs]
        rfl

end TextCache

/-! The text that is indexed for what stands at a path: none when it cannot be read, and the empty
one when it is too large. -/

def Node.text? : Node → Option Text
  | .file { content := .text text, .. } => some text
  | .file { content := .binary _, .. } | .folder _ => none

def Disk.readingOf? (disk : Disk) (settings : Settings) (node : Node) : Option Text :=
  if settings.maxFileSize < disk.nodeSize node then some [] else node.text?

def Disk.reading? (disk : Disk) (settings : Settings) (path : Path) : Option Text :=
  (disk.node? path).bind (disk.readingOf? settings)

/-- The size of a folder does not matter for what is read of a file. -/
def File.reading? (settings : Settings) (data : File) : Option Text :=
  if settings.maxFileSize < data.content.size then some [] else (Node.file data).text?

theorem Disk.readingOf?_file (disk : Disk) (settings : Settings) (data : File) :
    disk.readingOf? settings (.file data) = data.reading? settings := rfl

namespace Session

def Undisturbed (session : Session) : Prop := session.circumstances.edit? = none

/-- Whether the texts of the files come from the disk, as long as nobody edits them. -/
structure FromDisk (session : Session) : Prop where
  served : session.circumstances.served = []
  undisturbed : session.Undisturbed

theorem served_countRead (circumstances : Circumstances) :
    circumstances.countRead.served = circumstances.served := by
  unfold Circumstances.countRead
  split <;> rfl

theorem meetEdit_of_undisturbed (disk : Disk) {session : Session}
    (undisturbed : session.Undisturbed) (file : Path) : session.meetEdit disk file = session := by
  unfold meetEdit
  rw [undisturbed]

def reading? (disk : Disk) (session : Session) (file : Path) : Option Text :=
  if ((disk.size? file).map session.isOversized).getD false then some []
  else (session.readText disk file).1.toOption.map fun text =>
    if session.isOversized (byteLength text) then [] else text

theorem readText_congr (disk : Disk) {left right : Session} {file : Path}
    (served : left.circumstances.served = right.circumstances.served)
    (cache : left.tracker.cache.get? file = right.tracker.cache.get? file) :
    (left.readText disk file).1 = (right.readText disk file).1 := by
  have fresh (data : File) : left.tracker.cache.fresh? file data =
      right.tracker.cache.fresh? file data := by
    rw [TextCache.fresh?, TextCache.fresh?, TextCache.kept?, TextCache.kept?, cache]
  have reads : (left.tracker.cache.read disk file).1 = (right.tracker.cache.read disk file).1 := by
    unfold TextCache.read TextCache.readWith
    split
    · rfl
    · rfl
    · next data _ =>
      rw [fresh data]
      split
      · rfl
      · split <;> rfl
  unfold readText Circumstances.servedText?
  rw [served]
  split
  · rfl
  · exact reads

theorem isOversized_congr {left right : Session}
    (settings : left.tracker.settings = right.tracker.settings) :
    left.isOversized = right.isOversized := by
  unfold isOversized
  rw [settings]

theorem reading?_congr (disk : Disk) {left right : Session} {file : Path}
    (settings : left.tracker.settings = right.tracker.settings)
    (served : left.circumstances.served = right.circumstances.served)
    (cache : left.tracker.cache.get? file = right.tracker.cache.get? file) :
    left.reading? disk file = right.reading? disk file := by
  rw [reading?, reading?, readText_congr disk served cache, isOversized_congr settings]

/-- What reading and reindexing a file does: its text is applied, or, when it cannot be read, the
cache is all that changes. -/
structure Reads (disk : Disk) (file : Path) (number : Nat) (before after : Session) : Prop where
  circumstances : after.circumstances = before.circumstances ∨
    after.circumstances = before.circumstances.countRead
  cache : ∀ other, (file == other) = false →
    after.tracker.cache.get? other = before.tracker.cache.get? other
  tracker : ∃ cache, after.tracker = match before.reading? disk file with
    | none => { before.tracker with cache }
    | some text => (Tracker.reindexAt disk { before.tracker with cache } file text number).1

theorem Reads.undisturbed {disk : Disk} {file : Path} {number : Nat} {before after : Session}
    (reads : Reads disk file number before after) (undisturbed : before.Undisturbed) :
    after.Undisturbed := by
  rcases reads.circumstances with same | counted
  · rw [Undisturbed, same]
    exact undisturbed
  · rw [Undisturbed, counted, edit?_countRead]
    exact undisturbed

theorem Reads.served {disk : Disk} {file : Path} {number : Nat} {before after : Session}
    (reads : Reads disk file number before after) :
    after.circumstances.served = before.circumstances.served := by
  rcases reads.circumstances with same | counted
  · rw [same]
  · rw [counted, served_countRead]

theorem readText_eq (disk : Disk) (session : Session) (file : Path) :
    ∃ cache, (session.readText disk file).2 =
        { session with tracker := { session.tracker with cache } } ∧
      ∀ other, (file == other) = false → cache.get? other = session.tracker.cache.get? other := by
  unfold readText
  split
  · exact ⟨session.tracker.cache, rfl, fun _ _ => rfl⟩
  · exact ⟨_, rfl, fun other differs => session.tracker.cache.get?_read disk differs⟩

theorem fetch_of_undisturbed (disk : Disk) {session : Session} (undisturbed : session.Undisturbed)
    (file : Path) :
    (session.fetch disk file).1 = (session.readText disk file).1 ∧
      ∃ cache, (session.fetch disk file).2 =
          { tracker := { session.tracker with cache }
            circumstances := session.circumstances.countRead } ∧
        ∀ other, (file == other) = false → cache.get? other = session.tracker.cache.get? other := by
  let counted := { session with circumstances := session.circumstances.countRead }
  have sameText : (counted.readText disk file).1 = (session.readText disk file).1 :=
    readText_congr disk (served_countRead _) rfl
  obtain ⟨cache, isRead, others⟩ := readText_eq disk counted file
  have stillUndisturbed : (counted.readText disk file).2.Undisturbed := by
    rw [isRead]
    exact (edit?_countRead _).trans undisturbed
  refine ⟨sameText, cache, ?_, others⟩
  change (counted.readText disk file).2.meetEdit disk file = _
  rw [meetEdit_of_undisturbed disk stillUndisturbed, isRead]

theorem reads_reindexAt {disk : Disk} {before after : Session} {file : Path} {number : Nat}
    {text : Text} {cache : TextCache} (isReading : before.reading? disk file = some text)
    (circumstances : after.circumstances = before.circumstances ∨
      after.circumstances = before.circumstances.countRead)
    (others : ∀ other, (file == other) = false →
      cache.get? other = before.tracker.cache.get? other)
    (reindexed : after.tracker =
      (Tracker.reindexAt disk { before.tracker with cache } file text number).1) :
    Reads disk file number before after := by
  refine ⟨circumstances, fun other differs => ?_, cache, ?_⟩
  · rw [reindexed, Tracker.cache_reindexAt]
    exact others other differs
  · rw [isReading]
    exact reindexed

theorem reindexFromDisk_of_undisturbed (disk : Disk) {session : Session}
    (undisturbed : session.Undisturbed) (file : Path) (number : Nat) :
    Reads disk file number session (session.reindexFromDisk disk file number).2 ∧
      ((∃ error, (session.reindexFromDisk disk file number).1 = .error error) ↔
        session.reading? disk file = none) := by
  obtain ⟨sameText, cache, isFetched, others⟩ := fetch_of_undisturbed disk undisturbed file
  unfold reindexFromDisk
  split
  -- A file that is too large on the disk is not read, so the cache stays as it is.
  · next large =>
    have isReading : session.reading? disk file = some [] := if_pos large
    refine ⟨reads_reindexAt isReading (.inl rfl) (fun _ _ => rfl) rfl, ?_⟩
    rw [isReading]
    exact ⟨nofun, nofun⟩
  · next small =>
    have isReading : session.reading? disk file =
        (session.fetch disk file).1.toOption.map fun text =>
        if session.isOversized (byteLength text) then [] else text := by
      rw [sameText]
      exact if_neg small
    split
    · next error after result =>
      rw [result] at isFetched isReading
      refine ⟨⟨.inr (congrArg Session.circumstances isFetched), ?_, cache, ?_⟩, ?_⟩
      · rw [isFetched]
        exact others
      · rw [isReading, isFetched]
        rfl
      · exact ⟨fun _ => isReading, fun _ => ⟨error, rfl⟩⟩
    · next text after result =>
      rw [result] at isFetched isReading
      obtain rfl : after = _ := isFetched
      have indexed : session.reading? disk file =
          some (if session.isOversized (byteLength text) then [] else text) := isReading
      -- The text may still be too large, as the disk may have another size than what was served.
      dsimp only
      split
      · next large =>
        have isLarge : session.isOversized (byteLength text) = true := large
        rw [if_pos isLarge] at indexed
        refine ⟨reads_reindexAt indexed (.inr rfl) others rfl, ?_⟩
        rw [indexed]
        exact ⟨nofun, nofun⟩
      · next small =>
        have isSmall : ¬session.isOversized (byteLength text) = true := small
        rw [if_neg isSmall] at indexed
        refine ⟨reads_reindexAt indexed (.inr rfl) others rfl, ?_⟩
        rw [indexed]
        exact ⟨nofun, nofun⟩

/-! Texts that are those of the disk. -/

def Current (disk : Disk) (session : Session) (file : Path) : Prop :=
  ∀ data, disk.node? file = some (.file data) →
    (session.readText disk file).1 = TextCache.firstText file data.content

theorem isOversized_iff {session : Session} {size : Nat} :
    session.isOversized size = true ↔ session.tracker.settings.maxFileSize < size :=
  decide_eq_true_iff

theorem byteLength_of_text? (disk : Disk) {node : Node} {text : Text}
    (isText : node.text? = some text) : byteLength text = disk.nodeSize node := by
  unfold Node.text? at isText
  split at isText
  · cases isText
    rfl
  · cases isText
  · cases isText

theorem reading?_eq {disk : Disk} {session : Session} {file : Path}
    (isText : (session.readText disk file).1.toOption = (disk.node? file).bind Node.text?) :
    session.reading? disk file = disk.reading? session.tracker.settings file := by
  rw [reading?, isText, Disk.reading?, Disk.size?]
  cases disk.node? file with
  | none => rfl
  | some node =>
      simp only [Option.map_some, Option.getD_some, Option.bind_some, isOversized_iff,
        Disk.readingOf?]
      split
      · rfl
      · next small =>
        cases hasText : node.text? with
        | none => rfl
        | some text =>
            rw [Option.map_some, byteLength_of_text? disk hasText, if_neg small]

theorem toOption_firstText (file : Path) (data : File) :
    (TextCache.firstText file data.content).toOption = (Node.file data).text? := by
  obtain ⟨content, modified⟩ := data
  cases content <;> rfl

theorem reading?_of_current {disk : Disk} {session : Session} {file : Path}
    (current : session.Current disk file) (isFile : disk.isFile file = true) :
    session.reading? disk file = disk.reading? session.tracker.settings file := by
  obtain ⟨data, isData⟩ := Disk.isFile_iff.mp isFile
  refine reading?_eq ?_
  rw [current data isData, isData]
  exact toOption_firstText file data

section FromDisk

variable {disk : Disk} {session : Session} {file : Path} (fromDisk : session.FromDisk)
  (truthful : session.tracker.cache.TruthfulAt disk file)
include fromDisk

theorem readText_of_fromDisk :
    (session.readText disk file).1 = (session.tracker.cache.read disk file).1 := by
  have unserved : session.circumstances.servedText? file = none := by
    rw [Circumstances.servedText?, fromDisk.served]
    rfl
  rw [readText, unserved]

include truthful

theorem current_of_truthfulAt : session.Current disk file := by
  intro data isData
  rw [readText_of_fromDisk fromDisk, TextCache.read_of_truthfulAt truthful isData]

theorem reading?_of_truthfulAt :
    session.reading? disk file = disk.reading? session.tracker.settings file := by
  cases isFile : disk.isFile file with
  | true => exact reading?_of_current (current_of_truthfulAt fromDisk truthful) isFile
  | false =>
      refine reading?_eq ?_
      rw [readText_of_fromDisk fromDisk]
      cases isNode : disk.node? file with
      | none => simp only [TextCache.read, TextCache.readWith, isNode]; rfl
      | some node =>
          cases node with
          | folder tree => simp only [TextCache.read, TextCache.readWith, isNode]; rfl
          | file data =>
              rw [Disk.isFile_iff.mpr ⟨data, isNode⟩] at isFile
              cases isFile

end FromDisk

end Session

end CodePointers
