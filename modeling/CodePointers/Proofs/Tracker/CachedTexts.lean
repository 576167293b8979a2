import CodePointers.Proofs.Disk.WorkspaceFiles
import CodePointers.Proofs.Tracker.Events

/-!
Caches that give the same texts. A cached text counts only as long as it looks fresh, so a cache may
hold more or less than another one and still lead to the same readings; what a read puts into it
makes no difference either.
-/

namespace CodePointers

namespace TextCache

/-- Whether two caches have the same for a file, or both nothing that is not on the disk. -/
def AgreesAt (disk : Disk) (file : Path) (left right : TextCache) : Prop :=
  left.get? file = right.get? file ∨ left.TruthfulAt disk file ∧ right.TruthfulAt disk file

def MayRead (disk : Disk) (file : Path) (before after : TextCache) : Prop :=
  after = before ∨ after = (before.read disk file).2

def Agrees (disk : Disk) (left right : TextCache) : Prop :=
  ∀ file names, file.Spells names → AgreesAt disk file left right

variable {disk : Disk} {file other : Path} {names : List Text}

theorem TruthfulAt.congr {left right : TextCache} (truthful : left.TruthfulAt disk file)
    (same : right.get? file = left.get? file) : right.TruthfulAt disk file := by
  intro data isData text isFresh
  rw [fresh?, kept?, same] at isFresh
  exact truthful data isData text isFresh

theorem Agrees.refl (disk : Disk) (cache : TextCache) : Agrees disk cache cache :=
  fun _ _ _ => .inl rfl

theorem Agrees.symm {left right : TextCache} (agrees : Agrees disk left right) :
    Agrees disk right left :=
  fun file names spells => (agrees file names spells).imp Eq.symm And.symm

theorem Agrees.truthfulAt {left right : TextCache} (agrees : Agrees disk left right)
    (spells : file.Spells names) (truthful : right.TruthfulAt disk file) :
    left.TruthfulAt disk file := by
  rcases agrees file names spells with same | ⟨inLeft, _⟩
  · exact truthful.congr same
  · exact inLeft

theorem Agrees.trans {first second third : TextCache} (left : Agrees disk first second)
    (right : Agrees disk second third) : Agrees disk first third := by
  intro file names spells
  rcases left file names spells with same | ⟨inFirst, inSecond⟩
  · rcases right file names spells with also | ⟨inSecond, inThird⟩
    · exact .inl (same.trans also)
    · exact .inr ⟨inSecond.congr same, inThird⟩
  · exact .inr ⟨inFirst, right.symm.truthfulAt spells inSecond⟩

/-! Texts that are taken out. -/

theorem truthfulAt_erase (cache : TextCache) (disk : Disk) (same : file == other) :
    TruthfulAt (cache.erase file) disk other := by
  refine truthfulAt_of_get?_eq_none ?_ disk
  rw [OrderedMap.get?_erase, if_pos same]

theorem get?_foldl_erase (files : List Path) (cache : TextCache) (path : Path) :
    (files.foldl OrderedMap.erase cache).get? path =
      if files.any (· == path) then none else cache.get? path := by
  induction files generalizing cache with
  | nil => rfl
  | cons head rest ih =>
      rw [List.foldl_cons, ih, OrderedMap.get?_erase, List.any_cons]
      cases head == path <;> simp

theorem TruthfulAt.erase {cache : TextCache} (truthful : cache.TruthfulAt disk other)
    (file : Path) : TruthfulAt (cache.erase file) disk other := by
  cases same : file == other with
  | true => exact truthfulAt_erase cache disk same
  | false => exact truthful.congr (by simp [OrderedMap.get?_erase, same])

theorem TruthfulAt.foldl_erase {cache : TextCache} (truthful : cache.TruthfulAt disk file)
    (files : List Path) : TruthfulAt (files.foldl OrderedMap.erase cache) disk file := by
  induction files generalizing cache with
  | nil => exact truthful
  | cons head rest ih => exact ih (truthful.erase head)

theorem Agrees.foldl_erase {left right : TextCache} (agrees : Agrees disk left right)
    {files others : List Path} (same : ∀ path, files.any (· == path) = others.any (· == path)) :
    Agrees disk (files.foldl OrderedMap.erase left) (others.foldl OrderedMap.erase right) := by
  intro file names spells
  rw [AgreesAt, get?_foldl_erase, get?_foldl_erase, same file]
  cases isGone : others.any (· == file) with
  | true => exact .inl rfl
  | false =>
      refine (agrees file names spells).imp (fun same => by simpa using same) ?_
      exact fun both => ⟨both.1.foldl_erase files, both.2.foldl_erase others⟩

theorem agrees_erase {cache : TextCache} (denotes : file.Denotes names)
    (truthful : cache.TruthfulAt disk file) : Agrees disk (cache.erase file) cache := by
  intro other otherNames spells
  cases same : file == other with
  | true =>
      refine .inr ⟨truthfulAt_erase cache disk same, fun data isData text isFresh => ?_⟩
      obtain rfl := (denotes.spells.beq_iff spells).mp same
      have isFile : disk.node? file = some (.file data) := by
        rw [denotes.node?_eq, spells.node?_eq_some isData]
      refine truthful data isFile text ?_
      rwa [fresh?, kept?, cache.get?_congr same]
  | false => exact .inl (by simp [OrderedMap.get?_erase, same])

/-! Texts that are read. -/

theorem agrees_read (cache : TextCache) (spells : file.Spells names) :
    Agrees disk (cache.read disk file).2 cache := by
  intro other otherNames otherSpells
  cases same : file == other with
  | false => exact .inl (cache.get?_read disk same)
  | true =>
      unfold read readWith
      split
      · exact .inl rfl
      · split <;> exact .inl rfl
      · next data isFile =>
        split
        · exact .inl rfl
        · next stale =>
          split
          · exact .inl rfl
          -- The entry was stale, so it gave no text, and the new one gives that of the disk.
          · next text isText =>
            right
            have onlyData {found : File} (isFound : disk.node? other = some (.file found)) :
                found = data := by
              have atNames := otherSpells.node?_eq_some isFound
              obtain rfl := (spells.beq_iff otherSpells).mp same
              rw [spells.node?_eq_some isFile] at atNames
              cases atNames
              rfl
            have sameEntry : cache.get? other = cache.get? file := (cache.get?_congr same).symm
            constructor
            · intro found isFound cached isFresh
              obtain rfl := onlyData isFound
              rw [fresh?, kept?, OrderedMap.get?_insert, if_pos same] at isFresh
              simp only [File.stamp, and_self, if_true, Option.some.injEq] at isFresh
              rw [isText, isFresh]
            · intro found isFound cached isFresh
              obtain rfl := onlyData isFound
              rw [fresh?, kept?, sameEntry] at isFresh
              rw [fresh?, kept?] at stale
              rw [stale] at isFresh
              cases isFresh

theorem MayRead.agrees {before after : TextCache} (mayRead : MayRead disk file before after)
    (spells : file.Spells names) : Agrees disk after before := by
  rcases mayRead with rfl | rfl
  · exact .refl disk after
  · exact agrees_read before spells

theorem read_read (cache : TextCache) (disk : Disk) (path : Path) :
    ((cache.read disk path).2.read disk path).1 = (cache.read disk path).1 := by
  cases isNode : disk.node? path with
  | none => simp only [read, readWith, isNode]
  | some node =>
      cases node with
      | folder tree => simp only [read, readWith, isNode, Option.bind_none]
      | file data =>
          cases isFresh : cache.fresh? path data with
          | some text => simp only [read, readWith, isNode, isFresh]
          | none =>
              cases isContent : data.content with
              | binary size => simp only [read, readWith, isNode, isFresh, isContent]
              | text text =>
                  have nowFresh : fresh? (cache.insert path
                      { size := data.content.size, modified := data.modified, text }) path data =
                        some text := by
                    rw [fresh?, kept?, OrderedMap.get?_insert, if_pos BEq.rfl]
                    exact if_pos ⟨rfl, rfl⟩
                  rw [isContent] at nowFresh
                  simp only [read, readWith, isNode, isFresh, isContent, nowFresh]

end TextCache

open TextCache Tracker

namespace Session

variable {disk : Disk} {session : Session} {file : Path} {names : List Text}

theorem mayRead_fetch (undisturbed : session.Undisturbed) :
    MayRead disk file session.tracker.cache (session.fetch disk file).2.tracker.cache := by
  let counted := { session with circumstances := session.circumstances.countRead }
  have mayRead : MayRead disk file session.tracker.cache
      (counted.readText disk file).2.tracker.cache := by
    unfold readText
    split
    · exact .inl rfl
    · exact .inr rfl
  have stillUndisturbed : (counted.readText disk file).2.Undisturbed := by
    obtain ⟨cache, isRead, _⟩ := readText_eq disk counted file
    rw [isRead]
    exact (edit?_countRead _).trans undisturbed
  change MayRead disk file _ ((counted.readText disk file).2.meetEdit disk file).tracker.cache
  rwa [meetEdit_of_undisturbed disk stillUndisturbed]

theorem mayRead_reindexFromDisk (undisturbed : session.Undisturbed) (number : Nat) :
    MayRead disk file session.tracker.cache
      (session.reindexFromDisk disk file number).2.tracker.cache := by
  have fetched := @mayRead_fetch disk session file undisturbed
  unfold reindexFromDisk
  split
  · exact .inl (cache_reindexAt disk session.tracker file [] number)
  · split
    · next result =>
      rw [result] at fetched
      exact fetched
    · next text after result =>
      rw [result] at fetched
      dsimp only
      split
      · exact (cache_reindexAt disk after.tracker file [] number).symm ▸ fetched
      · exact (cache_reindexAt disk after.tracker file text number).symm ▸ fetched

theorem mayRead_scanFile (undisturbed : session.Undisturbed) :
    MayRead disk file session.tracker.cache (session.scanFile disk file).2.tracker.cache := by
  let reserved := { session with tracker := session.tracker.reserve }
  have reads := @mayRead_reindexFromDisk disk reserved file undisturbed session.tracker.nextSequence
  unfold scanFile
  split
  · exact .inl rfl
  · dsimp only
    split
    · next result =>
      rw [result] at reads
      exact reads
    · next result =>
      rw [result] at reads
      exact reads

theorem agrees_scanFiles {files : List Path} (plain : session.circumstances = {})
    (spelled : ∀ file ∈ files, ∃ names, file.Spells names) :
    Agrees disk (scanFiles disk files session).2.tracker.cache session.tracker.cache := by
  induction files generalizing session with
  | nil => exact .refl disk _
  | cons head rest ih =>
      rw [List.forall_mem_cons] at spelled
      obtain ⟨⟨names, spells⟩, restSpelled⟩ := spelled
      have readsHead := (@mayRead_scanFile disk session head
        (congrArg Circumstances.edit? plain)).agrees spells
      obtain ⟨stillPlain, _⟩ := @plain_scanFile disk session plain head
      exact (ih stillPlain restSpelled).trans readsHead

theorem agrees_scanNewFiles {files : List Path} (plain : session.circumstances = {})
    (spelled : ∀ file ∈ files, ∃ names, file.Spells names) :
    Agrees disk (scanNewFiles disk files session).2.tracker.cache
      (files.foldl OrderedMap.erase session.tracker.cache) := by
  induction files generalizing session with
  | nil => exact .refl disk _
  | cons head rest ih =>
      rw [List.forall_mem_cons] at spelled
      obtain ⟨⟨names, spells⟩, restSpelled⟩ := spelled
      let forgotten := session.forgetText head
      have readsHead := (@mayRead_scanFile disk forgotten head
        (congrArg Circumstances.edit? plain)).agrees spells
      obtain ⟨stillPlain, notCancelled⟩ := @plain_scanFile disk forgotten plain head
      have readsRest := (ih stillPlain restSpelled).trans (readsHead.foldl_erase fun _ => rfl)
      unfold scanNewFiles
      split
      · next cancelled =>
        rw [cancelled] at notCancelled
        exact absurd rfl notCancelled
      · next result =>
        rw [result] at readsRest
        exact readsRest
      · next result =>
        rw [result] at readsRest
        exact readsRest

theorem reading?_of_agreesAt {left right : Tracker} (settings : left.settings = right.settings)
    (agrees : AgreesAt disk file left.cache right.cache) :
    reading? disk { tracker := left } file = reading? disk { tracker := right } file := by
  rcases agrees with same | ⟨inLeft, inRight⟩
  · exact reading?_congr disk settings rfl same
  · have fromDisk (tracker : Tracker) : FromDisk { tracker } := ⟨rfl, rfl⟩
    have left := reading?_of_truthfulAt (fromDisk left) inLeft
    have right := reading?_of_truthfulAt (fromDisk right) inRight
    rw [left, right]
    exact congrArg (disk.reading? · file) settings

theorem reading?_scanFile_self (running : session.circumstances.cancelled = false)
    (undisturbed : session.Undisturbed) :
    (session.scanFile disk file).2.reading? disk file = session.reading? disk file := by
  have reads := (@scanFile_of_running disk session file running undisturbed).1
  have served : (session.scanFile disk file).2.circumstances.served =
      session.circumstances.served := reads.served
  rcases @mayRead_scanFile disk session file undisturbed with same | read
  · exact reading?_congr disk reads.settings reads.served (congrArg (·.get? file) same)
  · have sameText : ((session.scanFile disk file).2.readText disk file).1 =
        (session.readText disk file).1 := by
      unfold readText Circumstances.servedText?
      rw [served]
      split
      · rfl
      · rw [read]
        exact read_read session.tracker.cache disk file
    rw [reading?, sameText, isOversized_congr reads.settings]
    rfl

theorem plain_scanFiles {files : List Path} (plain : session.circumstances = {}) :
    (scanFiles disk files session).2.circumstances = {} := by
  induction files generalizing session with
  | nil => exact plain
  | cons head rest ih => exact ih (plain_scanFile plain head).1

theorem reading?_scanFiles {files : List Path} (plain : session.circumstances = {})
    (same : ∀ other ∈ files, (other == file) = true → other = file) :
    (scanFiles disk files session).2.reading? disk file = session.reading? disk file := by
  induction files generalizing session with
  | nil => rfl
  | cons head rest ih =>
      rw [List.forall_mem_cons] at same
      have running := congrArg Circumstances.cancelled plain
      have undisturbed : session.Undisturbed := congrArg Circumstances.edit? plain
      obtain ⟨stillPlain, _⟩ := @plain_scanFile disk session plain head
      have inRest := @ih (session.scanFile disk head).2 stillPlain same.2
      have atHead : (session.scanFile disk head).2.reading? disk file =
          session.reading? disk file := by
        cases isHead : head == file with
        | true =>
            obtain rfl := same.1 isHead
            exact reading?_scanFile_self running undisturbed
        | false => exact reading?_scanFile undisturbed running isHead
      exact inRest.trans atHead

end Session

/-! What an event does to the cache. -/

namespace Tracker

variable {disk : Disk} {tracker : Tracker}

theorem reading?_rescanned {file : Path} (member : file ∈ tracker.layout.indexableFiles disk) :
    Session.reading? disk { tracker := tracker.rescanned disk } file =
      Session.reading? disk { tracker } file := by
  let session : Session := { tracker }
  let files := tracker.layout.indexableFiles disk
  have plain : session.circumstances = {} := rfl
  have stillPlain := @Session.plain_scanFiles disk session files plain
  have sameReading := @Session.reading?_scanFiles disk session file files plain
    fun other also same => Layout.eq_of_mem_indexableFiles member also same
  refine Eq.trans ?_ sameReading
  exact Session.reading?_congr disk rfl (congrArg Circumstances.served stillPlain).symm rfl

theorem agrees_refresh {file : Path} {names : List Text} (spells : file.Spells names) :
    Agrees disk (tracker.refresh disk file).2.cache (tracker.cache.erase file) :=
  (@Session.mayRead_reindexFromDisk disk { tracker := tracker.reserve.forgetText file } file rfl
    tracker.nextSequence).agrees spells

theorem agrees_apply_changed {path : Path} (spelled : ∀ file ∈
    (FileEvent.changed path).sources disk tracker.layout, ∃ names, file.Spells names) :
    Agrees disk (tracker.apply disk (.changed path)).cache
      (((FileEvent.changed path).sources disk tracker.layout).foldl OrderedMap.erase
        tracker.cache) := by
  rw [FileEvent.sources] at spelled ⊢
  rw [apply]
  split
  · next indexable =>
    rw [if_pos indexable] at spelled
    obtain ⟨names, spells⟩ := spelled path (List.mem_singleton_self path)
    have refreshed := @agrees_refresh disk tracker path names spells
    split
    · next result =>
      rw [result] at refreshed
      exact refreshed
    · next after result =>
      rw [result] at refreshed
      split
      · exact refreshed
      · have erased : Agrees disk (after.cache.erase path) ([path, path].foldl OrderedMap.erase
            tracker.cache) := @Agrees.foldl_erase disk _ _ refreshed [path] [path] fun _ => rfl
        exact erased.trans ((Agrees.refl disk _).foldl_erase fun other => by simp)
  · exact .refl disk _

theorem agrees_apply_created {path : Path} (spelled : ∀ file ∈
    (FileEvent.created path).sources disk tracker.layout, ∃ names, file.Spells names) :
    Agrees disk (tracker.apply disk (.created path)).cache
      (((FileEvent.created path).sources disk tracker.layout).foldl OrderedMap.erase
        tracker.cache) := by
  rw [FileEvent.sources] at spelled ⊢
  rw [apply]
  split
  · next isFolder =>
    rw [if_pos isFolder] at spelled
    exact @Session.agrees_scanNewFiles disk { tracker } _ rfl spelled
  · next notFolder =>
    rw [if_neg notFolder] at spelled
    dsimp only
    split
    · next indexable =>
      rw [if_pos indexable] at spelled
      obtain ⟨names, spells⟩ := spelled path (List.mem_singleton_self path)
      exact agrees_refresh spells
    · exact .refl disk _

end Tracker

end CodePointers
