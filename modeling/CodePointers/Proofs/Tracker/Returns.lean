import CodePointers.Proofs.Resolution.MoreFiles
import CodePointers.Proofs.Tracker.ShownPointers
import CodePointers.Proofs.Tracker.Trails

/-!
A file or folder that is moved out of the workspace and back again. The removal forgets the sources
beneath it and leaves the pointers at its files pending; when it comes back the sources are read
anew, and a retry gives all other pointers the targets that they had.
-/

namespace CodePointers

/-! Disks with the same files. -/

def Disk.SameFiles (disk other : Disk) : Prop :=
  ∀ names, (other.fileAt? names).map File.content = (disk.fileAt? names).map File.content

theorem File.reading?_congr {left right : File} (same : left.content = right.content)
    (settings : Settings) : left.reading? settings = right.reading? settings := by
  obtain ⟨content, _⟩ := left
  obtain ⟨_, _⟩ := right
  obtain rfl : content = _ := same
  cases content <;> rfl

section SameFiles

variable {disk other : Disk} (same : disk.SameFiles other)
include same

theorem Disk.SameFiles.isSome_eq (names : List Text) :
    (other.fileAt? names).isSome = (disk.fileAt? names).isSome := by
  rw [← Option.isSome_map, same names, Option.isSome_map]

theorem Disk.SameFiles.reading?_eq {settings : Settings} {file again : Path} {names : List Text}
    (spells : file.Spells names) (respelled : again.Spells names)
    (isFile : disk.isFile file = true) (isAgain : other.isFile again = true) :
    other.reading? settings again = disk.reading? settings file := by
  obtain ⟨data, found⟩ := Option.isSome_iff_exists.mp
    ((spells.denotes_of_isFile isFile).isFile_iff.mp isFile)
  obtain ⟨now, foundNow⟩ := Option.isSome_iff_exists.mp
    ((respelled.denotes_of_isFile isAgain).isFile_iff.mp isAgain)
  have sameContent := same names
  rw [found, foundNow] at sameContent
  rw [Tracker.reading?_of_fileAt? spells isFile found,
    Tracker.reading?_of_fileAt? respelled isAgain foundNow]
  exact File.reading?_congr (Option.some.inj sameContent) settings

theorem Disk.SameFiles.extract_eq {layout : Layout} (plain : layout.Plain) (text : Text) :
    Tracker.extract other layout text = Tracker.extract disk layout text := by
  refine List.filterMap_congr fun found inText => ?_
  unfold Tracker.track?
  cases parsed : Pointer.parse found.text with
  | error error => rfl
  | ok pointer =>
      have plainModule := Occurrence.hasPlainModule_of_parse inText parsed
      dsimp only
      rw [plain.target?_congr plainModule same.isSome_eq]

end SameFiles

namespace Tracker

section

variable {layout : Layout} {disk gone back : Disk} {above names : List Text} {path : Path}
  (root : layout.root.Spells above) (same : disk.SameFiles back)
  (isThere : disk.pathExists layout.root = true)
  (returns : ChangesBelow layout.root above names gone back (.created path))
include root same isThere returns

theorem exists_returned_iff (source : Path) :
    (∃ file ∈ (FileEvent.created path).sources back layout, (file == source) = true) ↔
      source.isWithin path = true ∧
        ∃ file ∈ layout.indexableFiles disk, (file == source) = true := by
  by_cases spelled : ∃ sourceNames, source.Spells sourceNames
  · obtain ⟨sourceNames, spells⟩ := spelled
    have isPath : path = layout.root.descend names := by
      cases returns.change
      rfl
    have place := (root.denotes_descend returns.areNames returns.below).spells
    rw [returns.exists_source_iff root nofun spells, Path.exists_indexable_iff root isThere spells,
      isPath, spells.isWithin_iff place, spells.isWithin_iff root, same.isSome_eq]
    constructor
    · rintro ⟨beneath, indexable, isFile⟩
      exact ⟨beneath, (List.prefix_append above names).trans beneath, indexable, isFile⟩
    · rintro ⟨beneath, _, indexable, isFile⟩
      exact ⟨beneath, indexable, isFile⟩
  · have respelled {file : Path} (isFile : ∃ names, file.Spells names) :
        (file == source) = false := by
      obtain ⟨names, spells⟩ := isFile
      exact Bool.eq_false_iff.mpr fun same => spelled ⟨names, spells.congr same⟩
    constructor
    · rintro ⟨file, member, same⟩
      rw [respelled (returns.eventBelow.spelled root file member)] at same
      cases same
    · rintro ⟨_, file, member, same⟩
      obtain ⟨names, areNames, rfl, _⟩ := Disk.mem_walk_iff.mp (List.mem_filter.mp member).1
      rw [respelled ⟨_, root.descend areNames⟩] at same
      cases same

omit isThere in
theorem reading?_of_returned {settings : Settings} {file again : Path} {text : Text}
    (member : file ∈ layout.indexableFiles disk)
    (isSource : again ∈ (FileEvent.created path).sources back layout) (sameFile : again == file)
    (isText : disk.reading? settings file = some text) :
    back.reading? settings again = some text := by
  obtain ⟨more, areNames, rfl, _⟩ := returns.eventBelow.mem_sources isSource
  have spells := root.descend areNames
  have fileSpells := spells.congr sameFile
  have isFile := Layout.isFile_of_mem_indexableFiles member
  have isAgain : back.isFile (layout.root.descend more) = true := by
    rw [root.isFile_descend_iff returns.after areNames, same.isSome_eq]
    exact (fileSpells.denotes_of_isFile isFile).isFile_iff.mp isFile
  rw [same.reading?_eq fileSpells spells isFile isAgain, isText]

end

/-! What a source shows when the pending pointers have been tried again. -/

section

variable {disk : Disk} {before dropped reread : Tracker} {source : Path} {text : Text}

theorem Lists.shows_retryPending (lists : Lists reread source (extract disk reread.layout text))
    (consistent : reread.index.Consistent) :
    Shows (reread.retryPending disk).1 source (extract disk reread.layout text) := by
  have shows := lists.shows
  rw [← @map_releaseFrom_none (fun _ => false) (fun _ => rfl)
    (extract disk reread.layout text)] at shows
  exact shows.retryPending (fun _ => rfl) consistent

theorem Drops.shows_retryPending {gone : Path → Bool} (drops : Drops gone before dropped)
    (shows : Shows before source (extract disk reread.layout text))
    (stays : gone source = false) (unchanged : SameSource source reread dropped)
    (consistent : reread.index.Consistent) :
    Shows (reread.retryPending disk).1 source (extract disk reread.layout text) :=
  ((drops.shows shows stays).congr unchanged).retryPending drops.congr consistent

theorem Drops.untracked_retryPending {gone : Path → Bool} (drops : Drops gone before dropped)
    (untracked : before.tracked.get? source = none) (unchanged : SameSource source reread dropped) :
    (reread.retryPending disk).1.tracked.get? source = none := by
  rw [tracked_retryPending, unchanged.tracked, drops.tracked, untracked]
  split <;> rfl

end

/-! The whole way out and back. -/

section

variable {layout : Layout} {settings : Settings} {disk gone back : Disk} {above names : List Text}
  {path : Path} {before : Tracker}

theorem UpToDate.similar_after_return (plain : before.layout.Plain)
    (root : before.layout.root.Spells above) (same : disk.SameFiles back)
    (isThere : disk.pathExists before.layout.root = true)
    (returns : ChangesBelow before.layout.root above names gone back (.created path))
    (upToDate : before.UpToDate disk) (sound : before.Sound)
    (readable : ∀ file ∈ before.layout.indexableFiles disk,
      (disk.reading? before.settings file).isSome) (source : Path) :
    SimilarSource source ((before.apply gone (.removed path)).apply back (.created path))
      before := by
  have drops : Drops (·.isWithin path) before (before.apply gone (.removed path)) :=
    drops_forgetWithin sound.coupled path
  have droppedSound : (before.apply gone (.removed path)).Sound := sound_apply sound _
  have afterSound : ((before.apply gone (.removed path)).apply back (.created path)).Sound :=
    sound_apply droppedSound _
  obtain ⟨reread, rereadSound, rereads, isRetry⟩ := @apply_created back _ droppedSound path
  rw [drops.layout, drops.settings] at rereads
  have sameLayout : reread.layout = before.layout := rereads.layout.trans drops.layout
  have sameExtract (text : Text) :
      extract back reread.layout text = extract disk before.layout text := by
    rw [sameLayout, same.extract_eq plain]
  have consistent := rereadSound.coupled.consistent
  have returned_iff := exists_returned_iff root same isThere returns source
  rw [isRetry] at afterSound ⊢
  by_cases listed : ∃ file ∈ before.layout.indexableFiles disk, (file == source) = true
  · obtain ⟨file, member, sameFile⟩ := listed
    obtain ⟨text, isText⟩ := Option.isSome_iff_exists.mp (readable file member)
    have lists := upToDate.listed file member
    rw [pointersIn, isText, Option.getD_some, ← sameExtract] at lists
    have showsBefore := lists.shows.respell sameFile
    refine Shows.similar ?_ showsBefore
    -- What lies beneath the path is read anew; the retry gives the others their targets back.
    by_cases inside : source.isWithin path = true
    · obtain ⟨again, isSource, sameSource⟩ := returned_iff.mpr ⟨inside, file, member, sameFile⟩
      have isTextAgain := reading?_of_returned root same returns member isSource
        (BEq.trans sameSource (BEq.symm sameFile)) isText
      have listsAgain := rereads.read again isSource text isTextAgain
      rw [drops.layout, ← sameLayout] at listsAgain
      exact (listsAgain.shows_retryPending consistent).respell sameSource
    · refine drops.shows_retryPending showsBefore (Bool.eq_false_iff.mpr inside) ?_ consistent
      refine rereads.others source fun other isSource => Bool.eq_false_iff.mpr fun sameSource => ?_
      exact inside (returned_iff.mp ⟨other, isSource, sameSource⟩).1
  · have untracked := upToDate.others source fun file member =>
      Bool.eq_false_iff.mpr fun sameFile => listed ⟨file, member, sameFile⟩
    have unread := rereads.others source fun other isSource =>
      Bool.eq_false_iff.mpr fun sameSource =>
        listed (returned_iff.mp ⟨other, isSource, sameSource⟩).2
    have stillUntracked := @Drops.untracked_retryPending back _ _ _ _ _ drops untracked unread
    exact ((lists_nil afterSound.coupled stillUntracked).sameSource
      (lists_nil sound.coupled untracked)).similar

/-- When a file or folder is taken out of a workspace that was just scanned without failures, and
comes back with the same contents, the events of the two changes leave the pointers with their
targets, the number of the pending ones and the snapshot as they were. -/
theorem scanned_restored_after_return (plain : layout.Plain)
    (noFailures : (Session.scan disk { tracker := .ofLayout layout settings }).1.filesFailed = 0)
    (leaves : Change layout.root disk (.removed path) gone)
    (returns : Change layout.root gone (.created path) back) (same : disk.SameFiles back) :
    let before := scanned disk layout settings
    let after := (before.apply gone (.removed path)).apply back (.created path)
    (∀ source, after.tracked.get? source = before.tracked.get? source) ∧
      after.pendingCount = before.pendingCount ∧ (after.snapshot == before.snapshot) = true := by
  intro before after
  obtain ⟨upToDate, sameLayout, sameSettings, sound⟩ := upToDate_scanned disk layout settings
  have scan := completeScan_of_new noFailures
  have readable : ∀ file ∈ before.layout.indexableFiles disk,
      (disk.reading? before.settings file).isSome := by
    rw [sameLayout, sameSettings]
    exact scan.history.tidy.readable_of_scan scan.undisturbed scan.current scan.completed
      scan.noFailures
  obtain ⟨above, root⟩ := plain.root
  obtain ⟨_, leavesBelow⟩ := leaves.changesBelow root
  obtain ⟨_, returnsBelow⟩ := returns.changesBelow root
  have similar (source : Path) : SimilarSource source after before := by
    rw [← sameLayout] at plain root leavesBelow returnsBelow
    exact upToDate.similar_after_return plain root same leavesBelow.before returnsBelow sound
      readable source
  have contents := sameContents_of_similar (sound_apply (sound_apply sound _) _).coupled
    sound.coupled similar
  exact ⟨contents.tracked, pendingCount_congr contents.tracked, contents.snapshot⟩

end

theorem scanned_restored_after_return_of_folder :
    let layout : Layout := ⟨.ofText "/w".toList, []⟩
    let note := Path.ofText "/w/a.md".toList
    let moved := layout.root.descend ["d".toList]
    let pointers := Content.text "@d/a.md:L1".toList
    let disk := ((Disk.empty.write note ⟨.text "@d/x.rs:L1 @d/x.rs:L1".toList, 0⟩).write
      (moved.child "b.md".toList) ⟨pointers, 0⟩).write (moved.child "x.rs".toList) ⟨.text [], 0⟩
    let gone := disk.remove moved
    let inner : Folder := .fileEntry "b.md".toList ⟨pointers, 0⟩
      (.fileEntry "x.rs".toList ⟨.text [], 0⟩ .empty)
    let back := gone.putNode (Disk.namesOf moved) (.folder inner)
      ⟨by decide, ⟨by decide, trivial⟩, by decide, trivial, trivial⟩
    let before := scanned disk layout .default
    let between := before.apply gone (.removed moved)
    let after := between.apply back (.created moved)
    layout.Plain ∧
      (Session.scan disk { tracker := .ofLayout layout .default }).1.filesFailed = 0 ∧
      Change layout.root disk (.removed moved) gone ∧
      Change layout.root gone (.created moved) back ∧ disk.SameFiles back ∧
      before.snapshot.length = 2 ∧ before.pendingCount = 0 ∧
      between.snapshot.length = 0 ∧ between.pendingCount = 2 ∧
      (∀ source, after.tracked.get? source = before.tracked.get? source) ∧
      after.pendingCount = before.pendingCount ∧ (after.snapshot == before.snapshot) = true := by
  intro layout note moved pointers disk gone inner back before between after
  have plain : layout.Plain := ⟨⟨["w".toList], rfl⟩, nofun⟩
  have noFailures :
      (Session.scan disk { tracker := .ofLayout layout .default }).1.filesFailed = 0 := by
    decide +kernel
  have leaves : Change layout.root disk (.removed moved) gone :=
    .removed ["d".toList] (by decide) (List.cons_ne_nil _ _) (by decide +kernel)
  have returns : Change layout.root gone (.created moved) back :=
    .created ["d".toList] _ _ (by decide) (List.cons_ne_nil _ _) (by decide +kernel)
      (by decide +kernel)
  have sameRoot : back.root = disk.root := by decide +kernel
  have same : disk.SameFiles back := by
    intro names
    rw [Disk.fileAt?_eq, sameRoot, ← Disk.fileAt?_eq]
  have restored := scanned_restored_after_return plain noFailures leaves returns same
  exact ⟨plain, noFailures, leaves, returns, same, by decide +kernel, by decide +kernel,
    by decide +kernel, by decide +kernel, restored⟩

end Tracker

end CodePointers
