import CodePointers.Proofs.Tracker.ChangedSources
import CodePointers.Proofs.Tracker.ShownPointers

/-!
What a tracker retains of a file when it has heard of a change of the file and then of other events.
What was read stays, apart from what a removal takes away, and a file or a pointer that was taken
away comes back when it is read or resolved again.
-/

namespace CodePointers

open TextCache

namespace FileEvent

def reads (disk : Disk) (layout : Layout) (file : Path) (event : FileEvent) : Bool :=
  (event.sources disk layout).any (· == file)

/-- Whether an event has the pointers of a file resolved anew, if only those that are pending. -/
def renews (disk : Disk) (layout : Layout) (file : Path) : FileEvent → Bool
  | created _ => true
  | event => event.reads disk layout file

def removes (place : Path) : FileEvent → Bool
  | removed path => place.isWithin path
  | _ => false

/-- Whether a place is gone after some events, when some of them restore it. -/
def isGone (restores : FileEvent → Bool) (place : Path) (events : List FileEvent) : Bool :=
  events.foldl (fun gone event => gone && !restores event || event.removes place) false

/-- Whether after some events nothing is gone of what the text of a file, if it has one, gives: the
file itself, until it is read again, and the targets, until pending pointers are resolved again. -/
def Spare (disk : Disk) (layout : Layout) (settings : Settings) (file : Path)
    (events : List FileEvent) : Prop :=
  ∀ text, disk.reading? settings file = some text →
    isGone (reads disk layout file) file events = false ∧
      ∀ tracked ∈ Tracker.extract disk layout text, ∀ target, tracked.target? = some target →
        isGone (renews disk layout file) target events = false

variable {restores : FileEvent → Bool} {place other : Path}

theorem isGone_nil : isGone restores place [] = false := rfl

theorem isGone_concat (events : List FileEvent) (event : FileEvent) :
    isGone restores place (events ++ [event]) =
      (isGone restores place events && !restores event || event.removes place) :=
  List.foldl_concat ..

theorem isGone_congr (same : place == other) (events : List FileEvent) :
    isGone restores place events = isGone restores other events := by
  have removesSame : removes place = removes other := by
    funext event
    cases event with
    | removed path => exact Path.isWithin_congr same
    | _ => rfl
  rw [isGone, removesSame, ← isGone]

end FileEvent

open FileEvent

namespace Tracker

/-- What a tracker has of a file, some events after it has heard of its change. -/
structure Retains (disk : Disk) (file : Path) (since : List FileEvent) (tracker : Tracker) :
    Prop where
  truthful : tracker.cache.TruthfulAt disk file
  unknown : disk.pathExists file = false → ¬tracker.Knows file
  listed : ∀ text, disk.reading? tracker.settings file = some text →
    isGone (reads disk tracker.layout file) file since = false →
      Shows tracker file ((extract disk tracker.layout text).map
        (releaseFrom fun place => isGone (renews disk tracker.layout file) place since))

theorem Retains.shows {disk : Disk} {file : Path} {tracker : Tracker}
    (retains : Retains disk file [] tracker) {text : Text}
    (isText : disk.reading? tracker.settings file = some text) :
    Shows tracker file (extract disk tracker.layout text) := by
  have shows := retains.listed text isText rfl
  rwa [map_releaseFrom_none fun _ => isGone_nil] at shows

theorem Retains.of_spare {disk : Disk} {file : Path} {since : List FileEvent} {tracker : Tracker}
    (retains : Retains disk file since tracker)
    (spare : Spare disk tracker.layout tracker.settings file since) :
    Retains disk file [] tracker where
  truthful := retains.truthful
  unknown := retains.unknown
  listed text isText _ := by
    obtain ⟨isThere, targetsAre⟩ := spare text isText
    have shows := retains.listed text isText isThere
    rw [map_releaseFrom_of_not_gone targetsAre] at shows
    rwa [map_releaseFrom_none fun _ => isGone_nil]

/-! The event of a change. -/

section Changed

variable {disk : Disk} {tracker : Tracker} (sound : tracker.Sound) {file : Path}
  {names : List Text} (denotes : file.Denotes names)
include sound denotes

theorem apply_changed_of_indexable (indexable : isIndexable tracker.layout.root file = true) :
    ∃ reread, reread.Sound ∧ Rereads disk (disk.reading? tracker.settings) [file] tracker reread ∧
      Agrees disk (tracker.apply disk (.changed file)).cache (tracker.cache.erase file) ∧
      tracker.apply disk (.changed file) =
        if disk.pathExists file = false then reread.forget file else reread := by
  have isSource : (FileEvent.changed file).sources disk tracker.layout = [file] :=
    if_pos indexable
  have spelled : ∀ other ∈ (FileEvent.changed file).sources disk tracker.layout,
      ∃ names, other.Spells names := by
    rw [isSource, List.forall_mem_singleton]
    exact ⟨names, denotes.spells⟩
  have cache := @agrees_apply_changed disk tracker file spelled
  obtain ⟨reread, rereadSound, rereads, isAfter⟩ := @apply_changed disk tracker sound file
  rw [isSource] at cache rereads
  simp only [indexable, true_and] at isAfter
  exact ⟨reread, rereadSound, rereads, cache, isAfter⟩

theorem retains_changed (indexable : isIndexable tracker.layout.root file = true) :
    Retains disk file [] (tracker.apply disk (.changed file)) := by
  obtain ⟨reread, rereadSound, rereads, cache, isAfter⟩ :=
    @apply_changed_of_indexable disk tracker sound file names denotes indexable
  have truthful := cache.truthfulAt denotes.spells (truthfulAt_erase tracker.cache disk BEq.rfl)
  rw [isAfter] at truthful ⊢
  split at truthful
  · next missing =>
    rw [if_pos missing]
    have drops := drops_forget rereadSound.coupled.consistent file
    refine ⟨truthful, fun _ knows => ?_, fun text isText => ?_⟩
    · rcases knows with isTracked | ⟨lines, source, isStored⟩
      · simp [drops.tracked] at isTracked
      · simp [drops.stored] at isStored
    · rw [Disk.pathExists_of_reading? isText] at missing
      cases missing
  · next isThere =>
    rw [if_neg isThere]
    refine ⟨truthful, fun missing => absurd missing isThere, fun text isText _ => ?_⟩
    rw [rereads.settings] at isText
    rw [rereads.layout, map_releaseFrom_none fun _ => isGone_nil]
    exact (rereads.read file (List.mem_singleton_self file) text isText).shows

theorem alike_changed_of_retains
    (retains : isIndexable tracker.layout.root file = true → Retains disk file [] tracker) :
    Alike disk (tracker.apply disk (.changed file)) tracker := by
  by_cases indexable : isIndexable tracker.layout.root file = true
  · have retained := retains indexable
    obtain ⟨reread, rereadSound, rereads, cache, isAfter⟩ :=
      @apply_changed_of_indexable disk tracker sound file names denotes indexable
    have similar := rereads.similar_of_shows
      (List.forall_mem_singleton.mpr fun text => retained.shows)
    have sameCache := cache.trans (agrees_erase denotes retained.truthful)
    rw [isAfter] at sameCache ⊢
    split at sameCache
    · next missing =>
      rw [if_pos missing]
      have drops := drops_forget rereadSound.coupled.consistent file
      have forgotten := drops.similar_of_unknown rereadSound.coupled fun path knows =>
        Bool.eq_false_iff.mpr fun same => retained.unknown missing
          ((SimilarSource.knows_iff similar file).mp (knows.congr (BEq.symm same)))
      exact ⟨rereads.layout, rereads.settings,
        fun source => (forgotten source).trans (similar source), sameCache⟩
    · next isThere =>
      rw [if_neg isThere]
      exact ⟨rereads.layout, rereads.settings, similar, sameCache⟩
  · have unchanged : tracker.apply disk (.changed file) = tracker := by rw [apply, if_neg indexable]
    rw [unchanged]
    exact .refl disk tracker

end Changed

/-! Scans. -/

theorem truthfulAt_apply {disk : Disk} {tracker : Tracker} (sound : tracker.Sound)
    {event : FileEvent}
    (spelled : ∀ file ∈ event.sources disk tracker.layout, ∃ names, file.Spells names)
    {file : Path} {names : List Text} (spells : file.Spells names)
    (truthful : tracker.cache.TruthfulAt disk file) :
    (tracker.apply disk event).cache.TruthfulAt disk file := by
  cases event with
  | changed path =>
      exact (agrees_apply_changed spelled).truthfulAt spells (truthful.foldl_erase _)
  | created path =>
      exact (agrees_apply_created spelled).truthfulAt spells (truthful.foldl_erase _)
  | removed path =>
      change ((tracker.knownWithin path).foldl forget tracker).cache.TruthfulAt disk file
      rw [cache_foldl_forget]
      exact truthful.foldl_erase _
  | rescan =>
      obtain ⟨_, _, _, gone, _, isCache⟩ := @apply_rescan disk tracker sound
      have read := @Session.agrees_scanFiles disk { tracker } _ rfl spelled
      rw [isCache]
      exact (read.truthfulAt spells truthful).foldl_erase gone

theorem reading?_eq_nil {disk : Disk} {settings : Settings} {path : Path} {text : Text}
    (isText : disk.reading? settings path = some text) (notFile : disk.isFile path = false) :
    text = [] := by
  obtain ⟨node, found, isReading⟩ := Option.bind_eq_some_iff.mp isText
  cases node with
  | file data =>
      rw [Disk.isFile_iff.mpr ⟨data, found⟩] at notFile
      cases notFile
  | folder tree =>
      unfold Disk.readingOf? at isReading
      split at isReading
      · exact (Option.some.inj isReading).symm
      · cases isReading

section Rescan

variable {disk : Disk} {tracker : Tracker} (sound : tracker.Sound)
  (sourcesProper : tracker.SourcesProper)
include sound sourcesProper

theorem not_lost_of_isFile (isThere : disk.pathExists tracker.layout.root = true) {target : Path}
    (isFile : disk.isFile target = true) : (tracker.rescanned disk).lost disk target = false := by
  obtain ⟨_, rereads, _⟩ := @apply_rescan disk tracker sound
  refine Bool.eq_false_iff.mpr fun isLost => ?_
  rw [lost, Bool.and_eq_true, Bool.not_eq_true', List.any_eq_false, rereads.layout] at isLost
  obtain ⟨isTracked, notScanned⟩ := isLost
  have untouched := rereads.others target fun file member =>
    Bool.eq_false_iff.mpr (notScanned file member)
  rw [untouched.tracked] at isTracked
  obtain ⟨found, isFound, same⟩ :=
    (sourcesProper target isTracked).exists_indexable isThere BEq.rfl isFile
  exact notScanned found isFound same

theorem targets_not_lost (isThere : disk.pathExists tracker.layout.root = true) {text : Text}
    {tracked : TrackedPointer} {target : Path} (member : tracked ∈ extract disk tracker.layout text)
    (isTarget : tracked.target? = some target) :
    (tracker.rescanned disk).lost disk target = false := by
  rw [target?_of_mem_extract member] at isTarget
  exact not_lost_of_isFile sound sourcesProper isThere (Layout.isFile_of_target? isTarget)

end Rescan

/-! Any event. -/

section Apply

variable {disk : Disk} {tracker : Tracker} (sound : tracker.Sound) {event : FileEvent}
  {file : Path} {names : List Text} (denotes : file.Denotes names)
  (same : ∀ other ∈ event.sources disk tracker.layout, (other == file) = true → other = file)
include sound denotes same

theorem knows_of_apply (truthful : tracker.cache.TruthfulAt disk file)
    (missing : disk.pathExists file = false) (knows : (tracker.apply disk event).Knows file) :
    tracker.Knows file := by
  -- What is read of a missing file is nothing, so an event can only make the tracker forget it.
  have unreadable : disk.reading? tracker.settings file = none := by
    cases isText : disk.reading? tracker.settings file with
    | none => rfl
    | some text =>
        rw [Disk.pathExists_of_reading? isText] at missing
        cases missing
  have knewBefore {reading : Path → Option Text} {reread : Tracker}
      (rereads : Rereads disk reading (event.sources disk tracker.layout) tracker reread)
      (current : reading file = disk.reading? tracker.settings file) (knows : reread.Knows file) :
      tracker.Knows file := by
    refine rereads.knows denotes missing (fun other member isFile => ?_) knows
    rw [same other member isFile, current, unreadable]
  cases event with
  | changed path =>
      obtain ⟨reread, rereadSound, rereads, isAfter⟩ := @apply_changed disk tracker sound path
      refine knewBefore rereads rfl ?_
      rw [isAfter] at knows
      split at knows
      · exact (drops_forget rereadSound.coupled.consistent path).knows knows
      · exact knows
  | created path =>
      obtain ⟨reread, rereadSound, rereads, isAfter⟩ := @apply_created disk tracker sound path
      rw [isAfter] at knows
      exact knewBefore rereads rfl
        (knows_of_retryPending denotes missing rereadSound.coupled.consistent knows)
  | removed path => exact (drops_forgetWithin sound.coupled path).knows knows
  | rescan =>
      obtain ⟨_, rereads, drops, _⟩ := @apply_rescan disk tracker sound
      exact knewBefore rereads (Session.reading?_of_truthfulAt ⟨rfl, rfl⟩ truthful)
        (drops.knows knows)

end Apply

section Events

variable {disk : Disk} {tracker : Tracker} {file : Path} {since : List FileEvent}
  (retains : Retains disk file since tracker) {text : Text}
  (isText : disk.reading? tracker.settings file = some text)
include retains isText

theorem Retains.rereads {reading : Path → Option Text} {event : FileEvent} {reread : Tracker}
    (rereads : Rereads disk reading (event.sources disk tracker.layout) tracker reread)
    (current : ∀ other ∈ event.sources disk tracker.layout, (other == file) = true →
      reading other = disk.reading? tracker.settings file)
    (isThere : (isGone (reads disk tracker.layout file) file since &&
      !event.reads disk tracker.layout file) = false) :
    Shows reread file ((extract disk tracker.layout text).map (releaseFrom fun place =>
      isGone (renews disk tracker.layout file) place since &&
        !event.reads disk tracker.layout file)) := by
  cases isRead : event.reads disk tracker.layout file with
  | true =>
      obtain ⟨other, member, isFile⟩ := List.any_eq_true.mp isRead
      have lists := rereads.read other member text ((current other member isFile).trans isText)
      simp only [Bool.not_true, Bool.and_false]
      rw [map_releaseFrom_none fun _ => rfl]
      exact lists.shows.respell isFile
  | false =>
      rw [isRead, Bool.not_false, Bool.and_true] at isThere
      simp only [Bool.not_false, Bool.and_true]
      refine (retains.listed text isText isThere).congr (rereads.others file ?_)
      simpa [FileEvent.reads] using isRead

variable (sound : tracker.Sound)
include sound

theorem Retains.listed_changed {path : Path} {names : List Text} (place : path.Denotes names)
    (same : ∀ other ∈ (FileEvent.changed path).sources disk tracker.layout,
      (other == file) = true → other = file)
    (isThere : isGone (reads disk tracker.layout file) file (since ++ [.changed path]) = false) :
    Shows (tracker.apply disk (.changed path)) file ((extract disk tracker.layout text).map
      (releaseFrom fun place =>
        isGone (renews disk tracker.layout file) place (since ++ [.changed path]))) := by
  obtain ⟨reread, rereadSound, rereads, isAfter⟩ := @apply_changed disk tracker sound path
  simp only [isGone_concat, removes, renews, Bool.or_false] at isThere ⊢
  have shows := retains.rereads isText rereads (fun other member isFile => by
    rw [same other member isFile]) isThere
  rw [isAfter]
  split
  · next gone =>
    have apart {other : Path} (isOther : disk.pathExists other = true) :
        (path == other) = false := by
      refine Bool.eq_false_iff.mpr fun isPath => ?_
      rw [place.pathExists_of_beq (BEq.symm isPath) isOther] at gone
      cases gone.2
    have drops := drops_forget rereadSound.coupled.consistent path
    have stillShows := drops.shows shows (apart (Disk.pathExists_of_reading? isText))
    rwa [map_releaseFrom_of_not_gone] at stillShows
    intro released member target isTarget
    obtain ⟨tracked, inText, rfl⟩ := List.mem_map.mp member
    have wasTarget := (of_target?_releaseFrom isTarget).1
    rw [target?_of_mem_extract inText] at wasTarget
    exact apart (Disk.pathExists_of_isFile (Layout.isFile_of_target? wasTarget))
  · exact shows

theorem Retains.listed_created {path : Path}
    (same : ∀ other ∈ (FileEvent.created path).sources disk tracker.layout,
      (other == file) = true → other = file)
    (isThere : isGone (reads disk tracker.layout file) file (since ++ [.created path]) = false) :
    Shows (tracker.apply disk (.created path)) file ((extract disk tracker.layout text).map
      (releaseFrom fun place =>
        isGone (renews disk tracker.layout file) place (since ++ [.created path]))) := by
  obtain ⟨reread, rereadSound, rereads, isAfter⟩ := @apply_created disk tracker sound path
  simp only [isGone_concat, removes, renews, Bool.or_false, Bool.not_true,
    Bool.and_false] at isThere ⊢
  have shows := retains.rereads isText rereads (fun other member isFile => by
    rw [same other member isFile]) isThere
  rw [← rereads.layout] at shows ⊢
  rw [isAfter, map_releaseFrom_none fun _ => rfl]
  exact shows.retryPending (fun same => by rw [isGone_congr same]) rereadSound.coupled.consistent

theorem Retains.listed_removed {path : Path}
    (isThere : isGone (reads disk tracker.layout file) file (since ++ [.removed path]) = false) :
    Shows (tracker.apply disk (.removed path)) file ((extract disk tracker.layout text).map
      (releaseFrom fun place =>
        isGone (renews disk tracker.layout file) place (since ++ [.removed path]))) := by
  have unread : (FileEvent.removed path).reads disk tracker.layout file = false := rfl
  simp only [isGone_concat, removes, renews, unread, Bool.not_false, Bool.and_true,
    Bool.or_eq_false_iff] at isThere ⊢
  have drops := drops_forgetWithin sound.coupled path
  have shows := drops.shows (retains.listed text isText isThere.1) isThere.2
  rw [List.map_map, releaseFrom_comp] at shows
  exact shows

theorem Retains.listed_rescan (sourcesProper : tracker.SourcesProper)
    (reaches : disk.pathExists file = true → disk.pathExists tracker.layout.root = true)
    (same : ∀ other ∈ FileEvent.rescan.sources disk tracker.layout,
      (other == file) = true → other = file)
    (isThere : isGone (reads disk tracker.layout file) file (since ++ [.rescan]) = false) :
    Shows (tracker.apply disk .rescan) file ((extract disk tracker.layout text).map
      (releaseFrom fun place =>
        isGone (renews disk tracker.layout file) place (since ++ [.rescan]))) := by
  obtain ⟨_, rereads, drops, _⟩ := @apply_rescan disk tracker sound
  simp only [isGone_concat, removes, renews, Bool.or_false] at isThere ⊢
  have fromDisk : Session.FromDisk { tracker } := ⟨rfl, rfl⟩
  have shows := retains.rereads isText rereads (fun other member isFile => by
    rw [same other member isFile]
    exact Session.reading?_of_truthfulAt fromDisk retains.truthful) isThere
  have isRoot := reaches (Disk.pathExists_of_reading? isText)
  have stays : (tracker.rescanned disk).lost disk file = false := by
    cases isFile : disk.isFile file with
    | true => exact not_lost_of_isFile sound sourcesProper isRoot isFile
    | false =>
        have untracked := shows.tracked
        rw [reading?_eq_nil isText isFile] at untracked
        rw [lost, untracked]
        rfl
  have stillShows := drops.shows shows stays
  rwa [map_releaseFrom_of_not_gone] at stillShows
  intro released member target isTarget
  obtain ⟨tracked, inText, rfl⟩ := List.mem_map.mp member
  exact targets_not_lost sound sourcesProper isRoot inText (of_target?_releaseFrom isTarget).1

end Events

section Below

variable {disk : Disk} {tracker : Tracker} {above names : List Text} {since : List FileEvent}
  (retains : Retains disk (tracker.layout.root.descend names) since tracker)
  (root : tracker.layout.root.Denotes above) (areNames : names.all isEntryName = true)
include retains root areNames

theorem Retains.apply (sound : tracker.Sound) {event : FileEvent}
    (below : event.Below tracker.layout.root)
    (sourcesProper : event = .rescan → tracker.SourcesProper) :
    Retains disk (tracker.layout.root.descend names) (since ++ [event])
      (tracker.apply disk event) := by
  have denotes := root.descend areNames
  have spelled := @FileEvent.Below.spelled tracker.layout disk event above below root.spells
  have same := @FileEvent.Below.eq_of_source tracker.layout disk event above names below root.spells
    areNames
  obtain ⟨sameLayout, sameSettings⟩ := sameSetup_apply disk tracker event
  constructor
  · exact truthfulAt_apply sound spelled denotes.spells retains.truthful
  · intro missing knows
    exact retains.unknown missing (knows_of_apply sound denotes same retains.truthful missing knows)
  · intro text isText isThere
    rw [sameSettings] at isText
    rw [sameLayout] at isThere ⊢
    cases event with
    | changed path =>
        obtain ⟨changed, areChanged, rfl⟩ := below path rfl
        exact retains.listed_changed isText sound (root.descend areChanged) same isThere
    | created path => exact retains.listed_created isText sound same isThere
    | removed path => exact retains.listed_removed isText sound isThere
    | rescan =>
        exact retains.listed_rescan isText sound (sourcesProper rfl)
          (Disk.pathExists_of_descend areNames) same isThere

end Below

/-! The whole workspace, right after a scan. -/

/-- Whether a scan has nothing to do: all files are shown as they would be read, and there are no
other sources. -/
structure Swept (disk : Disk) (tracker : Tracker) : Prop where
  listed : ∀ file ∈ tracker.layout.indexableFiles disk, ∀ text,
    Session.reading? disk { tracker } file = some text →
      Shows tracker file (extract disk tracker.layout text)
  noneLost : ∀ path, tracker.lost disk path = false

section Swept

variable {disk : Disk} {tracker : Tracker} (sound : tracker.Sound)
include sound

theorem swept_rescan (sourcesProper : tracker.SourcesProper) :
    Swept disk (tracker.apply disk .rescan) := by
  obtain ⟨_, rereads, drops, gone, isLost, isCache⟩ := @apply_rescan disk tracker sound
  have sameLayout := drops.layout.trans rereads.layout
  refine ⟨fun file member text isText => ?_, fun path => ?_⟩
  · rw [sameLayout] at member ⊢
    have stays : (tracker.rescanned disk).lost disk file = false := by
      have isScanned : (tracker.layout.indexableFiles disk).any (· == file) = true :=
        List.any_eq_true.mpr ⟨file, member, BEq.rfl⟩
      rw [lost, rereads.layout, isScanned, Bool.not_true, Bool.and_false]
    have isThere : disk.pathExists tracker.layout.root = true := by
      refine Bool.not_eq_false _ ▸ fun missing => ?_
      rw [Layout.indexableFiles_eq_nil missing] at member
      cases member
    -- What is forgotten at the end of a scan takes no cached text of a scanned file along.
    have sameReading : Session.reading? disk { tracker := tracker.apply disk .rescan } file =
        Session.reading? disk { tracker } file := by
      have keepsText : Session.reading? disk { tracker := tracker.apply disk .rescan } file =
          Session.reading? disk { tracker := tracker.rescanned disk } file := by
        refine Session.reading?_congr disk drops.settings rfl ?_
        change (tracker.apply disk .rescan).cache.get? file = _
        rw [isCache, get?_foldl_erase, isLost, stays, if_neg Bool.false_ne_true]
      exact keepsText.trans (reading?_rescanned member)
    rw [sameReading] at isText
    have shows := (rereads.read file member text isText).shows
    have stillShows := drops.shows shows stays
    rwa [map_releaseFrom_of_not_gone] at stillShows
    exact fun tracked inText target isTarget =>
      targets_not_lost sound sourcesProper isThere inText isTarget
  · refine Bool.eq_false_iff.mpr fun stillLost => ?_
    rw [lost, drops.tracked, drops.layout] at stillLost
    cases wasLost : (tracker.rescanned disk).lost disk path with
    | true => simp [wasLost] at stillLost
    | false =>
        rw [wasLost, if_neg Bool.false_ne_true, Option.isSome_map, ← lost, wasLost] at stillLost
        cases stillLost

variable (swept : Swept disk tracker)
include swept

theorem Swept.rescanned_similar (source : Path) :
    SimilarSource source (tracker.rescanned disk) tracker := by
  obtain ⟨_, rereads, _⟩ := @apply_rescan disk tracker sound
  exact rereads.similar_of_shows swept.listed source

theorem Swept.none_lost (path : Path) : (tracker.rescanned disk).lost disk path = false := by
  obtain ⟨_, rereads, _⟩ := @apply_rescan disk tracker sound
  rw [lost, (swept.rescanned_similar sound path).tracked, rereads.layout]
  exact swept.noneLost path

theorem similar_rescan_of_swept (source : Path) :
    SimilarSource source (tracker.apply disk .rescan) tracker := by
  obtain ⟨rescannedSound, _, drops, _⟩ := @apply_rescan disk tracker sound
  have unchanged := drops.similar_of_unknown rescannedSound.coupled
    (fun path _ => swept.none_lost sound path) source
  exact unchanged.trans (swept.rescanned_similar sound source)

theorem alike_rescan_of_swept
    (spelled : ∀ file ∈ tracker.layout.indexableFiles disk, ∃ names, file.Spells names) :
    Alike disk (tracker.apply disk .rescan) tracker := by
  obtain ⟨_, rereads, drops, gone, isLost, isCache⟩ := @apply_rescan disk tracker sound
  have readCache := @Session.agrees_scanFiles disk { tracker } _ rfl spelled
  refine ⟨drops.layout.trans rereads.layout, drops.settings.trans rereads.settings,
    similar_rescan_of_swept sound swept, ?_⟩
  rw [isCache]
  refine @Agrees.foldl_erase disk _ _ readCache gone [] fun path => ?_
  rw [isLost, swept.none_lost sound]
  rfl

end Swept

/-! Events that are passed over. -/

section Skip

variable {disk : Disk} {tracker : Tracker} {file : Path} {since : List FileEvent}
  (retains : Retains disk file since tracker)
include retains

theorem Retains.skip_changed {path : Path} (apart : (path == file) = false) :
    Retains disk file (since ++ [.changed path]) tracker := by
  have unread : (FileEvent.changed path).reads disk tracker.layout file = false := by
    rw [FileEvent.reads, FileEvent.sources]
    split
    · simpa using apart
    · rfl
  refine ⟨retains.truthful, retains.unknown, fun text isText isThere => ?_⟩
  simp only [isGone_concat, removes, renews, unread, Bool.or_false, Bool.not_false,
    Bool.and_true] at isThere ⊢
  exact retains.listed text isText isThere

theorem Retains.skip_rescan (swept : Swept disk tracker)
    (same : ∀ other ∈ tracker.layout.indexableFiles disk, (other == file) = true → other = file) :
    Retains disk file (since ++ [.rescan]) tracker := by
  refine ⟨retains.truthful, retains.unknown, fun text isText isThere => ?_⟩
  simp only [isGone_concat, removes, renews, Bool.or_false] at isThere ⊢
  cases isRead : FileEvent.rescan.reads disk tracker.layout file with
  | true =>
      obtain ⟨other, member, isFile⟩ := List.any_eq_true.mp isRead
      have current : Session.reading? disk { tracker } other = some text := by
        have fromDisk : Session.FromDisk { tracker } := ⟨rfl, rfl⟩
        rw [same other member isFile, Session.reading?_of_truthfulAt fromDisk retains.truthful]
        exact isText
      simp only [Bool.not_true, Bool.and_false]
      rw [map_releaseFrom_none fun _ => rfl]
      exact (swept.listed other member text current).respell isFile
  | false =>
      simp only [isRead, Bool.not_false, Bool.and_true] at isThere ⊢
      exact retains.listed text isText isThere

end Skip

end Tracker

end CodePointers
