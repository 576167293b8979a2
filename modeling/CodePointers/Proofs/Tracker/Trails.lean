import CodePointers.Proofs.Tracker.Anchors
import CodePointers.Proofs.Tracker.ChangedSources

/-!
A tracker that follows the changes of the disk one by one, after a scan. At every moment it has the
sources that a scan would find, with their pointers, and no target that is not there.
-/

namespace CodePointers

namespace Tracker

/-- What the event of a change leads to. -/
inductive Response (next : Disk) (tracker : Tracker) : FileEvent → Tracker → Prop
  | changed {path reread} (sound : reread.Sound)
      (rereads : Rereads next (next.reading? tracker.settings)
        ((FileEvent.changed path).sources next tracker.layout) tracker reread) :
      Response next tracker (.changed path) reread
  | created {path reread} (sound : reread.Sound)
      (rereads : Rereads next (next.reading? tracker.settings)
        ((FileEvent.created path).sources next tracker.layout) tracker reread) :
      Response next tracker (.created path) (reread.retryPending next).1
  | removed {path after} (drops : Drops (·.isWithin path) tracker after) :
      Response next tracker (.removed path) after

theorem response_of_changesBelow {tracker : Tracker} (sound : tracker.Sound)
    {above names : List Text}
    {disk next : Disk} {event : FileEvent} (root : tracker.layout.root.Spells above)
    (changes : ChangesBelow tracker.layout.root above names disk next event) :
    Response next tracker event (tracker.apply next event) := by
  cases changes.change with
  | rewritten before after =>
      obtain ⟨reread, rereadSound, rereads, isReread⟩ :=
        @apply_changed next tracker sound (tracker.layout.root.descend names)
      have isThere : next.pathExists (tracker.layout.root.descend names) = true :=
        Disk.pathExists_of_isFile
          ((root.denotes_descend changes.areNames changes.below).isFile_iff.mpr after)
      rw [isReread, if_neg (by simp [isThere])]
      exact .changed rereadSound rereads
  | created empty isThere =>
      obtain ⟨reread, rereadSound, rereads, isReread⟩ :=
        @apply_created next tracker sound (tracker.layout.root.descend names)
      rw [isReread]
      exact .created rereadSound rereads
  | removed empty => exact .removed (drops_forgetWithin sound.coupled _)

/-! What becomes of a single pointer. -/

/-- The target of a pointer after an event that has not read its source anew. -/
def retarget (disk : Disk) (layout : Layout) (pointer : Pointer) (target? : Option Path) :
    FileEvent → Option Path
  | .created _ => target?.or (layout.target? disk pointer)
  | .removed path => target?.filter fun target => !target.isWithin path
  | .changed _ | .rescan => target?

theorem Rereads.mem_pointersOf {disk : Disk} {reading : Path → Option Text} {files : List Path}
    {tracker reread : Tracker} (rereads : Rereads disk reading files tracker reread)
    {source : Path} {tracked : TrackedPointer}
    (member : tracked ∈ reread.pointersOf source) :
    tracked.target? = tracker.layout.target? disk tracked.pointer ∨
      tracked ∈ tracker.pointersOf source := by
  rcases rereads.source_cases source with ⟨file, text, same, lists⟩ | unchanged
  · rw [← reread.pointersOf_congr same, lists.pointersOf] at member
    exact .inl (target?_of_mem_extract member)
  · rw [unchanged.pointersOf] at member
    exact .inr member

theorem Response.mem_pointersOf {next : Disk} {tracker after : Tracker} {event : FileEvent}
    (response : Response next tracker event after) {source : Path} {tracked : TrackedPointer}
    (member : tracked ∈ after.pointersOf source) :
    tracked.target? = tracker.layout.target? next tracked.pointer ∨
      ∃ old ∈ tracker.pointersOf source, tracked.pointer = old.pointer ∧
        tracked.target? = retarget next tracker.layout old.pointer old.target? event := by
  cases response with
  | changed sound rereads =>
      rcases rereads.mem_pointersOf member with current | before
      · exact .inl current
      · exact .inr ⟨tracked, before, rfl, rfl⟩
  | @created path reread sound rereads =>
      rw [pointersOf_retryPending] at member
      obtain ⟨old, inReread, rfl⟩ := List.mem_map.mp member
      obtain ⟨samePointer, isTarget⟩ := pointer_renew next reread.layout old
      rw [samePointer, isTarget, rereads.layout]
      rcases rereads.mem_pointersOf inReread with current | before
      · left
        rw [current, Option.or_self]
      · exact .inr ⟨old, before, rfl, rfl⟩
  | removed drops =>
      rw [pointersOf, drops.tracked] at member
      split at member
      · cases member
      · rw [get?_map_getD] at member
        obtain ⟨old, inOld, rfl⟩ := List.mem_map.mp member
        exact .inr ⟨old, inOld, rfl, rfl⟩

/-! The invariant. -/

/-- A tracker with the sources of the disk, whose targets are all there. -/
structure Attuned (disk : Disk) (layout : Layout) (settings : Settings) (tracker : Tracker) :
    Prop where
  tidy : Tidy layout settings tracker
  anchored : tracker.Anchored
  outlines : ∀ source, tracker.outline source = (scanned disk layout settings).outline source
  targets : ∀ source, ∀ tracked ∈ tracker.pointersOf source, ∀ target,
    tracked.target? = some target → disk.isFile target = true

section Step

variable {disk next : Disk} {layout : Layout} {settings : Settings} {tracker reread : Tracker}
  {event : FileEvent} {above names : List Text} (attuned : Attuned disk layout settings tracker)
  (root : layout.root.Spells above)
  (changes : ChangesBelow layout.root above names disk next event)

theorem outline_scanned (root : layout.root.Spells above)
    (isThere : disk.pathExists layout.root = true) {source : Path} {sourceNames : List Text}
    (spells : source.Spells sourceNames) :
    (scanned disk layout settings).outline source =
      outlineAt? disk layout settings source sourceNames := by
  obtain ⟨upToDate, sameLayout, sameSettings, _⟩ := upToDate_scanned disk layout settings
  rw [← sameLayout] at root isThere
  rw [upToDate.outline_eq root isThere spells, sameLayout, sameSettings]

theorem outline_scanned_eq_none (root : layout.root.Spells above) {source : Path}
    (unspelled : ∀ names, ¬source.Spells names) :
    (scanned disk layout settings).outline source = none := by
  obtain ⟨upToDate, sameLayout, _⟩ := upToDate_scanned disk layout settings
  rw [← sameLayout] at root
  exact upToDate.outline_eq_none root unspelled

include attuned root changes

theorem Attuned.outline_reread (notRemoved : ∀ path, event ≠ .removed path)
    (legible : next.Legible layout.root)
    (rereads : Rereads next (next.reading? tracker.settings) (event.sources next layout) tracker
      reread) (source : Path) :
    reread.outline source = (scanned next layout settings).outline source := by
  by_cases inSources : ∃ file ∈ event.sources next layout, (file == source) = true
  · obtain ⟨file, member, same⟩ := inSources
    obtain ⟨more, areNames, rfl, indexable⟩ := changes.eventBelow.mem_sources member
    have spells := root.descend areNames
    obtain ⟨_, _, isThere⟩ :=
      (changes.exists_source_iff root notRemoved spells).mp ⟨_, member, BEq.rfl⟩
    obtain ⟨data, isData⟩ := Option.isSome_iff_exists.mp isThere
    obtain ⟨text, isText⟩ := changes.readable_of_mem_sources root legible settings member
    have isFile := (root.isFile_descend_iff changes.after areNames).mpr isThere
    have within : (layout.root.descend more).isWithin layout.root = true :=
      (changes.eventBelow.proper root member).within
    have lists := rereads.read _ member text (by rw [attuned.tidy.settings, isText])
    rw [← reread.outline_congr same, lists.outline, ← outline_congr _ same,
      outline_scanned root changes.after spells, outlineAt?, if_pos ⟨within, indexable⟩, isData,
      Option.bind_some, ← reading?_of_fileAt? spells isFile isData, isText]
    rfl
  -- A source that was not read has the old outline, so the disk must show the same of it.
  · have unread := rereads.others source fun file member =>
      Bool.eq_false_iff.mpr fun same => inSources ⟨file, member, same⟩
    rw [unread.outline, attuned.outlines source]
    by_cases spelled : ∃ sourceNames, source.Spells sourceNames
    · obtain ⟨sourceNames, spells⟩ := spelled
      rw [outline_scanned root changes.before spells, outline_scanned root changes.after spells]
      rw [changes.exists_source_iff root notRemoved spells, ← and_assoc, not_and] at inSources
      by_cases inside : above ++ names <+: sourceNames
      · by_cases indexable : isIndexable layout.root source = true
        · have missing := inSources ⟨inside, indexable⟩
          have missingBefore : ¬(disk.fileAt? sourceNames).isSome := fun isFile =>
            missing (changes.isSome_fileAt? notRemoved isFile)
          rw [outlineAt?_eq_none (Option.not_isSome_iff_eq_none.mp missingBefore),
            outlineAt?_eq_none (Option.not_isSome_iff_eq_none.mp missing)]
        · have notProper : ¬(source.isWithin layout.root = true ∧
              isIndexable layout.root source = true) := fun proper => indexable proper.2
          rw [outlineAt?, if_neg notProper, outlineAt?, if_neg notProper]
      · rw [outlineAt?, outlineAt?, changes.outside sourceNames inside]
    · rw [not_exists] at spelled
      rw [outline_scanned_eq_none root spelled, outline_scanned_eq_none root spelled]

theorem Attuned.outline_drops {after : Tracker} (empty : next.EmptyAt (above ++ names))
    (drops : Drops (·.isWithin (layout.root.descend names)) tracker after) (source : Path) :
    after.outline source = (scanned next layout settings).outline source := by
  have place := root.denotes_descend changes.areNames changes.below
  rw [drops.outline, attuned.outlines source]
  by_cases spelled : ∃ sourceNames, source.Spells sourceNames
  · obtain ⟨sourceNames, spells⟩ := spelled
    rw [outline_scanned root changes.before spells, outline_scanned root changes.after spells]
    split
    · next gone =>
      rw [spells.isWithin_iff place.spells] at gone
      rw [outlineAt?_eq_none (empty sourceNames gone)]
    · next stays =>
      rw [spells.isWithin_iff place.spells] at stays
      rw [outlineAt?, outlineAt?, changes.outside sourceNames stays]
  · rw [not_exists] at spelled
    rw [outline_scanned_eq_none root spelled, outline_scanned_eq_none root spelled]
    exact ite_self none

theorem Attuned.outline_response {after : Tracker} (response : Response next tracker event after)
    (legible : next.Legible layout.root) (source : Path) :
    after.outline source = (scanned next layout settings).outline source := by
  have sameLayout := attuned.tidy.layout
  cases response with
  | changed sound rereads =>
      rw [sameLayout] at rereads
      exact attuned.outline_reread root changes nofun legible rereads source
  | created sound rereads =>
      rw [sameLayout] at rereads
      rw [outline_retryPending]
      exact attuned.outline_reread root changes nofun legible rereads source
  | removed drops =>
      cases changes.change with
      | removed empty => exact attuned.outline_drops root changes empty drops source

omit root in
theorem Attuned.isFile_of_retarget {source : Path} {old : TrackedPointer}
    (member : old ∈ tracker.pointersOf source) {target : Path}
    (isTarget : retarget next layout old.pointer old.target? event = some target)
    (root : layout.root.Spells above) : next.isFile target = true := by
  have place := root.denotes_descend changes.areNames changes.below
  have stays (isOld : old.target? = some target) : disk.isFile target = true ∧
      ∃ targetNames, target.Denotes targetNames :=
    ⟨attuned.targets source old member target isOld,
      attuned.anchored.targets source old member target isOld⟩
  cases changes.change with
  | rewritten before after =>
      obtain ⟨isFile, targetNames, denotes⟩ := stays isTarget
      rw [denotes.isFile_iff] at isFile ⊢
      exact changes.isSome_fileAt? nofun isFile
  | created empty isThere =>
      rcases Option.or_eq_some_iff.mp isTarget with isOld | ⟨_, isNew⟩
      · obtain ⟨isFile, targetNames, denotes⟩ := stays isOld
        rw [denotes.isFile_iff] at isFile ⊢
        exact changes.isSome_fileAt? nofun isFile
      · exact Layout.isFile_of_target? isNew
  | removed empty =>
      obtain ⟨isOld, notWithin⟩ := Option.mem_filter_iff.mp isTarget
      obtain ⟨isFile, targetNames, denotes⟩ := stays isOld
      have outside : ¬above ++ names <+: targetNames := by
        rw [← denotes.spells.isWithin_iff place.spells]
        simpa using notWithin
      rw [denotes.isFile_iff] at isFile ⊢
      rwa [changes.outside targetNames outside]

end Step

theorem Attuned.step {disk next : Disk} {layout : Layout} {settings : Settings} {tracker : Tracker}
    (attuned : Attuned disk layout settings tracker) {event : FileEvent}
    (change : Change layout.root disk event next) (legible : next.Legible layout.root) :
    Attuned next layout settings (tracker.apply next event) := by
  obtain rfl : tracker.layout = layout := attuned.tidy.layout
  obtain ⟨above, root⟩ := attuned.anchored.plain.root
  obtain ⟨names, changes⟩ := change.changesBelow root
  have response := response_of_changesBelow attuned.tidy.sound root changes
  have admits : ∀ file ∈ event.sources next tracker.layout, tracker.layout.grants.Admits file :=
    fun file member => (changes.eventBelow.proper root member).admitted
  have moves := moves_apply next admits
  constructor
  case tidy => exact moves.invariant (fun _ _ move before => before.move move) attuned.tidy
  case anchored => exact attuned.anchored.moves moves
  case outlines => exact attuned.outline_response root changes response legible
  case targets =>
    intro source tracked member target isTarget
    rcases response.mem_pointersOf member with current | ⟨old, inOld, _, retargeted⟩
    · rw [isTarget] at current
      exact Layout.isFile_of_target? current.symm
    · rw [isTarget] at retargeted
      exact attuned.isFile_of_retarget changes inOld retargeted.symm root

theorem History.anchored {layout : Layout} {settings : Settings} {tracker : Tracker}
    (history : History layout settings tracker) (plain : layout.Plain) : tracker.Anchored := by
  induction history with
  | start => exact anchored_ofLayout plain settings
  | perform _ disk operation within ih => exact ih.moves (moves_perform disk within)
  | apply _ disk event proper ih =>
      exact ih.moves (moves_apply disk fun file _ => Guard.given_admits file)

theorem UpToDate.target?_eq {disk : Disk} {tracker : Tracker} (upToDate : tracker.UpToDate disk)
    {source : Path} {tracked : TrackedPointer} (member : tracked ∈ tracker.pointersOf source) :
    tracked.target? = tracker.layout.target? disk tracked.pointer := by
  obtain ⟨file, inFiles, same⟩ | apart :=
    Path.listed_or_apart (tracker.layout.indexableFiles disk) source
  · rw [← tracker.pointersOf_congr same, (upToDate.listed file inFiles).pointersOf] at member
    exact target?_of_mem_extract member
  · rw [pointersOf, upToDate.others source apart] at member
    cases member

structure Moment where
  disk : Disk
  tracker : Tracker

/-- A session with a tracker of the workspace, about to scan a disk on which it can read all files
as they are. -/
structure CompleteScan (layout : Layout) (settings : Settings) (disk : Disk) (session : Session) :
    Prop where
  history : History layout settings session.tracker
  undisturbed : session.Undisturbed
  current : ∀ file ∈ layout.indexableFiles disk, session.Current disk file
  completed : (session.scan disk).1.cancelled = false
  noFailures : (session.scan disk).1.filesFailed = 0

/-- The moments after a scan and after each event since, the latest one first. Every change of the
disk is followed by the event that reports it. -/
inductive Trail (layout : Layout) (settings : Settings) : List Moment → Prop
  | start {disk session} (scan : CompleteScan layout settings disk session) :
      Trail layout settings [⟨disk, (session.scan disk).2.tracker⟩]
  | follow {now past event next} (trail : Trail layout settings (now :: past))
      (change : Change layout.root now.disk event next) (legible : next.Legible layout.root) :
      Trail layout settings (⟨next, now.tracker.apply next event⟩ :: now :: past)

theorem completeScan_of_new {layout : Layout} {settings : Settings} {disk : Disk}
    (noFailures :
      (Session.scan disk { tracker := .ofLayout layout settings }).1.filesFailed = 0) :
    CompleteScan layout settings disk { tracker := .ofLayout layout settings } where
  history := .start
  undisturbed := rfl
  current _ _ :=
    Session.current_of_truthfulAt ⟨rfl, rfl⟩ (TextCache.truthfulAt_of_get?_eq_none rfl disk)
  completed := Session.completed_scan disk rfl
  noFailures := noFailures

theorem CompleteScan.upToDate {layout : Layout} {settings : Settings} {disk : Disk}
    {session : Session} (scan : CompleteScan layout settings disk session) :
    (session.scan disk).2.tracker.UpToDate disk :=
  (scan.history.tidy.upToDate_scan scan.undisturbed scan.current scan.completed
    scan.noFailures).1

theorem CompleteScan.history_scan {layout : Layout} {settings : Settings} {disk : Disk}
    {session : Session} (scan : CompleteScan layout settings disk session) (plain : layout.Plain) :
    History layout settings (session.scan disk).2.tracker := by
  obtain ⟨above, root⟩ := plain.root
  have rootPlain := root.not_parent_mem_parts
  refine .perform scan.history disk (.scan session.circumstances) ⟨?_, ?_⟩
  · rw [scan.history.tidy.layout]
    exact fun file member => (Layout.proper_of_mem_indexableFiles rootPlain member).admitted
  · exact Session.admitsEdit_of_undisturbed scan.undisturbed

theorem CompleteScan.attuned {layout : Layout} {settings : Settings} {disk : Disk}
    {session : Session} (scan : CompleteScan layout settings disk session) (plain : layout.Plain) :
    Attuned disk layout settings (session.scan disk).2.tracker := by
  have history := scan.history_scan plain
  have tidy := history.tidy
  obtain ⟨newUpToDate, newLayout, newSettings, newSound⟩ := upToDate_scanned disk layout settings
  refine ⟨tidy, history.anchored plain, ?_, ?_⟩
  · exact fun source => (scan.upToDate.sameSource newUpToDate tidy.sound.coupled newSound.coupled
      (tidy.layout.trans newLayout.symm)
      (congrArg Settings.maxFileSize (tidy.settings.trans newSettings.symm)) source).outline
  · intro source tracked member target isTarget
    have current := scan.upToDate.target?_eq member
    rw [isTarget] at current
    exact Layout.isFile_of_target? current.symm

theorem Trail.attuned {layout : Layout} {settings : Settings} (plain : layout.Plain) {now : Moment}
    {past : List Moment} (trail : Trail layout settings (now :: past)) :
    Attuned now.disk layout settings now.tracker := by
  generalize moments : now :: past = all at trail
  induction trail generalizing now past with
  | start scan =>
      cases moments
      exact scan.attuned plain
  | follow _ change legible ih =>
      cases moments
      exact (ih rfl).step change legible

theorem Response.target?_of_created {next : Disk} {tracker after : Tracker} {path : Path}
    (response : Response next tracker (.created path) after) {source : Path}
    {tracked : TrackedPointer} (member : tracked ∈ after.pointersOf source)
    (pending : tracked.target? = none) : tracker.layout.target? next tracked.pointer = none := by
  rcases response.mem_pointersOf member with current | ⟨old, _, samePointer, retargeted⟩
  · rw [← current, pending]
  · rw [pending] at retargeted
    rw [samePointer]
    exact (Option.or_eq_none_iff.mp retargeted.symm).2

end Tracker

end CodePointers
