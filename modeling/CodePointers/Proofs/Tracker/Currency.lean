import CodePointers.Proofs.Resolution.Preference
import CodePointers.Proofs.Tracker.LastReferences
import CodePointers.Proofs.Tracker.Trails

/-!
How far the targets of a tracker stay those that its pointers have on the disk. An event makes the
pointers of the files that it reads current, and a creation those that were pending; any other
pointer keeps its target as long as that is there, and loses it when it goes.
-/

namespace CodePointers

namespace Tracker

/-- How a pointer can stand to what it is resolved to now: its target is current, or it is an older
one that is still there though a file came that is preferred, or it went though there is another. -/
inductive Standing (layout : Layout) (moments : List Moment) (disk : Disk)
    (tracked : TrackedPointer) : Prop
  | current (same : tracked.target? = layout.target? disk tracked.pointer)
  | redirected {moment own other} (inTrail : moment ∈ moments)
      (recorded : tracked.target? = some own)
      (was : layout.target? moment.disk tracked.pointer = some own)
      (stays : disk.isFile own = true)
      (now : layout.target? disk tracked.pointer = some other)
      (isNew : moment.disk.isFile other = false)
  | orphaned {moment own other} (inTrail : moment ∈ moments)
      (pending : tracked.target? = none)
      (was : layout.target? moment.disk tracked.pointer = some own)
      (gone : disk.isFile own = false)
      (now : layout.target? disk tracked.pointer = some other)

/-- Where the target of a pointer comes from, or why it has none. -/
structure Traced (layout : Layout) (moments : List Moment) (disk : Disk)
    (tracked : TrackedPointer) : Prop where
  resolved : ∀ own, tracked.target? = some own →
    ∃ moment ∈ moments, layout.target? moment.disk tracked.pointer = some own
  pending : tracked.target? = none → layout.target? disk tracked.pointer = none ∨
    ∃ moment ∈ moments, ∃ own, layout.target? moment.disk tracked.pointer = some own ∧
      disk.isFile own = false

theorem Traced.standing {layout : Layout} {moments : List Moment} {disk : Disk}
    {tracked : TrackedPointer} (traced : Traced layout moments disk tracked)
    (stays : ∀ target, tracked.target? = some target → disk.isFile target = true) :
    Standing layout moments disk tracked := by
  cases recorded : tracked.target? with
  | some own =>
      obtain ⟨moment, inTrail, was⟩ := traced.resolved own recorded
      obtain ⟨other, now, same | isNew⟩ := Layout.target?_of_stays was (stays own recorded)
      · exact .current (by rw [recorded, now, same])
      · exact .redirected inTrail recorded was (stays own recorded) now isNew
  | none =>
      cases now : layout.target? disk tracked.pointer with
      | none => exact .current (recorded.trans now.symm)
      | some other =>
          rcases traced.pending recorded with noTarget | ⟨moment, inTrail, own, was, gone⟩
          · rw [now] at noTarget
            cases noTarget
          · exact .orphaned inTrail recorded was gone now

theorem traced_of_current {layout : Layout} {disk : Disk} {tracker : Tracker}
    {tracked : TrackedPointer} (current : tracked.target? = layout.target? disk tracked.pointer)
    (past : List Moment) : Traced layout (⟨disk, tracker⟩ :: past) disk tracked :=
  ⟨fun own recorded => ⟨_, List.mem_cons_self, by rw [← current, recorded]⟩,
    fun noTarget => .inl (by rw [← current, noTarget])⟩

theorem Traced.later {layout : Layout} {moments : List Moment} {disk : Disk}
    {tracked : TrackedPointer} {now : Moment} (traced : Traced layout moments disk tracked) :
    Traced layout (now :: moments) disk tracked := by
  refine ⟨fun own recorded => ?_, fun noTarget => (traced.pending noTarget).imp_right ?_⟩
  · obtain ⟨moment, inTrail, was⟩ := traced.resolved own recorded
    exact ⟨moment, List.mem_cons_of_mem _ inTrail, was⟩
  · rintro ⟨moment, inTrail, result⟩
    exact ⟨moment, List.mem_cons_of_mem _ inTrail, result⟩

/-! One event. -/

section Step

variable {disk next : Disk} {layout : Layout} {settings : Settings} {tracker after : Tracker}
  {event : FileEvent} {above names : List Text} {moments : List Moment}
  (attuned : Attuned disk layout settings tracker) (root : layout.root.Spells above)
  (changes : ChangesBelow layout.root above names disk next event)
include attuned changes

omit attuned in
theorem Traced.of_not_created (plain : layout.Plain) (notCreated : ∀ path, event ≠ .created path)
    {tracked : TrackedPointer} (traced : Traced layout moments disk tracked)
    (plainModule : tracked.pointer.HasPlainModule) : Traced layout moments next tracked := by
  have notNew {moment : Disk} {own : Path}
      (was : layout.target? moment tracked.pointer = some own) (gone : disk.isFile own = false) :
      next.isFile own = false := by
    obtain ⟨ownNames, denotes⟩ := plain.denotes_of_target? plainModule was
    refine Bool.eq_false_iff.mpr fun isFile => ?_
    rw [denotes.isFile_iff] at isFile
    rw [denotes.isFile_iff.mpr (changes.isSome_fileAt?_before notCreated isFile)] at gone
    cases gone
  refine ⟨traced.resolved, fun noTarget => ?_⟩
  rcases traced.pending noTarget with noneBefore | ⟨moment, inTrail, own, was, gone⟩
  · left
    cases now : layout.target? next tracked.pointer with
    | none => rfl
    | some other =>
        have isNew := Layout.isNew_of_target?_eq_none noneBefore now
        have isFile := Layout.isFile_of_target? now
        rw [notNew now isNew] at isFile
        cases isFile
  · exact .inr ⟨moment, inTrail, own, was, notNew was gone⟩

include root

theorem Traced.retarget {source : Path} {old : TrackedPointer}
    (member : old ∈ tracker.pointersOf source) (traced : Traced layout moments disk old)
    {tracked : TrackedPointer} (samePointer : tracked.pointer = old.pointer)
    (isTarget : tracked.target? = retarget next layout old.pointer old.target? event) :
    Traced layout (⟨next, after⟩ :: moments) next tracked := by
  have plain := attuned.anchored.plain
  rw [attuned.tidy.layout] at plain
  have place := root.denotes_descend changes.areNames changes.below
  have plainModule := attuned.anchored.modules source old member
  obtain ⟨pointer, start, stop, definitionLine, target?⟩ := tracked
  obtain rfl : pointer = old.pointer := samePointer
  obtain rfl : target? = _ := isTarget
  cases changes.change with
  | rewritten before after =>
      have stays := traced.of_not_created changes plain nofun plainModule
      exact Traced.later ⟨stays.resolved, stays.pending⟩
  | created empty isThere =>
      cases recorded : old.target? with
      | none => exact traced_of_current (by simp [Tracker.retarget]) moments
      | some own =>
          refine Traced.later ⟨fun target isTarget => ?_, fun noTarget => ?_⟩
          · refine traced.resolved target ?_
            rw [recorded]
            simpa [Tracker.retarget] using isTarget
          · simp [Tracker.retarget] at noTarget
  | removed empty =>
      have stays := traced.of_not_created changes plain nofun plainModule
      refine Traced.later ⟨fun target isTarget => ?_, fun noTarget => ?_⟩
      · exact traced.resolved target (Option.mem_filter_iff.mp isTarget).1
      · cases recorded : old.target? with
        | none => exact stays.pending recorded
        | some own =>
            obtain ⟨moment, inTrail, was⟩ := traced.resolved own recorded
            obtain ⟨ownNames, denotes⟩ := attuned.anchored.targets source old member own recorded
            -- The target was dropped because it lay at or beneath the path, where nothing is left.
            have within : own.isWithin (layout.root.descend names) = true := by
              simpa [Tracker.retarget, recorded, Option.filter] using noTarget
            rw [denotes.spells.isWithin_iff place.spells] at within
            refine .inr ⟨moment, inTrail, own, was, Bool.eq_false_iff.mpr fun isFile => ?_⟩
            rw [denotes.isFile_iff, empty ownNames within] at isFile
            cases isFile

end Step

/-! A trail. -/

def Moment.NoneOrphaned (layout : Layout) (moment : Moment) : Prop :=
  ∀ source, ∀ tracked ∈ moment.tracker.pointersOf source, tracked.target? = none →
    layout.target? moment.disk tracked.pointer = none

def Moment.AllCurrent (layout : Layout) (moment : Moment) : Prop :=
  ∀ source, ∀ tracked ∈ moment.tracker.pointersOf source,
    tracked.target? = layout.target? moment.disk tracked.pointer

theorem CompleteScan.allCurrent {layout : Layout} {settings : Settings} {disk : Disk}
    {session : Session} (scan : CompleteScan layout settings disk session) :
    Moment.AllCurrent layout ⟨disk, (session.scan disk).2.tracker⟩ := by
  intro source tracked member
  have sameLayout := (scan.history.tidy.upToDate_scan scan.undisturbed scan.current scan.completed
    scan.noFailures).2.1
  have current := scan.upToDate.target?_eq member
  rwa [sameLayout] at current

theorem UpToDate.keepsLast {disk : Disk} {tracker : Tracker} (upToDate : tracker.UpToDate disk)
    (coupled : tracker.Coupled) (source : Path) : tracker.KeepsLast source := by
  obtain ⟨file, member, same⟩ | apart :=
    Path.listed_or_apart (tracker.layout.indexableFiles disk) source
  · exact (upToDate.listed file member).keepsLast.respell same
  · exact (lists_nil coupled (upToDate.others source apart)).keepsLast

theorem Response.current_of_mem_sources {next : Disk} {tracker after : Tracker} {event : FileEvent}
    (response : Response next tracker event after) {file : Path}
    (member : file ∈ event.sources next tracker.layout)
    (readable : ∃ text, next.reading? tracker.settings file = some text) :
    ∀ tracked ∈ after.pointersOf file,
      tracked.target? = tracker.layout.target? next tracked.pointer := by
  obtain ⟨text, isText⟩ := readable
  intro tracked inAfter
  cases response with
  | changed sound rereads =>
      rw [(rereads.read file member text isText).pointersOf] at inAfter
      exact target?_of_mem_extract inAfter
  | created sound rereads =>
      rw [pointersOf_retryPending, (rereads.read file member text isText).pointersOf] at inAfter
      obtain ⟨old, inText, rfl⟩ := List.mem_map.mp inAfter
      obtain ⟨samePointer, isTarget⟩ := pointer_renew next _ old
      rw [isTarget, samePointer, rereads.layout, target?_of_mem_extract inText, Option.or_self]
  | removed drops => cases member

/-- A pointer that becomes resolved gets a target that was not there, so no other pointer of its
source had it. -/
theorem Attuned.apart_of_rereads {disk next : Disk} {layout : Layout} {settings : Settings}
    {reading : Path → Option Text} {files : List Path} {tracker reread : Tracker}
    (attuned : Attuned disk layout settings tracker)
    (noneOrphaned : Moment.NoneOrphaned layout ⟨disk, tracker⟩)
    (rereads : Rereads next reading files tracker reread) {source target : Path} {lines : LineRange}
    {found other : TrackedPointer}
    (isFound : found ∈ resolvable next reread.layout (reread.pointersOf source))
    (points : found.pointsTo target lines = true) (inSource : other ∈ reread.pointersOf source) :
    other.pointsTo target lines = false := by
  obtain rfl : tracker.layout = layout := attuned.tidy.layout
  obtain ⟨_, old, inOld, pending, rfl⟩ := mem_resolvable_iff.mp isFound
  obtain ⟨_, own, isOwn, sameOwn⟩ := TrackedPointer.pointsTo_iff.mp points
  rw [TrackedPointer.isPending, Option.isNone_iff_eq_none] at pending
  rw [(pointer_renew ..).2, pending, Option.none_or, rereads.layout] at isOwn
  rcases rereads.source_cases source with ⟨file, text, same, lists⟩ | unchanged
  · rw [← reread.pointersOf_congr same, lists.pointersOf] at inOld
    rw [← target?_of_mem_extract inOld, pending] at isOwn
    cases isOwn
  · rw [unchanged.pointersOf] at inOld inSource
    have isNew := Layout.isNew_of_target?_eq_none (noneOrphaned source old inOld pending) isOwn
    obtain ⟨ownNames, ownDenotes⟩ := attuned.anchored.plain.denotes_of_target?
      (attuned.anchored.modules source old inOld) isOwn
    refine Bool.eq_false_iff.mpr fun otherPoints => ?_
    obtain ⟨_, another, isAnother, sameAnother⟩ := TrackedPointer.pointsTo_iff.mp otherPoints
    obtain ⟨otherNames, otherDenotes⟩ :=
      attuned.anchored.targets source other inSource another isAnother
    have isFile := attuned.targets source other inSource another isAnother
    have same : (another == own) = true := BEq.trans sameAnother (BEq.symm sameOwn)
    obtain rfl := (otherDenotes.spells.beq_iff ownDenotes.spells).mp same
    rw [otherDenotes.isFile_iff] at isFile
    rw [ownDenotes.isFile_iff.mpr isFile] at isNew
    cases isNew

theorem Attuned.keepsLast_of_response {disk next : Disk} {layout : Layout} {settings : Settings}
    {tracker after : Tracker} {event : FileEvent}
    (attuned : Attuned disk layout settings tracker)
    (noneOrphaned : Moment.NoneOrphaned layout ⟨disk, tracker⟩)
    (response : Response next tracker event after) {source : Path}
    (keeps : tracker.KeepsLast source) : after.KeepsLast source := by
  cases response with
  | changed sound rereads => exact rereads.keepsLast keeps
  | created sound rereads =>
      refine (rereads.keepsLast keeps).retryPending sound.coupled.consistent ?_
      exact fun target lines found isFound points other inSource =>
        attuned.apart_of_rereads noneOrphaned rereads isFound points inSource
  | removed drops => exact drops.keepsLast keeps

section Trail

variable {layout : Layout} {settings : Settings} (plain : layout.Plain)
include plain

theorem Trail.traced {now : Moment} {past : List Moment}
    (trail : Trail layout settings (now :: past)) :
    ∀ source, ∀ tracked ∈ now.tracker.pointersOf source,
      Traced layout (now :: past) now.disk tracked := by
  generalize moments : now :: past = all at trail
  induction trail generalizing now past with
  | start scan =>
      cases moments
      exact fun source tracked member =>
        traced_of_current (scan.allCurrent source tracked member) []
  | @follow before earlier event next trail change legible ih =>
      cases moments
      intro source tracked member
      have attuned := trail.attuned plain
      obtain ⟨above, root⟩ := plain.root
      obtain ⟨names, changes⟩ := change.changesBelow root
      have sameLayout := attuned.tidy.layout
      have response := response_of_changesBelow attuned.tidy.sound (sameLayout ▸ root)
        (sameLayout ▸ changes)
      rcases response.mem_pointersOf member with current | ⟨old, inOld, samePointer, retargeted⟩
      · rw [sameLayout] at current
        exact traced_of_current current _
      · rw [sameLayout] at retargeted
        exact (ih rfl source old inOld).retarget attuned root changes inOld samePointer retargeted

theorem Trail.keepsLast {now : Moment} {past : List Moment}
    (trail : Trail layout settings (now :: past))
    (noneOrphaned : ∀ moment ∈ past, moment.NoneOrphaned layout) (source : Path) :
    now.tracker.KeepsLast source := by
  generalize moments : now :: past = all at trail
  induction trail generalizing now past with
  | start scan =>
      cases moments
      exact scan.upToDate.keepsLast (scan.history_scan plain).tidy.sound.coupled source
  | @follow before earlier event next trail change legible ih =>
      cases moments
      rw [List.forall_mem_cons] at noneOrphaned
      have keeps := ih noneOrphaned.2 rfl
      have attuned := trail.attuned plain
      obtain ⟨above, root⟩ := plain.root
      obtain ⟨names, changes⟩ := change.changesBelow root
      have sameLayout := attuned.tidy.layout
      have response := response_of_changesBelow attuned.tidy.sound (sameLayout ▸ root)
        (sameLayout ▸ changes)
      exact attuned.keepsLast_of_response noneOrphaned.1 response keeps

end Trail

theorem tracked_eq_of_current {disk : Disk} {layout : Layout} {tracker : Tracker} {source : Path}
    (current : ∀ tracked ∈ tracker.pointersOf source,
      tracked.target? = layout.target? disk tracked.pointer) :
    tracker.tracked.get? source = (tracker.outline source).map (List.map fun tracked =>
      { tracked with target? := layout.target? disk tracked.pointer }) := by
  unfold pointersOf at current
  unfold outline
  cases found : tracker.tracked.get? source with
  | none => rfl
  | some pointers =>
      rw [found] at current
      rw [Option.map_some, Option.map_some, List.map_map]
      congr 1
      refine (List.map_id pointers).symm.trans (List.map_congr_left fun tracked member => ?_)
      obtain ⟨pointer, start, stop, definitionLine, target?⟩ := tracked
      obtain rfl : target? = layout.target? disk pointer := current _ member
      rfl

/-- After every event a pointer is current, unless a file came that is preferred to its target, or
its target went while there is another. The pointers of the files that were read are current, and a
creation leaves no pointer orphaned. When all are current, the pointers are those of a full scan,
and so is the snapshot, unless the order in which pointers became resolved can show in it. -/
theorem Trail.targets_follow_disk {layout : Layout} {settings : Settings} (plain : layout.Plain)
    {now : Moment} {past : List Moment} (trail : Trail layout settings (now :: past))
    {event : FileEvent} {next : Disk} (change : Change layout.root now.disk event next)
    (legible : next.Legible layout.root) :
    let after := now.tracker.apply next event
    let fresh := Tracker.scanned next layout settings
    (∀ source, ∀ tracked ∈ after.pointersOf source,
        Standing layout (⟨next, after⟩ :: now :: past) next tracked) ∧
      (∀ file ∈ event.sources next layout, ∀ tracked ∈ after.pointersOf file,
        tracked.target? = layout.target? next tracked.pointer) ∧
      (∀ path, event = .created path → Moment.NoneOrphaned layout ⟨next, after⟩) ∧
      (Moment.AllCurrent layout ⟨next, after⟩ →
        (∀ source, after.tracked.get? source = fresh.tracked.get? source) ∧
          after.pendingCount = fresh.pendingCount ∧
          ((∀ moment ∈ now :: past, moment.NoneOrphaned layout) ∨
              (∀ source, after.PointsApart source) →
            (after.snapshot == fresh.snapshot) = true)) := by
  intro after fresh
  have before := trail.attuned plain
  have longer : Trail layout settings (⟨next, after⟩ :: now :: past) :=
    .follow trail change legible
  have attuned := longer.attuned plain
  have sameLayout := before.tidy.layout
  obtain ⟨above, root⟩ := plain.root
  obtain ⟨names, changes⟩ := change.changesBelow root
  have response : Response next now.tracker event after :=
    response_of_changesBelow before.tidy.sound (sameLayout ▸ root) (sameLayout ▸ changes)
  refine ⟨?_, ?_, ?_, ?_⟩
  · intro source tracked member
    exact (longer.traced plain source tracked member).standing
      (attuned.targets source tracked member)
  · intro file member
    have readable := changes.readable_of_mem_sources root legible settings member
    rw [← sameLayout] at member ⊢
    rw [← before.tidy.settings] at readable
    exact response.current_of_mem_sources member readable
  · rintro path rfl source tracked member pending
    rw [← sameLayout]
    exact response.target?_of_created member pending
  · intro allCurrent
    obtain ⟨upToDate, freshLayout, _, freshSound⟩ := upToDate_scanned next layout settings
    have freshCurrent (source : Path) : ∀ tracked ∈ fresh.pointersOf source,
        tracked.target? = layout.target? next tracked.pointer := by
      intro tracked member
      have current := upToDate.target?_eq member
      rwa [freshLayout] at current
    have tracked (source : Path) : after.tracked.get? source = fresh.tracked.get? source := by
      rw [tracked_eq_of_current (allCurrent source), tracked_eq_of_current (freshCurrent source),
        attuned.outlines source]
    refine ⟨tracked, pendingCount_congr tracked, fun inOrder => ?_⟩
    have keeps (source : Path) : after.KeepsLast source := by
      rcases inOrder with noneOrphaned | apart
      · exact longer.keepsLast plain noneOrphaned source
      · exact (apart source).keepsLast attuned.tidy.sound.coupled
    have similar (source : Path) : SimilarSource source after fresh :=
      similar_of_keepsLast (tracked source) (keeps source)
        (upToDate.keepsLast freshSound.coupled source)
    exact (sameContents_of_similar attuned.tidy.sound.coupled freshSound.coupled similar).snapshot

theorem forall_pointersOf {tracker : Tracker} {property : TrackedPointer → Prop}
    (all : ∀ entry ∈ tracker.tracked.entries, ∀ tracked ∈ entry.2, property tracked)
    (source : Path) : ∀ tracked ∈ tracker.pointersOf source, property tracked := by
  unfold pointersOf
  cases found : tracker.tracked.get? source with
  | none => exact nofun
  | some pointers =>
      obtain ⟨stored, member, _⟩ := OrderedMap.exists_mem_of_get? found
      exact all (stored, pointers) member

theorem Moment.allCurrent_of_segments {layout : Layout} {moment : Moment}
    (all : ∀ entry ∈ moment.tracker.tracked.entries, ∀ tracked ∈ entry.2,
      tracked.target?.map Path.segments =
        (layout.target? moment.disk tracked.pointer).map Path.segments) :
    moment.AllCurrent layout := by
  have injective : Function.Injective Path.segments := fun left right same => congrArg Path.mk same
  exact fun source tracked member =>
    Option.map_injective injective (forall_pointersOf all source tracked member)

theorem Moment.AllCurrent.segments {layout : Layout} {moment : Moment}
    (allCurrent : moment.AllCurrent layout) (source : Path) :
    ∀ tracked ∈ moment.tracker.pointersOf source, tracked.target?.map Path.segments =
      (layout.target? moment.disk tracked.pointer).map Path.segments := by
  intro tracked member
  rw [allCurrent source tracked member]

theorem Trail.targets_follow_moved_folder :
    let layout : Layout := ⟨.ofText "/w".toList, []⟩
    let disk := Disk.empty.write (.ofText "/w/a.md".toList) ⟨.text "@m/x.rs:L1".toList, 0⟩
    let session : Session := { tracker := .ofLayout layout .default }
    let before : Moment := ⟨disk, (session.scan disk).2.tracker⟩
    let moved := layout.root.descend ["m".toList]
    let next := disk.putNode (Disk.namesOf moved)
      (.folder (.fileEntry "x.rs".toList ⟨.text [], 0⟩ .empty)) ⟨by decide, trivial, trivial⟩
    let after := before.tracker.apply next (.created moved)
    layout.Plain ∧ Trail layout .default [before] ∧
      Change layout.root disk (.created moved) next ∧ next.Legible layout.root ∧
      before.NoneOrphaned layout ∧ Moment.AllCurrent layout ⟨next, after⟩ ∧
      (after.snapshot == (Tracker.scanned next layout .default).snapshot) = true ∧
      after.snapshot.length = 1 := by
  intro layout disk session before moved next after
  have plain : layout.Plain := ⟨⟨["w".toList], rfl⟩, nofun⟩
  have trail : Trail layout .default [before] := .start (completeScan_of_new (by decide +kernel))
  have change : Change layout.root disk (.created moved) next :=
    .created ["m".toList] _ _ (by decide) (List.cons_ne_nil _ _) (by decide +kernel)
      (by decide +kernel)
  have legible : next.Legible layout.root := Disk.legible_of_isText (by decide +kernel) layout.root
  have noneOrphaned : before.NoneOrphaned layout := forall_pointersOf (by decide +kernel)
  have allCurrent : Moment.AllCurrent layout ⟨next, after⟩ :=
    Moment.allCurrent_of_segments (by decide +kernel)
  obtain ⟨_, _, _, sameAsScan⟩ := @Trail.targets_follow_disk layout .default plain before [] trail
    (.created moved) next change legible
  obtain ⟨_, _, sameSnapshot⟩ := sameAsScan allCurrent
  exact ⟨plain, trail, change, legible, noneOrphaned, allCurrent,
    sameSnapshot (.inl (by simpa using noneOrphaned)), by decide +kernel⟩

/-- A pointer at a file of the root stays there when its module gets a file of that name, and it is
left pending, although that file is still there, when the module goes again. -/
theorem not_allCurrent_after_events :
    let layout : Layout := ⟨.ofText "/w".toList, []⟩
    let note := Path.ofText "/w/a.md".toList
    let disk := (Disk.empty.write note ⟨.text "@m/x.rs:L1".toList, 0⟩).write
      (.ofText "/w/x.rs".toList) ⟨.text [], 0⟩
    let start (disk : Disk) : Moment :=
      ⟨disk, (Session.scan disk { tracker := .ofLayout layout .default }).2.tracker⟩
    let moved := layout.root.descend ["m".toList]
    let full := disk.putNode (Disk.namesOf moved)
      (.folder (.fileEntry "x.rs".toList ⟨.text [], 0⟩ .empty)) ⟨by decide, trivial, trivial⟩
    let redirected := (start disk).tracker.apply full (.created moved)
    let orphaned := (start full).tracker.apply (full.remove moved) (.removed moved)
    layout.Plain ∧ Trail layout .default [start disk] ∧ Trail layout .default [start full] ∧
      Change layout.root disk (.created moved) full ∧ full.Legible layout.root ∧
      Change layout.root full (.removed moved) (full.remove moved) ∧
      (full.remove moved).Legible layout.root ∧
      ¬Moment.AllCurrent layout ⟨full, redirected⟩ ∧
      (redirected.snapshot == (Tracker.scanned full layout .default).snapshot) = false ∧
      ¬Moment.AllCurrent layout ⟨full.remove moved, orphaned⟩ ∧
      orphaned.pendingCount = 1 ∧
      (Tracker.scanned (full.remove moved) layout .default).pendingCount = 0 := by
  intro layout note disk start moved full redirected orphaned
  have plain : layout.Plain := ⟨⟨["w".toList], rfl⟩, nofun⟩
  have created : Change layout.root disk (.created moved) full :=
    .created ["m".toList] _ _ (by decide) (List.cons_ne_nil _ _) (by decide +kernel)
      (by decide +kernel)
  have removed : Change layout.root full (.removed moved) (full.remove moved) :=
    .removed ["m".toList] (by decide) (List.cons_ne_nil _ _) (by decide +kernel)
  have redirects : ¬Moment.AllCurrent layout ⟨full, redirected⟩ := by
    intro allCurrent
    have stale := allCurrent.segments note
    revert stale
    decide +kernel
  have orphans : ¬Moment.AllCurrent layout ⟨full.remove moved, orphaned⟩ := by
    intro allCurrent
    have stale := allCurrent.segments note
    revert stale
    decide +kernel
  exact ⟨plain, .start (completeScan_of_new (by decide +kernel)),
    .start (completeScan_of_new (by decide +kernel)), created,
    Disk.legible_of_isText (by decide +kernel) layout.root, removed,
    Disk.legible_of_isText (by decide +kernel) layout.root, redirects, by decide +kernel, orphans,
    by decide +kernel, by decide +kernel⟩

end Tracker

end CodePointers
