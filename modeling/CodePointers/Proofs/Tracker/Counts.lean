import CodePointers.Proofs.Tracker.ScanContents
import CodePointers.Proofs.Tracker.ScanResults
import CodePointers.Proofs.Tracker.StoredCounts
import Mathlib.Algebra.Order.BigOperators.Group.List
import Mathlib.Algebra.Order.Group.Nat
import Mathlib.Algebra.Ring.Nat

/-!
The counts add up: every occurrence in a text is counted as one of three things, nothing that counts
as indexed is refused by the index, and the summary of a first scan agrees with what is stored.
-/

namespace CodePointers

namespace Tracker

/-! One text. -/

theorem isSome_track? (disk : Disk) (layout : Layout) (found : Occurrence) :
    (track? disk layout found).isSome = !isMalformed found := by
  unfold track? isMalformed
  split <;> rfl

theorem length_extract (disk : Disk) (layout : Layout) (text : Text) :
    (extract disk layout text).length =
      (Occurrence.findAll text).countP fun found => !isMalformed found := by
  rw [extract, List.length_filterMap_eq_countP]
  simp only [isSome_track?]

theorem length_eq_countP_add {α : Type} (test : α → Bool) (values : List α) :
    values.length = values.countP test + values.countP fun value => !test value := by
  simpa using List.length_eq_countP_add_countP test (l := values)

theorem matched_tally (disk : Disk) (layout : Layout) (text : Text) :
    (tally disk layout text).matched = (tally disk layout text).indexed +
      (tally disk layout text).parseFailures + (tally disk layout text).unresolved := by
  have occurrences := length_eq_countP_add isMalformed (Occurrence.findAll text)
  have pointers := length_eq_countP_add TrackedPointer.isPending (extract disk layout text)
  have tracked := length_extract disk layout text
  simp only [tally]
  omega

/-! What the index is asked to record. -/

def recordPointer (source : Path) (index : ReferenceIndex) (tracked : TrackedPointer) :
    Except RefusedReference ReferenceIndex :=
  match tracked.target? with
  | none => .ok index
  | some target =>
      (index.record target tracked.pointer.lines.first tracked.pointer.lines.last source
        tracked.start tracked.stop tracked.definitionLine).map (·.1)

theorem recordPointer_eq (source : Path) (index : ReferenceIndex) (tracked : TrackedPointer) :
    recordPointer source index tracked = .ok (addReference source index tracked) := by
  have isRange : LineRange.of? tracked.pointer.lines.first tracked.pointer.lines.last =
      some tracked.pointer.lines := LineRange.of?_eq_some_iff.mpr ⟨rfl, rfl⟩
  unfold recordPointer addReference
  cases tracked.target? with
  | none => rfl
  | some target =>
      dsimp only
      rw [ReferenceIndex.record, isRange]
      rfl

theorem foldlM_recordPointer (source : Path) (index : ReferenceIndex)
    (pointers : List TrackedPointer) :
    pointers.foldlM (recordPointer source) index =
      .ok (pointers.foldl (addReference source) index) := by
  induction pointers generalizing index with
  | nil => rfl
  | cons head rest ih =>
      rw [List.foldlM_cons, recordPointer_eq, List.foldl_cons, ← ih]
      rfl

/-- What is counted when a text is reindexed, against what the tracker then holds. -/
structure ReindexCounts (file : Path) (text : Text) (before : Tracker)
    (result : Tracker × Outcome) : Prop where
  matched : result.2.matched = (Occurrence.findAll text).length
  sum : result.2.matched = result.2.indexed + result.2.parseFailures + result.2.unresolved
  recorded : (result.1.pointersOf file).foldlM (recordPointer file)
    (before.index.removeOutbound file).1 = .ok result.1.index
  listed : (result.1.pointersOf file).length = result.2.matched - result.2.parseFailures
  resolved : (result.1.pointersOf file).countP (fun tracked => !tracked.isPending) =
    result.2.indexed
  pending : (result.1.pointersOf file).countP TrackedPointer.isPending = result.2.unresolved
  stored : (result.1.index.targets.total fun ranges => ranges.total
      (List.countP fun reference => reference.source == file)) =
    placeCount (result.1.pointersOf file)

theorem Coupled.reindexCounts {tracker : Tracker} (coupled : tracker.Coupled) (disk : Disk)
    {file : Path} {text : Text} {number : Nat} (newer : ¬number < tracker.appliedTo file) :
    ReindexCounts file text tracker (tracker.reindexAt disk file text number) := by
  have outcome := outcome_reindexAt newer disk text
  have pointers : (tracker.reindexAt disk file text number).1.pointersOf file =
      extract disk tracker.layout text := by
    rw [pointersOf_reindexAt newer, if_pos BEq.rfl]
  constructor
  case matched =>
    rw [outcome]
    rfl
  case sum =>
    rw [outcome]
    exact matched_tally disk tracker.layout text
  case recorded => rw [pointers, foldlM_recordPointer, Tracker.reindexAt, if_neg newer]
  case listed =>
    have sum := matched_tally disk tracker.layout text
    have parts := length_eq_countP_add TrackedPointer.isPending
      (extract disk tracker.layout text)
    rw [pointers, outcome, sum, parts]
    simp only [tally]
    omega
  case resolved =>
    rw [pointers, outcome]
    rfl
  case pending =>
    rw [pointers, outcome]
    rfl
  case stored =>
    rw [ReferenceIndex.total_countP]
    exact (coupled.reindexAt disk file text number).countP_isFrom file

end Tracker

/-! Sums over some texts. -/

theorem sum_filterMap {α β : Type} (take? : α → Option (List β)) {measure : List β → Nat}
    (empty : measure [] = 0) (values : List α) :
    (values.map fun value => measure ((take? value).getD [])).sum =
      ((values.filterMap take?).map measure).sum := by
  induction values with
  | nil => rfl
  | cons head rest ih =>
      rw [List.map_cons, List.sum_cons, ih, List.filterMap_cons]
      cases take? head with
      | none => rw [Option.getD_none, empty, Nat.zero_add]
      | some taken => rfl

theorem sum_eq_sum_iff {α : Type} {small large : α → Nat} {values : List α}
    (le : ∀ value ∈ values, small value ≤ large value) :
    (values.map small).sum = (values.map large).sum ↔
      ∀ value ∈ values, small value = large value := by
  induction values with
  | nil => simp
  | cons head rest ih =>
      obtain ⟨headLe, restLe⟩ := List.forall_mem_cons.mp le
      have sums := List.sum_le_sum restLe
      rw [List.forall_mem_cons, ← ih restLe, List.map_cons, List.map_cons, List.sum_cons,
        List.sum_cons]
      omega

open Tracker

namespace Session

def indexedTexts (disk : Disk) (session : Session) : List Text :=
  (session.tracker.layout.indexableFiles disk).filterMap (session.indexedText? disk)

def tallies (disk : Disk) (session : Session) : List Outcome :=
  (session.indexedTexts disk).map (tally disk session.tracker.layout)

/-- The summary of a first scan against what was indexed and what is stored then. -/
structure ScanCounts (disk : Disk) (session : Session) : Prop where
  seen : (session.scan disk).1.filesSeen = (session.scan disk).1.filesIndexed +
    (session.scan disk).1.filesFailed + (session.scan disk).1.filesSkipped
  removed : (session.scan disk).1.filesRemoved = 0
  indexed : (session.scan disk).1.filesIndexed = (session.indexedTexts disk).length
  references : (session.scan disk).1.references =
    ((session.tallies disk).map Outcome.indexed).sum
  parseFailures : (session.scan disk).1.parseFailures =
    ((session.tallies disk).map Outcome.parseFailures).sum
  unresolved : (session.scan disk).1.unresolved =
    ((session.tallies disk).map Outcome.unresolved).sum
  pending : (session.scan disk).2.tracker.pendingCount = (session.scan disk).1.unresolved
  stored_le : (session.scan disk).2.tracker.index.size ≤ (session.scan disk).1.references
  stored_eq_iff : (session.scan disk).2.tracker.index.size = (session.scan disk).1.references ↔
    ∀ file, PlacesDistinct ((session.scan disk).2.tracker.pointersOf file)

theorem getD_reading? (disk : Disk) (session : Session) (file : Path) :
    (session.reading? disk file).getD [] = (session.indexedText? disk file).getD [] := by
  rw [reading?_eq_intake, indexedText?]
  cases session.intake disk file with
  | error error => rfl
  | ok text? => rfl

theorem outcomes_resultOf (disk : Disk) (session : Session) (files : List Path) :
    (files.map (session.resultOf disk)).filterMap FileResult.outcome? =
      (files.filterMap (session.indexedText? disk)).map (tally disk session.tracker.layout) := by
  rw [List.filterMap_map, List.map_filterMap]
  refine List.filterMap_congr fun file _ => ?_
  exact outcome?_resultOf disk session file

theorem ofResults_resultOf (disk : Disk) (session : Session) (files : List Path) :
    let results := files.map (session.resultOf disk)
    let tallies :=
      (files.filterMap (session.indexedText? disk)).map (tally disk session.tracker.layout)
    ScanSummary.ofResults results =
      { filesSeen := files.length
        filesIndexed := tallies.length
        filesFailed := results.countP FileResult.isFailed
        filesSkipped := results.countP FileResult.isSkipped
        references := (tallies.map Outcome.indexed).sum
        parseFailures := (tallies.map Outcome.parseFailures).sum
        unresolved := (tallies.map Outcome.unresolved).sum } := by
  have running : (files.map (session.resultOf disk)).any FileResult.isCancelled = false := by
    rw [List.any_map, List.any_eq_false]
    intro file _
    rw [Function.comp_apply, isCancelled_resultOf]
    exact Bool.false_ne_true
  intro results tallies
  rw [ScanSummary.ofResults_eq, outcomes_resultOf, running, List.length_map]

theorem seen_resultOf (disk : Disk) (session : Session) (files : List Path) :
    let summary := ScanSummary.ofResults (files.map (session.resultOf disk))
    summary.filesIndexed + summary.filesFailed + summary.filesSkipped = files.length := by
  have all : files.countP (fun file => !(session.resultOf disk file).isCancelled) = files.length :=
    List.countP_eq_length.mpr fun file _ => by rw [isCancelled_resultOf]; rfl
  exact (ScanSummary.started_ofResults _).trans (List.countP_map.trans all)

section

variable {disk : Disk} {session : Session} {layout : Layout} {settings : Settings}

theorem firstScan_contents (isNew : session.tracker = .ofLayout layout settings)
    (undisturbed : session.Undisturbed) (completed : (session.scan disk).1.cancelled = false) :
    (session.scan disk).1.filesRemoved = 0 ∧
      (∀ file ∈ session.tracker.layout.indexableFiles disk,
        (session.scan disk).2.tracker.pointersOf file =
          extract disk session.tracker.layout ((session.indexedText? disk file).getD [])) ∧
      ∀ source, ((session.scan disk).2.tracker.tracked.get? source).isSome →
        ∃ file ∈ session.tracker.layout.indexableFiles disk, (file == source) = true := by
  let files := session.tracker.layout.indexableFiles disk
  let scanned := (scanFiles disk files session).2
  have sound : session.tracker.Sound := isNew ▸ sound_ofLayout layout settings
  have untracked (source : Path) : session.tracker.tracked.get? source = none := by
    rw [isNew]
    rfl
  have rereads : Rereads disk (session.reading? disk) files session.tracker scanned.tracker :=
    rereads_scanFiles (session.tracker.layout.indexableFiles_distinct disk) undisturbed sound
      (scan_of_completed completed).1
  have isListed (source : Path) (isTracked : (scanned.tracker.tracked.get? source).isSome) :
      ∃ file ∈ files, (file == source) = true := by
    refine (Path.listed_or_apart files source).resolve_right fun apart => ?_
    rw [(rereads.others source apart).tracked, untracked] at isTracked
    cases isTracked
  -- Every source was read in this scan, so that none has vanished.
  have vanished : scanned.vanished files = [] := by
    refine List.eq_nil_iff_forall_not_mem.mpr fun gone member => ?_
    obtain ⟨isTracked, apart⟩ := mem_vanished_iff.mp ⟨gone, member, BEq.rfl⟩
    obtain ⟨file, isFile, same⟩ := isListed gone isTracked
    rw [apart file isFile] at same
    cases same
  have ends : session.scan disk = ({ ScanSummary.ofResults (scanFiles disk files session).1 with
      filesRemoved := (scanned.vanished files).length },
    { scanned with tracker := (scanned.vanished files).foldl Tracker.forget scanned.tracker }) :=
    scan_eq_of_completed completed
  rw [vanished] at ends
  rw [ends]
  refine ⟨rfl, fun file member => ?_, isListed⟩
  rw [← getD_reading?]
  change scanned.tracker.pointersOf file = _
  cases isText : session.reading? disk file with
  | some text => exact (rereads.read file member text isText).pointersOf
  | none =>
      rw [(rereads.unread file member isText).pointersOf, pointersOf, untracked]
      rfl

theorem total_firstScan (isNew : session.tracker = .ofLayout layout settings)
    (undisturbed : session.Undisturbed) (completed : (session.scan disk).1.cancelled = false)
    {measure : List TrackedPointer → Nat} (empty : measure [] = 0) :
    (session.scan disk).2.tracker.tracked.total measure =
      ((session.indexedTexts disk).map fun text =>
        measure (extract disk session.tracker.layout text)).sum := by
  obtain ⟨_, pointers, listed⟩ := firstScan_contents isNew undisturbed completed
  have distinct := session.tracker.layout.indexableFiles_distinct disk
  have emptyText : measure (extract disk session.tracker.layout []) = 0 := empty
  rw [OrderedMap.total_eq_sum measure distinct listed, indexedTexts,
    ← sum_filterMap (session.indexedText? disk) emptyText]
  refine congrArg List.sum (List.map_congr_left fun file member => ?_)
  rw [← pointers file member, pointersOf]
  cases (session.scan disk).2.tracker.tracked.get? file with
  | none => exact empty.symm
  | some known => rfl

theorem forall_pointersOf_firstScan (isNew : session.tracker = .ofLayout layout settings)
    (undisturbed : session.Undisturbed) (completed : (session.scan disk).1.cancelled = false)
    {property : List TrackedPointer → Prop} (empty : property []) :
    (∀ text ∈ session.indexedTexts disk, property (extract disk session.tracker.layout text)) ↔
      ∀ file, property ((session.scan disk).2.tracker.pointersOf file) := by
  obtain ⟨_, pointers, listed⟩ := firstScan_contents isNew undisturbed completed
  constructor
  · intro all source
    cases isTracked : (session.scan disk).2.tracker.tracked.get? source with
    | none =>
        rw [pointersOf, isTracked]
        exact empty
    | some known =>
        obtain ⟨file, member, same⟩ := listed source (Option.isSome_of_eq_some isTracked)
        rw [← pointersOf_congr _ same, pointers file member]
        cases isText : session.indexedText? disk file with
        | none => exact empty
        | some text => exact all text (List.mem_filterMap.mpr ⟨file, member, isText⟩)
  · intro all text member
    obtain ⟨file, isFile, isText⟩ := List.mem_filterMap.mp member
    have ofFile := all file
    rw [pointers file isFile, isText] at ofFile
    exact ofFile

theorem size_firstScan (isNew : session.tracker = .ofLayout layout settings)
    (undisturbed : session.Undisturbed) (completed : (session.scan disk).1.cancelled = false) :
    (session.scan disk).2.tracker.index.size = ((session.indexedTexts disk).map fun text =>
      placeCount (extract disk session.tracker.layout text)).sum := by
  have sound : session.tracker.Sound := isNew ▸ sound_ofLayout layout settings
  rw [(sound_scan disk undisturbed sound).coupled.size_eq]
  exact total_firstScan isNew undisturbed completed rfl

theorem sum_placeCount_le (disk : Disk) (layout : Layout) (texts : List Text) :
    (texts.map fun text => placeCount (extract disk layout text)).sum ≤
      (texts.map fun text => (tally disk layout text).indexed).sum :=
  List.sum_le_sum fun _ _ => placeCount_le _

theorem sum_placeCount_eq_iff (disk : Disk) (layout : Layout) (texts : List Text) :
    (texts.map fun text => placeCount (extract disk layout text)).sum =
        (texts.map fun text => (tally disk layout text).indexed).sum ↔
      ∀ text ∈ texts, PlacesDistinct (extract disk layout text) :=
  (sum_eq_sum_iff fun _ _ => placeCount_le _).trans (forall₂_congr fun _ _ => placeCount_eq_iff)

theorem scanCounts_of_new (isNew : session.tracker = .ofLayout layout settings)
    (undisturbed : session.Undisturbed) (completed : (session.scan disk).1.cancelled = false) :
    ScanCounts disk session := by
  have sound : session.tracker.Sound := isNew ▸ sound_ofLayout layout settings
  let files := session.tracker.layout.indexableFiles disk
  have results : (scanFiles disk files session).1 = files.map (session.resultOf disk) :=
    results_scanFiles (session.tracker.layout.indexableFiles_distinct disk) undisturbed sound
      (scan_of_completed completed).1
  have seen := seen_resultOf disk session files
  have summary := summary_scan disk session
  rw [results, ofResults_resultOf] at summary
  rw [ofResults_resultOf] at seen
  have references : (session.scan disk).1.references =
      ((session.tallies disk).map Outcome.indexed).sum := by
    rw [summary]
    rfl
  have unresolved : (session.scan disk).1.unresolved =
      ((session.tallies disk).map Outcome.unresolved).sum := by
    rw [summary]
    rfl
  constructor
  case seen =>
    rw [summary]
    exact seen.symm
  case removed => exact (firstScan_contents isNew undisturbed completed).1
  case indexed =>
    rw [summary]
    exact List.length_map _
  case references => exact references
  case parseFailures =>
    rw [summary]
    rfl
  case unresolved => exact unresolved
  case pending =>
    rw [unresolved, tallies, List.map_map]
    exact total_firstScan isNew undisturbed completed rfl
  case stored_le =>
    rw [size_firstScan isNew undisturbed completed, references, tallies, List.map_map]
    exact sum_placeCount_le ..
  case stored_eq_iff =>
    rw [size_firstScan isNew undisturbed completed, references, tallies, List.map_map]
    exact (sum_placeCount_eq_iff ..).trans
      (forall_pointersOf_firstScan isNew undisturbed completed placesDistinct_nil)

end

/-- The counts of a request that is carried out and those of a first scan add up. -/
theorem counts_add_up (disk : Disk) :
    (∀ (tracker : Tracker) (file : Path) (text : Text) (number : Nat), tracker.Reachable →
      (tracker.reindexAt disk file text number).2.superseded = false →
      ReindexCounts file text tracker (tracker.reindexAt disk file text number)) ∧
    ∀ (session : Session) (layout : Layout) (settings : Settings),
      session.tracker = .ofLayout layout settings → session.Undisturbed →
      (session.scan disk).1.cancelled = false → ScanCounts disk session := by
  constructor
  · intro tracker file text number reachable accepted
    have newer : ¬number < tracker.appliedTo file := by
      rw [← reindexAt_superseded_iff disk tracker file text number, accepted]
      exact Bool.false_ne_true
    exact reachable.coupled.reindexCounts disk newer
  · intro session layout settings isNew undisturbed completed
    exact scanCounts_of_new isNew undisturbed completed

theorem counts_add_up_of_mixed_text :
    let layout : Layout := ⟨.ofText "/w".toList, []⟩
    let file := Path.ofText "/w/a.md".toList
    let text := "@w/a.md:L1 @w/a.md:L1 @w/none.md:L2 @w/a.md:L3-2".toList
    let disk := Disk.empty.write file ⟨.text text, 0⟩
    let tracker :=
      (Tracker.ofLayout layout .default).perform disk (.reindex file "@w/a.md:L7".toList)
    let session : Session := { tracker := .ofLayout layout .default }
    tracker.Reachable ∧ (tracker.reindexAt disk file text 2).2.superseded = false ∧
      ReindexCounts file text tracker (tracker.reindexAt disk file text 2) ∧
      (tracker.reindexAt disk file text 2).2 =
        { matched := 4, indexed := 2, parseFailures := 1, unresolved := 1 } ∧
      (session.scan disk).1.cancelled = false ∧ ScanCounts disk session ∧
      (session.scan disk).1.references = 2 ∧ (session.scan disk).2.tracker.index.size = 1 := by
  intro layout file text disk tracker session
  have reachable : tracker.Reachable := ⟨_, _, .perform disk (.reindex _ _) (.refl _)⟩
  have accepted : (tracker.reindexAt disk file text 2).2.superseded = false := by decide +kernel
  have completed : (session.scan disk).1.cancelled = false := by decide +kernel
  have undisturbed : session.Undisturbed := rfl
  obtain ⟨reindexed, scanned⟩ := counts_add_up disk
  exact ⟨reachable, accepted, reindexed tracker file text 2 reachable accepted, by decide +kernel,
    completed, scanned session layout .default rfl undisturbed completed, by decide +kernel,
    by decide +kernel⟩

end Session

end CodePointers
