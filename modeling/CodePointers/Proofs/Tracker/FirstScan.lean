import CodePointers.Proofs.Tracker.ScanContents
import CodePointers.Proofs.Tracker.TextLines

/-!
The references that a first scan stores, told from the disk and the texts alone: which files take
part, which places in them point where, and which of several such places counts.
-/

namespace CodePointers

/-- Whether the text of the file below the root that some names lead to takes part in a scan. -/
structure Layout.Indexes (disk : Disk) (layout : Layout) (settings : Settings) (names : List Text)
    (text : Text) : Prop where
  areNames : names.all isEntryName = true
  notExcluded : ∀ folder ∈ names.dropLast, isExcludedName folder = false
  extension : hasIndexedExtension (layout.root.descend names) = true
  content : ∃ modified, disk.file? (layout.root.descend names) =
    some { content := .text text, modified }
  size : byteLength text ≤ settings.maxFileSize

/-- Whether an occurrence is a pointer at some lines that leads to a target on the disk. -/
def Occurrence.PointsAt (disk : Disk) (layout : Layout) (found : Occurrence) (target : Path)
    (lines : LineRange) : Prop :=
  ∃ pointer, Pointer.parse found.text = .ok pointer ∧ pointer.lines = lines ∧
    ∃ own, layout.target? disk pointer = some own ∧ (own == target) = true

structure HasText (disk : Disk) (settings : Settings) (file : Path) (text : Text) : Prop where
  content : ∃ modified, disk.file? file = some { content := .text text, modified }
  size : byteLength text ≤ settings.maxFileSize

theorem Layout.indexes_iff {disk : Disk} {layout : Layout} {settings : Settings} {file : Path}
    {text : Text} :
    (file ∈ layout.indexableFiles disk ∧ HasText disk settings file text) ↔
      ∃ names, layout.Indexes disk settings names text ∧ layout.root.descend names = file := by
  rw [indexableFiles, List.mem_filter, files, Disk.mem_walk_iff]
  constructor
  · rintro ⟨⟨⟨names, areNames, rfl, notExcluded, _⟩, extension⟩, content, size⟩
    exact ⟨names, ⟨areNames, notExcluded, extension, content, size⟩, rfl⟩
  · rintro ⟨names, indexes, rfl⟩
    have isFile : disk.isFile (layout.root.descend names) = true := by
      obtain ⟨modified, found⟩ := indexes.content
      rw [Disk.isFile, found]
      rfl
    exact ⟨⟨⟨names, indexes.areNames, rfl, indexes.notExcluded, isFile⟩, indexes.extension⟩,
      indexes.content, indexes.size⟩

theorem HasText.pointersIn_eq {disk : Disk} {settings : Settings} {file : Path} {text : Text}
    (hasText : HasText disk settings file text) (layout : Layout) :
    pointersIn disk layout settings file = Tracker.extract disk layout text := by
  obtain ⟨⟨modified, found⟩, size⟩ := hasText
  rw [Disk.file?_eq] at found
  obtain ⟨node, isNode, isData⟩ := Option.bind_eq_some_iff.mp found
  cases node with
  | folder tree => cases isData
  | file data =>
      cases isData
      have fits : ¬settings.maxFileSize < byteLength text := Nat.not_lt.mpr size
      rw [pointersIn, Disk.reading?, isNode, Option.bind_some, Disk.readingOf?_file]
      exact congrArg _ (congrArg (Option.getD · []) (if_neg fits))

theorem pointersIn_eq_nil_or (disk : Disk) (layout : Layout) (settings : Settings) (file : Path) :
    pointersIn disk layout settings file = [] ∨ ∃ text, HasText disk settings file text := by
  unfold pointersIn Disk.reading?
  cases isNode : disk.node? file with
  | none => exact .inl rfl
  | some node =>
      rw [Option.bind_some, Disk.readingOf?]
      split
      · exact .inl rfl
      · next fits =>
        cases hasText : node.text? with
        | none => exact .inl rfl
        | some text =>
            unfold Node.text? at hasText
            split at hasText
            · next own modified =>
              cases hasText
              refine .inr ⟨text, ⟨modified, ?_⟩, Nat.not_lt.mp fits⟩
              rw [Disk.file?_eq, isNode]
              rfl
            · cases hasText
            · cases hasText

/-! Which places of a text point at a target. -/

namespace Occurrence

theorem pointsAt_iff {disk : Disk} {layout : Layout} {found : Occurrence} {target : Path}
    {lines : LineRange} :
    found.PointsAt disk layout target lines ↔
      ∃ tracked, Tracker.track? disk layout found = some tracked ∧
        tracked.pointsTo target lines = true := by
  constructor
  · rintro ⟨pointer, parsed, sameLines, isTarget⟩
    let tracked : TrackedPointer :=
      { pointer, start := found.start, stop := found.stop, definitionLine := found.line
        target? := layout.target? disk pointer }
    refine ⟨tracked, ?_, TrackedPointer.pointsTo_iff.mpr ⟨sameLines, isTarget⟩⟩
    rw [Tracker.track?, parsed]
  · rintro ⟨tracked, isTracked, points⟩
    obtain ⟨pointer, parsed, rfl⟩ := Tracker.track?_eq_some isTracked
    obtain ⟨sameLines, isTarget⟩ := TrackedPointer.pointsTo_iff.mp points
    exact ⟨pointer, parsed, sameLines, isTarget⟩

structure StandsAt (found : Occurrence) (reference : Reference) : Prop where
  start : found.start = reference.start
  stop : found.stop = reference.stop
  line : found.line = reference.definitionLine

theorem standsAt_reference {disk : Disk} {layout : Layout} {found : Occurrence}
    {tracked : TrackedPointer} (isTracked : Tracker.track? disk layout found = some tracked)
    (source : Path) : found.StandsAt (tracked.reference source) := by
  obtain ⟨pointer, _, rfl⟩ := Tracker.track?_eq_some isTracked
  exact ⟨rfl, rfl, rfl⟩

theorem reference_eq_of_standsAt {found : Occurrence} {left right : Reference}
    (leftStands : found.StandsAt left) (rightStands : found.StandsAt right)
    (source : left.source = right.source) (lines : left.lines = right.lines) : left = right := by
  cases left
  cases right
  cases source
  cases lines
  cases leftStands.start.symm.trans rightStands.start
  cases leftStands.stop.symm.trans rightStands.stop
  cases leftStands.line.symm.trans rightStands.line
  rfl

theorem line_eq_iff {text : Text} {found : Occurrence} (member : found ∈ findAll text)
    (line : Nat) :
    found.line = line ↔
      ∃ before after, text = before ++ after ∧ byteLength before = found.start ∧
        line = 1 + before.count '\n' := by
  obtain ⟨before, after, between⟩ := between_of_mem_findAll member
  have start : byteLength before = found.start := by
    rw [between.start_eq, Nat.zero_add]
  constructor
  · rintro rfl
    exact ⟨before, _, between.text_eq, start, between.line_eq⟩
  · rintro ⟨other, otherAfter, isText, otherStart, rfl⟩
    have same : before = other :=
      prefix_eq_of_byteLength_eq (between.text_eq.symm.trans isText) (start.trans otherStart.symm)
    rw [between.line_eq, same]

end Occurrence

theorem exists_lastInto?_extract_iff {disk : Disk} {layout : Layout} {text : Text} {target : Path}
    {lines : LineRange} {source : Path} {reference : Reference} :
    (∃ tracked, lastInto? (Tracker.extract disk layout text) target lines = some tracked ∧
        tracked.reference source = reference) ↔
      reference.source = source ∧ reference.lines = lines ∧
        (∃ found ∈ Occurrence.findAll text, found.StandsAt reference ∧
          found.PointsAt disk layout target lines) ∧
        ∀ later ∈ Occurrence.findAll text, reference.start < later.start →
          ¬later.PointsAt disk layout target lines := by
  have spaced := Tracker.spaced_extract disk layout text
  constructor
  · rintro ⟨tracked, isLast, rfl⟩
    obtain ⟨member, points, noneLater⟩ := (lastInto?_eq_some_iff spaced).mp isLast
    obtain ⟨found, inText, isTracked⟩ := List.mem_filterMap.mp member
    refine ⟨rfl, (TrackedPointer.pointsTo_iff.mp points).1,
      ⟨found, inText, Occurrence.standsAt_reference isTracked source,
        Occurrence.pointsAt_iff.mpr ⟨tracked, isTracked, points⟩⟩, ?_⟩
    intro later laterInText behind laterPoints
    obtain ⟨other, isOther, otherPoints⟩ := Occurrence.pointsAt_iff.mp laterPoints
    rw [(Occurrence.standsAt_reference isOther source).start] at behind
    rw [noneLater other (List.mem_filterMap.mpr ⟨later, laterInText, isOther⟩) behind]
      at otherPoints
    cases otherPoints
  -- An occurrence stands for one pointer only, so the one at the reference is the last one.
  · rintro ⟨rfl, rfl, ⟨found, inText, stands, points⟩, noneLater⟩
    obtain ⟨tracked, isTracked, trackedPoints⟩ := Occurrence.pointsAt_iff.mp points
    have trackedStands := Occurrence.standsAt_reference isTracked reference.source
    have isReference : tracked.reference reference.source = reference :=
      Occurrence.reference_eq_of_standsAt trackedStands stands rfl
        (TrackedPointer.pointsTo_iff.mp trackedPoints).1
    refine ⟨tracked, (lastInto?_eq_some_iff spaced).mpr
      ⟨List.mem_filterMap.mpr ⟨found, inText, isTracked⟩, trackedPoints, ?_⟩, isReference⟩
    intro other member behind
    obtain ⟨later, laterInText, isOther⟩ := List.mem_filterMap.mp member
    have laterBehind : reference.start < later.start := by
      rw [(Occurrence.standsAt_reference isOther reference.source).start, ← isReference]
      exact behind
    refine Bool.eq_false_iff.mpr fun otherPoints => ?_
    exact noneLater later laterInText laterBehind
      (Occurrence.pointsAt_iff.mpr ⟨other, isOther, otherPoints⟩)

theorem exists_lastInto?_pointersIn_iff {disk : Disk} {layout : Layout} {settings : Settings}
    {file target : Path} {lines : LineRange} {reference : Reference} :
    (∃ tracked, lastInto? (pointersIn disk layout settings file) target lines = some tracked ∧
        tracked.reference file = reference) ↔
      ∃ text, HasText disk settings file text ∧
        ∃ tracked, lastInto? (Tracker.extract disk layout text) target lines = some tracked ∧
          tracked.reference file = reference := by
  constructor
  · rintro ⟨tracked, found, isReference⟩
    rcases pointersIn_eq_nil_or disk layout settings file with none | ⟨text, hasText⟩
    · rw [none] at found
      cases found
    · rw [hasText.pointersIn_eq] at found
      exact ⟨text, hasText, tracked, found, isReference⟩
  · rintro ⟨text, hasText, tracked, found, isReference⟩
    rw [hasText.pointersIn_eq]
    exact ⟨tracked, found, isReference⟩

section FirstScan

variable {disk : Disk} {layout : Layout} {settings : Settings} {start : Session}

theorem stores_scan_iff_lastInto? (isNew : start.tracker = .ofLayout layout settings)
    (fromDisk : start.FromDisk) (completed : (start.scan disk).1.cancelled = false) (target : Path)
    (lines : LineRange) (reference : Reference) :
    (start.scan disk).2.tracker.index.Stores target lines reference ↔
      ∃ names text, layout.Indexes disk settings names text ∧
        ∃ tracked, lastInto? (Tracker.extract disk layout text) target lines = some tracked ∧
          tracked.reference (layout.root.descend names) = reference := by
  have scannable := Session.scannable_of_new disk isNew fromDisk
  obtain ⟨upToDate, sameLayout, sameSettings⟩ := scannable.upToDate_scan completed
  have coupled := (Session.sound_scan disk fromDisk.undisturbed scannable.sound).coupled
  rw [upToDate.stores_iff coupled, sameLayout, sameSettings, isNew]
  constructor
  · rintro ⟨file, member, isStored⟩
    obtain ⟨text, hasText, inText⟩ := exists_lastInto?_pointersIn_iff.mp isStored
    obtain ⟨names, indexes, rfl⟩ := Layout.indexes_iff.mp ⟨member, hasText⟩
    exact ⟨names, text, indexes, inText⟩
  · rintro ⟨names, text, indexes, inText⟩
    obtain ⟨member, hasText⟩ := Layout.indexes_iff.mpr ⟨names, indexes, rfl⟩
    exact ⟨_, member, exists_lastInto?_pointersIn_iff.mpr ⟨text, hasText, inText⟩⟩

/-- A reference that a first scan stores stands on one of the lines of its text, so the number of
its line fits into 32 bits whenever the number of lines does. -/
theorem definitionLine_le_of_stores_scan (isNew : start.tracker = .ofLayout layout settings)
    (fromDisk : start.FromDisk) (completed : (start.scan disk).1.cancelled = false) {target : Path}
    {lines : LineRange} {reference : Reference}
    (stores : (start.scan disk).2.tracker.index.Stores target lines reference) :
    ∃ names text, layout.Indexes disk settings names text ∧
      reference.source = layout.root.descend names ∧
      reference.definitionLine ≤ (linesOf text).length := by
  obtain ⟨names, text, indexes, inText⟩ :=
    (stores_scan_iff_lastInto? isNew fromDisk completed target lines reference).mp stores
  obtain ⟨source, _, ⟨found, isFound, stands, _⟩, _⟩ := exists_lastInto?_extract_iff.mp inText
  refine ⟨names, text, indexes, source, ?_⟩
  rw [← stands.line]
  exact Occurrence.line_le_of_mem_findAll isFound

end FirstScan

/-- What the first scan of a new tracker stores, when nobody cancels it or edits a file meanwhile:
the last pointer to some lines of a target in each file that takes part, at its place there. -/
theorem stores_after_scan_iff {disk : Disk} {layout : Layout} {settings : Settings}
    {start : Session} (isNew : start.tracker = .ofLayout layout settings)
    (fromDisk : start.FromDisk) (completed : (start.scan disk).1.cancelled = false)
    (target : Path) (lines : LineRange) (reference : Reference) :
    (start.scan disk).2.tracker.index.Stores target lines reference ↔
      reference.lines = lines ∧
        ∃ names text, layout.Indexes disk settings names text ∧
          reference.source = layout.root.descend names ∧
          (∃ found ∈ Occurrence.findAll text, found.start = reference.start ∧
            found.stop = reference.stop ∧ found.PointsAt disk layout target lines) ∧
          (∀ later ∈ Occurrence.findAll text, reference.start < later.start →
            ¬later.PointsAt disk layout target lines) ∧
          ∃ before after, text = before ++ after ∧ byteLength before = reference.start ∧
            reference.definitionLine = 1 + before.count '\n' := by
  rw [stores_scan_iff_lastInto? isNew fromDisk completed]
  constructor
  · rintro ⟨names, text, indexes, inText⟩
    obtain ⟨source, sameLines, ⟨found, isFound, stands, points⟩, noneLater⟩ :=
      exists_lastInto?_extract_iff.mp inText
    have line := (Occurrence.line_eq_iff isFound reference.definitionLine).mp stands.line
    rw [stands.start] at line
    exact ⟨sameLines, names, text, indexes, source,
      ⟨found, isFound, stands.start, stands.stop, points⟩, noneLater, line⟩
  · rintro ⟨sameLines, names, text, indexes, source, ⟨found, isFound, isStart, isStop, points⟩,
      noneLater, line⟩
    rw [← isStart] at line
    have stands : found.StandsAt reference :=
      ⟨isStart, isStop, (Occurrence.line_eq_iff isFound _).mpr line⟩
    exact ⟨names, text, indexes, exists_lastInto?_extract_iff.mpr
      ⟨source, sameLines, ⟨found, isFound, stands, points⟩, noneLater⟩⟩

theorem stores_after_scan_of_two_pointers :
    let root := Path.ofNames ["w".toList]
    let file := Path.ofNames ["w".toList, "a.md".toList]
    let target := Path.ofNames ["w".toList, "m".toList, "x.rs".toList]
    let text := "@m/x.rs:L1\n@m/x.rs:L1".toList
    let disk := (Disk.empty.write file ⟨.text text, 0⟩).write target ⟨.text [], 0⟩
    let lines : LineRange := ⟨1, 1, by decide, by decide⟩
    let start : Session := { tracker := .ofLayout ⟨root, []⟩ .default }
    start.FromDisk ∧ (start.scan disk).1.cancelled = false ∧
      (start.scan disk).2.tracker.index.Stores target lines
        { source := file, start := 11, stop := 21, lines, definitionLine := 2 } := by
  intro root file target text disk lines start
  have fromDisk : start.FromDisk := ⟨rfl, rfl⟩
  have completed : (start.scan disk).1.cancelled = false := by decide
  have extension : hasIndexedExtension (root.descend ["a.md".toList]) = true := by decide +kernel
  have content : disk.file? (root.descend ["a.md".toList]) = some ⟨.text text, 0⟩ := by decide
  have indexes : Layout.Indexes disk ⟨root, []⟩ .default ["a.md".toList] text :=
    ⟨by decide, by decide, extension, ⟨0, content⟩, by decide⟩
  have source : file = root.descend ["a.md".toList] := by rfl
  refine ⟨fromDisk, completed, (stores_after_scan_iff rfl fromDisk completed target lines _).mpr
    ⟨rfl, _, text, indexes, source, ?_, ?_, ?_⟩⟩
  · refine ⟨⟨"@m/x.rs:L1".toList, 11, 21, 2⟩, by decide, rfl, rfl, ?_⟩
    exact ⟨⟨"m".toList, "x.rs".toList, lines⟩, by rfl, rfl, target, by rfl, BEq.rfl⟩
  · have noneLater : ∀ later ∈ Occurrence.findAll text, ¬11 < later.start := by decide
    exact fun later member behind => absurd behind (noneLater later member)
  · exact ⟨"@m/x.rs:L1\n".toList, "@m/x.rs:L1".toList, by decide, by decide, by decide⟩

end CodePointers
