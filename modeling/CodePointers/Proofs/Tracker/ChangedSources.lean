import CodePointers.Proofs.Tracker.Outlines

/-!
A change below the root and the files that its event has read anew: these are the files at the place
of the change that are scanned, and what is read is what a scan would read.
-/

namespace CodePointers

theorem Path.descend_append (base : Path) (names more : List Text) :
    base.descend (names ++ more) = (base.descend names).descend more :=
  List.foldl_append

theorem exists_single_iff {root path source : Path} {changed names : List Text} {disk : Disk}
    (place : path.Spells changed) (isFile : (disk.fileAt? changed).isSome)
    (spells : source.Spells names) :
    (∃ file ∈ if isIndexable root path = true then [path] else [], (file == source) = true) ↔
      changed <+: names ∧ isIndexable root source = true ∧ (disk.fileAt? names).isSome := by
  constructor
  · intro known
    split at known
    · next indexable =>
      obtain ⟨file, member, same⟩ := known
      obtain rfl := List.mem_singleton.mp member
      obtain rfl := (place.beq_iff spells).mp same
      rw [← isIndexable_congr root same]
      exact ⟨List.prefix_rfl, indexable, isFile⟩
    · obtain ⟨file, member, _⟩ := known
      cases member
  · rintro ⟨⟨more, rfl⟩, indexable, isBelow⟩
    have atPlace : more = [] := by
      by_contra below
      rw [Disk.fileAt?_append_eq_none below isFile] at isBelow
      cases isBelow
    rw [atPlace, List.append_nil] at spells
    have same : (path == source) = true := (place.beq_iff spells).mpr rfl
    rw [← isIndexable_congr root same] at indexable
    rw [if_pos indexable]
    exact ⟨path, List.mem_singleton_self path, same⟩

def FileEvent.Below (root : Path) (event : FileEvent) : Prop :=
  ∀ path, event.path? = some path →
    ∃ names, names.all isEntryName = true ∧ path = root.descend names

theorem FileEvent.Below.mem_sources {layout : Layout} {disk : Disk} {event : FileEvent}
    (below : event.Below layout.root) {file : Path} (member : file ∈ event.sources disk layout) :
    ∃ names, names.all isEntryName = true ∧ file = layout.root.descend names ∧
      isIndexable layout.root file = true := by
  have single {path : Path} (isPath : event.path? = some path)
      (inSingle : file ∈ if isIndexable layout.root path = true then [path] else []) :
      ∃ names, names.all isEntryName = true ∧ file = layout.root.descend names ∧
        isIndexable layout.root file = true := by
    split at inSingle
    · next indexable =>
      obtain rfl := List.mem_singleton.mp inSingle
      obtain ⟨names, areNames, isDescent⟩ := below file isPath
      exact ⟨names, areNames, isDescent, indexable⟩
    · cases inSingle
  cases event with
  | changed path => exact single rfl member
  | removed path => cases member
  | created path =>
      rw [FileEvent.sources] at member
      split at member
      · obtain ⟨walked, indexable⟩ := List.mem_filter.mp member
        obtain ⟨more, areMore, rfl, _⟩ := Disk.mem_walk_iff.mp walked
        obtain ⟨names, areNames, rfl⟩ := below path rfl
        refine ⟨names ++ more, ?_, (Path.descend_append ..).symm, indexable⟩
        rw [List.all_append, areNames, areMore]
        rfl
      · exact single rfl member
  | rescan =>
      rw [FileEvent.sources, Layout.indexableFiles_eq] at member
      obtain ⟨walked, indexable⟩ := List.mem_filter.mp member
      obtain ⟨names, areNames, isDescent, _⟩ := Disk.mem_walk_iff.mp walked
      exact ⟨names, areNames, isDescent, indexable⟩

theorem FileEvent.Below.spelled {layout : Layout} {disk : Disk} {event : FileEvent}
    {above : List Text} (below : event.Below layout.root) (root : layout.root.Spells above) :
    ∀ file ∈ event.sources disk layout, ∃ names, file.Spells names := by
  intro file member
  obtain ⟨names, areNames, rfl, _⟩ := below.mem_sources member
  exact ⟨_, root.descend areNames⟩

theorem FileEvent.Below.eq_of_source {layout : Layout} {disk : Disk} {event : FileEvent}
    {above names : List Text} (below : event.Below layout.root) (root : layout.root.Spells above)
    (areNames : names.all isEntryName = true) :
    ∀ file ∈ event.sources disk layout, (file == layout.root.descend names) = true →
      file = layout.root.descend names := by
  intro file member same
  obtain ⟨more, areMore, rfl, _⟩ := below.mem_sources member
  exact root.eq_of_beq_descend areMore areNames same

theorem FileEvent.Below.proper {layout : Layout} {disk : Disk} {event : FileEvent}
    {above : List Text} (below : event.Below layout.root) (root : layout.root.Spells above)
    {file : Path} (member : file ∈ event.sources disk layout) : layout.Proper file := by
  obtain ⟨names, areNames, rfl, indexable⟩ := below.mem_sources member
  have spells := root.descend areNames
  refine ⟨(spells.isWithin_iff root).mpr (List.prefix_append ..), indexable, ?_⟩
  rw [spells]
  simp

namespace ChangesBelow

variable {layout : Layout} {above names : List Text} {disk next : Disk} {event : FileEvent}
  (changes : ChangesBelow layout.root above names disk next event)
  (root : layout.root.Spells above)
include changes

theorem eventBelow : event.Below layout.root := by
  have atPlace : event.path? = some (layout.root.descend names) := by
    cases changes.change <;> rfl
  intro path isPath
  rw [atPlace] at isPath
  exact ⟨names, changes.areNames, (Option.some.inj isPath).symm⟩

include root

theorem exists_source_iff (notRemoved : ∀ path, event ≠ .removed path) {source : Path}
    {sourceNames : List Text} (spells : source.Spells sourceNames) :
    (∃ file ∈ event.sources next layout, (file == source) = true) ↔
      above ++ names <+: sourceNames ∧ isIndexable layout.root source = true ∧
        (next.fileAt? sourceNames).isSome := by
  have place := root.denotes_descend changes.areNames changes.below
  cases changes.change with
  | rewritten before after => exact exists_single_iff place.spells after spells
  | removed empty => exact absurd rfl (notRemoved _)
  | created empty isThere =>
      rw [FileEvent.sources]
      obtain ⟨node, isNode⟩ := Option.isSome_iff_exists.mp isThere
      have found : next.node? (layout.root.descend names) = some node := by
        rw [place.node?_eq, isNode]
      cases node with
      | folder tree =>
          have isFolder : next.isFolder (layout.root.descend names) = true := by
            rw [Disk.isFolder, found]
          rw [if_pos isFolder, ← spells.isWithin_iff place.spells]
          exact Path.exists_walked_iff root place.spells (Option.isSome_of_eq_some found) spells
      | file data =>
          have notFolder : ¬next.isFolder (layout.root.descend names) = true := by
            rw [Disk.isFolder, found]
            exact Bool.false_ne_true
          rw [if_neg notFolder]
          refine exists_single_iff place.spells ?_ spells
          rw [Disk.fileAt?, isNode]
          rfl

theorem readable_of_mem_sources (legible : next.Legible layout.root) (settings : Settings)
    {file : Path} (member : file ∈ event.sources next layout) :
    ∃ text, next.reading? settings file = some text := by
  have notRemoved (path : Path) : event ≠ .removed path := by
    rintro rfl
    cases member
  obtain ⟨more, areNames, rfl, _⟩ := changes.eventBelow.mem_sources member
  have spells := root.descend areNames
  obtain ⟨_, _, isThere⟩ :=
    (changes.exists_source_iff root notRemoved spells).mp ⟨_, member, BEq.rfl⟩
  rw [← root.isFile_descend_iff changes.after areNames] at isThere
  obtain ⟨data, found⟩ := Option.isSome_iff_exists.mp isThere
  obtain ⟨text, isText⟩ := legible more areNames data found
  rw [Disk.file?_eq] at found
  obtain ⟨node, isNode, isData⟩ := Option.bind_eq_some_iff.mp found
  rw [Disk.reading?, isNode, Option.bind_some, Disk.readingOf?]
  split
  · exact ⟨[], rfl⟩
  · obtain ⟨content, modified⟩ := data
    obtain rfl : content = .text text := isText
    cases node with
    | folder tree => cases isData
    | file own =>
        cases isData
        exact ⟨text, rfl⟩

omit root in
theorem isSome_fileAt? (notRemoved : ∀ path, event ≠ .removed path) {fileNames : List Text}
    (isFile : (disk.fileAt? fileNames).isSome) : (next.fileAt? fileNames).isSome := by
  by_cases inside : above ++ names <+: fileNames
  · cases changes.change with
    | removed empty => exact absurd rfl (notRemoved _)
    | created empty isThere =>
        rw [empty fileNames inside] at isFile
        cases isFile
    | rewritten before after =>
        obtain ⟨more, rfl⟩ := inside
        cases more with
        | nil => rwa [List.append_nil]
        | cons name more =>
            rw [Disk.fileAt?_append_eq_none (List.cons_ne_nil name more) before] at isFile
            cases isFile
  · rwa [changes.outside fileNames inside]

omit root in
theorem isSome_fileAt?_before (notCreated : ∀ path, event ≠ .created path) {fileNames : List Text}
    (isFile : (next.fileAt? fileNames).isSome) : (disk.fileAt? fileNames).isSome := by
  by_cases inside : above ++ names <+: fileNames
  · cases changes.change with
    | created empty isThere => exact absurd rfl (notCreated _)
    | removed empty =>
        rw [empty fileNames inside] at isFile
        cases isFile
    | rewritten before after =>
        obtain ⟨more, rfl⟩ := inside
        cases more with
        | nil => rwa [List.append_nil]
        | cons name more =>
            rw [Disk.fileAt?_append_eq_none (List.cons_ne_nil name more) after] at isFile
            cases isFile
  · rwa [← changes.outside fileNames inside]

end ChangesBelow

end CodePointers
