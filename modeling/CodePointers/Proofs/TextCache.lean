import CodePointers.Proofs.Disk.Spellings
import CodePointers.Proofs.Tracker.Reading

/-!
Reads through a cache while the disk changes. As long as no path ever shows one size and time with
two contents, every read is that of the disk as it is: each cached text stands for a disk of the
past, on which its path showed the size and the time that the text is kept with.
-/

namespace CodePointers

/-! What a path shows. -/

/-- A disk, and what is known of its folders without reading them. -/
structure StampedDisk where
  disk : Disk
  folderStamp : List Text → Stamp

namespace StampedDisk

def sight (stamped : StampedDisk) (names : List Text) : Node → Stamp × Option Content
  | .file data => (data.stamp, some data.content)
  | .folder _ => (stamped.folderStamp names, none)

def sight? (stamped : StampedDisk) (path : Path) : Option (Stamp × Option Content) :=
  (stamped.disk.node? path).map (stamped.sight (Disk.namesOf path))

def sightAt? (stamped : StampedDisk) (names : List Text) : Option (Stamp × Option Content) :=
  (stamped.disk.root.at? names).map (stamped.sight names)

theorem sightAt?_namesOf {stamped : StampedDisk} {path : Path} {sight : Stamp × Option Content}
    (shown : stamped.sight? path = some sight) :
    stamped.sightAt? (Disk.namesOf path) = some sight := by
  obtain ⟨node, isNode, isSight⟩ := Option.map_eq_some_iff.mp shown
  rw [sightAt?, Disk.at?_namesOf isNode, Option.map_some, isSight]

theorem sight?_ofNames {stamped : StampedDisk} {names : List Text} {sight : Stamp × Option Content}
    (shown : stamped.sightAt? names = some sight) :
    stamped.sight? (Path.ofNames names) = some sight := by
  obtain ⟨node, isNode, isSight⟩ := Option.map_eq_some_iff.mp shown
  have denotes := Path.denotes_ofNames (Disk.areNames_of_at? isNode)
  rw [sight?, denotes.node?_eq, denotes.spells.namesOf_eq, isNode, Option.map_some, isSight]

/-- Whether no path shows one stamp with two contents on these disks. -/
def Honest (disks : List StampedDisk) : Prop :=
  ∀ first ∈ disks, ∀ second ∈ disks, ∀ path stamp content other,
    first.sight? path = some (stamp, content) → second.sight? path = some (stamp, other) →
      content = other

def read (stamped : StampedDisk) (cache : TextCache) (path : Path) :
    Except ReadError Text × TextCache :=
  cache.readWith (some (stamped.folderStamp (Disk.namesOf path))) stamped.disk path

end StampedDisk

namespace TextCache

open StampedDisk

def firstReading (disk : Disk) (path : Path) : Except ReadError Text :=
  match disk.node? path with
  | none => .error (.missing path)
  | some (.folder _) => .error (.unreadable path)
  | some (.file data) => firstText path data.content

/-- Whether each cached text was shown by its path on one of the disks, with the size and time that
it is kept with. -/
def SeenOn (disks : List StampedDisk) (cache : TextCache) : Prop :=
  ∀ path cached, cache.get? path = some cached → ∃ stamped ∈ disks,
    stamped.sightAt? (Disk.namesOf path) =
      some ({ size := cached.size, modified := cached.modified }, some (.text cached.text))

variable {disks : List StampedDisk} {cache : TextCache} {stamped : StampedDisk} {path : Path}

theorem exists_of_kept? {stamp : Stamp} {text : Text}
    (isKept : cache.kept? path stamp = some text) :
    ∃ cached, cache.get? path = some cached ∧
      stamp = { size := cached.size, modified := cached.modified } ∧ cached.text = text := by
  unfold kept? at isKept
  split at isKept
  · cases isKept
  · next cached found =>
    split at isKept
    · next same =>
      refine ⟨cached, found, ?_, Option.some.inj isKept⟩
      rw [same.1, same.2]
    · cases isKept

theorem SeenOn.content_eq (seen : SeenOn disks cache) (honest : Honest disks)
    (member : stamped ∈ disks) {stamp : Stamp} {content : Option Content} {text : Text}
    (shown : stamped.sight? path = some (stamp, content))
    (isKept : cache.kept? path stamp = some text) : content = some (.text text) := by
  obtain ⟨cached, found, rfl, rfl⟩ := exists_of_kept? isKept
  obtain ⟨past, inPast, wasShown⟩ := seen path cached found
  have nowShown := sight?_ofNames (sightAt?_namesOf shown)
  exact honest stamped member past inPast _ _ _ _ nowShown (sight?_ofNames wasShown)

theorem SeenOn.read_eq (seen : SeenOn disks cache) (honest : Honest disks)
    (member : stamped ∈ disks) : (stamped.read cache path).1 = firstReading stamped.disk path := by
  unfold StampedDisk.read readWith firstReading
  cases isNode : stamped.disk.node? path with
  | none => rfl
  | some node =>
      have shown : stamped.sight? path = some (stamped.sight (Disk.namesOf path) node) := by
        rw [sight?, isNode, Option.map_some]
      cases node with
      | folder tree =>
          dsimp only
          split
          · next text isKept => cases seen.content_eq honest member shown isKept
          · rfl
      | file data =>
          dsimp only
          split
          · next text isFresh =>
            have isText := seen.content_eq honest member shown isFresh
            rw [Option.some.inj isText, firstText]
          · split
            · next bytes isBinary => rw [isBinary, firstText]
            · next text isText => rw [isText, firstText]

theorem SeenOn.erase (seen : SeenOn disks cache) (path : Path) :
    SeenOn disks (OrderedMap.erase cache path) := by
  intro other cached found
  rw [OrderedMap.get?_erase] at found
  split at found
  · cases found
  · exact seen other cached found

theorem SeenOn.read (seen : SeenOn disks cache) (member : stamped ∈ disks) (path : Path) :
    SeenOn disks (stamped.read cache path).2 := by
  unfold StampedDisk.read readWith
  split
  · exact seen
  · split <;> exact seen
  · next data isFile =>
    split
    · exact seen
    · split
      · exact seen
      · next text isText =>
        intro other cached found
        rw [OrderedMap.get?_insert] at found
        split at found
        · next same =>
          cases found
          refine ⟨stamped, member, ?_⟩
          rw [← Disk.namesOf_congr same, sightAt?, Disk.at?_namesOf isFile, ← isText]
          rfl
        · exact seen other cached found

theorem read_of_error {error : ReadError} (failed : (stamped.read cache path).1 = .error error) :
    (stamped.read cache path).2 = cache := by
  revert failed
  unfold StampedDisk.read readWith
  repeat' split
  all_goals first | exact fun _ => rfl | exact nofun

theorem firstReading_of_file? {disk : Disk} {data : File} (found : disk.file? path = some data) :
    firstReading disk path = firstText path data.content := by
  unfold Disk.file? at found
  split at found
  · next isNode =>
    cases found
    rw [firstReading, isNode]
  · cases found

theorem firstReading_of_no_file {disk : Disk} (noFile : disk.file? path = none) :
    ∃ error, firstReading disk path = .error error := by
  unfold firstReading
  split
  · exact ⟨_, rfl⟩
  · exact ⟨_, rfl⟩
  · next isNode =>
    rw [Disk.file?, isNode] at noFile
    cases noFile

theorem firstReading_eq_ok_iff {disk : Disk} {text : Text} :
    firstReading disk path = .ok text ↔
      ∃ modified, disk.file? path = some { content := .text text, modified } := by
  cases found : disk.file? path with
  | none =>
      obtain ⟨error, isError⟩ := firstReading_of_no_file found
      simp [isError]
  | some data =>
      obtain ⟨content, modified⟩ := data
      rw [firstReading_of_file? found]
      cases content <;> simp [firstText]

theorem firstReading_eq_error_iff {disk : Disk} :
    (∃ error, firstReading disk path = .error error) ↔
      ∀ data, disk.file? path = some data → ∃ bytes, data.content = .binary bytes := by
  cases found : disk.file? path with
  | none => simp [firstReading_of_no_file found]
  | some data =>
      obtain ⟨content, modified⟩ := data
      rw [firstReading_of_file? found]
      cases content <;> simp [firstText]

end TextCache

/-! Reads one after the other. -/

structure Reader where
  now : StampedDisk
  cache : TextCache

namespace Reader

inductive Step where
  | change (next : StampedDisk)
  | read (path : Path)
  | invalidate (path : Path)

def Step.next? : Step → Option StampedDisk
  | change next => some next
  | read _ | invalidate _ => none

def opened (now : StampedDisk) : Reader := { now, cache := .empty }

def read (reader : Reader) (path : Path) : Except ReadError Text × TextCache :=
  reader.now.read reader.cache path

def after (reader : Reader) : Step → Reader
  | .change next => { reader with now := next }
  | .read path => { reader with cache := (reader.read path).2 }
  | .invalidate path => { reader with cache := reader.cache.erase path }

def run (reader : Reader) (steps : List Step) : Reader := steps.foldl after reader

def answers (reader : Reader) : List Step → List (Except ReadError Text)
  | [] => []
  | step :: rest =>
      match step with
      | .read path => (reader.read path).1 :: (reader.after step).answers rest
      | .change _ | .invalidate _ => (reader.after step).answers rest

def disksOf (start : StampedDisk) (steps : List Step) : List StampedDisk :=
  start :: steps.filterMap Step.next?

def firstAnswers (now : StampedDisk) : List Step → List (Except ReadError Text)
  | [] => []
  | .change next :: rest => firstAnswers next rest
  | .read path :: rest => TextCache.firstReading now.disk path :: firstAnswers now rest
  | .invalidate _ :: rest => firstAnswers now rest

structure Within (disks : List StampedDisk) (reader : Reader) : Prop where
  now : reader.now ∈ disks
  cache : TextCache.SeenOn disks reader.cache

variable {disks : List StampedDisk} {reader : Reader}

theorem within_opened {start : StampedDisk} (member : start ∈ disks) :
    (opened start).Within disks :=
  ⟨member, fun _ _ found => nomatch found⟩

theorem Within.after (within : reader.Within disks) {step : Step}
    (known : ∀ next, step = .change next → next ∈ disks) : (reader.after step).Within disks := by
  cases step with
  | change next => exact ⟨known next rfl, within.cache⟩
  | read path => exact ⟨within.now, within.cache.read within.now path⟩
  | invalidate path => exact ⟨within.now, within.cache.erase path⟩

theorem Within.run (within : reader.Within disks) {steps : List Step}
    (known : ∀ next, .change next ∈ steps → next ∈ disks) : (reader.run steps).Within disks := by
  induction steps generalizing reader with
  | nil => exact within
  | cons step rest ih =>
      refine ih (within.after fun next isChange => known next ?_) fun next member => known next ?_
      · rw [isChange]
        exact List.mem_cons_self
      · exact List.mem_cons_of_mem step member

theorem Within.answers_eq (within : reader.Within disks) (honest : StampedDisk.Honest disks)
    {steps : List Step} (known : ∀ next, .change next ∈ steps → next ∈ disks) :
    reader.answers steps = firstAnswers reader.now steps := by
  induction steps generalizing reader with
  | nil => rfl
  | cons step rest ih =>
      have later :
          (reader.after step).answers rest = firstAnswers (reader.after step).now rest := by
        refine ih (within.after fun next isChange => known next ?_) fun next member => known next ?_
        · rw [isChange]
          exact List.mem_cons_self
        · exact List.mem_cons_of_mem step member
      cases step with
      | change next => exact later
      | read path =>
          have isReading : (reader.read path).1 = TextCache.firstReading reader.now.disk path :=
            within.cache.read_eq honest within.now
          rw [answers, firstAnswers, isReading, later]
          rfl
      | invalidate path => exact later

theorem mem_disksOf {start next : StampedDisk} {steps : List Step}
    (member : .change next ∈ steps) : next ∈ disksOf start steps :=
  List.mem_cons_of_mem start (List.mem_filterMap.mpr ⟨.change next, member, rfl⟩)

/-- Nothing that is read is out of date: a read gives the text that the file has now, or fails when
there is no file or no text in it, and then leaves the cache. To invalidate a path changes no
later answer. -/
theorem read_is_current {start : StampedDisk} {before later : List Step}
    (honest : StampedDisk.Honest (disksOf start (before ++ later))) :
    let reader := (opened start).run before
    (∀ path text, (reader.read path).1 = .ok text ↔
      ∃ modified, reader.now.disk.file? path = some { content := .text text, modified }) ∧
    (∀ path, (∃ error, (reader.read path).1 = .error error) ↔
      ∀ data, reader.now.disk.file? path = some data → ∃ bytes, data.content = .binary bytes) ∧
    (∀ path error, (reader.read path).1 = .error error → (reader.read path).2 = reader.cache) ∧
    ∀ path, (reader.after (.invalidate path)).answers later = reader.answers later := by
  intro reader
  have knownBefore (next : StampedDisk) (member : .change next ∈ before) :
      next ∈ disksOf start (before ++ later) := mem_disksOf (List.mem_append_left later member)
  have knownLater (next : StampedDisk) (member : .change next ∈ later) :
      next ∈ disksOf start (before ++ later) := mem_disksOf (List.mem_append_right before member)
  have within : reader.Within (disksOf start (before ++ later)) :=
    (within_opened List.mem_cons_self).run knownBefore
  have isReading (path : Path) :
      (reader.read path).1 = TextCache.firstReading reader.now.disk path :=
    within.cache.read_eq honest within.now
  refine ⟨fun path text => ?_, fun path => ?_, fun path error => TextCache.read_of_error,
    fun path => ?_⟩
  · rw [isReading]
    exact TextCache.firstReading_eq_ok_iff
  · rw [isReading]
    exact TextCache.firstReading_eq_error_iff
  · have invalidated : (reader.after (.invalidate path)).Within (disksOf start (before ++ later)) :=
      within.after nofun
    rw [invalidated.answers_eq honest knownLater, within.answers_eq honest knownLater]
    rfl

/-- A disk on which `/a.md` is a file or an empty folder. The folders are older than any file. -/
def sole : Option File → StampedDisk
  | some data =>
      { disk := ⟨.fileEntry "a.md".toList data .empty, ⟨by decide, trivial, trivial⟩, fun _ => 4096⟩
        folderStamp := fun _ => { size := 4096, modified := 0 } }
  | none =>
      { disk := ⟨.folderEntry "a.md".toList .empty .empty, ⟨by decide, trivial, trivial, trivial⟩,
          fun _ => 4096⟩
        folderStamp := fun _ => { size := 4096, modified := 0 } }

theorem eq_some_of_at?_sole {file? : Option File} {names : List Text} {data : File}
    (isFile : (sole file?).disk.root.at? names = some (.file data)) : file? = some data := by
  cases names with
  | nil => cases file? <;> cases isFile
  | cons name rest =>
      by_cases isName : ['a', '.', 'm', 'd'] = name
      · cases file? <;> cases rest <;> simp_all [sole, Folder.at?, Folder.get?]
      · cases file? <;> simp [sole, Folder.at?, Folder.get?, isName] at isFile

theorem shown_of_sole {file? : Option File} {path : Path} {stamp : Stamp} {content : Option Content}
    (shown : (sole file?).sight? path = some (stamp, content)) :
    stamp.modified = 0 ∧ content = none ∨
      ∃ data, file? = some data ∧ stamp = data.stamp ∧ content = some data.content := by
  have shownAt := StampedDisk.sightAt?_namesOf shown
  obtain ⟨node, isNode, isSight⟩ := Option.map_eq_some_iff.mp shownAt
  cases node with
  | folder tree => cases file? <;> cases isSight <;> exact .inl ⟨rfl, rfl⟩
  | file data =>
      cases isSight
      exact .inr ⟨data, eq_some_of_at?_sole isNode, rfl, rfl⟩

theorem honest_of_sole {files : List (Option File)}
    (older : ∀ data, some data ∈ files → data.modified ≠ 0)
    (apart : ∀ data other, some data ∈ files → some other ∈ files →
      data.modified = other.modified → data = other) : StampedDisk.Honest (files.map sole) := by
  intro first inFirst second inSecond path stamp content other shown also
  obtain ⟨file?, isFirst, rfl⟩ := List.mem_map.mp inFirst
  obtain ⟨other?, isSecond, rfl⟩ := List.mem_map.mp inSecond
  rcases shown_of_sole shown with ⟨timeless, rfl⟩ | ⟨data, rfl, rfl, rfl⟩
  · rcases shown_of_sole also with ⟨_, rfl⟩ | ⟨data, rfl, rfl, rfl⟩
    · rfl
    · exact absurd timeless (older data isSecond)
  · rcases shown_of_sole also with ⟨timeless, rfl⟩ | ⟨second, rfl, same, rfl⟩
    · exact absurd timeless (older data isFirst)
    · rw [apart data second isFirst isSecond (congrArg Stamp.modified same)]

theorem read_is_current_of_recreated :
    let path := Path.ofNames ["a.md".toList]
    let one : File := { content := .text "one".toList, modified := 1 }
    let three : File := { content := .text "three".toList, modified := 2 }
    let before := [.read path, .change (sole none), .read path, .change (sole three), .read path,
      .change (sole one)]
    let later := [.read path]
    StampedDisk.Honest (disksOf (sole one) (before ++ later)) ∧
      (((opened (sole one)).run before).read path).1 = .ok "one".toList ∧
      (((opened (sole one)).run before).after (.invalidate path)).answers later =
        ((opened (sole one)).run before).answers later := by
  intro path one three before later
  have honest : StampedDisk.Honest ([some one, none, some three, some one].map sole) := by
    refine honest_of_sole (by simp [one, three]) fun data other isData isOther => ?_
    simp only [List.mem_cons, List.not_mem_nil, Option.some.injEq, reduceCtorEq, or_false,
      false_or] at isData isOther
    rcases isData with rfl | rfl | rfl <;> rcases isOther with rfl | rfl | rfl <;>
      simp [one, three]
  have current := @read_is_current (sole one) before later honest
  exact ⟨honest, (current.1 path _).mpr ⟨1, rfl⟩, current.2.2.2 path⟩

end Reader

end CodePointers
