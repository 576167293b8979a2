import CodePointers.Proofs.Disk.WorkspaceFiles
import CodePointers.Proofs.Tracker.Cancellation

/-!
Which files get scanned. The walk that passes over excluded folders, the question whether a single
path is indexable, and the walk that starts at a new folder agree on them.
-/

namespace CodePointers

/-! A place below another one. -/

namespace Path

variable {disk : Disk} {place base : Path} {all above names : List Text}

theorem Spells.exists_above (spells : place.Spells all)
    (below : place.parts = base.parts ++ names.map .name) :
    ∃ above, base.Spells above ∧ all = above ++ names := by
  rw [spells] at below
  cases isParts : base.parts with
  | nil =>
      rw [isParts, List.nil_append] at below
      have noName : Part.root ∈ names.map Part.name := below ▸ List.mem_cons_self
      simp at noName
  | cons first rest =>
      rw [isParts, List.cons_append, List.cons.injEq] at below
      obtain ⟨above, others, isAll, isRest, isNames⟩ := List.map_eq_append_iff.mp below.2
      refine ⟨above, ?_, ?_⟩
      · rw [Spells, isParts, ← below.1, isRest]
      · rw [isAll, map_name_injective isNames]

theorem Spells.pathExists_above (spells : place.Spells (above ++ names))
    (baseSpells : base.Spells above) (isFolder : disk.isFolder place = true) :
    disk.pathExists base = true := by
  unfold Disk.isFolder at isFolder
  split at isFolder
  · next tree found =>
    obtain ⟨upper, isUpper⟩ :=
      Disk.folder_of_folder_append (spells.node?_eq_folder_iff.mp found)
    exact Option.isSome_of_eq_some (baseSpells.node?_eq_folder_iff.mpr isUpper)
  · cases isFolder

end Path

namespace Layout

theorem mem_indexableFiles_iff {disk : Disk} {layout : Layout} {path : Path} :
    path ∈ layout.indexableFiles disk ↔
      ∃ names, names.all isEntryName = true ∧ path = layout.root.descend names ∧
        disk.isFile path = true ∧ isIndexable layout.root path = true := by
  rw [indexableFiles_eq, List.mem_filter, Disk.mem_walk_iff]
  constructor
  · rintro ⟨⟨names, areNames, isPath, _, isFile⟩, indexable⟩
    exact ⟨names, areNames, isPath, isFile, indexable⟩
  · rintro ⟨names, areNames, rfl, isFile, indexable⟩
    have notExcluded := ((isIndexable_descend_iff areNames).mp indexable).2
    exact ⟨⟨names, areNames, rfl, notExcluded, isFile⟩, indexable⟩

theorem indexableFiles_sorted (disk : Disk) (layout : Layout) :
    (layout.indexableFiles disk).Pairwise fun left right => compare left right = .lt :=
  (disk.walk_sorted layout.root).filter hasIndexedExtension

end Layout

namespace Session

theorem newFiles_eq {disk : Disk} {session : Session} {folder : Path} {names : List Text}
    (isFolder : disk.isFolder folder = true) (plain : Part.parent ∉ folder.parts)
    (below : folder.parts = session.tracker.layout.root.parts ++ names.map .name) :
    List.Forall₂ (fun left right => (left == right) = true) (session.newFiles disk folder)
      ((session.tracker.layout.indexableFiles disk).filter (·.isWithin folder)) := by
  have isThere := Disk.pathExists_of_isFolder isFolder
  obtain ⟨all, spells⟩ := Path.exists_spells (Path.isAbsolute_of_pathExists isThere) plain
  obtain ⟨above, rootSpells, rfl⟩ := spells.exists_above below
  have rootIsThere := spells.pathExists_above rootSpells isFolder
  have newOrdered : (session.newFiles disk folder).Pairwise fun left right =>
      compare left right = .lt := (disk.walk_sorted folder).filter _
  have oldOrdered := (session.tracker.layout.indexableFiles_sorted disk).filter (·.isWithin folder)
  -- Both lists are in the order of paths, so they agree when they have the same files.
  refine (forall₂_of_pairwise_lt newOrdered oldOrdered ?_ ?_).imp
    fun _ _ => Path.compare_eq_iff.mp
  · intro file member
    obtain ⟨more, areNames, isPath, _⟩ := Disk.mem_walk_iff.mp (List.mem_filter.mp member).1
    have fileSpells := isPath ▸ spells.descend areNames
    obtain ⟨inFolder, indexable, isThere⟩ :=
      (Path.exists_walked_iff rootSpells spells isThere fileSpells).mp ⟨file, member, BEq.rfl⟩
    have inRoot : file.isWithin session.tracker.layout.root = true := by
      rw [fileSpells.isWithin_iff rootSpells, List.append_assoc]
      exact List.prefix_append ..
    obtain ⟨other, isIndexable, same⟩ :=
      (Path.exists_indexable_iff rootSpells rootIsThere fileSpells).mpr
        ⟨inRoot, indexable, isThere⟩
    refine ⟨other, List.mem_filter.mpr ⟨isIndexable, ?_⟩, ?_⟩
    · rw [Path.isWithin_congr same, inFolder]
    · exact Path.compare_eq_iff.mpr (BEq.symm same)
  · intro file member
    obtain ⟨isIndexable, inFolder⟩ := List.mem_filter.mp member
    obtain ⟨more, areNames, isPath, _⟩ := Layout.mem_indexableFiles_iff.mp isIndexable
    have fileSpells := isPath ▸ rootSpells.descend areNames
    obtain ⟨_, indexable, isStored⟩ :=
      (Path.exists_indexable_iff rootSpells rootIsThere fileSpells).mp ⟨file, isIndexable, BEq.rfl⟩
    obtain ⟨other, isNew, same⟩ := (Path.exists_walked_iff rootSpells spells isThere fileSpells).mpr
      ⟨inFolder, indexable, isStored⟩
    exact ⟨other, isNew, Path.compare_eq_iff.mpr same⟩

/-! What happens to the files of a new folder. -/

def readAnew (disk : Disk) (session : Session) (file : Path) : Session :=
  (session.forgetText file).readFile disk file

theorem NeverCancelled.readAnew {session : Session} (never : session.NeverCancelled) (disk : Disk)
    (file : Path) : (session.readAnew disk file).NeverCancelled := by
  have forgotten : (session.forgetText file).NeverCancelled := ⟨never.running, never.notDue⟩
  exact forgotten.readFiles disk [file]

theorem NeverCancelled.scanNewFiles {disk : Disk} {files : List Path} {session : Session}
    (never : session.NeverCancelled) :
    (Session.scanNewFiles disk files session).2 = files.foldl (Session.readAnew disk) session := by
  induction files generalizing session with
  | nil => rfl
  | cons head rest ih =>
      have running : (session.forgetText head).circumstances.cancelled = false := never.running
      have scanned := ih (never.readAnew disk head)
      rw [List.foldl_cons, ← scanned, Session.scanNewFiles, scanFile_eq running]
      cases read : resultOfRead ((session.forgetText head).reindexNext disk head).1 with
      | indexed outcome => rfl
      | skipped => rfl
      | failed => rfl
      | cancelled =>
          have notCancelled :=
            isCancelled_resultOfRead ((session.forgetText head).reindexNext disk head).1
          rw [read] at notCancelled
          cases notCancelled

/-- The three ways to decide which files are scanned agree: a walk of the workspace, the test of a
path, and the walk of a folder that has appeared in it. -/
theorem scannedFiles_agree (disk : Disk) (session : Session) :
    (∀ path, path ∈ session.tracker.layout.indexableFiles disk ↔
      ∃ names, names.all isEntryName = true ∧
        path = session.tracker.layout.root.descend names ∧ disk.isFile path = true ∧
        isIndexable session.tracker.layout.root path = true) ∧
    ((session.tracker.layout.indexableFiles disk).Pairwise fun left right =>
      compare left right = .lt) ∧
    ∀ folder (names : List Text), disk.isFolder folder = true → Part.parent ∉ folder.parts →
      folder.parts = session.tracker.layout.root.parts ++ names.map .name →
      List.Forall₂ (fun left right => (left == right) = true) (session.newFiles disk folder)
          ((session.tracker.layout.indexableFiles disk).filter (·.isWithin folder)) ∧
        (session.NeverCancelled → (session.addFolder disk folder).2.tracker =
          (((session.newFiles disk folder).foldl (readAnew disk) session).tracker.retryPending
            disk).1) := by
  refine ⟨fun _ => Layout.mem_indexableFiles_iff,
    session.tracker.layout.indexableFiles_sorted disk, ?_⟩
  intro folder names isFolder plain below
  refine ⟨newFiles_eq isFolder plain below, fun never => ?_⟩
  rw [addFolder, ← never.scanNewFiles]

theorem scannedFiles_agree_of_excluded_folder :
    let layout : Layout := ⟨.ofText "/w".toList, []⟩
    let note : File := ⟨.text "@w/b.md:L1".toList, 0⟩
    let disk := (((Disk.empty.write (.ofText "/w/src/build.md".toList) note).write
      (.ofText "/w/src/build/a.md".toList) note).write (.ofText "/w/src/deep/b.md".toList)
        note).write (.ofText "/w/other.md".toList) note
    let session : Session := { tracker := .ofLayout layout .default }
    let folder := Path.ofText "/w//src/".toList
    disk.isFolder folder = true ∧
      List.Forall₂ (fun left right => (left == right) = true) (session.newFiles disk folder)
        ((session.tracker.layout.indexableFiles disk).filter (·.isWithin folder)) ∧
      session.newFiles disk (.ofText "/w/src/build".toList) = [] ∧
      (session.newFiles disk folder).length = 2 ∧
      (session.tracker.layout.indexableFiles disk).length = 3 ∧
      (session.addFolder disk folder).2.tracker =
        (((session.newFiles disk folder).foldl (readAnew disk) session).tracker.retryPending
          disk).1 := by
  intro layout note disk session folder
  have isFolder : disk.isFolder folder = true := by decide +kernel
  obtain ⟨_, _, agree⟩ := scannedFiles_agree disk session
  obtain ⟨sameFiles, reads⟩ :=
    agree folder ["src".toList] isFolder (by decide +kernel) (by decide +kernel)
  exact ⟨isFolder, sameFiles, by rfl, by decide +kernel, by decide +kernel,
    reads ⟨rfl, rfl⟩⟩

end Session

end CodePointers
