import CodePointers.Proofs.Resolution.Targets

/-!
How a target depends on which files there are. Resolution prefers some places to others, always in
the same way: a target that stays where it is can only lose to a file that was not there before.
-/

namespace CodePointers

open Resolution

theorem eq_or_of_pairwise {α : Type} {relation : α → α → Prop} {values : List α}
    (ordered : values.Pairwise relation) {left right : α} (leftMember : left ∈ values)
    (rightMember : right ∈ values) : left = right ∨ relation left right ∨ relation right left := by
  induction ordered with
  | nil => cases leftMember
  | @cons head rest before _ ih =>
      rcases List.mem_cons.mp leftMember with rfl | inLeft <;>
        rcases List.mem_cons.mp rightMember with rfl | inRight
      · exact .inl rfl
      · exact .inr (.inl (before right inRight))
      · exact .inr (.inr (before left inLeft))
      · exact ih inLeft inRight

namespace Layout

theorem filesNamed_sorted (disk : Disk) (layout : Layout) (name : Text) :
    (layout.filesNamed disk name).Pairwise fun left right => compare left right = .lt :=
  (disk.walk_sorted layout.root).filter _

theorem mem_filesNamed_of_isFile {disk next : Disk} {layout : Layout} {name : Text} {file : Path}
    (member : file ∈ layout.filesNamed disk name) (isFile : next.isFile file = true) :
    file ∈ layout.filesNamed next name := by
  obtain ⟨inFiles, isNamed⟩ := List.mem_filter.mp member
  obtain ⟨names, areNames, isPath, notExcluded, _⟩ := Disk.mem_walk_iff.mp inFiles
  exact List.mem_filter.mpr
    ⟨Disk.mem_walk_iff.mpr ⟨names, areNames, isPath, notExcluded, isFile⟩, isNamed⟩

end Layout

namespace Resolution

def Prefers (text : Text) (left right : Path) : Prop :=
  (occursIn text left.text = true ∧ occursIn text right.text = false) ∨
    (occursIn text left.text = occursIn text right.text ∧ compare left right = .lt)

theorem not_prefers_of_lt {text : Text} {left right : Path}
    (same : occursIn text left.text = occursIn text right.text)
    (before : left = right ∨ compare left right = .lt) : ¬Prefers text right left := by
  rintro (⟨occurs, misses⟩ | ⟨_, after⟩)
  · rw [same, occurs] at misses
    cases misses
  · rcases before with rfl | before
    · have equal : compare left left = .eq := Std.ReflCmp.compare_self
      rw [equal] at after
      cases after
    · rw [Std.OrientedCmp.gt_of_lt before] at after
      cases after

theorem prefers_total {text : Text} {left right : Path}
    (ordered : compare left right = .lt ∨ compare right left = .lt) :
    Prefers text left right ∨ Prefers text right left := by
  by_cases same : occursIn text left.text = occursIn text right.text
  · exact ordered.imp (fun before => .inr ⟨same, before⟩) fun after => .inr ⟨same.symm, after⟩
  · cases inLeft : occursIn text left.text with
    | true =>
        rw [inLeft] at same
        exact .inl (.inl ⟨inLeft, Bool.eq_false_iff.mpr fun inRight => same inRight.symm⟩)
    | false =>
        rw [inLeft] at same
        exact .inr (.inl ⟨Bool.of_not_eq_false fun inRight => same inRight.symm, inLeft⟩)

theorem first_of_find? {files : List Path}
    (ordered : files.Pairwise fun left right => compare left right = .lt) {wanted : Path → Bool}
    {file : Path} (found : files.find? wanted = some file) :
    ∀ other ∈ files, wanted other = true → file = other ∨ compare file other = .lt := by
  obtain ⟨_, before, after, rfl, notWanted⟩ := List.find?_eq_some_iff_append.mp found
  intro other member isWanted
  rcases List.mem_append.mp member with inBefore | inRest
  · have := notWanted other inBefore
    rw [isWanted] at this
    cases this
  · rcases List.mem_cons.mp inRest with rfl | inAfter
    · exact .inl rfl
    · exact .inr ((List.pairwise_cons.mp (List.pairwise_append.mp ordered).2.1).1 other inAfter)

theorem not_prefers_of_byFileName? {disk : Disk} {layout : Layout} {text : Text} {file : Path}
    (found : byFileName? (layout.on disk) text = some file) :
    file ∈ layout.filesNamed disk (lastSegment text) ∧
      ∀ other ∈ layout.filesNamed disk (lastSegment text), ¬Prefers text other file := by
  have ordered := layout.filesNamed_sorted disk (lastSegment text)
  rw [Layout.byFileName?_eq] at found
  split at found
  · cases found
  rcases Option.or_eq_some_iff.mp found with containing | ⟨noneContains, isHead⟩
  · have occurs : occursIn text file.text = true := by simpa using List.find?_some containing
    refine ⟨List.mem_of_find?_eq_some containing, fun other member prefers => ?_⟩
    rcases prefers with ⟨_, misses⟩ | ⟨same, before⟩
    · rw [occurs] at misses
      cases misses
    · have alsoOccurs := same.trans occurs
      exact not_prefers_of_lt (occurs.trans alsoOccurs.symm)
        (first_of_find? ordered containing other member alsoOccurs) (.inr ⟨same, before⟩)
  · have misses (other : Path) (member : other ∈ layout.filesNamed disk (lastSegment text)) :
        occursIn text other.text = false :=
      Bool.eq_false_iff.mpr (List.find?_eq_none.mp noneContains other member)
    have inFiles := List.mem_of_head? isHead
    have isFirst :
        (layout.filesNamed disk (lastSegment text)).find? (fun _ => true) = some file := by
      rw [← isHead]
      cases layout.filesNamed disk (lastSegment text) <;> rfl
    refine ⟨inFiles, fun other member => ?_⟩
    exact not_prefers_of_lt ((misses file inFiles).trans (misses other member).symm)
      (first_of_find? ordered isFirst other member rfl)

theorem byFileName?_isSome {disk : Disk} {layout : Layout} {text : Text} {file : Path}
    (notEmpty : lastSegment text ≠ [])
    (member : file ∈ layout.filesNamed disk (lastSegment text)) :
    ∃ found, byFileName? (layout.on disk) text = some found := by
  rw [Layout.byFileName?_eq, if_neg notEmpty]
  cases isFiles : layout.filesNamed disk (lastSegment text) with
  | nil => rw [isFiles] at member; cases member
  | cons first others =>
      cases (first :: others).find? fun file => occursIn text file.text with
      | none => exact ⟨first, rfl⟩
      | some found => exact ⟨found, rfl⟩

theorem lastSegment_ne_nil {disk : Disk} {layout : Layout} {text : Text} {file : Path}
    (found : byFileName? (layout.on disk) text = some file) : lastSegment text ≠ [] := by
  intro empty
  rw [byFileName?, if_pos empty] at found
  cases found

theorem byFileName?_of_stays {disk next : Disk} {layout : Layout} {text : Text} {own : Path}
    (found : byFileName? (layout.on disk) text = some own) (stays : next.isFile own = true) :
    ∃ other, byFileName? (layout.on next) text = some other ∧
      (other = own ∨ disk.isFile other = false) := by
  obtain ⟨member, noneBefore⟩ := not_prefers_of_byFileName? found
  have stillMember := Layout.mem_filesNamed_of_isFile member stays
  obtain ⟨other, isOther⟩ := byFileName?_isSome (lastSegment_ne_nil found) stillMember
  obtain ⟨otherMember, noneAfter⟩ := not_prefers_of_byFileName? isOther
  refine ⟨other, isOther, ?_⟩
  cases wasFile : disk.isFile other with
  | false => exact .inr rfl
  | true =>
      have wasMember := Layout.mem_filesNamed_of_isFile otherMember wasFile
      rcases eq_or_of_pairwise (layout.filesNamed_sorted next _) otherMember stillMember with
        same | ordered
      · exact .inl same
      · have total : Prefers text other own ∨ Prefers text own other := prefers_total ordered
        rcases total with before | after
        · exact absurd before (noneBefore other wasMember)
        · exact absurd after (noneAfter own stillMember)

end Resolution

namespace Layout

variable {disk next : Disk} {layout : Layout} {pointer : Pointer}

section

variable {moduleName relativePath : Text} {own other : Resolution}

theorem resolve?_of_stays (found : layout.resolve? disk moduleName relativePath = some own)
    (stays : next.isFile own.path = true) :
    ∃ other, layout.resolve? next moduleName relativePath = some other ∧
      (other = own ∨ disk.isFile other.path = false) := by
  rw [resolve?_eq] at found ⊢
  rcases Option.or_eq_some_iff.mp found with candidate | ⟨noCandidate, searched⟩
  · obtain ⟨_, before, after, isPaths, notFiles⟩ := List.find?_eq_some_iff_append.mp candidate
    rw [isPaths, List.find?_append, List.find?_cons, stays]
    cases inBefore : before.find? fun candidate => next.isFile candidate.path with
    | none => exact ⟨own, rfl, .inl rfl⟩
    | some other =>
        have notFile := notFiles other (List.mem_of_find?_eq_some inBefore)
        exact ⟨other, rfl, .inr (by simpa using notFile)⟩
  · cases inNext : (candidatesOf layout moduleName relativePath).find?
        fun candidate => next.isFile candidate.path with
    | some other =>
        have notFile := List.find?_eq_none.mp noCandidate other (List.mem_of_find?_eq_some inNext)
        exact ⟨other, rfl, .inr (Bool.eq_false_iff.mpr notFile)⟩
    | none =>
        obtain ⟨file, isFile, rfl⟩ := Option.map_eq_some_iff.mp searched
        obtain ⟨text, isText, isFound⟩ := Option.bind_eq_some_iff.mp isFile
        obtain ⟨other, isOther, result⟩ := byFileName?_of_stays isFound stays
        refine ⟨⟨other, .fileName⟩, by rw [isText, Option.bind_some, isOther]; rfl, ?_⟩
        exact result.imp_left fun same => congrArg (Resolution.mk · .fileName) same

theorem isNew_of_resolve?_eq_none (missing : layout.resolve? disk moduleName relativePath = none)
    (found : layout.resolve? next moduleName relativePath = some other) :
    disk.isFile other.path = false := by
  rw [resolve?_eq, Option.or_eq_none_iff] at missing
  rw [resolve?_eq] at found
  rcases Option.or_eq_some_iff.mp found with candidate | ⟨_, searched⟩
  · exact Bool.eq_false_iff.mpr
      (List.find?_eq_none.mp missing.1 other (List.mem_of_find?_eq_some candidate))
  · obtain ⟨file, isFile, rfl⟩ := Option.map_eq_some_iff.mp searched
    obtain ⟨text, isText, isFound⟩ := Option.bind_eq_some_iff.mp isFile
    refine Bool.eq_false_iff.mpr fun wasFile => ?_
    obtain ⟨member, _⟩ := not_prefers_of_byFileName? isFound
    obtain ⟨before, isBefore⟩ :=
      byFileName?_isSome (lastSegment_ne_nil isFound) (mem_filesNamed_of_isFile member wasFile)
    rw [isText, Option.bind_some, isBefore] at missing
    cases missing.2

end

/-- A target that is still there stays the target, unless a new file takes its place. -/
theorem target?_of_stays {own : Path} (found : layout.target? disk pointer = some own)
    (stays : next.isFile own = true) :
    ∃ other, layout.target? next pointer = some other ∧
      (other = own ∨ disk.isFile other = false) := by
  obtain ⟨resolution, isFound, rfl⟩ := Option.map_eq_some_iff.mp found
  obtain ⟨other, isOther, result⟩ := resolve?_of_stays isFound stays
  exact ⟨other.path, by rw [target?, isOther]; rfl, result.imp_left (congrArg Resolution.path)⟩

theorem isNew_of_target?_eq_none {other : Path} (missing : layout.target? disk pointer = none)
    (found : layout.target? next pointer = some other) : disk.isFile other = false := by
  obtain ⟨resolution, isFound, rfl⟩ := Option.map_eq_some_iff.mp found
  exact isNew_of_resolve?_eq_none (Option.map_eq_none_iff.mp missing) isFound

end Layout

end CodePointers
