import CodePointers.Proofs.ReferenceIndex.Edits

/-!
The index answers every query as the ledger of its history does: a nesting of maps with a second
map beside it is as good as one plain table.
-/

namespace CodePointers

/-! Lists sorted into classes. -/

section Classes

variable {α κ : Type}

theorem filter_or_perm {left right : α → Bool} {values : List α}
    (disjoint : ∀ value ∈ values, left value = true → right value = false) :
    (values.filter left ++ values.filter right).Perm
      (values.filter fun value => left value || right value) := by
  have split := List.filter_append_perm left (values.filter fun value => left value || right value)
  rw [List.filter_filter, List.filter_filter] at split
  have isLeft : (values.filter fun value => left value && (left value || right value)) =
      values.filter left := by
    refine List.filter_congr fun value _ => ?_
    cases left value <;> rfl
  have isRight : (values.filter fun value => !left value && (left value || right value)) =
      values.filter right := by
    refine List.filter_congr fun value member => ?_
    cases inLeft : left value with
    | true => rw [disjoint value member inLeft]; rfl
    | false => rfl
  rwa [isLeft, isRight] at split

theorem flatMap_filter_perm {classes : List κ} {belongs : κ → α → Bool} {values : List α}
    (disjoint : classes.Pairwise fun left right =>
      ∀ value ∈ values, belongs left value = true → belongs right value = false) :
    (classes.flatMap fun kind => values.filter (belongs kind)).Perm
      (values.filter fun value => classes.any (belongs · value)) := by
  induction classes with
  | nil => simp
  | cons kind rest ih =>
      obtain ⟨apart, restDisjoint⟩ := List.pairwise_cons.mp disjoint
      rw [List.flatMap_cons]
      refine ((ih restDisjoint).append_left _).trans (filter_or_perm fun value member inKind => ?_)
      rw [List.any_eq_false]
      intro other inRest
      rw [apart other inRest value member inKind]
      exact Bool.false_ne_true

theorem flatMap_ite (values : List α) (select : α → Bool) (f : α → List κ) :
    (values.flatMap fun value => if select value then f value else []) =
      (values.filter select).flatMap f := by
  induction values with
  | nil => rfl
  | cons value rest ih =>
      rw [List.flatMap_cons, ih, List.filter_cons]
      split
      · rw [List.flatMap_cons]
      · rfl

end Classes

namespace ReferenceIndex

/-- Every query on the index has the answer that the ledger of the history gives. Paths are listed
up to their spelling and in no particular order. -/
structure AnswersAs (index : ReferenceIndex) (history : List Edit) : Prop where
  reply_eq : ∀ edit, (index.edited edit).2 = ((Ledger.after history).edited edit).2
  unchanged : ∀ edit, edit.isAccepted = false → (index.edited edit).1 = index
  version_eq : index.version = history.countP Edit.isAccepted
  mem_lineRanges_iff : ∀ target lines,
    lines ∈ index.lineRanges target ↔ (Ledger.after history).isLive target lines = true
  lineRanges_ordered : ∀ target, (index.lineRanges target).Pairwise fun left right =>
    Ledger.liveSince target left history < Ledger.liveSince target right history
  entries_eq : ∀ target, index.entries target = (index.lineRanges target).map fun lines =>
    (lines, (Ledger.after history).referencesTo target lines)
  referencesAt_eq : ∀ target line, index.referencesAt target line =
    ((index.lineRanges target).filter (·.contains line)).flatMap
      ((Ledger.after history).referencesTo target)
  referencesAt_perm : ∀ target line, (index.referencesAt target line).Perm
    (((Ledger.after history).filings.filter fun filing =>
      filing.isInto target && filing.covers line).map Filing.reference)
  files_distinct : index.files.Pairwise fun left right => (left == right) = false
  mem_files_iff : ∀ file, (∃ listed ∈ index.files, (listed == file) = true) ↔
    ∃ filing ∈ (Ledger.after history).filings, filing.isInto file = true
  sources_distinct : ∀ target,
    (index.sourcesOf target).Pairwise fun left right => (left == right) = false
  mem_sources_iff : ∀ target source,
    (∃ listed ∈ index.sourcesOf target, (listed == source) = true) ↔
      ∃ filing ∈ (Ledger.after history).filings,
        filing.isInto target = true ∧ filing.isFrom source = true
  size_eq : index.size = (Ledger.after history).filings.length

namespace Mirrors

variable {index : ReferenceIndex} {history : List Edit} (mirrors : index.Mirrors history)
include mirrors

theorem entries_eq (target : Path) :
    index.entries target = (index.lineRanges target).map fun lines =>
      (lines, (Ledger.after history).referencesTo target lines) := by
  rw [lineRanges, OrderedMap.keys, List.map_map]
  refine (List.map_id _).symm.trans (List.map_congr_left fun entry member => ?_)
  rw [Function.comp_apply, ← mirrors.referencesTo_eq, references_of_mem_rangesOf member]
  rfl

theorem referencesAt_eq (target : Path) (line : Nat) :
    index.referencesAt target line =
      ((index.lineRanges target).filter (·.contains line)).flatMap
        ((Ledger.after history).referencesTo target) := by
  have listed := mirrors.entries_eq target
  rw [← flatMap_ite]
  unfold referencesAt
  rw [entries] at listed
  rw [listed, List.flatMap_map]

theorem references_perm (target : Path) (select : LineRange → Bool) :
    (((index.lineRanges target).filter select).flatMap
        ((Ledger.after history).referencesTo target)).Perm
      (((Ledger.after history).filings.filter fun filing =>
        filing.isInto target && select filing.reference.lines).map Filing.reference) := by
  have disjoint : ((index.lineRanges target).filter select).Pairwise fun left right =>
      ∀ filing ∈ (Ledger.after history).filings,
        filing.isAt target left = true → filing.isAt target right = false := by
    refine (((index.rangesOf target).keys_distinct).filter select).imp ?_
    intro left right apart filing _ atLeft
    rw [Bool.eq_false_iff]
    intro atRight
    rw [← (Filing.isAt_iff.mp atLeft).2, ← (Filing.isAt_iff.mp atRight).2] at apart
    simp at apart
  unfold Ledger.referencesTo
  rw [← List.map_flatMap]
  refine ((flatMap_filter_perm disjoint).trans (List.Perm.of_eq ?_)).map Filing.reference
  refine List.filter_congr fun filing member => ?_
  rw [Bool.eq_iff_iff, List.any_eq_true, Bool.and_eq_true]
  constructor
  · rintro ⟨lines, inRanges, atLines⟩
    obtain ⟨isInto, rfl⟩ := Filing.isAt_iff.mp atLines
    exact ⟨isInto, (List.mem_filter.mp inRanges).2⟩
  · rintro ⟨isInto, selected⟩
    have atLines : filing.isAt target filing.reference.lines = true :=
      Filing.isAt_iff.mpr ⟨isInto, rfl⟩
    have live := mirrors.mem_lineRanges_iff_isLive.mpr (List.any_eq_true.mpr ⟨_, member, atLines⟩)
    exact ⟨_, List.mem_filter.mpr ⟨live, selected⟩, atLines⟩

theorem referencesAt_perm (target : Path) (line : Nat) :
    (index.referencesAt target line).Perm
      (((Ledger.after history).filings.filter fun filing =>
        filing.isInto target && filing.covers line).map Filing.reference) := by
  rw [mirrors.referencesAt_eq]
  exact mirrors.references_perm target (·.contains line)

theorem values_perm (target : Path) :
    (index.rangesOf target).values.flatten.Perm
      (((Ledger.after history).filings.filter (·.isInto target)).map Filing.reference) := by
  have listed := congrArg (List.flatMap Prod.snd) (mirrors.entries_eq target)
  rw [List.flatMap_map] at listed
  have all := mirrors.references_perm target fun _ => true
  rw [List.filter_eq_self.mpr fun _ _ => rfl] at all
  simp only [Bool.and_true] at all
  rw [OrderedMap.values, ← List.flatMap_def]
  exact (List.Perm.of_eq listed).trans all

/-! The files. -/

theorem exists_into_iff (file : Path) :
    (index.targets.get? file).isSome ↔
      ∃ filing ∈ (Ledger.after history).filings, filing.isInto file = true := by
  constructor
  · intro hasTarget
    obtain ⟨ranges, found⟩ := Option.isSome_iff_exists.mp hasTarget
    obtain ⟨lines, references, hasLines⟩ :=
      OrderedMap.exists_get?_of_entries_ne_nil (mirrors.consistent.targets found).nonempty
    have live : lines ∈ index.lineRanges file := by
      rw [mem_lineRanges_iff, get?_rangesOf, found, Option.bind_some, hasLines]
      rfl
    obtain ⟨filing, member, isAt⟩ :=
      List.any_eq_true.mp (mirrors.mem_lineRanges_iff_isLive.mp live)
    exact ⟨filing, member, (Filing.isAt_iff.mp isAt).1⟩
  · rintro ⟨filing, member, isInto⟩
    have live := mirrors.mem_lineRanges_iff_isLive.mpr
      (List.any_eq_true.mpr ⟨filing, member, Filing.isAt_iff.mpr ⟨isInto, rfl⟩⟩)
    rw [mem_lineRanges_iff, get?_rangesOf] at live
    cases found : index.targets.get? file with
    | none => rw [found] at live; cases live
    | some ranges => rfl

theorem mem_files_iff (file : Path) :
    (∃ listed ∈ index.files, (listed == file) = true) ↔
      ∃ filing ∈ (Ledger.after history).filings, filing.isInto file = true := by
  rw [files, ← OrderedMap.get?_isSome_iff]
  exact mirrors.exists_into_iff file

omit mirrors

theorem exists_mem_foldl_withLink_iff {source : Path} (references : List Reference)
    (found : List Path) :
    (∃ listed ∈ references.foldl (fun found reference => withLink reference.source found) found,
        (listed == source) = true) ↔
      (∃ listed ∈ found, (listed == source) = true) ∨
        ∃ reference ∈ references, (reference.source == source) = true := by
  induction references generalizing found with
  | nil => simp
  | cons head rest ih =>
      rw [List.foldl_cons, ih, exists_mem_withLink_iff]
      simp only [List.mem_cons, exists_eq_or_imp, or_assoc]

theorem distinct_foldl_withLink (references : List Reference) {found : List Path}
    (distinct : found.Pairwise fun left right => (left == right) = false) :
    (references.foldl (fun found reference => withLink reference.source found) found).Pairwise
      fun left right => (left == right) = false := by
  induction references generalizing found with
  | nil => exact distinct
  | cons head rest ih => exact ih (soundLinks_withLink distinct).distinct

include mirrors

theorem mem_sources_iff (target source : Path) :
    (∃ listed ∈ index.sourcesOf target, (listed == source) = true) ↔
      ∃ filing ∈ (Ledger.after history).filings,
        filing.isInto target = true ∧ filing.isFrom source = true := by
  refine (exists_mem_foldl_withLink_iff _ []).trans ?_
  have all := mirrors.values_perm target
  simp only [List.not_mem_nil, false_and, exists_false, false_or, all.mem_iff, List.mem_map,
    List.mem_filter, Filing.isFrom]
  constructor
  · rintro ⟨_, ⟨filing, ⟨member, isInto⟩, rfl⟩, isFrom⟩
    exact ⟨filing, member, isInto, isFrom⟩
  · rintro ⟨filing, member, isInto, isFrom⟩
    exact ⟨_, ⟨filing, ⟨member, isInto⟩, rfl⟩, isFrom⟩

/-! The counts. -/

theorem total_rangesOf (target : Path) (counted : Reference → Bool) :
    (index.rangesOf target).total (List.countP counted) =
      (Ledger.after history).filings.countP fun filing =>
        filing.isInto target && counted filing.reference := by
  rw [OrderedMap.total_eq_foldr, ← List.sum_eq_foldr, ← List.countP_flatten,
    (mirrors.values_perm target).countP_eq, List.countP_map, List.countP_filter]
  refine List.countP_congr fun filing _ => ?_
  rw [Function.comp_apply, Bool.and_comm]

omit mirrors

theorem foldr_countP_isInto {filings : List Filing} {counted : Filing → Bool} {targets : List Path}
    (distinct : targets.Pairwise fun left right => (left == right) = false)
    (covered : ∀ filing ∈ filings, counted filing = true →
      ∃ target ∈ targets, filing.isInto target = true) :
    (targets.map fun target => filings.countP fun filing =>
      filing.isInto target && counted filing).foldr (· + ·) 0 = filings.countP counted := by
  rw [← List.sum_eq_foldr]
  simp only [List.countP_eq_length_filter]
  rw [← List.length_flatMap]
  have disjoint : targets.Pairwise fun left right => ∀ filing ∈ filings,
      (filing.isInto left && counted filing) = true →
        (filing.isInto right && counted filing) = false := by
    refine distinct.imp fun {left right} apart filing _ inLeft => Bool.eq_false_iff.mpr ?_
    intro inRight
    rw [Bool.and_eq_true] at inLeft inRight
    rw [BEq.trans (BEq.symm inLeft.1) inRight.1] at apart
    cases apart
  refine (flatMap_filter_perm disjoint).length_eq.trans (congrArg List.length ?_)
  refine List.filter_congr fun filing member => ?_
  rw [Bool.eq_iff_iff, List.any_eq_true]
  constructor
  · rintro ⟨target, _, isCounted⟩
    exact (Bool.and_eq_true _ _ ▸ isCounted).2
  · intro isCounted
    obtain ⟨target, member, isInto⟩ := covered filing member isCounted
    exact ⟨target, member, by rw [isInto, isCounted]; rfl⟩

include mirrors

theorem size_eq : index.size = (Ledger.after history).filings.length := by
  have measured : index.targets.values.map (fun ranges => ranges.total List.length) =
      index.files.map fun target => (Ledger.after history).filings.countP fun filing =>
        filing.isInto target && true := by
    rw [OrderedMap.values, files, OrderedMap.keys, List.map_map, List.map_map]
    refine List.map_congr_left fun entry member => ?_
    have isRanges : index.rangesOf entry.1 = entry.2 := by
      rw [rangesOf, OrderedMap.get?_of_mem member BEq.rfl, Option.getD_some]
    rw [Function.comp_apply, Function.comp_apply, ← mirrors.total_rangesOf _ fun _ => true,
      isRanges, List.countP_true]
  rw [size, OrderedMap.total_eq_foldr, measured]
  refine (foldr_countP_isInto index.targets.keys_distinct ?_).trans (congrFun List.countP_true _)
  intro filing member _
  obtain ⟨listed, inFiles, same⟩ := (mirrors.mem_files_iff filing.target).mpr
    ⟨filing, member, BEq.rfl⟩
  exact ⟨listed, inFiles, BEq.symm same⟩

theorem links_of_isFrom {filing : Filing} (member : filing ∈ (Ledger.after history).filings)
    {source : Path} (isFrom : filing.isFrom source = true) :
    Links index.sources source filing.target := by
  refine (mirrors.consistent.links_iff _ _).mpr ⟨filing.reference.lines, ?_⟩
  rw [stored?_eq_find?, mirrors.referencesTo_eq, List.find?_isSome]
  exact ⟨filing.reference, List.mem_map.mpr ⟨filing, List.mem_filter.mpr
    ⟨member, Filing.isAt_iff.mpr ⟨BEq.rfl, rfl⟩⟩, rfl⟩, isFrom⟩

theorem countFrom_eq (source : Path) :
    index.countFrom source = (Ledger.after history).filings.countP (·.isFrom source) := by
  have counted (target : Path) : (index.rangesOf target).total
      (List.countP fun reference => reference.source == source) =
        (Ledger.after history).filings.countP fun filing =>
          filing.isInto target && filing.isFrom source := mirrors.total_rangesOf target _
  have isSum : index.countFrom source =
      (((index.sources.get? source).getD []).map fun target => (index.rangesOf target).total
        (List.countP fun reference => reference.source == source)).foldr (· + ·) 0 := by
    rw [countFrom, List.foldr_map]
  simp only [isSum, counted]
  cases found : index.sources.get? source with
  | none =>
      refine (List.countP_eq_zero.mpr fun filing member isFrom => ?_).symm
      obtain ⟨_, isLinked, _⟩ := mirrors.links_of_isFrom member isFrom
      cases found.symm.trans isLinked
  | some pointedAt =>
      refine foldr_countP_isInto (mirrors.consistent.sources found).distinct ?_
      intro filing member isFrom
      obtain ⟨_, isLinked, target, inPointedAt, same⟩ := mirrors.links_of_isFrom member isFrom
      cases found.symm.trans isLinked
      exact ⟨target, inPointedAt, BEq.symm same⟩

/-! The replies. -/

theorem reply_eq (edit : Edit) :
    (index.edited edit).2 = ((Ledger.after history).edited edit).2 := by
  cases edit with
  | record target first last source start stop definitionLine =>
      rw [ReferenceIndex.edited, ReferenceIndex.record, Ledger.edited]
      cases LineRange.of? first last with
      | none => rfl
      | some lines =>
          let filing : Filing :=
            { target, reference := { source, start, stop, lines, definitionLine } }
          have known : (index.referencesTo target lines).any (·.sameKey filing.reference) =
              (Ledger.after history).holds filing := by
            rw [mirrors.referencesTo_eq]
            exact Ledger.any_sameKey_referencesTo _ filing
          exact congrArg (fun known => Reply.recorded !known) known
  | removeOutbound source => exact congrArg Reply.removed (mirrors.countFrom_eq source)
  | removeFile file => rfl
  | clear => rfl

end Mirrors

theorem edited_of_refused (index : ReferenceIndex) {edit : Edit}
    (refused : edit.isAccepted = false) :
    (index.edited edit).1 = index := by
  cases edit with
  | record target first last source start stop definitionLine =>
      have noRange : LineRange.of? first last = none := by simpa [Edit.isAccepted] using refused
      rw [edited, record, noRange]
  | removeOutbound source => cases refused
  | removeFile file => cases refused
  | clear => cases refused

/-- After every history of edits, starting with an empty index, every query has the answer that a
plain table of the references gives. -/
theorem after_answersAs (history : List Edit) : (after history).AnswersAs history :=
  let mirrors := mirrors_after history
  { reply_eq := mirrors.reply_eq
    unchanged := fun _ refused => edited_of_refused _ refused
    version_eq := mirrors.version_eq
    mem_lineRanges_iff := fun _ _ => mirrors.mem_lineRanges_iff_isLive
    lineRanges_ordered := mirrors.ordered
    entries_eq := mirrors.entries_eq
    referencesAt_eq := mirrors.referencesAt_eq
    referencesAt_perm := mirrors.referencesAt_perm
    files_distinct := (after history).targets.keys_distinct
    mem_files_iff := mirrors.mem_files_iff
    sources_distinct := fun _ => Mirrors.distinct_foldl_withLink _ List.Pairwise.nil
    mem_sources_iff := mirrors.mem_sources_iff
    size_eq := mirrors.size_eq }

end ReferenceIndex

end CodePointers
