import CodePointers.Proofs.Disk.Changes
import CodePointers.Proofs.Disk.Joins

/-!
One place, many spellings. The canonical path of what exists is free of `..` segments, and one that
is so already differs from its canonical form in fillers at most. What is left of such a path below
a base, once printed and read again, leads from the base to the same place.
-/

namespace CodePointers

namespace Path

/-! The canonical form. -/

section

variable {disk : Disk} {path : Path} {names found : List Text}

theorem spells_ofNames (areSegments : ∀ name ∈ names, Part.ofSegment? name = some (.name name)) :
    (ofNames names).Spells names := by
  unfold ofNames
  split
  · next none =>
    rw [none]
    exact spells_root
  · next some => rw [Spells, parts_of_root some, innerParts_of_segments areSegments]

theorem spells_ofNames_of_areNames (areNames : names.all isEntryName = true) :
    (ofNames names).Spells names :=
  spells_ofNames fun name member =>
    ofSegment?_of_isEntryName (List.all_eq_true.mp areNames name member)

theorem Spells.located_eq (spells : path.Spells names) (located : disk.locate? path = some found) :
    found = names := by
  obtain ⟨next, rest, isSegments, spelled⟩ := spells.segments
  rw [spells.locate?_eq, isSegments] at located
  exact Disk.foldlM_step_eq spelled located

theorem Spells.canonical_getD (spells : path.Spells names) :
    ((disk.canonical? path).getD path).Spells names := by
  unfold Disk.canonical?
  cases located : disk.locate? path with
  | none => exact spells
  | some found =>
      rw [spells.located_eq located]
      refine spells_ofNames fun name member => @name_of_mem_parts path name ?_
      rw [spells]
      exact List.mem_cons_of_mem _ (List.mem_map_of_mem member)

theorem exists_canonical_of_pathExists (isThere : disk.pathExists path = true) :
    ∃ names, names.all isEntryName = true ∧ disk.canonical? path = some (ofNames names) := by
  obtain ⟨node, isNode⟩ := Option.isSome_iff_exists.mp isThere
  obtain ⟨names, located, atNames⟩ := Option.bind_eq_some_iff.mp isNode
  exact ⟨names, Disk.areNames_of_at? atNames, by rw [Disk.canonical?, located, Option.map_some]⟩

end

/-! What is left of a path below a base. -/

theorem dropParts_of_isFiller {segment : Text} (filler : isFiller segment = true) (count : Nat)
    (rest : List Text) : dropParts count (segment :: rest) = dropParts count rest := by
  cases count <;> exact if_pos filler

theorem dropParts_zero {segment : Text} (plain : isFiller segment = false) (rest : List Text) :
    dropParts 0 (segment :: rest) = segment :: rest :=
  if_neg (Bool.eq_false_iff.mp plain)

theorem dropParts_succ {segment : Text} (plain : isFiller segment = false) (count : Nat)
    (rest : List Text) : dropParts (count + 1) (segment :: rest) = dropParts count rest :=
  if_neg (Bool.eq_false_iff.mp plain)

theorem innerParts_dropParts (count : Nat) (segments : List Text) :
    innerParts (dropParts count segments) = (innerParts segments).drop count := by
  induction segments generalizing count with
  | nil => exact List.drop_nil.symm
  | cons segment rest ih =>
      cases isPart : Part.ofSegment? segment with
      | none =>
          rw [dropParts_of_isFiller (ofSegment?_eq_none_iff.mp isPart), ih, innerParts, innerParts,
            List.filterMap_cons_none isPart]
      | some part =>
          have plain := isFiller_of_ofSegment? isPart
          cases count with
          | zero => rw [dropParts_zero plain, List.drop_zero]
          | succ count =>
              rw [dropParts_succ plain, ih, innerParts, innerParts, List.filterMap_cons_some isPart,
                List.drop_succ_cons]

theorem dropParts_spec (count : Nat) (segments : List Text) :
    dropParts count segments <:+ segments ∧
      ∀ head rest, dropParts count segments = head :: rest → isFiller head = false := by
  induction segments generalizing count with
  | nil =>
      refine ⟨List.suffix_refl _, fun head rest isCons => ?_⟩
      exact absurd isCons.symm (List.cons_ne_nil head rest)
  | cons segment others ih =>
      cases plain : isFiller segment with
      | true =>
          rw [dropParts_of_isFiller plain]
          exact ⟨(ih count).1.trans (List.suffix_cons segment others), (ih count).2⟩
      | false =>
          cases count with
          | zero =>
              rw [dropParts_zero plain]
              refine ⟨List.suffix_refl _, fun head rest isCons => ?_⟩
              rw [← (List.cons.inj isCons).1]
              exact plain
          | succ count =>
              rw [dropParts_succ plain]
              exact ⟨(ih count).1.trans (List.suffix_cons segment others), (ih count).2⟩

theorem trimEnd_isPrefix (segments : List Text) : trimEnd segments <+: segments := by
  have atEnd := List.dropWhile_suffix (l := segments.reverse) isFiller
  rw [← List.reverse_prefix, List.reverse_reverse] at atEnd
  exact atEnd

theorem relativeTo?_eq {base path : Path} {below : List Part} (absolute : base.isAbsolute = true)
    (pathAbsolute : path.isAbsolute = true) (isPath : path.parts = base.parts ++ below) :
    ∃ relative, relativeTo? base path = some relative ∧ relative.isAbsolute = false ∧
      relative.segments ≠ [] ∧ innerParts relative.segments = below ∧
      ∀ segment ∈ relative.segments, segment = [] ∨ segment ∈ path.segments := by
  obtain ⟨inner, isBase⟩ := parts_of_isAbsolute absolute
  obtain ⟨segments⟩ := path
  obtain ⟨rest, rfl, notNil⟩ := segments_of_isAbsolute pathAbsolute
  have within : isWithin ⟨[] :: rest⟩ base = true := by
    rw [isWithin, List.isPrefixOf_iff_prefix, isPath]
    exact List.prefix_append ..
  rw [parts_of_root notNil, isBase, List.cons_append, List.cons.injEq] at isPath
  have starts := trimEnd_isPrefix (dropParts inner.length rest)
  obtain ⟨ends, standsAlone⟩ := dropParts_spec inner.length rest
  have spelled : innerParts (trimEnd (dropParts inner.length rest)) = below := by
    rw [innerParts_trimEnd, innerParts_dropParts, isPath.2, List.drop_left]
  refine ⟨ofPlainNames (trimEnd (dropParts inner.length rest)), ?_, ?_,
    segments_ofPlainNames_ne_nil _, (innerParts_ofPlainNames _).trans spelled, fun segment => ?_⟩
  · rw [relativeTo?, if_pos within, isBase]
    rfl
  · refine isAbsolute_ofPlainNames fun head others isKept => ?_
    obtain ⟨more, isConcat⟩ := starts
    rw [isKept] at isConcat
    exact standsAlone head _ isConcat.symm
  · unfold ofPlainNames
    intro member
    split at member
    · exact .inl (List.mem_singleton.mp member)
    · exact .inr (List.mem_cons_of_mem _ (ends.subset (starts.subset member)))

/-! Printing a path and reading it again. -/

section

variable {base path : Path} {names : List Text}

theorem ofText_text (notNil : path.segments ≠ [])
    (noSlash : ∀ segment ∈ path.segments, '/' ∉ segment) : ofText path.text = path := by
  rw [ofText, text, List.splitOn_intercalate '/' noSlash notNil]

theorem not_mem_of_isEntryName {name : Text} (isName : isEntryName name = true) : '/' ∉ name := by
  intro slash
  unfold isEntryName at isName
  simp [slash] at isName

theorem Spells.noSlash (spells : path.Spells names) (areNames : names.all isEntryName = true) :
    ∀ segment ∈ path.segments, '/' ∉ segment := by
  obtain ⟨next, rest, isSegments, spelled⟩ := spells.segments
  intro segment member
  rw [isSegments] at member
  rcases List.mem_cons.mp member with rfl | inner
  · exact List.not_mem_nil
  · cases isPart : Part.ofSegment? segment with
    | none =>
        rw [ofSegment?_eq_none_iff] at isPart
        unfold isFiller at isPart
        simp only [Bool.or_eq_true, beq_iff_eq] at isPart
        rcases isPart with rfl | rfl <;> decide
    | some part =>
        have inParts : part ∈ names.map Part.name := by
          rw [← spelled]
          exact List.mem_filterMap.mpr ⟨segment, inner, isPart⟩
        obtain ⟨name, inNames, rfl⟩ := List.mem_map.mp inParts
        obtain rfl : name = segment := segment_of_ofSegment? isPart
        exact not_mem_of_isEntryName (List.all_eq_true.mp areNames name inNames)

/-- What is printed for a path leads from the base to the same path. -/
theorem join_displayWithin (absolute : base.isAbsolute = true)
    (pathAbsolute : path.isAbsolute = true)
    (noSlash : ∀ segment ∈ path.segments, '/' ∉ segment) :
    (base.join (ofText (displayWithin base path).toList) == path) = true := by
  by_cases within : path.isWithin base = true
  · obtain ⟨below, isPath⟩ := List.isPrefixOf_iff_prefix.mp within
    obtain ⟨relative, isRelative, notAbsolute, notNil, spelled, segments⟩ :=
      relativeTo?_eq absolute pathAbsolute isPath.symm
    have again : ofText relative.text = relative := by
      refine ofText_text notNil fun segment member => ?_
      rcases segments segment member with rfl | inPath
      · exact List.not_mem_nil
      · exact noSlash segment inPath
    rw [displayWithin, isRelative, Option.getD_some, display, String.toList_ofList, again, beq_iff,
      parts_join notAbsolute notNil absolute, spelled, isPath]
  · have again : ofText path.text = path := by
      obtain ⟨rest, isSegments, _⟩ := segments_of_isAbsolute pathAbsolute
      refine ofText_text ?_ noSlash
      rw [isSegments]
      exact List.cons_ne_nil _ _
    rw [displayWithin, relativeTo?, if_neg within, Option.getD_none, display, String.toList_ofList,
      again, Path.join, if_pos pathAbsolute]
    exact BEq.rfl

end

end Path

/-! Where a path leads, `..` segments or not. -/

namespace Disk

def follow (names : List Text) : Part → List Text
  | .name name => names ++ [name]
  | .parent => names.dropLast
  | .root | .current => names

theorem namesOf_eq_foldl (path : Path) : namesOf path = path.parts.foldl follow [] := by
  unfold namesOf
  congr 1

theorem step_eq_follow {disk : Disk} {names next : List Text} {segment : Text}
    (stepped : disk.step names segment = some next) :
    next = (Path.innerParts [segment]).foldl follow names := by
  unfold step at stepped
  split at stepped
  · cases isPart : Part.ofSegment? segment with
    | none =>
        rw [isPart] at stepped
        cases stepped
        rw [Path.innerParts, List.filterMap_cons_none isPart]
        rfl
    | some part =>
        have isSegment := Path.segment_of_ofSegment? isPart
        rw [isPart] at stepped
        rw [Path.innerParts, List.filterMap_cons_some isPart]
        cases part with
        | parent =>
            cases stepped
            rfl
        | name name =>
            obtain rfl : name = segment := isSegment
            dsimp only at stepped
            split at stepped
            · cases stepped
              rfl
            · cases stepped
        -- The other parts stand for fillers, and these are not read as parts.
        | root =>
            obtain rfl : [] = segment := isSegment
            exact absurd isPart (by decide)
        | current =>
            obtain rfl : ['.'] = segment := isSegment
            exact absurd isPart (by decide)
  · cases stepped

theorem foldlM_step_eq_follow {disk : Disk} {segments start found : List Text}
    (followed : segments.foldlM disk.step start = some found) :
    found = (Path.innerParts segments).foldl follow start := by
  induction segments generalizing start with
  | nil =>
      cases followed
      rfl
  | cons segment rest ih =>
      rw [List.foldlM_cons] at followed
      obtain ⟨next, stepped, followed⟩ := Option.bind_eq_some_iff.mp followed
      rw [← List.singleton_append, Path.innerParts_append, List.foldl_append,
        ← step_eq_follow stepped]
      exact ih followed

/-- A path that leads anywhere leads to its names, each `..` taken for the folder above. -/
theorem namesOf_of_located {disk : Disk} {path : Path} {found : List Text}
    (located : disk.locate? path = some found) : namesOf path = found := by
  have absolute := Path.isAbsolute_of_locate? located
  obtain ⟨segments⟩ := path
  obtain ⟨rest, rfl, notNil⟩ := Path.segments_of_isAbsolute absolute
  rw [locate?, if_pos absolute] at located
  rw [namesOf_eq_foldl, Path.parts_of_root notNil, List.foldl_cons]
  exact (foldlM_step_eq_follow located).symm

theorem at?_namesOf {disk : Disk} {path : Path} {node : Node}
    (isNode : disk.node? path = some node) : disk.root.at? (namesOf path) = some node := by
  obtain ⟨found, located, atFound⟩ := Option.bind_eq_some_iff.mp isNode
  rwa [namesOf_of_located located]

theorem namesOf_congr {path other : Path} (same : (path == other) = true) :
    namesOf path = namesOf other := by
  rw [namesOf, Path.beq_iff.mp same, namesOf]

end Disk

theorem Path.denotes_ofNames {names : List Text} (areNames : names.all isEntryName = true) :
    (ofNames names).Denotes names := by
  have spells := spells_ofNames_of_areNames areNames
  by_cases isRoot : names = []
  · subst isRoot
    exact ⟨spells, fun _ => rfl⟩
  · have isLast : (ofNames names).segments.getLast? = some (names.getLast isRoot) := by
      rw [ofNames, if_neg isRoot, List.getLast?_cons, List.getLast?_eq_some_getLast isRoot]
      rfl
    have isName := List.all_eq_true.mp areNames _ (List.getLast_mem isRoot)
    exact spells.denotes_of_last isLast (isFiller_of_ofSegment? (ofSegment?_of_isEntryName isName))

end CodePointers
