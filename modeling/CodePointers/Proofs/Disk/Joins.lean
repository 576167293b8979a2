import CodePointers.Proofs.Disk.Places

/-!
Paths that are put together from others, and the folder above a path. The parts of the lower path
are those of the upper one with others behind them; these are names that lead down when what is
appended is a relative path without `..` segments.
-/

namespace CodePointers

namespace Path

/-! Appending a relative path. -/

section

variable {base other : Path}

theorem parts_of_root {segments : List Text} (notNil : segments ≠ []) :
    parts ⟨[] :: segments⟩ = .root :: innerParts segments := by
  cases segments with
  | nil => exact absurd rfl notNil
  | cons next rest => rfl

theorem isAbsolute_cons_iff {head : Text} {rest : List Text} :
    isAbsolute ⟨head :: rest⟩ = true ↔ head = [] ∧ rest ≠ [] := by
  cases head <;> cases rest <;> simp [isAbsolute]

theorem segments_of_isAbsolute (absolute : base.isAbsolute = true) :
    ∃ rest, base.segments = [] :: rest ∧ rest ≠ [] := by
  obtain ⟨segments⟩ := base
  cases segments with
  | nil => cases absolute
  | cons head rest =>
      obtain ⟨rfl, notNil⟩ := isAbsolute_cons_iff.mp absolute
      exact ⟨rest, rfl, notNil⟩

theorem parts_of_isAbsolute (absolute : base.isAbsolute = true) :
    ∃ inner, base.parts = .root :: inner := by
  obtain ⟨segments⟩ := base
  obtain ⟨rest, rfl, notNil⟩ := segments_of_isAbsolute absolute
  exact ⟨_, parts_of_root notNil⟩

theorem parts_of_relative (relative : base.isAbsolute = false) :
    base.parts = innerParts base.segments ∨ base.parts = .current :: innerParts base.segments := by
  obtain ⟨segments⟩ := base
  unfold parts
  split
  · next next rest isSegments =>
    obtain rfl : segments = [] :: next :: rest := isSegments
    cases relative
  · next rest isSegments =>
    obtain rfl : segments = ['.'] :: rest := isSegments
    exact .inr rfl
  · exact .inl rfl

variable (relative : other.isAbsolute = false) (notNil : other.segments ≠ [])
include relative notNil

omit notNil in
theorem join_of_isAbsolute (absolute : base.isAbsolute = true) :
    ∃ inner, base.join other = ⟨[] :: (inner ++ other.segments)⟩ ∧
      base.parts = .root :: innerParts inner := by
  obtain ⟨segments⟩ := base
  obtain ⟨rest, rfl, below⟩ := segments_of_isAbsolute absolute
  rw [parts_of_root below, join, relative, if_neg Bool.false_ne_true]
  split
  · next slash =>
    obtain ⟨inner, rfl⟩ : ∃ inner, rest = inner ++ [[]] := by
      rw [List.getLast?_cons, Option.some.injEq, List.getLast?_eq_getLast_of_ne_nil below,
        Option.getD_some] at slash
      exact ⟨rest.dropLast, by rw [← slash, List.dropLast_append_getLast]⟩
    have noPart : innerParts [[]] = [] := rfl
    refine ⟨inner, ?_, by rw [innerParts_append, noPart, List.append_nil]⟩
    rw [← List.cons_append, List.dropLast_concat]
    rfl
  · exact ⟨rest, rfl, rfl⟩

theorem isAbsolute_join : (base.join other).isAbsolute = base.isAbsolute := by
  cases absolute : base.isAbsolute with
  | true =>
      obtain ⟨inner, isJoin, _⟩ := join_of_isAbsolute relative absolute
      rw [isJoin]
      exact isAbsolute_cons_iff.mpr ⟨rfl, List.append_ne_nil_of_right_ne_nil inner notNil⟩
  | false =>
      rw [← Bool.not_eq_true] at absolute ⊢
      obtain ⟨segments⟩ := base
      rw [join, relative, if_neg Bool.false_ne_true]
      cases segments with
      | nil => simpa using relative
      | cons head rest =>
          rw [isAbsolute_cons_iff, not_and_not_right] at absolute
          split
          · next slash =>
            cases rest with
            | nil => simpa using relative
            | cons next rest =>
                rw [List.dropLast_cons_cons, List.cons_append, isAbsolute_cons_iff]
                exact fun isRoot => absurd (absolute isRoot.1) (List.cons_ne_nil next rest)
          · next noSlash =>
            rw [List.cons_append, isAbsolute_cons_iff]
            rintro ⟨rfl, _⟩
            rw [absolute rfl] at noSlash
            exact noSlash rfl

theorem parts_join (absolute : base.isAbsolute = true) :
    (base.join other).parts = base.parts ++ innerParts other.segments := by
  obtain ⟨inner, isJoin, isBase⟩ := join_of_isAbsolute relative absolute
  rw [isJoin, isBase, parts_of_root (List.append_ne_nil_of_right_ne_nil inner notNil),
    innerParts_append]
  rfl

end

/-! Paths without `..` segments. -/

theorem parent_mem_innerParts {segments : List Text} (climbs : ['.', '.'] ∈ segments) :
    Part.parent ∈ innerParts segments :=
  List.mem_filterMap.mpr ⟨_, climbs, rfl⟩

theorem innerParts_eq {segments : List Text} (plain : ['.', '.'] ∉ segments) :
    innerParts segments = (segments.filter fun segment => !isFiller segment).map .name := by
  induction segments with
  | nil => rfl
  | cons segment segments ih =>
      rw [List.mem_cons, not_or] at plain
      rw [innerParts, List.filterMap_cons, List.filter_cons]
      cases filler : isFiller segment with
      | true =>
          rw [ofSegment?_eq_none_iff.mpr filler]
          exact ih plain.2
      | false =>
          have isPart : Part.ofSegment? segment = some (.name segment) := by
            unfold Part.ofSegment?
            rw [if_neg (by simpa [isFiller] using filler), if_neg (Ne.symm plain.1)]
          rw [isPart]
          exact congrArg (Part.name segment :: ·) (ih plain.2)

theorem exists_names {segments : List Text} (plain : Part.parent ∉ innerParts segments) :
    ∃ names : List Text, innerParts segments = names.map .name :=
  ⟨_, innerParts_eq fun climbs => plain (parent_mem_innerParts climbs)⟩

theorem exists_spells {path : Path} (absolute : path.isAbsolute = true)
    (plain : Part.parent ∉ path.parts) : ∃ names, path.Spells names := by
  obtain ⟨segments⟩ := path
  obtain ⟨rest, rfl, notNil⟩ := segments_of_isAbsolute absolute
  rw [parts_of_root notNil] at plain
  obtain ⟨names, spelled⟩ := exists_names fun member => plain (List.mem_cons_of_mem _ member)
  exact ⟨names, by rw [Spells, parts_of_root notNil, spelled]⟩

theorem Spells.not_parent_mem_parts {path : Path} {names : List Text} (spells : path.Spells names) :
    Part.parent ∉ path.parts := by
  rw [spells]
  simp

/-- Whether a path can be appended to another one and then goes down by the names. -/
structure GoesDown (path : Path) (names : List Text) : Prop where
  notNil : path.segments ≠ []
  relative : path.isAbsolute = false
  spelled : innerParts path.segments = names.map .name

theorem Spells.isAbsolute {path : Path} {names : List Text} (spells : path.Spells names) :
    path.isAbsolute = true := by
  obtain ⟨next, rest, isSegments, _⟩ := spells.segments
  rw [Path.isAbsolute, isSegments]

theorem name_of_mem_parts {path : Path} {name : Text} (member : Part.name name ∈ path.parts) :
    Part.ofSegment? name = some (.name name) := by
  have inner (segments : List Text) (member : Part.name name ∈ innerParts segments) :
      Part.ofSegment? name = some (.name name) := by
    obtain ⟨segment, _, isPart⟩ := List.mem_filterMap.mp member
    have same : name = segment := segment_of_ofSegment? isPart
    rw [same] at isPart ⊢
    exact isPart
  unfold parts at member
  split at member
  · exact inner _ ((List.mem_cons.mp member).resolve_left nofun)
  · exact inner _ ((List.mem_cons.mp member).resolve_left nofun)
  · exact inner _ member

theorem mem_parts_of_plainNames? {parts : List Part} {names : List Text}
    (plain : parts.foldr (fun part names? => match part with
      | .name name => names?.map (name :: ·)
      | .current => names?
      | .root | .parent => none) (some []) = some names) :
    ∀ name ∈ names, Part.name name ∈ parts := by
  induction parts generalizing names with
  | nil =>
      cases plain
      exact nofun
  | cons part parts ih =>
      rw [List.foldr_cons] at plain
      cases part with
      | root => cases plain
      | parent => cases plain
      | current => exact fun name member => List.mem_cons_of_mem _ (ih plain name member)
      | name first =>
          obtain ⟨rest, isRest, rfl⟩ := Option.map_eq_some_iff.mp plain
          intro name member
          rcases List.mem_cons.mp member with rfl | inRest
          · exact List.mem_cons_self
          · exact List.mem_cons_of_mem _ (ih isRest name inRest)

theorem innerParts_of_segments {names : List Text}
    (areSegments : ∀ name ∈ names, Part.ofSegment? name = some (.name name)) :
    innerParts names = names.map .name := by
  induction names with
  | nil => rfl
  | cons name names ih =>
      rw [List.forall_mem_cons] at areSegments
      rw [innerParts, List.filterMap_cons_some areSegments.1]
      exact congrArg (Part.name name :: ·) (ih areSegments.2)

theorem segments_ofPlainNames_ne_nil (segments : List Text) :
    (ofPlainNames segments).segments ≠ [] := by
  unfold ofPlainNames
  split
  · exact List.cons_ne_nil _ _
  · assumption

theorem innerParts_ofPlainNames (segments : List Text) :
    innerParts (ofPlainNames segments).segments = innerParts segments := by
  unfold ofPlainNames
  split
  · next none =>
    rw [none]
    rfl
  · rfl

theorem isAbsolute_ofPlainNames {segments : List Text}
    (plain : ∀ head rest, segments = head :: rest → isFiller head = false) :
    (ofPlainNames segments).isAbsolute = false := by
  cases segments with
  | nil => rfl
  | cons head rest =>
      change isAbsolute ⟨head :: rest⟩ = false
      rw [Bool.eq_false_iff, Ne, isAbsolute_cons_iff]
      rintro ⟨rfl, _⟩
      cases plain [] rest rfl

theorem goesDown_ofPlainNames {names : List Text}
    (areSegments : ∀ name ∈ names, Part.ofSegment? name = some (.name name)) :
    (ofPlainNames names).GoesDown names where
  notNil := segments_ofPlainNames_ne_nil names
  relative := by
    refine isAbsolute_ofPlainNames fun head rest isNames => ?_
    exact isFiller_of_ofSegment? (areSegments head (by rw [isNames]; exact List.mem_cons_self))
  spelled := by rw [innerParts_ofPlainNames, innerParts_of_segments areSegments]

theorem goesDown_of_plain? {path relative : Path} (plain : path.plain? = some relative) :
    ∃ names, relative.GoesDown names := by
  obtain ⟨names, isPlain, rfl⟩ := Option.map_eq_some_iff.mp plain
  refine ⟨names, goesDown_ofPlainNames fun name member => ?_⟩
  exact name_of_mem_parts (mem_parts_of_plainNames? isPlain name member)

/-! The folder above a path. -/

theorem innerParts_trimEnd (segments : List Text) :
    innerParts (trimEnd segments) = innerParts segments := by
  have reversed (segments : List Text) :
      innerParts segments.reverse = (innerParts segments).reverse :=
    List.filterMap_reverse ..
  rw [trimEnd, reversed, innerParts_dropWhile, reversed, List.reverse_reverse]

theorem trimEnd_concat {segments before : List Text} {last : Text}
    (trimmed : trimEnd segments = before ++ [last]) : isFiller last = false := by
  have reversed : segments.reverse.dropWhile isFiller = last :: before.reverse := by
    rw [List.reverse_eq_iff.mp trimmed, List.reverse_append]
    rfl
  exact isFiller_head_dropWhile reversed

theorem spells_root : (ofNames []).Spells [] := rfl

theorem parts_of_parent? {path parent : Path} (absolute : path.isAbsolute = true)
    (isParent : path.parent? = some parent) :
    parent.isAbsolute = true ∧ ∃ last, path.parts = parent.parts ++ [last] := by
  obtain ⟨segments⟩ := path
  obtain ⟨rest, rfl, notNil⟩ := segments_of_isAbsolute absolute
  rw [parts_of_root notNil, ← innerParts_trimEnd]
  unfold Path.parent? at isParent
  dsimp only at isParent
  cases isTrimmed : trimEnd rest with
  | nil =>
      rw [isTrimmed] at isParent
      cases isParent
  | cons first others =>
      obtain ⟨before, last, isConcat⟩ : ∃ before last, first :: others = before ++ [last] :=
        ⟨_, _, (List.dropLast_append_getLast (List.cons_ne_nil first others)).symm⟩
      obtain ⟨part, isPart⟩ := exists_part (trimEnd_concat (isTrimmed.trans isConcat))
      have lastPart : innerParts [last] = [part] := List.filterMap_cons_some isPart
      rw [isTrimmed, isConcat, List.dropLast_concat] at isParent
      rw [isConcat, innerParts_append, lastPart]
      cases before with
      | nil =>
          cases isParent
          exact ⟨rfl, part, rfl⟩
      | cons head inner =>
          obtain rfl : parent = (Path.mk ([] :: head :: inner)).trimmed :=
            (Option.some.inj isParent).symm
          rw [← innerParts_trimEnd (head :: inner), trimmed]
          dsimp only
          split
          · next isRoot =>
            rw [isRoot.2]
            exact ⟨rfl, part, rfl⟩
          · next notRoot =>
            have notNil : trimEnd (head :: inner) ≠ [] := fun none => notRoot ⟨rfl, none⟩
            exact ⟨isAbsolute_cons_iff.mpr ⟨rfl, notNil⟩, part, by rw [parts_of_root notNil]; rfl⟩

theorem isAbsolute_of_parent? {path parent : Path} (isParent : path.parent? = some parent)
    (absolute : parent.isAbsolute = true) : path.isAbsolute = true := by
  obtain ⟨segments⟩ := path
  cases segments with
  | nil => cases isParent
  | cons head rest =>
      by_cases isRoot : head = []
      · refine isAbsolute_cons_iff.mpr ⟨isRoot, ?_⟩
        rintro rfl
        rw [isRoot] at isParent
        cases isParent
      · have relative (segments : List Text) : ¬isAbsolute ⟨head :: segments⟩ = true :=
          fun isAbsolute => isRoot (isAbsolute_cons_iff.mp isAbsolute).1
        unfold Path.parent? at isParent
        dsimp only at isParent
        split at isParent
        · rw [if_neg isRoot] at isParent
          cases isParent
          cases absolute
        · rw [if_neg isRoot] at isParent
          cases isParent
          exact absurd absolute (relative [])
        · cases isParent
          unfold trimmed at absolute
          dsimp only at absolute
          rw [if_neg fun root => relative _ root.1] at absolute
          exact absurd absolute (relative _)

end Path

end CodePointers
