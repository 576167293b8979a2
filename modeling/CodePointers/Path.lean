import CodePointers.Text

/-!
Slash-separated file paths. A path keeps the spelling it was given, while equality, order and
containment look at its parts only: repeated slashes, inner `.` segments and a trailing slash do
not matter, `..` segments do.
-/

namespace CodePointers

/-- A path as the segments between its slashes: `/a//b` has the segments `` ``, `a`, `` ``, `b`. -/
structure Path where
  segments : List Text
deriving Inhabited

inductive Part where
  | root
  | current
  | parent
  | name (name : Text)
deriving DecidableEq

namespace Part

def rank : Part → Nat
  | root => 0
  | current => 1
  | parent => 2
  | name _ => 3

def segment : Part → Text
  | root => []
  | current => ['.']
  | parent => ['.', '.']
  | name text => text

instance : Ord Part where
  compare := compareLex (compareOn rank) (compareOn segment)

def ofSegment? (segment : Text) : Option Part :=
  if segment = [] ∨ segment = ['.'] then none
  else if segment = ['.', '.'] then some parent
  else some (name segment)

end Part

namespace Path

def ofText (text : Text) : Path := ⟨text.splitOn '/'⟩

def text (path : Path) : Text := List.intercalate ['/'] path.segments

def display (path : Path) : String := String.ofList path.text

def empty : Path := ⟨[[]]⟩

def ofNames (names : List Text) : Path :=
  if names = [] then ⟨[[], []]⟩ else ⟨[] :: names⟩

def ofPlainNames (names : List Text) : Path :=
  if names = [] then empty else ⟨names⟩

def isAbsolute (path : Path) : Bool :=
  match path.segments with
  | [] :: _ :: _ => true
  | _ => false

def isEmpty (path : Path) : Bool := path.segments.all (· == []) && !path.isAbsolute

def innerParts (segments : List Text) : List Part := segments.filterMap Part.ofSegment?

def parts (path : Path) : List Part :=
  match path.segments with
  | [] :: next :: rest => .root :: innerParts (next :: rest)
  | ['.'] :: rest => .current :: innerParts rest
  | segments => innerParts segments

def isFiller (segment : Text) : Bool := segment == [] || segment == ['.']

def sameInner : List Text → List Text → Bool
  | [], right => right.all isFiller
  | segment :: left, right =>
      if isFiller segment then sameInner left right
      else match right.dropWhile isFiller with
        | [] => false
        | other :: right => segment == other && sameInner left right

theorem ofSegment?_eq_none_iff {segment : Text} :
    Part.ofSegment? segment = none ↔ isFiller segment = true := by
  unfold Part.ofSegment? isFiller
  split
  · next filler => simpa using filler
  · next plain =>
      constructor
      · split <;> exact fun absurd => nomatch absurd
      · intro filler
        exact absurd (by simpa using filler) plain

theorem segment_of_ofSegment? {segment : Text} {part : Part}
    (isPart : Part.ofSegment? segment = some part) : part.segment = segment := by
  unfold Part.ofSegment? at isPart
  split at isPart
  · cases isPart
  · split at isPart
    · next dots =>
        cases isPart
        exact dots.symm
    · cases isPart
      rfl

theorem innerParts_dropWhile (segments : List Text) :
    innerParts (segments.dropWhile isFiller) = innerParts segments := by
  induction segments with
  | nil => rfl
  | cons segment rest ih =>
      rw [List.dropWhile_cons]
      split
      · next filler =>
          rw [ih, innerParts, innerParts, List.filterMap_cons_none]
          exact ofSegment?_eq_none_iff.mpr filler
      · rfl

theorem innerParts_eq_nil_iff {segments : List Text} :
    innerParts segments = [] ↔ segments.all isFiller = true := by
  simp [innerParts, List.filterMap_eq_nil_iff, ofSegment?_eq_none_iff]

theorem isFiller_head_dropWhile {segments rest : List Text} {segment : Text}
    (kept : segments.dropWhile isFiller = segment :: rest) : isFiller segment = false := by
  have := List.head?_dropWhile_not isFiller segments
  rw [kept] at this
  simpa using this

theorem sameInner_iff {left right : List Text} :
    sameInner left right = true ↔ innerParts left = innerParts right := by
  induction left generalizing right with
  | nil =>
      rw [sameInner, ← innerParts_eq_nil_iff]
      exact ⟨fun none => none.symm, fun none => none.symm⟩
  | cons segment left ih =>
      rw [sameInner]
      split
      · next filler =>
          rw [ih, innerParts, innerParts, innerParts, List.filterMap_cons_none]
          exact ofSegment?_eq_none_iff.mpr filler
      · next plain =>
          have plain : isFiller segment = false := Bool.eq_false_iff.mpr plain
          obtain ⟨part, isPart⟩ : ∃ part, Part.ofSegment? segment = some part := by
            cases found : Part.ofSegment? segment with
            | none => rw [ofSegment?_eq_none_iff, plain] at found; cases found
            | some part => exact ⟨part, rfl⟩
          rw [← innerParts_dropWhile right]
          split
          · next none =>
              rw [none, innerParts, List.filterMap_cons_some isPart]
              simp [innerParts]
          · next other rest kept =>
              have otherPlain := isFiller_head_dropWhile kept
              rw [kept, innerParts, List.filterMap_cons_some isPart, Bool.and_eq_true, beq_iff_eq,
                ih]
              constructor
              · rintro ⟨rfl, sameRest⟩
                rw [innerParts, List.filterMap_cons_some isPart]
                exact congrArg (part :: ·) sameRest
              · intro sameParts
                cases found : Part.ofSegment? other with
                | none => rw [ofSegment?_eq_none_iff, otherPlain] at found; cases found
                | some otherPart =>
                    rw [innerParts, List.filterMap_cons_some found, List.cons.injEq] at sameParts
                    refine ⟨?_, sameParts.2⟩
                    rw [← segment_of_ofSegment? isPart, ← segment_of_ofSegment? found,
                      sameParts.1]

def sameSegments : List Text → List Text → Bool
  | [] :: first :: left, [] :: second :: right => sameInner (first :: left) (second :: right)
  | left, right => Path.parts ⟨left⟩ == Path.parts ⟨right⟩

instance : BEq Path where
  beq left right := sameSegments left.segments right.segments

theorem beq_iff {left right : Path} : (left == right) = true ↔ left.parts = right.parts := by
  obtain ⟨left⟩ := left
  obtain ⟨right⟩ := right
  change sameSegments left right = true ↔ _
  unfold sameSegments
  split
  · rw [sameInner_iff]
    simp [parts]
  · exact beq_iff_eq

instance : EquivBEq Path where
  rfl := beq_iff.mpr rfl
  symm same := beq_iff.mpr (beq_iff.mp same).symm
  trans first second := beq_iff.mpr ((beq_iff.mp first).trans (beq_iff.mp second))

instance : Ord Path where
  compare left right := compare left.parts right.parts

/-- Appends a path with a slash in between; an absolute path stands alone. -/
def join (base other : Path) : Path :=
  if other.isAbsolute then other
  else if base.segments.getLast? = some [] then ⟨base.segments.dropLast ++ other.segments⟩
  else ⟨base.segments ++ other.segments⟩

def child (path : Path) (name : Text) : Path := path.join ⟨[name]⟩

def isWithin (path base : Path) : Bool := base.parts.isPrefixOf path.parts

def trimEnd (segments : List Text) : List Text :=
  (segments.reverse.dropWhile isFiller).reverse

/-- Drops segments until the given number of parts is gone, and the fillers after them. -/
def dropParts : Nat → List Text → List Text
  | _, [] => []
  | count, segment :: rest =>
      if isFiller segment then dropParts count rest
      else match count with
        | 0 => segment :: rest
        | count + 1 => dropParts count rest

def trimmed (path : Path) : Path :=
  match path.segments with
  | [] => path
  | head :: rest =>
      let kept := trimEnd rest
      if path.isAbsolute ∧ kept = [] then ⟨[[], []]⟩ else ⟨head :: kept⟩

/-- What remains of the path after `base`, spelled as in the path. -/
def relativeTo? (base path : Path) : Option Path :=
  if path.isWithin base then
    match base.parts.length with
    | 0 => some path.trimmed
    | count + 1 => some (ofPlainNames (trimEnd (dropParts count (path.segments.drop 1))))
  else none

def displayWithin (base path : Path) : String := ((relativeTo? base path).getD path).display

def parent? (path : Path) : Option Path :=
  match path.segments with
  | [] => none
  | head :: rest =>
      match (trimEnd rest).dropLast, trimEnd rest with
      | _, [] => if head = [] then none else some empty
      | [], _ => some (if head = [] then ofNames [] else ⟨[head]⟩)
      | before, _ => some (Path.mk (head :: before)).trimmed

def fileName? (path : Path) : Option Text :=
  match path.parts.getLast? with
  | some (.name name) => some name
  | _ => none

def fileExtension? (path : Path) : Option Text := do
  let name ← path.fileName?
  let (stem, extension) ← splitLast? '.' name
  if stem = [] then none else some extension

def plainNames? (path : Path) : Option (List Text) :=
  path.parts.foldr (fun part names? => match part with
    | .name name => names?.map (name :: ·)
    | .current => names?
    | .root | .parent => none) (some [])

/-- The path without its `.` segments, unless it is absolute or has a `..` segment. -/
def plain? (path : Path) : Option Path := path.plainNames?.map ofPlainNames

end Path

end CodePointers
