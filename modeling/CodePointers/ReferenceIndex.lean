import CodePointers.LineRange
import CodePointers.OrderedMap
import CodePointers.Path

/-!
The reverse index: for each target file its referenced line ranges, and for each range the
references into it. A reference is known by its source and its target lines; recording it again
replaces the stored one.
-/

namespace CodePointers

structure Reference where
  source : Path
  start : Nat
  stop : Nat
  lines : LineRange
  definitionLine : Nat
deriving BEq, ReflBEq

namespace Reference

def sameKey (left right : Reference) : Bool :=
  left.source == right.source && left.lines == right.lines

def bySource : Reference → Reference → Ordering :=
  compareLex (compareOn Reference.source) (compareOn Reference.start)

end Reference

structure RefusedReference where
  source : Path
  target : Path
  first : Nat
  last : Nat

def RefusedReference.message (refused : RefusedReference) : String :=
  s!"Ignoring reference from '{refused.source.display}' to '{refused.target.display}'" ++
    s!" with invalid lines {refused.first}-{refused.last}"

abbrev RangeMap := OrderedMap LineRange (List Reference)

structure ReferenceIndex where
  targets : OrderedMap Path RangeMap
  /-- For each source file the target files it points into. -/
  sources : OrderedMap Path (List Path)
  version : Nat

namespace ReferenceIndex

def empty : ReferenceIndex := ⟨.empty, .empty, 0⟩

def rangesOf (index : ReferenceIndex) (target : Path) : RangeMap :=
  (index.targets.get? target).getD .empty

/-- Replaces the reference with the same key, or appends a new one. -/
def placeReference (reference : Reference) : List Reference → List Reference
  | [] => [reference]
  | stored :: rest =>
      if stored.sameKey reference then reference :: rest
      else stored :: placeReference reference rest

def insert (index : ReferenceIndex) (target : Path) (reference : Reference) :
    ReferenceIndex × Bool :=
  let ranges := index.rangesOf target
  let references := (ranges.get? reference.lines).getD []
  let known := references.any fun stored => stored.sameKey reference
  let targets := index.targets.insert target
    (ranges.insert reference.lines (placeReference reference references))
  let pointedAt := (index.sources.get? reference.source).getD []
  let sources :=
    if known then index.sources
    else index.sources.insert reference.source
      (if pointedAt.any (· == target) then pointedAt else pointedAt ++ [target])
  (⟨targets, sources, index.version + 1⟩, !known)

def record (index : ReferenceIndex) (target : Path) (first last : Nat) (source : Path)
    (start stop definitionLine : Nat) : Except RefusedReference (ReferenceIndex × Bool) :=
  match LineRange.of? first last with
  | none => .error { source, target, first, last }
  | some lines => .ok (index.insert target { source, start, stop, lines, definitionLine })

def nonempty (references : List Reference) : Option (List Reference) :=
  if references.isEmpty then none else some references

def dropSource (source : Path) (targets : OrderedMap Path RangeMap) (target : Path) :
    OrderedMap Path RangeMap :=
  match targets.get? target with
  | none => targets
  | some ranges =>
      let kept := ranges.filterMap fun _ references =>
        nonempty (references.filter fun reference => !(reference.source == source))
      if kept.isEmpty then targets.erase target else targets.insert target kept

def unlink (target : Path) (sources : OrderedMap Path (List Path)) (source : Path) :
    OrderedMap Path (List Path) :=
  match sources.get? source with
  | none => sources
  | some pointedAt =>
      let kept := pointedAt.filter fun other => !(other == target)
      if kept.isEmpty then sources.erase source else sources.insert source kept

def withoutSource (index : ReferenceIndex) (source : Path) : ReferenceIndex :=
  match index.sources.get? source with
  | none => index
  | some pointedAt =>
      { index with
        targets := pointedAt.foldl (dropSource source) index.targets
        sources := index.sources.erase source }

def withoutTarget (index : ReferenceIndex) (target : Path) : ReferenceIndex :=
  match index.targets.get? target with
  | none => index
  | some ranges =>
      { index with
        targets := index.targets.erase target
        sources := (ranges.values.flatten.map Reference.source).foldl (unlink target)
          index.sources }

def touched (index : ReferenceIndex) : ReferenceIndex :=
  { index with version := index.version + 1 }

def size (index : ReferenceIndex) : Nat :=
  index.targets.total fun ranges => ranges.total List.length

def countFrom (index : ReferenceIndex) (source : Path) : Nat :=
  ((index.sources.get? source).getD []).foldr (fun target sum =>
    (index.rangesOf target).total (List.countP fun reference => reference.source == source) + sum)
    0

def removeOutbound (index : ReferenceIndex) (source : Path) : ReferenceIndex × Nat :=
  ((index.withoutSource source).touched, index.countFrom source)

def removeFile (index : ReferenceIndex) (file : Path) : ReferenceIndex :=
  ((index.withoutSource file).withoutTarget file).touched

def clear (index : ReferenceIndex) : ReferenceIndex := ⟨.empty, .empty, index.version + 1⟩

def referencesAt (index : ReferenceIndex) (target : Path) (line : Nat) : List Reference :=
  (index.rangesOf target).entries.flatMap fun (range, references) =>
    if range.contains line then references else []

def lineRanges (index : ReferenceIndex) (target : Path) : List LineRange :=
  (index.rangesOf target).keys

def entries (index : ReferenceIndex) (target : Path) : List (LineRange × List Reference) :=
  (index.rangesOf target).entries

def files (index : ReferenceIndex) : List Path := index.targets.keys

def sourcesOf (index : ReferenceIndex) (target : Path) : List Path :=
  (index.rangesOf target).values.flatten.foldl (fun found reference =>
    if found.any (· == reference.source) then found else found ++ [reference.source]) []

end ReferenceIndex

end CodePointers
