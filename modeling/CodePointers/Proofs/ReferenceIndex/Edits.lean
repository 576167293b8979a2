import CodePointers.Proofs.ReferenceIndex.Ranges

/-!
Histories of edits, and the ledger that each leads to. After every history the index and the ledger
list the same references to the same lines, in the same order.
-/

namespace CodePointers

namespace ReferenceIndex

inductive Edit where
  | record (target : Path) (first last : Nat) (source : Path) (start stop definitionLine : Nat)
  | removeOutbound (source : Path)
  | removeFile (file : Path)
  | clear

inductive Reply where
  | refused (refused : RefusedReference)
  | recorded (isNew : Bool)
  | removed (count : Nat)
  | done

def Edit.isAccepted : Edit → Bool
  | record _ first last _ _ _ _ => (LineRange.of? first last).isSome
  | _ => true

def edited (index : ReferenceIndex) : Edit → ReferenceIndex × Reply
  | .record target first last source start stop definitionLine =>
      match index.record target first last source start stop definitionLine with
      | .error refused => (index, .refused refused)
      | .ok (changed, isNew) => (changed, .recorded isNew)
  | .removeOutbound source =>
      ((index.removeOutbound source).1, .removed (index.removeOutbound source).2)
  | .removeFile file => (index.removeFile file, .done)
  | .clear => (index.clear, .done)

/-- The index that a history leads to, the latest edit first. -/
def after : List Edit → ReferenceIndex
  | [] => empty
  | edit :: earlier => ((after earlier).edited edit).1

end ReferenceIndex

open ReferenceIndex (Edit Reply)

namespace Ledger

def edited (ledger : Ledger) : Edit → Ledger × Reply
  | .record target first last source start stop definitionLine =>
      match LineRange.of? first last with
      | none => (ledger, .refused { source, target, first, last })
      | some lines =>
          let filing : Filing :=
            { target, reference := { source, start, stop, lines, definitionLine } }
          (ledger.put filing, .recorded (!ledger.holds filing))
  | .removeOutbound source =>
      (ledger.without (·.isFrom source), .removed (ledger.filings.countP (·.isFrom source)))
  | .removeFile file =>
      (ledger.without fun filing => filing.isFrom file || filing.isInto file, .done)
  | .clear => (empty, .done)

def after : List Edit → Ledger
  | [] => empty
  | edit :: earlier => ((after earlier).edited edit).1

def isLive (ledger : Ledger) (target : Path) (lines : LineRange) : Bool :=
  ledger.filings.any (·.isAt target lines)

/-- The number of the edit by which the lines last became live, when they are live now. -/
def liveSince (target : Path) (lines : LineRange) : List Edit → Nat
  | [] => 0
  | _ :: earlier =>
      if (after earlier).isLive target lines then liveSince target lines earlier
      else earlier.length + 1

theorem isLive_iff {ledger : Ledger} {target : Path} {lines : LineRange} :
    ledger.isLive target lines = true ↔ ledger.referencesTo target lines ≠ [] := by
  simp [isLive, referencesTo]

theorem liveSince_le (target : Path) (lines : LineRange) (history : List Edit) :
    liveSince target lines history ≤ history.length := by
  induction history with
  | nil => exact Nat.le_refl _
  | cons edit earlier ih =>
      rw [liveSince]
      split
      · exact Nat.le_succ_of_le ih
      · exact Nat.le_refl _

end Ledger

namespace ReferenceIndex

/-! A history, edit by edit. -/

/-- The index lists the references of a history's ledger, the lines of each target in the order in
which they last became live. -/
structure Mirrors (index : ReferenceIndex) (history : List Edit) : Prop where
  consistent : index.Consistent
  referencesTo_eq : ∀ target lines,
    index.referencesTo target lines = (Ledger.after history).referencesTo target lines
  ordered : ∀ target, (index.lineRanges target).Pairwise fun left right =>
    Ledger.liveSince target left history < Ledger.liveSince target right history
  version_eq : index.version = history.countP Edit.isAccepted

theorem mem_lineRanges_iff_ne_nil {index : ReferenceIndex} (consistent : index.Consistent)
    {target : Path} {lines : LineRange} :
    lines ∈ index.lineRanges target ↔ index.referencesTo target lines ≠ [] := by
  constructor
  · intro member
    obtain ⟨entry, inRanges, rfl⟩ := List.mem_map.mp member
    rw [references_of_mem_rangesOf inRanges]
    exact ne_nil_of_mem_rangesOf consistent inRanges
  · intro someReference
    rw [mem_lineRanges_iff, Option.isSome_iff_ne_none]
    intro none
    rw [referencesTo, none] at someReference
    exact someReference rfl

namespace Mirrors

variable {index : ReferenceIndex} {history : List Edit} (mirrors : index.Mirrors history)
include mirrors

theorem mem_lineRanges_iff_isLive {target : Path} {lines : LineRange} :
    lines ∈ index.lineRanges target ↔ (Ledger.after history).isLive target lines = true := by
  rw [mem_lineRanges_iff_ne_nil mirrors.consistent, mirrors.referencesTo_eq, Ledger.isLive_iff]

theorem liveSince_cons {target : Path} {lines : LineRange}
    (member : lines ∈ index.lineRanges target)
    (edit : Edit) :
    Ledger.liveSince target lines (edit :: history) = Ledger.liveSince target lines history := by
  rw [Ledger.liveSince, if_pos (mirrors.mem_lineRanges_iff_isLive.mp member)]

theorem ordered_of_sublist (edit : Edit) {target : Path} {kept : List LineRange}
    (sublist : kept.Sublist (index.lineRanges target)) :
    kept.Pairwise fun left right =>
      Ledger.liveSince target left (edit :: history) <
        Ledger.liveSince target right (edit :: history) := by
  refine ((mirrors.ordered target).sublist sublist).imp_of_mem ?_
  intro left right inLeft inRight before
  rw [mirrors.liveSince_cons (sublist.subset inLeft),
    mirrors.liveSince_cons (sublist.subset inRight)]
  exact before

theorem ordered_concat (edit : Edit) {target : Path} {lines : LineRange}
    (isNew : lines ∉ index.lineRanges target) :
    (index.lineRanges target ++ [lines]).Pairwise fun left right =>
      Ledger.liveSince target left (edit :: history) <
        Ledger.liveSince target right (edit :: history) := by
  refine List.pairwise_append.mpr ⟨mirrors.ordered_of_sublist edit (List.Sublist.refl _),
    List.pairwise_singleton _ _, fun old member other isOther => ?_⟩
  rw [List.mem_singleton.mp isOther, mirrors.liveSince_cons member, Ledger.liveSince,
    if_neg fun live => isNew (mirrors.mem_lineRanges_iff_isLive.mpr live)]
  exact Nat.lt_succ_of_le (Ledger.liveSince_le target old history)

theorem insert (filing : Filing) {edit : Edit} (accepted : edit.isAccepted = true)
    (isPut : Ledger.after (edit :: history) = (Ledger.after history).put filing) :
    (index.insert filing.target filing.reference).1.Mirrors (edit :: history) where
  consistent := mirrors.consistent.insert filing.target filing.reference
  referencesTo_eq target lines := by
    rw [isPut, Ledger.referencesTo_put, referencesTo_insert, mirrors.referencesTo_eq]
  ordered target := by
    rw [lineRanges_insert]
    split
    · next isNew => exact mirrors.ordered_concat edit isNew.2
    · exact mirrors.ordered_of_sublist edit (List.Sublist.refl _)
  version_eq := by
    rw [List.countP_cons_of_pos accepted, ← mirrors.version_eq]
    rfl

theorem removeOutbound (source : Path) :
    (index.removeOutbound source).1.Mirrors (.removeOutbound source :: history) where
  consistent := mirrors.consistent.removeOutbound source
  referencesTo_eq target lines := by
    refine (referencesTo_withoutSource mirrors.consistent source target lines).trans ?_
    rw [mirrors.referencesTo_eq]
    exact (Ledger.referencesTo_without _ target lines fun _ _ => rfl).symm
  ordered target := mirrors.ordered_of_sublist _
    (lineRanges_withoutSource_sublist mirrors.consistent source target)
  version_eq := by
    rw [List.countP_cons_of_pos rfl, ← mirrors.version_eq]
    exact congrArg Nat.succ (version_withoutSource index source)

theorem removeFile (file : Path) :
    (index.removeFile file).Mirrors (.removeFile file :: history) where
  consistent := mirrors.consistent.removeFile file
  referencesTo_eq target lines := by
    rw [referencesTo_removeFile mirrors.consistent, mirrors.referencesTo_eq]
    refine (Ledger.referencesTo_without _ target lines fun filing isPlace => ?_).symm
    rw [Filing.isInto, BEq.congr_left (Filing.isAt_iff.mp isPlace).1, BEq.comm]
    rfl
  ordered target := mirrors.ordered_of_sublist _
    (lineRanges_removeFile_sublist mirrors.consistent file target)
  version_eq := by
    rw [List.countP_cons_of_pos rfl, ← mirrors.version_eq]
    exact congrArg Nat.succ
      ((version_withoutTarget _ file).trans (version_withoutSource index file))

theorem clear : index.clear.Mirrors (.clear :: history) where
  consistent := .clear index
  referencesTo_eq target lines := rfl
  ordered target := List.Pairwise.nil
  version_eq := by
    rw [List.countP_cons_of_pos rfl, ← mirrors.version_eq]
    rfl

theorem refuse {edit : Edit} (refused : edit.isAccepted = false)
    (isSame : Ledger.after (edit :: history) = Ledger.after history) :
    index.Mirrors (edit :: history) where
  consistent := mirrors.consistent
  referencesTo_eq := by rw [isSame]; exact mirrors.referencesTo_eq
  ordered target := mirrors.ordered_of_sublist edit (List.Sublist.refl _)
  version_eq := by
    rw [List.countP_cons_of_neg (Bool.eq_false_iff.mp refused)]
    exact mirrors.version_eq

theorem edited (edit : Edit) : (index.edited edit).1.Mirrors (edit :: history) := by
  cases edit with
  | record target first last source start stop definitionLine =>
      rw [ReferenceIndex.edited, ReferenceIndex.record]
      cases bounds : LineRange.of? first last with
      | none =>
          refine mirrors.refuse ?_ ?_
          · rw [Edit.isAccepted, bounds]
            rfl
          · rw [Ledger.after, Ledger.edited, bounds]
      | some lines =>
          refine mirrors.insert ⟨target, { source, start, stop, lines, definitionLine }⟩ ?_ ?_
          · rw [Edit.isAccepted, bounds]
            rfl
          · rw [Ledger.after, Ledger.edited, bounds]
  | removeOutbound source => exact mirrors.removeOutbound source
  | removeFile file => exact mirrors.removeFile file
  | clear => exact mirrors.clear

end Mirrors

theorem mirrors_after (history : List Edit) : (after history).Mirrors history := by
  induction history with
  | nil => exact ⟨consistent_empty, fun _ _ => rfl, fun _ => List.Pairwise.nil, rfl⟩
  | cons edit earlier ih => exact ih.edited edit

end ReferenceIndex

end CodePointers
