import CodePointers.Proofs.ReferenceIndex.Removal

/-!
A ledger is what the reverse index keeps, without its nesting: a plain table of references, each
under the key of its target, its lines and its source, in the order in which the keys came in.
Every edit of the index is described by what it does to the ledger.
-/

namespace CodePointers

namespace Reference

theorem sameKey_iff {left right : Reference} :
    left.sameKey right = true ↔
      (left.source == right.source) = true ∧ left.lines = right.lines := by
  simp [sameKey]

theorem sameKey_of_both {left right reference : Reference} (same : left.sameKey reference = true)
    (also : right.sameKey reference = true) : left.sameKey right = true := by
  obtain ⟨source, lines⟩ := sameKey_iff.mp same
  obtain ⟨source', lines'⟩ := sameKey_iff.mp also
  exact sameKey_iff.mpr ⟨BEq.trans source (BEq.symm source'), lines.trans lines'.symm⟩

end Reference

/-- A reference with its target. The target, the lines and the source make the key; the offsets and
the definition line are the value. -/
structure Filing where
  target : Path
  reference : Reference

namespace Filing

def sameKey (left right : Filing) : Bool :=
  left.target == right.target && left.reference.sameKey right.reference

def isInto (target : Path) (filing : Filing) : Bool := filing.target == target

def isFrom (source : Path) (filing : Filing) : Bool := filing.reference.source == source

def isAt (target : Path) (lines : LineRange) (filing : Filing) : Bool :=
  filing.isInto target && filing.reference.lines == lines

def covers (line : Nat) (filing : Filing) : Bool := filing.reference.lines.contains line

theorem sameKey_iff {left right : Filing} :
    left.sameKey right = true ↔ (left.target == right.target) = true ∧
      (left.reference.source == right.reference.source) = true ∧
      left.reference.lines = right.reference.lines := by
  rw [sameKey, Bool.and_eq_true, Reference.sameKey_iff]

theorem isAt_iff {filing : Filing} {target : Path} {lines : LineRange} :
    filing.isAt target lines = true ↔
      (filing.target == target) = true ∧ filing.reference.lines = lines := by
  simp [isAt, isInto]

theorem isAt_congr {left right : Filing} (same : left.sameKey right = true) {target : Path}
    {lines : LineRange} : left.isAt target lines = right.isAt target lines := by
  obtain ⟨sameTarget, _, sameLines⟩ := sameKey_iff.mp same
  rw [isAt, isAt, isInto, isInto, sameLines, BEq.congr_left sameTarget]

theorem sameKey_symm {left right : Filing} (same : left.sameKey right = true) :
    right.sameKey left = true := by
  obtain ⟨target, source, lines⟩ := sameKey_iff.mp same
  exact sameKey_iff.mpr ⟨BEq.symm target, BEq.symm source, lines.symm⟩

theorem sameKey_trans {first second third : Filing} (same : first.sameKey second = true)
    (also : second.sameKey third = true) : first.sameKey third = true := by
  obtain ⟨target, source, lines⟩ := sameKey_iff.mp same
  obtain ⟨target', source', lines'⟩ := sameKey_iff.mp also
  exact sameKey_iff.mpr ⟨BEq.trans target target', BEq.trans source source', lines.trans lines'⟩

def overwrittenBy (filing stored : Filing) : Filing :=
  if stored.sameKey filing then filing else stored

theorem sameKey_overwrittenBy (filing stored : Filing) :
    stored.sameKey (overwrittenBy filing stored) = true := by
  unfold overwrittenBy
  split
  · assumption
  · exact sameKey_iff.mpr ⟨BEq.rfl, BEq.rfl, rfl⟩

end Filing

structure Ledger where
  filings : List Filing
  distinct : filings.Pairwise fun left right => left.sameKey right = false

namespace Ledger

def empty : Ledger := ⟨[], List.Pairwise.nil⟩

def holds (ledger : Ledger) (filing : Filing) : Bool :=
  ledger.filings.any fun stored => stored.sameKey filing

theorem distinct_overwritten (ledger : Ledger) (filing : Filing) :
    (ledger.filings.map filing.overwrittenBy).Pairwise
      fun left right => left.sameKey right = false := by
  refine ledger.distinct.map _ fun left right apart => Bool.eq_false_iff.mpr fun same => ?_
  have isLeft := Filing.sameKey_trans (filing.sameKey_overwrittenBy left) same
  have isRight := Filing.sameKey_symm (filing.sameKey_overwrittenBy right)
  rw [Filing.sameKey_trans isLeft isRight] at apart
  cases apart

theorem distinct_appended {ledger : Ledger} {filing : Filing}
    (isNew : ledger.holds filing = false) :
    (ledger.filings ++ [filing]).Pairwise fun left right => left.sameKey right = false := by
  refine List.pairwise_append.mpr ⟨ledger.distinct, List.pairwise_singleton _ _, ?_⟩
  intro stored member other isFiling
  rw [List.mem_singleton.mp isFiling]
  exact Bool.eq_false_iff.mpr (List.any_eq_false.mp isNew stored member)

def put (ledger : Ledger) (filing : Filing) : Ledger :=
  match known : ledger.holds filing with
  | true => ⟨ledger.filings.map filing.overwrittenBy, ledger.distinct_overwritten filing⟩
  | false => ⟨ledger.filings ++ [filing], distinct_appended known⟩

def without (ledger : Ledger) (dropped : Filing → Bool) : Ledger :=
  ⟨ledger.filings.filter fun filing => !dropped filing, ledger.distinct.filter _⟩

def referencesTo (ledger : Ledger) (target : Path) (lines : LineRange) : List Reference :=
  (ledger.filings.filter (·.isAt target lines)).map Filing.reference

theorem filings_put (ledger : Ledger) (filing : Filing) :
    (ledger.put filing).filings =
      if ledger.holds filing then ledger.filings.map filing.overwrittenBy
      else ledger.filings ++ [filing] := by
  unfold put
  split
  · next known => rw [if_pos known]
  · next isNew => rw [if_neg (Bool.eq_false_iff.mp isNew)]

end Ledger

namespace ReferenceIndex

/-! A new reference among those to the same lines. -/

theorem placeReference_eq {references : List Reference}
    (distinct : references.Pairwise fun left right => left.sameKey right = false)
    (reference : Reference) :
    placeReference reference references =
      if references.any (·.sameKey reference) then
        references.map fun stored => if stored.sameKey reference then reference else stored
      else references ++ [reference] := by
  induction references with
  | nil => rfl
  | cons head rest ih =>
      obtain ⟨apart, restDistinct⟩ := List.pairwise_cons.mp distinct
      rw [placeReference, List.any_cons, List.map_cons]
      cases isHead : head.sameKey reference with
      | true =>
          have others : rest.map (fun stored => if stored.sameKey reference then reference
              else stored) = rest := by
            refine (List.map_congr_left fun stored member => if_neg fun same => ?_).trans
              (List.map_id rest)
            have alike := Reference.sameKey_of_both isHead same
            rw [apart stored member] at alike
            cases alike
          simp [others]
      | false =>
          rw [ih restDistinct]
          by_cases known : (rest.any fun stored => stored.sameKey reference) = true
          · simp [known]
          · simp [known]

end ReferenceIndex

namespace Ledger

theorem distinct_referencesTo (ledger : Ledger) (target : Path) (lines : LineRange) :
    (ledger.referencesTo target lines).Pairwise
      fun left right => left.sameKey right = false := by
  refine List.pairwise_map.mpr ((ledger.distinct.filter _).imp_of_mem ?_)
  intro left right inLeft inRight apart
  have leftAt := Filing.isAt_iff.mp (List.mem_filter.mp inLeft).2
  have rightAt := Filing.isAt_iff.mp (List.mem_filter.mp inRight).2
  rw [Filing.sameKey, BEq.trans leftAt.1 (BEq.symm rightAt.1), Bool.true_and] at apart
  exact apart

theorem referencesTo_congr (ledger : Ledger) {target other : Path} (same : target == other)
    (lines : LineRange) : ledger.referencesTo target lines = ledger.referencesTo other lines := by
  unfold referencesTo Filing.isAt Filing.isInto
  congr 2
  funext filing
  rw [BEq.congr_right same]

theorem any_sameKey_referencesTo (ledger : Ledger) (filing : Filing) :
    (ledger.referencesTo filing.target filing.reference.lines).any
        (·.sameKey filing.reference) = ledger.holds filing := by
  rw [referencesTo, List.any_map, List.any_filter, holds]
  congr 1
  funext stored
  rw [Function.comp_apply, Filing.isAt, Filing.isInto, Filing.sameKey, Reference.sameKey,
    Bool.and_assoc, Bool.and_left_comm (stored.reference.lines == _), Bool.and_self]

theorem references_overwritten (ledger : Ledger) (filing : Filing) (target : Path)
    (lines : LineRange) :
    ((ledger.filings.map filing.overwrittenBy).filter (·.isAt target lines)).map Filing.reference =
      if filing.isAt target lines then
        (ledger.referencesTo target lines).map fun stored =>
          if stored.sameKey filing.reference then filing.reference else stored
      else ledger.referencesTo target lines := by
  have samePlaces : (·.isAt target lines) ∘ filing.overwrittenBy = (·.isAt target lines) :=
    funext fun stored =>
      Filing.isAt_congr (Filing.sameKey_symm (filing.sameKey_overwrittenBy stored))
  rw [List.filter_map, samePlaces, List.map_map, referencesTo]
  split
  · next isPlace =>
    rw [List.map_map]
    refine List.map_congr_left fun stored member => ?_
    have storedAt := Filing.isAt_iff.mp (List.mem_filter.mp member).2
    have sameTarget : (stored.target == filing.target) = true :=
      BEq.trans storedAt.1 (BEq.symm (Filing.isAt_iff.mp isPlace).1)
    simp only [Function.comp_apply, Filing.overwrittenBy, Filing.sameKey, sameTarget, Bool.true_and]
    split <;> rfl
  · next elsewhere =>
    refine List.map_congr_left fun stored member => ?_
    have differs : ¬stored.sameKey filing = true := by
      intro same
      rw [← Filing.isAt_congr same] at elsewhere
      exact elsewhere (List.mem_filter.mp member).2
    rw [Function.comp_apply, Filing.overwrittenBy, if_neg differs]

theorem references_appended (ledger : Ledger) (filing : Filing) (target : Path)
    (lines : LineRange) :
    ((ledger.filings ++ [filing]).filter (·.isAt target lines)).map Filing.reference =
      if filing.isAt target lines then ledger.referencesTo target lines ++ [filing.reference]
      else ledger.referencesTo target lines := by
  rw [List.filter_append, List.map_append, referencesTo]
  cases isPlace : filing.isAt target lines <;> simp [isPlace]

theorem referencesTo_put (ledger : Ledger) (filing : Filing) (target : Path) (lines : LineRange) :
    (ledger.put filing).referencesTo target lines =
      if filing.isAt target lines then
        ReferenceIndex.placeReference filing.reference (ledger.referencesTo target lines)
      else ledger.referencesTo target lines := by
  rw [referencesTo, filings_put]
  cases isPlace : filing.isAt target lines with
  | true =>
      obtain ⟨sameTarget, sameLines⟩ := Filing.isAt_iff.mp isPlace
      have known : (ledger.referencesTo target lines).any (·.sameKey filing.reference) =
          ledger.holds filing := by
        rw [← ledger.any_sameKey_referencesTo, ← sameLines, ledger.referencesTo_congr sameTarget]
      rw [if_pos rfl,
        ReferenceIndex.placeReference_eq (ledger.distinct_referencesTo target lines), known]
      split
      · rw [references_overwritten, if_pos isPlace]
      · rw [references_appended, if_pos isPlace]
  | false =>
      rw [if_neg Bool.false_ne_true]
      split
      · rw [references_overwritten, isPlace, if_neg Bool.false_ne_true]
      · rw [references_appended, isPlace, if_neg Bool.false_ne_true]

theorem referencesTo_without (ledger : Ledger) {dropped : Filing → Bool} {kept : Reference → Bool}
    (target : Path) (lines : LineRange)
    (isKept : ∀ filing, filing.isAt target lines = true →
      (!dropped filing) = kept filing.reference) :
    (ledger.without dropped).referencesTo target lines =
      (ledger.referencesTo target lines).filter kept := by
  rw [referencesTo, referencesTo, without, List.filter_map, List.filter_filter, List.filter_filter]
  refine congrArg _ (List.filter_congr fun filing _ => ?_)
  cases isPlace : filing.isAt target lines with
  | true => rw [Bool.true_and, Bool.and_true, Function.comp_apply, isKept filing isPlace]
  | false => rw [Bool.false_and, Bool.and_false]

end Ledger

end CodePointers
