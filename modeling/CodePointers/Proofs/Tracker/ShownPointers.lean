import CodePointers.Proofs.Tracker.Likeness
import CodePointers.Proofs.Tracker.Outlines

/-!
The pointers that a source shows, with the references of the last ones, and what becomes of them
when files are read, forgotten and looked for again on the disk that the pointers were taken from.
-/

namespace CodePointers

open TextCache

section Places

variable {disk : Disk} {path other : Path} {names : List Text}

theorem Path.Denotes.pathExists_of_beq (denotes : path.Denotes names) (same : other == path)
    (isThere : disk.pathExists other = true) : disk.pathExists path = true := by
  have spells := denotes.spells.congr (BEq.symm same)
  obtain ⟨node, found⟩ := Option.isSome_iff_exists.mp isThere
  rw [Disk.pathExists, denotes.node?_eq, spells.node?_eq_some found]
  rfl

theorem Disk.pathExists_of_reading? {settings : Settings} {text : Text}
    (isText : disk.reading? settings path = some text) : disk.pathExists path = true := by
  obtain ⟨node, found, _⟩ := Option.bind_eq_some_iff.mp isText
  exact Option.isSome_of_eq_some found

end Places

namespace Tracker

/-! The pointers that a source shows. -/

/-- Whether a source has these pointers, and the index the references of the last ones. -/
structure Shows (tracker : Tracker) (source : Path) (pointers : List TrackedPointer) : Prop where
  tracked : tracker.tracked.get? source = kept? pointers
  keepsLast : tracker.KeepsLast source

theorem Lists.shows {tracker : Tracker} {source : Path} {pointers : List TrackedPointer}
    (lists : Lists tracker source pointers) : Shows tracker source pointers :=
  ⟨lists.tracked, lists.keepsLast⟩

theorem Shows.respell {tracker : Tracker} {source other : Path} {pointers : List TrackedPointer}
    (shows : Shows tracker source pointers) (same : source == other) :
    Shows tracker other pointers :=
  ⟨by rw [← tracker.tracked.get?_congr same, shows.tracked], shows.keepsLast.respell same⟩

theorem Shows.congr {left right : Tracker} {source : Path} {pointers : List TrackedPointer}
    (shows : Shows right source pointers) (same : SameSource source left right) :
    Shows left source pointers :=
  ⟨same.tracked.trans shows.tracked, shows.keepsLast.congr same⟩

theorem Shows.similar {left right : Tracker} {source : Path} {pointers : List TrackedPointer}
    (inLeft : Shows left source pointers) (inRight : Shows right source pointers) :
    SimilarSource source left right :=
  similar_of_keepsLast (inLeft.tracked.trans inRight.tracked.symm) inLeft.keepsLast
    inRight.keepsLast

theorem Shows.pointersOf {tracker : Tracker} {source : Path} {pointers : List TrackedPointer}
    (shows : Shows tracker source pointers) : tracker.pointersOf source = pointers := by
  rw [Tracker.pointersOf, shows.tracked, kept?_getD]

section Steps

variable {disk : Disk} {reading : Path → Option Text} {files : List Path}
  {before after tracker : Tracker} {source : Path} {text : Text}

theorem Rereads.similar_of_shows (rereads : Rereads disk reading files before after)
    (shows : ∀ file ∈ files, ∀ text, reading file = some text →
      Shows before file (extract disk before.layout text)) (source : Path) :
    SimilarSource source after before := by
  obtain ⟨file, member, same⟩ | apart := Path.listed_or_apart files source
  · cases isText : reading file with
    | some text =>
        have now := (rereads.read file member text isText).shows.respell same
        exact now.similar ((shows file member text isText).respell same)
    | none => exact ((rereads.unread file member isText).congr same).similar
  · exact (rereads.others source apart).similar

theorem Drops.shows {gone : Path → Bool} {pointers : List TrackedPointer}
    (drops : Drops gone before after) (shows : Shows before source pointers)
    (stays : gone source = false) : Shows after source (pointers.map (releaseFrom gone)) where
  tracked := by
    rw [drops.tracked, stays, if_neg Bool.false_ne_true, shows.tracked, map_kept?]
  keepsLast := drops.keepsLast shows.keepsLast

theorem map_releaseFrom_none {gone : Path → Bool} (noneGone : ∀ path, gone path = false)
    (pointers : List TrackedPointer) : pointers.map (releaseFrom gone) = pointers :=
  map_releaseFrom_of_not_gone fun _ _ target _ => noneGone target

theorem of_target?_releaseFrom {gone : Path → Bool} {tracked : TrackedPointer} {target : Path}
    (isTarget : (releaseFrom gone tracked).target? = some target) :
    tracked.target? = some target ∧ gone target = false := by
  simpa [releaseFrom, Option.filter_eq_some_iff] using isTarget

theorem releaseFrom_of_gone {gone : Path → Bool} {tracked : TrackedPointer} {target : Path}
    (isTarget : tracked.target? = some target) (isGone : gone target = true) :
    releaseFrom gone tracked = { tracked with target? := none } := by
  simp [releaseFrom, isTarget, Option.filter, isGone]

theorem renew_releaseFrom {layout : Layout} {tracked : TrackedPointer}
    (member : tracked ∈ extract disk layout text) (gone : Path → Bool) :
    renew disk layout (releaseFrom gone tracked) = tracked := by
  have current := target?_of_mem_extract member
  have renewed : renew disk layout { tracked with target? := none } = tracked := by
    change { tracked with target? := layout.target? disk tracked.pointer } = tracked
    rw [← current]
  cases isTarget : tracked.target? with
  | none =>
      have unreleased : releaseFrom gone tracked = { tracked with target? := none } := by
        simp [releaseFrom, isTarget]
      rw [unreleased, renewed]
  | some target =>
      cases isGone : gone target with
      | true => rw [releaseFrom_of_gone isTarget isGone, renewed]
      | false =>
          have stays : releaseFrom gone tracked = tracked := by
            refine releaseFrom_of_not_gone fun other isOther => ?_
            obtain rfl := Option.some.inj (isTarget.symm.trans isOther)
            exact isGone
          rw [stays, renew, isTarget]

theorem Shows.retryPending {gone : Path → Bool}
    (congr : ∀ {path other : Path}, path == other → gone path = gone other)
    (shows : Shows tracker source ((extract disk tracker.layout text).map (releaseFrom gone)))
    (consistent : tracker.index.Consistent) :
    Shows (tracker.retryPending disk).1 source (extract disk tracker.layout text) where
  tracked := by
    have same :
        (extract disk tracker.layout text).map (renew disk tracker.layout ∘ releaseFrom gone) =
        (extract disk tracker.layout text).map id :=
      List.map_congr_left fun tracked member => renew_releaseFrom member gone
    rw [tracked_retryPending, shows.tracked, map_kept?, List.map_map, same, List.map_id]
  keepsLast := by
    refine shows.keepsLast.retryPending consistent fun target lines found isFound points => ?_
    rw [shows.pointersOf] at isFound ⊢
    obtain ⟨resolved, released, inReleased, pending, rfl⟩ := mem_resolvable_iff.mp isFound
    obtain ⟨old, member, rfl⟩ := List.mem_map.mp inReleased
    rw [renew_releaseFrom member] at resolved points
    obtain ⟨_, own, isOwn, same⟩ := TrackedPointer.pointsTo_iff.mp points
    -- All pointers at the target have been released, not only this one.
    have isGone : gone own = true := by
      refine Bool.not_eq_false _ ▸ fun stays => ?_
      rw [releaseFrom_of_not_gone fun other isOther =>
        Option.some.inj (isOwn.symm.trans isOther) ▸ stays] at pending
      rw [pending] at resolved
      cases resolved
    intro other isOther
    obtain ⟨another, _, rfl⟩ := List.mem_map.mp isOther
    refine Bool.eq_false_iff.mpr fun otherPoints => ?_
    obtain ⟨_, left, isLeft, sameLeft⟩ := TrackedPointer.pointsTo_iff.mp otherPoints
    have stays := (of_target?_releaseFrom isLeft).2
    rw [congr sameLeft, ← congr same, isGone] at stays
    cases stays

/-! What a tracker knows of a place where nothing is. -/

variable {path : Path} {names : List Text} (denotes : path.Denotes names)
  (missing : disk.pathExists path = false)

theorem Drops.knows {gone : Path → Bool} (drops : Drops gone before after)
    (knows : after.Knows path) : before.Knows path := by
  rcases knows with isTracked | ⟨lines, source, isStored⟩
  · rw [drops.tracked] at isTracked
    split at isTracked
    · cases isTracked
    · exact .inl (by rwa [Option.isSome_map] at isTracked)
  · rw [drops.stored] at isStored
    split at isStored
    · cases isStored
    · exact .inr ⟨lines, source, isStored⟩

theorem Drops.similar_of_unknown {gone : Path → Bool} (drops : Drops gone before after)
    (coupled : before.Coupled) (unknown : ∀ path, before.Knows path → gone path = false)
    (source : Path) : SimilarSource source after before := by
  have nothing : Drops (fun _ => false) before after :=
    drops.of_known coupled (fun _ => rfl) unknown
  exact nothing.similar (drops_none before) (SameSource.refl source before).similar

include denotes missing

theorem not_pointsTo_of_missing {tracked : TrackedPointer} {layout : Layout}
    (current : tracked.target? = layout.target? disk tracked.pointer) (lines : LineRange) :
    tracked.pointsTo path lines = false := by
  refine Bool.eq_false_iff.mpr fun points => ?_
  obtain ⟨_, own, isOwn, same⟩ := TrackedPointer.pointsTo_iff.mp points
  rw [isOwn] at current
  have isThere := Disk.pathExists_of_isFile (Layout.isFile_of_target? current.symm)
  rw [denotes.pathExists_of_beq same isThere] at missing
  cases missing

theorem Rereads.knows (rereads : Rereads disk reading files before after)
    (unread : ∀ file ∈ files, (file == path) = true → reading file = none)
    (knows : after.Knows path) : before.Knows path := by
  rcases knows with isTracked | ⟨lines, source, isStored⟩
  · left
    obtain ⟨file, member, same⟩ | apart := Path.listed_or_apart files path
    · have unchanged := (rereads.unread file member (unread file member same)).congr same
      rwa [← unchanged.tracked]
    · have unchanged := rereads.others path apart
      rwa [← unchanged.tracked]
  · rcases rereads.source_cases source with ⟨file, text, same, lists⟩ | unchanged
    · rw [← after.index.stored?_congr lines BEq.rfl same, lists.stored, Option.isSome_map,
        lastInto?_isSome_iff] at isStored
      obtain ⟨tracked, member, points⟩ := isStored
      rw [not_pointsTo_of_missing denotes missing (target?_of_mem_extract member)] at points
      cases points
    · rw [unchanged.stored] at isStored
      exact .inr ⟨lines, source, isStored⟩

theorem knows_of_retryPending (consistent : tracker.index.Consistent)
    (knows : (tracker.retryPending disk).1.Knows path) : tracker.Knows path := by
  rcases knows with isTracked | ⟨lines, source, isStored⟩
  · rw [tracked_retryPending, Option.isSome_map] at isTracked
    exact .inl isTracked
  · obtain ⟨spelled, _, stored⟩ := stored?_retryPending consistent disk source
    rw [stored, Option.isSome_or, Bool.or_eq_true, Option.isSome_map,
      lastInto?_isSome_iff] at isStored
    rcases isStored with ⟨tracked, member, points⟩ | before
    · obtain ⟨_, old, _, pending, rfl⟩ := mem_resolvable_iff.mp member
      obtain ⟨samePointer, isTarget⟩ := pointer_renew disk tracker.layout old
      rw [TrackedPointer.isPending, Option.isNone_iff_eq_none] at pending
      rw [pending, Option.none_or, ← samePointer] at isTarget
      rw [not_pointsTo_of_missing denotes missing isTarget] at points
      cases points
    · exact .inr ⟨lines, source, before⟩

end Steps

end Tracker

end CodePointers
