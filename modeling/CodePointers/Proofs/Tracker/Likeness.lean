import CodePointers.Proofs.Tracker.CachedTexts
import CodePointers.Proofs.Tracker.LastReferences

/-!
Trackers that are alike: they have the same pointers, references that differ in the spelling of
their sources at most, and caches that give the same texts. No event can tell them apart.
-/

namespace CodePointers

open TextCache

namespace Tracker

/-! What happens to one source in both of them. -/

section

variable {disk : Disk} {left right leftNext rightNext : Tracker}

theorem Rereads.similar {reading : Path → Option Text} {files : List Path}
    (inLeft : Rereads disk reading files left leftNext)
    (inRight : Rereads disk reading files right rightNext) (layout : left.layout = right.layout)
    {source : Path} (similar : SimilarSource source left right) :
    SimilarSource source leftNext rightNext := by
  have unchanged (leftSame : SameSource source leftNext left)
      (rightSame : SameSource source rightNext right) : SimilarSource source leftNext rightNext :=
    leftSame.similar.trans (similar.trans rightSame.symm.similar)
  obtain ⟨file, member, same⟩ | apart := Path.listed_or_apart files source
  · cases isText : reading file with
    | some text =>
        have leftLists := inLeft.read file member text isText
        rw [layout] at leftLists
        exact ((leftLists.sameSource (inRight.read file member text isText)).congr same).similar
    | none =>
        exact unchanged ((inLeft.unread file member isText).congr same)
          ((inRight.unread file member isText).congr same)
  · exact unchanged (inLeft.others source apart) (inRight.others source apart)

theorem Drops.similar {gone : Path → Bool} (inLeft : Drops gone left leftNext)
    (inRight : Drops gone right rightNext) {source : Path}
    (similar : SimilarSource source left right) : SimilarSource source leftNext rightNext where
  tracked := by rw [inLeft.tracked, inRight.tracked, similar.tracked]
  stored target lines := by
    rw [inLeft.stored, inRight.stored]
    split
    · rfl
    · exact similar.stored target lines

theorem SimilarSource.retryPending {source : Path} (similar : SimilarSource source left right)
    (leftConsistent : left.index.Consistent) (rightConsistent : right.index.Consistent)
    (layout : left.layout = right.layout) (disk : Disk) :
    SimilarSource source (left.retryPending disk).1 (right.retryPending disk).1 where
  tracked := by rw [tracked_retryPending, tracked_retryPending, similar.tracked, layout]
  stored target lines := by
    obtain ⟨leftSpelled, leftSame, inLeft⟩ := stored?_retryPending leftConsistent disk source
    obtain ⟨rightSpelled, rightSame, inRight⟩ := stored?_retryPending rightConsistent disk source
    rw [inLeft, inRight, pointersOf, similar.tracked, layout, ← pointersOf]
    cases lastInto? (resolvable disk right.layout (right.pointersOf source)) target lines with
    | none => exact similar.stored target lines
    | some found => exact found.reference_beq (BEq.trans leftSame (BEq.symm rightSame))

theorem SimilarSource.knows_iff (similar : ∀ source, SimilarSource source left right)
    (path : Path) : left.Knows path ↔ right.Knows path := by
  have stores (lines : LineRange) (source : Path) :
      (left.index.stored? path lines source).isSome =
        (right.index.stored? path lines source).isSome := by
    have same := (similar source).stored path lines
    cases inLeft : left.index.stored? path lines source with
    | none =>
        cases inRight : right.index.stored? path lines source with
        | none => rfl
        | some reference => rw [inLeft, inRight] at same; cases same
    | some reference =>
        cases inRight : right.index.stored? path lines source with
        | none => rw [inLeft, inRight] at same; cases same
        | some other => rfl
  rw [Knows, Knows, (similar path).tracked]
  simp only [stores]

end

/-! All sources, with the cache. -/

structure Alike (disk : Disk) (left right : Tracker) : Prop where
  layout : left.layout = right.layout
  settings : left.settings = right.settings
  sources : ∀ source, SimilarSource source left right
  cache : Agrees disk left.cache right.cache

theorem Alike.refl (disk : Disk) (tracker : Tracker) : Alike disk tracker tracker :=
  ⟨rfl, rfl, fun source => (SameSource.refl source tracker).similar, .refl disk _⟩

theorem Alike.symm {disk : Disk} {left right : Tracker} (alike : Alike disk left right) :
    Alike disk right left :=
  ⟨alike.layout.symm, alike.settings.symm, fun source => (alike.sources source).symm,
    alike.cache.symm⟩

theorem Alike.trans {disk : Disk} {first second third : Tracker} (left : Alike disk first second)
    (right : Alike disk second third) : Alike disk first third :=
  ⟨left.layout.trans right.layout, left.settings.trans right.settings,
    fun source => (left.sources source).trans (right.sources source), left.cache.trans right.cache⟩

theorem Alike.sameContents {disk : Disk} {left right : Tracker} (alike : Alike disk left right)
    (leftSound : left.Sound) (rightSound : right.Sound) : SameContents left right :=
  sameContents_of_similar leftSound.coupled rightSound.coupled alike.sources

section

variable {disk : Disk} {left right : Tracker} (alike : Alike disk left right)
  (leftSound : left.Sound) (rightSound : right.Sound)
include alike leftSound rightSound

theorem Alike.changed {path : Path} (spelled : ∀ file ∈
    (FileEvent.changed path).sources disk left.layout, ∃ names, file.Spells names) :
    Alike disk (left.apply disk (.changed path)) (right.apply disk (.changed path)) := by
  obtain ⟨leftRead, leftReadSound, leftRereads, isLeft⟩ := @apply_changed disk left leftSound path
  obtain ⟨rightRead, rightReadSound, rightRereads, isRight⟩ :=
    @apply_changed disk right rightSound path
  have leftCache := @agrees_apply_changed disk left path spelled
  rw [alike.layout] at spelled leftCache leftRereads isLeft
  have rightCache := @agrees_apply_changed disk right path spelled
  have cache := leftCache.trans ((alike.cache.foldl_erase fun _ => rfl).trans rightCache.symm)
  rw [alike.settings] at leftRereads
  have layout := leftRereads.layout.trans (alike.layout.trans rightRereads.layout.symm)
  have settings := leftRereads.settings.trans (alike.settings.trans rightRereads.settings.symm)
  have sources (source : Path) : SimilarSource source leftRead rightRead :=
    leftRereads.similar rightRereads alike.layout (alike.sources source)
  rw [isLeft, isRight] at cache ⊢
  split at cache
  · next missing =>
    rw [if_pos missing, if_pos missing]
    have leftDrops := drops_forget leftReadSound.coupled.consistent path
    have rightDrops := drops_forget rightReadSound.coupled.consistent path
    exact ⟨layout, settings, fun source => leftDrops.similar rightDrops (sources source), cache⟩
  · next isThere =>
    rw [if_neg isThere, if_neg isThere]
    exact ⟨layout, settings, sources, cache⟩

theorem Alike.created {path : Path} (spelled : ∀ file ∈
    (FileEvent.created path).sources disk left.layout, ∃ names, file.Spells names) :
    Alike disk (left.apply disk (.created path)) (right.apply disk (.created path)) := by
  obtain ⟨leftRead, leftReadSound, leftRereads, isLeft⟩ := @apply_created disk left leftSound path
  obtain ⟨rightRead, rightReadSound, rightRereads, isRight⟩ :=
    @apply_created disk right rightSound path
  have leftCache := @agrees_apply_created disk left path spelled
  rw [alike.layout] at spelled leftCache leftRereads
  have rightCache := @agrees_apply_created disk right path spelled
  have cache := leftCache.trans ((alike.cache.foldl_erase fun _ => rfl).trans rightCache.symm)
  rw [alike.settings] at leftRereads
  have layout := leftRereads.layout.trans (alike.layout.trans rightRereads.layout.symm)
  have settings := leftRereads.settings.trans (alike.settings.trans rightRereads.settings.symm)
  rw [isLeft, isRight] at cache ⊢
  refine ⟨layout, settings, fun source => ?_, cache⟩
  exact (leftRereads.similar rightRereads alike.layout (alike.sources source)).retryPending
    leftReadSound.coupled.consistent rightReadSound.coupled.consistent layout disk

theorem Alike.removed (path : Path) :
    Alike disk (left.apply disk (.removed path)) (right.apply disk (.removed path)) := by
  have leftDrops := drops_forgetWithin leftSound.coupled path
  have rightDrops := drops_forgetWithin rightSound.coupled path
  have known (file : Path) : (left.knownWithin path).any (· == file) =
      (right.knownWithin path).any (· == file) := by
    rw [Bool.eq_iff_iff, List.any_eq_true, List.any_eq_true]
    by_cases within : file.isWithin path = true
    · rw [exists_knownWithin_iff leftSound.coupled.consistent within,
        exists_knownWithin_iff rightSound.coupled.consistent within,
        SimilarSource.knows_iff alike.sources]
    · exact ⟨fun known => absurd (isWithin_of_knownWithin known) within,
        fun known => absurd (isWithin_of_knownWithin known) within⟩
  refine ⟨leftDrops.layout.trans (alike.layout.trans rightDrops.layout.symm),
    leftDrops.settings.trans (alike.settings.trans rightDrops.settings.symm),
    fun source => leftDrops.similar rightDrops (alike.sources source), ?_⟩
  change Agrees disk ((left.knownWithin path).foldl forget left).cache
    ((right.knownWithin path).foldl forget right).cache
  rw [cache_foldl_forget, cache_foldl_forget]
  exact alike.cache.foldl_erase known

theorem Alike.rescan (spelled : ∀ file ∈ left.layout.indexableFiles disk,
    ∃ names, file.Spells names) :
    Alike disk (left.apply disk .rescan) (right.apply disk .rescan) := by
  obtain ⟨leftReadSound, leftRereads, leftDrops, leftGone, leftLost, leftCache⟩ :=
    @apply_rescan disk left leftSound
  obtain ⟨rightReadSound, rightRereads, rightDrops, rightGone, rightLost, rightCache⟩ :=
    @apply_rescan disk right rightSound
  have sameReading (file : Path) (member : file ∈ right.layout.indexableFiles disk) :
      Session.reading? disk { tracker := left } file =
        Session.reading? disk { tracker := right } file := by
    rw [← alike.layout] at member
    obtain ⟨names, spells⟩ := spelled file member
    exact Session.reading?_of_agreesAt alike.settings (alike.cache file names spells)
  have leftRead := @Session.agrees_scanFiles disk { tracker := left } _ rfl spelled
  rw [alike.layout] at spelled leftRereads
  have rightRead := @Session.agrees_scanFiles disk { tracker := right } _ rfl spelled
  have layout := leftRereads.layout.trans (alike.layout.trans rightRereads.layout.symm)
  have settings := leftRereads.settings.trans (alike.settings.trans rightRereads.settings.symm)
  have sources (source : Path) :
      SimilarSource source (left.rescanned disk) (right.rescanned disk) :=
    (leftRereads.congr sameReading).similar rightRereads alike.layout (alike.sources source)
  -- The same sources are lost, so the caches lose the same texts.
  have lost (path : Path) : (left.rescanned disk).lost disk path =
      (right.rescanned disk).lost disk path := by
    rw [Tracker.lost, (sources path).tracked, layout, Tracker.lost]
  rw [funext lost] at leftDrops
  refine ⟨leftDrops.layout.trans (layout.trans rightDrops.layout.symm),
    leftDrops.settings.trans (settings.trans rightDrops.settings.symm),
    fun source => leftDrops.similar rightDrops (sources source), ?_⟩
  rw [leftCache, rightCache]
  refine (leftRead.trans (alike.cache.trans rightRead.symm)).foldl_erase fun path => ?_
  rw [leftLost, rightLost, lost]

theorem Alike.apply {event : FileEvent}
    (spelled : ∀ file ∈ event.sources disk left.layout, ∃ names, file.Spells names) :
    Alike disk (left.apply disk event) (right.apply disk event) := by
  cases event with
  | changed path => exact alike.changed leftSound rightSound spelled
  | created path => exact alike.created leftSound rightSound spelled
  | removed path => exact alike.removed leftSound rightSound path
  | rescan => exact alike.rescan leftSound rightSound spelled

end

end Tracker

end CodePointers
