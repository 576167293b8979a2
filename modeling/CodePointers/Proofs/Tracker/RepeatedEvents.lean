import CodePointers.Proofs.Tracker.ForgottenPaths
import CodePointers.Proofs.Tracker.Retained

/-!
Events that are heard of twice. On a disk that stays as it is the second time changes nothing: what
was read is read again, what is gone is not there to be forgotten, and no pending pointer resolves
that did not resolve before.
-/

namespace CodePointers.Tracker

variable {disk : Disk}

section Again

variable {before after again last tracker : Tracker}

theorem Rereads.similar_again {reading : Path → Option Text} {files : List Path}
    (rereads : Rereads disk reading files before after)
    (anew : Rereads disk reading files after again) (source : Path) :
    SimilarSource source again after := by
  refine anew.similar_of_shows (fun file member text isText => ?_) source
  rw [rereads.layout]
  exact (rereads.read file member text isText).shows

theorem Drops.similar_again {gone : Path → Bool} (drops : Drops gone before after)
    (anew : Drops gone again last) (coupled : again.Coupled)
    (similar : ∀ source, SimilarSource source again after) (source : Path) :
    SimilarSource source last after := by
  have unknown (path : Path) (knows : again.Knows path) : gone path = false :=
    Bool.eq_false_iff.mpr fun isGone =>
      drops.not_knows isGone ((SimilarSource.knows_iff similar path).mp knows)
  exact (anew.similar_of_unknown coupled unknown source).trans (similar source)

theorem retryPending_retryPending (disk : Disk) (tracker : Tracker) :
    (tracker.retryPending disk).1.retryPending disk = ((tracker.retryPending disk).1, 0) := by
  refine retryPending_eq_self fun entry member tracked inEntry => ?_
  rw [entries_retryPending] at member
  obtain ⟨old, _, rfl⟩ := List.mem_map.mp member
  obtain ⟨pending, _, rfl⟩ := List.mem_map.mp inEntry
  exact gain?_renew disk tracker.layout pending

theorem Rereads.similar_retried_again {reading : Path → Option Text} {files : List Path}
    (rereads : Rereads disk reading files before after) (consistent : after.index.Consistent)
    (anew : Rereads disk reading files (after.retryPending disk).1 again)
    (againConsistent : again.index.Consistent) (source : Path) :
    SimilarSource source (again.retryPending disk).1 (after.retryPending disk).1 := by
  have similar (source : Path) : SimilarSource source again (after.retryPending disk).1 := by
    refine anew.similar_of_shows (fun file member text isText => ?_) source
    have shows := (rereads.read file member text isText).shows
    rw [← rereads.layout] at shows
    -- The pointers that were read are resolved already, so that none of them is renewed.
    rw [← map_releaseFrom_none (fun _ => rfl) (extract disk after.layout text)] at shows
    exact @Shows.retryPending disk after file text (fun _ => false) (fun _ => rfl) shows consistent
  have retried := (similar source).retryPending againConsistent
    (consistent_retryPending consistent disk) anew.layout disk
  rwa [retryPending_retryPending] at retried

end Again

/-! One case for each event. -/

section Events

variable {tracker : Tracker} (sound : tracker.Sound) (path source : Path)
include sound

theorem similar_changed_again :
    SimilarSource source ((tracker.apply disk (.changed path)).apply disk (.changed path))
      (tracker.apply disk (.changed path)) := by
  obtain ⟨reread, rereadSound, rereads, isAfter⟩ := @apply_changed disk tracker sound path
  obtain ⟨again, againSound, anew, isAgain⟩ :=
    @apply_changed disk _ (sound_apply sound (.changed path)) path
  obtain ⟨sameLayout, sameSettings⟩ := sameSetup_apply disk tracker (.changed path)
  rw [sameLayout, sameSettings] at anew
  rw [sameLayout] at isAgain
  rw [isAgain]
  split
  · next gone =>
    rw [if_pos gone] at isAfter
    -- Nothing is there to be read, and the file is not known any more.
    have unread (file : Path) (member : file ∈ (FileEvent.changed path).sources disk tracker.layout)
        (text : Text) : disk.reading? tracker.settings file ≠ some text := by
      rw [FileEvent.sources, if_pos gone.1, List.mem_singleton] at member
      rintro isText
      rw [member] at isText
      rw [Disk.pathExists_of_reading? isText] at gone
      cases gone.2
    have similar := anew.similar_of_shows fun file member text isText =>
      absurd isText (unread file member text)
    have drops := drops_forget rereadSound.coupled.consistent path
    rw [← isAfter] at drops
    exact drops.similar_again (drops_forget againSound.coupled.consistent path)
      againSound.coupled similar source
  · next stays =>
    rw [if_neg stays] at isAfter
    rw [isAfter] at anew ⊢
    exact rereads.similar_again anew source

theorem similar_created_again :
    SimilarSource source ((tracker.apply disk (.created path)).apply disk (.created path))
      (tracker.apply disk (.created path)) := by
  obtain ⟨reread, rereadSound, rereads, isAfter⟩ := @apply_created disk tracker sound path
  have afterSound := @sound_apply disk tracker sound (.created path)
  obtain ⟨again, againSound, anew, isAgain⟩ := @apply_created disk _ afterSound path
  obtain ⟨sameLayout, sameSettings⟩ := sameSetup_apply disk tracker (.created path)
  rw [sameLayout, sameSettings, isAfter] at anew
  rw [isAgain, isAfter]
  exact rereads.similar_retried_again rereadSound.coupled.consistent anew
    againSound.coupled.consistent source

theorem similar_removed_again :
    SimilarSource source ((tracker.apply disk (.removed path)).apply disk (.removed path))
      (tracker.apply disk (.removed path)) := by
  have drops := drops_forgetWithin sound.coupled path
  have afterSound := @sound_apply disk tracker sound (.removed path)
  have anew := drops_forgetWithin afterSound.coupled path
  exact drops.similar_again anew afterSound.coupled
    (fun source => (SameSource.refl source _).similar) source

theorem similar_rescan_again (sourcesProper : tracker.SourcesProper) :
    SimilarSource source ((tracker.apply disk .rescan).apply disk .rescan)
      (tracker.apply disk .rescan) :=
  similar_rescan_of_swept (sound_apply sound .rescan) (swept_rescan sound sourcesProper) source

end Events

/-- To apply an event a second time on the same disk changes nothing, whatever events and scans
there were before. For a scan all sources have to be files of the workspace: others are forgotten by
it, and with them pointers that the next scan would find again. -/
theorem Watched.apply_again {layout : Layout} {settings : Settings} {tracker : Tracker}
    (watched : Watched layout settings tracker) (disk : Disk) (event : FileEvent)
    (proper : event = .rescan → tracker.SourcesProper) :
    SameContents ((tracker.apply disk event).apply disk event) (tracker.apply disk event) := by
  have sound := watched.orderly.sound
  have once := @sound_apply disk tracker sound event
  have twice := @sound_apply disk _ once event
  refine sameContents_of_similar twice.coupled once.coupled fun source => ?_
  cases event with
  | changed path => exact similar_changed_again sound path source
  | created path => exact similar_created_again sound path source
  | removed path => exact similar_removed_again sound path source
  | rescan => exact similar_rescan_again sound source (proper rfl)

theorem Watched.apply_again_of_vanished_source :
    let layout : Layout := ⟨.ofText "/w".toList, []⟩
    let file := Path.ofText "/w/a.md".toList
    let gone := Path.ofText "/w/b.md".toList
    let kept : File := ⟨.text "@m/x.rs:L1 @m/y.rs:L2".toList, 0⟩
    let disk := ((Disk.empty.write file kept).write gone ⟨.text "@m/x.rs:L3".toList, 0⟩).write
      (.ofText "/w/m/x.rs".toList) ⟨.text [], 0⟩
    let later := (Disk.empty.write file kept).write (.ofText "/w/m/y.rs".toList) ⟨.text [], 0⟩
    let tracker := scanned disk layout .default
    let after := tracker.apply later .rescan
    Watched layout .default tracker ∧ tracker.SourcesProper ∧
      SameContents (after.apply later .rescan) after ∧
      (tracker.pointersOf gone).length = 1 ∧ tracker.index.size = 2 ∧
      (after.pointersOf gone).length = 0 ∧ after.index.size = 1 ∧ after.pendingCount = 1 := by
  intro layout file gone kept disk later tracker after
  have watched : Watched layout .default tracker := .scan .start disk {} rfl
  have rootPlain : Part.parent ∉ layout.root.parts := by decide
  have history : History layout .default tracker :=
    .perform .start disk (.scan {}) ⟨fun _ member =>
      (Layout.proper_of_mem_indexableFiles rootPlain member).admitted, Guard.admitsEdit_default _⟩
  have sourcesProper := history.tidy.sourcesProper
  exact ⟨watched, sourcesProper, watched.apply_again later .rescan fun _ => sourcesProper,
    by decide +kernel⟩

end CodePointers.Tracker
