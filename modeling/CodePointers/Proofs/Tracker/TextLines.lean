import CodePointers.Proofs.Pointer.Embedding
import CodePointers.Proofs.Tracker.ScanResults

/-!
The pointers of a text are those of its lines. Only a line feed ends a line, and no pointer has one
in it, so each line is scanned as if it stood alone.
-/

namespace CodePointers

def linesOf (text : Text) : List Text := text.splitOn '\n'

/-- The number of bytes in front of a line, counted from zero: the lines before it have a line feed
each. -/
def lineStart (text : Text) (index : Nat) : Nat :=
  byteLength (((linesOf text).take index).flatMap (· ++ ['\n']))

theorem lines_induction {motive : Text → Prop} (single : ∀ line, '\n' ∉ line → motive line)
    (more : ∀ line rest, '\n' ∉ line → motive rest → motive (line ++ '\n' :: rest))
    (text : Text) : motive text := by
  by_cases feed : '\n' ∈ text
  · obtain ⟨line, rest, isText, noFeed⟩ := List.eq_append_cons_of_mem feed
    have shorter : rest.length < text.length := by
      rw [isText, List.length_append, List.length_cons]
      omega
    rw [isText]
    exact more line rest noFeed (lines_induction single more rest)
  · exact single text feed
termination_by text.length

theorem linesOf_single {line : Text} (noFeed : '\n' ∉ line) : linesOf line = [line] :=
  List.splitOn_eq_singleton noFeed

theorem linesOf_append {line : Text} (noFeed : '\n' ∉ line) (rest : Text) :
    linesOf (line ++ '\n' :: rest) = line :: linesOf rest :=
  List.splitOn_append_cons_self_of_not_mem noFeed rest

theorem length_linesOf (text : Text) : (linesOf text).length = text.count '\n' + 1 := by
  induction text using lines_induction with
  | single line noFeed => rw [linesOf_single noFeed, List.count_eq_zero.mpr noFeed]; rfl
  | more line rest noFeed ih =>
      rw [linesOf_append noFeed, List.length_cons, ih, List.count_append, List.count_cons_self,
        List.count_eq_zero.mpr noFeed, Nat.zero_add]

theorem lineStart_zero (text : Text) : lineStart text 0 = 0 := rfl

theorem lineStart_append {line : Text} (noFeed : '\n' ∉ line) (rest : Text) (index : Nat) :
    lineStart (line ++ '\n' :: rest) (index + 1) = byteLength line + 1 + lineStart rest index := by
  have isFeed : byteLength ['\n'] = 1 := rfl
  rw [lineStart, linesOf_append noFeed, List.take_succ_cons, List.flatMap_cons, byteLength_append,
    byteLength_append, isFeed]
  rfl

/-! Occurrences. -/

namespace Occurrence

theorem line_of_mem_findAll {found : Occurrence} {line : Text} (noFeed : '\n' ∉ line)
    (member : found ∈ findAll line) : found.line = 1 := by
  obtain ⟨before, after, between⟩ := between_of_mem_findAll member
  have none : '\n' ∉ before := fun feed => by
    rw [between.text_eq] at noFeed
    exact noFeed (List.mem_append_left _ feed)
  rw [between.line_eq, List.count_eq_zero.mpr none]

theorem line_le_of_mem_findAll {found : Occurrence} {text : Text} (member : found ∈ findAll text) :
    found.line ≤ (linesOf text).length := by
  obtain ⟨before, after, between⟩ := between_of_mem_findAll member
  rw [between.line_eq, length_linesOf, between.text_eq, List.count_append]
  omega

end Occurrence

/-! Tracked pointers. -/

namespace TrackedPointer

def shift (bytes lines : Nat) (tracked : TrackedPointer) : TrackedPointer :=
  { tracked with
    start := tracked.start + bytes
    stop := tracked.stop + bytes
    definitionLine := tracked.definitionLine + lines }

/-- A pointer of a single text as it stands where that text is a line behind a number of bytes. -/
def onLine (bytes line : Nat) (tracked : TrackedPointer) : TrackedPointer :=
  { tracked with
    start := tracked.start + bytes
    stop := tracked.stop + bytes
    definitionLine := line }

theorem onLine_zero {tracked : TrackedPointer} {line : Nat}
    (isLine : tracked.definitionLine = line) :
    tracked.onLine 0 line = tracked := by
  rw [onLine, Nat.add_zero, Nat.add_zero, ← isLine]

theorem shift_onLine (bytes lines before line : Nat) (tracked : TrackedPointer) :
    (tracked.onLine before line).shift bytes lines =
      tracked.onLine (bytes + before) (line + lines) := by
  rw [shift, onLine, onLine]
  simp only [Nat.add_comm bytes before, Nat.add_assoc]

end TrackedPointer

namespace Tracker

open Occurrence

variable (disk : Disk) (layout : Layout)

theorem track?_shift (bytes lines : Nat) (found : Occurrence) :
    track? disk layout (found.shift bytes lines) =
      (track? disk layout found).map (.shift bytes lines) := by
  have sameText : (found.shift bytes lines).text = found.text := rfl
  rw [track?, track?, sameText]
  cases Pointer.parse found.text <;> rfl

theorem extract_append_newline (line rest : Text) :
    extract disk layout (line ++ '\n' :: rest) =
      extract disk layout line ++
        (extract disk layout rest).map (.shift (byteLength line + 1) (line.count '\n' + 1)) := by
  rw [extract, findAll_append_newline, List.filterMap_append, List.filterMap_map, extract, extract,
    List.map_filterMap]
  exact congrArg _ (List.filterMap_congr fun found _ => track?_shift disk layout _ _ found)

theorem exists_found_of_mem_extract {text : Text} {tracked : TrackedPointer}
    (member : tracked ∈ extract disk layout text) :
    ∃ found ∈ findAll text, tracked.start = found.start ∧ tracked.stop = found.stop ∧
      tracked.definitionLine = found.line := by
  obtain ⟨found, isFound, isTracked⟩ := List.mem_filterMap.mp member
  unfold track? at isTracked
  split at isTracked
  · cases isTracked
  · cases isTracked
    exact ⟨found, isFound, rfl, rfl, rfl⟩

theorem map_onLine_extract {line : Text} (noFeed : '\n' ∉ line) :
    (extract disk layout line).map (.onLine 0 1) = extract disk layout line := by
  have unmoved : ∀ tracked ∈ extract disk layout line, tracked.onLine 0 1 = id tracked := by
    intro tracked member
    obtain ⟨found, isFound, _, _, isLine⟩ := exists_found_of_mem_extract disk layout member
    exact TrackedPointer.onLine_zero (isLine.trans (line_of_mem_findAll noFeed isFound))
  rw [List.map_congr_left unmoved, List.map_id]

theorem extract_eq_lines (text : Text) :
    extract disk layout text = (linesOf text).zipIdx.flatMap fun (line, index) =>
      (extract disk layout line).map (.onLine (lineStart text index) (index + 1)) := by
  induction text using lines_induction with
  | single line noFeed =>
      rw [linesOf_single noFeed, List.zipIdx_singleton, List.flatMap_singleton]
      exact (map_onLine_extract disk layout noFeed).symm
  | more line rest noFeed ih =>
      have oneLine : line.count '\n' + 1 = 1 := by rw [List.count_eq_zero.mpr noFeed]
      have moved (index : Nat) (tracked : TrackedPointer) :
          (tracked.onLine (lineStart rest index) (index + 1)).shift (byteLength line + 1) 1 =
            tracked.onLine (lineStart (line ++ '\n' :: rest) (index + 1)) (index + 1 + 1) := by
        rw [TrackedPointer.shift_onLine, lineStart_append noFeed]
      rw [extract_append_newline, ih, linesOf_append noFeed, List.zipIdx_cons, List.flatMap_cons,
        List.zipIdx_succ, List.flatMap_map, List.map_flatMap, oneLine]
      dsimp only
      rw [lineStart_zero, map_onLine_extract disk layout noFeed]
      simp only [List.map_map, Function.comp_def, moved]

end Tracker

/-! What is counted. -/

structure Outcome.AddsUp (whole : Outcome) (parts : List Outcome) : Prop where
  matched : whole.matched = (parts.map Outcome.matched).sum
  indexed : whole.indexed = (parts.map Outcome.indexed).sum
  parseFailures : whole.parseFailures = (parts.map Outcome.parseFailures).sum
  unresolved : whole.unresolved = (parts.map Outcome.unresolved).sum

theorem Outcome.AddsUp.singleton (outcome : Outcome) : outcome.AddsUp [outcome] :=
  ⟨List.sum_singleton.symm, List.sum_singleton.symm, List.sum_singleton.symm,
    List.sum_singleton.symm⟩

theorem Outcome.AddsUp.cons {whole first rest : Outcome} {parts : List Outcome}
    (two : whole.AddsUp [first, rest]) (more : rest.AddsUp parts) :
    whole.AddsUp (first :: parts) := by
  obtain ⟨matched, indexed, parseFailures, unresolved⟩ := two
  constructor
  · simpa [← more.matched] using matched
  · simpa [← more.indexed] using indexed
  · simpa [← more.parseFailures] using parseFailures
  · simpa [← more.unresolved] using unresolved

namespace Tracker

theorem tally_append_newline (disk : Disk) (layout : Layout) (line rest : Text) :
    (tally disk layout (line ++ '\n' :: rest)).AddsUp
      [tally disk layout line, tally disk layout rest] := by
  have malformed (bytes lines : Nat) : isMalformed ∘ Occurrence.shift bytes lines = isMalformed :=
    rfl
  have pending (bytes lines : Nat) :
      TrackedPointer.isPending ∘ TrackedPointer.shift bytes lines = TrackedPointer.isPending := rfl
  have resolved (bytes lines : Nat) :
      (fun tracked => !tracked.isPending) ∘ TrackedPointer.shift bytes lines =
        fun tracked => !tracked.isPending := rfl
  simp only [tally, Occurrence.findAll_append_newline, extract_append_newline]
  constructor
  · simp
  · simp [List.countP_map, resolved]
  · simp [List.countP_map, malformed]
  · simp [List.countP_map, pending]

theorem addsUp_reindexAt (disk : Disk) (tracker : Tracker) (file : Path) (number : Nat)
    (text : Text) :
    (tracker.reindexAt disk file text number).2.AddsUp
      ((linesOf text).map fun line => (tracker.reindexAt disk file line number).2) := by
  induction text using lines_induction with
  | single line noFeed =>
      rw [linesOf_single noFeed, List.map_singleton]
      exact .singleton _
  | more line rest noFeed ih =>
      have two : (tracker.reindexAt disk file (line ++ '\n' :: rest) number).2.AddsUp
          [(tracker.reindexAt disk file line number).2,
            (tracker.reindexAt disk file rest number).2] := by
        by_cases older : number < tracker.appliedTo file
        · simp only [reindexAt, if_pos older]
          exact ⟨rfl, rfl, rfl, rfl⟩
        · simp only [outcome_reindexAt older]
          exact tally_append_newline disk tracker.layout line rest
      rw [linesOf_append noFeed, List.map_cons]
      exact two.cons ih

/-- Extraction works line by line, whatever stands in the text. The pointers are those of the lines
one after the other, each line behind the bytes of those before it and counted from one, and what is
counted adds up. A pointer lies within one line, and the number of that line comes from the line
feeds before it: no other character begins a line. -/
theorem extract_line_by_line (disk : Disk) (tracker : Tracker) (text : Text) :
    (extract disk tracker.layout text = (linesOf text).zipIdx.flatMap fun (line, index) =>
      (extract disk tracker.layout line).map (.onLine (lineStart text index) (index + 1))) ∧
    (∀ file number, (tracker.reindexAt disk file text number).2.AddsUp
      ((linesOf text).map fun line => (tracker.reindexAt disk file line number).2)) ∧
    ∀ tracked ∈ extract disk tracker.layout text, ∃ before inner after,
      text = before ++ (inner ++ after) ∧ '\n' ∉ inner ∧
        tracked.start = byteLength before ∧ tracked.stop = byteLength (before ++ inner) ∧
        tracked.definitionLine = before.count '\n' + 1 ∧
        tracked.definitionLine ≤ (linesOf text).length := by
  refine ⟨extract_eq_lines disk tracker.layout text,
    fun file number => addsUp_reindexAt disk tracker file number text, fun tracked member => ?_⟩
  obtain ⟨found, isFound, isStart, isStop, isLine⟩ :=
    exists_found_of_mem_extract disk tracker.layout member
  obtain ⟨before, after, between⟩ := Occurrence.between_of_mem_findAll isFound
  have noFeed := (Occurrence.isPointerText_of_mem_findAll isFound).not_mem_newline
  refine ⟨before, found.text, after, between.text_eq, noFeed, ?_, ?_, ?_, ?_⟩
  · rw [isStart, between.start_eq, Nat.zero_add]
  · rw [isStop, between.stop_eq, between.start_eq, Nat.zero_add, byteLength_append]
  · rw [isLine, between.line_eq, Nat.add_comm]
  · rw [isLine]
    exact Occurrence.line_le_of_mem_findAll isFound

/-- Form feeds, lone carriage returns and the line breaks outside ASCII do not count. -/
example : (Occurrence.findAll "x\x0cy\rz\u0085w\u2028 @m/a:L1\r\n\nn/b:l2".toList).map (·.line) =
    [1, 3] := by decide +kernel

end Tracker

end CodePointers
