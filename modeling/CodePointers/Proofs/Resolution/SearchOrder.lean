import CodePointers.Proofs.Resolution.Probing
import Mathlib.Data.List.DropRight
import Mathlib.Data.List.Infix

/-!
Resolution read off the two texts of a pointer, in any workspace: a text is cut at its slashes, and
the places that it can stand for are probed one after the other.
-/

namespace CodePointers

/-- Whether a text is an absolute path or has a `..` segment. -/
def Climbs (text : Text) : Prop := text.head? = some '/' ∨ ['.', '.'] ∈ text.splitOn '/'

def namesIn (text : Text) : List Text :=
  (text.splitOn '/').filter fun segment => !Path.isFiller segment

def nameAtEnd (text : Text) : Text := text.rtakeWhile (· ≠ '/')

/-! The path that a text stands for. -/

namespace Path

theorem isAbsolute_ofText {text : Text} :
    (ofText text).isAbsolute = true ↔ text.head? = some '/' := by
  unfold ofText
  cases text with
  | nil => exact iff_of_false Bool.false_ne_true nofun
  | cons char rest =>
      rw [List.splitOn_cons_eq_if_modifyHead, List.head?_cons, Option.some.injEq]
      obtain ⟨first, others, isSplit⟩ := List.exists_cons_of_ne_nil (List.splitOn_ne_nil '/' rest)
      by_cases slash : char = '/'
      · rw [if_pos (beq_iff_eq.mpr slash), isAbsolute_cons_iff]
        exact iff_of_true ⟨rfl, List.splitOn_ne_nil '/' rest⟩ slash
      · rw [if_neg (beq_iff_eq.not.mpr slash), isSplit, List.modifyHead_cons, isAbsolute_cons_iff]
        exact iff_of_false (fun root => List.cons_ne_nil _ _ root.1) slash

theorem plainNames?_eq_none {path : Path}
    (climbs : Part.root ∈ path.parts ∨ Part.parent ∈ path.parts) : path.plainNames? = none := by
  unfold plainNames?
  generalize path.parts = parts at climbs
  induction parts with
  | nil => exact absurd climbs (by simp)
  | cons part parts ih =>
      rw [List.foldr_cons]
      cases part with
      | root => rfl
      | parent => rfl
      | current => exact ih (by simpa using climbs)
      | name name =>
          dsimp only
          rw [ih (by simpa using climbs)]
          rfl

theorem plainNames?_of_parts {path : Path} {names : List Text}
    (spelled : path.parts = names.map .name ∨ path.parts = .current :: names.map .name) :
    path.plainNames? = some names := by
  unfold plainNames?
  rcases spelled with spelled | spelled <;> rw [spelled] <;> clear spelled <;>
    induction names with
    | nil => rfl
    | cons name names ih =>
        simp only [List.map_cons, List.foldr_cons] at ih ⊢
        rw [ih]
        rfl

theorem plain?_of_climbs {text : Text} (climbs : Climbs text) : (ofText text).plain? = none := by
  refine Option.map_eq_none_iff.mpr (plainNames?_eq_none ?_)
  by_cases absolute : (ofText text).isAbsolute = true
  · obtain ⟨inner, isParts⟩ := parts_of_isAbsolute absolute
    exact .inl (by rw [isParts]; exact List.mem_cons_self)
  · have isParent : Part.parent ∈ innerParts (ofText text).segments :=
      parent_mem_innerParts (climbs.resolve_left (isAbsolute_ofText.not.mp absolute))
    rcases parts_of_relative (Bool.eq_false_iff.mpr absolute) with isParts | isParts
    · exact .inr (by rw [isParts]; exact isParent)
    · exact .inr (by rw [isParts]; exact List.mem_cons_of_mem _ isParent)

theorem plain?_of_not_climbs {text : Text} (plain : ¬Climbs text) :
    (ofText text).plain? = some (.ofPlainNames (namesIn text)) := by
  obtain ⟨notAbsolute, noParent⟩ := not_or.mp plain
  have relative := Bool.eq_false_iff.mpr (isAbsolute_ofText.not.mpr notAbsolute)
  have isInner : innerParts (ofText text).segments = (namesIn text).map .name :=
    innerParts_eq noParent
  have isNames : (ofText text).plainNames? = some (namesIn text) :=
    plainNames?_of_parts (isInner ▸ parts_of_relative relative)
  rw [plain?, isNames]
  rfl

theorem isEmpty_ofPlainNames_namesIn {text : Text} :
    (ofPlainNames (namesIn text)).isEmpty = true ↔ namesIn text = [] := by
  constructor
  · intro isEmpty
    by_contra notNil
    obtain ⟨name, names, isNames⟩ := List.exists_cons_of_ne_nil notNil
    have member : name ∈ namesIn text := by rw [isNames]; exact List.mem_cons_self
    have notFiller := (List.mem_filter.mp member).2
    rw [isNames, ofPlainNames, if_neg (List.cons_ne_nil _ _), Path.isEmpty, Bool.and_eq_true,
      List.all_cons, Bool.and_eq_true] at isEmpty
    rw [isFiller, isEmpty.1.1] at notFiller
    cases notFiller
  · intro none
    rw [none]
    rfl

end Path

namespace Resolution

theorem lastSegment_eq (text : Text) : lastSegment text = nameAtEnd text := by
  have noSlash : '/' ∉ nameAtEnd text := fun member => by
    simpa using List.mem_rtakeWhile_imp member
  have isText : text.rdropWhile (· ≠ '/') ++ nameAtEnd text = text :=
    List.rdropWhile_append_rtakeWhile
  rw [lastSegment]
  by_cases whole : text.rdropWhile (· ≠ '/') = []
  · rw [whole, List.nil_append] at isText
    rw [← isText, splitLast?_eq_none noSlash, isText]
    exact isText.symm
  · have slash : (text.rdropWhile (· ≠ '/')).getLast whole = '/' := by
      have := List.rdropWhile_last_not _ text whole
      rwa [decide_eq_true_iff, not_not] at this
    have isConcat := (List.dropLast_append_getLast whole).symm
    rw [slash] at isConcat
    rw [isConcat, List.append_assoc, List.singleton_append] at isText
    rw [← isText, splitLast?_append _ noSlash, isText]

theorem occursIn_iff {part text : Text} : occursIn part text = true ↔ part <:+: text := by
  induction text with
  | nil => rw [occursIn, List.isEmpty_iff, List.infix_nil]
  | cons char rest ih =>
      rw [occursIn, Bool.or_eq_true, List.isPrefixOf_iff_prefix, ih, List.infix_cons_iff]

end Resolution

/-! The search. -/

namespace Workspace

open Resolution

variable {workspace : Workspace} {moduleName relativePath text : Text} {places : List Resolution}

/-- The first file with the name at the end of the text whose path contains the whole text, or else
the first file with that name. -/
def fileNamedBy? (workspace : Workspace) (text : Text) : Option Path :=
  if nameAtEnd text = [] then none
  else
    let files := workspace.filesNamed (nameAtEnd text)
    (files.find? fun file => decide (text <:+: file.text)).or files.head?

def firstOf? (workspace : Workspace) (places : List Resolution) (text : Text) : Option Resolution :=
  (places.find? fun place => workspace.isFile place.path).or
    ((workspace.fileNamedBy? text).map (⟨·, .fileName⟩))

def NothingAt (workspace : Workspace) (places : List Resolution) (text : Text) : Prop :=
  (∀ place ∈ places, workspace.isFile place.path = false) ∧
    (nameAtEnd text = [] ∨ workspace.filesNamed (nameAtEnd text) = [])

def placesOf (workspace : Workspace) (moduleName relativePath : Text) : List Resolution :=
  candidates workspace.toLayout moduleName (.ofPlainNames (namesIn relativePath))

def placeOf (workspace : Workspace) (name : Text) : Resolution :=
  ⟨workspace.root.join (.ofPlainNames (namesIn name)), .rootRelative⟩

theorem byFileName?_eq_fileNamedBy? (workspace : Workspace) (text : Text) :
    byFileName? workspace text = workspace.fileNamedBy? text := by
  have occurs (file : Path) : occursIn text file.text = decide (text <:+: file.text) := by
    rw [← Bool.decide_coe (occursIn text file.text)]
    exact decide_eq_decide.mpr occursIn_iff
  rw [byFileName?_eq, lastSegment_eq, fileNamedBy?]
  simp only [occurs]

theorem firstOf?_eq_none_iff : workspace.firstOf? places text = none ↔
    workspace.NothingAt places text := by
  have searched : workspace.fileNamedBy? text = none ↔
      nameAtEnd text = [] ∨ workspace.filesNamed (nameAtEnd text) = [] := by
    unfold fileNamedBy?
    split
    · next noName => exact iff_of_true rfl (.inl noName)
    · next named =>
      rw [or_iff_right named, Option.or_eq_none_iff, List.head?_eq_none_iff]
      refine and_iff_right_of_imp fun none => ?_
      rw [none]
      rfl
  rw [firstOf?, Option.or_eq_none_iff, Option.map_eq_none_iff, searched, List.find?_eq_none]
  simp only [Bool.not_eq_true, NothingAt]

theorem resolve?_of_climbs (hasPath : relativePath ≠ []) (climbs : Climbs relativePath) :
    workspace.resolve? moduleName relativePath = none := by
  rw [resolve?, if_neg hasPath, Path.plain?_of_climbs climbs]
  rfl

theorem resolve?_of_not_climbs (hasPath : relativePath ≠ []) (plain : ¬Climbs relativePath) :
    workspace.resolve? moduleName relativePath =
      workspace.firstOf? (workspace.placesOf moduleName relativePath) relativePath := by
  rw [resolve?, if_neg hasPath, Path.plain?_of_not_climbs plain, Option.bind_some, ofRelative?_eq,
    byFileName?_eq_fileNamedBy?]
  rfl

theorem resolve?_bare_of_climbs (refused : Climbs moduleName ∨ namesIn moduleName = []) :
    workspace.resolve? moduleName [] = none := by
  rw [resolve?, if_pos rfl, ofBareName?]
  by_cases climbs : Climbs moduleName
  · rw [Path.plain?_of_climbs climbs]
    rfl
  · rw [Path.plain?_of_not_climbs climbs]
    exact if_pos (Path.isEmpty_ofPlainNames_namesIn.mpr (refused.resolve_left climbs))

theorem resolve?_bare_of_not_climbs (plain : ¬Climbs moduleName) (named : namesIn moduleName ≠ []) :
    workspace.resolve? moduleName [] =
      workspace.firstOf? [workspace.placeOf moduleName] moduleName := by
  have notEmpty := Path.isEmpty_ofPlainNames_namesIn.not.mpr named
  rw [resolve?, if_pos rfl, ofBareName?, Path.plain?_of_not_climbs plain]
  dsimp only [Option.bind_eq_bind, Option.bind_some]
  rw [if_neg notEmpty, existing?_eq, byFileName?_eq_fileNamedBy?, ← find?_placed,
    Option.orElse_eq_orElse, Option.orElse_eq_or]
  rfl

/-- What resolution finds for a pointer, and when it finds nothing. A pointer without a path names a
file by its module. -/
structure ProbesInOrder (workspace : Workspace) (moduleName relativePath : Text) : Prop where
  refused : relativePath ≠ [] → Climbs relativePath →
    workspace.resolve? moduleName relativePath = none
  found : relativePath ≠ [] → ¬Climbs relativePath →
    workspace.resolve? moduleName relativePath =
      workspace.firstOf? (workspace.placesOf moduleName relativePath) relativePath
  missing : relativePath ≠ [] → ¬Climbs relativePath →
    (workspace.resolve? moduleName relativePath = none ↔
      workspace.NothingAt (workspace.placesOf moduleName relativePath) relativePath)
  bareRefused : relativePath = [] → Climbs moduleName ∨ namesIn moduleName = [] →
    workspace.resolve? moduleName relativePath = none
  bareFound : relativePath = [] → ¬Climbs moduleName → namesIn moduleName ≠ [] →
    workspace.resolve? moduleName relativePath =
      workspace.firstOf? [workspace.placeOf moduleName] moduleName
  bareMissing : relativePath = [] → ¬Climbs moduleName → namesIn moduleName ≠ [] →
    (workspace.resolve? moduleName relativePath = none ↔
      workspace.NothingAt [workspace.placeOf moduleName] moduleName)

/-- In every workspace resolution takes the first of the fixed places that is a file. -/
theorem probes_in_order (workspace : Workspace) (moduleName relativePath : Text) :
    workspace.ProbesInOrder moduleName relativePath where
  refused := resolve?_of_climbs
  found := resolve?_of_not_climbs
  missing hasPath plain := by rw [resolve?_of_not_climbs hasPath plain, firstOf?_eq_none_iff]
  bareRefused isBare refused := by rw [isBare, resolve?_bare_of_climbs refused]
  bareFound isBare plain named := by rw [isBare, resolve?_bare_of_not_climbs plain named]
  bareMissing isBare plain named := by
    rw [isBare, resolve?_bare_of_not_climbs plain named, firstOf?_eq_none_iff]

end Workspace

end CodePointers
