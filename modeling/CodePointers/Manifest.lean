import CodePointers.Manifest.Json

/-!
The module manifest: a record with the field `modules`, a list of records with the fields `name`
and `roots`. A record is an object, or an array of its fields in this order. Unknown fields are
passed over, a known field given twice is refused, and so is anything else that does not fit.
-/

namespace CodePointers

structure ManifestEntry where
  name : Text
  roots : List Text
deriving DecidableEq

namespace JsonValue

def fields? (names : List String) : JsonValue → Option (List (Option JsonValue))
  | .array items =>
      if items.length ≤ names.length then
        some ((List.range names.length).map fun position => items[position]?)
      else none
  | .object members => do
      let keyed ← members.mapM fun (key, value) => key.map (·, value)
      names.mapM fun name =>
        match keyed.filter fun member => member.1 == name.toList with
        | [] => some none
        | [(_, value)] => some (some value)
        | _ => none
  | _ => none

def text? : JsonValue → Option Text
  | .string text => text
  | _ => none

def list? {α : Type} (item? : JsonValue → Option α) : Option JsonValue → Option (List α)
  | none => some []
  | some (.array items) => items.mapM item?
  | _ => none

end JsonValue

namespace ManifestEntry

def ofJson? (value : JsonValue) : Option ManifestEntry :=
  match value.fields? ["name", "roots"] with
  | some [some name, roots] => do
      return { name := ← name.text?, roots := ← JsonValue.list? JsonValue.text? roots }
  | _ => none

def listOfText? (text : Text) : Option (List ManifestEntry) := do
  let value ← JsonValue.ofText? text
  match value.fields? ["modules"] with
  | some [modules] => JsonValue.list? ofJson? modules
  | _ => none

end ManifestEntry

end CodePointers
