import CodePointers.Pointer

/-!
The arguments of the commands, and what can be wrong with them. Flags may stand anywhere; the
first fault in the order of the arguments is reported.
-/

namespace CodePointers

inductive UsageError where
  | unknownFlag (flag : Text)
  | multipleRoots
  | missingRoot
  | notFolder (root : Text)
  | expectedRefs
  | expectedFormat
  | invalidLine (text : Text)
  | lineZero
  | invalidRange (first last : Nat)
deriving DecidableEq

def UsageError.message : UsageError → String
  | unknownFlag flag => s!"Unknown flag: '{String.ofList flag}'"
  | multipleRoots => "Multiple roots provided; expected exactly one"
  | missingRoot => "Missing required <root> argument"
  | notFolder root => s!"Not a directory: {String.ofList root}"
  | expectedRefs => "Expected <root> <file> <line>"
  | expectedFormat => "Expected <module> <path> <start> [end]"
  | invalidLine text => s!"Invalid line number: '{String.ofList text}'"
  | lineZero => "Line numbers are 1-based"
  | invalidRange first last =>
      s!"Invalid line range {first}-{last}: expected 1 <= start <= end"

structure ScanArguments where
  root : Text
  json : Bool
  sequential : Bool

structure RefsArguments where
  root : Text
  file : Text
  line : Nat
  json : Bool

structure FormatArguments where
  moduleName : Text
  relativePath : Text
  lines : LineRange

def isFlag (argument : Text) : Bool := argument.head? == some '-'

/-- Reads a line number: decimal digits after an optional plus sign, no larger than `maxLine`. -/
def lineNumber? (text : Text) : Option Nat :=
  let digits := match text with
    | '+' :: rest => rest
    | _ => text
  if digits ≠ [] ∧ digits.all Char.isDigit ∧ decimalValue digits ≤ maxLine then
    some (decimalValue digits)
  else none

def lineNumber (text : Text) : Except UsageError Nat :=
  match lineNumber? text with
  | some line => .ok line
  | none => .error (.invalidLine text)

def positional (flags : List String) : List Text → Except UsageError (List Text)
  | [] => .ok []
  | argument :: rest =>
      if flags.any fun flag => flag.toList == argument then positional flags rest
      else if isFlag argument then .error (.unknownFlag argument)
      else (positional flags rest).map (argument :: ·)

def rootArgument (flags : List String) (root? : Option Text) :
    List Text → Except UsageError (Option Text)
  | [] => .ok root?
  | argument :: rest =>
      if flags.any fun flag => flag.toList == argument then rootArgument flags root? rest
      else if isFlag argument then .error (.unknownFlag argument)
      else if root?.isSome then .error .multipleRoots
      else rootArgument flags (some argument) rest

def existingRoot (isFolder : Text → Bool) (flags : List String) (arguments : List Text) :
    Except UsageError Text := do
  match ← rootArgument flags none arguments with
  | none => throw .missingRoot
  | some root => if isFolder root then return root else throw (.notFolder root)

def hasFlag (flag : String) (arguments : List Text) : Bool :=
  arguments.any fun argument => flag.toList == argument

namespace ScanArguments

def parse (isFolder : Text → Bool) (arguments : List Text) : Except UsageError ScanArguments := do
  let root ← existingRoot isFolder ["--json", "--sequential"] arguments
  return { root, json := hasFlag "--json" arguments
           sequential := hasFlag "--sequential" arguments }

end ScanArguments

def watchRoot (isFolder : Text → Bool) (arguments : List Text) : Except UsageError Text :=
  existingRoot isFolder [] arguments

namespace RefsArguments

def parse (arguments : List Text) : Except UsageError RefsArguments := do
  match ← positional ["--json"] arguments with
  | [root, file, line] =>
      let line ← lineNumber line
      if line = 0 then throw .lineZero
      return { root, file, line, json := hasFlag "--json" arguments }
  | _ => throw .expectedRefs

end RefsArguments

namespace FormatArguments

def ofLines (moduleName relativePath : Text) (first last : Nat) :
    Except UsageError FormatArguments :=
  match LineRange.of? first last with
  | some lines => .ok { moduleName, relativePath, lines }
  | none => .error (.invalidRange first last)

def parse : List Text → Except UsageError FormatArguments
  | [moduleName, relativePath, start] => do
      let first ← lineNumber start
      ofLines moduleName relativePath first first
  | [moduleName, relativePath, start, stop] => do
      let first ← lineNumber start
      let last ← lineNumber stop
      ofLines moduleName relativePath first last
  | _ => .error .expectedFormat

def text (arguments : FormatArguments) : Text :=
  Pointer.render arguments.moduleName arguments.relativePath arguments.lines.first
    arguments.lines.last

end FormatArguments

end CodePointers
