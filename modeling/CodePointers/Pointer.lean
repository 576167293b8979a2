import CodePointers.LineRange

/-!
Code pointers such as `@module/path/to/file.ts:L10-15`: how one is written and how a single one is
read. Reading accepts an optional `@`, either case of the `L` and leading zeros.
-/

namespace CodePointers

structure Pointer where
  moduleName : Text
  relativePath : Text
  lines : LineRange
deriving DecidableEq

def maxLine : Nat := 4294967295

inductive PointerError where
  | missingSuffix
  | startTooLarge (digits : Text)
  | endTooLarge (digits : Text)
  | badRange (first last : Nat)
deriving DecidableEq

namespace PointerError

def reason : PointerError → String
  | missingSuffix => "missing :L<line> suffix"
  | startTooLarge digits =>
      s!"bad start line '{String.ofList digits}': number too large to fit in target type"
  | endTooLarge digits =>
      s!"bad end line '{String.ofList digits}': number too large to fit in target type"
  | badRange first last => s!"line range {first}-{last} is not a 1-based ascending range"

def message (text : Text) (error : PointerError) : String :=
  s!"Invalid pointer '{String.ofList text}': {error.reason}"

end PointerError

namespace Pointer

def render (moduleName relativePath : Text) (first last : Nat) : Text :=
  '@' :: moduleName ++ '/' :: relativePath ++ ':' :: LineRange.labelOf first last

def text (pointer : Pointer) : Text :=
  render pointer.moduleName pointer.relativePath pointer.lines.first pointer.lines.last

def withoutMark : Text → Text
  | '@' :: body => body
  | body => body

/-- The digit groups of `L12` or `L12-15`, read to the end of the text. -/
def lineDigits? : Text → Option (Text × Option Text)
  | [] => none
  | letter :: rest =>
      if letter = 'L' ∨ letter = 'l' then
        let start := rest.takeWhile Char.isDigit
        if start = [] then none
        else match rest.dropWhile Char.isDigit with
          | [] => some (start, none)
          | '-' :: stop =>
              if stop ≠ [] ∧ stop.all Char.isDigit then some (start, some stop) else none
          | _ => none
      else none

def splitSuffix? (body : Text) : Option (Text × Text × Option Text) := do
  let (location, suffix) ← splitLast? ':' body
  let (start, stop) ← lineDigits? suffix
  return (location, start, stop)

def splitLocation (location : Text) : Text × Text :=
  (location.takeWhile (· ≠ '/'), (location.dropWhile (· ≠ '/')).drop 1)

def parse (text : Text) : Except PointerError Pointer :=
  match splitSuffix? (withoutMark text) with
  | none => .error .missingSuffix
  | some (location, start, stop) =>
      let first := decimalValue start
      let last := (stop.map decimalValue).getD first
      if maxLine < first then .error (.startTooLarge start)
      else if maxLine < last then .error (.endTooLarge (stop.getD start))
      else match LineRange.of? first last with
        | none => .error (.badRange first last)
        | some lines =>
            let (moduleName, relativePath) := splitLocation location
            .ok { moduleName, relativePath, lines }

def warnings (text : Text) : List String :=
  match parse text with
  | .ok _ => []
  | .error error => [error.message text]

end Pointer

end CodePointers
