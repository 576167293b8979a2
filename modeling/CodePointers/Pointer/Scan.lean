import CodePointers.Pointer

/-!
The pointers that stand in a longer text, leftmost first and each as long as it can be. A pointer
is `@` (optional), a module name, `/`, a path, `:L` and one or two numbers, all in ASCII.
-/

namespace CodePointers

/-- A piece of text that has the shape of a pointer, where it stands, and the line it begins on. -/
structure Occurrence where
  text : Text
  start : Nat
  stop : Nat
  line : Nat
deriving DecidableEq

def isModuleChar (char : Char) : Bool :=
  char.isAlphanum || char == '_' || char == '-'

def isPathChar (char : Char) : Bool :=
  isModuleChar char || char == '.' || char == '/' || char == '(' || char == ')'

namespace Occurrence

def lastLineLength : Text → Nat
  | '-' :: rest =>
      let digits := (rest.takeWhile Char.isDigit).length
      if digits = 0 then 0 else digits + 1
  | _ => 0

def suffixLength? : Text → Option Nat
  | ':' :: letter :: rest =>
      if letter = 'L' ∨ letter = 'l' then
        let digits := (rest.takeWhile Char.isDigit).length
        if digits = 0 then none else some (2 + digits + lastLineLength (rest.drop digits))
      else none
  | _ => none

def bodyLength? (text : Text) : Option Nat :=
  let moduleLength := (text.takeWhile isModuleChar).length
  if moduleLength = 0 then none
  else match text.drop moduleLength with
    | '/' :: rest =>
        let pathLength := (rest.takeWhile isPathChar).length
        if pathLength = 0 then none
        else (suffixLength? (rest.drop pathLength)).map (moduleLength + 1 + pathLength + ·)
    | _ => none

def length? : Text → Option Nat
  | '@' :: body => (bodyLength? body).map (· + 1)
  | body => bodyLength? body

/-- How many of the characters after the first can be passed over when no pointer begins there:
no pointer begins inside a module name that begins none. -/
def passedOver (char : Char) (rest : Text) : Nat :=
  if isModuleChar char then (rest.takeWhile isModuleChar).length else 0

def lineAfter (line : Nat) (char : Char) : Nat := if char = '\n' then line + 1 else line

/-- Scans a text of which the first characters are still to be passed over. -/
def scanFrom (pending offset line : Nat) : Text → List Occurrence
  | [] => []
  | char :: rest =>
      let next := offset + char.utf8Size
      let nextLine := lineAfter line char
      match pending with
      | pending + 1 => scanFrom pending next nextLine rest
      | 0 =>
          match length? (char :: rest) with
          | some length =>
              let text := (char :: rest).take length
              { text, start := offset, stop := offset + byteLength text, line } ::
                scanFrom (length - 1) next nextLine rest
          | none => scanFrom (passedOver char rest) next nextLine rest

def findAll (text : Text) : List Occurrence := scanFrom 0 0 1 text

end Occurrence

end CodePointers
