import CodePointers.Text

/-!
JSON values as reports write them, indented by two blanks per level. Members keep their order, and
only quotes, backslashes and control characters are escaped.
-/

namespace CodePointers

inductive Json where
  | number (value : Nat)
  | boolean (value : Bool)
  | string (text : Text)
  | array (items : List Json)
  | object (members : List (String × Json))

namespace Json

def hexDigits (code : Nat) : Text := [Nat.digitChar (code / 16), Nat.digitChar (code % 16)]

def escape (char : Char) : Text :=
  if char = '"' then ['\\', '"']
  else if char = '\\' then ['\\', '\\']
  else if char = '\n' then ['\\', 'n']
  else if char = '\r' then ['\\', 'r']
  else if char = '\t' then ['\\', 't']
  else if char = '\x08' then ['\\', 'b']
  else if char = '\x0c' then ['\\', 'f']
  else if char.toNat < 0x20 then ['\\', 'u', '0', '0'] ++ hexDigits char.toNat
  else [char]

def quoted (text : Text) : Text := '"' :: text.flatMap escape ++ ['"']

def newLine (level : Nat) : Text := '\n' :: List.replicate (2 * level) ' '

mutual

def render (level : Nat) : Json → Text
  | number value => decimal value
  | boolean value => if value then ['t', 'r', 'u', 'e'] else ['f', 'a', 'l', 's', 'e']
  | string text => quoted text
  | array [] => ['[', ']']
  | array (first :: rest) =>
      '[' :: newLine (level + 1) ++ render (level + 1) first ++ renderItems (level + 1) rest ++
        newLine level ++ [']']
  | object [] => ['\x7b', '\x7d']
  | object ((name, first) :: rest) =>
      '\x7b' :: newLine (level + 1) ++ quoted name.toList ++ [':', ' '] ++
        render (level + 1) first ++ renderMembers (level + 1) rest ++ newLine level ++ ['\x7d']

def renderItems (level : Nat) : List Json → Text
  | [] => []
  | item :: rest => ',' :: newLine level ++ render level item ++ renderItems level rest

def renderMembers (level : Nat) : List (String × Json) → Text
  | [] => []
  | (name, value) :: rest =>
      ',' :: newLine level ++ quoted name.toList ++ [':', ' '] ++ render level value ++
        renderMembers level rest

end

def pretty (value : Json) : String := String.ofList (value.render 0)

end Json

end CodePointers
