import MicroC.Json.Basic

/-!
The text of a JSON value, on one line or with every item on a line of its own.
-/

namespace MicroC.Json

inductive Style where
  | compact
  /-- Two blanks for each level, and a blank after a colon. -/
  | pretty
  deriving DecidableEq

namespace Style

/-- What stands before an item, and before the end of a list of items, at a
depth. -/
def lineBreak : Style → Nat → List Char
  | compact, _ => []
  | pretty, depth => '\n' :: List.replicate (2 * depth) ' '

def colon : Style → List Char
  | compact => [':']
  | pretty => [':', ' ']

end Style

/-- Quotes, backslashes and control characters are escaped; all else stands
for itself. -/
def escape (c : Char) : List Char :=
  match c with
  | '"' => ['\\', '"']
  | '\\' => ['\\', '\\']
  | '\x08' => ['\\', 'b']
  | '\x0c' => ['\\', 'f']
  | '\n' => ['\\', 'n']
  | '\r' => ['\\', 'r']
  | '\t' => ['\\', 't']
  | c =>
      if c.toNat < 0x20 then
        ['\\', 'u', '0', '0', (c.toNat / 16).digitChar, (c.toNat % 16).digitChar]
      else [c]

def quoted (s : String) : List Char := '"' :: s.toList.flatMap escape ++ ['"']

mutual

def write (style : Style) (depth : Nat) : Json → List Char
  | null => "null".toList
  | bool true => "true".toList
  | bool false => "false".toList
  | integer n => (toString n).toList
  | decimal spelling => spelling.toList
  | string s => quoted s
  | array [] => ['[', ']']
  | array (item :: rest) =>
      '[' :: writeItems style (depth + 1) (item :: rest) ++ style.lineBreak depth ++ [']']
  | object [] => ['{', '}']
  | object (entry :: rest) =>
      '{' :: writeMembers style (depth + 1) (entry :: rest) ++ style.lineBreak depth ++ ['}']

def writeItems (style : Style) (depth : Nat) : List Json → List Char
  | [] => []
  | [item] => style.lineBreak depth ++ write style depth item
  | item :: rest =>
      style.lineBreak depth ++ write style depth item ++ ',' :: writeItems style depth rest

def writeMembers (style : Style) (depth : Nat) : List (String × Json) → List Char
  | [] => []
  | [(name, value)] =>
      style.lineBreak depth ++ quoted name ++ style.colon ++ write style depth value
  | (name, value) :: rest =>
      style.lineBreak depth ++ quoted name ++ style.colon ++ write style depth value ++
        ',' :: writeMembers style depth rest

end

def compact (j : Json) : String := .ofList (j.write .compact 0)

def pretty (j : Json) : String := .ofList (j.write .pretty 0)

end MicroC.Json
