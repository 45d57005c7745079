import MicroC.Unicode.WhiteSpace

/-!
Layout is what may stand between tokens: white space, comments from two
slashes to the end of the line, and comments from a slash and a star to the
next star and slash. A comment that is never closed is no layout.
-/

namespace MicroC.Layout

open Unicode (isWhiteSpace)

inductive Mode where
  | between
  | lineComment
  /-- Inside a comment that began after `opened` characters. -/
  | blockComment (opened : Nat)
  deriving DecidableEq

/-- How many characters of layout a text begins with, where `count` of them
are behind already. -/
def scan : Mode → Nat → List Char → Nat
  | .between, count, [] => count
  | .between, count, '/' :: '/' :: rest => scan .lineComment (count + 2) rest
  | .between, count, '/' :: '*' :: rest => scan (.blockComment count) (count + 2) rest
  | .between, count, c :: rest => if isWhiteSpace c then scan .between (count + 1) rest else count
  | .lineComment, count, [] => count
  | .lineComment, count, '\n' :: rest => scan .between (count + 1) rest
  | .lineComment, count, _ :: rest => scan .lineComment (count + 1) rest
  | .blockComment opened, _, [] => opened
  | .blockComment _, count, '*' :: '/' :: rest => scan .between (count + 2) rest
  | .blockComment opened, count, _ :: rest => scan (.blockComment opened) (count + 1) rest

/-- How many characters of layout a text begins with. -/
def length (text : List Char) : Nat := scan .between 0 text

end MicroC.Layout
