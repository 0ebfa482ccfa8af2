import Lifeline.Text.Char

/-!
# Places in a YAML document

What is left of a document together with the line and the column it starts at (`Yaml.Cursor`), and
the classes of characters that end words and lines.
-/

namespace Lifeline.Yaml

/-- Characters that end a line. -/
def isBreak (c : Char) : Bool :=
  c == '\n' || c == '\r' || c.toNat == 0x85 || c.toNat == 0x2028 || c.toNat == 0x2029

/-- Characters that stand between words. -/
def isGap (c : Char) : Bool := c == ' ' || c == '\t' || isBreak c

/-- Whether a word ends here. -/
def endsWord (next : Option Char) : Bool := next.all isGap

/-- Characters that a document may hold. -/
def isAllowed (c : Char) : Bool :=
  let n := c.toNat
  n == 9 || n == 10 || n == 13 || (0x20 ≤ n && n ≤ 0x7E) || n == 0x85 ||
    (0xA0 ≤ n && n ≤ 0xD7FF) || (0xE000 ≤ n && n ≤ 0xFFFD) || 0x10000 ≤ n

/-- A place in a document: the text that is left, and how many characters, lines, and characters of
the line come before it. -/
structure Cursor where
  rest : List Char
  index : Nat := 0
  line : Nat := 0
  column : Nat := 0
deriving Repr

namespace Cursor

def peek (c : Cursor) : Option Char := c.rest.head?

/-- The place after the next character. A byte order mark takes no column. -/
def advance (c : Cursor) : Cursor :=
  match c.rest with
  | [] => c
  | x :: rest =>
    if isBreak x && !(x == '\r' && rest.head? == some '\n') then
      { rest, index := c.index + 1, line := c.line + 1, column := 0 }
    else
      { rest, index := c.index + 1, line := c.line
        column := if x.toNat == 0xFEFF then c.column else c.column + 1 }

/-- The place after some characters. -/
def advanceBy (c : Cursor) : Nat → Cursor
  | 0 => c
  | n + 1 => c.advance.advanceBy n

/-- The characters of a class that come next. -/
def take (p : Char → Bool) (c : Cursor) : List Char := c.rest.takeWhile p

/-- The place after the characters of a class that come next. -/
def skip (p : Char → Bool) (c : Cursor) : Cursor := c.advanceBy (c.take p).length

/-- The place after the blanks and the comment that come next on a line. -/
def skipComment (c : Cursor) : Cursor :=
  let c := c.skip (· == ' ')
  if c.peek == some '#' then c.skip (!isBreak ·) else c

/-- The line break that comes next, as it is read, and the place after it. -/
def lineBreak? (c : Cursor) : Option (Char × Cursor) :=
  match c.rest with
  | '\r' :: '\n' :: _ => some ('\n', c.advanceBy 2)
  | x :: _ =>
    if isBreak x then
      some (if x.toNat == 0x2028 || x.toNat == 0x2029 then x else '\n', c.advance)
    else none
  | [] => none

/-- Whether a mark of three equal characters comes next and ends there. -/
def atMark (mark : Char) (c : Cursor) : Bool :=
  match c.rest with
  | x :: y :: z :: rest => x == mark && y == mark && z == mark && endsWord rest.head?
  | _ => false

/-- Whether a mark that ends a document comes next. -/
def atDocumentMark (c : Cursor) : Bool := c.atMark '-' || c.atMark '.'

end Cursor

end Lifeline.Yaml
