import Lifeline.Text.Table.Identifier
import Lifeline.Text.Table.Printable
import Lifeline.Text.Table.Word

/-!
# Character classes

Blanks, line breaks, word characters, decimal digits, identifier characters and printable
characters, on full Unicode. The ASCII half of each class is written out, so that it computes
without the tables.
-/

namespace Lifeline.Text

/-- White space, the information separators U+001C to U+001F included. -/
def isBlank (c : Char) : Bool :=
  let n := c.toNat
  (9 ≤ n && n ≤ 13) || (28 ≤ n && n ≤ 32) || n == 0x85 || n == 0xA0 || n == 0x1680 ||
    (0x2000 ≤ n && n ≤ 0x200A) || n == 0x2028 || n == 0x2029 || n == 0x202F || n == 0x205F ||
    n == 0x3000

/-- Characters that end a line. -/
def isLineBreak (c : Char) : Bool :=
  let n := c.toNat
  (10 ≤ n && n ≤ 13) || (28 ≤ n && n ≤ 30) || n == 0x85 || n == 0x2028 || n == 0x2029

/-- ASCII letters. -/
def isAsciiLetter (c : Char) : Bool := c.isUpper || c.isLower

/-- ASCII letters and digits. -/
def isAsciiAlnum (c : Char) : Bool := c.isUpper || c.isLower || c.isDigit

/-- Letters, numbers and the underscore. -/
def isWord (c : Char) : Bool :=
  if c.toNat < 128 then isAsciiAlnum c || c == '_' else Table.word.has c.toNat

/-- Decimal digits of any script. -/
def isDecimal (c : Char) : Bool :=
  if c.toNat < 128 then c.isDigit else Table.decimal.has c.toNat

/-- The value of a decimal digit. Digits of one script follow each other from zero to nine. -/
def decimalValue (c : Char) : Nat :=
  if c.toNat < 128 then c.toNat - '0'.toNat
  else
    match Table.decimal.find? fun (first, last) => first ≤ c.toNat && c.toNat ≤ last with
    | some (first, _) => (c.toNat - first) % 10
    | none => 0

/-- An ASCII letter or the underscore: what starts a name in a diagram. -/
def isNameStart (c : Char) : Bool := isAsciiLetter c || c == '_'

/-- What starts an identifier of any script. -/
def isIdentifierStart (c : Char) : Bool :=
  if c.toNat < 128 then isNameStart c
  else (Table.word.has c.toNat && !Table.notStart.has c.toNat) || Table.extraStart.has c.toNat

/-- What continues an identifier of any script. -/
def isIdentifierPart (c : Char) : Bool :=
  if c.toNat < 128 then isAsciiAlnum c || c == '_'
  else
    (Table.word.has c.toNat && !Table.notContinue.has c.toNat) || Table.extraContinue.has c.toNat

/-- Characters that quoted text shows as themselves. -/
def isPrintable (c : Char) : Bool :=
  if c.toNat < 128 then 32 ≤ c.toNat && c.toNat < 127 else Table.printable.has c.toNat

/-- Whether the text is an identifier: not empty, and every character in its place. -/
def isIdentifier : List Char → Bool
  | [] => false
  | c :: cs => isIdentifierStart c && cs.all isIdentifierPart

end Lifeline.Text
