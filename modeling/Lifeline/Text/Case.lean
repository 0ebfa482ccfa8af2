import Lifeline.Text.Table.Case

/-!
# Upper and lower case

Case mappings letter by letter, on full Unicode, and the letters that count as one letter when case
is ignored (`sameLetter`).
-/

namespace Lifeline.Text

/-- The characters with the given code points. -/
private def ofCodes (codes : List Nat) : List Char := codes.map Char.ofNat

/-- The upper case of one character. -/
def upperChar (c : Char) : List Char :=
  let n := c.toNat
  if n < 128 then [c.toUpper]
  else
    match Table.toUpperMany.find? (·.1 == n) with
    | some (_, codes) => ofCodes codes
    | none => [((Shift.find? Table.toUpper n).map Char.ofNat).getD c]

/-- The lower case of one character. -/
def lowerChar (c : Char) : List Char :=
  let n := c.toNat
  if n < 128 then [c.toLower]
  else
    match Table.toLowerMany.find? (·.1 == n) with
    | some (_, codes) => ofCodes codes
    | none => [((Shift.find? Table.toLower n).map Char.ofNat).getD c]

def upper (cs : List Char) : List Char := cs.flatMap upperChar

def lower (cs : List Char) : List Char := cs.flatMap lowerChar

/-- Whether `c` is the lower-case ASCII letter `letter` when case is ignored. The dotted and the
dotless i, the long s and the kelvin sign count as i, s and k. -/
def sameLetter (letter c : Char) : Bool :=
  c == letter || c == letter.toUpper ||
    (letter == 'i' && (c.toNat == 0x130 || c.toNat == 0x131)) ||
    (letter == 's' && c.toNat == 0x17F) || (letter == 'k' && c.toNat == 0x212A)

/-- Whether `c` is some ASCII letter when case is ignored. -/
def isLetterAnyCase (c : Char) : Bool :=
  c.isUpper || c.isLower || c.toNat == 0x130 || c.toNat == 0x131 || c.toNat == 0x17F ||
    c.toNat == 0x212A

/-- What follows `word`, a word in lower-case ASCII letters, where the text starts with it when
case is ignored. -/
def dropWordAnyCase? : List Char → List Char → Option (List Char)
  | [], text => some text
  | _ :: _, [] => none
  | w :: ws, c :: cs => if sameLetter w c then dropWordAnyCase? ws cs else none

end Lifeline.Text

namespace Lifeline

def toLowerCase (s : String) : String := .ofList (Text.lower s.toList)

end Lifeline
