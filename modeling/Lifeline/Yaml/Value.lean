import Lifeline.Data.Basic
import Lifeline.Pattern.Reader
import Lifeline.Text.Case
import Lifeline.Yaml.Node

/-!
# The values of a YAML document

A document as data (`Yaml.parse?`). A plain text is a truth value, a number, a date or null where it
is written like one, and text otherwise. Of several entries of a map with one key the last one
counts. A map takes over the entries of the maps at its key `<<`, where it has none of its own.
-/

namespace Lifeline.Yaml

/-! ## Plain texts -/

/-- How whole numbers are written: in binary, octal, decimal or hexadecimal digits, or as minutes
and seconds. -/
def intPattern : Option Pattern := Pattern.parse?
  ("\\A(?:[-+]?0b[0-1_]+|[-+]?0[0-7_]+|[-+]?(?:0|[1-9][0-9_]*)|[-+]?0x[0-9a-fA-F_]+|" ++
    "[-+]?[1-9][0-9_]*(?::[0-5]?[0-9])+)\\Z")

/-- How other numbers are written. An exponent has a sign. -/
def floatPattern : Option Pattern := Pattern.parse?
  ("\\A(?:[-+]?(?:[0-9][0-9_]*)\\.[0-9_]*(?:[eE][-+][0-9]+)?|" ++
    "\\.[0-9][0-9_]*(?:[eE][-+][0-9]+)?|" ++
    "[-+]?[0-9][0-9_]*(?::[0-5]?[0-9])+\\.[0-9_]*|" ++
    "[-+]?\\.(?:inf|Inf|INF)|\\.(?:nan|NaN|NAN))\\Z")

/-- How dates and points in time are written. -/
def datePattern : Option Pattern := Pattern.parse?
  ("\\A(?:[0-9][0-9][0-9][0-9]-[0-9][0-9]-[0-9][0-9]|" ++
    "[0-9][0-9][0-9][0-9]-[0-9][0-9]?-[0-9][0-9]?(?:[Tt]|[ \\t]+)[0-9][0-9]?" ++
    ":[0-9][0-9]:[0-9][0-9](?:\\.[0-9]*)?(?:[ \\t]*(?:Z|[-+][0-9][0-9]?(?::[0-9][0-9])?))?)\\Z")

/-- Whether a text is written as a pattern says. -/
def fits (p : Option Pattern) (text : String) : Bool := p.any (·.occursIn text.toList)

def trueWords : List String :=
  ["yes", "Yes", "YES", "true", "True", "TRUE", "on", "On", "ON"]

def falseWords : List String :=
  ["no", "No", "NO", "false", "False", "FALSE", "off", "Off", "OFF"]

def nullWords : List String := ["", "~", "null", "Null", "NULL"]

/-- The sign of a number, and its digits. Underscores between them mean nothing. -/
def signAndDigits (text : String) : Bool × List Char :=
  match text.toList.filter (· != '_') with
  | '-' :: rest => (true, rest)
  | '+' :: rest => (false, rest)
  | rest => (false, rest)

/-- The number that digits of a base write. -/
def natOfDigits (base : Nat) (digits : List Char) : Nat :=
  digits.foldl (fun n c => base * n + (Json.hexValue? c).getD 0) 0

/-- The number that hours, minutes and seconds write. -/
def natOfParts (digits : List Char) : Nat :=
  (Text.splitOn ':' digits).foldl (fun n part => 60 * n + Json.natOf part) 0

/-- The value of a whole number. -/
def intOf (text : String) : Int :=
  let (negative, digits) := signAndDigits text
  let n := match digits with
    | '0' :: 'b' :: rest => natOfDigits 2 rest
    | '0' :: 'x' :: rest => natOfDigits 16 rest
    | '0' :: rest => natOfDigits 8 rest
    | _ => natOfParts digits
  if negative then -n else n

/-- The value of another number. -/
def floatOf (text : String) : Binary64 :=
  let (negative, written) := signAndDigits text
  match written with
  | '.' :: 'i' :: _ | '.' :: 'I' :: _ => .infinite negative
  | '.' :: 'n' :: _ | '.' :: 'N' :: _ => .nan
  | _ =>
    let (whole, rest) := Text.cut '.' written
    let places := ((rest.getD []).takeWhile Char.isDigit)
    let exponent := ((Json.readExponent? ((rest.getD []).dropWhile Char.isDigit)).map (·.1)).getD 0
    let digits := natOfParts whole * Nat.pow 10 places.length + Json.natOf places
    .ofDecimal negative digits (exponent - places.length)

/-- The value of a plain text. A mark for merging or for a default stands for no value. -/
def plainValue? (text : String) : Option Data :=
  if trueWords.contains text then some (.bool true)
  else if falseWords.contains text then some (.bool false)
  else if fits floatPattern text then some (.float (floatOf text))
  else if fits intPattern text then some (.int (intOf text))
  else if nullWords.contains text then some .null
  else if fits datePattern text then some (.date text)
  else if text == "<<" || text == "=" then none
  else some (.text text)

/-! ## Nodes -/

/-- The value of a text with a tag. A tag must fit the text. -/
def scalarValue? (tag : Option Tag) (plain : Bool) (text : String) : Option Data :=
  match tag with
  | none => if plain then plainValue? text else some (.text text)
  | some .open => plainValue? text
  | some .text => some (.text text)
  | some .null => some .null
  | some .int => if fits intPattern text then some (.int (intOf text)) else none
  | some .float =>
    if fits floatPattern text then some (.float (floatOf text))
    else if fits intPattern text then
      let i := intOf text
      some (.float (.ofDecimal (i < 0) i.natAbs 0))
    else none
  | some .bool =>
    let word := toLowerCase text
    if trueWords.contains word then some (.bool true)
    else if falseWords.contains word then some (.bool false)
    else none
  | some .list | some .map | some .unknown => none

/-- The key that a value is. Lists and maps are no keys. -/
def keyOf? : Data → Option Key
  | .text s => some (.text s)
  | .int n => some (.int n)
  | .bool b => some (.int (if b then 1 else 0))
  | .list _ | .map _ => none
  | x => some (.shown x.display)

/-- The entries that a map takes over from a map, or from a list of maps of which the first ones
count. -/
def mergedEntries? : Data → Option Data.Entries
  | .map entries => some entries
  | .list items => items.reverse.foldlM (fun es x =>
      match x with
      | .map more => some (es ++ more)
      | _ => none) []
  | _ => none

/-- Whether a node is the key whose value is taken over. -/
def Node.isMerge : Node → Bool
  | .scalar none true "<<" => true
  | _ => false

/-- Whether a node is the mark for a default, which is a text where it is a key. -/
def Node.isDefault : Node → Bool
  | .scalar none true "=" => true
  | _ => false

mutual

def Node.toData? : Node → Option Data
  | .scalar tag plain text => scalarValue? tag plain text
  | .list tag items =>
    if tag.all fun t => t == .open || t == .list then (itemsToData? items).map .list else none
  | .map tag entries =>
    if tag.all fun t => t == .open || t == .map then do
      let (merged, own) ← entriesToData? entries
      return Data.ofEntries (merged ++ own)
    else none

def itemsToData? : List Node → Option (List Data)
  | [] => some []
  | n :: rest => do return (← n.toData?) :: (← itemsToData? rest)

/-- The entries that a map takes over, and those of its own. -/
def entriesToData? : List (Node × Node) → Option (Data.Entries × Data.Entries)
  | [] => some ([], [])
  | (key, value) :: rest => do
    let x ← value.toData?
    if key.isMerge then
      let entries ← mergedEntries? x
      let (merged, own) ← entriesToData? rest
      return (entries ++ merged, own)
    else
      let k ← if key.isDefault then some (.text "=") else (← key.toData?) |> keyOf?
      let (merged, own) ← entriesToData? rest
      return (merged, (k, x) :: own)

end

/-- The value of a document; null, where it is empty. -/
def parse? (text : String) : Option Data := do
  match ← Node.ofTokens? (← tokens? text.toList).toList with
  | some n => n.toData?
  | none => some .null

end Lifeline.Yaml
