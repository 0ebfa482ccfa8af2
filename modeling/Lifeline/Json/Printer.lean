import Lifeline.Data.Basic

/-!
# Writing JSON

Data as JSON on one line, with no blanks and nothing but ASCII: any other character is written by
its UTF-16 units.
-/

namespace Lifeline.Json

/-- A UTF-16 unit as an escape. -/
def escapeUnit (n : Nat) : List Char := '\\' :: 'u' :: Text.hex 4 n

/-- One character inside a string. -/
def escapeChar (c : Char) : List Char :=
  if c == '"' then ['\\', '"']
  else if c == '\\' then ['\\', '\\']
  else if c == '\n' then ['\\', 'n']
  else if c == '\r' then ['\\', 'r']
  else if c == '\t' then ['\\', 't']
  else if c.toNat == 8 then ['\\', 'b']
  else if c.toNat == 12 then ['\\', 'f']
  else if 32 ≤ c.toNat && c.toNat < 127 then [c]
  else if c.toNat < 0x10000 then escapeUnit c.toNat
  else
    let n := c.toNat - 0x10000
    escapeUnit (0xD800 + n / 0x400) ++ escapeUnit (0xDC00 + n % 0x400)

/-- What stands between the quotes of a string. -/
def escape (s : String) : String := .ofList (s.toList.flatMap escapeChar)

def quote (s : String) : String := "\"" ++ escape s ++ "\""

mutual

/-- A value as JSON. -/
def print : Data → String
  | .null => "null"
  | .bool true => "true"
  | .bool false => "false"
  | .int n => toString n
  | .float .nan => "NaN"
  | .float (.infinite false) => "Infinity"
  | .float (.infinite true) => "-Infinity"
  | .float x => x.text
  | .text s => quote s
  | .date s => quote s
  | .list items => "[" ++ Text.Packed.join "," (printItems items) ++ "]"
  | .map entries => "\x7b" ++ Text.Packed.join "," (printEntries entries) ++ "\x7d"

def printItems : List Data → List String
  | [] => []
  | x :: xs => print x :: printItems xs

def printEntries : List (Key × Data) → List String
  | [] => []
  | (key, x) :: xs => (quote (keyText key) ++ ":" ++ print x) :: printEntries xs
where
  keyText : Key → String
    | .text s => s
    | .int n => toString n
    | .shown s => s

end

end Lifeline.Json
