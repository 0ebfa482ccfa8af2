import Lifeline.Number.Binary64
import Lifeline.Text.Quoted

/-!
# Data

The values that documents hold: null, truth values, numbers, text, lists and maps. A map keeps its
entries in the order in which their keys first came (`Data.put`).
-/

namespace Lifeline

/-- A key of a map. Only configuration files have keys that are not text. -/
inductive Key where
  | text (s : String)
  | int (n : Int)
  /-- Any other scalar, as messages show it. -/
  | shown (s : String)
deriving Repr, DecidableEq

/-- A value of a document. -/
inductive Data where
  | null
  | bool (b : Bool)
  | int (n : Int)
  | float (x : Binary64)
  | text (s : String)
  /-- A calendar date or a point in time. -/
  | date (s : String)
  | list (items : List Data)
  | map (entries : List (Key × Data))
deriving Repr, Inhabited

namespace Data

abbrev Entries := List (Key × Data)

def find? (entries : Entries) (key : String) : Option Data :=
  (entries.find? fun e => e.1 == .text key).map (·.2)

/-- The entries with `value` at `key`: in place of the value there, or at the end. -/
def put (entries : Entries) (key : Key) (value : Data) : Entries :=
  if entries.any (·.1 == key) then
    entries.map fun e => if e.1 == key then (key, value) else e
  else entries ++ [(key, value)]

/-- A map of the given entries, of which the last one for a key counts. -/
def ofEntries (entries : Entries) : Data := .map (entries.foldl (fun es e => put es e.1 e.2) [])

/-- A map whose keys are text. -/
def record (entries : List (String × Data)) : Data := .map (entries.map fun e => (.text e.1, e.2))

def texts (xs : List String) : Data := .list (xs.map .text)

def optional : Option String → Data
  | some s => .text s
  | none => .null

def optionalInt : Option Int → Data
  | some n => .int n
  | none => .null

/-! ## How messages show data -/

/-- A key as messages show it. -/
def showKey : Key → String
  | .text s => Text.Packed.quoted s
  | .int n => toString n
  | .shown s => s

mutual

/-- A value as messages show it. -/
def display : Data → String
  | .null => "None"
  | .bool true => "True"
  | .bool false => "False"
  | .int n => toString n
  | .float x => x.text
  | .text s => Text.Packed.quoted s
  | .date s => s
  | .list items => "[" ++ Text.Packed.join ", " (displayItems items) ++ "]"
  | .map entries => "\x7b" ++ Text.Packed.join ", " (displayEntries entries) ++ "\x7d"

def displayItems : List Data → List String
  | [] => []
  | x :: xs => display x :: displayItems xs

def displayEntries : List (Key × Data) → List String
  | [] => []
  | (k, x) :: xs => (showKey k ++ ": " ++ display x) :: displayEntries xs

end

end Data

end Lifeline
