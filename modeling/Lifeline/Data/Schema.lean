import Lifeline.Data.Basic

/-!
# Checking data against a schema

A `Decoder` turns data into a typed value or into the list of everything that is wrong with it
(`Checked`): independent parts are checked all, and their faults come in the order of the parts.
Each fault has the path of keys and indexes to the value it is about.
-/

namespace Lifeline.Schema

/-- A step from a value to a part of it. -/
inductive Step where
  | key (name : String)
  | index (n : Int)
deriving Repr, DecidableEq

/-- What is wrong with a value. -/
inductive Cause where
  | missing
  | notText
  | notInt
  /-- Text that writes no whole number. -/
  | unreadableInt
  | fractional
  | notFinite
  | tooLarge
  | notBool
  /-- Text or a number that stands for no truth value. -/
  | unreadableBool
  | notList
  | notMap
  | notRecord
  /-- A value that is none of the alternatives of a tagged type. -/
  | notTagged
  | tagMissing
  | tagUnknown
  | notInEnum
  | notLiteral
  | unknownKey
  | keyNotText
  /-- A rule of the value's own that is broken. -/
  | rule (message : String)
deriving Repr, DecidableEq

def Cause.name : Cause → String
  | .missing => "missing"
  | .notText => "string_type"
  | .notInt => "int_type"
  | .unreadableInt => "int_parsing"
  | .fractional => "int_from_float"
  | .notFinite => "finite_number"
  | .tooLarge => "int_parsing_size"
  | .notBool => "bool_type"
  | .unreadableBool => "bool_parsing"
  | .notList => "list_type"
  | .notMap => "dict_type"
  | .notRecord => "model_type"
  | .notTagged => "model_attributes_type"
  | .tagMissing => "union_tag_not_found"
  | .tagUnknown => "union_tag_invalid"
  | .notInEnum => "enum"
  | .notLiteral => "literal_error"
  | .unknownKey => "extra_forbidden"
  | .keyNotText => "invalid_key"
  | .rule _ => "value_error"

/-- Something wrong with a part of a value. -/
structure Fault where
  path : List Step
  cause : Cause
deriving Repr, DecidableEq

/-! ## Checked values -/

/-- A value, or all that is wrong with the data it should come from. -/
inductive Checked (α : Type) where
  | ok (value : α)
  | faulty (faults : List Fault)
deriving Repr, DecidableEq

namespace Checked

variable {α β : Type}

/-- The value under a function. -/
def map (f : α → β) : Checked α → Checked β
  | ok a => ok (f a)
  | faulty fs => faulty fs

/-- A function applied to a value; the faults of both are kept. -/
def ap (f : Checked (α → β)) (a : Unit → Checked α) : Checked β :=
  match f, a () with
  | ok f, ok a => ok (f a)
  | ok _, faulty fs => faulty fs
  | faulty fs, ok _ => faulty fs
  | faulty fs, faulty gs => faulty (fs ++ gs)

/-- Outcomes combine side by side, so that the faults of all parts are reported together. -/
instance : Applicative Checked where
  pure := ok
  seq := ap

/-- A single fault at the value itself. -/
def fail (c : Cause) : Checked α := faulty [⟨[], c⟩]

/-- The outcome for a part, seen from the whole: paths begin with `step`. -/
def inside (step : Step) : Checked α → Checked α
  | ok a => ok a
  | faulty fs => faulty (fs.map fun f => { f with path := step :: f.path })

/-- The value under a check that needs it. -/
def bind (a : Checked α) (f : α → Checked β) : Checked β :=
  match a with
  | ok a => f a
  | faulty fs => faulty fs

/-- The values of all items, with all faults. -/
def all : List (Checked α) → Checked (List α)
  | [] => ok []
  | a :: rest => List.cons <$> a <*> all rest

end Checked

/-- Turns data into a typed value. -/
abbrev Decoder (α : Type) := Data → Checked α

/-! ## Scalars -/

def text : Decoder String
  | .text s => .ok s
  | _ => .fail .notText

/-- Whether a character is white space around a number. -/
def isSpace (c : Char) : Bool := Text.isBlank c && !(28 ≤ c.toNat && c.toNat ≤ 31)

/-- The whole number that text writes: digits with single underscores between them, possibly with a
sign, zeros after a point, and blanks around it all. -/
def intOfText? (s : String) : Option Int :=
  let cs := (((s.toList.dropWhile isSpace).reverse).dropWhile isSpace).reverse
  let (negative, cs) := match cs with
    | '-' :: rest => (true, rest)
    | '+' :: rest => (false, rest)
    | _ => (false, cs)
  let (whole, places) := Text.cut '.' cs
  let groups := Text.splitOn '_' whole
  if groups.all (fun g => !g.isEmpty && g.all Char.isDigit) && (places.getD []).all (· == '0') then
    let n : Int := (groups.flatten.foldl (fun n c => 10 * n + (c.toNat - 48)) 0 : Nat)
    some (if negative then -n else n)
  else none

/-- Whole numbers that are written as floating-point numbers stay below this bound, `2 ^ 63`. -/
def wholeBound : Int := 9223372036854775808

/-- The whole number that a floating-point number is. -/
def intOfFloat (x : Binary64) : Except Cause Int :=
  match x with
  | .nan | .infinite _ => .error .notFinite
  | _ =>
    match x.toInt? with
    | none => .error .fractional
    | some n => if -wholeBound < n && n < wholeBound then .ok n else .error .tooLarge

/-- A whole number, in any of its spellings. -/
def int : Decoder Int
  | .int n => .ok n
  | .bool b => .ok (if b then 1 else 0)
  | .float x =>
    match intOfFloat x with
    | .ok n => .ok n
    | .error c => .fail c
  | .text s =>
    match intOfText? s with
    | some n => .ok n
    | none => .fail .unreadableInt
  | _ => .fail .notInt

/-- The truth value that text stands for. -/
def boolOfText? (s : String) : Option Bool :=
  let word := String.ofList (s.toList.map Char.toLower)
  if ["0", "off", "f", "false", "n", "no"].contains word then some false
  else if ["1", "on", "t", "true", "y", "yes"].contains word then some true
  else none

/-- The truth value that a whole number stands for. -/
def boolOfInt (n : Int) : Checked Bool :=
  if n == 0 then .ok false else if n == 1 then .ok true else .fail .unreadableBool

/-- A truth value, in any of its spellings. -/
def bool : Decoder Bool
  | .bool b => .ok b
  | .int n => boolOfInt n
  | .float x =>
    match intOfFloat x with
    | .ok n => boolOfInt n
    | .error _ => .fail .notBool
  | .text s =>
    match boolOfText? s with
    | some b => .ok b
    | none => .fail .unreadableBool
  | _ => .fail .notBool

/-- A value or null. -/
def optional {α : Type} (d : Decoder α) : Decoder (Option α)
  | .null => .ok none
  | x => some <$> d x

/-- One of the values that a table gives to texts. -/
def oneOf {α : Type} (cause : Cause) (table : List (String × α)) : Decoder α
  | .text s =>
    match table.lookup s with
    | some a => .ok a
    | none => .fail cause
  | _ => .fail cause

/-! ## Lists, maps and records -/

def list {α : Type} (d : Decoder α) : Decoder (List α)
  | .list items => .all (items.zipIdx.map fun (x, i) => (d x).inside (.index i))
  | _ => .fail .notList

/-- The step to the value at a key. -/
def Step.ofKey : Key → Step
  | .text s => .key s
  | .int n => .index n
  | .shown s => .key s

/-- A key of a map from text to text, with its value. -/
def textEntry (e : Key × Data) : Checked (String × String) :=
  let key : Checked String := match e.1 with
    | .text s => .ok s
    | k => (Checked.fail Cause.notText).inside (.key "[key]") |>.inside (Step.ofKey k)
  Prod.mk <$> key <*> (text e.2).inside (Step.ofKey e.1)

/-- A map from text to text. -/
def textMap : Decoder (List (String × String))
  | .map entries => .all (entries.map textEntry)
  | _ => .fail .notMap

/-- A record: a map whose entries are the fields. -/
def record {α : Type} (fields : Data.Entries → Checked α) : Decoder α
  | .map entries => fields entries
  | _ => .fail .notRecord

/-- A field that must be there. -/
def required {α : Type} (entries : Data.Entries) (name : String) (d : Decoder α) : Checked α :=
  match Data.find? entries name with
  | some x => (d x).inside (.key name)
  | none => (Checked.fail .missing).inside (.key name)

/-- A field with a value for when it is not there. -/
def field {α : Type} (entries : Data.Entries) (name : String) (default : α) (d : Decoder α) :
    Checked α :=
  match Data.find? entries name with
  | some x => (d x).inside (.key name)
  | none => .ok default

/-- The name of a field in a configuration file, with a second spelling that is accepted where the
first is not there. -/
structure FieldName where
  name : String
  other : Option String := none
deriving Repr, DecidableEq

/-- The spelling that a record uses for a field, and the value there. -/
def FieldName.find? (f : FieldName) (entries : Data.Entries) : Option (String × Data) :=
  match Data.find? entries f.name with
  | some x => some (f.name, x)
  | none => f.other.bind fun other => (Data.find? entries other).map (other, ·)

/-- A field of either spelling, with a value for when it is not there. -/
def fieldNamed {α : Type} (entries : Data.Entries) (f : FieldName) (default : α) (d : Decoder α) :
    Checked α :=
  match f.find? entries with
  | some (key, x) => (d x).inside (.key key)
  | none => .ok default

/-- Checks that a record has no keys but those of the given fields. -/
def closed (fields : List FieldName) (entries : Data.Entries) : Checked Unit :=
  let used := fields.filterMap fun f => (f.find? entries).map (·.1)
  let faults := entries.filterMap fun (key, _) =>
    match key with
    | .text s => if used.contains s then none else some { path := [.key s], cause := .unknownKey }
    | k => some { path := [Step.ofKey k], cause := .keyNotText }
  if faults.isEmpty then .ok () else .faulty faults

/-- A value of one of several record types, told apart by the text at the key `kind`. The path of a
fault inside a record goes through its tag. -/
def tagged {α : Type} (alternatives : List (String × (Data.Entries → Checked α))) : Decoder α
  | .map entries =>
    match Data.find? entries "kind" with
    | none => .fail .tagMissing
    | some (.text tag) =>
      match alternatives.lookup tag with
      | some fields => (fields entries).inside (.key tag)
      | none => .fail .tagUnknown
    | some _ => .fail .tagUnknown
  | _ => .fail .notTagged

end Lifeline.Schema
