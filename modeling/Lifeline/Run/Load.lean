import Lifeline.Profile.Load
import Lifeline.Run.Config
import Lifeline.Sorting

/-!
# Configurations in files

The configuration of a run from a YAML file of a directory (`Run.Config.load`). Of several faults
the one in the field that is read first is reported: fields that mean nothing, the profile, the
inputs, the base of the names of modules, and then the others.
-/

namespace Lifeline.Run.Config

/-- Why a file is no configuration. All but the first three and the last are about the file named
`path`. -/
inductive LoadError where
  | missing (path : String)
  | unreadable
  /-- The file is not text, or no file has such a path. -/
  | fault (f : Store.Fault)
  | malformed (path : String)
  | notMap (path : String)
  | unknownFields (path : String) (names : List String)
  | notText (path field : String)
  | notTruth (path field : String)
  | notTexts (path field : String)
  | notDotted (path field : String)
  | profile (path : String) (e : Profile.LoadError)
  /-- A field that means nothing is not even named by a text. -/
  | unnamedField
deriving Repr, DecidableEq

namespace LoadError

/-- What is said about a file that is no configuration, where something is. -/
def message? : LoadError → Option String
  | .missing path => some s!"Run config file not found: {path}"
  | .unreadable => some "Cannot read run config file: ..."
  | .fault f => f.message?
  | .malformed path => some s!"Invalid YAML in {path}: ..."
  | .notMap path => some s!"{path}: run config must be a YAML mapping"
  | .unknownFields path names =>
    some (path ++ ": unknown field(s): " ++ Text.Packed.join ", " names)
  | .notText path field => some s!"{path}: '{field}' must be a string"
  | .notTruth path field => some s!"{path}: '{field}' must be true or false"
  | .notTexts path field => some s!"{path}: '{field}' must be a list of strings"
  | .notDotted path field => some s!"{path}: '{field}' must be a dotted identifier"
  | .profile path e =>
    match e with
    | .fault f => f.message?
    | _ => e.message?.map ((path ++ ": ") ++ ·)
  | .unnamedField => none

def faults : LoadError → List Schema.Fault
  | .profile _ e => e.faults
  | _ => []

end LoadError

/-! ## Fields -/

/-- The fields of a configuration. -/
def fieldNames : List String :=
  ["base-namespace", "profile", "method-name", "external-inputs", "allow-deep-nesting",
    "strict-bindings", "dry-run"]

/-- Checks that there are no fields but those of a configuration. -/
def checkFields (path : String) (entries : Data.Entries) : Except LoadError Unit :=
  let unknown := entries.filter fun e => !fieldNames.any fun name => e.1 == .text name
  let names := unknown.filterMap fun e => match e.1 with
    | .text s => some s
    | _ => none
  if unknown.isEmpty then .ok ()
  else if names.length < unknown.length then .error .unnamedField
  else .error (.unknownFields path (sortBy (fun a b => a ≤ b) names))

/-- A field that holds text. -/
def textField (path : String) (entries : Data.Entries) (field default : String) :
    Except LoadError String :=
  match Data.find? entries field with
  | none => .ok default
  | some (.text s) => .ok s
  | some _ => .error (.notText path field)

/-- A field that holds a truth value. -/
def truthField (path : String) (entries : Data.Entries) (field : String) :
    Except LoadError Bool :=
  match Data.find? entries field with
  | none => .ok false
  | some (.bool b) => .ok b
  | some _ => .error (.notTruth path field)

/-- A field that holds a list of texts. -/
def textsField (path : String) (entries : Data.Entries) (field : String) :
    Except LoadError (Option (List String)) :=
  match Data.find? entries field with
  | none => .ok none
  | some x =>
    match Schema.list Schema.text x with
    | .ok texts => .ok (some texts)
    | .faulty _ => .error (.notTexts path field)

/-- The profile that a field names, in a file of the root. -/
def profileField (d : Store.Directory) (path : String) (root : Store.Path)
    (entries : Data.Entries) : Except LoadError Profile :=
  if (Data.find? entries "profile").isNone then .ok .builtin
  else do
    let file ← textField path entries "profile" ""
    match Profile.load d (root.append (.ofString file)) with
    | .ok p => return p
    | .error e => throw (.profile path e)

/-- Whether a text is one identifier, or several with dots between them. -/
def isDotted (text : String) : Bool :=
  (Text.Packed.splitOn '.' text).all fun part => Text.isIdentifier part.toList

/-! ## Files -/

/-- The configuration that the fields give. -/
def ofEntries (d : Store.Directory) (path : String) (root : Store.Path) (entries : Data.Entries) :
    Except LoadError Config := do
  checkFields path entries
  let profile ← profileField d path root entries
  let externalInputs ← textsField path entries "external-inputs"
  let base ← textField path entries "base-namespace" "app"
  if !isDotted base then throw (.notDotted path "base-namespace")
  let methodName ← textField path entries "method-name" "execute"
  let allowDeepNesting ← truthField path entries "allow-deep-nesting"
  let strictBindings ← truthField path entries "strict-bindings"
  let dryRun ← truthField path entries "dry-run"
  return {
    root := root.text, base, profile, dryRun
    options := { externalInputs, allowDeepNesting, strictBindings, methodName } }

/-- The configuration that a text writes. -/
def ofText (d : Store.Directory) (path : String) (root : Store.Path) (text : String) :
    Except LoadError Config :=
  match Yaml.parse? text with
  | none => .error (.malformed path)
  | some .null => ofEntries d path root []
  | some (.map entries) => ofEntries d path root entries
  | some _ => .error (.notMap path)

/-- The configuration in a file. Its root is the given one, or the directory of the file. -/
def load (d : Store.Directory) (path : Store.Path) (root : Option Store.Path := none) :
    Except LoadError Config :=
  match d.read path.text with
  | .ok text => ofText d path.text (root.getD path.parent) text
  | .error (.refused _) =>
    match d.find path with
    | .error .missing => .error (.missing path.text)
    | _ => .error .unreadable
  | .error f => .error (.fault f)

end Lifeline.Run.Config
