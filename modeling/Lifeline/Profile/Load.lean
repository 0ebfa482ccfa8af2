import Lifeline.Profile.Decode
import Lifeline.Store.Directory
import Lifeline.Yaml.Value

/-!
# Profiles in files

A profile from a YAML file of a directory (`Profile.load`). An empty file is the built-in profile.
Messages leave out, as three dots, what is said by those that read files, YAML or fields.
-/

namespace Lifeline.Profile

/-- Why a file is no profile. -/
inductive LoadError where
  | unreadable (path : String)
  | malformed (path : String)
  | notMap (path : String)
  | faulty (path : String) (faults : List Schema.Fault)
  /-- The file is not text, or no file has such a path. -/
  | fault (f : Store.Fault)
deriving Repr, DecidableEq

/-- What is said about a file that is no profile, where something is. -/
def LoadError.message? : LoadError → Option String
  | .unreadable path => some s!"Cannot read language profile '{path}': ..."
  | .malformed path => some s!"Invalid YAML in language profile '{path}': ..."
  | .notMap path => some s!"Language profile '{path}' must be a YAML mapping"
  | .faulty path _ => some s!"Invalid language profile '{path}': ..."
  | .fault f => f.message?

/-- The faults in the fields of a profile. -/
def LoadError.faults : LoadError → List Schema.Fault
  | .faulty _ fs => fs
  | _ => []

/-- The profile that a text writes. The path is that of its file. -/
def ofText (path text : String) : Except LoadError Profile :=
  match Yaml.parse? text with
  | none => .error (.malformed path)
  | some x =>
    match x with
    | .null => .ok .builtin
    | .map _ =>
      match ofData x with
      | .ok p => .ok p
      | .faulty fs => .error (.faulty path fs)
    | _ => .error (.notMap path)

/-- The profile in a file. -/
def load (d : Store.Directory) (path : Store.Path) : Except LoadError Profile :=
  match d.read path.text with
  | .error (.refused _) => .error (.unreadable path.text)
  | .error f => .error (.fault f)
  | .ok text => ofText path.text text

end Lifeline.Profile
