import Lifeline.Pattern.Reader
import Lifeline.Plan.Error

/-!
# Making a plan

Generated files against the files that are there (`Plan.ofFiles`). A file that is missing is
created. A file that is there is extended by the declarations that it lacks, which the declaration
patterns tell, and nothing else in it changes. A declaration that is there with other content stays
and is warned about; a concrete type where an abstract one is generated stops the plan.
-/

namespace Lifeline.Plan

open Source (Block BlockKind File)

/-! ## Looking for declarations -/

/-- The pattern that finds a declaration of a kind. -/
def patternFor (d : Declarations) (kind : DeclarationKind) (name : String) :
    Except Error Pattern :=
  let escaped := String.ofList (Pattern.escape name.toList)
  let written := Text.Packed.replace (Template.slotText "name") escaped (d.get kind)
  match Pattern.parse? written with
  | some p => .ok p
  | none => .error (.badPattern written)

/-- Whether a block is declared in a text: its pattern is found, or its whole text where no pattern
is known for it. -/
def isDeclared (d : Declarations) (b : Block) (text : String) : Except Error Bool :=
  match b.kind with
  | .declaration kind => do return (← patternFor d kind b.name).occursIn text.toList
  | _ => .ok (Text.Packed.occursIn b.text text)

/-- Whether a type is declared as a concrete one, and not as an abstract one. -/
def isConcrete (d : Declarations) (name text : String) : Except Error Bool := do
  let concrete ← patternFor d .concreteType name
  let abstract ← patternFor d .abstractType name
  return concrete.occursIn text.toList && !abstract.occursIn text.toList

/-- Whether the content of a declared block is compared. Headers and imports may be spread over
other lines. -/
def isCompared : BlockKind → Bool
  | .header | .preamble | .declaration .importLine => false
  | _ => true

/-- Whether the text of a block, blanks around it apart, is missing from a text. -/
def isStale (b : Block) (text : String) : Bool :=
  !Text.Packed.occursIn (Text.Packed.strip b.text) text

/-! ## One file -/

/-- What a plan does about one file. -/
structure FilePlan where
  path : String
  operation : Option Operation
  warnings : List Warning := []
  conflicts : List Warning := []
deriving Repr

/-- The text with a line feed at its end, unless it is empty or has one. -/
def endLine (text : String) : String :=
  if text.isEmpty || Text.Packed.endsWith "\n" text then text else text ++ "\n"

def createFile (f : File) : FilePlan where
  path := f.path
  operation := some { path := f.path, mode := .create, content := f.content, blocks := f.blocks }

/-- A file that is there with a text. -/
def extendFile (d : Declarations) (f : File) (text : String) : Except Error FilePlan := do
  let clashing ← f.blocks.filterM fun b =>
    if b.isAbstract then isConcrete d b.name text else return false
  let missing ← f.blocks.filterM fun b =>
    if b.kind == .header then return false else return !(← isDeclared d b text)
  let stale := f.blocks.filter fun b =>
    isCompared b.kind && !missing.contains b && isStale b text
  let added := missing.foldl (fun t b => t ++ b.text) ""
  return {
    path := f.path
    operation := if missing.isEmpty then none else some {
      path := f.path, mode := .update, content := endLine text ++ added
      previous := some text, blocks := missing }
    warnings := stale.map fun b => {
      path := f.path
      message := s!"'{b.name}' is already declared with different content and is left unchanged" }
    conflicts := clashing.map fun b => {
      path := f.path
      message := s!"'{b.name}' is declared as a concrete type but is expected to be abstract" } }

/-- What to do about a file, given what is in a store. -/
def planFile {σ : Type} (store : Store σ) (s : σ) (d : Declarations) (f : File) :
    Except Error FilePlan :=
  match store.isFile s f.path with
  | .error fault => .error (.fault fault)
  | .ok false => .ok (createFile f)
  | .ok true =>
    match store.read s f.path with
    | .error (.refused reason) => .error (.unreadable f.path reason)
    | .error fault => .error (.fault fault)
    | .ok text => extendFile d f text

/-! ## All files -/

/-- The plan that does what is to be done about each file. -/
def ofFilePlans (plans : List FilePlan) : Except Error Plan :=
  match plans.flatMap (·.conflicts) with
  | first :: others => .error (.conflict first others)
  | [] => .ok {
      operations := plans.filterMap (·.operation)
      warnings := plans.flatMap (·.warnings)
      unchanged := plans.filterMap fun p => if p.operation.isNone then some p.path else none }

/-- The plan that brings the files of a store up to date. Nothing is written. -/
def ofFiles {σ : Type} (store : Store σ) (s : σ) (d : Declarations) (files : List File) :
    Except Error Plan := do
  ofFilePlans (← files.mapM (planFile store s d))

end Lifeline.Plan
