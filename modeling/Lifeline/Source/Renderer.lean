import Lifeline.Code.Tree
import Lifeline.Json.Printer
import Lifeline.Profile.Basic
import Lifeline.Source.File
import Lifeline.Text.Case

/-!
# Writing with a profile

What all generated files have in common: filling the templates of a profile, the paths of files and
modules, the text of values, and finding the block of code that a block of the diagram became.
-/

namespace Lifeline.Source

open Code (BranchHead LoopHead Statement)
open Tests (ValueRef)

/-- A step of writing. It fails where a template or a name of the profile does. -/
abbrev Writing (α : Type) := Except NameError α

/-- A block of code for a block of a diagram. -/
inductive CodeBlock where
  | conditional (branches : List BranchHead)
  | iteration (head : LoopHead)

/-- What files are written with. -/
structure Renderer where
  profile : Profile
  /-- The base namespace, dotted. -/
  base : String
  /-- The blocks of code by the block of the diagram. -/
  blocks : List (Int × CodeBlock) := []

/-! ## Blocks of code -/

mutual

/-- The blocks of code in a statement, outer ones first. -/
def blocksIn : Statement → List (Int × CodeBlock)
  | .conditional block branches _ =>
    (block, .conditional (headsIn branches)) :: blocksInBranches branches
  | .iteration head body => (head.block, .iteration head) :: blocksInBody body
  | .call _ | .return _ | .raise _ => []

def blocksInBody : List Statement → List (Int × CodeBlock)
  | [] => []
  | s :: rest => blocksIn s ++ blocksInBody rest

def blocksInBranches : List (BranchHead × List Statement) → List (Int × CodeBlock)
  | [] => []
  | (_, body) :: rest => blocksInBody body ++ blocksInBranches rest

/-- The tops of branches. -/
def headsIn : List (BranchHead × List Statement) → List BranchHead
  | [] => []
  | (head, _) :: rest => head :: headsIn rest

end

/-- The blocks of code in all classes. -/
def blocksInTree (t : Code.Tree) : List (Int × CodeBlock) :=
  t.classes.flatMap fun c => c.methods.flatMap fun m => blocksInBody m.body

namespace Renderer

/-! ## Templates and paths -/

/-- A template of the profile with values in its slots. -/
def fill (r : Renderer) (key : TemplateKey) (values : Template.Values := []) : Writing String :=
  match Template.fill (r.profile.templates.get key) values with
  | .ok s => .ok s
  | .error e => .error (.template e)

def fill1 (r : Renderer) (key : TemplateKey) (name value : String) : Writing String :=
  r.fill key [(name, value)]

/-- A path rule for a subject. -/
def path (r : Renderer) (rule : String) (subject : String := "") : Writing String :=
  match Template.fill rule [("base", r.base), ("base_path", Text.Packed.replace "." "/" r.base),
      ("subject", subject), ("subject_snake", Name.snake subject)] with
  | .ok s => .ok s
  | .error e => .error (.template e)

def moduleOf (r : Renderer) (subject : String) : Writing String :=
  r.path r.profile.paths.module subject

def typeName (r : Renderer) (name : String) : Writing String := r.profile.naming.typeName name

/-- Text that is indented by a number of levels. -/
def indent (r : Renderer) (level : Nat) : String :=
  String.join (List.replicate level (r.profile.templates.get .indent))

/-- Pieces one after the other. -/
def concat (pieces : List String) : String := String.join pieces

/-- Names as further parameters. -/
def furtherParameters (names : List String) : String := concat (names.map fun n => ", " ++ n)

/-! ## Values -/

/-- The template of a literal word. -/
def literalTemplate? (word : String) : Option TemplateKey :=
  match toLowerCase word with
  | "true" => some .literalTrue
  | "false" => some .literalFalse
  | "null" | "none" | "nil" => some .literalNull
  | _ => none

/-- A literal in the target language. -/
def literal (r : Renderer) (ref : ValueRef) : Writing String :=
  match literalTemplate? ref.name with
  | some key => r.fill key
  | none => .ok ref.name

/-- A truth value in the target language. -/
def truth (r : Renderer) (b : Bool) : Writing String :=
  r.fill (if b then .literalTrue else .literalFalse)

/-- A value in the code of a class. -/
def codeValue (r : Renderer) (ref : ValueRef) : Writing String :=
  if ref.source == .literal then r.literal ref else .ok (ref.name ++ ref.path)

/-- A name that a test holds. -/
def held (r : Renderer) (name : String) : Writing String := r.fill1 .valueRef "name" name

/-- A value in the code of a test of a group, under the name that its stub holds it by. -/
def testValue (r : Renderer) (g : Tests.Group) (ref : ValueRef) : Writing String :=
  if ref.source == .literal then r.literal ref
  else do
    let holder := if ref.source == .stub then
        (g.stubs.filter (·.valueId == ref.valueId)).findSome? fun s => s.holder.filter (!·.isEmpty)
      else none
    return (← r.held (holder.getD ref.name)) ++ ref.path

/-- The arguments of a message, each with the name of its placeholder. -/
def messageArguments (value : ValueRef → Writing String) (arguments : List Tests.MessageArgument) :
    Writing String := do
  let written ← arguments.mapM fun a => do return a.placeholder ++ "=" ++ (← value a.value)
  return Text.Packed.join ", " written

end Renderer

end Lifeline.Source
