import Lifeline.Source.Renderer
import Lifeline.Tests.Codec

/-!
# Code files

The files of classes, interfaces and scaffolds, and the file of all exceptions.
-/

namespace Lifeline.Source.Renderer

open Code (BranchHead Helper Interface Scaffold Statement)

/-! ## Statements -/

/-- The text of a body, or of the empty body where there is nothing in it. -/
def orEmptyBody (r : Renderer) (level : Nat) (text : String) : Writing String :=
  if text.isEmpty then r.fill1 .emptyBody "indent" (r.indent level) else .ok text

/-- The top of a branch, of which the first one opens the conditional. -/
def branchHead (r : Renderer) (level : Nat) (first : Bool) (head : BranchHead) : Writing String :=
  let decide (condition : String) : Writing String :=
    r.fill (if first then .conditionalIf else .conditionalElif)
      [("indent", r.indent level), ("condition", condition)]
  match head.test with
  | .otherwise => r.fill1 .conditionalElse "indent" (r.indent level)
  | .condition expression =>
    if expression.isEmpty then do decide (← r.fill1 .predicateCondition "predicate" "None")
    else decide expression
  | .helper name => do decide (← r.fill1 .predicateCondition "predicate" name)

/-- The top of a loop. -/
def loopHead (r : Renderer) (level : Nat) (head : Code.LoopHead) : Writing String := do
  let collection ← match head.source with
    | .collection path => .ok path
    | .helper name => r.fill1 .iterationSource "name" name
  r.fill .iteration
    [("indent", r.indent level), ("element", head.element), ("collection", collection)]

def callText (r : Renderer) (level : Nat) (s : Code.CallStatement) : Writing String := do
  let binding ← match s.binding.filter (!·.isEmpty) with
    | some name => r.fill1 .binding "name" name
    | none => .ok ""
  let arguments ← s.arguments.mapM r.codeValue
  r.fill .callStatement [("indent", r.indent level), ("binding", binding), ("mock", s.mock),
    ("method", s.method), ("arguments", Text.Packed.join ", " arguments)]

def raiseText (r : Renderer) (level : Nat) (s : Code.RaiseStatement) : Writing String := do
  let message ← match s.constant.filter (!·.isEmpty) with
    | some constant => do
      let arguments ← messageArguments r.codeValue s.arguments
      r.fill .raiseMessage [("constant", constant), ("arguments", arguments)]
    | none => .ok ""
  let exception ← r.fill1 .exceptionRef "exception" s.exception
  r.fill .raiseStatement
    [("indent", r.indent level), ("exception", exception), ("message", message)]

mutual

/-- A statement at a level of indentation. -/
def statementText (r : Renderer) (level : Nat) : Statement → Writing String
  | .call s => r.callText level s
  | .return s => do
    r.fill .returnStatement [("indent", r.indent level), ("value", ← r.codeValue s.value)]
  | .raise s => r.raiseText level s
  | .conditional _ branches _ => branchesText r level true branches
  | .iteration head body => do
    let top ← r.loopHead level head
    let inner ← bodyText r (level + 1) body
    return top ++ (← r.orEmptyBody (level + 1) inner)

/-- The statements of a body, which may be none. -/
def bodyText (r : Renderer) (level : Nat) : List Statement → Writing String
  | [] => .ok ""
  | s :: rest => do return (← statementText r level s) ++ (← bodyText r level rest)

/-- The branches of a conditional. -/
def branchesText (r : Renderer) (level : Nat) (first : Bool) :
    List (BranchHead × List Statement) → Writing String
  | [] => .ok ""
  | (head, body) :: rest => do
    let top ← r.branchHead level first head
    let inner ← bodyText r (level + 1) body
    let inner ← r.orEmptyBody (level + 1) inner
    return top ++ inner ++ (← branchesText r level false rest)

end

/-! ## Classes -/

/-- How deep the bodies of methods are indented. -/
def methodLevel : Nat := 2

def methodBlock (r : Renderer) (m : Code.Method) : Writing Block := do
  let body ← r.orEmptyBody methodLevel (← r.bodyText methodLevel m.body)
  let signature ← r.fill .methodSignature
    [("method", m.name), ("parameters", furtherParameters m.parameters)]
  return { kind := .declaration .method, name := m.name, text := signature ++ body }

def helperBlock (r : Renderer) (h : Helper) : Writing Block := do
  let text := Json.escape h.text
  match h.kind with
  | .predicate =>
    return { kind := .declaration .predicate, name := h.name
             text := ← r.fill .predicate [("predicate", h.name), ("guard", text)] }
  | .loopSource =>
    return { kind := .declaration .loopSource, name := h.name
             text := ← r.fill .iterationSourceMethod [("name", h.name), ("label", text)] }

def classFile (r : Renderer) (c : Code.Class) : Writing File := do
  let subject ← r.typeName c.subject
  let (assignments, description) ←
    if c.collaborators.isEmpty then do
      let empty ← r.fill1 .emptyBody "indent" (r.indent methodLevel)
      .ok (empty, subject ++ " orchestration.")
    else do
      let assigned ← c.collaborators.mapM (r.fill1 .assignment "name")
      .ok (concat assigned, "Coordinates " ++ Text.Packed.join ", " c.collaborators ++ ".")
  let errorsModule ← r.path r.profile.paths.errorsModule
  let header ← r.fill .implHeader [("subject", subject), ("errors_module", errorsModule)]
  let top ← r.fill .classHeader [("subject", subject), ("description", description),
    ("parameters", furtherParameters c.collaborators), ("assignments", assignments)]
  let constants ← c.constants.mapM fun k => do
    return ({ kind := .declaration .constant, name := k.name
              text := ← r.fill .constant
                [("constant", k.name), ("literal", Json.quote k.template)] } : Block)
  let methods ← c.methods.mapM r.methodBlock
  let helpers ← c.helpers.mapM r.helperBlock
  let path ← r.path r.profile.paths.implementationFile c.subject
  return { path, role := .implementation
           blocks := { kind := .header, name := "header", text := header } ::
             { kind := .declaration .classType, name := subject, text := top } ::
             constants ++ methods ++ helpers }

/-! ## Interfaces, scaffolds and exceptions -/

def interfaceFile (r : Renderer) (i : Interface) : Writing File := do
  let name ← r.typeName i.name
  let header ← r.fill1 .interfaceHeader "name" name
  let users ← i.users.mapM r.typeName
  let top ← r.fill .interfaceClass [("name", name), ("users", Text.Packed.join ", " users)]
  let methods ← i.methods.mapM fun m => do
    return ({ kind := .declaration .interfaceMethod, name := m.name
              text := ← r.fill .interfaceMethod
                [("method", m.name), ("parameters", furtherParameters m.parameters)] } : Block)
  let path ← r.path r.profile.paths.interfaceFile i.name
  return { path, role := .interface
           blocks := { kind := .header, name := "header", text := header } ::
             { kind := .declaration .interface, name, text := top, isAbstract := true } ::
             methods }

def scaffoldFile (r : Renderer) (s : Scaffold) : Writing File := do
  let name ← r.typeName s.name
  let header ← r.fill1 .scaffoldHeader "name" name
  let top ← r.fill1 .scaffoldClass "name" name
  let methods ← s.methods.mapM fun m => do
    return ({ kind := .declaration .scaffoldMethod, name := m.name
              text := ← r.fill .scaffoldMethod
                [("name", name), ("method", m.name),
                  ("parameters", furtherParameters m.parameters),
                  ("status", s.status.name)] } : Block)
  let path ← r.path r.profile.paths.scaffoldFile s.name
  return { path, role := .scaffold
           blocks := { kind := .header, name := "header", text := header } ::
             { kind := .declaration .scaffold, name, text := top } :: methods }

def errorsFile (r : Renderer) (exceptions : List String) : Writing File := do
  let header ← r.fill .errorsHeader
  let classes ← exceptions.mapM fun e => do
    return ({ kind := .declaration .exception, name := e
              text := ← r.fill1 .exceptionClass "exception" e } : Block)
  let path ← r.path r.profile.paths.errorsFile
  return { path, role := .errors
           blocks := { kind := .header, name := "header", text := header } :: classes }

end Lifeline.Source.Renderer
