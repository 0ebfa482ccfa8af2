import Lifeline.Diagram.Label
import Lifeline.Message
import Lifeline.Name.Unique
import Lifeline.Profile.Basic
import Lifeline.Sorting
import Lifeline.Tests.Error
import Lifeline.Tests.Steering
import Lifeline.Tests.Tree

/-!
# Tests of a model

From a model with the roles of its participants to the tree of its tests (`Model.synthesizeTests`):
a group for the main path of each method and one for each branch, with stubs for the calls that its
path reaches, a check for every call that stands right on it, and a check of what it ends in.
-/

namespace Lifeline.Tests

open Model

/-- What synthesis works from. -/
structure Context where
  model : Model
  roles : Classification
  naming : NamingRules

/-- A step that fails only where the naming rules do. -/
abbrev Naming (α : Type) := Except NameError α

/-- A step of synthesis. -/
abbrev Synthesis (α : Type) := Except SynthesisError α

/-- A step that makes names as a step of synthesis. -/
def Naming.lift {α : Type} : Naming α → Synthesis α
  | .ok a => .ok a
  | .error e => .error (.naming e)

instance : MonadLift (Except NameError) (Except SynthesisError) where
  monadLift := Naming.lift

namespace Context

/-! ## Names and references -/

def mockName (c : Context) (collaborator : String) : Naming String :=
  c.naming.mock.apply [("collaborator", collaborator)]

/-- A value with the attributes read from it, the value under its name in generated code. -/
def valuePath (c : Context) (text : String) : Naming String := do
  let (root, path) := Text.Packed.cut '.' text
  let name ← c.naming.valueName root
  return match path with
    | some path => if path.isEmpty then name else name ++ "." ++ path
    | none => name

/-- The name of the element of a loop, where it has one. -/
def elementName (c : Context) (element : Option String) : Naming (Option String) :=
  match element with
  | some e => if e.isEmpty then .ok none else some <$> c.naming.valueName e
  | none => .ok none

/-- The collection of a loop, where it has one. -/
def collectionPath (c : Context) (collection : Option String) : Naming (Option String) :=
  match collection with
  | some s => if s.isEmpty then .ok none else some <$> c.valuePath s
  | none => .ok none

def branchRef (c : Context) (choice : Nat × Nat) : ScopeRef :=
  let branch := (c.model.alternatives.find? (·.id == choice.1)).bind (·.branches[choice.2]?)
  { kind := .alt
    block := choice.1
    branch := choice.2
    guard := branch.bind (·.guard)
    position := (branch.map (·.position)).getD 0 }

/-- A reference to a branch that is there. -/
def knownBranch (c : Context) (choice : Nat × Nat) : Synthesis ScopeRef :=
  match (c.model.alternatives.find? (·.id == choice.1)).bind (·.branches[choice.2]?) with
  | some _ => .ok (c.branchRef choice)
  | none => .error (.unknownBranch choice.1 choice.2)

def loopRef (c : Context) (l : Loop) : Naming ScopeRef := do
  let element ← c.elementName l.element
  let collection ← c.collectionPath l.collection
  return { kind := .loop, block := l.id, label := l.label, element, collection,
           position := l.position }

def scopeRefs (c : Context) (scope : Scope) : Synthesis (List ScopeRef) :=
  scope.mapM fun f =>
    match f.kind, c.model.loops.find? (·.id == f.block) with
    | .loop, some l => c.loopRef l
    | .loop, none => .error (.unknownLoop f.block)
    | .alt, _ => c.knownBranch (f.block, f.branch)

def argumentRef (c : Context) (a : ArgumentRef) : Naming ValueRef :=
  let (root, path) := Text.Packed.cut '.' a.name
  let path := match path with
    | some path => if path.isEmpty then "" else "." ++ path
    | none => ""
  let named (source : ValueSource) (valueId : Option String) : Naming ValueRef := do
    return { text := a.name, source, name := ← c.naming.valueName root, path, valueId }
  match a.source with
  | .literal => .ok { text := a.name, source := .literal, name := a.name }
  | .input => named .input none
  | .reply _ valueId => named .stub (some valueId)
  | .loopElement => named .loopElement none

/-- A placeholder that no value answers to, as a literal that stands for itself. -/
def unknownPlaceholder (name : String) : String := "\"" ++ Template.slotText name ++ "\""

/-- A reference to a value that a message or a result names. Without a known identity the name is
looked for among the stubs, the last first, then among the parameters and the elements of loops. -/
def namedValue (c : Context) (method : Method) (stubs : List Stub) (name : String)
    (valueId : Option String) : Naming ValueRef := do
  let valueName ← c.naming.valueName name
  match valueId with
  | some id => return { text := name, source := .stub, name := valueName, valueId := some id }
  | none =>
    match stubs.reverse.find? (·.value == some name) with
    | some s => return { text := name, source := .stub, name := valueName, valueId := s.valueId }
    | none =>
      if method.parameters.contains name then
        return { text := name, source := .input, name := valueName }
      else if c.model.loops.any fun l => l.method == method.call && l.element == some name then
        return { text := name, source := .loopElement, name := valueName }
      else if Label.isLiteralWord name then
        return { text := name, source := .literal, name }
      else return { text := name, source := .literal, name := unknownPlaceholder name }

/-! ## Mocks -/

/-- The names that the arguments of a call give to parameters, each once, after those in `names`.
A literal is numbered by its place. -/
def parameterNamesFrom (c : Context) (names : List String) :
    List (ArgumentRef × Nat) → Naming (List String)
  | [] => .ok names
  | (a, i) :: rest => do
    let name ← match a.source with
      | .literal => .ok ("arg" ++ toString i)
      | _ => c.naming.valueName (Name.root a.name)
    c.parameterNamesFrom (names ++ [Name.unique name names]) rest

def parameterNames (c : Context) (arguments : List ArgumentRef) : Naming (List String) :=
  c.parameterNamesFrom [] arguments.zipIdx

/-- The methods that calls give to a mock: the first call of a name decides its parameters. -/
def mockedMethods (c : Context) (calls : List Interaction) : Naming (List MockedMethod) :=
  calls.foldlM (fun methods i => do
    let name ← c.naming.method i.operation
    if methods.any (·.name == name) then return methods
    else
      let parameters ← c.parameterNames i.arguments
      return methods ++ [{ name, parameters, returns := i.reply.map (·.type) }]) []

/-- What the mock of a collaborator stands for. -/
def mockKind (c : Context) (collaborator : String) : Synthesis MockKind :=
  match c.roles.find? collaborator with
  | some { role := .orchestrator, .. } => .ok .orchestrator
  | some { role := .leaf .ioBoundary, .. } => .ok .ioBoundary
  | some { role := .leaf .computational, .. } => .ok .computational
  | none => .error (.unclassified collaborator)

/-- The mocks of a suite, in the order in which its calls first reach the collaborators. -/
def mocks (c : Context) (calls : List Interaction) : Synthesis (List Mock) :=
  (calls.map (·.target)).eraseDups.mapM fun collaborator => do
    let methods ← c.mockedMethods (calls.filter (·.target == collaborator))
    let name ← c.mockName collaborator
    let kind ← c.mockKind collaborator
    return { collaborator, name, kind, methods }

/-! ## Paths -/

/-- The places where an exception leaves a method, in order. -/
def raiseSites (c : Context) (method : Method) : List RaiseSite :=
  let sites := c.model.throws.flatMap fun t =>
    let own := if t.method == method.call && t.participant == method.owner then
        [{ throw := t, scope := t.scope, sequence := t.position, raisedBy := none }]
      else []
    let passed := t.through.filterMap fun call =>
      match c.model.interaction? call with
      | some i =>
        if i.method == method.call then
          some { throw := t, scope := i.scope, sequence := i.position, raisedBy := some call }
        else none
      | none => none
    own ++ passed
  sortBy (fun a b => a.sequence ≤ b.sequence) sites

/-- Whether all calls are there that exceptions pass through. -/
def checkThrows (c : Context) : Synthesis Unit :=
  (c.model.throws.flatMap (·.through)).forM fun call =>
    if (c.model.interaction? call).isSome then .ok () else .error (.unknownCall call)

/-- The alternatives of a method, in order. -/
def blocksOf (c : Context) (method : Method) : List Alternative :=
  c.model.alternatives.filter (·.method == method.call)

/-- Whether anything happens outside all branches of a method. -/
def hasMainPath (c : Context) (method : Method) : Bool :=
  (c.blocksOf method).isEmpty ||
    (c.model.interactionsOf method.call).any (·.scope.path.isEmpty) ||
    method.results.any (·.scope.path.isEmpty) ||
    (c.raiseSites method).any (·.scope.path.isEmpty)

/-- The paths that get a group: the main path where it has anything, and one for each branch, in
the order in which they start. -/
def paths (c : Context) (method : Method) : List Path :=
  let main : List (Path × Nat) := if c.hasMainPath method then [([], 0)] else []
  let branches := (c.blocksOf method).flatMap fun b =>
    b.branches.map fun br => (b.scope.path ++ [(b.id, br.index)], br.position + 1)
  (sortBy (fun a b => a.2 ≤ b.2) (main ++ branches)).map (·.1)

/-! ## Stubs and fixtures -/

/-- The exception that a call passes on, by the last site that says so. -/
def raisedAt (sites : List RaiseSite) (call : Int) : Option String :=
  (sites.reverse.find? (·.raisedBy == some call)).map (·.throw.exception)

/-- Whether a call gives the collection of a loop of the method. -/
def givesCollection (c : Context) (method : Method) (call : Int) : Bool :=
  c.model.loops.any fun l => l.method == method.call && l.producer == some call

/-- The first guard that mentions a value as a word of its own. -/
def guardOn (guards : List String) (value : Option String) : Option String :=
  value.bind fun v =>
    if v.isEmpty then none else guards.find? fun g => Text.hasWord v.toList none g.toList

/-- The stubs for the calls that a group reaches: for each one that replies or passes on an
exception. `taken` holds the names that are in use in the group. -/
def stubsFrom (c : Context) (method : Method) (sites : List RaiseSite) (guards : List String)
    (taken : List String) : List Interaction → Naming (List Stub)
  | [] => .ok []
  | i :: rest => do
    let raises := raisedAt sites i.index
    if i.reply.isNone && raises.isNone then c.stubsFrom method sites guards taken rest
    else
      let value := i.reply.map (·.value)
      let mock ← c.mockName i.target
      let name ← c.naming.method i.operation
      let holder ← match value with
        | some v =>
          if v.isEmpty then .ok none
          else (fun n => some (Name.unique n taken)) <$> c.naming.valueName v
        | none => .ok none
      let stub : Stub := {
        call := i.index
        mock
        method := name
        value
        holder
        valueId := i.reply.map (·.valueId)
        type := i.reply.map (·.type)
        sequence := i.position
        singleElement := c.givesCollection method i.index || i.scope.inLoop
        guard := guardOn guards value
        raises }
      return stub :: (← c.stubsFrom method sites guards (taken ++ holder.toList) rest)

/-- The stubs of a group that drives the branches of `driven`. -/
def stubs (c : Context) (method : Method) (reached : List Interaction) (sites : List RaiseSite)
    (driven : List ScopeRef) : Naming (List Stub) := do
  let guards := driven.filterMap fun r => r.guard.filter (!·.isEmpty)
  let mocks ← reached.mapM fun i => c.mockName i.target
  let parameters ← method.parameters.mapM c.naming.valueName
  c.stubsFrom method sites guards (mocks ++ ["subject", "result"] ++ parameters) reached

/-- Test data for the loops that a group reaches. -/
def loopFixtures (c : Context) (method : Method) (chosen : Path) : Naming (List LoopFixture) :=
  (c.model.loops.filter fun l => l.method == method.call && runs l.scope chosen).mapM fun l => do
    let element ← c.elementName l.element
    let collection ← c.collectionPath l.collection
    return { block := l.id, label := l.label, element, collection, producer := l.producer }

/-! ## Checks -/

def callCheck (c : Context) (i : Interaction) (repeated : Bool) : Synthesis CallCheck := do
  let mock ← c.mockName i.target
  let method ← c.naming.method i.operation
  let arguments ← (i.arguments.mapM c.argumentRef : Naming (List ValueRef))
  let scope ← c.scopeRefs i.scope
  return { call := i.index, sequence := i.position, collaborator := i.target, mock, method,
           arguments, scope, repeated }

def resultCheck (c : Context) (method : Method) (stubs : List Stub) (r : MethodResult) :
    Synthesis ResultCheck := do
  let expected ← c.namedValue method stubs r.value r.valueId
  let scope ← c.scopeRefs r.scope
  return { expected, type := r.type, sequence := r.position, scope }

/-- The constant that holds the message of a raise and the values that it shows. Only an exception
of the method's own has one. -/
def raiseMessage (c : Context) (method : Method) (stubs : List Stub) (site : RaiseSite) :
    Naming (Option String × List MessageArgument) :=
  match site.throw.message with
  | some message =>
    if site.propagated then .ok (none, [])
    else do
      let constant ← c.naming.messageConstant.apply [("exception", site.throw.exception)]
      let arguments ← (Message.placeholders message).mapM fun name => do
        return { placeholder := name, value := ← c.namedValue method stubs name none }
      return (some constant, arguments)
  | none => .ok (none, [])

def raiseCheck (c : Context) (method : Method) (stubs : List Stub) (site : RaiseSite) :
    Synthesis RaiseCheck := do
  let t := site.throw
  let (constant, arguments) ← c.raiseMessage method stubs site
  let scope ← c.scopeRefs site.scope
  return { exception := t.exception, message := t.message, constant, arguments,
           propagated := site.propagated, raisedBy := site.raisedBy, sequence := site.sequence,
           scope }

/-- The checks of calls, under names that are not `taken`. -/
def callCases (c : Context) (method : Method) (reached : List Interaction) (invokes : Bool)
    (taken : List String) : List Interaction → Synthesis (List Case)
  | [] => .ok []
  | i :: rest => do
    let repeated := 1 < reached.countP fun j => j.target == i.target && j.operation == i.operation
    let name ← c.naming.verifyTest.apply
      [("method", method.name), ("collaborator", i.target), ("call", i.operation)]
    let name := Name.unique name taken
    let check ← c.callCheck i repeated
    let others ← c.callCases method reached invokes (taken ++ [name]) rest
    return { name, assertion := .call check, invokes } :: others

/-- The checks of results, under names that are not `taken`. -/
def resultCases (c : Context) (method : Method) (stubs : List Stub) (taken : List String) :
    List MethodResult → Synthesis (List Case)
  | [] => .ok []
  | r :: rest => do
    let name ← c.naming.resultTest.apply [("method", method.name), ("value", r.value)]
    let name := Name.unique name taken
    let check ← c.resultCheck method stubs r
    let others ← c.resultCases method stubs (taken ++ [name]) rest
    return { name, assertion := .result check } :: others

/-! ## Groups -/

/-- What a group is about, in words. -/
def description (method : Method) (path : List ScopeRef) : String :=
  if path.isEmpty then s!"Main path of {method.owner}.{method.name}."
  else
    let conditions := path.map fun r =>
      match r.guard.filter (!·.isEmpty) with
      | some guard => "[" ++ guard ++ "]"
      | none => "[else]"
    s!"{method.owner}.{method.name} when " ++ Text.Packed.join " and " conditions ++ "."

/-- A branch as it goes into the name of a group. -/
def qualifier (c : Context) (r : ScopeRef) : Naming String :=
  match r.guard.filter (!·.isEmpty) with
  | some guard =>
    match Template.fill c.naming.branchQualifier [("guard", guard)] with
    | .ok s => .ok s
    | .error e => .error (.template e)
  | none => .ok "otherwise"

/-- The group of a path, under a name that is not `taken`. -/
def group (c : Context) (method : Method) (taken : List String) (path : Path) :
    Synthesis Group := do
  let calls := c.model.interactionsOf method.call
  let sites := c.raiseSites method
  let steering := steer path (c.blocksOf method) sites
  let chosen := path ++ steering
  let reached := calls.filter fun i => runs i.scope chosen
  let pathRefs ← path.mapM c.knownBranch
  let steeringRefs ← steering.mapM c.knownBranch
  let stubs ← c.stubs method reached sites (pathRefs ++ steeringRefs)
  let site := sites.find? fun s => runs s.scope chosen
  let callCases ← c.callCases method reached site.isSome []
    (calls.filter fun i => i.scope.path == path)
  let taken' := callCases.map (·.name)
  let lastCases ← match site with
    | some site => do
      let name ← c.naming.throwTest.apply
        [("method", method.name), ("exception", site.throw.exception)]
      let name := Name.unique name taken'
      let check ← c.raiseCheck method stubs site
      .ok [{ name, assertion := .raise check, invokes := true }]
    | none =>
      c.resultCases method stubs taken' (method.results.filter fun r => r.scope.path == path)
  let qualifiers ← (pathRefs.mapM c.qualifier : Naming (List String))
  let name ← c.naming.testGroup.apply
    [("method", method.name), ("qualifier", Text.Packed.join " " qualifiers)]
  let loops ← c.loopFixtures method chosen
  return {
    name := Name.unique name taken
    description := description method pathRefs
    path := pathRefs
    steering := steeringRefs
    mode := if site.isSome then .exceptionTriggered else .noException
    stubs
    loops
    cases := callCases ++ lastCases }

/-- The groups of some paths of a method, under names that are not `taken`. -/
def groups (c : Context) (method : Method) (taken : List String) :
    List Path → Synthesis (List Group)
  | [] => .ok []
  | path :: rest => do
    let g ← c.group method taken path
    return g :: (← c.groups method (taken ++ [g.name]) rest)

/-- The tests of some methods of a suite, with group names that are not `taken`. -/
def methodTests (c : Context) (taken : List String) : List Method → Synthesis (List MethodTests)
  | [] => .ok []
  | m :: rest => do
    c.checkThrows
    let groups ← c.groups m taken (c.paths m)
    let name ← c.naming.method m.name
    let parameters ← (m.parameters.mapM c.naming.valueName : Naming (List String))
    let others ← c.methodTests (taken ++ groups.map (·.name)) rest
    return { name, parameters, groups } :: others

/-! ## Suites and tables -/

/-- The suite of an orchestrator that owns the given methods. -/
def suite (c : Context) (p : Classified) (methods : List Method) : Synthesis Suite := do
  let mocks ← c.mocks (methods.flatMap fun m => c.model.interactionsOf m.call)
  let methods ← c.methodTests [] methods
  return { subject := p.name, underTest := p.underTest, mocks, methods }

/-- The decision table of a leaf that the given calls reach: a placeholder row for each method. -/
def decisionTable (c : Context) (leaf : Classified) (calls : List Interaction) :
    Naming DecisionTable := do
  let methods ← calls.foldlM (fun methods i => do
    let name ← c.naming.method i.operation
    if methods.any fun m : DecisionMethod => m.name == name then return methods
    else
      let parameters ← c.parameterNames i.arguments
      let row : DecisionRow :=
        { inputs := parameters.map fun _ => "None", expected := "None", placeholder := true }
      return methods ++ [{ name, parameters, returns := i.reply.map (·.type), rows := [row] }]) []
  return { participant := leaf.name, methods }

def tree (c : Context) : Synthesis Tree := do
  let suites ← c.roles.orchestrators.filterMapM fun p =>
    match c.model.methods.filter (·.owner == p.name) with
    | [] => .ok none
    | methods => some <$> c.suite p methods
  let tables ← c.roles.computational.filterMapM fun leaf =>
    match c.model.interactions.filter (·.target == leaf.name) with
    | [] => .ok none
    | calls => some <$> (c.decisionTable leaf calls).lift
  match c.model.componentUnderTest? with
  | some componentUnderTest => return { componentUnderTest, suites, tables }
  | none => throw .noParticipant

end Context

end Lifeline.Tests

namespace Lifeline.Model

/-- The tree of the tests of a model. -/
def synthesizeTests (m : Model) (roles : Classification) (profile : Profile := .builtin) :
    Except Tests.SynthesisError Tests.Tree :=
  Tests.Context.tree { model := m, roles, naming := profile.naming }

end Lifeline.Model
