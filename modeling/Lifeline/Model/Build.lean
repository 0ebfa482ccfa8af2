import Lifeline.Diagram.Label
import Lifeline.Graph.Cycle
import Lifeline.Model.Walk
import Lifeline.Name.Case
import Lifeline.Sorting

/-!
# Building the model

From what the walk found to the model: the blocks relative to their methods, the values that
arguments are bound to, the methods with their parameters and results, and the calls that an
exception passes through. `Diagram.buildModel` puts the steps together.
-/

namespace Lifeline

namespace Model

/-- How a model is built. -/
structure Options where
  /-- The inputs of the method under test; they win over those of an entry message. -/
  externalInputs : Option (List String) := none
  /-- Whether alternatives may be nested more than two deep. -/
  allowDeepNesting : Bool := false
  /-- Whether it is an error that several replies bind the name of an argument. -/
  strictBindings : Bool := false
  /-- The name of the method under test where the diagram has no entry message. -/
  methodName : String := "execute"
deriving Repr, DecidableEq

/-- How deep alternatives may be nested. -/
def maxBranchDepth : Nat := 2

/-- The outcome of a step that may leave warnings behind. -/
structure Noted (α : Type) where
  value : α
  warnings : List Warning := []
deriving Repr, DecidableEq

/-- The element and the collection of a block that is a loop. -/
def Fragment.loopNames? (f : Fragment) : Option (String × String) :=
  if f.kind == .loop then Label.readLoop? f.label else none

/-! ## Scopes -/

/-- A walk that is over, with the owners of its blocks. -/
structure Layout where
  walk : Walk
  owners : List MethodId
deriving Repr, DecidableEq

def Walk.layout (w : Walk) : Layout := { walk := w, owners := w.owners }

namespace Layout

def ownerOf (l : Layout) (block : Nat) : MethodId := (l.owners[block]?).join

def isAlt (l : Layout) (block : Nat) : Bool := (l.walk.fragments[block]?).any (·.kind == .alt)

/-- The blocks around a place that belong to `method`. -/
def scopeIn (l : Layout) (enclosing : List Enclosure) (method : MethodId) : Scope :=
  enclosing.filterMap fun e =>
    match l.walk.fragments[e.block]? with
    | some f =>
      if l.ownerOf e.block == method then
        some { kind := f.kind, block := e.block, branch := e.branch }
      else none
    | none => none

/-- How many alternatives of one method are nested at a block, the block included. -/
def depthOf (l : Layout) (block : Nat) (f : Fragment) : Nat :=
  1 + f.parents.countP fun e => l.isAlt e.block && l.ownerOf e.block == l.ownerOf block

/-- Whether a value bound inside some blocks can be seen inside others: every branch it was bound
in is a branch of the second place too. -/
def visible (l : Layout) (producer consumer : List Enclosure) : Bool :=
  producer.all fun e => !l.isAlt e.block || consumer.contains e

/-! ## Structure -/

/-- The participants that call each other. -/
def callGraph (l : Layout) : Graph :=
  l.walk.calls.foldl (fun g (c, _) => g.addEdge c.source c.target) []

/-- Refuses calls in a circle. -/
def checkCycles (l : Layout) : Except ModelError Unit :=
  match l.callGraph.findCycle with
  | some cycle => .error (.circularCall cycle)
  | none => .ok ()

/-- Refuses alternatives that are nested too deeply, or warns of them. -/
def checkNesting (l : Layout) (o : Options) : Except ModelError (List Warning) :=
  l.walk.fragments.zipIdx.foldlM (fun warnings (f, id) =>
    let depth := l.depthOf id f
    if f.kind == .loop || depth ≤ maxBranchDepth then .ok warnings
    else if o.allowDeepNesting then .ok (warnings ++ [⟨.deepNesting depth, f.line⟩])
    else .error (.excessiveNesting depth f.line)) []

/-! ## Values -/

/-- The replies that bind a name where it can be seen from a place, in order. -/
def bindingsOf (l : Layout) (name : String) (place : Place) : List (Reply × Place) :=
  l.walk.replies.filter fun (r, at_) =>
    r.value == name && at_.method == place.method && at_.position < place.position &&
      l.visible at_.enclosing place.enclosing

/-- The call whose reply binds a name last. -/
def latestBinding (l : Layout) (name : String) (place : Place) : Option Int :=
  (l.bindingsOf name place).getLast?.map (·.1.call)

/-- The call whose reply binds the name of an argument, with a warning where several do. -/
def argumentBinding (l : Layout) (o : Options) (name : String) (place : Place) (line : Int) :
    Except ModelError (Noted (Option Int)) :=
  let bindings := l.bindingsOf name place
  let found := bindings.getLast?.map (·.1.call)
  if bindings.length ≤ 1 then .ok { value := found }
  else
    let lines := bindings.map (·.1.line)
    if o.strictBindings then .error (.ambiguousBinding name lines line)
    else .ok { value := found, warnings := [⟨.ambiguousBinding name lines, line⟩] }

/-- Whether a name is the element of a loop around a place. -/
def isLoopElement (l : Layout) (name : String) (place : Place) : Bool :=
  place.enclosing.any fun e =>
    match l.walk.fragments[e.block]? with
    | some f => f.loopNames?.any (·.1 == name)
    | none => false

/-! ## Parameters -/

/-- The names that a list of arguments gives to parameters. A literal is numbered by its place. -/
def parameterNames (arguments : List Argument) : List String :=
  (arguments.zipIdx.map fun (a, i) =>
    if a.isLiteral then "arg" ++ toString i else Name.root a.name).eraseDups

/-- The parameters of the root method, as far as they are given. -/
def givenParameters (l : Layout) (o : Options) : List String :=
  match o.externalInputs, l.walk.entry with
  | some inputs, _ => inputs
  | none, some e => parameterNames e.arguments
  | none, none => []

/-- Whether the parameters of the root method are not given, so that they are found by use. -/
def infersParameters (l : Layout) (o : Options) : Bool :=
  o.externalInputs.isNone && l.walk.entry.isNone

/-- The methods under test: the root method and every call that makes calls itself, in order. -/
def methodIds (l : Layout) : List MethodId :=
  let parents := l.walk.calls.filterMap (·.1.parent)
  none :: (sortBy (· ≤ ·) parents.eraseDups).map some

/-- The parameters of the method that a call runs. -/
def parametersOfCall (l : Layout) (call : Int) : Except BuildError (List String) :=
  match l.walk.calls.find? (·.1.id == call) with
  | some (c, _) => .ok (parameterNames c.arguments)
  | none => .error (.unknownParent call)

/-- The parameters of a method, from those of the root method and those of the calls. -/
def parametersOf (inputs : List String) (callees : List (Int × List String)) :
    MethodId → Except BuildError (List String)
  | none => .ok inputs
  | some call =>
    match callees.lookup call with
    | some names => .ok names
    | none => .error (.unknownParent call)

/-! ## Interactions -/

/-- Lifts a refusal into the errors of building. -/
def refuse {α : Type} : Except ModelError α → Except BuildError α
  | .ok a => .ok a
  | .error e => .error (.refused e)

/-- An argument of a call with the place that its value comes from. `inputs` are the parameters of
the root method so far; an argument that nothing binds may become one more. `callees` holds the
parameters of the calls. -/
def resolveArgument (l : Layout) (o : Options) (callees : List (Int × List String))
    (inputs : List String) (c : Call) (place : Place) (a : Argument) :
    Except BuildError (Noted (ArgumentRef × List String)) := do
  if a.isLiteral then return { value := ({ name := a.name, source := .literal }, inputs) }
  let name := Name.root a.name
  if l.isLoopElement name place then
    return { value := ({ name := a.name, source := .loopElement }, inputs) }
  let found ← refuse (l.argumentBinding o name place c.line)
  match found.value with
  | some call =>
    return { found with
      value := ({ name := a.name, source := .reply call (valueId name call) }, inputs) }
  | none =>
    let input : ArgumentRef := { name := a.name, source := .input }
    let known ← parametersOf inputs callees place.method
    if known.contains name then return { found with value := (input, inputs) }
    else if place.method.isNone && l.infersParameters o then
      return { value := (input, inputs ++ [name])
               warnings := found.warnings ++ [⟨.inferredInput name, c.line⟩] }
    else throw (.refused (.unresolvedArgument a.name c.source c.target c.method c.line))

def resolveArguments (l : Layout) (o : Options) (callees : List (Int × List String)) (c : Call)
    (place : Place) (inputs : List String) :
    List Argument → Except BuildError (Noted (List ArgumentRef × List String))
  | [] => .ok { value := ([], inputs) }
  | a :: rest => do
    let first ← l.resolveArgument o callees inputs c place a
    let (ref, inputs) := first.value
    let others ← l.resolveArguments o callees c place inputs rest
    let (refs, inputs) := others.value
    return { value := (ref :: refs, inputs), warnings := first.warnings ++ others.warnings }

/-- The value that the reply to a call binds. -/
def bindingOfCall (l : Layout) (call : Int) : Option Binding :=
  (l.walk.replies.find? (·.1.call == call)).map fun (r, _) =>
    { value := r.value
      type := match r.type with
        | some type => if type.isEmpty then Name.typeOf r.value else type
        | none => Name.typeOf r.value
      explicitType := r.type.isSome
      valueId := valueId r.value call
      line := r.line }

/-- The interactions of the given calls, in order. -/
def interactions (l : Layout) (o : Options) (callees : List (Int × List String))
    (inputs : List String) :
    List (Call × Place) → Except BuildError (Noted (List Interaction × List String))
  | [] => .ok { value := ([], inputs) }
  | (c, place) :: rest => do
    let resolved ← l.resolveArguments o callees c place inputs c.arguments
    let (arguments, inputs) := resolved.value
    let interaction : Interaction := {
      index := c.id
      position := place.position
      method := c.parent
      source := c.source
      target := c.target
      operation := c.method
      arguments
      line := c.line
      reply := l.bindingOfCall c.id
      scope := l.scopeIn place.enclosing c.parent }
    let others ← l.interactions o callees inputs rest
    let (interactions, inputs) := others.value
    return { value := (interaction :: interactions, inputs)
             warnings := resolved.warnings ++ others.warnings }

/-- The flow of values from replies into arguments. -/
def pipesOf (interactions : List Interaction) : List Pipe :=
  interactions.flatMap fun i => i.arguments.filterMap fun a =>
    match a.source with
    | .reply producer valueId =>
      some { producer, consumer := i.index, argument := a.name, valueId }
    | _ => none

/-! ## Blocks -/

def loops (l : Layout) : List Loop :=
  l.walk.fragments.zipIdx.filterMap fun (f, id) =>
    let method := l.ownerOf id
    if f.kind == .loop then
      let names := f.loopNames?
      some {
        id, method
        label := f.label
        element := names.map (·.1)
        collection := names.map (·.2)
        producer := names.bind fun (_, collection) =>
          l.latestBinding (Name.root collection) ⟨f.position, method, f.parents⟩
        scope := l.scopeIn f.parents method
        position := f.position
        line := f.line }
    else none

def alternatives (l : Layout) : List Alternative :=
  l.walk.fragments.zipIdx.filterMap fun (f, id) =>
    let method := l.ownerOf id
    if f.kind == .alt then
      some {
        id, method
        branches := f.guards.zipIdx.map fun ((guard, position), index) =>
          { index, guard, position }
        depth := l.depthOf id f
        scope := l.scopeIn f.parents method
        position := f.position
        line := f.line }
    else none

/-! ## Results -/

/-- The results of a method, at most one for each path. -/
abbrev Results := List (Path × MethodResult)

/-- The results with `r` on its path. -/
def putResult (rs : Results) (r : MethodResult) : Results :=
  rs.filter (·.1 != r.scope.path) ++ [(r.scope.path, r)]

/-- The results that a method has without saying so: the last reply on each path. -/
def impliedResults (l : Layout) (interactions : List Interaction) (method : MethodId) :
    Except BuildError Results :=
  l.walk.replies.foldlM (fun results (r, place) =>
    if place.method != method then .ok results
    else
      match itemAt? interactions r.call with
      | none => .error (.unknownCall r.call)
      | some i =>
        .ok (putResult results {
          value := r.value
          type := match i.reply with
            | some b => b.type
            | none => Name.typeOf r.value
          valueId := some (valueId r.value r.call)
          scope := l.scopeIn place.enclosing method
          position := place.position
          explicit := false })) []

/-- Whether an alternative on the same path opens after a result. -/
def isSuperseded (alternatives : List Alternative) (method : MethodId) (r : MethodResult) : Bool :=
  alternatives.any fun b =>
    b.method == method && b.scope.path == r.scope.path && r.position < b.position

/-- A result that the diagram states. -/
def statedResult (l : Layout) (interactions : List Interaction) (parameters : List String)
    (method : MethodId) (r : Result) (place : Place) : Except BuildError MethodResult := do
  let binding := l.latestBinding r.value place
  if binding.isNone && !parameters.contains r.value && !Label.isLiteralWord r.value then
    throw (.refused (.unresolvedResult r.value r.source r.line))
  let type ← match r.type, binding with
    | some type, _ => .ok type
    | none, none => .ok (Name.typeOf r.value)
    | none, some call =>
      match itemAt? interactions call with
      | none => .error (.unknownCall call)
      | some i => .ok ((i.reply.map (·.type)).getD (Name.typeOf r.value))
  return {
    value := r.value, type
    valueId := binding.map (valueId r.value)
    scope := l.scopeIn place.enclosing method
    position := place.position
    explicit := true }

/-- The results of a method in order. A stated result wins over an implied one on its path, and an
implied one counts only where no alternative follows it on its path. -/
def results (l : Layout) (interactions : List Interaction) (alternatives : List Alternative)
    (parameters : List String) (method : MethodId) : Except BuildError (List MethodResult) := do
  let implied ← l.impliedResults interactions method
  let kept := implied.filter fun (_, r) => !isSuperseded alternatives method r
  let all ← l.walk.results.foldlM (fun results (r, place) =>
    if place.method != method then .ok results
    else do
      let stated ← l.statedResult interactions parameters method r place
      return putResult results stated) kept
  return sortBy (fun a b => a.position ≤ b.position) (all.map (·.2))

/-! ## Methods and raises -/

def method (l : Layout) (o : Options) (interactions : List Interaction)
    (alternatives : List Alternative) (id : MethodId) (parameters : List String) :
    Except BuildError Method := do
  let (owner, name) ← match id with
    | none =>
      match l.walk.participants.head? with
      | some first => .ok (first, (l.walk.entry.map (·.method)).getD o.methodName)
      | none => .error .noParticipant
    | some call =>
      match itemAt? interactions call with
      | some i => .ok (i.target, i.operation)
      | none => .error (.unknownCall call)
  return {
    call := id, owner, name, parameters
    inferredParameters := id.isNone && l.infersParameters o
    results := ← l.results interactions alternatives parameters id }

/-- The calls that an exception passes through from `method` outwards, until one of them is made
inside a branch. `fuel` bounds their number. -/
def propagation (interactions : List Interaction) :
    (fuel : Nat) → MethodId → Except BuildError (List Int)
  | _, none => .ok []
  | 0, some call => .error (.endlessThrow call)
  | fuel + 1, some call =>
    match itemAt? interactions call with
    | none => .error (.unknownCall call)
    | some i => do
      let further ← if i.scope.inBranch then .ok [] else propagation interactions fuel i.method
      return call :: further

/-- A raise with the calls that the exception passes through. One that a method under test raises
inside a branch passes through none. -/
def throwOf (l : Layout) (interactions : List Interaction) (t : Raise) (place : Place) :
    Except BuildError Throw := do
  let scope := l.scopeIn place.enclosing t.parent
  let caught := scope.inBranch && l.methodIds.contains t.parent
  let through ←
    if caught then .ok [] else propagation interactions (interactions.length + 1) t.parent
  return {
    participant := t.participant
    exception := t.exception
    message := t.message
    method := t.parent
    scope, through
    position := place.position
    line := t.line }

/-! ## The model -/

/-- The model of a walk that is over. -/
def model (l : Layout) (o : Options) : Except BuildError Model := do
  if l.walk.calls.isEmpty then throw (.refused .emptyDiagram)
  refuse l.checkCycles
  let nesting ← refuse (l.checkNesting o)
  let callees ← (l.methodIds.filterMap id).mapM fun call => do
    return (call, ← l.parametersOfCall call)
  let built ← l.interactions o callees (l.givenParameters o) l.walk.calls
  let (interactions, inputs) := built.value
  let alternatives := l.alternatives
  let methods ← l.methodIds.mapM fun id => do
    l.method o interactions alternatives id (← parametersOf inputs callees id)
  let throws ← l.walk.raises.mapM fun (t, place) => l.throwOf interactions t place
  return {
    participants := l.walk.participants.zipIdx.map fun (name, ordinal) => { name, ordinal }
    interactions
    pipes := pipesOf interactions
    loops := l.loops
    alternatives, throws, methods
    warnings := nesting ++ built.warnings }

end Layout

end Model

namespace Diagram

/-- The model of a diagram. -/
def buildModel (d : Diagram) (o : Model.Options := {}) : Except BuildError Model := do
  (← Model.Walk.run {} 0 d.elements).layout.model o

end Diagram

end Lifeline
