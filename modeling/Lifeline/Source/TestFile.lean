import Lifeline.Code.Synthesis
import Lifeline.Source.Renderer

/-!
# Test files

The file of a suite: its imports, a fixture for each mock, and a class for each group, whose setup
holds the values of the path, makes the mocks answer, drives the branches and runs the method. And
the file of a decision table.
-/

namespace Lifeline.Source.Renderer

open Code (BranchHead LoopHead)
open Tests (Assertion Case Group Stub Suite)

/-! ## What a setup drives -/

/-- The block of code that a block of the diagram became. -/
def codeBlock? (r : Renderer) (block : Int) : Option CodeBlock := r.blocks.lookup block

/-- The loops of a group whose items come from a helper, with its name. -/
def helpedLoops (r : Renderer) (g : Group) : List (LoopHead × String) :=
  g.loops.filterMap fun l =>
    match r.codeBlock? l.block with
    | some (.iteration head) =>
      match head.source with
      | .helper name => if name.isEmpty then none else some (head, name)
      | .collection _ => none
    | _ => none

/-- The conditionals that the setup of a group passes, each with the branch it takes. -/
def drivenConditionals (r : Renderer) (g : Group) : List (List BranchHead × Int) :=
  g.driven.filterMap fun ref =>
    match r.codeBlock? ref.block with
    | some (.conditional branches) => some (branches, ref.branch)
    | _ => none

/-- The branches that are decided on the way to the one that is taken, that one included. -/
def decidedBranches (r : Renderer) (g : Group) : List (BranchHead × Int) :=
  (r.drivenConditionals g).flatMap fun (branches, taken) =>
    (branches.takeWhile fun b => b.index ≤ taken).map (·, taken)

/-! ## Fixtures -/

/-- Fixtures for names, of which those in `defined` have one already. -/
def fixtures (r : Renderer) (defined : List String) : List String →
    Writing (String × List String)
  | [] => .ok ("", defined)
  | name :: rest => do
    if defined.contains name then fixtures r defined rest
    else
      let first ← r.fill1 .fixtureValue "name" name
      let (others, defined) ← fixtures r (defined ++ [name]) rest
      return (first ++ others, defined)

/-- The collection of a loop as a test holds it, by the stub that gives it. -/
def heldCollection (g : Group) (l : Tests.LoopFixture) (collection : String) : String :=
  let (root, path) := Text.Packed.cut '.' collection
  let holder := (g.stubs.filter fun s => some s.call == l.producer).findSome? fun s =>
    s.holder.filter (!·.isEmpty)
  holder.getD root ++ match path with
    | some path => "." ++ path
    | none => ""

/-- Fixtures for the loops of a group: the element, and the collection that holds it alone. -/
def loopFixtures (r : Renderer) (g : Group) (defined : List String) :
    List Tests.LoopFixture → Writing (String × List String)
  | [] => .ok ("", defined)
  | l :: rest =>
    match l.element.filter (!·.isEmpty), l.collection.filter (!·.isEmpty) with
    | some element, some collection => do
      let (own, defined) ← r.fixtures defined [element]
      let filled ← r.fill .fixtureCollection
        [("collection", heldCollection g l collection), ("element", element)]
      let (others, defined) ← loopFixtures r g defined rest
      return (own ++ filled ++ others, defined)
    | _, _ => loopFixtures r g defined rest

/-- The name under which a test holds the value that a guard tests: an element or a parameter by
itself, the value of a stub by its holder. -/
def guardedName? (g : Group) (elements parameters : List String) (root : String) : Option String :=
  let holder := (g.stubs.reverse.filter (·.value == some root)).findSome? fun s =>
    s.holder.filter (!·.isEmpty)
  if elements.contains root || (holder.isNone && parameters.contains root) then some root
  else holder

/-- The line that gives the value tested by a branch what it takes to pass the branch by, or to
take it. -/
def guardFixture (r : Renderer) (g : Group) (elements parameters : List String)
    (branch : BranchHead) (taken : Int) : Writing String :=
  let guard := match branch.test with
    | .condition expression => if expression.isEmpty then none else branch.guard
    | _ => none
  match guard.bind ValueTest.ofGuard? with
  | none => .ok ""
  | some test =>
    match guardedName? g elements parameters test.root with
    | none => .ok ""
    | some name => do
      let value ← r.truth ((branch.index == taken) != test.negated)
      r.fill .guardFixture [("target", name ++ test.path), ("value", value)]

/-- The lines that give the values tested on the way what they take. -/
def guardFixtures (r : Renderer) (g : Group) (parameters : List String) : Writing String := do
  let elements := (g.loops.filterMap fun l => l.element.filter (!·.isEmpty)) ++
    (r.helpedLoops g).map (·.1.element)
  return concat (← (r.decidedBranches g).mapM fun (branch, taken) =>
    r.guardFixture g elements parameters branch taken)

/-! ## Stubs -/

/-- The names that hold what a method of a mock gives in a group, in order. -/
def holdersOf (g : Group) (s : Stub) : List String :=
  g.stubs.filterMap fun t =>
    if t.mock == s.mock && t.method == s.method then t.holder.filter (!·.isEmpty) else none

/-- The lines that make mocks answer. A method that gives several values gets all of them at its
first stub; `sequenced` holds the methods that have theirs. -/
def stubLines (r : Renderer) (g : Group) (sequenced : List (String × String)) :
    List Stub → Writing String
  | [] => .ok ""
  | s :: rest => do
    let note ← match s.guard.filter (!·.isEmpty) with
      | some guard =>
        r.fill1 .stubGuardNote "guard" (.ofList (Text.join [' ']
          (Text.runs (!Text.isBlank ·) guard.toList)))
      | none => .ok ""
    match s.raises.filter (!·.isEmpty), s.holder.filter (!·.isEmpty) with
    | some exception, _ =>
      let line ← r.fill .stubRaises
        [("mock", s.mock), ("method", s.method), ("exception", exception)]
      return note ++ line ++ (← stubLines r g sequenced rest)
    | none, none => return note ++ (← stubLines r g sequenced rest)
    | none, some holder =>
      match holdersOf g s with
      | [_] =>
        let line ← r.fill .stub [("mock", s.mock), ("method", s.method), ("value", holder)]
        return note ++ line ++ (← stubLines r g sequenced rest)
      | holders =>
        if sequenced.contains (s.mock, s.method) then
          return note ++ (← stubLines r g sequenced rest)
        else
          let values ← holders.mapM r.held
          let line ← r.fill .stubSequence [("mock", s.mock), ("method", s.method),
            ("values", Text.Packed.join ", " values)]
          return note ++ line ++ (← stubLines r g (sequenced ++ [(s.mock, s.method)]) rest)

/-- The lines that make helpers answer: predicates so that the branches are taken, and the sources
of loops with a single element. -/
def helperStubs (r : Renderer) (g : Group) : Writing String := do
  let predicates ← (r.decidedBranches g).mapM fun (branch, taken) =>
    match branch.test with
    | .helper name =>
      if name.isEmpty then .ok ""
      else do
        let value ← r.truth (branch.index == taken)
        r.fill .helperStub [("name", name), ("value", value)]
    | _ => .ok ""
  let sources ← (r.helpedLoops g).mapM fun (head, name) => do
    let value ← r.held head.element
    r.fill .helperStub [("name", name), ("value", "[" ++ value ++ "]")]
  return concat predicates ++ concat sources

/-! ## Tests -/

/-- A test of a group. `arguments` are those of the method under test. -/
def testCase (r : Renderer) (s : Suite) (method arguments : String) (g : Group) (c : Case) :
    Writing String :=
  match c.assertion with
  | .call check => do
    let invoke ← if c.invokes then
        let exception := match g.raiseChecks with
          | t :: _ => t.exception
          | [] => "Exception"
        r.fill .invokeSuppressed
          [("exception", exception), ("method", method), ("arguments", arguments)]
      else .ok ""
    let verb ← r.fill (if check.repeated then .verifyAny else .verifyOnce)
    let passed ← check.arguments.mapM (r.testValue g)
    r.fill .verifyTest [("test", c.name), ("invoke", invoke), ("mock", check.mock),
      ("method", check.method), ("check", verb), ("arguments", Text.Packed.join ", " passed)]
  | .result check => do
    let expected ← r.testValue g check.expected
    r.fill .resultTest [("test", c.name), ("expected", expected)]
  | .raise check => do
    let message ← match check.constant.filter (!·.isEmpty) with
      | some constant => do
        let subject ← r.typeName s.subject
        let values ← messageArguments (r.testValue g) check.arguments
        r.fill .throwMessageCheck
          [("subject", subject), ("constant", constant), ("arguments", values)]
      | none => .ok ""
    r.fill .throwTest [("test", c.name), ("exception", check.exception), ("method", method),
      ("arguments", arguments), ("message_check", message)]

def groupText (r : Renderer) (s : Suite) (method : String) (parameters : List String) (g : Group) :
    Writing String := do
  let mocks := s.mocks.map (·.name)
  let header ← r.fill .groupHeader [("group", g.name), ("description", Json.escape g.description),
    ("fixtures", furtherParameters mocks)]
  let mockLines ← mocks.mapM (r.fill1 .setupMock "mock")
  let (parameterLines, defined) ← r.fixtures mocks parameters
  let (stubValues, defined) ← r.fixtures defined
    (g.stubs.filterMap fun st => st.holder.filter (!·.isEmpty))
  let (loopLines, defined) ← r.loopFixtures g defined g.loops
  let (elementLines, _) ← r.fixtures defined ((r.helpedLoops g).map (·.1.element))
  let guardLines ← r.guardFixtures g parameters
  let stubs ← r.stubLines g [] g.stubs
  let subject ← r.typeName s.subject
  let collaborators ← mocks.mapM fun name => do
    r.fill .keywordArgument [("name", name), ("value", ← r.held name)]
  let construction ← r.fill .subjectConstruction
    [("subject", subject), ("arguments", Text.Packed.join ", " collaborators)]
  let helpers ← r.helperStubs g
  let arguments := Text.Packed.join ", " (← parameters.mapM r.held)
  let invoke ← if g.mode == .noException then
      r.fill .setupInvoke [("method", method), ("arguments", arguments)]
    else .ok ""
  let cases ← g.cases.mapM (r.testCase s method arguments g)
  return header ++ concat mockLines ++ parameterLines ++ stubValues ++ loopLines ++ elementLines ++
    guardLines ++ stubs ++ construction ++ helpers ++ invoke ++ concat cases

def importBlock (r : Renderer) (module name : String) : Writing Block := do
  return { kind := .declaration .importLine, name
           text := ← r.fill .importLine [("module", module), ("name", name)] }

def testFile (r : Renderer) (s : Suite) : Writing File := do
  let subject ← r.typeName s.subject
  let header ← r.fill1 .testHeader "subject" subject
  let import_ ← r.importBlock (← r.moduleOf s.subject) subject
  let errorsModule ← r.path r.profile.paths.errorsModule
  let imports ← (Code.exceptions s.groups).mapM (r.importBlock errorsModule)
  let mocks ← s.mocks.mapM fun m => do
    return ({ kind := .declaration .mock, name := m.name
              text := ← r.fill1 .mockDeclaration "mock" m.name } : Block)
  let groups ← s.methods.mapM fun m => m.groups.mapM fun g => do
    return ({ kind := .declaration .group, name := g.name
              text := ← r.groupText s m.name m.parameters g } : Block)
  let path ← r.path r.profile.paths.testFile s.subject
  return { path, role := .test
           blocks := { kind := .header, name := "header", text := header } :: import_ ::
             imports ++ mocks ++ groups.flatten }

/-! ## Decision tables -/

/-- The rows of a decision table for a method. -/
def decisionBlock (r : Renderer) (participant : String) (m : Tests.DecisionMethod) :
    Writing Block := do
  let rows ← m.rows.mapM fun row =>
    r.fill1 .decisionRow "values" (Text.Packed.join ", " (row.inputs ++ [row.expected]))
  let text ← r.fill .decisionMethod [("participant", participant), ("method", m.name),
    ("argnames", Text.Packed.join ", " (m.parameters ++ ["expected"])), ("rows", concat rows),
    ("arguments", Text.Packed.join ", " m.parameters)]
  return { kind := .declaration .decision, name := m.name, text }

def decisionFile (r : Renderer) (t : Tests.DecisionTable) : Writing File := do
  let participant ← r.typeName t.participant
  let pending ← r.truth (t.status == .pending)
  let module ← r.moduleOf t.participant
  let header ← r.fill .decisionHeader
    [("participant", participant), ("module", module), ("pending", pending)]
  let methods ← t.methods.mapM (r.decisionBlock participant)
  let path ← r.path r.profile.paths.decisionTableFile t.participant
  return { path, role := .decisionTable
           blocks := { kind := .header, name := "header", text := header } :: methods }

end Lifeline.Source.Renderer
