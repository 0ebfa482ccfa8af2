import Lifeline.Code.Fold

/-!
# Code of a tree of tests

From a tree of tests to the code that it calls for (`Tests.Tree.synthesizeCode`). A class implements
each method of its suite once, and gets an empty method for whatever other suites call on it.
-/

namespace Lifeline.Code

open Tests (Assertion CallCheck MethodTests MockedMethod Stub Suite)

/-! ## Events of a method -/

/-- The stubs of a method, the first one of each call. -/
def stubsOf (m : MethodTests) : List Stub :=
  (m.groups.flatMap (·.stubs)).foldl
    (fun stubs s => if stubs.any (·.call == s.call) then stubs else stubs ++ [s]) []

/-- The value of a stub, where it has one. -/
def valueOf (s : Stub) : Option String := s.value.filter (!·.isEmpty)

/-- The event of a call. It binds the value that the stub of the call gives. -/
def callEvent (naming : NamingRules) (stubs : List Stub) (c : CallCheck) :
    Except NameError Event := do
  let binding ← match (stubs.find? (·.call == c.call)).bind valueOf with
    | some value => some <$> naming.valueName value
    | none => .ok none
  return {
    key := .call c.call
    moment := momentOf c.sequence
    scope := c.scope
    statement := some (.call { mock := c.mock, method := c.method, arguments := c.arguments,
                               binding, sequence := c.sequence }) }

/-- The event that an assertion tells of. A propagated exception is none: the call that raises it
is. -/
def eventOf (naming : NamingRules) (stubs : List Stub) :
    Assertion → Except NameError (Option Event)
  | .call c => some <$> callEvent naming stubs c
  | .result r => .ok (some {
      key := .result r.sequence
      moment := momentOf r.sequence
      scope := r.scope
      statement := some (.return { value := r.expected, sequence := r.sequence }) })
  | .raise t =>
    if t.propagated then .ok none
    else .ok (some {
      key := .raise t.sequence
      moment := momentOf t.sequence
      scope := t.scope
      statement := some (.raise { exception := t.exception, constant := t.constant,
                                  arguments := t.arguments, sequence := t.sequence }) })

def eventsOf (naming : NamingRules) (m : MethodTests) : Except NameError (List Event) := do
  let stubs := stubsOf m
  let told ← (m.groups.flatMap (·.cases)).filterMapM fun c => eventOf naming stubs c.assertion
  let events := told.foldl Event.add []
  return Event.settleResults (Event.addAnchors events (m.groups.map (·.path)))

/-! ## Values at hand -/

/-- The values at hand in a method with their names in generated code: parameters, what stubs give,
and the elements of loops. A later one hides an earlier one of the same name. -/
def namesOf (naming : NamingRules) (m : MethodTests) :
    Except NameError (List (String × String)) := do
  let parameters := m.parameters.map fun p => (p, p)
  let values ← ((stubsOf m).filterMap valueOf).mapM fun v => do return (v, ← naming.valueName v)
  let elements := (m.groups.flatMap (·.loops)).filterMap fun l =>
    (l.element.filter (!·.isEmpty)).map fun e => (e, e)
  return (parameters ++ values ++ elements).reverse

/-! ## Classes -/

/-- The message constants that the tests of a method name. -/
def constantsOf (m : MethodTests) : List Constant :=
  (m.groups.flatMap (·.raiseChecks)).filterMap fun t =>
    match t.constant, t.message with
    | some name, some template => if t.propagated then none else some { name, template }
    | _, _ => none

/-- The constants with more of them, of each name the first. -/
def addConstants (constants more : List Constant) : List Constant :=
  more.foldl (fun cs c => if cs.any (·.name == c.name) then cs else cs ++ [c]) constants

/-- The implementation of a method, with the helpers made before it. -/
def method (naming : NamingRules) (helpers : Helpers) (m : MethodTests) :
    Except CodeError (Method × Helpers) := do
  let events ← liftName (eventsOf naming m)
  let names ← liftName (namesOf naming m)
  let (body, helpers) ← (fold { naming, names } events).run helpers
  return ({ name := m.name, parameters := m.parameters, body }, helpers)

/-- What a class is made of so far. -/
structure Draft where
  constants : List Constant := []
  methods : List Method := []
  helpers : Helpers := []

/-- The draft with the implementation of a method. A method that is there already, because it is
reached along several paths, is not implemented again. -/
def Draft.implement (naming : NamingRules) (d : Draft) (m : MethodTests) :
    Except CodeError Draft := do
  if d.methods.any (·.name == m.name) then return d
  let (made, helpers) ← method naming d.helpers m
  return { constants := addConstants d.constants (constantsOf m)
           methods := d.methods ++ [made]
           helpers }

/-- The draft with an empty method for a call from another suite, unless it is there. -/
def Draft.allow (d : Draft) (m : MockedMethod) : Draft :=
  if d.methods.any (·.name == m.name) then d
  else
    let made : Method := { name := m.name, parameters := m.parameters, body := [] }
    { d with methods := d.methods ++ [made] }

/-- The class of a suite, on which other suites call the methods of `called`. -/
def classOf (naming : NamingRules) (called : List MockedMethod) (s : Suite) :
    Except CodeError Class := do
  let draft ← s.methods.foldlM (Draft.implement naming) {}
  let draft := called.foldl Draft.allow draft
  return { subject := s.subject, collaborators := s.mocks.map (·.name)
           constants := draft.constants, methods := draft.methods, helpers := draft.helpers }

/-! ## Interfaces, scaffolds and exceptions -/

/-- The mocks of one kind that stand for a collaborator, with the subjects of their suites. -/
def mocksOf (suites : List Suite) (kind : Tests.MockKind) : List (String × Tests.Mock) :=
  suites.flatMap fun s => (s.mocks.filter (·.kind == kind)).map (s.subject, ·)

/-- Methods of mocks, of each name the first. -/
def distinctMethods (methods : List MockedMethod) : List MockedMethod :=
  methods.foldl (fun ms m => if ms.any (·.name == m.name) then ms else ms ++ [m]) []

/-- The methods that suites call on an orchestrator. -/
def calledOn (suites : List Suite) (orchestrator : String) : List MockedMethod :=
  let mocks := (mocksOf suites .orchestrator).filter (·.2.collaborator == orchestrator)
  distinctMethods (mocks.flatMap (·.2.methods))

def interfaces (suites : List Suite) : List Interface :=
  let mocks := mocksOf suites .ioBoundary
  ((mocks.map (·.2.collaborator)).eraseDups).map fun name =>
    let own := mocks.filter (·.2.collaborator == name)
    { name
      users := own.map (·.1)
      methods := (distinctMethods (own.flatMap (·.2.methods))).map fun m =>
        { name := m.name, parameters := m.parameters, returns := m.returns } }

def scaffold (t : Tests.DecisionTable) : Scaffold where
  name := t.participant
  methods := t.methods.map fun m =>
    { name := m.name, parameters := m.parameters, returns := m.returns }
  status := t.status

/-- The exceptions that a group raises, those of its stubs first. -/
def raisedIn (g : Tests.Group) : List String :=
  (g.stubs.filterMap fun s => s.raises.filter (!·.isEmpty)) ++ g.raiseChecks.map (·.exception)

/-- The exceptions that groups raise, each once. -/
def exceptions (groups : List Tests.Group) : List String := (groups.flatMap raisedIn).eraseDups

end Lifeline.Code

namespace Lifeline.Tests

/-- The code that a tree of tests calls for. -/
def Tree.synthesizeCode (t : Tree) (profile : Profile := .builtin) :
    Except Code.CodeError Code.Tree := do
  let classes ← t.suites.mapM fun s =>
    Code.classOf profile.naming (Code.calledOn t.suites s.subject) s
  return { classes
           interfaces := Code.interfaces t.suites
           scaffolds := t.tables.map Code.scaffold
           exceptions := Code.exceptions t.groups }

end Lifeline.Tests
