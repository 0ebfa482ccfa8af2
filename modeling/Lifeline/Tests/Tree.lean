import Lifeline.Diagram.Element

/-!
# Trees of tests

The tests that a diagram calls for: a suite for each orchestrator with its mocks, and in it the
groups of tests of each method, one group for each path; and a decision table for each
computational leaf. A tree stands on its own. It names blocks, calls and values by their numbers
and does not refer to the model it came from.
-/

namespace Lifeline.Tests

/-- A loop or a branch around a part of a tree. -/
structure ScopeRef where
  kind : FragmentKind
  block : Int
  /-- The branch of an alternative; zero for a loop. -/
  branch : Int := 0
  guard : Option String := none
  label : String := ""
  element : Option String := none
  collection : Option String := none
  /-- Where the loop or the branch starts. -/
  position : Int
deriving Repr, DecidableEq

/-- The block of a reference and the branch of it that is meant. -/
def ScopeRef.choice (r : ScopeRef) : Int × Int := (r.block, r.branch)

/-- Where a value comes from. -/
inductive ValueSource where
  | input | stub | literal | loopElement
deriving Repr, DecidableEq

/-- A value that is passed on, returned or written into a message: the value itself by name and the
attributes read from it. A literal is its own name. -/
structure ValueRef where
  /-- The value as the diagram writes it. -/
  text : String
  source : ValueSource
  name : String
  path : String := ""
  valueId : Option String := none
deriving Repr, DecidableEq

/-- Makes a mock answer a call, by returning a value or by raising an exception. -/
structure Stub where
  call : Int
  mock : String
  method : String
  /-- The value as the diagram writes it; a void call that raises has none. -/
  value : Option String := none
  /-- The name that holds the value in the test, unique within its group. -/
  holder : Option String := none
  valueId : Option String := none
  type : Option String := none
  sequence : Int
  /-- Whether the call is made in a loop or gives the collection of one. -/
  singleElement : Bool := false
  /-- The guard that the value decides. -/
  guard : Option String := none
  raises : Option String := none
deriving Repr, DecidableEq

/-- Checks that a call was made with its arguments. -/
structure CallCheck where
  call : Int
  sequence : Int
  collaborator : String
  mock : String
  method : String
  arguments : List ValueRef := []
  scope : List ScopeRef := []
  repeated : Bool := false
deriving Repr, DecidableEq

/-- Checks the value that the method returns. -/
structure ResultCheck where
  expected : ValueRef
  type : String
  sequence : Int
  scope : List ScopeRef := []
deriving Repr, DecidableEq

/-- A value for a placeholder of a message. -/
structure MessageArgument where
  placeholder : String
  value : ValueRef
deriving Repr, DecidableEq

/-- Checks that the method raises. A propagated exception is raised by the stub of a call. -/
structure RaiseCheck where
  exception : String
  message : Option String := none
  constant : Option String := none
  arguments : List MessageArgument := []
  propagated : Bool := false
  raisedBy : Option Int := none
  sequence : Int
  scope : List ScopeRef := []
deriving Repr, DecidableEq

/-- What a test checks. -/
inductive Assertion where
  | call (c : CallCheck)
  | result (r : ResultCheck)
  | raise (t : RaiseCheck)
deriving Repr, DecidableEq

/-- A test. It runs the method itself, or relies on the setup of its group to do so. -/
structure Case where
  name : String
  assertion : Assertion
  invokes : Bool := false
deriving Repr, DecidableEq

/-- Whether the path of a group ends in an exception. -/
inductive Mode where
  | noException | exceptionTriggered
deriving Repr, DecidableEq

/-- Test data for a loop. -/
structure LoopFixture where
  block : Int
  label : String
  element : Option String := none
  collection : Option String := none
  producer : Option Int := none
  size : Int := 1
deriving Repr, DecidableEq

/-- The tests of one path of a method. The path names the branches that the group is about, the
steering those that the setup takes beyond them. -/
structure Group where
  name : String
  description : String := ""
  path : List ScopeRef := []
  steering : List ScopeRef := []
  mode : Mode := .noException
  stubs : List Stub := []
  loops : List LoopFixture := []
  cases : List Case := []
deriving Repr, DecidableEq

namespace Group

def callChecks (g : Group) : List CallCheck :=
  g.cases.filterMap fun c => match c.assertion with | .call a => some a | _ => none

def resultChecks (g : Group) : List ResultCheck :=
  g.cases.filterMap fun c => match c.assertion with | .result a => some a | _ => none

def raiseChecks (g : Group) : List RaiseCheck :=
  g.cases.filterMap fun c => match c.assertion with | .raise a => some a | _ => none

/-- The branches that the setup takes, those of the path first. -/
def driven (g : Group) : List ScopeRef := g.path ++ g.steering

end Group

structure MethodTests where
  name : String
  parameters : List String := []
  groups : List Group := []
deriving Repr, DecidableEq

structure MockedMethod where
  name : String
  parameters : List String := []
  returns : Option String := none
deriving Repr, DecidableEq

/-- What a mock stands for. -/
inductive MockKind where
  | orchestrator | computational | ioBoundary
deriving Repr, DecidableEq

/-- The mock of a collaborator. -/
structure Mock where
  collaborator : String
  name : String
  kind : MockKind
  methods : List MockedMethod := []
deriving Repr, DecidableEq

structure Suite where
  subject : String
  underTest : Bool := false
  mocks : List Mock := []
  methods : List MethodTests := []
deriving Repr, DecidableEq

def Suite.groups (s : Suite) : List Group := s.methods.flatMap (·.groups)

/-- Whether a decision table still waits for its rows. -/
inductive TableStatus where
  | pending | complete
deriving Repr, DecidableEq

/-- A row of a decision table. A placeholder stands in until someone writes the row. -/
structure DecisionRow where
  inputs : List String := []
  expected : String := "None"
  placeholder : Bool := false
deriving Repr, DecidableEq

/-- The rows for a method. -/
structure DecisionMethod where
  name : String
  parameters : List String := []
  returns : Option String := none
  rows : List DecisionRow := []
deriving Repr, DecidableEq

/-- The decision table of a computational leaf. -/
structure DecisionTable where
  participant : String
  methods : List DecisionMethod := []
  status : TableStatus := .pending
deriving Repr, DecidableEq

structure Tree where
  componentUnderTest : String
  suites : List Suite := []
  tables : List DecisionTable := []
deriving Repr, DecidableEq

namespace Tree

def groups (t : Tree) : List Group := t.suites.flatMap (·.groups)

def testCount (t : Tree) : Nat := (t.groups.flatMap (·.cases)).length

/-- The decision tables that wait for their rows. -/
def pendingTables (t : Tree) : List DecisionTable := t.tables.filter (·.status == .pending)

end Tree

end Lifeline.Tests
