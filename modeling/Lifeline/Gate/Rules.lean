import Lifeline.Gate.Outcome
import Lifeline.Model.Basic
import Lifeline.Sorting
import Lifeline.Tests.Tree

/-!
# The quality gate

Checks of a tree of tests against the model it was made for: every call is verified once and every
reply stubbed (`arrowParity`), values flow as in the diagram (`dataFlow`), and groups, loops, raises
and decision tables follow their patterns (`patternRules`). A tree passes where no check finds a
failure.
-/

namespace Lifeline

namespace Gate

open Tests (Tree Group MethodTests CallCheck)

/-- The values of a list, each once and in order, with how often they occur. -/
def tally {α : Type} [DecidableEq α] (xs : List α) : List (α × Nat) :=
  xs.eraseDups.map fun x => (x, xs.count x)

/-! ## Arrow parity -/

def parityFailure (message : String) : Failure := ⟨.arrowParity, message⟩

/-- Failures for calls that are not verified exactly once. -/
def callFailures (t : Tree) (m : Model) : List Failure :=
  let checks := t.groups.flatMap (·.callChecks)
  let total := if checks.length == m.interactions.length then [] else
    [parityFailure
      s!"{m.interactions.length} call arrows but {checks.length} verification assertions"]
  total ++ m.interactions.filterMap fun i =>
    let count := checks.countP (·.call == i.index)
    if count == 1 then none
    else some (parityFailure
      s!"Call {i.target}.{i.operation} (line {i.line}) has {count} verification assertions")

/-- The name that holds the value of a stub, as messages show it. -/
def holderName (s : Tests.Stub) : String := s.holder.getD "None"

/-- The failure of a stub that fits no call, where there is one. -/
def stubFailure (m : Model) (g : Group) (s : Tests.Stub) : Option Failure :=
  match m.interactions.reverse.find? (·.index == s.call) with
  | none => some (parityFailure s!"Stub in '{g.name}' refers to unknown call {s.call}")
  | some i =>
    if s.value.isNone then
      if s.raises.isNone then
        some (parityFailure s!"Stub in '{g.name}' neither returns nor raises")
      else none
    else
      match i.reply with
      | some b =>
        if some b.valueId == s.valueId then none
        else some (parityFailure (unmatched s))
      | none => some (parityFailure (unmatched s))
where
  /-- The message about a stub without a reply. -/
  unmatched (s : Tests.Stub) : String :=
    s!"Stub '{holderName s}' in '{g.name}' matches no return arrow"

/-- Failures of the stubs and the result checks of a group. -/
def groupFailures (m : Model) (g : Group) : List Failure :=
  let repeated := (tally (g.stubs.map (·.call))).filterMap fun (call, count) =>
    if count ≤ 1 then none
    else some (parityFailure s!"Group '{g.name}' stubs call {call} {count} times")
  let results := if g.resultChecks.length ≤ 1 then [] else
    [parityFailure s!"Group '{g.name}' has {g.resultChecks.length} result checks"]
  repeated ++ g.stubs.filterMap (stubFailure m g) ++ results

/-- Whether some stub of the tree gives the value of a call. -/
def isStubbed (t : Tree) (m : Model) (call : Int) : Bool :=
  m.interactions.any (·.index == call) &&
    t.groups.any fun g => g.stubs.any fun s => s.call == call && s.value.isSome

/-- Failures for replies that no stub gives. -/
def replyFailures (t : Tree) (m : Model) : List Failure :=
  m.interactions.filterMap fun i =>
    match i.reply with
    | some b =>
      if isStubbed t m i.index then none
      else some (parityFailure s!"Return '{b.value}' (line {b.line}) has no stub")
    | none => none

/-- Whether an exception-triggered group is about a path. -/
def throwsOn (t : Tree) (path : Model.Path) : Bool :=
  t.groups.any fun g =>
    g.mode == .exceptionTriggered &&
      g.path.map (·.choice) == path.map fun (b, i) => ((b : Int), (i : Int))

/-- Failures for results that are not checked as they should be. -/
def resultFailures (t : Tree) (m : Model) : List Failure :=
  let checks := t.groups.flatMap (·.resultChecks)
  let wrong := m.methods.flatMap fun method => method.results.filterMap fun r =>
    let count := checks.countP (·.sequence == r.position)
    if 1 < count || (count == 0 && !throwsOn t r.scope.path) then
      some (parityFailure
        s!"Result '{r.value}' of {method.owner}.{method.name} has {count} result checks")
    else none
  let stray := t.groups.flatMap fun g => g.resultChecks.filterMap fun a =>
    let isOf (r : Model.MethodResult) := a.sequence == (r.position : Int)
    if m.methods.any fun method => method.results.any isOf then none
    else some (parityFailure s!"Result check in '{g.name}' matches no result of the diagram")
  wrong ++ stray

def arrowParity (t : Tree) (m : Model) : List Failure :=
  callFailures t m ++ t.groups.flatMap (groupFailures m) ++ replyFailures t m ++ resultFailures t m

/-! ## Data flow -/

def flowFailure (message : String) : Failure := ⟨.dataFlow, message⟩

/-- Failures of the arguments of a check of a call: a stubbed value comes from a stub of the
group. -/
def argumentFailures (g : Group) (c : CallCheck) : List Failure :=
  c.arguments.filterMap fun a =>
    let produced := match a.valueId with
      | some id => g.stubs.any (·.valueId == some id)
      | none => false
    if a.source == .stub && !produced then
      some (flowFailure (s!"Argument '{a.text}' of {c.mock}.{c.method} in '{g.name}' " ++
        "is not produced by a stub of the group"))
    else none

/-- Failures of the checks of calls in a group, which come in the order of the diagram. `previous`
is where the last one stood. -/
def orderFailures (g : Group) (previous : Int) : List CallCheck → List Failure
  | [] => []
  | c :: rest =>
    (if c.sequence ≤ previous then
      [flowFailure s!"Verifications in '{g.name}' are out of interaction order"] else []) ++
      argumentFailures g c ++ orderFailures g c.sequence rest

/-- The last check of a call in the tree. -/
def lastCheck? (t : Tree) (call : Int) : Option CallCheck :=
  (t.groups.flatMap (·.callChecks)).reverse.find? (·.call == call)

/-- Failures for values that do not reach the argument they flow into. -/
def pipeFailures (t : Tree) (m : Model) : List Failure :=
  m.pipes.filterMap fun p =>
    match lastCheck? t p.consumer with
    | none => none
    | some c =>
      if c.arguments.any fun a => a.text == p.argument && a.valueId == some p.valueId then none
      else some (flowFailure
        s!"Argument '{p.argument}' of {c.mock}.{c.method} does not carry value {p.valueId}")

/-- Failures for checks that do not stand where their call does. -/
def positionFailures (t : Tree) (m : Model) : List Failure :=
  m.interactions.filterMap fun i =>
    match lastCheck? t i.index with
    | some c =>
      if c.sequence == i.position then none
      else some (flowFailure s!"Verification of call {i.index} is out of source order")
    | none => none

def dataFlow (t : Tree) (m : Model) : List Failure :=
  t.groups.flatMap (fun g => orderFailures g (-1) g.callChecks) ++ pipeFailures t m ++
    positionFailures t m

/-! ## Pattern rules -/

def patternFailure (message : String) : Failure := ⟨.patternRules, message⟩

/-- Failures of a method whose setup reaches one of its raises, one for each such group. -/
def setupFailures (m : MethodTests) : List Failure :=
  let raises := m.groups.flatMap (·.raiseChecks)
  m.groups.filterMap fun g =>
    if g.mode != .noException then none
    else
      let taken := g.driven.map (·.choice)
      (raises.find? fun t =>
        (t.scope.filter (·.kind == .alt)).all fun r => taken.contains r.choice).map fun t =>
          patternFailure s!"Setup of '{g.name}' reaches the raise of {t.exception}"

/-- Failures of the mocks and the setups of a suite. -/
def suiteFailures (s : Tests.Suite) : List Failure :=
  let mocked := s.mocks.map (·.collaborator)
  let repeated := (tally mocked).filterMap fun (collaborator, count) =>
    if count == 1 then none
    else some (patternFailure s!"Suite '{s.subject}' declares {count} mocks for '{collaborator}'")
  let missing := s.groups.flatMap fun g => g.callChecks.filterMap fun c =>
    if mocked.contains c.collaborator then none
    else some (patternFailure s!"Suite '{s.subject}' has no mock for '{c.collaborator}'")
  repeated ++ missing ++ s.methods.flatMap setupFailures

/-- Failures for branches that do not have exactly one group. -/
def branchFailures (t : Tree) (m : Model) : List Failure :=
  let ends := t.groups.filterMap fun g => g.path.getLast?.map (·.choice)
  (m.alternatives.filter fun b => m.methods.any (·.call == b.method)).flatMap fun b =>
    b.branches.filterMap fun br =>
      let count := ends.count ((b.id : Int), (br.index : Int))
      if count == 1 then none
      else some (patternFailure
        s!"Branch {br.index} of the 'alt' block on line {b.line} has {count} test groups")

/-- Failures of where a group raises and of who runs the method. -/
def raiseFailures (g : Group) : List Failure :=
  let names := (tally (g.cases.map (·.name))).filterMap fun (name, count) =>
    if count ≤ 1 then none
    else some (patternFailure s!"Group '{g.name}' has {count} tests named '{name}'")
  let rest := match g.mode with
    | .noException =>
      if g.raiseChecks.isEmpty && !g.cases.any (·.invokes) then []
      else [patternFailure s!"Group '{g.name}' invokes the method under test outside setup"]
    | .exceptionTriggered =>
      (if g.raiseChecks.length == 1 then [] else
        [patternFailure s!"Exception group '{g.name}' has {g.raiseChecks.length} raise checks"]) ++
      (if g.resultChecks.isEmpty then [] else
        [patternFailure s!"Exception group '{g.name}' checks a result"]) ++
      (if g.cases.all (·.invokes) then [] else
        [patternFailure
          s!"Exception group '{g.name}' relies on setup to invoke the method under test"])
  names ++ rest

/-- Failures of the loops, the stubs and the raises of a group. -/
def shapeFailures (m : Model) (g : Group) : List Failure :=
  let sizes := g.loops.filterMap fun l =>
    if l.size == 1 then none
    else some (patternFailure s!"Loop '{l.label}' in '{g.name}' has {l.size} elements")
  let stubs := g.stubs.filterMap fun s =>
    if m.interactions.any (fun i => i.index == s.call && i.scope.inLoop) && !s.singleElement then
      some (patternFailure s!"Stub '{holderName s}' in '{g.name}' is not single-element")
    else none
  sizes ++ stubs ++ raiseFailures g

/-- The computational leaves that have mocks, each once, in order of the alphabet. -/
def computationalLeaves (t : Tree) : List String :=
  let mocks := t.suites.flatMap fun s => s.mocks.filter (·.kind == .computational)
  sortBy (fun a b => a ≤ b) (mocks.map (·.collaborator)).eraseDups

/-- Failures for computational leaves and their decision tables. -/
def tableFailures (t : Tree) : List Failure :=
  let counts := (computationalLeaves t).filterMap fun leaf =>
    let count := t.tables.countP (·.participant == leaf)
    if count == 1 then none
    else some (patternFailure s!"Computational leaf '{leaf}' has {count} decision tables")
  let marks := t.tables.filterMap fun d =>
    let placeholders := d.methods.any fun m => m.rows.any (·.placeholder)
    match d.status with
    | .complete =>
      if placeholders then some (patternFailure
        s!"Decision table for '{d.participant}' is complete but has placeholder rows") else none
    | .pending =>
      if placeholders then none else some (patternFailure
        s!"Decision table for '{d.participant}' is not marked for human input")
  counts ++ marks

def patternRules (t : Tree) (m : Model) : List Failure :=
  t.suites.flatMap suiteFailures ++ branchFailures t m ++ t.groups.flatMap (shapeFailures m) ++
    tableFailures t

/-! ## The gate -/

/-- The checks of a tree against its model. -/
def run (t : Tree) (m : Model) : Outcome where
  checks := [.arrowParity, .dataFlow, .patternRules]
  failures := arrowParity t m ++ dataFlow t m ++ patternRules t m

/-- Whether every decision table has been completed. -/
def readiness (t : Tree) : Outcome where
  checks := [.readiness]
  failures := t.pendingTables.map fun d =>
    ⟨.readiness, s!"Decision table for '{d.participant}' is pending human input"⟩

end Gate

end Lifeline
