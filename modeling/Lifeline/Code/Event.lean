import Lifeline.Code.Tree
import Lifeline.Sorting

/-!
# Events of a method

What the checks of a method's tests say happens in it: calls, a result or a raise, each at a moment
and inside its blocks, and the start of each branch that has a group. A result moves behind
everything else in its scope (`settleResults`).
-/

namespace Lifeline.Code

open Tests (ScopeRef)

/-- What tells an event apart from the others of its method. -/
inductive EventKey where
  | call (id : Int)
  | result (sequence : Int)
  | raise (sequence : Int)
  /-- The start of a branch. -/
  | anchor (block branch : Int)
deriving Repr, DecidableEq

/-- Whether an event is a result. -/
def EventKey.isResult : EventKey → Bool
  | .result _ => true
  | _ => false

/-- Something that happens in a method. Moments count in half steps: what stands at position `n` of
the diagram happens at `2 * n`, and a result may come half a step behind another event. -/
structure Event where
  key : EventKey
  moment : Int
  /-- The blocks around the event, outermost first. -/
  scope : List ScopeRef
  /-- The statement that the event makes; the start of a branch makes none. -/
  statement : Option Statement

/-- The moment of a position. -/
def momentOf (position : Int) : Int := 2 * position

/-- The blocks of a scope with their branches. -/
def choices (scope : List ScopeRef) : List (Int × Int) := scope.map (·.choice)

namespace Event

/-- The events with one more, unless there is one of its key. -/
def add (events : List Event) (e : Event) : List Event :=
  if events.any (·.key == e.key) then events else events ++ [e]

/-! ## Branches -/

/-- For each block the blocks around it, as the first event inside it has them. -/
def surroundings (events : List Event) : List (Int × List ScopeRef) :=
  events.flatMap fun e => e.scope.zipIdx.map fun (r, i) => (r.block, e.scope.take i)

/-- The events with the start of every branch on the path of a group. -/
def addAnchors (events : List Event) (paths : List (List ScopeRef)) : List Event :=
  let known := surroundings events
  paths.foldl (fun events path =>
    path.zipIdx.foldl (fun events (r, i) =>
      add events {
        key := .anchor r.block r.branch
        moment := momentOf r.position
        scope := (known.lookup r.block).getD (path.take i) ++ [r]
        statement := none }) events) events

/-! ## Results -/

/-- The latest moment of the events inside a scope. -/
def latestIn (events : List Event) (scope : List ScopeRef) (moment : Int) : Int :=
  (events.filter fun e => (choices scope).isPrefixOf (choices e.scope)).foldl
    (fun latest e => max latest e.moment) moment

/-- The events with one of them moved behind all others in its scope. -/
def settle (events : List Event) (e : Event) : List Event :=
  let latest := latestIn events e.scope e.moment
  if e.moment < latest then
    events.map fun x => if x.key == e.key then { x with moment := latest + 1 } else x
  else events

/-- The events with every result behind all others in its scope. -/
def settleResults (events : List Event) : List Event :=
  events.foldl (fun events e => if e.key.isResult then settle events e else events) events

/-- The events in the order in which they happen. -/
def inOrder (events : List Event) : List Event :=
  sortBy (fun a b => a.moment ≤ b.moment) events

end Event

end Lifeline.Code
