import Lifeline.Model.Basic

/-!
# Steering

How the setup of a group gets through the alternatives beyond its own path. Where a branch is open
to choice, the first one is taken through which some way reaches no raise (`steer`).
-/

namespace Lifeline.Tests

open Model

/-- A place where an exception leaves a method: a raise of its own, or a call that passes on the
exception of a collaborator. -/
structure RaiseSite where
  throw : Throw
  scope : Scope
  sequence : Nat
  /-- The call that passes the exception on. -/
  raisedBy : Option Int
deriving Repr, DecidableEq

def RaiseSite.propagated (s : RaiseSite) : Bool := s.raisedBy.isSome

/-- Whether all branches around a scope are among those chosen. -/
def runs (scope : Scope) (chosen : Path) : Bool := scope.path.all chosen.contains

/-- Whether a scope lies right inside a branch, with no further branch between. -/
def isRightInside (scope : Scope) (branch : Nat × Nat) : Bool := scope.path.getLast? == some branch

/-- Whether some way through a branch reaches no raise. `fuel` bounds how deep alternatives are
nested. -/
def avoidsRaises (blocks : List Alternative) (sites : List RaiseSite) :
    (fuel : Nat) → (branch : Nat × Nat) → Bool
  | 0, _ => true
  | fuel + 1, branch =>
    !sites.any (fun s => isRightInside s.scope branch) &&
      (blocks.filter fun b => isRightInside b.scope branch).all fun b =>
        b.branches.any fun br => avoidsRaises blocks sites fuel (b.id, br.index)

/-- The branch of an alternative that the setup takes: the first through which some way reaches no
raise, or else the first. -/
def preferredBranch (blocks : List Alternative) (sites : List RaiseSite) (b : Alternative) : Nat :=
  let avoids (br : Branch) := avoidsRaises blocks sites (blocks.length + 1) (b.id, br.index)
  match b.branches.find? avoids with
  | some br => br.index
  | none => (b.branches.head?.map (·.index)).getD 0

/-- The branches taken beyond those already chosen, in the order of the alternatives. An
alternative counts when it is reached and not decided yet. -/
def steerFrom (blocks : List Alternative) (sites : List RaiseSite) (chosen : Path) :
    List Alternative → Path
  | [] => []
  | b :: rest =>
    if chosen.any (·.1 == b.id) || !runs b.scope chosen then steerFrom blocks sites chosen rest
    else
      let choice := (b.id, preferredBranch blocks sites b)
      choice :: steerFrom blocks sites (chosen ++ [choice]) rest

/-- The branches taken beyond a path. Alternatives come in the order of the diagram, so one that
encloses another is decided first. -/
def steer (path : Path) (blocks : List Alternative) (sites : List RaiseSite) : Path :=
  steerFrom blocks sites path blocks

end Lifeline.Tests
