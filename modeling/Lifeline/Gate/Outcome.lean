import Lifeline.Sorting
import Lifeline.Text.Basic

/-!
# Outcomes of checks

What checks ran and which failures they found (`Gate.Outcome`), and the message that stops a run.
-/

namespace Lifeline.Gate

/-- The checks of the gate and of what surrounds it. -/
inductive Check where
  | arrowParity | dataFlow | placement | patternRules | readiness
deriving Repr, DecidableEq

def Check.name : Check → String
  | .arrowParity => "arrow-parity"
  | .dataFlow => "data-flow-integrity"
  | .placement => "placement"
  | .patternRules => "pattern-rules"
  | .readiness => "implementation-readiness"

/-- A check that failed, with the reason. -/
structure Failure where
  check : Check
  message : String
deriving Repr, DecidableEq

/-- The checks that ran and what they found. -/
structure Outcome where
  checks : List Check
  failures : List Failure
deriving Repr, DecidableEq

namespace Outcome

/-- Whether nothing was found. -/
def passed (o : Outcome) : Bool := o.failures.isEmpty

/-- The names of the checks that failed, each once, in order of the alphabet. -/
def failedChecks (o : Outcome) : List String :=
  sortBy (fun a b => a ≤ b) (o.failures.map (·.check.name)).eraseDups

def message (o : Outcome) : String :=
  "Quality gate failed:\n" ++
    Text.Packed.join "\n" (o.failures.map fun f => s!"  {f.check.name}: {f.message}")

end Outcome

/-- The outcome of two sets of checks. -/
def Outcome.and (a b : Outcome) : Outcome :=
  { checks := a.checks ++ b.checks, failures := a.failures ++ b.failures }

end Lifeline.Gate
