import Lifeline.Gate.Rules
import Lifeline.Plan.Basic

/-!
# Placement

No planned write may touch what is there: a file is created only where there is none, and an
extended file keeps its content at its start.
-/

namespace Lifeline.Plan

/-- The failure of an operation that is out of place, where it is. -/
def Operation.placementFailure (o : Operation) : Option Gate.Failure :=
  match o.mode, o.previous with
  | .create, some _ => some ⟨.placement, s!"'{o.path}' exists but is planned as CREATE"⟩
  | .create, none => none
  | .update, none =>
    some ⟨.placement, s!"'{o.path}' is planned as UPDATE but does not exist"⟩
  | .update, some previous =>
    if Text.Packed.startsWith previous o.content then none
    else
      some ⟨.placement, s!"UPDATE of '{o.path}' changes content outside the new-additions region"⟩

end Lifeline.Plan

namespace Lifeline.Gate

/-- Whether every write of some operations is in place. -/
def placement (operations : List Plan.Operation) : Outcome where
  checks := [.placement]
  failures := operations.filterMap (·.placementFailure)

/-- The checks of a tree against its model, and of the planned writes where they are known. -/
def runWithPlan (t : Tests.Tree) (m : Model) (plan : Option (List Plan.Operation)) : Outcome :=
  match plan with
  | some operations => (run t m).and (placement operations)
  | none => run t m

end Lifeline.Gate
