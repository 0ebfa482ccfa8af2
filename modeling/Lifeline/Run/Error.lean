import Lifeline.Code.Fold
import Lifeline.Diagram.Error
import Lifeline.Gate.Outcome
import Lifeline.Model.Error
import Lifeline.Plan.Error
import Lifeline.Tests.Error

/-!
# Failures of a run

The stages of a run, and the failure of one of them.
-/

namespace Lifeline.Run

/-- The stages of a run, in order. -/
inductive Stage where
  | parse | build | classify | synthesizeTests | gate | synthesizeCode | render | plan | placement
  | commit
deriving Repr, DecidableEq

def Stage.name : Stage → String
  | .parse => "parse"
  | .build => "build"
  | .classify => "classify"
  | .synthesizeTests => "synthesize-tests"
  | .gate => "quality-gate"
  | .synthesizeCode => "synthesize-implementation"
  | .render => "render"
  | .plan => "plan"
  | .placement => "placement"
  | .commit => "commit"

/-- Why a stage fails. -/
inductive Cause where
  | diagram (e : DiagramError)
  | model (e : BuildError)
  | tests (e : Tests.SynthesisError)
  | naming (e : NameError)
  | gate (o : Gate.Outcome)
  | code (e : Code.CodeError)
  | plan (e : Plan.Error)
deriving Repr, DecidableEq

/-- What is said about a cause, where something is. -/
def Cause.message? : Cause → Option String
  | .diagram e => some e.message
  | .model e => e.message?
  | .tests e => e.message?
  | .naming e => e.message?
  | .gate o => some o.message
  | .code e => e.message?
  | .plan e => e.message?

/-- The failure of a stage. -/
structure Error where
  stage : Stage
  cause : Cause
deriving Repr, DecidableEq

/-- What is said about the failure of a stage, where something is said about its cause. -/
def Error.message? (e : Error) : Option String :=
  e.cause.message?.map ((e.stage.name ++ " failed: ") ++ ·)

/-- A stage that fails as `cause` says. -/
def Stage.run {ε α : Type} (stage : Stage) (cause : ε → Cause) : Except ε α → Except Error α
  | .ok a => .ok a
  | .error e => .error { stage, cause := cause e }

/-- A stage that checks. -/
def Stage.check (stage : Stage) (o : Gate.Outcome) : Except Error Unit :=
  if o.passed then .ok () else .error { stage, cause := .gate o }

end Lifeline.Run
