import Lifeline.Name.Case

/-!
# Failures of synthesis

Why a model has no tests (`SynthesisError`). The model of a diagram that was read from a text only
fails where the naming rules do; the other failures are those of a model that is inconsistent in
itself.
-/

namespace Lifeline.Tests

/-- Why a model has no tests. -/
inductive SynthesisError where
  | naming (e : NameError)
  /-- No alternative has such a branch. -/
  | unknownBranch (block branch : Nat)
  | unknownLoop (block : Nat)
  /-- An exception passes through a call that is not there. -/
  | unknownCall (call : Int)
  | unclassified (name : String)
  | noParticipant
deriving Repr, DecidableEq

namespace SynthesisError

/-- What is said about a model that has no tests, where something is. -/
def message? : SynthesisError → Option String
  | .naming e => e.message?
  | .unknownBranch .. | .unknownLoop _ | .unknownCall _ | .unclassified _ | .noParticipant => none

end SynthesisError

end Lifeline.Tests
