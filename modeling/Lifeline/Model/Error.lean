import Lifeline.Model.Basic
import Lifeline.Text.Basic

/-!
# Model errors

Why a diagram has no model (`ModelError`), and the wording of errors and warnings. A list of
elements that was not read from a text can also be inconsistent in itself (`BuildError`).
-/

namespace Lifeline

namespace Model

def Finding.message : Finding → String
  | .inferredInput name =>
    s!"'{name}' is not bound by any return; treating it as an input of the method under test"
  | .ambiguousBinding name lines =>
    s!"'{name}' is bound by {lines.length} earlier returns (lines " ++
      Text.Packed.join ", " (lines.map toString) ++ "); using the most recent"
  | .deepNesting depth => s!"'alt' block nested {depth} levels deep was expanded"

def Warning.message (w : Warning) : String := w.finding.message

end Model

/-- Why a diagram has no model. -/
inductive ModelError where
  | emptyDiagram
  | circularCall (cycle : List String)
  | excessiveNesting (depth : Nat) (line : Int)
  /-- Several replies bind the name of an argument, and none may be preferred. -/
  | ambiguousBinding (name : String) (lines : List Int) (line : Int)
  /-- No reply binds an argument, and it is no input. -/
  | unresolvedArgument (argument source target operation : String) (line : Int)
  /-- No reply binds a result, and it is no input. -/
  | unresolvedResult (value source : String) (line : Int)
deriving Repr, DecidableEq

namespace ModelError

def kind : ModelError → String
  | .emptyDiagram => "empty-diagram"
  | .circularCall _ => "circular-call"
  | .excessiveNesting .. => "excessive-nesting"
  | .ambiguousBinding .. => "ambiguous-binding"
  | .unresolvedArgument .. | .unresolvedResult .. => "unresolved-reference"

/-- The line of the diagram that an error is on, where it is on one. -/
def line? : ModelError → Option Int
  | .emptyDiagram | .circularCall _ => none
  | .excessiveNesting _ line | .ambiguousBinding _ _ line | .unresolvedArgument _ _ _ _ line |
    .unresolvedResult _ _ line => some line

def detail : ModelError → String
  | .emptyDiagram => "The diagram contains no call arrows"
  | .circularCall cycle => "Call cycle detected: " ++ Text.Packed.join " -> " cycle
  | .excessiveNesting depth _ =>
    s!"'alt' block is nested {depth} levels deep; split the method or allow deep nesting explicitly"
  | .ambiguousBinding name lines _ => (Model.Finding.ambiguousBinding name lines).message
  | .unresolvedArgument argument source target operation _ =>
    s!"Argument '{argument}' of {source} -> {target}.{operation} " ++
      "matches no earlier return and is not an input"
  | .unresolvedResult value source _ =>
    s!"Result '{value}' of {source} matches no earlier return and is not an input"

def message (e : ModelError) : String :=
  (match e.line? with
    | some line => s!"Line {line}: "
    | none => "") ++ s!"{e.kind}: {e.detail}"

end ModelError

/-- Why a list of elements has no model. All but the first cannot happen to the elements of a
diagram that was read from a text. -/
inductive BuildError where
  | refused (e : ModelError)
  /-- A branch or the end of a block comes where no block is open. -/
  | noOpenBlock
  /-- A call is made in the activation of a call that is not there. -/
  | unknownParent (call : Int)
  /-- A reply or a raise belongs to a call that is not there. -/
  | unknownCall (call : Int)
  | noParticipant
  /-- An exception passes through ever more calls. -/
  | endlessThrow (call : Int)
deriving Repr, DecidableEq

/-- What is said about elements that have no model, where something is. -/
def BuildError.message? : BuildError → Option String
  | .refused e => some e.message
  | .noOpenBlock | .unknownParent _ | .unknownCall _ | .noParticipant | .endlessThrow _ => none

end Lifeline
