import Lifeline.Sorting
import Lifeline.Tests.Tree
import Lifeline.Text.Quoted

/-!
# Completing decision tables

Rows that someone has written take the place of the placeholders of a decision table
(`DecisionTable.complete`). Every method of the table needs at least one, and each row one input for
each parameter.
-/

namespace Lifeline.Tests

/-- Why rows do not complete a decision table. -/
inductive RowsError where
  /-- The table has no methods of these names. -/
  | unknownMethods (participant : String) (names : List String)
  | missingRows (participant method : String)
  | placeholder (method : String) (inputs : List String)
  /-- A row has too few or too many inputs. -/
  | inputCount (method : String) (inputs : List String) (expected : Nat)
deriving Repr, DecidableEq

def RowsError.message : RowsError → String
  | .unknownMethods participant names =>
    s!"Decision table '{participant}' has no method(s): " ++ Text.Packed.join ", " names
  | .missingRows participant method => s!"Decision table '{participant}' needs rows for '{method}'"
  | .placeholder method inputs =>
    "Row " ++ Text.Packed.quotedList inputs ++ s!" of '{method}' is still a placeholder"
  | .inputCount method inputs expected =>
    "Row " ++ Text.Packed.quotedList inputs ++
      s!" of '{method}' has {inputs.length} inputs, expected {expected}"

/-- Rows by the name of their method. -/
abbrev Rows := List (String × List DecisionRow)

def DecisionMethod.checkRow (m : DecisionMethod) (r : DecisionRow) : Except RowsError Unit :=
  if r.placeholder then .error (.placeholder m.name r.inputs)
  else if r.inputs.length != m.parameters.length then
    .error (.inputCount m.name r.inputs m.parameters.length)
  else .ok ()

/-- The method with its rows. -/
def DecisionMethod.complete (participant : String) (rows : Rows) (m : DecisionMethod) :
    Except RowsError DecisionMethod :=
  match rows.lookup m.name with
  | none | some [] => .error (.missingRows participant m.name)
  | some own => do
    own.forM m.checkRow
    return { m with rows := own }

/-- The table with its rows, which completes it. -/
def DecisionTable.complete (t : DecisionTable) (rows : Rows) : Except RowsError DecisionTable := do
  let unknown := (rows.map (·.1)).filter fun name => !t.methods.any (·.name == name)
  unless unknown.isEmpty do
    throw (.unknownMethods t.participant (sortBy (fun a b => a ≤ b) unknown))
  let methods ← t.methods.mapM (·.complete t.participant rows)
  return { t with methods, status := .complete }

end Lifeline.Tests
