import Lifeline.Diagram.Reader
import Lifeline.Gate.Rules
import Lifeline.Plan.Commit
import Lifeline.Plan.Placement
import Lifeline.Plan.Reconcile
import Lifeline.Run.Config
import Lifeline.Run.Error
import Lifeline.Run.Report
import Lifeline.Source.Render
import Lifeline.Tests.Synthesis

/-!
# Runs

From the text of a diagram to files in a store (`Run.execute`). The stages follow each other: up to
the gate they know the diagram only (`Run.specify`), and nothing is written before the plan of the
whole run is known (`Run.plan`) and its writes are in place.
-/

namespace Lifeline.Run

/-- What a run arrives at. -/
structure Result where
  tests : Tests.Tree
  code : Code.Tree
  files : List Source.File
  plan : Plan
  report : Report
  written : List String := []
deriving Repr

/-- What is said about the findings of a model. -/
def modelWarnings (m : Model) : List String :=
  m.warnings.map fun w => s!"Line {w.line}: {w.message}"

/-- What is said about the leaves whose kind was not told by their names. -/
def roleWarnings (c : Classification) : List String :=
  c.unmatched.map fun name => s!"{name}: {Classification.unmatchedMessage name}"

/-- What is said about the declarations that stay as they are. -/
def planWarnings (p : Plan) : List String := p.warnings.map fun w => s!"{w.path}: {w.message}"

/-- What the tests of a diagram are made of: what was read, its model, the roles of the
participants, and the tests, which have passed the gate. -/
structure Specification where
  diagram : Diagram
  model : Model
  roles : Classification
  tests : Tests.Tree
deriving Repr

/-- The stages up to the gate. -/
def specify (source : String) (options : Model.Options := {}) (suffixes : LeafSuffixes := {})
    (profile : Profile := .builtin) : Except Error Specification := do
  let diagram ← Stage.parse.run .diagram (Diagram.parse source)
  let model ← Stage.build.run .model (diagram.buildModel options)
  let roles := model.classify suffixes
  let tests ← Stage.synthesizeTests.run .tests (model.synthesizeTests roles profile)
  Stage.gate.check (Gate.run tests model)
  return { diagram, model, roles, tests }

/-- A run up to its plan, which reads the store and does not change it. -/
def plan {σ : Type} (store : Store σ) (s : σ) (source : String) (config : Config) :
    Except Error Result := do
  let { diagram, model, roles, tests } ←
    specify source config.options config.profile.leafSuffixes config.profile
  let code ← Stage.synthesizeCode.run .code (tests.synthesizeCode config.profile)
  let files ← Stage.render.run .naming (Source.render tests code config.profile config.base)
  let plan ← Stage.plan.run .plan (Plan.ofFiles store s config.profile.declarations files)
  Stage.placement.check (Gate.placement plan.operations)
  return {
    tests, code, files, plan
    report := {
      arrows := diagram.arrowCount
      orchestrators := roles.orchestrators.length
      leaves := roles.leaves.length
      decisionTables := tests.tables.length
      tests := tests.testCount
      files := plan.operations.map fun o => (o.path, o.mode)
      unchanged := plan.unchanged
      warnings := modelWarnings model ++ roleWarnings roles ++
        (Gate.readiness tests).failures.map (·.message) ++ planWarnings plan
      dryRun := config.dryRun } }

/-- A whole run: its plan is carried out, unless it is a dry run. -/
def execute {σ : Type} (store : Store σ) (s : σ) (source : String) (config : Config) :
    σ × Except Error Result :=
  match plan store s source config with
  | .error e => (s, .error e)
  | .ok r =>
    if config.dryRun then (s, .ok r)
    else
      match r.plan.commit store s with
      | (s, .ok written) => (s, .ok { r with written })
      | (s, .error e) => (s, .error { stage := .commit, cause := .plan e })

end Lifeline.Run
