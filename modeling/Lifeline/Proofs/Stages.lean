import Lifeline.Code.Synthesis
import Lifeline.Diagram.Reader
import Lifeline.Gate.Rules
import Lifeline.Model.Build
import Lifeline.Proofs.Code.Drive
import Lifeline.Proofs.Outcome
import Lifeline.Tests.Synthesis
import Mathlib.Data.List.Nodup

/-!
# Stages of a diagram

`Stages.of?`: the model, the tests and the code of a diagram, where every stage succeeds
(`Stages.of?_eq_some`). One diagram is followed through all stages: `earlyResult`, which gives a
result before its last calls.
-/

namespace Lifeline

/-- What the stages make of a diagram. -/
structure Stages where
  model : Model
  tests : Tests.Tree
  code : Code.Tree

namespace Stages

variable {source : String} {o : Model.Options} {s : LeafSuffixes} {p : Profile}

/-- The stages of the text of a diagram, if all of them succeed. -/
def of? (source : String) (o : Model.Options := {}) (s : LeafSuffixes := {})
    (p : Profile := .builtin) : Option Stages := do
  let diagram ← (Diagram.parse source).toOption
  let model ← (diagram.buildModel o).toOption
  let tests ← (model.synthesizeTests (model.classify s) p).toOption
  let code ← (tests.synthesizeCode p).toOption
  return { model, tests, code }

/-- The stages of a text that is given by its characters, which the kernel is slow to decode. -/
def ofChars? (cs : List Char) (o : Model.Options := {}) (s : LeafSuffixes := {})
    (p : Profile := .builtin) : Option Stages := do
  let diagram ← (Line.scanFrom 1 false (Text.lines cs) >>= Diagram.ofLines).toOption
  let model ← (diagram.buildModel o).toOption
  let tests ← (model.synthesizeTests (model.classify s) p).toOption
  let code ← (tests.synthesizeCode p).toOption
  return { model, tests, code }

theorem of?_toList : of? source o s p = ofChars? source.toList o s p := rfl

theorem of?_eq_some {x : Stages} (h : of? source o s p = some x) :
    ∃ d, Diagram.parse source = .ok d ∧ d.buildModel o = .ok x.model ∧
      x.model.synthesizeTests (x.model.classify s) p = .ok x.tests ∧
      x.tests.synthesizeCode p = .ok x.code := by
  simp only [of?, Option.bind_eq_bind, Option.bind_eq_some_iff] at h
  obtain ⟨d, hd, m, hm, t, ht, code, hc, hx⟩ := h
  obtain rfl := Option.some.inj hx
  exact ⟨d, toOption_eq_some.1 hd, toOption_eq_some.1 hm, toOption_eq_some.1 ht,
    toOption_eq_some.1 hc⟩

/-! ## An early result -/

/-- A diagram with two alternatives, the first of which gives a result. -/
def earlyResult : String :=
  "[-> A : run(x)\nalt [x]\nA -> BRepository : load(x)\nBRepository --> A : v\nend\n" ++
    "alt [x.ready]\nA -> CClient : send(x)\n" ++
    "else\nA -> CClient : push(x)\nCClient --> A : w\nend\n"

/-- The group of the last branch drives the method into the first result, and so gets neither to the
call nor to the result that it checks. -/
theorem of?_earlyResult : ∃ x ∈ of? earlyResult, (Gate.run x.tests x.model).passed = true ∧
    ∃ suite ∈ x.tests.suites, (suite.methods.map (·.name)).Nodup ∧ ∃ mt ∈ suite.methods,
      ∃ body ∈ x.code.body? suite.subject mt.name, ∃ g ∈ mt.groups, g.mode = .noException ∧
        (∃ a ∈ g.callChecks, (Code.driveAll g.drive body).makes a = false) ∧
        ∃ a ∈ g.resultChecks, (Code.driveAll g.drive body).ending ≠
          .returned { value := a.expected, sequence := a.sequence } := by
  unfold earlyResult
  rw [of?_toList, String.toList_append, String.toList_append, String.toList_ofList,
    String.toList_ofList, String.toList_ofList]
  decide +kernel

end Stages

end Lifeline
