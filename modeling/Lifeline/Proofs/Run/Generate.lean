import Lifeline.Proofs.Code.Ties
import Lifeline.Proofs.Diagram.Reading
import Lifeline.Proofs.Model.Refusals
import Lifeline.Proofs.Source.Rendering
import Lifeline.Proofs.Tests.Failures
import Lifeline.Run.Execution

/-!
# From a text to its files

No text of a diagram makes the stages up to the gate break down (`specify_ends`): with the built-in
profile a text is unreadable, or its model is refused, or the gate finds fault with the tests, or
there are tests that pass. What the reader leaves behind is a sound diagram, and the later stages
find in it everything that they look up.

Tests that have passed the gate become code and files exactly where no method of them has tied
results (`generates_iff_of_specify`). Where one has, a block of the method gets no place, and that
is the only failure there is: `tiedResults` is a diagram that is stopped by it behind the gate.
-/

set_option autoImplicit false

namespace Lifeline.Run

/-! ## From a text to its tests -/

section

variable {P : Error → Prop}

@[simp] theorem Stage.run_ok {ε α : Type} {stage : Stage} {cause : ε → Cause} {x : Except ε α}
    {a : α} : stage.run cause x = .ok a ↔ x = .ok a := by
  cases x <;> simp [Stage.run]

end

/-! ## From tests to files -/

variable {source : String} {o : Model.Options} {s : LeafSuffixes} {p : Profile} {x : Specification}

/-- What a specification was made of. -/
theorem stages_of_specify (h : specify source o s p = .ok x) :
    Diagram.parse source = .ok x.diagram ∧ x.diagram.buildModel o = .ok x.model ∧
      x.roles = x.model.classify s ∧
      x.model.synthesizeTests (x.model.classify s) p = .ok x.tests := by
  simp only [specify, bind_ok, pure_ok, Stage.run_ok] at h
  obtain ⟨d, hd, m, hm, t, ht, -, -, rfl⟩ := h
  exact ⟨hd, hm, rfl, ht⟩

/-- **Behind the gate.** With the built-in profile the tests of a diagram become code and files
exactly where no method has tied results, and else the synthesis of code fails for a block that has
no place. -/
theorem generates_iff_of_specify (h : specify source o s = .ok x) :
    ((∃ code, x.tests.synthesizeCode = .ok code ∧
        ∀ base, ∃ files, Source.render x.tests code .builtin base = .ok files) ↔
      Code.Untied Profile.builtin.naming x.tests) ∧
    (¬ Code.Untied Profile.builtin.naming x.tests →
      x.tests.synthesizeCode = .error .unplacedBlock) := by
  obtain ⟨hd, hm, -, ht⟩ := stages_of_specify h
  have hnames : Profile.builtin.naming.FailOnly fun _ => False := NamingRules.builtin_total
  refine ⟨⟨fun ⟨code, hcode, _⟩ => ?_, fun hu => ?_⟩, Code.code_unplaced hd hm ht hnames⟩
  · by_contra hn
    rw [Code.code_unplaced hd hm ht hnames hn] at hcode
    cases hcode
  · obtain ⟨code, hcode⟩ := Code.exists_code hd hm ht hnames hu
    exact ⟨code, hcode, Source.exists_render x.tests code⟩

/-- A diagram with a result outside of its alternative and one in it, and a call behind both. -/
def tiedResults : String :=
  "[-> A : run(x)\nA -->] : x\nalt [x]\nA -> BRepository : load(x)\nBRepository --> A : v\n" ++
    "A -> CClient : send(v)\nend\n"

theorem specify_tiedResults : ∃ x ∈ (specify tiedResults).toOption,
    x.tests.synthesizeCode.toOption.isNone = true := by
  unfold specify Diagram.parse Line.scan tiedResults
  rw [String.toList_append, String.toList_ofList, String.toList_ofList]
  decide +kernel

theorem generates_iff_tiedResults : ∃ x, specify tiedResults = .ok x ∧
    ((∃ code, x.tests.synthesizeCode = .ok code ∧
        ∀ base, ∃ files, Source.render x.tests code .builtin base = .ok files) ↔
      Code.Untied Profile.builtin.naming x.tests) ∧
    (¬ Code.Untied Profile.builtin.naming x.tests →
      x.tests.synthesizeCode = .error .unplacedBlock) := by
  obtain ⟨x, hx, -⟩ := specify_tiedResults
  have h : specify tiedResults = .ok x := toOption_eq_some.1 hx
  exact ⟨x, h, generates_iff_of_specify h⟩

/-- Not every specification becomes code and files. -/
theorem not_generates_tiedResults : ¬ ∀ (source : String) (o : Model.Options) (s : LeafSuffixes)
    (x : Specification), specify source o s = .ok x → ∀ base, ∃ code files,
      x.tests.synthesizeCode = .ok code ∧
        Source.render x.tests code .builtin base = .ok files := by
  intro h
  obtain ⟨x, hx, hnone⟩ := specify_tiedResults
  obtain ⟨code, -, hcode, -⟩ := h tiedResults {} {} x (toOption_eq_some.1 hx) "app"
  rw [hcode] at hnone
  cases hnone

end Lifeline.Run
