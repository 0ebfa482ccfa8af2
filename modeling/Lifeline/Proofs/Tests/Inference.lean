import Lifeline.Proofs.Model.Building
import Lifeline.Proofs.Model.Inference
import Lifeline.Proofs.Stages
import Lifeline.Proofs.Tests.Failures

/-!
# The tests of inferred inputs

Synthesis does not ask whether the inputs of the method under test were inferred: it makes the same
tree from a model and from the one in which they count as given, by one lemma for each function that
takes a method or goes along a list.

**`Tests.given_of_parse`**: inference is a fixed point. With the inferred inputs given, a diagram
has the same model up to the traces of inference, the same roles and the same tests.
-/

set_option autoImplicit false

namespace Lifeline

namespace Tests

open Model

namespace Context

/-- The context in which the inputs of the model count as given. -/
def given (c : Context) : Context := { c with model := c.model.given }

variable (c : Context)

theorem parameterNamesFrom_given : ∀ (arguments : List (ArgumentRef × Nat)) (names : List String),
    c.given.parameterNamesFrom names arguments = c.parameterNamesFrom names arguments
  | [], _ => rfl
  | (a, i) :: rest, names => by
    simp only [parameterNamesFrom, parameterNamesFrom_given rest]
    rfl

@[simp] theorem mockedMethods_given (calls : List Interaction) :
    c.given.mockedMethods calls = c.mockedMethods calls := by
  simp only [mockedMethods, parameterNames, parameterNamesFrom_given]
  rfl

@[simp] theorem mocks_given (calls : List Interaction) : c.given.mocks calls = c.mocks calls := by
  simp only [mocks, mockedMethods_given]
  rfl

@[simp] theorem decisionTable_given (leaf : Classified) (calls : List Interaction) :
    c.given.decisionTable leaf calls = c.decisionTable leaf calls := by
  simp only [decisionTable, parameterNames, parameterNamesFrom_given]
  rfl

/-! ## Groups -/

section

variable (x : Method)

theorem stubsFrom_given (sites : List RaiseSite) (guards : List String) :
    ∀ (calls : List Interaction) (taken : List String),
      c.given.stubsFrom x.given sites guards taken calls = c.stubsFrom x sites guards taken calls
  | [], _ => rfl
  | i :: rest, taken => by
    simp only [stubsFrom, stubsFrom_given sites guards rest]
    rfl

theorem callCases_given (reached : List Interaction) (invokes : Bool) :
    ∀ (calls : List Interaction) (taken : List String),
      c.given.callCases x.given reached invokes taken calls =
        c.callCases x reached invokes taken calls
  | [], _ => rfl
  | i :: rest, taken => by
    simp only [callCases, callCases_given reached invokes rest]
    rfl

theorem resultCases_given (stubs : List Stub) : ∀ (results : List MethodResult)
    (taken : List String),
      c.given.resultCases x.given stubs taken results = c.resultCases x stubs taken results
  | [], _ => rfl
  | r :: rest, taken => by
    simp only [resultCases, resultCases_given stubs rest]
    rfl

theorem group_given (taken : List String) (path : Path) :
    c.given.group x.given taken path = c.group x taken path := by
  simp only [group, stubs, stubsFrom_given, callCases_given, resultCases_given]
  rfl

theorem groups_given : ∀ (paths : List Path) (taken : List String),
    c.given.groups x.given taken paths = c.groups x taken paths
  | [], _ => rfl
  | path :: rest, taken => by
    simp only [groups, group_given, groups_given rest]

end

/-! ## Suites -/

theorem methodTests_given : ∀ (methods : List Method) (taken : List String),
    c.given.methodTests taken (methods.map Method.given) = c.methodTests taken methods
  | [], _ => rfl
  | x :: rest, taken => by
    simp only [List.map_cons, methodTests, groups_given, methodTests_given rest]
    rfl

theorem suite_given (p : Classified) (methods : List Method) :
    c.given.suite p (methods.map Method.given) = c.suite p methods := by
  simp only [suite, mocks_given, methodTests_given, List.flatMap_map]
  rfl

theorem tree_given : c.given.tree = c.tree := by
  unfold tree
  simp only [decisionTable_given]
  refine congrArg (· >>= _) ?_
  refine congrArg (List.filterMapM · c.roles.orchestrators) (funext fun p => ?_)
  rw [show c.given.model.methods.filter (·.owner == p.name) =
    (c.model.methods.filter (·.owner == p.name)).map Method.given from List.filter_map]
  cases c.model.methods.filter (·.owner == p.name) with
  | nil => rfl
  | cons x rest =>
    have h := c.suite_given p (x :: rest)
    rw [List.map_cons] at h ⊢
    simp only [h]

end Context

end Tests

theorem Model.synthesizeTests_given (m : Model) (roles : Classification) (profile : Profile) :
    m.given.synthesizeTests roles profile = m.synthesizeTests roles profile :=
  Tests.Context.tree_given { model := m, roles, naming := profile.naming }

theorem Model.classify_given (m : Model) (s : LeafSuffixes) :
    m.given.classify s = m.classify s := rfl

namespace Tests

/-- **Inference is a fixed point.** Where a diagram has a model, it has one with the parameters of
the root method as given inputs too, whether they were inferred or not. That model is the same but
that no warning is about an inferred input and no method has inferred parameters; its participants
have the same roles, and both have the same tests. -/
theorem given_of_parse {source : String} {d : Diagram} {o : Model.Options} {m : Model}
    (hd : Diagram.parse source = .ok d) (hm : d.buildModel o = .ok m) :
    ∃ root, m.method? none = some root ∧
      d.buildModel { o with externalInputs := some root.parameters } = .ok m.given ∧
      (∀ roles profile, m.given.synthesizeTests roles profile = m.synthesizeTests roles profile) ∧
      ∀ s, m.given.classify s = m.classify s ∧ ∃ t, m.synthesizeTests (m.classify s) = .ok t ∧
        m.given.synthesizeTests (m.given.classify s) = .ok t := by
  obtain ⟨w, hw, hmodel⟩ := bind_ok.1 hm
  obtain ⟨root, hroot, hgiven⟩ := Model.Layout.model_given hmodel
  refine ⟨root, hroot, bind_ok.2 ⟨w, hw, hgiven⟩, m.synthesizeTests_given, fun s => ?_⟩
  obtain ⟨t, ht⟩ := exists_tests (Model.sound_of_build (Diagram.sound_of_parse hd) hm) s
  refine ⟨m.classify_given s, t, ht, ?_⟩
  rw [m.synthesizeTests_given, m.classify_given]
  exact ht

/-- A diagram without an entry message, in which two values come from nowhere. -/
def inferredInputs : String :=
  "A -> BRepository : load(x)\nBRepository --> A : y\nA -> CClient : send(y, z)\n"

theorem of?_inferredInputs : ∃ x ∈ Stages.of? inferredInputs, ∃ root,
    x.model.method? none = some root ∧ root.parameters = ["x", "z"] ∧
      ∃ w ∈ x.model.warnings, w.kind = .inferredInput := by
  unfold inferredInputs
  rw [Stages.of?_toList, String.toList_ofList]
  decide +kernel

/-- With the two inputs given nothing is left to infer. -/
theorem given_inferredInputs : ∃ d m t, Diagram.parse inferredInputs = .ok d ∧
    d.buildModel = .ok m ∧ (∃ w ∈ m.warnings, w.kind = .inferredInput) ∧
    d.buildModel { externalInputs := some ["x", "z"] } = .ok m.given ∧
    m.synthesizeTests m.classify = .ok t ∧ m.given.synthesizeTests m.given.classify = .ok t := by
  obtain ⟨x, hx, root, hroot, hparameters, hwarning⟩ := of?_inferredInputs
  obtain ⟨d, hd, hm, -⟩ := Stages.of?_eq_some hx
  obtain ⟨root', hroot', hgiven, -, hroles⟩ := given_of_parse hd hm
  obtain rfl := Option.some.inj (hroot.symm.trans hroot')
  rw [hparameters] at hgiven
  obtain ⟨-, t, ht, ht'⟩ := hroles {}
  exact ⟨d, x.model, t, hd, hm, hwarning, hgiven, ht, ht'⟩

end Tests

end Lifeline
