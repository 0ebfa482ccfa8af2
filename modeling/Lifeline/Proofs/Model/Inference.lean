import Lifeline.Proofs.Model.Warnings

/-!
# Inferred inputs

Where a diagram has no entry message and the inputs of the method under test are not given, they are
found by use: an argument that nothing binds becomes an input, so that early arguments see fewer
inputs than late ones. To give the inputs that were found makes no difference: every argument gets
its value in the same way (`Layout.Settles.given`), and the model is the same up to the traces of
inference (`Model.given`).

**`Layout.model_given`**: the model with the inferred inputs given.
-/

set_option autoImplicit false

namespace Lifeline

namespace Model

/-! ## Without the traces of inference -/

/-- The options with the inputs of the method under test. -/
def Options.given (o : Options) (inputs : List String) : Options :=
  { o with externalInputs := some inputs }

/-- Warnings, those about inferred inputs left out. -/
def uninferred (ws : List Warning) : List Warning := ws.filter (·.kind != .inferredInput)

theorem uninferred_append (ws ws' : List Warning) :
    uninferred (ws ++ ws') = uninferred ws ++ uninferred ws' :=
  List.filter_append ..

/-- Warnings of another kind stay. -/
theorem uninferred_of_kind {ws : List Warning} {k : Warning.Kind} (h : ∀ w ∈ ws, w.kind = k)
    (hne : k ≠ .inferredInput) : uninferred ws = ws := by
  refine List.filter_eq_self.2 fun w hw => ?_
  rw [h w hw]
  simpa using hne

/-- A method whose parameters count as given. -/
def Method.given (x : Method) : Method := { x with inferredParameters := false }

end Model

/-- The model in which the inputs count as given. -/
def Model.given (m : Model) : Model :=
  { m with methods := m.methods.map Model.Method.given, warnings := Model.uninferred m.warnings }

namespace Model.Layout

variable {l : Layout} {o : Options} {callees : List (Int × List String)} {full : List String}

/-! ## Arguments -/

/-- With all inputs given from the start, an argument gets its value as before. -/
theorem Settles.given {inputs : List String} {c : Call} {place : Place} {a : Argument}
    {out : Noted (ArgumentRef × List String)} (h : l.Settles o callees inputs c place a out)
    (hsub : out.value.2 ⊆ full) :
    l.Settles (o.given full) callees full c place a
      { value := (out.value.1, full), warnings := uninferred out.warnings } := by
  have hlook : ∀ found, l.argumentBinding o (Name.root a.name) place c.line = .ok found →
      uninferred found.warnings = found.warnings := fun found hf =>
    uninferred_of_kind (kind_of_argumentBinding hf) (by decide)
  cases h with
  | literal hl => exact .literal hl
  | loopElement hl he => exact .loopElement hl he
  | reply hl he hf hv =>
    dsimp only
    rw [hlook _ hf]
    exact .reply hl he hf hv
  | input hl he hf hv hk hmem =>
    obtain ⟨known, hk, hknown⟩ := exists_parametersOf hk hsub
    dsimp only
    rw [hlook _ hf]
    exact .input hl he hf hv hk (hknown hmem)
  | inferred hl he hf hv hroot hmem hi =>
    have hk : parametersOf full callees place.method = .ok full := by
      rw [hroot]
      rfl
    have hname : Name.root a.name ∈ full := hsub (by simp)
    dsimp only
    rw [uninferred_append, hlook _ hf]
    have hnone : uninferred [⟨.inferredInput (Name.root a.name), c.line⟩] = [] := rfl
    rw [hnone, List.append_nil]
    exact .input hl he hf hv hk hname

theorem resolveArguments_given {c : Call} {place : Place} : ∀ {args : List Argument}
    {inputs : List String} {out : Noted (List ArgumentRef × List String)},
      l.resolveArguments o callees c place inputs args = .ok out → out.value.2 ⊆ full →
        l.resolveArguments (o.given full) callees c place full args =
          .ok { value := (out.value.1, full), warnings := uninferred out.warnings }
  | [], _, _, h, _ => by
    obtain rfl := Except.ok.inj h
    rfl
  | a :: rest, _, _, h, hsub => by
    simp only [resolveArguments, bind_ok, pure_ok] at h ⊢
    obtain ⟨first, hfirst, others, hothers, rfl⟩ := h
    have hgrown : first.value.2 ⊆ full :=
      List.Subset.trans (resolves_of_arguments hothers).2 hsub
    refine ⟨_, resolveArgument_ok.2 ((resolveArgument_ok.1 hfirst).given hgrown), _,
      resolveArguments_given hothers hsub, ?_⟩
    rw [uninferred_append]

theorem interactions_given : ∀ {xs : List (Call × Place)} {inputs : List String}
    {out : Noted (List Interaction × List String)},
      l.interactions o callees inputs xs = .ok out → out.value.2 ⊆ full →
        l.interactions (o.given full) callees full xs =
          .ok { value := (out.value.1, full), warnings := uninferred out.warnings }
  | [], _, _, h, _ => by
    obtain rfl := Except.ok.inj h
    rfl
  | (c, place) :: rest, _, _, h, hsub => by
    simp only [interactions, bind_ok, pure_ok] at h ⊢
    obtain ⟨resolved, hresolved, others, hothers, rfl⟩ := h
    have hgrown : resolved.value.2 ⊆ full :=
      List.Subset.trans (resolvesAll_of_interactions hothers).2 hsub
    refine ⟨_, resolveArguments_given hresolved hgrown, _, interactions_given hothers hsub, ?_⟩
    rw [uninferred_append]

/-! ## The model -/

theorem method_given {interactions : List Interaction} {alternatives : List Alternative}
    {id : MethodId} {parameters : List String} {x : Method}
    (h : l.method o interactions alternatives id parameters = .ok x) :
    l.method (o.given full) interactions alternatives id parameters = .ok x.given := by
  cases id with
  | none =>
    rw [Layout.method] at h ⊢
    dsimp only at h ⊢
    split at h
    · simp only [bind_ok, pure_ok, Except.ok.injEq, exists_eq_left'] at h ⊢
      obtain ⟨results, hresults, rfl⟩ := h
      exact ⟨results, hresults, rfl⟩
    · simp at h
  | some call =>
    rw [Layout.method] at h ⊢
    dsimp only at h ⊢
    split at h
    · simp only [bind_ok, pure_ok, Except.ok.injEq, exists_eq_left'] at h ⊢
      obtain ⟨results, hresults, rfl⟩ := h
      exact ⟨results, hresults, rfl⟩
    · simp at h

/-- **The inferred inputs given.** The root method of a model that was built has its inputs as
parameters, and with these given the model is the same up to the traces of inference. -/
theorem model_given {m : Model} (h : l.model o = .ok m) :
    ∃ root, m.method? none = some root ∧ l.model (o.given root.parameters) = .ok m.given := by
  unfold model at h
  split at h
  · simp at h
  rename_i hcalls
  simp only [bind_ok, pure_ok, refuse_ok] at h
  obtain ⟨_, hcycles, nesting, hnesting, callees, hcallees, built, hbuilt, methods, hmethods,
    throws, hthrows, rfl⟩ := h
  rw [mapM_ok] at hmethods
  -- the root method comes first, and its parameters are the inputs
  obtain ⟨root, rest, hroot, -, rfl⟩ := List.forall₂_cons_left_iff.1 hmethods
  obtain ⟨inputs, hinputs, hroot⟩ := bind_ok.1 hroot
  obtain rfl := Except.ok.inj hinputs
  obtain ⟨hcall, hparameters⟩ := parameters_of_method hroot
  refine ⟨root, by simp [method?, hcall], ?_⟩
  rw [hparameters]
  unfold model
  rw [if_neg hcalls]
  simp only [bind_ok, pure_ok, refuse_ok]
  refine ⟨_, hcycles, nesting, hnesting, callees, hcallees, _,
    interactions_given hbuilt (List.Subset.refl _), (root :: rest).map Method.given, ?_, throws,
    hthrows, ?_⟩
  · rw [mapM_ok, List.forall₂_map_right_iff]
    refine hmethods.imp fun id x hx => ?_
    obtain ⟨parameters, hparameters, hx⟩ := bind_ok.1 hx
    exact bind_ok.2 ⟨parameters, hparameters, method_given hx⟩
  · have hkinds := kind_of_checkNesting hnesting
    rw [Model.given, uninferred_append, uninferred_of_kind hkinds (by decide)]

end Model.Layout

end Lifeline
