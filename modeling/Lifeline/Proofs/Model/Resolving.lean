import Lifeline.Proofs.Model.Scopes

/-!
# Arguments and parameters of a layout

Where the value of an argument comes from is decided call by call, while the parameters of the root
method may still grow. `Layout.Settles` lists the ways in which one argument gets its value, each
with the warnings that it leaves, and there are no others (`Layout.resolveArgument_ok`).
`Layout.Resolves` says where a value comes from for fixed parameters, and only parameters that are
missing can break it (`Resolves.mono`). So it holds of all arguments with the parameters that the
methods of the model have in the end (`Layout.resolved_of_model`).
-/

set_option autoImplicit false

namespace Lifeline.Model.Layout

variable {l : Layout} {o : Options} {callees : List (Int × List String)}

theorem refuse_ok {α : Type} {x : Except ModelError α} {a : α} :
    refuse x = .ok a ↔ x = .ok a := by
  cases x <;> simp [refuse]

/-! ## Arguments -/

theorem argumentBinding_ok {name : String} {place : Place} {line : Int} {out : Noted (Option Int)}
    (h : l.argumentBinding o name place line = .ok out) :
    out.value = (l.bindingsOf name place).getLast?.map (·.1.call) := by
  unfold argumentBinding at h
  dsimp only at h
  split at h
  · exact (Except.ok.inj h) ▸ rfl
  · split at h
    · cases h
    · exact (Except.ok.inj h) ▸ rfl

/-- The ways in which an argument gets its value, with the parameters that the root method has then
and the warnings that are left. -/
inductive Settles (l : Layout) (o : Options) (callees : List (Int × List String))
    (inputs : List String) (c : Call) (place : Place) (a : Argument) :
    Noted (ArgumentRef × List String) → Prop
  | literal (hl : a.isLiteral = true) :
      Settles l o callees inputs c place a
        { value := ({ name := a.name, source := .literal }, inputs) }
  | loopElement (hl : a.isLiteral = false) (he : l.isLoopElement (Name.root a.name) place = true) :
      Settles l o callees inputs c place a
        { value := ({ name := a.name, source := .loopElement }, inputs) }
  | reply {found : Noted (Option Int)} {call : Int} (hl : a.isLiteral = false)
      (he : l.isLoopElement (Name.root a.name) place = false)
      (hf : l.argumentBinding o (Name.root a.name) place c.line = .ok found)
      (hv : found.value = some call) :
      Settles l o callees inputs c place a { found with
        value := ({ name := a.name, source := .reply call (valueId (Name.root a.name) call) },
          inputs) }
  | input {found : Noted (Option Int)} {known : List String} (hl : a.isLiteral = false)
      (he : l.isLoopElement (Name.root a.name) place = false)
      (hf : l.argumentBinding o (Name.root a.name) place c.line = .ok found)
      (hv : found.value = none) (hk : parametersOf inputs callees place.method = .ok known)
      (hmem : Name.root a.name ∈ known) :
      Settles l o callees inputs c place a
        { found with value := ({ name := a.name, source := .input }, inputs) }
  | inferred {found : Noted (Option Int)} (hl : a.isLiteral = false)
      (he : l.isLoopElement (Name.root a.name) place = false)
      (hf : l.argumentBinding o (Name.root a.name) place c.line = .ok found)
      (hv : found.value = none) (hroot : place.method = none) (hmem : Name.root a.name ∉ inputs)
      (hi : l.infersParameters o = true) :
      Settles l o callees inputs c place a {
        value := ({ name := a.name, source := .input }, inputs ++ [Name.root a.name])
        warnings := found.warnings ++ [⟨.inferredInput (Name.root a.name), c.line⟩] }

theorem resolveArgument_ok {inputs : List String} {c : Call} {place : Place} {a : Argument}
    {out : Noted (ArgumentRef × List String)} :
    l.resolveArgument o callees inputs c place a = .ok out ↔
      l.Settles o callees inputs c place a out := by
  constructor
  · intro h
    unfold resolveArgument at h
    by_cases hl : a.isLiteral = true
    · rw [if_pos hl] at h
      obtain rfl := pure_ok.1 h
      exact .literal hl
    rw [if_neg hl] at h
    rw [Bool.not_eq_true] at hl
    dsimp only at h
    by_cases he : l.isLoopElement (Name.root a.name) place = true
    · rw [if_pos he] at h
      obtain rfl := pure_ok.1 h
      exact .loopElement hl he
    rw [if_neg he] at h
    rw [Bool.not_eq_true] at he
    obtain ⟨found, hf, h⟩ := bind_ok.1 h
    rw [refuse_ok] at hf
    split at h
    · rename_i call hv
      obtain rfl := pure_ok.1 h
      exact .reply hl he hf hv
    rename_i hv
    obtain ⟨known, hk, h⟩ := bind_ok.1 h
    split at h
    · rename_i hmem
      obtain rfl := pure_ok.1 h
      exact .input hl he hf hv hk (by simpa using hmem)
    rename_i hmem
    split at h
    · rename_i hboth
      rw [Bool.and_eq_true, Option.isNone_iff_eq_none] at hboth
      obtain ⟨hroot, hi⟩ := hboth
      rw [hroot] at hk
      obtain rfl := Except.ok.inj hk
      obtain rfl := pure_ok.1 h
      exact .inferred hl he hf hv hroot (by simpa using hmem) hi
    · cases h
  · intro h
    unfold resolveArgument
    cases h with
    | literal hl => simp [hl]
    | loopElement hl he => simp [hl, he]
    | reply hl he hf hv => simp [hl, he, hf, hv, refuse]
    | input hl he hf hv hk hmem => simp [hl, he, hf, hv, hk, hmem, refuse]
    | inferred hl he hf hv hroot hmem hi =>
      simp [hl, he, hf, hv, hroot, hmem, hi, refuse, parametersOf]

/-- The value of an argument at a place, where the root method has the parameters `inputs` and the
methods of calls those in `callees`. -/
inductive Resolves (l : Layout) (callees : List (Int × List String)) (inputs : List String)
    (place : Place) (a : Argument) : ArgumentSource → Prop
  | literal : a.isLiteral = true → Resolves l callees inputs place a .literal
  | loopElement : a.isLiteral = false → l.isLoopElement (Name.root a.name) place = true →
      Resolves l callees inputs place a .loopElement
  | reply (x : Reply × Place) : a.isLiteral = false →
      l.isLoopElement (Name.root a.name) place = false →
      (l.bindingsOf (Name.root a.name) place).getLast? = some x →
      Resolves l callees inputs place a (.reply x.1.call (valueId (Name.root a.name) x.1.call))
  | input (known : List String) : a.isLiteral = false →
      l.isLoopElement (Name.root a.name) place = false →
      l.bindingsOf (Name.root a.name) place = [] →
      parametersOf inputs callees place.method = .ok known → Name.root a.name ∈ known →
      Resolves l callees inputs place a .input

theorem exists_parametersOf {inputs inputs' known : List String} {id : MethodId}
    (h : parametersOf inputs callees id = .ok known) (hsub : inputs ⊆ inputs') :
    ∃ known', parametersOf inputs' callees id = .ok known' ∧ known ⊆ known' := by
  cases id with
  | none =>
    obtain rfl := Except.ok.inj h
    exact ⟨inputs', rfl, hsub⟩
  | some call => exact ⟨known, h, List.Subset.refl _⟩

theorem Resolves.mono {inputs inputs' : List String} {place : Place} {a : Argument}
    {v : ArgumentSource} (h : l.Resolves callees inputs place a v) (hsub : inputs ⊆ inputs') :
    l.Resolves callees inputs' place a v := by
  cases h with
  | literal hl => exact .literal hl
  | loopElement hl he => exact .loopElement hl he
  | reply x hl he hx => exact .reply x hl he hx
  | input known hl he hx hknown hmem =>
    obtain ⟨known', hknown', hk⟩ := exists_parametersOf hknown hsub
    exact .input known' hl he hx hknown' (hk hmem)

theorem resolves_of_argument {inputs : List String} {c : Call} {place : Place} {a : Argument}
    {out : Noted (ArgumentRef × List String)}
    (h : l.resolveArgument o callees inputs c place a = .ok out) :
    out.value.1.name = a.name ∧ l.Resolves callees out.value.2 place a out.value.1.source ∧
      inputs ⊆ out.value.2 := by
  cases resolveArgument_ok.1 h with
  | literal hl => exact ⟨rfl, .literal hl, List.Subset.refl _⟩
  | loopElement hl he => exact ⟨rfl, .loopElement hl he, List.Subset.refl _⟩
  | reply hl he hf hv =>
    rw [argumentBinding_ok hf, Option.map_eq_some_iff] at hv
    obtain ⟨x, hx, rfl⟩ := hv
    exact ⟨rfl, .reply x hl he hx, List.Subset.refl _⟩
  | input hl he hf hv hk hmem =>
    rw [argumentBinding_ok hf, Option.map_eq_none_iff, List.getLast?_eq_none_iff] at hv
    exact ⟨rfl, .input _ hl he hv hk hmem, List.Subset.refl _⟩
  | inferred hl he hf hv hroot hmem hi =>
    rw [argumentBinding_ok hf, Option.map_eq_none_iff, List.getLast?_eq_none_iff] at hv
    -- the root method gets one more parameter
    have hgrown : parametersOf (inputs ++ [Name.root a.name]) callees place.method =
        .ok (inputs ++ [Name.root a.name]) := by
      rw [hroot]
      rfl
    exact ⟨rfl, .input _ hl he hv hgrown (by simp), List.subset_append_left _ _⟩

/-- The values of all arguments of a call. -/
def ResolvesAll (l : Layout) (callees : List (Int × List String)) (inputs : List String)
    (x : Call × Place) (i : Interaction) : Prop :=
  List.Forall₂ (fun a ref => ref.name = a.name ∧ l.Resolves callees inputs x.2 a ref.source)
    x.1.arguments i.arguments

theorem ResolvesAll.mono {inputs inputs' : List String} {x : Call × Place} {i : Interaction}
    (h : l.ResolvesAll callees inputs x i) (hsub : inputs ⊆ inputs') :
    l.ResolvesAll callees inputs' x i :=
  List.Forall₂.imp (fun _ _ hr => ⟨hr.1, hr.2.mono hsub⟩) h

theorem resolves_of_arguments {c : Call} {place : Place} : ∀ {args : List Argument}
    {inputs : List String} {out : Noted (List ArgumentRef × List String)},
      l.resolveArguments o callees c place inputs args = .ok out →
        List.Forall₂ (fun a ref => ref.name = a.name ∧
          l.Resolves callees out.value.2 place a ref.source) args out.value.1 ∧
            inputs ⊆ out.value.2
  | [], _, _, h => by
    obtain rfl := Except.ok.inj h
    exact ⟨.nil, List.Subset.refl _⟩
  | a :: rest, inputs, out, h => by
    simp only [resolveArguments, bind_ok, pure_ok] at h
    obtain ⟨first, hfirst, others, hothers, rfl⟩ := h
    obtain ⟨hname, hr, hsub⟩ := resolves_of_argument hfirst
    obtain ⟨hall, hsub'⟩ := resolves_of_arguments hothers
    exact ⟨.cons ⟨hname, hr.mono hsub'⟩ hall, List.Subset.trans hsub hsub'⟩

theorem resolvesAll_of_interactions : ∀ {xs : List (Call × Place)} {inputs : List String}
    {out : Noted (List Interaction × List String)},
      l.interactions o callees inputs xs = .ok out →
        List.Forall₂ (l.ResolvesAll callees out.value.2) xs out.value.1 ∧ inputs ⊆ out.value.2
  | [], _, _, h => by
    obtain rfl := Except.ok.inj h
    exact ⟨.nil, List.Subset.refl _⟩
  | (c, place) :: rest, inputs, out, h => by
    simp only [interactions, bind_ok, pure_ok] at h
    obtain ⟨resolved, hresolved, others, hothers, rfl⟩ := h
    obtain ⟨hfirst, hsub⟩ := resolves_of_arguments hresolved
    obtain ⟨hall, hsub'⟩ := resolvesAll_of_interactions hothers
    exact ⟨.cons (ResolvesAll.mono hfirst hsub') hall, List.Subset.trans hsub hsub'⟩

/-! ## Parameters -/

theorem parameters_of_method {interactions : List Interaction} {alternatives : List Alternative}
    {id : MethodId} {parameters : List String} {x : Method}
    (h : l.method o interactions alternatives id parameters = .ok x) :
    x.call = id ∧ x.parameters = parameters := by
  cases id with
  | none =>
    rw [Layout.method] at h
    dsimp only at h
    split at h
    · simp only [bind_ok, pure_ok, Except.ok.injEq, exists_eq_left'] at h
      obtain ⟨rs, -, rfl⟩ := h
      exact ⟨rfl, rfl⟩
    · simp at h
  | some call =>
    rw [Layout.method] at h
    dsimp only at h
    split at h
    · simp only [bind_ok, pure_ok, Except.ok.injEq, exists_eq_left'] at h
      obtain ⟨rs, -, rfl⟩ := h
      exact ⟨rfl, rfl⟩
    · simp at h

/-- The methods have the parameters with which the arguments of all calls were resolved: those of
the method that a call runs are the names of its arguments. -/
structure Resolved (l : Layout) (m : Model) (callees : List (Int × List String))
    (inputs : List String) : Prop where
  arguments : List.Forall₂ (l.ResolvesAll callees inputs) l.walk.calls m.interactions
  methods : List.Forall₂ (fun id x => x.call = id ∧
    parametersOf inputs callees id = .ok x.parameters) l.methodIds m.methods
  callees : ∀ y ∈ callees, l.parametersOfCall y.1 = .ok y.2

theorem resolved_of_model {m : Model} (h : l.model o = .ok m) :
    ∃ callees inputs, l.Resolved m callees inputs := by
  unfold Layout.model at h
  split at h
  · simp at h
  · simp only [bind_ok, pure_ok, refuse_ok] at h
    obtain ⟨-, -, nesting, -, callees, hcallees, built, hb, methods, hms, throws, -, rfl⟩ := h
    refine ⟨callees, built.value.2, (resolvesAll_of_interactions hb).1, ?_, fun y hy => ?_⟩
    · refine (mapM_ok.1 hms).imp fun id x hx => ?_
      obtain ⟨parameters, hp, hx⟩ := bind_ok.1 hx
      obtain ⟨hcall, rfl⟩ := parameters_of_method hx
      exact ⟨hcall, hp⟩
    · obtain ⟨call, -, hcall⟩ := forall₂_right (mapM_ok.1 hcallees) y hy
      obtain ⟨names, hnames, hpure⟩ := bind_ok.1 hcall
      obtain rfl := pure_ok.1 hpure
      exact hnames

end Lifeline.Model.Layout
