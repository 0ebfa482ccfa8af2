import Lifeline.Proofs.Model.Warnings

/-!
# Strict and lenient builds

Two options decide whether something that a build finds is an error or a warning: several replies
that bind the name of an argument, and alternatives that are nested deeply. `Tightens` relates the
two runs of a step: the strict one returns what the lenient one returns, if that carries no warning
of the kind in question, and nothing else. Chains of steps take it over from their steps
(`Tightens.bind`), as long as no step drops a warning of the steps before it.

**`buildModel_strict_iff`**: both options turn warnings into errors and change nothing else.
-/

set_option autoImplicit false

namespace Lifeline.Model

/-! ## Steps that are tightened -/

section

variable {ε α β γ : Type} {k : Warning.Kind} {ws : α → List Warning} {vs : β → List Warning}

/-- The strict step returns what the lenient step returns, where that carries no warning of a kind.
`ws` are the warnings of a result. -/
def Tightens (k : Warning.Kind) (ws : α → List Warning) (strict lenient : Except ε α) : Prop :=
  ∀ a, strict = .ok a ↔ lenient = .ok a ∧ Free k (ws a)

/-- A step that leaves no warning of the kind has nothing to turn into an error. -/
theorem tightens_self {x : Except ε α} (h : ∀ a, x = .ok a → Free k (ws a)) : Tightens k ws x x :=
  fun a => (and_iff_left_of_imp (h a)).symm

/-- Where the strict step fails, the lenient one leaves a warning. -/
theorem tightens_error {e : ε} {a : α} (h : ¬ Free k (ws a)) :
    Tightens k ws (.error e) (.ok a) := by
  intro a'
  constructor
  · intro h'
    cases h'
  · rintro ⟨ha, hfree⟩
    obtain rfl := Except.ok.inj ha
    exact absurd hfree h

/-- A chain of two steps, of which the second does not drop the warnings of the first. -/
theorem Tightens.bind {x x' : Except ε α} {f f' : α → Except ε β} (hx : Tightens k ws x x')
    (hf : ∀ a, x' = .ok a → Free k (ws a) → Tightens k vs (f a) (f' a))
    (hkeep : ∀ a b, f' a = .ok b → Free k (vs b) → Free k (ws a)) :
    Tightens k vs (x >>= f) (x' >>= f') := by
  intro b
  rw [bind_ok, bind_ok]
  constructor
  · rintro ⟨a, ha, hb⟩
    obtain ⟨ha', hfree⟩ := (hx a).1 ha
    obtain ⟨hb', hfree'⟩ := (hf a ha' hfree b).1 hb
    exact ⟨⟨a, ha', hb'⟩, hfree'⟩
  · rintro ⟨⟨a, ha, hb⟩, hfree⟩
    have hfirst : Free k (ws a) := hkeep a b hb hfree
    exact ⟨a, (hx a).2 ⟨ha, hfirst⟩, (hf a ha hfirst b).2 ⟨hb, hfree⟩⟩

/-- Both runs begin with the same step. -/
theorem tightens_after {x : Except ε α} {f f' : α → Except ε β}
    (hf : ∀ a, x = .ok a → Tightens k vs (f a) (f' a)) :
    Tightens k vs (x >>= f) (x >>= f') := by
  have hfirst : Tightens k (fun _ => []) x x := tightens_self fun _ _ => free_nil
  exact hfirst.bind (fun a ha _ => hf a ha) fun _ _ _ _ => free_nil

/-- Both runs go on with the same steps, which leave no warning of the kind. -/
theorem Tightens.before {x x' : Except ε α} {f : α → Except ε β} (hx : Tightens k ws x x')
    (hf : ∀ a b, f a = .ok b → (Free k (vs b) ↔ Free k (ws a))) :
    Tightens k vs (x >>= f) (x' >>= f) :=
  hx.bind (fun a _ hfree => tightens_self fun b hb => (hf a b hb).2 hfree)
    fun a b hb => (hf a b hb).1

/-- Two steps whose warnings come one after the other. -/
theorem Tightens.append {x x' : Except ε (Noted α)} {f f' : α → Except ε (Noted β)}
    (g : α → β → γ) (hx : Tightens k Noted.warnings x x')
    (hf : ∀ a, Tightens k Noted.warnings (f a) (f' a)) :
    Tightens k Noted.warnings
      (x >>= fun n => f n.value >>= fun n' =>
        .ok { value := g n.value n'.value, warnings := n.warnings ++ n'.warnings })
      (x' >>= fun n => f' n.value >>= fun n' =>
        .ok { value := g n.value n'.value, warnings := n.warnings ++ n'.warnings }) := by
  refine hx.bind (fun n _ hn => ?_) fun n b hb hfree => ?_
  · refine (hf n.value).before fun n' b hb => ?_
    obtain rfl := Except.ok.inj hb
    rw [free_append]
    exact and_iff_right hn
  · obtain ⟨n', -, hb⟩ := bind_ok.1 hb
    obtain rfl := Except.ok.inj hb
    exact (free_append.1 hfree).1

/-- A fold over steps that keep the warnings there are. -/
theorem tightens_foldlM {f f' : α → β → Except ε α}
    (hf : ∀ a b, Free k (ws a) → Tightens k ws (f a b) (f' a b))
    (hkeep : ∀ a b a', f' a b = .ok a' → Free k (ws a') → Free k (ws a)) :
    ∀ {bs : List β} {a : α}, Free k (ws a) → Tightens k ws (bs.foldlM f a) (bs.foldlM f' a)
  | [], a, ha => by
    refine tightens_self fun a' h => ?_
    obtain rfl := pure_ok.1 h
    exact ha
  | b :: bs, a, ha => by
    rw [List.foldlM_cons, List.foldlM_cons]
    refine Tightens.bind (hf a b ha) (fun a' _ ha' => tightens_foldlM hf hkeep ha') ?_
    intro a' a'' h
    exact foldlM_inv (fun a => Free k (ws a) → Free k (ws a')) h
      (fun a₁ b _ h₁ a₂ h₂ hfree => h₁ (hkeep a₁ b a₂ h₂ hfree)) id

end

namespace Layout

variable (l : Layout) (o : Options)

theorem tightens_refuse {α : Type} {k : Warning.Kind} {ws : α → List Warning}
    {x x' : Except ModelError α} (h : Tightens k ws x x') :
    Tightens k ws (refuse x) (refuse x') := by
  intro a
  rw [refuse_ok, refuse_ok]
  exact h a

/-! ## Deep nesting -/

theorem checkNesting_tightens : Tightens .deepNesting id
    (l.checkNesting { o with allowDeepNesting := false })
    (l.checkNesting { o with allowDeepNesting := true }) := by
  refine tightens_foldlM ?_ ?_ free_nil
  · rintro ws ⟨f, id⟩ hws
    dsimp only
    split
    · refine tightens_self fun ws' h => ?_
      obtain rfl := Except.ok.inj h
      exact hws
    · exact tightens_error (by simp [Warning.kind])
  · rintro ws ⟨f, id⟩ ws' hstep
    dsimp only at hstep
    split at hstep
    · obtain rfl := Except.ok.inj hstep
      exact fun h => h
    · obtain rfl := Except.ok.inj hstep
      exact fun h => (free_append.1 h).1

section

variable (allowed : Bool) (callees : List (Int × List String))

/-- No argument depends on how deep alternatives may be nested. -/
theorem resolveArguments_nesting (c : Call) (place : Place) :
    ∀ (inputs : List String) (args : List Argument),
      l.resolveArguments { o with allowDeepNesting := allowed } callees c place inputs args =
        l.resolveArguments o callees c place inputs args
  | _, [] => rfl
  | inputs, a :: rest => by
    simp only [resolveArguments, resolveArguments_nesting c place _ rest]
    rfl

theorem interactions_nesting : ∀ (inputs : List String) (xs : List (Call × Place)),
    l.interactions { o with allowDeepNesting := allowed } callees inputs xs =
      l.interactions o callees inputs xs
  | _, [] => rfl
  | inputs, (c, place) :: rest => by
    simp only [interactions, resolveArguments_nesting, interactions_nesting _ rest]

end

/-! ## Ambiguous bindings -/

theorem argumentBinding_tightens (name : String) (place : Place) (line : Int) :
    Tightens .ambiguousBinding Noted.warnings
      (l.argumentBinding { o with strictBindings := true } name place line)
      (l.argumentBinding { o with strictBindings := false } name place line) := by
  unfold argumentBinding
  dsimp only
  split
  · refine tightens_self fun n h => ?_
    obtain rfl := Except.ok.inj h
    exact free_nil
  · exact tightens_error (by simp [Warning.kind])

section

variable (callees : List (Int × List String)) (c : Call) (place : Place)

theorem resolveArgument_tightens (inputs : List String) (a : Argument) :
    Tightens .ambiguousBinding Noted.warnings
      (l.resolveArgument { o with strictBindings := true } callees inputs c place a)
      (l.resolveArgument { o with strictBindings := false } callees inputs c place a) := by
  have hlook := l.argumentBinding_tightens o (Name.root a.name) place c.line
  intro out
  rw [resolveArgument_ok, resolveArgument_ok]
  constructor
  · intro h
    cases h with
    | literal hl => exact ⟨.literal hl, free_nil⟩
    | loopElement hl he => exact ⟨.loopElement hl he, free_nil⟩
    | reply hl he hf hv =>
      obtain ⟨hf, hfree⟩ := (hlook _).1 hf
      exact ⟨.reply hl he hf hv, hfree⟩
    | input hl he hf hv hk hmem =>
      obtain ⟨hf, hfree⟩ := (hlook _).1 hf
      exact ⟨.input hl he hf hv hk hmem, hfree⟩
    | inferred hl he hf hv hroot hmem hi =>
      obtain ⟨hf, hfree⟩ := (hlook _).1 hf
      exact ⟨.inferred hl he hf hv hroot hmem hi, free_append.2 ⟨hfree, by simp [Warning.kind]⟩⟩
  · rintro ⟨h, hfree⟩
    cases h with
    | literal hl => exact .literal hl
    | loopElement hl he => exact .loopElement hl he
    | reply hl he hf hv => exact .reply hl he ((hlook _).2 ⟨hf, hfree⟩) hv
    | input hl he hf hv hk hmem => exact .input hl he ((hlook _).2 ⟨hf, hfree⟩) hv hk hmem
    | inferred hl he hf hv hroot hmem hi =>
      exact .inferred hl he ((hlook _).2 ⟨hf, (free_append.1 hfree).1⟩) hv hroot hmem hi

theorem resolveArguments_tightens : ∀ (inputs : List String) (args : List Argument),
    Tightens .ambiguousBinding Noted.warnings
      (l.resolveArguments { o with strictBindings := true } callees c place inputs args)
      (l.resolveArguments { o with strictBindings := false } callees c place inputs args)
  | _, [] => by
    refine tightens_self fun n h => ?_
    obtain rfl := Except.ok.inj h
    exact free_nil
  | inputs, a :: rest =>
    (l.resolveArgument_tightens o callees c place inputs a).append
      (fun first others => (first.1 :: others.1, others.2))
      fun first => resolveArguments_tightens first.2 rest

end

theorem interactions_tightens (callees : List (Int × List String)) :
    ∀ (inputs : List String) (xs : List (Call × Place)),
      Tightens .ambiguousBinding Noted.warnings
        (l.interactions { o with strictBindings := true } callees inputs xs)
        (l.interactions { o with strictBindings := false } callees inputs xs)
  | _, [] => by
    refine tightens_self fun n h => ?_
    obtain rfl := Except.ok.inj h
    exact free_nil
  | inputs, (c, place) :: rest =>
    (l.resolveArguments_tightens o callees c place inputs c.arguments).append
      (fun resolved others => ({
        index := c.id
        position := place.position
        method := c.parent
        source := c.source
        target := c.target
        operation := c.method
        arguments := resolved.1
        line := c.line
        reply := l.bindingOfCall c.id
        scope := l.scopeIn place.enclosing c.parent } :: others.1, others.2))
      fun resolved => interactions_tightens callees resolved.2 rest

/-! ## The model -/

theorem model_tightens_bindings : Tightens .ambiguousBinding Model.warnings
    (l.model { o with strictBindings := true }) (l.model { o with strictBindings := false }) := by
  unfold model
  split
  · exact tightens_self (by simp)
  refine tightens_after fun _ _ => ?_
  refine tightens_after fun nesting hnesting => ?_
  have hfree : Free .ambiguousBinding nesting :=
    free_of_kind (kind_of_checkNesting (refuse_ok.1 hnesting)) (by decide)
  refine tightens_after fun callees _ => ?_
  refine (l.interactions_tightens o callees _ _).before fun built m hm => ?_
  simp only [bind_ok, pure_ok] at hm
  obtain ⟨methods, -, throws, -, rfl⟩ := hm
  rw [free_append]
  exact and_iff_right hfree

theorem model_tightens_nesting : Tightens .deepNesting Model.warnings
    (l.model { o with allowDeepNesting := false })
    (l.model { o with allowDeepNesting := true }) := by
  unfold model
  split
  · exact tightens_self (by simp)
  refine tightens_after fun _ _ => ?_
  simp only [interactions_nesting]
  refine (tightens_refuse (l.checkNesting_tightens o)).before fun nesting m hm => ?_
  simp only [bind_ok, pure_ok] at hm
  obtain ⟨callees, -, built, hbuilt, methods, -, throws, -, rfl⟩ := hm
  rw [free_append]
  exact and_iff_left (free_of_interactions hbuilt)

end Layout

end Lifeline.Model

/-- **Strictness turns warnings into errors** and does nothing else. With strict bindings a diagram
has the models that it has without them, if no warning says that a name is bound several times; and
where deep nesting is not allowed it has the models that it has otherwise, if no warning is about
deep nesting. -/
theorem Lifeline.Diagram.buildModel_strict_iff (d : Diagram) (o : Model.Options) :
    (∀ m, d.buildModel { o with strictBindings := true } = .ok m ↔
      d.buildModel { o with strictBindings := false } = .ok m ∧
        ∀ w ∈ m.warnings, w.kind ≠ .ambiguousBinding) ∧
    (∀ m, d.buildModel { o with allowDeepNesting := false } = .ok m ↔
      d.buildModel { o with allowDeepNesting := true } = .ok m ∧
        ∀ w ∈ m.warnings, w.kind ≠ .deepNesting) := by
  have hbindings : Model.Tightens .ambiguousBinding Model.warnings
      (d.buildModel { o with strictBindings := true })
      (d.buildModel { o with strictBindings := false }) :=
    Model.tightens_after fun w _ => w.layout.model_tightens_bindings o
  have hnesting : Model.Tightens .deepNesting Model.warnings
      (d.buildModel { o with allowDeepNesting := false })
      (d.buildModel { o with allowDeepNesting := true }) :=
    Model.tightens_after fun w _ => w.layout.model_tightens_nesting o
  exact ⟨hbindings, hnesting⟩
