import Lifeline.Proofs.Model.Resolving

/-!
# Warnings of a build

What the warnings of a build are about (`Warning.kind`), and which step leaves which of them: the
check of the nesting, the look-up of a reply, and the argument that becomes an input.
-/

set_option autoImplicit false

namespace Lifeline.Model

/-! ## Kinds of warnings -/

/-- What a warning is about. -/
inductive Warning.Kind where
  | inferredInput | ambiguousBinding | deepNesting
deriving DecidableEq

def Warning.kind (w : Warning) : Warning.Kind :=
  match w.finding with
  | .inferredInput _ => .inferredInput
  | .ambiguousBinding .. => .ambiguousBinding
  | .deepNesting _ => .deepNesting

/-- No warning is of a kind. -/
def Free (k : Warning.Kind) (ws : List Warning) : Prop := ∀ w ∈ ws, w.kind ≠ k

section

variable {k : Warning.Kind} {ws ws' : List Warning}

@[simp] theorem free_nil : Free k [] := by simp [Free]

@[simp] theorem free_append : Free k (ws ++ ws') ↔ Free k ws ∧ Free k ws' := by
  simp only [Free, List.forall_mem_append]

@[simp] theorem free_singleton {w : Warning} : Free k [w] ↔ w.kind ≠ k := by
  simp [Free]

/-- Warnings that are all of one kind are free of the others. -/
theorem free_of_kind {k' : Warning.Kind} (h : ∀ w ∈ ws, w.kind = k') (hne : k' ≠ k) :
    Free k ws := by
  intro w hw
  rw [h w hw]
  exact hne

end

namespace Layout

variable {l : Layout} {o : Options} {callees : List (Int × List String)}

/-! ## Nesting and look-ups -/

theorem kind_of_checkNesting {ws : List Warning} (h : l.checkNesting o = .ok ws) :
    ∀ w ∈ ws, w.kind = .deepNesting := by
  refine foldlM_inv (fun ws : List Warning => ∀ w ∈ ws, w.kind = .deepNesting) h ?_ (by simp)
  rintro ws' ⟨f, id⟩ - hws ws'' hstep
  dsimp only at hstep
  split at hstep
  · exact Except.ok.inj hstep ▸ hws
  · split at hstep
    · obtain rfl := Except.ok.inj hstep
      intro w hw
      rcases List.mem_append.1 hw with hw | hw
      · exact hws w hw
      · rw [List.mem_singleton.1 hw]
        rfl
    · cases hstep

theorem kind_of_argumentBinding {name : String} {place : Place} {line : Int}
    {out : Noted (Option Int)} (h : l.argumentBinding o name place line = .ok out) :
    ∀ w ∈ out.warnings, w.kind = .ambiguousBinding := by
  unfold argumentBinding at h
  dsimp only at h
  split at h
  · obtain rfl := Except.ok.inj h
    simp
  · split at h
    · cases h
    · obtain rfl := Except.ok.inj h
      simp [Warning.kind]

/-! ## Arguments -/

/-- Only the check of the nesting warns of it. -/
theorem free_of_resolveArgument {inputs : List String} {c : Call} {place : Place} {a : Argument}
    {out : Noted (ArgumentRef × List String)}
    (h : l.resolveArgument o callees inputs c place a = .ok out) :
    Free .deepNesting out.warnings := by
  have hlook : ∀ found, l.argumentBinding o (Name.root a.name) place c.line = .ok found →
      Free .deepNesting found.warnings := fun found hf =>
    free_of_kind (kind_of_argumentBinding hf) (by decide)
  cases resolveArgument_ok.1 h with
  | literal | loopElement => exact free_nil
  | reply _ _ hf => exact hlook _ hf
  | input _ _ hf => exact hlook _ hf
  | inferred _ _ hf => exact free_append.2 ⟨hlook _ hf, by simp [Warning.kind]⟩

theorem free_of_resolveArguments {c : Call} {place : Place} : ∀ {args : List Argument}
    {inputs : List String} {out : Noted (List ArgumentRef × List String)},
      l.resolveArguments o callees c place inputs args = .ok out → Free .deepNesting out.warnings
  | [], _, _, h => by
    obtain rfl := Except.ok.inj h
    exact free_nil
  | a :: rest, _, _, h => by
    simp only [resolveArguments, bind_ok, pure_ok] at h
    obtain ⟨first, hfirst, others, hothers, rfl⟩ := h
    exact free_append.2 ⟨free_of_resolveArgument hfirst, free_of_resolveArguments hothers⟩

theorem free_of_interactions : ∀ {xs : List (Call × Place)} {inputs : List String}
    {out : Noted (List Interaction × List String)},
      l.interactions o callees inputs xs = .ok out → Free .deepNesting out.warnings
  | [], _, _, h => by
    obtain rfl := Except.ok.inj h
    exact free_nil
  | (c, place) :: rest, _, _, h => by
    simp only [interactions, bind_ok, pure_ok] at h
    obtain ⟨resolved, hresolved, others, hothers, rfl⟩ := h
    exact free_append.2 ⟨free_of_resolveArguments hresolved, free_of_interactions hothers⟩

end Layout

end Lifeline.Model
