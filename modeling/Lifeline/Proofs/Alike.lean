/-!
# Two runs that end alike

Two chains of steps in `Except` on different data: `Alike` where both end well with related results
or both fail in the same way, and `Mirrors` where the second has the result of the first one seen
through a function. Chains of steps take both over from their steps.
-/

set_option autoImplicit false

namespace Lifeline

variable {ε α β γ : Type}

/-- Two steps end alike: both well, with results that `R` relates, or both badly, with failures of
the same kind. -/
inductive Alike {κ : Type} (kind : ε → κ) (R : α → β → Prop) : Except ε α → Except ε β → Prop
  | ok {a : α} {b : β} (related : R a b) : Alike kind R (.ok a) (.ok b)
  | error {e e' : ε} (same : kind e = kind e') : Alike kind R (.error e) (.error e')

/-- The second of two steps ends as the first one does, with its result seen through `f`. -/
abbrev Mirrors {κ : Type} (kind : ε → κ) (f : α → β) : Except ε α → Except ε β → Prop :=
  Alike kind fun a b => b = f a

section

variable {κ δ : Type} {kind : ε → κ}

theorem Alike.cases {R : α → β → Prop} {x : Except ε α} {y : Except ε β} (h : Alike kind R x y) :
    (∃ e e', x = .error e ∧ y = .error e' ∧ kind e = kind e') ∨
      ∃ a b, x = .ok a ∧ y = .ok b ∧ R a b := by
  cases h with
  | ok h => exact .inr ⟨_, _, rfl, rfl, h⟩
  | error h => exact .inl ⟨_, _, rfl, rfl, h⟩

theorem Alike.bind {R : α → β → Prop} {S : γ → δ → Prop} {x : Except ε α} {y : Except ε β}
    {f : α → Except ε γ} {g : β → Except ε δ} (h : Alike kind R x y)
    (hfg : ∀ a b, R a b → Alike kind S (f a) (g b)) : Alike kind S (x >>= f) (y >>= g) := by
  cases h with
  | ok h => exact hfg _ _ h
  | error h => exact .error h

variable {f : α → β} {x : Except ε α} {y : Except ε β}

theorem Mirrors.bind {g : γ → δ} {u : α → Except ε γ} {v : β → Except ε δ}
    (h : Mirrors kind f x y) (huv : ∀ a, Mirrors kind g (u a) (v (f a))) :
    Mirrors kind g (x >>= u) (y >>= v) := by
  refine Alike.bind h ?_
  rintro a _ rfl
  exact huv a

theorem mirrors_self (x : Except ε α) : Mirrors kind id x x := by
  cases x with
  | ok a => exact .ok rfl
  | error e => exact .error rfl

/-- Two steps with the same image end alike. -/
theorem Mirrors.alike {x' : Except ε α} (h : Mirrors kind f x y) (h' : Mirrors kind f x' y) :
    Alike kind (fun a a' => f a = f a') x x' := by
  cases h with
  | ok h =>
    cases h' with
    | ok h' => exact .ok (h.symm.trans h')
  | error h =>
    cases h' with
    | error h' => exact .error (h.trans h'.symm)

theorem mirrors_mapM {g : γ → δ} {u : γ → Except ε α} {v : δ → Except ε β}
    (h : ∀ c, Mirrors kind f (u c) (v (g c))) :
    ∀ cs : List γ, Mirrors kind (List.map f) (cs.mapM u) ((cs.map g).mapM v)
  | [] => .ok rfl
  | c :: cs => by
    rw [List.mapM_cons, List.map_cons, List.mapM_cons]
    refine (h c).bind fun a => ?_
    refine (mirrors_mapM h cs).bind fun as => ?_
    exact .ok rfl

theorem mirrors_mapM_id {u v : γ → Except ε α} (h : ∀ c, Mirrors kind id (u c) (v c))
    (cs : List γ) : Mirrors kind id (cs.mapM u) (cs.mapM v) := by
  have hmap := mirrors_mapM (g := id) h cs
  simp only [List.map_id_fun, List.map_id] at hmap
  exact hmap

theorem mirrors_foldlM {g : γ → δ} {u : α → γ → Except ε α} {v : β → δ → Except ε β}
    (h : ∀ a c, Mirrors kind f (u a c) (v (f a) (g c))) :
    ∀ (cs : List γ) (a : α), Mirrors kind f (cs.foldlM u a) ((cs.map g).foldlM v (f a))
  | [], _ => .ok rfl
  | c :: cs, a => by
    rw [List.foldlM_cons, List.map_cons, List.foldlM_cons]
    exact (h a c).bind fun a => mirrors_foldlM h cs a

end

end Lifeline
