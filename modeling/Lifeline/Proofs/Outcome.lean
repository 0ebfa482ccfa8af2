import Mathlib.Data.List.Forall2

/-!
# Steps that may fail

What a chain of steps in `Except` has done when it ends well: `bind_ok`, `map_ok` for two steps,
`mapM_ok`, `forM_ok`, `filterMapM_ok`, `filterMapM_filter`, `foldlM_inv` and `foldlM_collects` for
the steps of a list. What it may fail with when it does not: `FailsOnly`, which chains of steps take
over from their steps.
-/

namespace Lifeline

variable {ε α β γ : Type}

@[simp] theorem bind_ok {x : Except ε α} {f : α → Except ε β} {b : β} :
    x >>= f = .ok b ↔ ∃ a, x = .ok a ∧ f a = .ok b := by
  cases x <;> simp [bind, Except.bind]

@[simp] theorem map_ok {x : Except ε α} {f : α → β} {b : β} :
    f <$> x = .ok b ↔ ∃ a, x = .ok a ∧ f a = b := by
  cases x <;> simp [Functor.map, Except.map]

@[simp] theorem pure_ok {a b : α} : (pure a : Except ε α) = .ok b ↔ a = b := by
  simp [pure, Except.pure]

theorem toOption_eq_some {x : Except ε α} {a : α} : x.toOption = some a ↔ x = .ok a := by
  cases x <;> simp [Except.toOption]

/-- A mapped list, item by item. -/
theorem mapM_ok {f : α → Except ε β} :
    ∀ {xs : List α} {ys : List β},
      xs.mapM f = .ok ys ↔ List.Forall₂ (fun x y => f x = .ok y) xs ys
  | [], ys => by
    simp only [List.mapM_nil, pure_ok, List.forall₂_nil_left_iff]
    exact eq_comm
  | x :: xs, ys => by
    have ih : ∀ ys, xs.mapM f = .ok ys ↔ List.Forall₂ (fun x y => f x = .ok y) xs ys :=
      fun _ => mapM_ok
    simp only [List.mapM_cons, bind_ok, pure_ok, ih, List.forall₂_cons_left_iff]
    constructor
    · rintro ⟨y, hy, ys', hys, rfl⟩
      exact ⟨y, ys', hy, hys, rfl⟩
    · rintro ⟨y, ys', hy, hys, rfl⟩
      exact ⟨y, hy, ys', hys, rfl⟩

/-- A mapped list, where a condition on the item decides whether a step ends well. -/
theorem mapM_ok_iff {f : α → Except ε β} {p : α → Prop} {g : α → β}
    (hf : ∀ x y, f x = .ok y ↔ p x ∧ g x = y) {xs : List α} {ys : List β} :
    xs.mapM f = .ok ys ↔ (∀ x ∈ xs, p x) ∧ xs.map g = ys := by
  simp only [mapM_ok, hf, List.forall₂_and_left]
  rw [← List.forall₂_map_left_iff, List.forall₂_eq_eq_eq]

/-- A list of checks, item by item. -/
theorem forM_ok {f : α → Except ε PUnit} {u : PUnit} :
    ∀ {xs : List α}, xs.forM f = .ok u ↔ ∀ x ∈ xs, f x = .ok ()
  | [] => iff_of_true rfl (by simp)
  | x :: xs => by
    show (f x >>= fun _ => xs.forM f) = .ok u ↔ _
    rw [bind_ok, List.forall_mem_cons]
    constructor
    · rintro ⟨⟨⟩, hx, hxs⟩
      exact ⟨hx, forM_ok.1 hxs⟩
    · rintro ⟨hx, hxs⟩
      exact ⟨(), hx, forM_ok.2 hxs⟩

/-- A filtered list, item by item: what is left out maps to `none`. -/
theorem filterMapM_ok {f : α → Except ε (Option β)} :
    ∀ {xs : List α} {ys : List β},
      xs.filterMapM f = .ok ys ↔
        ∃ os, List.Forall₂ (fun x o => f x = .ok o) xs os ∧ ys = os.filterMap id
  | [], ys => by
    simp only [List.filterMapM_nil, pure_ok, List.forall₂_nil_left_iff, exists_eq_left,
      List.filterMap_nil]
    exact eq_comm
  | x :: xs, ys => by
    simp only [List.filterMapM_cons, bind_ok, List.forall₂_cons_left_iff]
    constructor
    · rintro ⟨o, ho, h⟩
      cases o with
      | none =>
        obtain ⟨os, hos, rfl⟩ := filterMapM_ok.1 h
        exact ⟨none :: os, ⟨none, os, ho, hos, rfl⟩, rfl⟩
      | some y =>
        simp only [bind_ok, pure_ok] at h
        obtain ⟨ys', hys, rfl⟩ := h
        obtain ⟨os, hos, rfl⟩ := filterMapM_ok.1 hys
        exact ⟨some y :: os, ⟨some y, os, ho, hos, rfl⟩, rfl⟩
    · rintro ⟨_, ⟨o, os, ho, hos, rfl⟩, rfl⟩
      refine ⟨o, ho, ?_⟩
      have hxs : xs.filterMapM f = .ok (os.filterMap id) := filterMapM_ok.2 ⟨os, hos, rfl⟩
      cases o <;> simp [hxs]

theorem mem_filterMapM {f : α → Except ε (Option β)} {xs : List α} {ys : List β}
    (h : xs.filterMapM f = .ok ys) {y : β} : y ∈ ys ↔ ∃ x ∈ xs, f x = .ok (some y) := by
  obtain ⟨os, hos, rfl⟩ := filterMapM_ok.1 h
  clear h
  have hy : y ∈ os.filterMap id ↔ some y ∈ os := by simp
  rw [hy]
  clear hy
  induction hos with
  | nil => simp
  | @cons x o xs os hxo _ ih =>
    simp [hxo, ih, eq_comm]

/-- What a test says of the items of a list, where it does not fail. -/
theorem ok_of_filterMapM {f : α → Except ε (Option β)} {xs : List α} {ys : List β}
    (h : xs.filterMapM f = .ok ys) : ∀ x ∈ xs, ∃ o, f x = .ok o := by
  obtain ⟨os, hos, rfl⟩ := filterMapM_ok.1 h
  clear h
  induction hos with
  | nil => simp
  | cons hxo _ ih =>
    intro x hx
    rcases List.mem_cons.1 hx with rfl | hx
    · exact ⟨_, hxo⟩
    · exact ih x hx

theorem pairwise_filterMapM {f : α → Except ε (Option β)} {S : α → α → Prop} {T : β → β → Prop}
    {xs : List α} {ys : List β} (h : xs.filterMapM f = .ok ys) (hs : xs.Pairwise S)
    (hst : ∀ x x' y y', S x x' → f x = .ok (some y) → f x' = .ok (some y') → T y y') :
    ys.Pairwise T := by
  induction xs generalizing ys with
  | nil =>
    simp only [List.filterMapM_nil, pure_ok] at h
    rw [← h]
    exact .nil
  | cons x xs ih =>
    obtain ⟨hx, hxs⟩ := List.pairwise_cons.1 hs
    simp only [List.filterMapM_cons, bind_ok] at h
    obtain ⟨o, ho, h⟩ := h
    cases o with
    | none => exact ih h hxs
    | some y =>
      simp only [bind_ok, pure_ok] at h
      obtain ⟨ys', hys, rfl⟩ := h
      refine List.pairwise_cons.2 ⟨fun y' hy' => ?_, ih hys hxs⟩
      obtain ⟨x', hx', hxy⟩ := (mem_filterMapM hys).1 hy'
      exact hst x x' y y' (hx x' hx') ho hxy

/-- A filtered list, where a test says which items are left out. -/
theorem filterMapM_filter {f : α → Except ε (Option β)} {q : α → Bool} {R : α → β → Prop}
    {xs : List α} {ys : List β} (h : xs.filterMapM f = .ok ys)
    (hf : ∀ x o, f x = .ok o → (q x = false ∧ o = none) ∨ (q x = true ∧ ∃ y, o = some y ∧ R x y)) :
    List.Forall₂ R (xs.filter q) ys := by
  obtain ⟨os, hos, rfl⟩ := filterMapM_ok.1 h
  clear h
  induction hos with
  | nil => exact .nil
  | cons hxo _ ih =>
    obtain ⟨hq, rfl⟩ | ⟨hq, y, rfl, hr⟩ := hf _ _ hxo
    · rw [List.filter_cons_of_neg (by simp [hq])]
      exact ih
    · rw [List.filter_cons_of_pos hq]
      exact .cons hr ih

theorem filterAuxM_ok {f : α → Except ε Bool} :
    ∀ {xs acc ys : List α}, xs.filterAuxM f acc = .ok ys ↔
      (∀ x ∈ xs, ∃ b, f x = .ok b) ∧
        ys = (xs.filter fun x => (f x).toOption == some true).reverse ++ acc
  | [], acc, ys => by
    rw [List.filterAuxM, pure_ok]
    simp [eq_comm]
  | x :: xs, acc, ys => by
    have ih : ∀ acc ys, xs.filterAuxM f acc = .ok ys ↔ (∀ x ∈ xs, ∃ b, f x = .ok b) ∧
        ys = (xs.filter fun x => (f x).toOption == some true).reverse ++ acc :=
      fun _ _ => filterAuxM_ok
    simp only [List.filterAuxM, bind_ok, ih, List.forall_mem_cons]
    constructor
    · rintro ⟨b, hb, hxs, rfl⟩
      refine ⟨⟨⟨b, hb⟩, hxs⟩, ?_⟩
      cases b <;> simp [hb, Except.toOption]
    · rintro ⟨⟨⟨b, hb⟩, hxs⟩, rfl⟩
      refine ⟨b, hb, hxs, ?_⟩
      cases b <;> simp [hb, Except.toOption]

/-- A list that is filtered by a test which may fail. -/
theorem filterM_ok {f : α → Except ε Bool} {xs ys : List α} : xs.filterM f = .ok ys ↔
    (∀ x ∈ xs, ∃ b, f x = .ok b) ∧ ys = xs.filter fun x => (f x).toOption == some true := by
  simp only [List.filterM, bind_ok, pure_ok, filterAuxM_ok, List.append_nil]
  constructor
  · rintro ⟨_, ⟨h, rfl⟩, rfl⟩
    exact ⟨h, List.reverse_reverse _⟩
  · rintro ⟨h, rfl⟩
    exact ⟨_, ⟨h, rfl⟩, List.reverse_reverse _⟩

theorem filterM_eq_nil {f : α → Except ε Bool} {xs : List α} (h : ∀ x ∈ xs, f x = .ok false) :
    xs.filterM f = .ok [] := by
  refine filterM_ok.2 ⟨fun x hx => ⟨false, h x hx⟩, ?_⟩
  rw [eq_comm, List.filter_eq_nil_iff]
  intro x hx
  rw [h x hx]
  simp [Except.toOption]

/-- An invariant of a fold: it holds at the start, and every step that ends well keeps it. -/
theorem foldlM_inv {f : β → α → Except ε β} (P : β → Prop) :
    ∀ {xs : List α} {b r : β}, xs.foldlM f b = .ok r →
      (∀ b' x, x ∈ xs → P b' → ∀ b'', f b' x = .ok b'' → P b'') → P b → P r
  | [], b, r, h, _, hb => by
    simp only [List.foldlM_nil, pure_ok] at h
    exact h ▸ hb
  | x :: xs, b, r, h, hs, hb => by
    simp only [List.foldlM_cons, bind_ok] at h
    obtain ⟨b', h1, h2⟩ := h
    exact foldlM_inv P h2 (fun b' y hy => hs b' y (.tail _ hy)) (hs b x (.head _) hb b' h1)

/-- A list that steps only ever extend has in the end what each of them puts there. -/
theorem foldlM_collects {f : List β → α → Except ε (List β)} {P : List β → Prop}
    {Q : α → List β → Prop} (hmono : ∀ x b b', b ⊆ b' → Q x b → Q x b') :
    ∀ {xs : List α} {b r : List β}, xs.foldlM f b = .ok r → P b →
      (∀ x ∈ xs, ∀ b b', f b x = .ok b' → P b → P b' ∧ b ⊆ b' ∧ Q x b') →
        P r ∧ b ⊆ r ∧ ∀ x ∈ xs, Q x r
  | [], b, r, h, hb, _ => by
    obtain rfl := pure_ok.1 h
    exact ⟨hb, List.Subset.refl _, by simp⟩
  | x :: xs, b, r, h, hb, hs => by
    rw [List.foldlM_cons, bind_ok] at h
    obtain ⟨b', h1, h2⟩ := h
    obtain ⟨hb', hsub, hx⟩ := hs x (.head _) b b' h1 hb
    obtain ⟨hr, hsub', hall⟩ := foldlM_collects hmono h2 hb' fun y hy => hs y (.tail _ hy)
    refine ⟨hr, List.Subset.trans hsub hsub', fun y hy => ?_⟩
    rcases List.mem_cons.1 hy with rfl | hy
    · exact hmono y b' r hsub' hx
    · exact hall y hy

/-! ## Failures -/

/-- A step that fails only as `P` allows. -/
def FailsOnly (P : ε → Prop) (x : Except ε α) : Prop := ∀ e, x = .error e → P e

section

variable {P : ε → Prop}

theorem failsOnly_ok (a : α) : FailsOnly P (.ok a : Except ε α) := fun _ h => by cases h

theorem failsOnly_error {e : ε} (h : P e) : FailsOnly P (.error e : Except ε α) := by
  rintro _ ⟨⟩
  exact h

/-- What never fails ends well. -/
theorem exists_ok {x : Except ε α} (h : FailsOnly (fun _ => False) x) : ∃ a, x = .ok a := by
  cases x with
  | ok a => exact ⟨a, rfl⟩
  | error e => exact (h e rfl).elim

theorem failsOnly_of_exists {x : Except ε α} (h : ∃ a, x = .ok a) : FailsOnly P x := by
  obtain ⟨a, rfl⟩ := h
  exact failsOnly_ok a

theorem FailsOnly.mono {Q : ε → Prop} {x : Except ε α} (h : FailsOnly P x)
    (hpq : ∀ e, P e → Q e) : FailsOnly Q x :=
  fun e he => hpq e (h e he)

theorem FailsOnly.bind {x : Except ε α} {f : α → Except ε β} (hx : FailsOnly P x)
    (hf : ∀ a, x = .ok a → FailsOnly P (f a)) : FailsOnly P (x >>= f) := by
  cases x with
  | ok a => exact hf a rfl
  | error e => exact failsOnly_error (hx e rfl)

/-- Of two steps, the second one is taken where the first one ends well. -/
theorem failsOnly_bind_iff {x : Except ε α} {f : α → Except ε β} :
    FailsOnly P (x >>= f) ↔ FailsOnly P x ∧ ∀ a, x = .ok a → FailsOnly P (f a) := by
  constructor
  · intro h
    cases x with
    | ok a =>
      refine ⟨failsOnly_ok a, fun a' ha => ?_⟩
      obtain rfl := Except.ok.inj ha
      exact h
    | error e => exact ⟨failsOnly_error (h e rfl), fun a ha => by cases ha⟩
  · intro ⟨hx, hf⟩
    exact hx.bind hf

theorem FailsOnly.map {x : Except ε α} (hx : FailsOnly P x) (f : α → β) :
    FailsOnly P (f <$> x) := by
  cases x with
  | ok a => exact failsOnly_ok _
  | error e => exact failsOnly_error (hx e rfl)

theorem failsOnly_mapM {f : α → Except ε β} :
    ∀ {xs : List α}, (∀ x ∈ xs, FailsOnly P (f x)) → FailsOnly P (xs.mapM f)
  | [], _ => failsOnly_ok []
  | x :: xs, h => by
    rw [List.mapM_cons]
    refine (h x (.head _)).bind fun y _ => ?_
    refine (failsOnly_mapM fun z hz => h z (.tail _ hz)).bind fun ys _ => ?_
    exact failsOnly_ok _

/-- A list fails with its first item that fails. -/
theorem mapM_error {f : α → Except ε β} {x : α} {e : ε} (hx : f x = .error e) {after : List α} :
    ∀ {before : List α}, (∀ y ∈ before, ∃ b, f y = .ok b) →
      (before ++ x :: after).mapM f = .error e
  | [], _ => by
    rw [List.nil_append, List.mapM_cons, hx]
    rfl
  | y :: before, h => by
    obtain ⟨⟨b, hb⟩, hbefore⟩ := List.forall_mem_cons.1 h
    rw [List.cons_append, List.mapM_cons, hb]
    show ((before ++ x :: after).mapM f >>= fun bs => pure (b :: bs)) = .error e
    rw [mapM_error hx hbefore]
    rfl

theorem failsOnly_filterMapM {f : α → Except ε (Option β)} :
    ∀ {xs : List α}, (∀ x ∈ xs, FailsOnly P (f x)) → FailsOnly P (xs.filterMapM f)
  | [], _ => failsOnly_ok []
  | x :: xs, h => by
    have hxs : FailsOnly P (xs.filterMapM f) := failsOnly_filterMapM fun z hz => h z (.tail _ hz)
    rw [List.filterMapM_cons]
    refine (h x (.head _)).bind fun o _ => ?_
    cases o with
    | none => exact hxs
    | some y => exact hxs.bind fun ys _ => failsOnly_ok _

theorem failsOnly_foldlM {f : β → α → Except ε β} :
    ∀ {xs : List α} {b : β}, (∀ b, ∀ x ∈ xs, FailsOnly P (f b x)) → FailsOnly P (xs.foldlM f b)
  | [], b, _ => failsOnly_ok b
  | x :: xs, b, h => by
    rw [List.foldlM_cons]
    refine (h b x (.head _)).bind fun b' _ => ?_
    exact failsOnly_foldlM fun b z hz => h b z (.tail _ hz)

theorem failsOnly_forM {f : α → Except ε PUnit} :
    ∀ {xs : List α}, (∀ x ∈ xs, FailsOnly P (f x)) → FailsOnly P (xs.forM f)
  | [], _ => failsOnly_ok ()
  | x :: xs, h => by
    show FailsOnly P (f x >>= fun _ => xs.forM f)
    refine (h x (.head _)).bind fun _ _ => ?_
    exact failsOnly_forM fun z hz => h z (.tail _ hz)

end

end Lifeline
