import Lifeline.Proofs.Tests.Paths

/-!
# Steering

`Nested blocks sites`: the blocks are numbered from the outside to the inside, and every branch
around a block or a site is one of the blocks'. There steering needs one pass: what it takes beyond
a path are the preferred branches of the blocks that are reached and not on the path
(`Nested.mem_steer`). How deep the search for raises goes does not matter, once it is deep enough
for all blocks; so a branch avoids raises where no raise lies right inside it and each block right
inside it has a branch that does (`Nested.avoids_iff`).
-/

set_option autoImplicit false

namespace Lifeline.Tests

open Model

variable {blocks : List Alternative} {sites : List RaiseSite}

/-! ## The branch that is preferred -/

/-- Some way through the branch reaches no raise, as the search for one finds. -/
def Avoids (blocks : List Alternative) (sites : List RaiseSite) (y : Nat × Nat) : Prop :=
  avoidsRaises blocks sites (blocks.length + 1) y = true

/-- The preferred branch is the first of the block that avoids all raises, or else its first. -/
theorem preferredBranch_cases (blocks : List Alternative) (sites : List RaiseSite)
    {b : Alternative} (hb : b.branches ≠ []) :
    (∃ pre br post, b.branches = pre ++ br :: post ∧ preferredBranch blocks sites b = br.index ∧
      Avoids blocks sites (b.id, br.index) ∧
      ∀ x ∈ pre, ¬ Avoids blocks sites (b.id, x.index)) ∨
    ((∃ br rest, b.branches = br :: rest ∧ preferredBranch blocks sites b = br.index) ∧
      ∀ x ∈ b.branches, ¬ Avoids blocks sites (b.id, x.index)) := by
  unfold preferredBranch Avoids
  dsimp only
  cases hf : b.branches.find? fun br =>
      avoidsRaises blocks sites (blocks.length + 1) (b.id, br.index) with
  | some br =>
    obtain ⟨havoids, pre, post, hcut, hpre⟩ := List.find?_eq_some_iff_append.1 hf
    exact .inl ⟨pre, br, post, hcut, rfl, havoids, by simpa using hpre⟩
  | none =>
    refine .inr ⟨?_, by simpa using hf⟩
    obtain ⟨br, rest, hcut⟩ := List.exists_cons_of_ne_nil hb
    exact ⟨br, rest, hcut, by simp [hcut]⟩

theorem preferredBranch_of_first {b : Alternative} {pre post : List Branch} {br : Branch}
    (hcut : b.branches = pre ++ br :: post) (ha : Avoids blocks sites (b.id, br.index))
    (hpre : ∀ x ∈ pre, ¬ Avoids blocks sites (b.id, x.index)) :
    preferredBranch blocks sites b = br.index := by
  have hfind : (b.branches.find? fun br =>
      avoidsRaises blocks sites (blocks.length + 1) (b.id, br.index)) = some br :=
    List.find?_eq_some_iff_append.2 ⟨ha, pre, post, hcut, by simpa [Avoids] using hpre⟩
  unfold preferredBranch
  dsimp only
  rw [hfind]

theorem preferredBranch_of_none {b : Alternative} {br : Branch} {rest : List Branch}
    (hcut : b.branches = br :: rest)
    (hnone : ∀ x ∈ b.branches, ¬ Avoids blocks sites (b.id, x.index)) :
    preferredBranch blocks sites b = br.index := by
  have hfind : (b.branches.find? fun br =>
      avoidsRaises blocks sites (blocks.length + 1) (b.id, br.index)) = none :=
    List.find?_eq_none.2 hnone
  unfold preferredBranch
  dsimp only
  rw [hfind, hcut]
  rfl

theorem preferredBranch_mem (blocks : List Alternative) (sites : List RaiseSite)
    {b : Alternative} (hb : b.branches ≠ []) :
    ∃ br ∈ b.branches, br.index = preferredBranch blocks sites b := by
  obtain ⟨pre, br, post, hcut, hp, -⟩ | ⟨⟨br, rest, hcut, hp⟩, -⟩ :=
    preferredBranch_cases blocks sites hb
  · exact ⟨br, by simp [hcut], hp.symm⟩
  · exact ⟨br, by simp [hcut], hp.symm⟩

/-- The preferred branch avoids all raises where any branch of the block does. -/
theorem preferredBranch_avoids {b : Alternative}
    (h : ∃ br ∈ b.branches, Avoids blocks sites (b.id, br.index)) :
    Avoids blocks sites (b.id, preferredBranch blocks sites b) := by
  obtain ⟨br, hbr, ha⟩ := h
  obtain ⟨pre, br', post, -, hp, ha', -⟩ | ⟨-, hnone⟩ :=
    preferredBranch_cases blocks sites (List.ne_nil_of_mem hbr)
  · rw [hp]
    exact ha'
  · exact absurd ha (hnone br hbr)

/-- Steering takes preferred branches only. -/
theorem mem_steerFrom {y : Nat × Nat} : ∀ {bs : List Alternative} {chosen : Path},
    y ∈ steerFrom blocks sites chosen bs → ∃ b ∈ bs, y = (b.id, preferredBranch blocks sites b)
  | [], _, h => by cases h
  | b :: bs, chosen, h => by
    unfold steerFrom at h
    split at h
    · obtain ⟨b', hb', rfl⟩ := mem_steerFrom h
      exact ⟨b', .tail _ hb', rfl⟩
    · rcases List.mem_cons.1 h with rfl | h
      · exact ⟨b, .head _, rfl⟩
      · obtain ⟨b', hb', rfl⟩ := mem_steerFrom h
        exact ⟨b', .tail _ hb', rfl⟩

/-! ## Nested blocks -/

/-- Every branch of the path is one of the blocks', with the blocks around it before it. -/
def Leads (blocks : List Alternative) (P : Path) : Prop :=
  ∀ ⦃X y Y⦄, P = X ++ y :: Y →
    ∃ b ∈ blocks, b.id = y.1 ∧ b.scope.path = X ∧ ∃ br ∈ b.branches, br.index = y.2

/-- Blocks from the outside to the inside, with the sites inside them. -/
structure Nested (blocks : List Alternative) (sites : List RaiseSite) : Prop where
  ascending : blocks.Pairwise fun b b' => b.id < b'.id
  branches : ∀ b ∈ blocks, b.branches ≠ []
  outward : ∀ b ∈ blocks, ∀ y ∈ b.scope.path, y.1 < b.id
  block : ∀ b ∈ blocks, Leads blocks b.scope.path
  site : ∀ s ∈ sites, Leads blocks s.scope.path

theorem isRightInside_iff {scope : Scope} {y : Nat × Nat} :
    isRightInside scope y = true ↔ ∃ X, scope.path = X ++ [y] := by
  rw [isRightInside, beq_iff_eq, List.getLast?_eq_some_iff]

theorem mem_of_isRightInside {scope : Scope} {y : Nat × Nat} (h : isRightInside scope y = true) :
    y ∈ scope.path := by
  obtain ⟨X, hX⟩ := isRightInside_iff.1 h
  simp [hX]

/-- What the blocks behind `b` add to a choice is not around `b`. -/
theorem runs_append_steerFrom {b : Alternative} {bs : List Alternative} {chosen : Path}
    (hb : ∀ b' ∈ bs, b.id < b'.id) (ho : ∀ z ∈ b.scope.path, z.1 < b.id) :
    runs b.scope (chosen ++ steerFrom blocks sites chosen bs) = runs b.scope chosen := by
  rw [Bool.eq_iff_iff, runs_iff, runs_iff]
  refine forall₂_congr fun z hz => ?_
  rw [List.mem_append]
  refine or_iff_left fun hlater => ?_
  obtain ⟨b', hb', rfl⟩ := mem_steerFrom hlater
  have hlt := hb b' hb'
  have hout := ho _ hz
  dsimp only at hout
  omega

/-- A block is reached in time: when its turn comes, all branches around it have been taken that
ever will be. -/
theorem mem_steerFrom_iff {y : Nat × Nat} : ∀ {bs : List Alternative} {chosen : Path},
    bs.Pairwise (fun b b' => b.id < b'.id) → (∀ b ∈ bs, ∀ z ∈ b.scope.path, z.1 < b.id) →
      (y ∈ steerFrom blocks sites chosen bs ↔
        ∃ b ∈ bs, y = (b.id, preferredBranch blocks sites b) ∧ b.id ∉ chosen.map (·.1) ∧
          runs b.scope (chosen ++ steerFrom blocks sites chosen bs) = true)
  | [], _, _, _ => by simp [steerFrom]
  | b :: bs, chosen, hs, ho => by
    obtain ⟨hb, hs'⟩ := List.pairwise_cons.1 hs
    have ho' : ∀ b ∈ bs, ∀ z ∈ b.scope.path, z.1 < b.id := fun b' hb' => ho b' (.tail _ hb')
    have hdecided : (chosen.any fun z => z.1 == b.id) = true ↔ b.id ∈ chosen.map (·.1) := by
      simp
    unfold steerFrom
    split
    · rename_i hskip
      rw [mem_steerFrom_iff hs' ho', List.exists_mem_cons_iff]
      refine (or_iff_right ?_).symm
      rintro ⟨-, hnew, hruns⟩
      rw [runs_append_steerFrom hb (ho b (.head _))] at hruns
      simp [hdecided, hnew, hruns] at hskip
    · rename_i htake
      simp only [Bool.or_eq_true, hdecided, Bool.not_eq_true', not_or, Bool.not_eq_false] at htake
      obtain ⟨hnew, hruns⟩ := htake
      have hruns' : ∀ P : Path, runs b.scope (chosen ++ P) = true := fun P =>
        runs_iff.2 fun z hz => List.mem_append_left _ (runs_iff.1 hruns z hz)
      dsimp only
      rw [List.mem_cons, mem_steerFrom_iff hs' ho', ← List.append_cons, List.exists_mem_cons_iff]
      refine or_congr (iff_self_and.2 fun _ => ⟨hnew, hruns' _⟩) ?_
      -- The branch of `b` decides none of the blocks behind it.
      refine exists_congr fun b' => and_congr_right fun hb' => and_congr_right fun _ =>
        and_congr_left fun _ => ?_
      have hlt := hb b' hb'
      rw [List.map_append, List.mem_append, not_or]
      refine and_iff_left ?_
      simp only [List.map_cons, List.map_nil, List.mem_singleton]
      omega

/-- How many blocks come behind that of a branch. -/
def below (blocks : List Alternative) (y : Nat × Nat) : Nat := blocks.countP fun b => y.1 < b.id

namespace Nested

variable (h : Nested blocks sites)
include h

theorem block_unique {b b' : Alternative} (hb : b ∈ blocks) (hb' : b' ∈ blocks)
    (hid : b.id = b'.id) : b = b' :=
  List.inj_on_of_nodup_map (List.pairwise_map.2 (h.ascending.imp Nat.ne_of_lt)) hb hb' hid

/-- A branch of a path has the blocks around it before it. -/
theorem path_of_cut {P X Y : Path} {y : Nat × Nat} (hP : Leads blocks P) (hcut : P = X ++ y :: Y)
    {b : Alternative} (hb : b ∈ blocks) (hid : b.id = y.1) : b.scope.path = X := by
  obtain ⟨b', hb', hid', hX, -⟩ := hP hcut
  obtain rfl := h.block_unique hb hb' (hid.trans hid'.symm)
  exact hX

/-- What steering takes beyond a path: the preferred branches of the blocks that are reached and
that the path leaves open. -/
theorem mem_steer {K : Path} {y : Nat × Nat} : y ∈ steer K blocks sites ↔
    ∃ b ∈ blocks, y = (b.id, preferredBranch blocks sites b) ∧ b.id ∉ K.map (·.1) ∧
      runs b.scope (K ++ steer K blocks sites) = true :=
  mem_steerFrom_iff h.ascending h.outward

/-! ## Avoiding raises -/

theorem below_lt {b : Alternative} (hb : b ∈ blocks) {y : Nat × Nat} (hy : y ∈ b.scope.path)
    (k : Nat) : below blocks (b.id, k) < below blocks y := by
  have hlt := h.outward b hb y hy
  unfold below
  obtain ⟨X, Y, rfl⟩ := List.append_of_mem hb
  have hmono : ∀ bs : List Alternative,
      bs.countP (fun c => b.id < c.id) ≤ bs.countP (fun c => y.1 < c.id) := fun bs =>
    List.countP_mono_left fun c _ hc => by
      simp only [decide_eq_true_eq] at hc ⊢
      omega
  have h1 := hmono X
  have h2 := hmono Y
  simp only [List.countP_append, List.countP_cons, decide_eq_true_eq, hlt, if_true, lt_irrefl,
    if_false]
  omega

/-- A search that is deep enough finds what every deeper one does. -/
theorem avoidsRaises_deeper {n : Nat} : ∀ {k : Nat} {y : Nat × Nat}, below blocks y < n →
    below blocks y < k → avoidsRaises blocks sites n y = avoidsRaises blocks sites k y := by
  induction n with
  | zero =>
    intro k y hn
    omega
  | succ n ih =>
    intro k y hn hk
    obtain ⟨k, rfl⟩ : ∃ k', k = k' + 1 := ⟨k - 1, by omega⟩
    simp only [avoidsRaises]
    congr 1
    rw [Bool.eq_iff_iff, List.all_eq_true, List.all_eq_true]
    refine forall₂_congr fun b hb => ?_
    obtain ⟨hb, hin⟩ := List.mem_filter.1 hb
    have hsame : ∀ br : Branch, avoidsRaises blocks sites n (b.id, br.index) =
        avoidsRaises blocks sites k (b.id, br.index) := by
      intro br
      have hlt := h.below_lt hb (mem_of_isRightInside hin) br.index
      exact ih (by omega) (by omega)
    simp only [hsame]

/-- A branch avoids raises where none lies right inside it and each block right inside it has a
branch that avoids them. -/
theorem avoids_iff {y : Nat × Nat} : Avoids blocks sites y ↔
    (∀ s ∈ sites, isRightInside s.scope y = false) ∧
      ∀ b ∈ blocks, isRightInside b.scope y = true →
        ∃ br ∈ b.branches, Avoids blocks sites (b.id, br.index) := by
  have hsearch : ∀ b ∈ blocks, isRightInside b.scope y = true → ∀ k,
      avoidsRaises blocks sites blocks.length (b.id, k) =
        avoidsRaises blocks sites (blocks.length + 1) (b.id, k) := by
    intro b hb hin k
    have hlt := h.below_lt hb (mem_of_isRightInside hin) k
    have hle : below blocks y ≤ blocks.length := List.countP_le_length
    exact h.avoidsRaises_deeper (by omega) (by omega)
  unfold Avoids
  rw [avoidsRaises]
  simp only [Bool.and_eq_true, Bool.not_eq_true', List.any_eq_false, List.all_eq_true,
    List.mem_filter, List.any_eq_true, Bool.not_eq_true, and_imp]
  refine and_congr_right fun _ => ⟨fun hall b hb hin => ?_, fun hall b hb hin => ?_⟩
  · obtain ⟨br, hbr, ha⟩ := hall b hb hin
    exact ⟨br, hbr, hsearch b hb hin _ ▸ ha⟩
  · obtain ⟨br, hbr, ha⟩ := hall b hb hin
    exact ⟨br, hbr, (hsearch b hb hin _).trans ha⟩

end Nested

end Lifeline.Tests
