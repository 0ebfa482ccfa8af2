import Lifeline.Proofs.Diagram.Reading
import Lifeline.Proofs.Model.Building
import Lifeline.Proofs.Stages
import Lifeline.Proofs.Tests.Raises
import Lifeline.Proofs.Tests.Steering
import Lifeline.Proofs.Tests.Trees
import Mathlib.Data.Set.Defs

/-!
# Choices of branches

A full choice (`FullChoice`) takes one branch of every block that it reaches, and nothing else.
What a group takes, its path and its steering, is one (`Nested.fullChoice_chosen`). It reaches a
site only where every full choice beyond the path does (`Nested.raises_chosen_iff`), and the search
for raises tells which branches are safe (`Nested.safe_iff`). So what a group reaches can be told
from its path and the picks of the blocks alone (`Nested.runs_chosen_iff`).

**`steered_of_synthesis`**: the groups of a method are steered that way.
-/

set_option autoImplicit false

namespace Lifeline.Tests

open Model

/-- All branches around a scope are taken. -/
def Takes (R : Set (Nat × Nat)) (scope : Scope) : Prop := ∀ y ∈ scope.path, y ∈ R

/-- A choice of exactly one branch in each block that it reaches, and of no branch elsewhere. -/
structure FullChoice (blocks : List Alternative) (R : Set (Nat × Nat)) : Prop where
  one : ∀ b ∈ blocks, Takes R b.scope → ∃ br ∈ b.branches, ∀ k, (b.id, k) ∈ R ↔ k = br.index
  only : ∀ y ∈ R, ∃ b ∈ blocks, b.id = y.1 ∧ Takes R b.scope

/-- The choice reaches a place where an exception leaves the method. -/
def Raises (sites : List RaiseSite) (R : Set (Nat × Nat)) : Prop := ∃ s ∈ sites, Takes R s.scope

/-- Some way through the branch reaches no site at or below it. -/
def Safe (blocks : List Alternative) (sites : List RaiseSite) (y : Nat × Nat) : Prop :=
  ∃ R, FullChoice blocks R ∧ y ∈ R ∧ ∀ s ∈ sites, y ∈ s.scope.path → ¬ Takes R s.scope

/-- The branch `k` of the block is its first safe one, or its first one where none is safe. -/
inductive Picks (blocks : List Alternative) (sites : List RaiseSite) (b : Alternative) (k : Nat) :
    Prop where
  | safe {pre post : List Branch} {br : Branch} (cut : b.branches = pre ++ br :: post)
      (index : k = br.index) (safe : Safe blocks sites (b.id, br.index))
      (before : ∀ x ∈ pre, ¬ Safe blocks sites (b.id, x.index))
  | first {rest : List Branch} {br : Branch} (cut : b.branches = br :: rest)
      (index : k = br.index) (never : ∀ x ∈ b.branches, ¬ Safe blocks sites (b.id, x.index))

/-- The group of the path `K` takes a full choice, which raises only where every full choice beyond
the path does, and of the branches that the path leaves open the first safe ones. -/
structure Steered (c : Context) (x : Method) (K : Path) (g : Group) : Prop where
  path : g.path = K.map c.branchRef
  steering : ∃ S : Path, g.steering = S.map c.branchRef ∧
    FullChoice (c.blocksOf x) {y | y ∈ K ++ S} ∧
    ∀ y ∈ S, ∃ b ∈ c.blocksOf x, b.id = y.1 ∧ Picks (c.blocksOf x) (c.raiseSites x) b y.2
  mode : g.mode = .exceptionTriggered ↔
    ∀ R, FullChoice (c.blocksOf x) R → (∀ y ∈ K, y ∈ R) → Raises (c.raiseSites x) R

variable {blocks : List Alternative} {sites : List RaiseSite}

theorem takes_iff_runs {P : Path} {scope : Scope} :
    Takes {y | y ∈ P} scope ↔ runs scope P = true :=
  runs_iff.symm

/-! ## Paths that lead somewhere -/

theorem leads_nil : Leads blocks [] := by
  intro X y Y h
  simp at h

namespace Nested

variable (h : Nested blocks sites)
include h

theorem leads_branch {b : Alternative} (hb : b ∈ blocks) {br : Branch} (hbr : br ∈ b.branches) :
    Leads blocks (b.scope.path ++ [(b.id, br.index)]) := by
  intro X y Y hcut
  rcases Y.eq_nil_or_concat' with rfl | ⟨Y', w, rfl⟩
  · obtain ⟨rfl, hy⟩ := List.append_inj' hcut rfl
    obtain rfl := List.singleton_inj.1 hy
    exact ⟨b, hb, rfl, rfl, br, hbr, rfl⟩
  · rw [← List.cons_append, ← List.append_assoc] at hcut
    obtain ⟨hcut, -⟩ := List.append_inj' hcut rfl
    exact h.block b hb hcut

/-- The blocks of a path go inwards. -/
theorem lt_of_leads {P X Y : Path} {y z : Nat × Nat} (hP : Leads blocks P)
    (hcut : P = X ++ y :: Y) (hz : z ∈ X) : z.1 < y.1 := by
  obtain ⟨b, hb, hid, rfl, -⟩ := hP hcut
  rw [← hid]
  exact h.outward b hb z hz

theorem nodup_of_leads {P : Path} (hP : Leads blocks P) : (P.map (·.1)).Nodup := by
  refine List.pairwise_map.2 (List.pairwise_iff_getElem.2 fun i j hi hj hij => ?_)
  have hcut : P = P.take j ++ P[j] :: P.drop (j + 1) := by simp
  have hlt := h.lt_of_leads hP hcut (z := P[i])
    (List.mem_take_iff_getElem.2 ⟨i, by omega, rfl⟩)
  exact Nat.ne_of_lt hlt

/-! ## Full choices -/

variable {R : Set (Nat × Nat)} (hR : FullChoice blocks R)

include hR in
/-- What is taken of a path is taken with all that is around it. -/
theorem takes_before {P X Y : Path} {y : Nat × Nat} (hP : Leads blocks P)
    (hcut : P = X ++ y :: Y) (hy : y ∈ R) : ∀ z ∈ X, z ∈ R := by
  obtain ⟨b, hb, hid, htakes⟩ := hR.only y hy
  rw [← h.path_of_cut hP hcut hb hid]
  exact htakes

include hR in
theorem takes_of_rightInside {scope : Scope} (hscope : Leads blocks scope.path) {y : Nat × Nat}
    (hin : isRightInside scope y = true) (hy : y ∈ R) : Takes R scope := by
  obtain ⟨X, hX⟩ := isRightInside_iff.1 hin
  intro z hz
  rw [hX] at hz
  rcases List.mem_append.1 hz with hz | hz
  · exact h.takes_before hR hscope hX hy z hz
  · rw [List.mem_singleton.1 hz]
    exact hy

include hR in
/-- Where no way through a branch avoids raises, every full choice through it reaches one there. -/
theorem exists_site {n : Nat} : ∀ {y : Nat × Nat}, avoidsRaises blocks sites n y = false → y ∈ R →
    ∃ s ∈ sites, y ∈ s.scope.path ∧ Takes R s.scope := by
  induction n with
  | zero =>
    intro y ha
    simp [avoidsRaises] at ha
  | succ n ih =>
    intro y ha hy
    rw [avoidsRaises, Bool.and_eq_false_iff] at ha
    rcases ha with hsite | hblock
    · obtain ⟨s, hs, hin⟩ : ∃ s ∈ sites, isRightInside s.scope y = true := by
        simpa using hsite
      exact ⟨s, hs, mem_of_isRightInside hin, h.takes_of_rightInside hR (h.site s hs) hin hy⟩
    · obtain ⟨b, hb, hin, hall⟩ : ∃ b ∈ blocks, isRightInside b.scope y = true ∧
          ∀ br ∈ b.branches, avoidsRaises blocks sites n (b.id, br.index) = false := by
        simpa using hblock
      have htakes := h.takes_of_rightInside hR (h.block b hb) hin hy
      obtain ⟨br, hbr, hk⟩ := hR.one b hb htakes
      obtain ⟨s, hs, hys, ht⟩ := ih (hall br hbr) ((hk br.index).2 rfl)
      refine ⟨s, hs, ?_, ht⟩
      -- The site lies in a branch of `b`, and `y` is around `b`.
      obtain ⟨X, Y, hcut⟩ := List.append_of_mem hys
      obtain ⟨Z, hZ⟩ := isRightInside_iff.1 hin
      rw [hcut, ← h.path_of_cut (h.site s hs) hcut hb rfl, hZ]
      simp

/-! ## What steering takes -/

variable {K : Path}

theorem fullChoice_chosen (hK : Leads blocks K) :
    FullChoice blocks {y | y ∈ K ++ steer K blocks sites} where
  one b hb htakes := by
    have hnodup : ((K ++ steer K blocks sites).map (·.1)).Nodup :=
      nodup_steerFrom blocks sites (h.nodup_of_leads hK)
    have hone : ∀ {i : Nat}, (b.id, i) ∈ K ++ steer K blocks sites →
        ∀ k, (b.id, k) ∈ K ++ steer K blocks sites ↔ k = i := by
      intro i hi k
      constructor
      · intro hk
        exact congrArg Prod.snd (List.inj_on_of_nodup_map hnodup hk hi rfl)
      · rintro rfl
        exact hi
    by_cases hdecided : b.id ∈ K.map (·.1)
    · obtain ⟨y, hy, hid⟩ := List.mem_map.1 hdecided
      obtain ⟨X, Y, hcut⟩ := List.append_of_mem hy
      obtain ⟨b', hb', hid', -, br, hbr, hi⟩ := hK hcut
      obtain rfl := h.block_unique hb' hb (hid'.trans hid)
      refine ⟨br, hbr, hone (List.mem_append_left _ ?_)⟩
      rw [hid', hi]
      exact hy
    · obtain ⟨br, hbr, hi⟩ := preferredBranch_mem blocks sites (h.branches b hb)
      refine ⟨br, hbr, hone (List.mem_append_right _ (h.mem_steer.2 ?_))⟩
      exact ⟨b, hb, by rw [hi], hdecided, takes_iff_runs.1 htakes⟩
  only y hy := by
    rcases List.mem_append.1 hy with hy | hy
    · obtain ⟨X, Y, hcut⟩ := List.append_of_mem hy
      obtain ⟨b, hb, hid, hX, -⟩ := hK hcut
      refine ⟨b, hb, hid, fun z hz => List.mem_append_left _ ?_⟩
      rw [hcut, ← hX]
      exact List.mem_append_left _ hz
    · obtain ⟨b, hb, rfl, -, hruns⟩ := h.mem_steer.1 hy
      exact ⟨b, hb, rfl, takes_iff_runs.2 hruns⟩

/-- Steering reaches no raise below a branch that avoids them, where the path does not go on beyond
the branch. -/
theorem not_takes_of_avoids {s : RaiseSite} (hs : s ∈ sites) : ∀ {Y X : Path} {y : Nat × Nat},
    s.scope.path = X ++ y :: Y → Avoids blocks sites y →
      (∀ z ∈ K, ∀ b ∈ blocks, b.id = z.1 → y ∉ b.scope.path) →
      ¬ Takes {y | y ∈ K ++ steer K blocks sites} s.scope
  | [], X, y, hcut, ha, _ => by
    have hnot := (h.avoids_iff.1 ha).1 s hs
    rw [isRightInside_iff.2 ⟨X, hcut⟩] at hnot
    cases hnot
  | z :: Y, X, y, hcut, ha, hopen => by
    intro htakes
    have hcut' : s.scope.path = (X ++ [y]) ++ z :: Y := by simp [hcut]
    obtain ⟨b, hb, hid, hX, -⟩ := h.site s hs hcut'
    have hyb : y ∈ b.scope.path := by simp [hX]
    -- The next branch was steered into, so it is the preferred one of its block.
    have hz : z ∈ steer K blocks sites := by
      refine (List.mem_append.1 (htakes z (by simp [hcut]))).resolve_left fun hzK => ?_
      exact hopen z hzK b hb hid hyb
    obtain ⟨b', hb', rfl, -, -⟩ := h.mem_steer.1 hz
    obtain rfl := h.block_unique hb hb' hid
    have hnext := (h.avoids_iff.1 ha).2 b hb (isRightInside_iff.2 ⟨X, hX⟩)
    refine not_takes_of_avoids hs hcut' (preferredBranch_avoids hnext) ?_ htakes
    intro w hw b' hb' hw' hmem
    obtain ⟨A, B, hAB⟩ := List.append_of_mem hmem
    refine hopen w hw b' hb' hw' ?_
    rw [hAB, ← h.path_of_cut (h.block b' hb') hAB hb rfl]
    exact List.mem_append_left _ hyb

/-! ## Safe branches -/

/-- The search for raises finds the safe branches. -/
theorem safe_iff {b : Alternative} (hb : b ∈ blocks) {br : Branch} (hbr : br ∈ b.branches) :
    Safe blocks sites (b.id, br.index) ↔ Avoids blocks sites (b.id, br.index) := by
  constructor
  · rintro ⟨R, hR, hy, havoid⟩
    by_contra ha
    obtain ⟨s, hs, hys, ht⟩ := h.exists_site hR (Bool.not_eq_true _ ▸ ha) hy
    exact havoid s hs hys ht
  · intro ha
    have hK : Leads blocks (b.scope.path ++ [(b.id, br.index)]) := h.leads_branch hb hbr
    refine ⟨_, h.fullChoice_chosen hK, ?_, fun s hs hys => ?_⟩
    · exact List.mem_append_left _ (List.mem_append_right _ (List.mem_singleton_self _))
    obtain ⟨X, Y, hcut⟩ := List.append_of_mem hys
    refine h.not_takes_of_avoids hs hcut ha fun z hz b' hb' hid hmem => ?_
    -- A block of this path is `b` or around it, and so not inside its branch.
    have hlt := h.outward b' hb' _ hmem
    rcases List.mem_append.1 hz with hz | hz
    · have hout := h.outward b hb z hz
      dsimp only at hlt
      omega
    · rw [hid, List.mem_singleton.1 hz] at hlt
      exact lt_irrefl _ hlt

theorem picks_preferred {b : Alternative} (hb : b ∈ blocks) :
    Picks blocks sites b (preferredBranch blocks sites b) := by
  obtain ⟨pre, br, post, hcut, hp, ha, hpre⟩ | ⟨⟨br, rest, hcut, hp⟩, hnone⟩ :=
    preferredBranch_cases blocks sites (h.branches b hb)
  · refine .safe hcut hp ((h.safe_iff hb (by simp [hcut])).2 ha) fun x hx => ?_
    rw [h.safe_iff hb (by simp [hcut, hx])]
    exact hpre x hx
  · refine .first hcut hp fun x hx => ?_
    rw [h.safe_iff hb hx]
    exact hnone x hx

theorem picks_iff {b : Alternative} (hb : b ∈ blocks) {k : Nat} :
    Picks blocks sites b k ↔ k = preferredBranch blocks sites b := by
  constructor
  · intro hpick
    cases hpick with
    | safe hcut hk hsafe hbefore =>
      rw [hk, preferredBranch_of_first hcut ((h.safe_iff hb (by simp [hcut])).1 hsafe)]
      intro x hx
      rw [← h.safe_iff hb (by simp [hcut, hx])]
      exact hbefore x hx
    | first hcut hk hnever =>
      rw [hk, preferredBranch_of_none hcut]
      intro x hx
      rw [← h.safe_iff hb hx]
      exact hnever x hx
  · rintro rfl
    exact h.picks_preferred hb

/-- A scope is reached from a path where every branch around it is on the path, or else the pick of
a block that the path leaves open. -/
theorem runs_chosen_iff {scope : Scope} (hscope : Leads blocks scope.path) :
    runs scope (K ++ steer K blocks sites) = true ↔ ∀ y ∈ scope.path, y ∈ K ∨
      (y.1 ∉ K.map (·.1) ∧ ∃ b ∈ blocks, b.id = y.1 ∧ Picks blocks sites b y.2) := by
  rw [runs_iff]
  constructor
  · intro hruns y hy
    refine (List.mem_append.1 (hruns y hy)).imp_right fun hsteer => ?_
    obtain ⟨b, hb, rfl, hopen, -⟩ := h.mem_steer.1 hsteer
    exact ⟨hopen, b, hb, rfl, h.picks_preferred hb⟩
  · intro hall
    -- From the outside to the inside: a block is reached once all branches around it are taken.
    have hprefix : ∀ X, X <+: scope.path → ∀ y ∈ X, y ∈ K ++ steer K blocks sites := by
      intro X
      induction X using List.reverseRecOn with
      | nil => simp
      | append_singleton X y ih =>
        intro hpre
        have hX := ih ((List.prefix_append X [y]).trans hpre)
        have hy : y ∈ K ++ steer K blocks sites := by
          refine List.mem_append.2 ((hall y (hpre.subset (by simp))).imp_right ?_)
          rintro ⟨hopen, b, hb, hid, hpick⟩
          obtain ⟨Y, hY⟩ := hpre
          have hpath : b.scope.path = X := h.path_of_cut hscope (Y := Y) (by simp [← hY]) hb hid
          refine h.mem_steer.2 ⟨b, hb, ?_, hid ▸ hopen, runs_iff.2 (hpath ▸ hX)⟩
          exact Prod.ext hid.symm ((h.picks_iff hb).1 hpick)
        intro z hz
        rcases List.mem_append.1 hz with hz | hz
        · exact hX z hz
        · rw [List.mem_singleton.1 hz]
          exact hy
    exact hprefix _ List.prefix_rfl

/-- A path does not go on beyond a branch of a block that it leaves open. -/
theorem not_mem_of_open (hK : Leads blocks K) {y : Nat × Nat} (hy : y.1 ∉ K.map (·.1)) :
    ∀ z ∈ K, ∀ b ∈ blocks, b.id = z.1 → y ∉ b.scope.path := by
  intro z hz b hb hid hmem
  obtain ⟨X, Y, hcut⟩ := List.append_of_mem hz
  rw [h.path_of_cut hK hcut hb hid] at hmem
  refine hy (List.mem_map.2 ⟨y, ?_, rfl⟩)
  rw [hcut]
  exact List.mem_append_left _ hmem

/-- Where even the preferred branch of a block leads to raises, every full choice that reaches the
block does. -/
theorem raises_of_not_avoids {R : Set (Nat × Nat)} (hR : FullChoice blocks R) {b : Alternative}
    (hb : b ∈ blocks) (hbR : Takes R b.scope)
    (hnone : ¬ Avoids blocks sites (b.id, preferredBranch blocks sites b)) : Raises sites R := by
  obtain ⟨br, hbr, hk⟩ := hR.one b hb hbR
  have hbad : ¬ Avoids blocks sites (b.id, br.index) := fun ha =>
    hnone (preferredBranch_avoids ⟨br, hbr, ha⟩)
  obtain ⟨s, hs, -, htakes⟩ :=
    h.exists_site hR (Bool.not_eq_true _ ▸ hbad) ((hk br.index).2 rfl)
  exact ⟨s, hs, htakes⟩

/-- A site that steering reaches beyond the path lies in the preferred branch of a block that stands
right on the path and that the path leaves open. -/
theorem exists_steered {s : RaiseSite} (hs : s ∈ sites)
    (htakes : Takes {y | y ∈ K ++ steer K blocks sites} s.scope)
    (hout : ¬ ∀ y ∈ s.scope.path, y ∈ K) :
    ∃ b ∈ blocks, ∃ Y, s.scope.path =
        b.scope.path ++ (b.id, preferredBranch blocks sites b) :: Y ∧
      (∀ z ∈ b.scope.path, z ∈ K) ∧ b.id ∉ K.map (·.1) := by
  obtain ⟨y, hfirst⟩ : ∃ y, s.scope.path.find? (fun y => !decide (y ∈ K)) = some y := by
    rw [← Option.isSome_iff_exists, List.find?_isSome]
    simpa using hout
  obtain ⟨hy, X, Y, hcut, hX⟩ := List.find?_eq_some_iff_append.1 hfirst
  simp only [Bool.not_eq_true', decide_eq_false_iff_not] at hy
  simp only [Bool.not_not, decide_eq_true_eq] at hX
  have hsteer : y ∈ steer K blocks sites :=
    (List.mem_append.1 (htakes y (by simp [hcut]))).resolve_left hy
  obtain ⟨b, hb, rfl, hopen, -⟩ := h.mem_steer.1 hsteer
  obtain rfl := h.path_of_cut (h.site s hs) hcut hb rfl
  exact ⟨b, hb, Y, hcut, hX, hopen⟩

/-- **Steering is optimal**: it reaches a raise only where every full choice beyond the path
does. -/
theorem raises_chosen_iff (hK : Leads blocks K) :
    Raises sites {y | y ∈ K ++ steer K blocks sites} ↔
      ∀ R, FullChoice blocks R → (∀ y ∈ K, y ∈ R) → Raises sites R := by
  constructor
  · rintro ⟨s, hs, htakes⟩ R hR hKR
    by_cases hin : ∀ y ∈ s.scope.path, y ∈ K
    · exact ⟨s, hs, fun y hy => hKR y (hin y hy)⟩
    -- The branch was steered into, although it leads to a raise.
    obtain ⟨b, hb, Y, hcut, hX, hopen⟩ := h.exists_steered hs htakes hin
    refine h.raises_of_not_avoids hR hb (fun z hz => hKR z (hX z hz)) fun ha => ?_
    exact h.not_takes_of_avoids hs hcut ha (h.not_mem_of_open hK hopen) htakes
  · intro hall
    exact hall _ (h.fullChoice_chosen hK) fun y hy => List.mem_append_left _ hy

end Nested

/-! ## Groups -/

namespace Context

variable {c : Context}

/-- The branches around a position are those of blocks of the method. -/
theorem leads_scope {tl : Timeline} (ht : tl.Fits c.model) {x : Method} (n : Nat) :
    Leads (c.blocksOf x) (tl.scopeAt n x.call).path := by
  intro X y Y hcut
  obtain ⟨A, f, B, hS, hk, rfl, rfl, -⟩ := Scope.cut_of_path hcut
  obtain ⟨b, hb, hid, hm, rfl, br, hbr, hi, -⟩ := ht.alt hS hk
  exact ⟨b, mem_blocksOf.2 ⟨hb, hm⟩, hid, rfl, br, hbr, hi⟩

variable (hs : c.model.Sound) (x : Method)
include hs

theorem nested : Nested (c.blocksOf x) (c.raiseSites x) := by
  obtain ⟨tl, ht⟩ := hs.timeline
  refine ⟨?_, fun b hb => ?_, fun b hb y hy => ?_, fun b hb => ?_, fun s hsite => ?_⟩
  · exact (List.pairwise_map.1 hs.ascending).sublist List.filter_sublist
  · exact (hs.branches b (mem_blocksOf.1 hb).1).1
  · obtain ⟨hb, hm⟩ := mem_blocksOf.1 hb
    obtain ⟨br, hbr⟩ := List.exists_mem_of_ne_nil _ (hs.branches b hb).1
    have hsorted := ht.sorted (br.position + 1) b.method
    rw [((ht.branch b hb).2 br hbr).2.2] at hsorted
    obtain ⟨f, hf, -, rfl⟩ := Scope.mem_path.1 hy
    exact (List.pairwise_append.1 hsorted).2.2 f hf _ (List.mem_singleton_self _)
  · obtain ⟨hb, hm⟩ := mem_blocksOf.1 hb
    rw [(ht.branch b hb).1, hm]
    exact leads_scope ht _
  · rw [(siteOf_mem hs hsite).scope_eq ht]
    exact leads_scope ht _

/-- The empty path and the paths of the branches. -/
theorem leads_of_key {K : Path} (hK : K = [] ∨ ∃ b ∈ c.blocksOf x, ∃ br ∈ b.branches,
    K = b.scope.path ++ [(b.id, br.index)]) : Leads (c.blocksOf x) K := by
  rcases hK with rfl | ⟨b, hb, br, hbr, rfl⟩
  · exact leads_nil
  · exact (nested hs x).leads_branch hb hbr

end Context

theorem GroupOf.steered {c : Context} {x : Method} {K : Path} {g : Group} (hg : GroupOf c x K g)
    (hs : c.model.Sound) (hK : Leads (c.blocksOf x) K) : Steered c x K g where
  path := hg.path
  steering := by
    have hnested := Context.nested hs x
    refine ⟨steer K (c.blocksOf x) (c.raiseSites x), ?_, hnested.fullChoice_chosen hK,
      fun y hy => ?_⟩
    · have hdriven := hg.driven
      rw [Group.driven, hg.path, Context.chosen, List.map_append] at hdriven
      exact List.append_cancel_left hdriven
    · obtain ⟨b, hb, rfl, -, -⟩ := hnested.mem_steer.1 hy
      exact ⟨b, hb, rfl, hnested.picks_preferred hb⟩
  mode := by
    rw [← (Context.nested hs x).raises_chosen_iff hK, hg.mode]
    have hfirst : (c.firstSite x K).isSome = true ↔
        Raises (c.raiseSites x) {y | y ∈ c.chosen x K} := by
      simp only [Context.firstSite, List.find?_isSome, Raises, takes_iff_runs]
    rw [Context.chosen] at hfirst
    rw [← hfirst]
    cases (c.firstSite x K).isSome <;> simp

variable {source : String} {d : Diagram} {o : Options} {m : Model} {s : LeafSuffixes}
  {p : Profile} {t : Tree}

/-- **Steering** is complete, consistent and optimal. The group of any path of a method is steered
as well as can be; and every method has its tests, with one such group for each path on which
anything happens (`Context.mem_paths`). -/
theorem steered_of_synthesis (hd : Diagram.parse source = .ok d) (hm : d.buildModel o = .ok m)
    (ht : m.synthesizeTests (m.classify s) p = .ok t) {x : Method} (hx : x ∈ m.methods) :
    let c : Context := { model := m, roles := m.classify s, naming := p.naming }
    (∀ K, (K = [] ∨ ∃ b ∈ c.blocksOf x, ∃ br ∈ b.branches, K = b.scope.path ++ [(b.id, br.index)]) →
      ∀ taken g, c.group x taken K = .ok g → Steered c x K g) ∧
    ∃ suite ∈ t.suites, ∃ mt ∈ suite.methods, suite.subject = x.owner ∧
      c.naming.method x.name = .ok mt.name ∧ List.Forall₂ (Steered c x) (c.paths x) mt.groups := by
  intro c
  have hs : m.Sound := sound_of_build (Diagram.sound_of_parse hd) hm
  constructor
  · intro K hK taken g hg
    exact (Context.group_ok hg).steered hs (Context.leads_of_key hs x hK)
  · obtain ⟨suite, hsuite, hsubject, mt, hmt, hmx⟩ := (treeOf_synthesis hs ht).exists_suite hx
    refine ⟨suite, hsuite, mt, hmt, hsubject, hmx.name, ?_⟩
    refine ((List.forall₂_and_left _ _).2 ⟨fun K hK => hK, hmx.groups⟩).imp fun K g hKg => ?_
    have hK := (Context.mem_paths.1 hKg.1).imp_left And.left
    exact hKg.2.steered hs (Context.leads_of_key hs x hK)

/-- A diagram with a raise in each of two alternatives, one inside the other. -/
def nestedRaise : String :=
  "[-> A : run(id)\nA -> BRepository : load(id)\nBRepository --> A : item\n" ++
    "alt [item.open]\nalt [item.locked]\nA -> A : <<throws>> Locked(\"id\")\n" ++
    "else\nA -> BRepository : save(item)\nend\n" ++
    "else\nA -> A : <<throws>> Closed(\"id\")\nend\n"

/-- The main path goes through the outer branch with a raise, past it through the inner one. -/
theorem steering_nestedRaise : ∃ y ∈ Stages.of? nestedRaise, ∃ x ∈ y.model.methods,
    ∃ suite ∈ y.tests.suites, ∃ mt ∈ suite.methods, ∃ g ∈ mt.groups,
      g.steering.map (·.choice) = [(0, 0), (1, 1)] ∧ g.mode = .noException := by
  unfold nestedRaise
  rw [Stages.of?_toList, String.toList_append, String.toList_append, String.toList_append,
    String.toList_ofList, String.toList_ofList, String.toList_ofList, String.toList_ofList]
  decide +kernel

theorem steered_nestedRaise : ∃ d m t, Diagram.parse nestedRaise = .ok d ∧
    d.buildModel = .ok m ∧ m.synthesizeTests m.classify = .ok t ∧ ∃ x ∈ m.methods,
      let c : Context := { model := m, roles := m.classify, naming := Profile.builtin.naming }
      (∀ K, (K = [] ∨ ∃ b ∈ c.blocksOf x, ∃ br ∈ b.branches,
          K = b.scope.path ++ [(b.id, br.index)]) →
        ∀ taken g, c.group x taken K = .ok g → Steered c x K g) ∧
      ∃ suite ∈ t.suites, ∃ mt ∈ suite.methods, suite.subject = x.owner ∧
        c.naming.method x.name = .ok mt.name ∧
        List.Forall₂ (Steered c x) (c.paths x) mt.groups := by
  obtain ⟨y, hy, x, hx, -⟩ := steering_nestedRaise
  obtain ⟨d, hd, hm, ht, -⟩ := Stages.of?_eq_some hy
  exact ⟨d, y.model, y.tests, hd, hm, ht, x, hx, steered_of_synthesis hd hm ht hx⟩

end Lifeline.Tests
