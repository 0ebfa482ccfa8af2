import Lifeline.Proofs.Sorting
import Lifeline.Proofs.Tests.References

/-!
# The paths of a method

The paths that get a group (`Context.paths`) are distinct, an outer path comes before the paths
inside it, and the path of every scope of the method is among them, the main path where anything
happens on it. `Context.chosen` are the branches that the group of a path takes, of each block at
most one.
-/

namespace Lifeline.Model

/-! ## Paths of scopes -/

theorem Scope.path_append (S T : Scope) : Scope.path (S ++ T) = Scope.path S ++ Scope.path T :=
  List.filterMap_append

theorem Scope.mem_path {S : Scope} {x : Nat × Nat} :
    x ∈ S.path ↔ ∃ f ∈ S, f.kind = .alt ∧ (f.block, f.branch) = x := by
  simp [Scope.path]

/-- A path that is cut at a branch comes from a scope that is cut at the frame of that branch. -/
theorem Scope.cut_of_path {S : Scope} {P Q : Path} {x : Nat × Nat} (h : S.path = P ++ x :: Q) :
    ∃ X f Y, S = X ++ f :: Y ∧ f.kind = .alt ∧ (f.block, f.branch) = x ∧ Scope.path X = P ∧
      Scope.path Y = Q := by
  obtain ⟨X, Y, rfl, hX, hY⟩ := List.filterMap_eq_append_iff.1 h
  obtain ⟨Z, f, Y, rfl, hZ, hf, hQ⟩ := List.filterMap_eq_cons_iff.1 hY
  have hk : f.kind = .alt ∧ (f.block, f.branch) = x := by
    split at hf
    · rename_i hk
      exact ⟨by simpa using hk, Option.some.inj hf⟩
    · cases hf
  refine ⟨X ++ Z, f, Y, by simp, hk.1, hk.2, ?_, hQ⟩
  have hZ' : Scope.path Z = [] := List.filterMap_eq_nil_iff.2 hZ
  rw [Scope.path_append, hZ', List.append_nil]
  exact hX

/-- The blocks of a path are distinct. -/
theorem Timeline.Fits.nodup_path {m : Model} {tl : Timeline} (h : tl.Fits m) (n : Nat)
    (μ : MethodId) : ((tl.scopeAt n μ).path.map (·.1)).Nodup := by
  have hs := h.sorted n μ
  have hsub : ((tl.scopeAt n μ).path.map (·.1)).Sublist ((tl.scopeAt n μ).map (·.block)) := by
    generalize tl.scopeAt n μ = S
    induction S with
    | nil => exact .slnil
    | cons f S ih =>
      cases hk : f.kind with
      | alt => simpa [Scope.path, List.filterMap_cons, hk] using ih
      | loop => simpa [Scope.path, List.filterMap_cons, hk] using ih.cons f.block
  exact List.Nodup.sublist hsub (List.pairwise_map.2 (hs.imp Nat.ne_of_lt))

end Lifeline.Model

namespace Lifeline.Tests

open Model

/-- The scope runs where all branches around it are chosen. -/
theorem runs_iff {scope : Scope} {chosen : Path} :
    runs scope chosen = true ↔ ∀ x ∈ scope.path, x ∈ chosen := by
  simp [runs]

/-- Steering decides each block once. -/
theorem nodup_steerFrom (blocks : List Alternative) (sites : List RaiseSite) :
    ∀ {bs : List Alternative} {chosen : Path}, (chosen.map (·.1)).Nodup →
      ((chosen ++ steerFrom blocks sites chosen bs).map (·.1)).Nodup
  | [], chosen, h => by simpa [steerFrom] using h
  | b :: bs, chosen, h => by
    unfold steerFrom
    split
    · exact nodup_steerFrom blocks sites h
    · rename_i hb
      have hnew : ((chosen ++ [(b.id, preferredBranch blocks sites b)]).map (·.1)).Nodup := by
        rw [List.map_append, List.nodup_append]
        refine ⟨h, List.nodup_singleton _, fun a ha c hc => ?_⟩
        obtain ⟨x, hx, rfl⟩ := List.mem_map.1 ha
        simp only [List.map_cons, List.map_nil, List.mem_singleton] at hc
        rintro rfl
        apply hb
        simp only [Bool.or_eq_true, List.any_eq_true]
        exact .inl ⟨x, hx, by simpa using hc⟩
      rw [List.append_cons]
      exact nodup_steerFrom blocks sites hnew

namespace Context

variable (c : Context) (x : Method)

/-- The branches that the group of a path takes. -/
def chosen (P : Path) : Path := P ++ steer P (c.blocksOf x) (c.raiseSites x)

/-- The place where the group of a path ends in an exception, if it does. -/
def firstSite (P : Path) : Option RaiseSite :=
  (c.raiseSites x).find? fun s => runs s.scope (c.chosen x P)

variable {c x}

theorem runs_chosen {S : Scope} {P : Path} (h : S.path = P) : runs S (c.chosen x P) = true :=
  runs_iff.2 fun _ hy => List.mem_append_left _ (h ▸ hy)

theorem mem_blocksOf {b : Alternative} :
    b ∈ c.blocksOf x ↔ b ∈ c.model.alternatives ∧ b.method = x.call := by
  simp [blocksOf]

/-- A path that has a group: the main path, or that of a branch. -/
def IsPath (c : Context) (x : Method) (P : Path) : Prop :=
  (P = [] ∧ c.hasMainPath x = true) ∨
    ∃ b ∈ c.blocksOf x, ∃ br ∈ b.branches, P = b.scope.path ++ [(b.id, br.index)]

/-- The paths of a method with the positions where they start. -/
def starts (c : Context) (x : Method) : List (Path × Nat) :=
  (if c.hasMainPath x then [([], 0)] else []) ++ (c.blocksOf x).flatMap fun b =>
    b.branches.map fun br => (b.scope.path ++ [(b.id, br.index)], br.position + 1)

theorem paths_eq (c : Context) (x : Method) :
    c.paths x = (sortBy (fun a b => a.2 ≤ b.2) (c.starts x)).map (·.1) := rfl

theorem mem_starts {y : Path × Nat} : y ∈ c.starts x ↔
    (c.hasMainPath x = true ∧ y = ([], 0)) ∨ ∃ b ∈ c.blocksOf x, ∃ br ∈ b.branches,
      (b.scope.path ++ [(b.id, br.index)], br.position + 1) = y := by
  simp only [starts, List.mem_append, List.mem_flatMap, List.mem_map]
  cases c.hasMainPath x <;> simp

theorem mem_paths {P : Path} : P ∈ c.paths x ↔ c.IsPath x P := by
  simp only [paths_eq, List.mem_map, mem_sortBy, mem_starts, IsPath]
  constructor
  · rintro ⟨y, ⟨hm, rfl⟩ | ⟨b, hb, br, hbr, rfl⟩, rfl⟩
    · exact .inl ⟨rfl, hm⟩
    · exact .inr ⟨b, hb, br, hbr, rfl⟩
  · rintro (⟨rfl, hm⟩ | ⟨b, hb, br, hbr, rfl⟩)
    · exact ⟨_, .inl ⟨hm, rfl⟩, rfl⟩
    · exact ⟨_, .inr ⟨b, hb, br, hbr, rfl⟩, rfl⟩

/-! ## Paths of a sound model -/

variable (hs : c.model.Sound) {tl : Timeline} (ht : tl.Fits c.model)

include hs in
theorem nodup_paths : (c.paths x).Nodup := by
  have hp : (c.paths x).Perm ((c.starts x).map (·.1)) := (sortBy_perm _).map _
  rw [hp.nodup_iff, starts, List.map_append, List.nodup_append]
  refine ⟨?_, ?_, ?_⟩
  · split <;> simp
  · rw [List.map_flatMap, List.nodup_flatMap]
    refine ⟨fun b hb => ?_, ?_⟩
    · have hi : (b.branches.map (·.index)).Nodup := by
        rw [(hs.branches b (mem_blocksOf.1 hb).1).2]
        exact List.nodup_range
      rw [List.map_map]
      refine List.Nodup.of_map (fun P : Path => (P.getLast?.map (·.2)).getD 0) ?_
      rw [List.map_map]
      simpa [Function.comp_def] using hi
    · have hid : ((c.blocksOf x).map (·.id)).Nodup :=
        hs.blocks.sublist (List.filter_sublist.map _)
      refine (List.pairwise_map.1 hid).imp fun {b b'} hne => ?_
      simp only [Function.onFun, List.disjoint_left, List.mem_map]
      rintro P ⟨y, ⟨br, -, rfl⟩, rfl⟩ ⟨y', ⟨br', -, rfl⟩, he⟩
      have := congrArg List.getLast? he
      simp only [List.getLast?_append, List.getLast?_singleton, Option.some_or,
        Option.some.injEq, Prod.mk.injEq] at this
      exact hne this.1.symm
  · intro P hP Q hQ
    have hnil : P = [] := by
      split at hP <;> simp_all
    obtain ⟨y, hy, rfl⟩ := List.mem_map.1 hQ
    obtain ⟨b, -, hb⟩ := List.mem_flatMap.1 hy
    obtain ⟨br, -, rfl⟩ := List.mem_map.1 hb
    simp [hnil]

include ht in
/-- The path of a scope has a group, unless it is the main path and nothing happens on it. -/
theorem path_mem_paths {n : Nat}
    (hmain : (tl.scopeAt n x.call).path = [] → c.hasMainPath x = true) :
    (tl.scopeAt n x.call).path ∈ c.paths x := by
  rw [mem_paths]
  rcases (tl.scopeAt n x.call).path.eq_nil_or_concat' with hp | ⟨P, y, hp⟩
  · exact .inl ⟨hp, hmain hp⟩
  · obtain ⟨X, f, Y, hS, hk, rfl, rfl, -⟩ := Scope.cut_of_path hp
    obtain ⟨b, hb, hid, hm, rfl, br, hbr, hi, -⟩ := ht.alt hS hk
    exact .inr ⟨b, mem_blocksOf.2 ⟨hb, hm⟩, br, hbr, by rw [hp, hid, hi]⟩

include hs in
/-- The path of a call has a group. -/
theorem interaction_path {i : Interaction} (hi : i ∈ c.model.interactionsOf x.call) :
    i.scope.path ∈ c.paths x := by
  obtain ⟨tl, ht⟩ := hs.timeline
  obtain ⟨hi', hm⟩ := List.mem_filter.1 hi
  have hscope := (ht.interaction i hi').2
  rw [show i.method = x.call by simpa using hm] at hscope
  rw [hscope]
  refine path_mem_paths ht fun hnil => ?_
  simp only [hasMainPath, Bool.or_eq_true, List.any_eq_true]
  exact .inl (.inl (.inr ⟨i, hi, by rw [hscope, hnil]; rfl⟩))

include hs in
/-- The path of a result has a group. -/
theorem result_path (hx : x ∈ c.model.methods) {r : MethodResult} (hr : r ∈ x.results) :
    r.scope.path ∈ c.paths x := by
  obtain ⟨tl, ht⟩ := hs.timeline
  have hscope := (ht.result x hx r hr).2
  rw [hscope]
  refine path_mem_paths ht fun hnil => ?_
  simp only [hasMainPath, Bool.or_eq_true, List.any_eq_true]
  exact .inl (.inr ⟨r, hr, by rw [hscope, hnil]; rfl⟩)

include hs ht in
/-- An outer path starts before the paths inside it. -/
theorem start_lt {P Q : Path} {i j : Nat} (hP : (P, i) ∈ c.starts x) (hQ : (Q, j) ∈ c.starts x)
    (hpq : Q <+: P) (hne : Q ≠ P) : j < i := by
  rcases mem_starts.1 hQ with ⟨-, hQ⟩ | ⟨b', hb', br', hbr', hQ⟩
  · rcases mem_starts.1 hP with ⟨-, hP⟩ | ⟨b, -, br, -, hP⟩
    · simp_all
    · obtain ⟨rfl, rfl⟩ := Prod.mk.inj hP
      obtain ⟨-, rfl⟩ := Prod.mk.inj hQ
      exact Nat.succ_pos _
  · obtain ⟨rfl, rfl⟩ := Prod.mk.inj hQ
    rcases mem_starts.1 hP with ⟨-, hP⟩ | ⟨b, hb, br, hbr, hP⟩
    · obtain ⟨rfl, rfl⟩ := Prod.mk.inj hP
      simp at hpq
    · obtain ⟨rfl, rfl⟩ := Prod.mk.inj hP
      obtain ⟨hbm, hbc⟩ := mem_blocksOf.1 hb
      obtain ⟨hscope, hbranch⟩ := ht.branch b hbm
      have hpre : b'.scope.path ++ [(b'.id, br'.index)] <+: b.scope.path :=
        (List.prefix_concat_iff.1 hpq).resolve_left hne
      obtain ⟨R, hR⟩ := hpre
      rw [List.append_assoc, List.singleton_append] at hR
      obtain ⟨X, f, Y, hS, hk, hf, -, -⟩ := Scope.cut_of_path hR.symm
      rw [hscope] at hS
      obtain ⟨b'', hb'', hid, -, -, br'', hbr'', hi, hlt⟩ := ht.alt hS hk
      obtain ⟨hfb, hfi⟩ := Prod.mk.inj hf
      have hb'm := (mem_blocksOf.1 hb').1
      obtain rfl : b'' = b' :=
        List.inj_on_of_nodup_map hs.blocks hb'' hb'm (by rw [hid, hfb])
      have hni : (b''.branches.map (·.index)).Nodup := by
        rw [(hs.branches _ hb'm).2]
        exact List.nodup_range
      obtain rfl : br'' = br' := List.inj_on_of_nodup_map hni hbr'' hbr' (by rw [hi, hfi])
      have := (hbranch br hbr).2.1
      omega

include hs ht in
/-- **The order of paths**: no path comes behind one that lies inside it. -/
theorem paths_pairwise : (c.paths x).Pairwise fun P Q => ¬ Q <+: P := by
  have hsort : (sortBy (fun a b => decide (a.2 ≤ b.2)) (c.starts x)).Pairwise
      fun a b => a.2 ≤ b.2 := sortBy_key_pairwise Prod.snd (by simp) _
  have hn : ((sortBy (fun a b => decide (a.2 ≤ b.2)) (c.starts x)).map (·.1)).Nodup :=
    nodup_paths hs
  rw [paths_eq, List.pairwise_map]
  refine (hsort.and (List.pairwise_map.1 hn)).imp_of_mem fun {p q} hp hq hpq hpre => ?_
  have := start_lt hs ht (mem_sortBy.1 hp) (mem_sortBy.1 hq) hpre (Ne.symm hpq.2)
  omega

include ht in
theorem nodup_chosen {P : Path} (hP : P ∈ c.paths x) : ((c.chosen x P).map (·.1)).Nodup := by
  refine nodup_steerFrom _ _ ?_
  rcases mem_paths.1 hP with ⟨rfl, -⟩ | ⟨b, hb, br, hbr, rfl⟩
  · exact .nil
  · have hpath := ht.nodup_path (br.position + 1) b.method
    rw [((ht.branch b (mem_blocksOf.1 hb).1).2 br hbr).2.2, Scope.path_append] at hpath
    exact hpath

end Context

end Lifeline.Tests
