import Lifeline.Graph.Cycle
import Lifeline.Proofs.Outcome
import Mathlib.Data.List.Perm.Subperm
import Mathlib.Logic.Relation

/-!
# The search finds every cycle

A graph in which `Graph.findCycle` meets no cycle has none (`Graph.acyclic_of_findCycle`). The nodes
that the search has left for good are in topological order, each one in front of its neighbours
(`Graph.Left`), because the search leaves a node behind all of them and never comes back to a node
on its path. The path has no node twice, so it cannot outgrow the fuel.
-/

set_option autoImplicit false

namespace Lifeline.Graph

open Relation (ReflTransGen TransGen)

/-- There is an edge between two nodes. -/
def Edge (g : Graph) (a b : String) : Prop := b ∈ g.neighbours a

/-- Nodes that have been left for good: each one stands in front of all its neighbours. -/
def Left (g : Graph) (left : List String) : Prop :=
  ∀ before a after, left = before ++ a :: after → ∀ b, g.Edge a b → b ∈ after

variable {g : Graph}

theorem left_nil : g.Left [] := by simp [Left]

theorem Left.tail {a : String} {left : List String} (h : g.Left (a :: left)) : g.Left left :=
  fun before b after he => h (a :: before) b after (by rw [he, List.cons_append])

theorem Left.cons {a : String} {left : List String} (h : g.Left left)
    (ha : ∀ b, g.Edge a b → b ∈ left) : g.Left (a :: left) := by
  rintro (_ | ⟨x, before⟩) b after he
  · obtain ⟨rfl, rfl⟩ := List.cons.inj he
    exact ha
  · obtain ⟨-, he⟩ := List.cons.inj he
    exact h before b after he

/-- No way leads out of the nodes that have been left. -/
theorem Left.closed {left : List String} (h : g.Left left) {a b : String} (ha : a ∈ left)
    (hab : TransGen g.Edge a b) : b ∈ left := by
  have step : ∀ {a b}, a ∈ left → g.Edge a b → b ∈ left := by
    intro a b ha hab
    obtain ⟨before, after, he⟩ := List.append_of_mem ha
    rw [he]
    exact List.mem_append_right _ (.tail _ (h before a after he b hab))
  induction hab with
  | single hab => exact step ha hab
  | tail _ hbc ih => exact step ih hbc

/-- No way leads from a node that has been left back to it. -/
theorem Left.acyclic {left : List String} (h : g.Left left) {a : String} (ha : a ∈ left) :
    ¬TransGen g.Edge a a := by
  induction left with
  | nil => cases ha
  | cons x left ih =>
    by_cases hmem : a ∈ left
    · exact ih h.tail hmem
    · obtain rfl : a = x := (List.mem_cons.1 ha).resolve_right hmem
      intro hcycle
      obtain ⟨b, hab, hba⟩ := TransGen.head'_iff.1 hcycle
      have hb : b ∈ left := h [] a left rfl b hab
      rcases Relation.reflTransGen_iff_eq_or_transGen.1 hba with he | hba
      · exact hmem (he ▸ hb)
      · exact hmem (h.tail.closed hb hba)

/-! ## The search -/

/-- A step that may visit a node leaves it in the end, and all that was left before. -/
def Leaves (g : Graph) (step : List String → Except (List String) (List String)) (node : String) :
    Prop :=
  ∀ left left', step left = .ok left' → g.Left left → g.Left left' ∧ left ⊆ left' ∧ node ∈ left'

/-- Steps for one node after the other leave them all. -/
theorem left_of_foldlM {α : Type} {f : α → String}
    {step : List String → α → Except (List String) (List String)} {xs : List α}
    {left left' : List String} (h : xs.foldlM step left = .ok left') (hleft : g.Left left)
    (hstep : ∀ x ∈ xs, g.Leaves (step · x) (f x)) :
    g.Left left' ∧ left ⊆ left' ∧ ∀ x ∈ xs, f x ∈ left' :=
  foldlM_collects (P := g.Left) (Q := fun x left => f x ∈ left) (fun _ _ _ hsub hx => hsub hx) h
    hleft hstep

/-- A node with an edge has an entry, which lists the neighbour. -/
theorem exists_of_edge {a b : String} (h : g.Edge a b) :
    ∃ targets, (a, targets) ∈ g ∧ b ∈ targets := by
  unfold Edge neighbours at h
  cases hl : g.lookup a with
  | none => simp [hl] at h
  | some targets =>
    rw [hl, Option.getD_some] at h
    obtain ⟨before, after, rfl, -⟩ := List.lookup_eq_some_iff.1 hl
    exact ⟨targets, List.mem_append_right _ (.head _), h⟩

/-- A visit leaves its node and what was left before. The path and the fuel together are longer than
the nodes are many, so the fuel does not run out. -/
theorem leaves_visit : ∀ {fuel : Nat} {path : List String} {node : String},
    g.nodes.length < fuel + path.length → (node :: path).Nodup → node :: path ⊆ g.nodes →
      g.Leaves (g.visit fuel path · node) node
  | 0, path, node, hfuel, hnodup, hsub => by
    have hle := (List.Nodup.subperm hnodup hsub).length_le
    rw [List.length_cons] at hle
    omega
  | fuel + 1, path, node, hfuel, hnodup, hsub => by
    intro left left' h hleft
    simp only [visit, bind_ok, pure_ok] at h
    obtain ⟨last, hfold, rfl⟩ := h
    obtain ⟨hlast, hkept, hall⟩ := left_of_foldlM (f := id) hfold hleft
      fun n hn left left' h hleft => by
        dsimp only at h
        split at h
        · cases h
        rename_i hpath
        split at h
        · rename_i hdone
          obtain rfl := Except.ok.inj h
          exact ⟨hleft, List.Subset.refl _, by simpa using hdone⟩
        · obtain ⟨targets, hnode, htarget⟩ := exists_of_edge hn
          have hmem : n ∈ g.nodes := List.mem_flatMap.2 ⟨_, hnode, .tail _ htarget⟩
          refine leaves_visit (by rw [List.length_cons]; omega) ?_ ?_ left left' h hleft
          · exact List.nodup_cons.2 ⟨by simpa using hpath, hnodup⟩
          · exact List.cons_subset.2 ⟨hmem, hsub⟩
    exact ⟨hlast.cons hall, fun a ha => .tail _ (hkept ha), .head _⟩

/-- The search leaves every node from which there is an edge. -/
theorem left_of_search {left : List String} (h : g.search = .ok left) :
    g.Left left ∧ ∀ x ∈ g, x.1 ∈ left := by
  obtain ⟨hleft, -, hall⟩ := left_of_foldlM (f := Prod.fst) h left_nil
    fun x hx left left' h hleft => by
      dsimp only at h
      split at h
      · rename_i hdone
        obtain rfl := Except.ok.inj h
        exact ⟨hleft, List.Subset.refl _, by simpa using hdone⟩
      · refine leaves_visit (by simp) (by simp) ?_ left left' h hleft
        exact List.cons_subset.2 ⟨List.mem_flatMap.2 ⟨x, hx, .head _⟩, by simp⟩
  exact ⟨hleft, hall⟩

/-- **The search finds every cycle**: where it meets none, no way leads from a node back to it. -/
theorem acyclic_of_findCycle (h : g.findCycle = none) (a : String) : ¬TransGen g.Edge a a := by
  unfold findCycle at h
  split at h
  · rename_i left hsearch
    obtain ⟨hleft, hall⟩ := left_of_search hsearch
    intro hcycle
    obtain ⟨b, hab, -⟩ := TransGen.head'_iff.1 hcycle
    obtain ⟨targets, hmem, -⟩ := exists_of_edge hab
    exact hleft.acyclic (hall _ hmem) hcycle
  · cases h

/-! ## Edges that are added -/

theorem lookup_map_snd {α : Type} (f : String → α → α) (a : String) (xs : List (String × α)) :
    (xs.map fun x => (x.1, f x.1 x.2)).lookup a = (xs.lookup a).map (f a) := by
  induction xs with
  | nil => rfl
  | cons x xs ih =>
    rw [List.map_cons, List.lookup_cons, List.lookup_cons, ih]
    split
    · rename_i he
      rw [beq_iff_eq.1 he, Option.map_some]
    · rfl

/-- A node without an entry is not found. -/
theorem lookup_eq_none {a : String} : g.lookup a = none ↔ g.any (·.1 == a) = false := by
  rw [List.lookup_eq_none_iff, List.any_eq_false]
  exact forall₂_congr fun x _ => by rw [bne_iff_ne, beq_iff_eq, ne_comm]

/-- A new edge adds one neighbour to its source, where it is not there yet. -/
theorem neighbours_addEdge (g : Graph) (s t a : String) : (g.addEdge s t).neighbours a =
    if a = s ∧ t ∉ g.neighbours a then g.neighbours a ++ [t] else g.neighbours a := by
  unfold addEdge neighbours
  split
  · rename_i hany
    have hadd : ∀ node targets, (if node == s && !targets.contains t then (node, targets ++ [t])
        else (node, targets)) =
          (node, if node == s && !targets.contains t then targets ++ [t] else targets) := by
      intro node targets
      split <;> rfl
    simp only [hadd]
    rw [lookup_map_snd fun node targets =>
      if node == s && !targets.contains t then targets ++ [t] else targets]
    cases hl : g.lookup a with
    | none =>
      have hne : a ≠ s := by
        rintro rfl
        rw [lookup_eq_none.1 hl] at hany
        cases hany
      simp [hne]
    | some targets => simp
  · rename_i hany
    have hnone : g.lookup s = none := lookup_eq_none.2 (Bool.eq_false_iff.2 hany)
    rw [List.lookup_append, List.lookup_cons]
    by_cases ha : a = s
    · subst ha
      simp [hnone]
    · have hbeq : (a == s) = false := beq_eq_false_iff_ne.2 ha
      cases g.lookup a <;> simp [ha, hbeq]

theorem edge_addEdge (g : Graph) (s t : String) : (g.addEdge s t).Edge s t := by
  rw [Edge, neighbours_addEdge]
  split
  · exact List.mem_append_right _ (.head _)
  · rename_i h
    simpa using h

theorem Edge.addEdge {a b : String} (h : g.Edge a b) (s t : String) : (g.addEdge s t).Edge a b := by
  rw [Edge, neighbours_addEdge]
  split
  · exact List.mem_append_left _ h
  · exact h

end Lifeline.Graph
