import Lifeline.Proofs.Graph.Cycle
import Mathlib.Data.List.Chain

/-!
# What the search meets is a cycle

`Explores` is the depth-first search without a bound: one constructor for each thing it does with
the next node. Its derivations are finite, so a search that has one ends, and it has one result
(`Explores.unique`). `Graph.search` is that search (`explores_search`): its fuel never runs out. The
path is a chain of edges all along, so what the search reports is a way back to its first node
(`Explores.circle`), and it meets no such way where none is (`findCycle_eq_none_iff`).
-/

set_option autoImplicit false

namespace Lifeline.Graph

open Relation (ReflTransGen TransGen)

/-- The search below `path`, where the nodes `left` have been left for good and the `targets` are
still to be followed. The result is the cycle found, or the nodes left in the end. -/
inductive Explores (g : Graph) :
    (path left targets : List String) → Except (List String) (List String) → Prop
  | done {path left : List String} : Explores g path left [] (.ok left)
  | closes {path left rest : List String} {next : String} (hpath : next ∈ path) :
      Explores g path left (next :: rest) (.error (cycleAt path next))
  | skips {path left rest : List String} {next : String}
      {r : Except (List String) (List String)} (hpath : next ∉ path) (hleft : next ∈ left)
      (hrest : Explores g path left rest r) : Explores g path left (next :: rest) r
  | enters {path left left' rest : List String} {next : String}
      {r : Except (List String) (List String)} (hpath : next ∉ path) (hleft : next ∉ left)
      (hbelow : Explores g (next :: path) left (g.neighbours next) (.ok left'))
      (hrest : Explores g path (next :: left') rest r) : Explores g path left (next :: rest) r
  | stops {path left rest cycle : List String} {next : String} (hpath : next ∉ path)
      (hleft : next ∉ left)
      (hbelow : Explores g (next :: path) left (g.neighbours next) (.error cycle)) :
      Explores g path left (next :: rest) (.error cycle)

variable {g : Graph}

/-- The search has one result. -/
theorem Explores.unique {path left targets : List String}
    {r r' : Except (List String) (List String)} (h : g.Explores path left targets r)
    (h' : g.Explores path left targets r') : r = r' := by
  induction h generalizing r' with
  | done => cases h'; rfl
  | closes hpath => cases h' <;> first | rfl | contradiction
  | skips hpath hleft _ ih =>
    cases h' with
    | skips _ _ hrest' => exact ih hrest'
    | closes | enters | stops => contradiction
  | enters hpath hleft _ _ ihbelow ihrest =>
    cases h' with
    | enters _ _ hbelow' hrest' =>
      obtain rfl := Except.ok.inj (ihbelow hbelow')
      exact ihrest hrest'
    | stops _ _ hbelow' => cases ihbelow hbelow'
    | closes | skips => contradiction
  | stops hpath hleft _ ihbelow =>
    cases h' with
    | stops _ _ hbelow' => exact ihbelow hbelow'
    | enters _ _ hbelow' _ => cases ihbelow hbelow'
    | closes | skips => contradiction

/-! ## The fuel does not run out -/

/-- Steps for one node after the other explore them, where `visit` explores what is below a node. -/
theorem explores_foldlM {path : List String}
    {visit : List String → String → Except (List String) (List String)} :
    ∀ {targets : List String},
      (∀ next ∈ targets, next ∉ path → ∀ left, ∃ r,
        g.Explores (next :: path) left (g.neighbours next) r ∧
          visit left next = r.map (next :: ·)) →
      ∀ left, g.Explores path left targets (targets.foldlM (fun left next =>
        if path.contains next then .error (cycleAt path next)
        else if left.contains next then .ok left
        else visit left next) left)
  | [], _, _ => .done
  | next :: rest, hvisit, left => by
    have ih := explores_foldlM fun n hn => hvisit n (.tail _ hn)
    rw [List.foldlM_cons]
    by_cases hpath : next ∈ path
    · rw [if_pos (List.contains_iff_mem.2 hpath)]
      exact .closes hpath
    rw [if_neg (mt List.contains_iff_mem.1 hpath)]
    by_cases hleft : next ∈ left
    · rw [if_pos (List.contains_iff_mem.2 hleft)]
      exact .skips hpath hleft (ih left)
    rw [if_neg (mt List.contains_iff_mem.1 hleft)]
    obtain ⟨r, hbelow, he⟩ := hvisit next (.head _) hpath left
    rw [he]
    cases r with
    | error cycle => exact .stops hpath hleft hbelow
    | ok left' => exact .enters hpath hleft hbelow (ih _)

/-- The neighbours of a node are nodes. -/
theorem mem_nodes_of_edge {a b : String} (h : g.Edge a b) : b ∈ g.nodes := by
  obtain ⟨targets, hmem, hb⟩ := exists_of_edge h
  exact List.mem_flatMap.2 ⟨_, hmem, .tail _ hb⟩

/-- A visit explores the neighbours of its node, which it leaves behind them. As for
`leaves_visit`, the path and the fuel together are longer than the nodes are many. -/
theorem explores_visit : ∀ {fuel : Nat} {path : List String} {node : String},
    g.nodes.length < fuel + path.length → (node :: path).Nodup → node :: path ⊆ g.nodes →
      ∀ left, ∃ r, g.Explores (node :: path) left (g.neighbours node) r ∧
        g.visit fuel path left node = r.map (node :: ·)
  | 0, path, node, hfuel, hnodup, hsub => by
    have hle := (List.Nodup.subperm hnodup hsub).length_le
    rw [List.length_cons] at hle
    omega
  | fuel + 1, path, node, hfuel, hnodup, hsub => fun left =>
    ⟨_, explores_foldlM (fun next hn hpath => explores_visit (by rw [List.length_cons]; omega)
      (List.nodup_cons.2 ⟨hpath, hnodup⟩)
      (List.cons_subset.2 ⟨mem_nodes_of_edge hn, hsub⟩)) left, rfl⟩

/-- **The search ends** with its one result, whatever the graph is. -/
theorem explores_search (g : Graph) : g.Explores [] [] (g.map (·.1)) g.search := by
  have hvisit : ∀ next ∈ g.map (·.1), next ∉ [] → ∀ left, ∃ r,
      g.Explores [next] left (g.neighbours next) r ∧
        g.visit (g.nodes.length + 1) [] left next = r.map (next :: ·) := by
    intro next hn _
    obtain ⟨x, hx, rfl⟩ := List.mem_map.1 hn
    refine explores_visit (by simp) (by simp) ?_
    exact List.cons_subset.2 ⟨List.mem_flatMap.2 ⟨x, hx, .head _⟩, by simp⟩
  have h := explores_foldlM hvisit []
  rw [List.foldlM_map] at h
  exact h

/-! ## The cycle found -/

/-- Nodes joined by edges, one after the other, from a node back to it. -/
structure Circle (g : Graph) (cycle : List String) : Prop where
  long : 2 ≤ cycle.length
  closed : cycle.head? = cycle.getLast?
  joined : cycle.IsChain g.Edge

/-- Below a path of edges, an edge back to a node of the path closes a circle. -/
theorem circle_cycleAt {path : List String} {next : String}
    (hchain : path.IsChain fun a b => g.Edge b a) (hpath : next ∈ path)
    (hedge : ∀ a ∈ path.head?, g.Edge a next) : g.Circle (cycleAt path next) := by
  obtain ⟨before, after, rfl, hnot⟩ := List.eq_append_cons_of_mem hpath
  have htake : (before ++ next :: after).takeWhile (· != next) = before := by
    rw [List.takeWhile_append_of_pos, List.takeWhile_cons_of_neg, List.append_nil]
    · simp
    · exact fun a ha => bne_iff_ne.2 fun he => hnot (he ▸ ha)
  have hcycle : cycleAt (before ++ next :: after) next = (before ++ [next]).reverse ++ [next] := by
    rw [cycleAt, htake]
  have hfront : (before ++ [next]).IsChain fun a b => g.Edge b a :=
    List.IsChain.prefix hchain ⟨after, (List.append_cons before next after).symm⟩
  refine ⟨by simp [hcycle], by rw [hcycle, List.getLast?_concat, List.reverse_concat]; rfl, ?_⟩
  rw [hcycle, List.isChain_append]
  refine ⟨List.isChain_reverse.2 hfront, .singleton _, ?_⟩
  rintro a ha b hb
  rw [List.getLast?_reverse] at ha
  obtain rfl := Option.some.inj hb
  exact hedge a (by cases before <;> simpa using ha)

/-- Below a path of edges, a search among the neighbours of its last node reports a circle. -/
theorem Explores.circle {path left targets : List String}
    {r : Except (List String) (List String)} (h : g.Explores path left targets r)
    (hchain : path.IsChain fun a b => g.Edge b a)
    (hedge : ∀ b ∈ targets, ∀ a ∈ path.head?, g.Edge a b) {cycle : List String}
    (hr : r = .error cycle) : g.Circle cycle := by
  induction h with
  | done => cases hr
  | closes hpath =>
    obtain rfl := Except.error.inj hr
    exact circle_cycleAt hchain hpath (hedge _ (.head _))
  | skips _ _ _ ih => exact ih hchain (fun b hb => hedge b (.tail _ hb)) hr
  | enters _ _ _ _ _ ih => exact ih hchain (fun b hb => hedge b (.tail _ hb)) hr
  | stops _ _ _ ih =>
    refine ih (List.isChain_cons.2 ⟨hedge _ (.head _), hchain⟩) ?_ hr
    rintro b hb a ha
    obtain rfl := Option.some.inj ha
    exact hb

/-- A circle leads from its first node back to it. -/
theorem Circle.transGen {cycle : List String} (h : g.Circle cycle) : ∃ a, TransGen g.Edge a a := by
  obtain ⟨hlong, hclosed, hjoined⟩ := h
  match cycle with
  | a :: b :: rest =>
    rw [List.isChain_cons_cons] at hjoined
    rw [List.head?_cons, List.getLast?_cons_cons, List.getLast?_eq_some_getLast (by simp)] at hclosed
    exact ⟨a, .head' hjoined.1 (List.relationReflTransGen_of_exists_isChain_cons rest hjoined.2
      (Option.some.inj hclosed).symm)⟩

theorem circle_of_findCycle {cycle : List String} (h : g.findCycle = some cycle) :
    g.Circle cycle := by
  unfold findCycle at h
  split at h
  · cases h
  · rename_i found hsearch
    obtain rfl := Option.some.inj h
    exact (explores_search g).circle .nil (by simp) hsearch

/-- **The search is exact**: it meets no cycle where there is none, and one where there is. -/
theorem findCycle_eq_none_iff : g.findCycle = none ↔ ¬∃ a, TransGen g.Edge a a := by
  constructor
  · rintro h ⟨a, ha⟩
    exact acyclic_of_findCycle h a ha
  · intro h
    cases hc : g.findCycle with
    | none => rfl
    | some cycle => exact absurd (circle_of_findCycle hc).transGen h

end Lifeline.Graph
