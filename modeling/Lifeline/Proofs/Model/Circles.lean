import Lifeline.Proofs.Graph.Search
import Lifeline.Proofs.Model.Owners

/-!
# No participant calls itself

The graph of the calls of a model is the one that was searched when the model was built, so nobody
reaches itself through the calls of a model. **`circles_detected`** puts this next to what it rests
on: the search for a cycle ends, and it is exact.
-/

set_option autoImplicit false

namespace Lifeline.Model

open Relation (TransGen)

/-- Participant `a` of a model calls participant `b`. -/
def Calls (m : Model) (a b : String) : Prop := ∃ i ∈ m.interactions, i.source = a ∧ i.target = b

/-- The calls of a model that was built have no circle. -/
theorem not_circular_of_build {d : Diagram} {o : Options} {m : Model}
    (h : d.buildModel o = .ok m) (a : String) : ¬TransGen m.Calls a a := by
  rw [Diagram.buildModel, bind_ok] at h
  obtain ⟨w, -, hm⟩ := h
  have hedge : ∀ a b, m.Calls a b → w.layout.callGraph.Edge a b := by
    rintro a b ⟨i, hi, rfl, rfl⟩
    obtain ⟨x, hx, hof⟩ := forall₂_right (Layout.makes hm).interactions i hi
    rw [hof.source, hof.target]
    exact Layout.edge_of_call (l := w.layout) hx
  exact fun hcycle =>
    Graph.acyclic_of_findCycle (Layout.passed_of_model hm).1 a (TransGen.mono hedge _ _ hcycle)

/-- **Circles are detected**. For every graph, nodes without an entry included, the search ends with
its one result; it finds nothing if and only if no way leads from a node back to it; and what it
finds is such a way. So no participant of a model reaches itself through calls. -/
theorem circles_detected :
    (∀ g : Graph,
      (∀ r, g.Explores [] [] (g.map (·.1)) r ↔ r = g.search) ∧
      (g.findCycle = none ↔ ¬∃ a, TransGen g.Edge a a) ∧
      ∀ cycle, g.findCycle = some cycle →
        2 ≤ cycle.length ∧ cycle.head? = cycle.getLast? ∧ cycle.IsChain g.Edge) ∧
    ∀ (d : Diagram) (o : Options) (m : Model), d.buildModel o = .ok m →
      ∀ a, ¬TransGen m.Calls a a := by
  refine ⟨fun g => ⟨fun r => ⟨fun h => h.unique g.explores_search, fun h => h ▸ g.explores_search⟩,
    Graph.findCycle_eq_none_iff, fun cycle h => ?_⟩, fun d o m h => not_circular_of_build h⟩
  have hc := Graph.circle_of_findCycle h
  exact ⟨hc.long, hc.closed, hc.joined⟩

/-- A diagram in which a participant is called by two others, one of which calls the other one. -/
def sharedCallee : String :=
  "[-> A : run(x)\nA -> B : load(x)\nB -> C : find(x)\nA -> C : send(x)\n"

theorem model_sharedCallee : ∃ d ∈ (Diagram.parse sharedCallee).toOption,
    ∃ m ∈ d.buildModel.toOption,
      m.interactions.map (fun i => (i.source, i.target)) = [("A", "B"), ("B", "C"), ("A", "C")] := by
  unfold Diagram.parse Line.scan sharedCallee
  rw [String.toList_ofList]
  decide +kernel

/-- A graph with a node that two others have as neighbour and that has no entry, a graph in which
the path has to be left in front of a loop, and a model. -/
theorem circles_detected_sharedCallee :
    (∀ a, ¬TransGen (Graph.Edge [("A", ["B", "C"]), ("B", ["C"])]) a a) ∧
    (∃ cycle, Graph.findCycle [("A", ["C", "B"]), ("B", ["D", "A"]), ("D", ["D"])] = some cycle ∧
      2 ≤ cycle.length ∧ cycle.head? = cycle.getLast? ∧
      cycle.IsChain (Graph.Edge [("A", ["C", "B"]), ("B", ["D", "A"]), ("D", ["D"])])) ∧
    ∃ d m, Diagram.parse sharedCallee = .ok d ∧ d.buildModel = .ok m ∧ m.Calls "A" "C" ∧
      ∀ a, ¬TransGen m.Calls a a := by
  obtain ⟨hgraph, hmodel⟩ := circles_detected
  obtain ⟨d, hd, m, hm, hcalls⟩ := model_sharedCallee
  obtain ⟨-, hnone, -⟩ := hgraph [("A", ["B", "C"]), ("B", ["C"])]
  obtain ⟨-, -, hsome⟩ := hgraph [("A", ["C", "B"]), ("B", ["D", "A"]), ("D", ["D"])]
  have hends : ("A", "C") ∈ m.interactions.map fun i => (i.source, i.target) := by simp [hcalls]
  obtain ⟨i, hi, he⟩ := List.mem_map.1 hends
  exact ⟨not_exists.1 (hnone.1 (by decide +kernel)),
    ⟨["D", "D"], by decide +kernel, hsome _ (by decide +kernel)⟩, d, m, toOption_eq_some.1 hd,
    toOption_eq_some.1 hm, ⟨i, hi, Prod.mk.inj he⟩, hmodel d {} m (toOption_eq_some.1 hm)⟩

end Lifeline.Model
