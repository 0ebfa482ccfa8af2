import Lifeline.Proofs.Diagram.OpenCalls
import Lifeline.Proofs.Graph.Cycle
import Lifeline.Proofs.Model.Building

/-!
# Who owns a method

No participant of a model calls itself, not even by way of others (`acyclic_of_build`). So the root,
from where every call is reached, is not called, and whoever is called and makes calls makes them in
the activation of a call to itself: it owns a method, and so does the component under test
(`exists_method_of_build`).
-/

set_option autoImplicit false

namespace Lifeline

open Relation (ReflTransGen TransGen)

namespace Diagram

/-- Participant `a` calls participant `b`. -/
def Calls (d : Diagram) (a b : String) : Prop := ∃ c ∈ d.calls, c.source = a ∧ c.target = b

variable {d : Diagram}

/-- The source of a call is reached from the source of the calls outside all activations. -/
theorem Sound.reached (h : d.Sound) {c : Call} (hc : c ∈ d.calls) :
    ∃ c₀ ∈ d.calls, c₀.parent = none ∧ ReflTransGen d.Calls c₀.source c.source := by
  obtain ⟨n, -, hn⟩ := h.call_id hc
  induction n using Nat.strong_induction_on generalizing c with
  | _ n ih =>
    cases hp : c.parent with
    | none => exact ⟨c, hc, hp, .refl⟩
    | some p =>
      obtain ⟨hlt, c', hc', rfl, htarget⟩ := h.called c hc p hp
      obtain ⟨n', -, hn'⟩ := h.call_id hc'
      obtain ⟨c₀, hc₀, hroot, hreach⟩ := ih n' (by omega) hc' hn'
      exact ⟨c₀, hc₀, hroot, hreach.tail ⟨c', hc', rfl, htarget⟩⟩

/-- In a diagram without calls in a circle nobody calls the root, so the calls of a participant that
is called are made in activations. -/
theorem Sound.parent_of_called (h : d.Sound) (hr : d.Rooted)
    (hacyclic : ∀ a, ¬TransGen d.Calls a a) {c c' : Call} (hc : c ∈ d.calls) (hc' : c' ∈ d.calls)
    (hends : c.target = c'.source) : c'.parent ≠ none := by
  intro hnone
  obtain ⟨c₀, hc₀, hroot, hreach⟩ := h.reached hc
  refine hacyclic c₀.source (TransGen.tail' hreach ⟨c, hc, rfl, ?_⟩)
  rw [hends, hr.source c₀ hc₀ c' hc' hroot hnone]

end Diagram

namespace Model

/-- Every call is an edge between participants. -/
theorem Layout.edge_of_call {l : Layout} {x : Call × Place} (hx : x ∈ l.walk.calls) :
    l.callGraph.Edge x.1.source x.1.target := by
  exact foldl_collects (P := fun (x : Call × Place) (g : Graph) => g.Edge x.1.source x.1.target)
    (fun g x => Graph.edge_addEdge g _ _) (fun g x y h => h.addEdge _ _) [] x hx

section
variable {d : Diagram} (hd : d.Sound) {o : Options} {m : Model} (hm : d.buildModel o = .ok m)
include hd hm

/-- **No calls in a circle** get into a model. -/
theorem acyclic_of_build (a : String) : ¬TransGen d.Calls a a := by
  rw [Diagram.buildModel, bind_ok] at hm
  obtain ⟨w, hw, hm⟩ := hm
  have hf := Walk.follows_of_run hd hw
  have hedge : ∀ a b, d.Calls a b → w.layout.callGraph.Edge a b := by
    rintro a b ⟨c, hc, rfl, rfl⟩
    obtain ⟨x, hx, rfl⟩ := hf.hears.exists_call hc
    exact Layout.edge_of_call (l := w.layout) hx
  exact fun hcycle =>
    Graph.acyclic_of_findCycle (Layout.passed_of_model hm).1 a (TransGen.mono hedge _ _ hcycle)

/-- Whoever is called and is an orchestrator owns a method. -/
theorem exists_method_of_build (hr : d.Rooted) {i : Interaction} (hi : i ∈ m.interactions)
    {p : Participant} (hp : p ∈ m.participants) (hname : p.name = i.target)
    (horchestrates : p.underTest = true ∨ ∃ j ∈ m.interactions, j.source = p.name) :
    ∃ x ∈ m.methods, x.owner = p.name := by
  have hacyclic := acyclic_of_build hd hm
  have hsound := sound_of_build hd hm
  rw [Diagram.buildModel, bind_ok] at hm
  obtain ⟨w, hw, hm⟩ := hm
  have hf := Walk.follows_of_run hd hw
  have hmakes := Layout.makes hm
  rcases horchestrates with htest | ⟨j, hj, hsource⟩
  · obtain ⟨x, hx, hof⟩ := forall₂_left hmakes.methods none (Layout.mem_methodIds.2 (.inl rfl))
    refine ⟨x, hx, ?_⟩
    rw [hmakes.participants] at hp
    obtain ⟨⟨name, ordinal⟩, hy, rfl⟩ := List.mem_map.1 hp
    obtain rfl : ordinal = 0 := beq_iff_eq.1 htest
    have hfirst := hof.root rfl
    rw [List.head?_eq_getElem?, List.mk_mem_zipIdx_iff_getElem?.1 hy] at hfirst
    exact (Option.some.inj hfirst).symm
  · obtain ⟨y, hy, hiy⟩ := forall₂_right hmakes.interactions i hi
    obtain ⟨z, hz, hjz⟩ := forall₂_right hmakes.interactions j hj
    have hends : y.1.target = z.1.source := by
      rw [← hiy.target, ← hname, ← hsource, hjz.source]
    have hparent := hd.parent_of_called hr hacyclic (hf.hears.mem_calls hy) (hf.hears.mem_calls hz)
      hends
    obtain ⟨k, hk⟩ := Option.ne_none_iff_exists'.1 hparent
    obtain ⟨h0, callee, hcallee, hindex, htarget⟩ :=
      hmakes.activation hd hf hj (hjz.method.trans hk)
    obtain ⟨x, hx, hof⟩ := forall₂_left hmakes.methods (some k)
      (Layout.mem_methodIds.2 (.inr ⟨z, hz, hk⟩))
    obtain ⟨callee', hat, howner⟩ := hof.callee k rfl
    have hsame := (itemAt?_of_numbered hsound.numbered hcallee).2
    rw [hindex, hat] at hsame
    exact ⟨x, hx, by rw [howner, Option.some.inj hsame, htarget, hsource]⟩

/-- Every exception of a model has a name. -/
theorem named_of_build (hr : d.Rooted) {t : Throw} (ht : t ∈ m.throws) :
    Label.Dotted t.exception := by
  rw [Diagram.buildModel, bind_ok] at hm
  obtain ⟨w, hw, hm⟩ := hm
  have hf := Walk.follows_of_run hd hw
  obtain ⟨x, hx, hof⟩ := forall₂_right (Layout.makes hm).throws t ht
  rw [(Layout.throwOf_ok hof).1.exception]
  exact hr.named x.1 (List.mem_of_getElem? (hf.hears.raise.placed x hx).1)

end

end Model

end Lifeline
