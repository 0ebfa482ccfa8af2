import Lifeline.Diagram.Reader
import Lifeline.Gate.Rules
import Lifeline.Proofs.Diagram.Reading
import Lifeline.Proofs.Model.Building
import Lifeline.Proofs.Stages
import Lifeline.Proofs.Tests.Trees
import Mathlib.Data.List.Flatten

/-!
# Arrow parity of synthesized trees

**`arrowParity_of_synthesis`**: the tree of the tests of a diagram never fails arrow parity. The
checked calls are the calls of the model (`TreeOf.calls_perm`), the stubs of a group are those of
different calls that reply or raise (`GroupOf.stub_of_mem`), every reply is stubbed in the group of
the path that its call is on, and a result is checked in the group of its path
(`TreeOf.results_perm`).
-/

namespace Lifeline.Gate

theorem tally_of_nodup {α : Type} [DecidableEq α] {xs : List α} (h : xs.Nodup) :
    ∀ y ∈ tally xs, y.2 = 1 := by
  intro y hy
  obtain ⟨x, hx, rfl⟩ := List.mem_map.1 hy
  exact List.count_eq_one_of_mem h (List.mem_eraseDups.1 hx)

end Lifeline.Gate

namespace Lifeline.Tests

open Model

namespace TreeOf

variable {c : Context} {t : Tree}

/-! ## Calls and stubs -/

variable (h : TreeOf c t)
include h

theorem nodup_stubs {x : Method} {P : Path} {g : Group} (hg : GroupOf c x P g) :
    (g.stubs.map (·.call)).Nodup := by
  rw [← forall₂_map hg.stubs fun i s hs => hs.call.symm]
  refine h.sound.nodup_indexes.sublist (List.Sublist.map _ ?_)
  exact List.filter_sublist.trans (List.filter_sublist.trans List.filter_sublist)

theorem count_calls {i : Interaction} (hi : i ∈ c.model.interactions) :
    (t.groups.flatMap (·.callChecks)).countP (·.call == i.index) = 1 := by
  have hc : ((t.groups.flatMap (·.callChecks)).map (·.call)).count i.index = 1 := by
    rw [h.calls_perm.count_eq]
    exact List.count_eq_one_of_mem h.sound.nodup_indexes (List.mem_map_of_mem hi)
  rwa [List.count_eq_countP, List.countP_map] at hc

theorem callFailures_nil : Gate.callFailures t c.model = [] := by
  have hl : (t.groups.flatMap (·.callChecks)).length = c.model.interactions.length := by
    simpa using h.calls_perm.length_eq
  unfold Gate.callFailures
  dsimp only
  rw [if_pos (by simpa using hl), List.nil_append, List.filterMap_eq_nil_iff]
  intro i hi
  rw [if_pos (by simpa using h.count_calls hi)]

theorem stubFailure_none {x : Method} {P : Path} {g : Group} (hg : GroupOf c x P g) {s : Stub}
    (hs : s ∈ g.stubs) : Gate.stubFailure c.model g s = none := by
  obtain ⟨i, hi, -, -, ha, his⟩ := hg.stub_of_mem hs
  have hf : c.model.interactions.reverse.find? (·.index == s.call) = some i := by
    rw [his.call]
    refine find?_key ?_ (List.mem_reverse.2 hi)
    rw [List.map_reverse, List.nodup_reverse]
    exact h.sound.nodup_indexes
  unfold Gate.stubFailure
  rw [hf]
  dsimp only
  cases hr : i.reply with
  | none =>
    have hraise : s.raises.isSome = true := by
      rw [his.raises]
      simpa [answers, hr] using ha
    rw [if_pos (by simp [his.value, hr]),
      if_neg (by simpa [Option.isSome_iff_ne_none] using hraise)]
  | some b =>
    rw [if_neg (by simp [his.value, hr])]
    dsimp only
    rw [if_pos (by simp [his.valueId, hr])]

theorem groupFailures_nil {g : Group} (hg : g ∈ t.groups) : Gate.groupFailures c.model g = [] := by
  obtain ⟨x, hx, P, -, hgx⟩ := h.group_of_mem hg
  unfold Gate.groupFailures
  dsimp only
  rw [if_pos (hgx.results_le_one h.sound hx), List.append_nil, List.append_eq_nil_iff,
    List.filterMap_eq_nil_iff, List.filterMap_eq_nil_iff]
  refine ⟨fun y hy => ?_, fun s hs => h.stubFailure_none hgx hs⟩
  have := Gate.tally_of_nodup (h.nodup_stubs hgx) y hy
  rw [if_pos (by omega)]

/-- A reply is stubbed in the group of the path that its call is on. -/
theorem isStubbed {i : Interaction} (hi : i ∈ c.model.interactions) (hr : i.reply.isSome = true) :
    Gate.isStubbed t c.model i.index = true := by
  obtain ⟨x, hx, hm⟩ := h.sound.called i hi
  have hix : i ∈ c.model.interactionsOf x.call := List.mem_filter.2 ⟨hi, by simp [hm]⟩
  obtain ⟨g, hg, hgx⟩ := h.exists_group hx (Context.interaction_path h.sound hix)
  obtain ⟨s, hs, his⟩ := forall₂_left hgx.stubs i (List.mem_filter.2
    ⟨List.mem_filter.2 ⟨hix, Context.runs_chosen rfl⟩, by simp [answers, hr]⟩)
  simp only [Gate.isStubbed, Bool.and_eq_true, List.any_eq_true, beq_iff_eq]
  exact ⟨⟨i, hi, rfl⟩, g, hg, s, hs, his.call, by simpa [his.value] using hr⟩

theorem replyFailures_nil : Gate.replyFailures t c.model = [] := by
  unfold Gate.replyFailures
  rw [List.filterMap_eq_nil_iff]
  intro i hi
  cases hr : i.reply with
  | none => rfl
  | some b =>
    dsimp only
    rw [if_pos (h.isStubbed hi (by simp [hr]))]

/-! ## Results -/

/-- The positions of the checked results: those on paths that do not end in an exception. -/
theorem results_perm : ((t.groups.flatMap (·.resultChecks)).map (·.sequence)).Perm
    (c.model.methods.flatMap fun x => (c.paths x).flatMap fun P =>
      if (c.firstSite x P).isSome then []
      else (x.results.filter (·.scope.path == P)).map fun r => (r.position : Int)) := by
  have hp := h.groups_perm (f := fun g => g.resultChecks.map (·.sequence)) (F := fun x P =>
    if (c.firstSite x P).isSome then []
    else (x.results.filter (·.scope.path == P)).map fun r => (r.position : Int))
    fun x P g hg => by
      rw [← forall₂_map (f := fun r : MethodResult => (r.position : Int)) hg.results
        fun r a ha => ha.sequence.symm]
      split <;> simp
  rwa [List.map_flatMap]

/-- A position has at most one check of a result. -/
theorem count_results (n : Int) :
    (t.groups.flatMap (·.resultChecks)).countP (·.sequence == n) ≤ 1 := by
  have hall : (c.model.methods.flatMap fun x =>
      x.results.map fun r => (r.position : Int)).Nodup := by
    have := h.sound.nodup_positions.map (f := fun n : Nat => (n : Int)) fun _ _ => Int.ofNat.inj
    simpa [List.map_flatMap, Function.comp_def] using this
  have hpaths : (c.model.methods.flatMap fun x => (c.paths x).flatMap fun P =>
      (x.results.filter (·.scope.path == P)).map fun r => (r.position : Int)).Nodup := by
    refine (List.Perm.nodup_iff (List.Perm.flatMap_left _ fun x hx => ?_)).2 hall
    rw [← List.map_flatMap]
    exact (h.paths_perm x (·.scope) fun r hr => Context.result_path h.sound hx hr).map _
  have hsub : (c.model.methods.flatMap fun x => (c.paths x).flatMap fun P =>
      if (c.firstSite x P).isSome then []
      else (x.results.filter (·.scope.path == P)).map fun r => (r.position : Int)).Nodup := by
    refine hpaths.sublist (List.Sublist.flatMap_right _ fun x _ =>
      List.Sublist.flatMap_right _ fun P _ => ?_)
    split
    · exact List.nil_sublist _
    · exact List.Sublist.refl _
  have hc := List.nodup_iff_count_le_one.1 (h.results_perm.nodup_iff.2 hsub) n
  rwa [List.count_eq_countP, List.countP_map] at hc

theorem resultFailures_nil : Gate.resultFailures t c.model = [] := by
  unfold Gate.resultFailures
  dsimp only
  rw [List.append_eq_nil_iff, List.flatMap_eq_nil_iff, List.flatMap_eq_nil_iff]
  refine ⟨fun x hx => List.filterMap_eq_nil_iff.2 fun r hr => if_neg ?_,
    fun g hg => List.filterMap_eq_nil_iff.2 fun a ha => if_pos ?_⟩
  · obtain ⟨g, hg, hgx⟩ := h.exists_group hx (Context.result_path h.sound hx hr)
    have hle := h.count_results r.position
    simp only [Bool.or_eq_true, Bool.and_eq_true, decide_eq_true_eq, beq_iff_eq,
      Bool.not_eq_true', not_or, not_and, Bool.not_eq_false]
    refine ⟨by omega, fun hzero => ?_⟩
    by_cases hsite : (c.firstSite x r.scope.path).isSome = true
    · simp only [Gate.throwsOn, List.any_eq_true, Bool.and_eq_true, beq_iff_eq]
      refine ⟨g, hg, by rw [hgx.mode, if_pos hsite], ?_⟩
      rw [hgx.path, List.map_map]
      exact List.map_congr_left fun _ _ => rfl
    · have hres := hgx.results
      rw [if_neg hsite] at hres
      obtain ⟨a, ha, har⟩ := forall₂_left hres r (List.mem_filter.2 ⟨hr, by simp⟩)
      have hpos := List.countP_eq_zero.1 hzero a (List.mem_flatMap.2 ⟨g, hg, ha⟩)
      exact absurd har.sequence (by simpa using hpos)
  · obtain ⟨x, hx, P, -, hgx⟩ := h.group_of_mem hg
    obtain ⟨r, hr, har⟩ := forall₂_right hgx.results a ha
    simp only [List.any_eq_true, beq_iff_eq]
    refine ⟨x, hx, r, ?_, har.sequence⟩
    split at hr
    · simp at hr
    · exact (List.mem_filter.1 hr).1

theorem arrowParity_nil : Gate.arrowParity t c.model = [] := by
  rw [Gate.arrowParity, h.callFailures_nil, h.replyFailures_nil, h.resultFailures_nil]
  simpa using fun g hg => h.groupFailures_nil hg

end TreeOf

end Lifeline.Tests

namespace Lifeline.Gate

/-- **Arrow parity.** The tree that is synthesized for the model of a diagram passes the check:
every call is verified once, every reply is stubbed, every stub answers its call, no group stubs a
call twice or checks two results, and every result is checked once or lies on the path of a group
that ends in an exception. -/
theorem arrowParity_of_synthesis {source : String} {d : Diagram} {o : Model.Options} {m : Model}
    {s : LeafSuffixes} {p : Profile} {t : Tests.Tree} (hd : Diagram.parse source = .ok d)
    (hm : d.buildModel o = .ok m) (ht : m.synthesizeTests (m.classify s) p = .ok t) :
    arrowParity t m = [] :=
  (Tests.treeOf_synthesis (Model.sound_of_build (Diagram.sound_of_parse hd) hm) ht).arrowParity_nil

theorem arrowParity_earlyResult : ∃ d m t, Diagram.parse Stages.earlyResult = .ok d ∧
    d.buildModel = .ok m ∧ m.synthesizeTests m.classify = .ok t ∧ arrowParity t m = [] := by
  obtain ⟨x, hx, -⟩ := Stages.of?_earlyResult
  obtain ⟨d, hd, hm, ht, -⟩ := Stages.of?_eq_some hx
  exact ⟨d, x.model, x.tests, hd, hm, ht, arrowParity_of_synthesis hd hm ht⟩

end Lifeline.Gate
