import Lifeline.Gate.Rules
import Lifeline.Proofs.Outcome
import Lifeline.Proofs.Tests.Groups
import Mathlib.Data.List.Nodup

/-!
# What the gate guarantees

`Gate.Accepted t m`: what a tree that passes the gate for a model has, whoever made the two
(`accepted_of_passed`). The checks of calls are as many as the calls and stand in order, no group
stubs a call twice, every branch of a method has one group, the mode of a group says how many raises
it checks and who runs the method, and every result of a method has one check or stands on a path
that some group says to end in an exception.
-/

set_option autoImplicit false

namespace Lifeline.Tests

/-- The branches that the groups of a tree end in. -/
def Tree.ends (t : Tree) : List (Int × Int) :=
  t.groups.filterMap fun g => g.path.getLast?.map (·.choice)

/-- The checks of results of a tree that stand at a position. -/
def Tree.resultChecksAt (t : Tree) (position : Nat) : List ResultCheck :=
  (t.groups.flatMap (·.resultChecks)).filter (·.sequence == position)

end Lifeline.Tests

namespace Lifeline.Gate

open Tests (CallCheck Group Mode Tree)

/-- What a tree that passes the gate has. -/
structure Accepted (t : Tree) (m : Model) : Prop where
  total : (t.groups.flatMap (·.callChecks)).length = m.interactions.length
  stubs : ∀ g ∈ t.groups, (g.stubs.map (·.call)).Nodup
  ordered : ∀ g ∈ t.groups, g.callChecks.Pairwise fun a b => a.sequence < b.sequence
  branches : ∀ b ∈ m.alternatives, (∃ x ∈ m.methods, x.call = b.method) → ∀ br ∈ b.branches,
    t.ends.count ((b.id : Int), (br.index : Int)) = 1
  raises : ∀ g ∈ t.groups, g.raiseChecks.length = if g.mode = .exceptionTriggered then 1 else 0
  invokes : ∀ g ∈ t.groups, ∀ k ∈ g.cases, k.invokes = decide (g.mode = .exceptionTriggered)
  results : ∀ x ∈ m.methods, ∀ r ∈ x.results, (t.resultChecksAt r.position).length = 1 ∨
    t.resultChecksAt r.position = [] ∧ throwsOn t r.scope.path = true

/-! ## Single checks -/

/-- Where no value is counted twice, all are distinct. -/
theorem nodup_of_tally {α : Type} [DecidableEq α] {xs : List α} (h : ∀ y ∈ tally xs, y.2 ≤ 1) :
    xs.Nodup := by
  refine List.nodup_iff_count_le_one.2 fun x => ?_
  by_cases hx : x ∈ xs
  · exact h (x, xs.count x) (List.mem_map.2 ⟨x, List.mem_eraseDups.2 hx, rfl⟩)
  · rw [List.count_eq_zero.2 hx]
    exact Nat.zero_le 1

theorem total_of_callFailures {t : Tree} {m : Model} (h : callFailures t m = []) :
    (t.groups.flatMap (·.callChecks)).length = m.interactions.length := by
  unfold callFailures at h
  dsimp only at h
  have htotal := (List.append_eq_nil_iff.1 h).1
  split at htotal
  · rename_i he
    exact beq_iff_eq.1 he
  · cases htotal

theorem nodup_of_groupFailures {m : Model} {g : Group} (h : groupFailures m g = []) :
    (g.stubs.map (·.call)).Nodup := by
  unfold groupFailures at h
  dsimp only at h
  rw [List.append_assoc, List.append_eq_nil_iff, List.filterMap_eq_nil_iff] at h
  refine nodup_of_tally fun y hy => ?_
  have hnone := h.1 y hy
  split at hnone
  · assumption
  · cases hnone

/-- Checks of calls in order stand behind the one before them and in ascending order. -/
theorem ordered_of_orderFailures {g : Group} : ∀ {previous : Int} {checks : List CallCheck},
    orderFailures g previous checks = [] →
      (∀ c ∈ checks, previous < c.sequence) ∧ checks.Pairwise fun a b => a.sequence < b.sequence
  | _, [], _ => ⟨by simp, .nil⟩
  | previous, c :: rest, h => by
    rw [orderFailures, List.append_eq_nil_iff, List.append_eq_nil_iff] at h
    obtain ⟨⟨hfirst, -⟩, hrest⟩ := h
    obtain ⟨hall, hpairs⟩ := ordered_of_orderFailures hrest
    have hlt : previous < c.sequence := by
      split at hfirst
      · cases hfirst
      · omega
    refine ⟨fun x hx => ?_, .cons hall hpairs⟩
    rcases List.mem_cons.1 hx with rfl | hx
    · exact hlt
    · exact Int.lt_trans hlt (hall x hx)

/-- The mode of a group decides how many raises it checks and whether its tests run the method. -/
theorem mode_of_raiseFailures {g : Group} (h : raiseFailures g = []) :
    g.raiseChecks.length = (if g.mode = .exceptionTriggered then 1 else 0) ∧
      ∀ k ∈ g.cases, k.invokes = decide (g.mode = .exceptionTriggered) := by
  unfold raiseFailures at h
  have hrest := (List.append_eq_nil_iff.1 h).2
  cases hmode : g.mode with
  | noException =>
    rw [hmode] at hrest
    dsimp only at hrest
    split at hrest
    · rename_i hquiet
      simp only [Bool.and_eq_true, List.isEmpty_iff, Bool.not_eq_true', List.any_eq_false] at hquiet
      exact ⟨by simp [hquiet.1], fun k hk => by simpa using hquiet.2 k hk⟩
    · cases hrest
  | exceptionTriggered =>
    rw [hmode] at hrest
    dsimp only at hrest
    rw [List.append_eq_nil_iff, List.append_eq_nil_iff] at hrest
    obtain ⟨⟨hone, -⟩, hall⟩ := hrest
    split at hone
    · rename_i hlength
      split at hall
      · rename_i hinvokes
        exact ⟨by simpa using hlength, fun k hk => by simpa using List.all_eq_true.1 hinvokes k hk⟩
      · cases hall
    · cases hone

theorem count_of_branchFailures {t : Tree} {m : Model} (h : branchFailures t m = [])
    {b : Model.Alternative} (hb : b ∈ m.alternatives) (hm : ∃ x ∈ m.methods, x.call = b.method)
    {br : Model.Branch} (hbr : br ∈ b.branches) :
    t.ends.count ((b.id : Int), (br.index : Int)) = 1 := by
  obtain ⟨x, hx, hxb⟩ := hm
  unfold branchFailures at h
  dsimp only at h
  rw [List.flatMap_eq_nil_iff] at h
  have howned : (m.methods.any fun x => x.call == b.method) = true :=
    List.any_eq_true.2 ⟨x, hx, by simp [hxb]⟩
  have hnone := List.filterMap_eq_nil_iff.1 (h b (List.mem_filter.2 ⟨hb, howned⟩)) br hbr
  split at hnone
  · rename_i hone
    exact beq_iff_eq.1 hone
  · cases hnone

theorem results_of_resultFailures {t : Tree} {m : Model} (h : resultFailures t m = [])
    {x : Model.Method} (hx : x ∈ m.methods) {r : Model.MethodResult} (hr : r ∈ x.results) :
    (t.resultChecksAt r.position).length = 1 ∨
      t.resultChecksAt r.position = [] ∧ throwsOn t r.scope.path = true := by
  unfold resultFailures at h
  dsimp only at h
  have hwrong := (List.append_eq_nil_iff.1 h).1
  rw [List.flatMap_eq_nil_iff] at hwrong
  have hnone := List.filterMap_eq_nil_iff.1 (hwrong x hx) r hr
  split at hnone
  · cases hnone
  · rename_i hfits
    have hcount : (t.groups.flatMap (·.resultChecks)).countP (·.sequence == (r.position : Int)) =
        (t.resultChecksAt r.position).length := List.countP_eq_length_filter
    rw [hcount] at hfits
    simp only [Bool.or_eq_true, decide_eq_true_eq, Bool.and_eq_true, beq_iff_eq,
      Bool.not_eq_true', not_or, not_and, Bool.not_eq_false, List.length_eq_zero_iff] at hfits
    obtain ⟨hle, hexcused⟩ := hfits
    by_cases hnil : t.resultChecksAt r.position = []
    · exact .inr ⟨hnil, hexcused hnil⟩
    · exact .inl (by have := List.length_pos_iff.2 hnil; omega)

/-! ## The gate -/

theorem passed_iff {o : Outcome} : o.passed = true ↔ o.failures = [] := by
  rw [Outcome.passed, List.isEmpty_iff]

/-- **What the gate guarantees** of every tree that passes. -/
theorem accepted_of_passed {t : Tree} {m : Model} (h : (run t m).passed = true) :
    Accepted t m := by
  have hnil : arrowParity t m ++ dataFlow t m ++ patternRules t m = [] := passed_iff.1 h
  rw [List.append_eq_nil_iff, List.append_eq_nil_iff] at hnil
  obtain ⟨⟨hparity, hflow⟩, hpattern⟩ := hnil
  simp only [arrowParity, List.append_eq_nil_iff, List.flatMap_eq_nil_iff] at hparity
  obtain ⟨⟨⟨hcalls, hgroups⟩, -⟩, hresults⟩ := hparity
  simp only [dataFlow, List.append_eq_nil_iff, List.flatMap_eq_nil_iff] at hflow
  simp only [patternRules, List.append_eq_nil_iff, List.flatMap_eq_nil_iff] at hpattern
  obtain ⟨⟨⟨-, hbranches⟩, hshapes⟩, -⟩ := hpattern
  have hmode : ∀ g ∈ t.groups, raiseFailures g = [] := fun g hg =>
    (List.append_eq_nil_iff.1 (hshapes g hg)).2
  exact {
    total := total_of_callFailures hcalls
    stubs := fun g hg => nodup_of_groupFailures (hgroups g hg)
    ordered := fun g hg => (ordered_of_orderFailures (hflow.1.1 g hg)).2
    branches := fun b hb hm br hbr => count_of_branchFailures hbranches hb hm hbr
    raises := fun g hg => (mode_of_raiseFailures (hmode g hg)).1
    invokes := fun g hg => (mode_of_raiseFailures (hmode g hg)).2
    results := fun x hx r hr => results_of_resultFailures hresults hx hr }

end Lifeline.Gate
