import Lifeline.Plan.Placement
import Lifeline.Proofs.Gate.Accepted
import Lifeline.Proofs.Stages

/-!
# Faults that the gate finds

`Gate.Fault m t t'`: one fault turns a tree into another one. Within a group a check of a call is
lost or changes places with another, a stub is repeated, the check of the raise is lost, or the mode
or the running of a test is flipped (`Tests.Group.Fault`); a check of a call is repeated; or the
group of a branch is lost. Each of these breaks one of the facts of `Gate.Accepted`, so no tree with
such a fault passes where the one without it did (`rejects_of_fault`).
-/

set_option autoImplicit false

namespace Lifeline.Tests

/-- The mode that a mode is confused with. -/
def Mode.other : Mode → Mode
  | .noException => .exceptionTriggered
  | .exceptionTriggered => .noException

/-- A fault within a group. -/
inductive Group.Fault (g : Group) : Group → Prop
  | dropCall {before after : List Case} {k : Case} (hcases : g.cases = before ++ k :: after)
      (hk : k.call?.isSome) : Fault g { g with cases := before ++ after }
  | swapCalls {before between after : List Case} {k l : Case}
      (hcases : g.cases = before ++ k :: (between ++ l :: after)) (hk : k.call?.isSome)
      (hl : l.call?.isSome) : Fault g { g with cases := before ++ l :: (between ++ k :: after) }
  | repeatStub {before after : List Stub} {s : Stub} (hstubs : g.stubs = before ++ after)
      (hs : s ∈ g.stubs) : Fault g { g with stubs := before ++ s :: after }
  | dropRaise {before after : List Case} {k : Case} (hmode : g.mode = .exceptionTriggered)
      (hcases : g.cases = before ++ k :: after) (hk : k.raise?.isSome) :
      Fault g { g with cases := before ++ after }
  | flipInvokes {before after : List Case} {k : Case} (hcases : g.cases = before ++ k :: after) :
      Fault g { g with cases := before ++ { k with invokes := !k.invokes } :: after }
  | flipMode : Fault g { g with mode := g.mode.other }

/-- Some groups stand in a tree where there was one. -/
inductive Tree.Replaced (g : Group) (gs : List Group) (t : Tree) : Tree → Prop
  | intro {ss ss' : List Suite} {s : Suite} {ms ms' : List MethodTests} {mt : MethodTests}
      {before after : List Group} (hs : t.suites = ss ++ s :: ss')
      (hm : s.methods = ms ++ mt :: ms') (hg : mt.groups = before ++ g :: after) :
      Replaced g gs t { t with
        suites := ss ++ { s with
          methods := ms ++ { mt with groups := before ++ gs ++ after } :: ms' } :: ss' }

/-- A group that is replaced is one of the tree, and all others stay. -/
theorem Tree.Replaced.groups {g : Group} {gs : List Group} {t t' : Tree}
    (h : t.Replaced g gs t') : ∃ before after, t.groups = before ++ g :: after ∧
      t'.groups = before ++ gs ++ after := by
  cases h with
  | @intro ss ss' s ms ms' mt before after hs hm hg =>
    refine ⟨ss.flatMap (·.groups) ++ (ms.flatMap (·.groups) ++ before),
      after ++ (ms'.flatMap (·.groups) ++ ss'.flatMap (·.groups)), ?_, ?_⟩
    · simp only [Tree.groups, hs, List.flatMap_append, List.flatMap_cons, Suite.groups, hm, hg,
        List.append_assoc, List.cons_append]
    · simp only [Tree.groups, List.flatMap_append, List.flatMap_cons, Suite.groups,
        List.append_assoc]

/-- Every group of a tree can be replaced. -/
theorem Tree.exists_replaced {t : Tree} {s : Suite} {mt : MethodTests} {g : Group}
    (hs : s ∈ t.suites) (hm : mt ∈ s.methods) (hg : g ∈ mt.groups) (gs : List Group) :
    ∃ t', t.Replaced g gs t' := by
  obtain ⟨ss, ss', hs⟩ := List.append_of_mem hs
  obtain ⟨ms, ms', hm⟩ := List.append_of_mem hm
  obtain ⟨before, after, hg⟩ := List.append_of_mem hg
  exact ⟨_, .intro hs hm hg⟩

end Lifeline.Tests

namespace Lifeline.Gate

open Tests (Case Group Mode Tree)

/-- A single fault of a tree for a model. -/
inductive Fault (m : Model) (t : Tree) : Tree → Prop
  | within {g g' : Group} {t' : Tree} (hg : g.Fault g') (ht : t.Replaced g [g'] t') : Fault m t t'
  | repeatCall {g h : Group} {before after : List Case} {k : Case} {name : String} {t' : Tree}
      (hh : h ∈ t.groups) (hk : k ∈ h.cases) (hcall : k.call?.isSome)
      (hcases : g.cases = before ++ after)
      (ht : t.Replaced g [{ g with cases := before ++ { k with name } :: after }] t') : Fault m t t'
  | dropBranch {g : Group} {b : Model.Alternative} {br : Model.Branch} {t' : Tree}
      (hb : b ∈ m.alternatives) (hm : ∃ x ∈ m.methods, x.call = b.method) (hbr : br ∈ b.branches)
      (hg : g.path.getLast?.map (·.choice) = some ((b.id : Int), (br.index : Int)))
      (ht : t.Replaced g [] t') : Fault m t t'

/-! ## Checks of calls -/

theorem callChecks_eq (g : Group) : g.callChecks = g.cases.filterMap Case.call? := rfl

/-- A group with one call check more or less in a tree changes how many there are. -/
theorem length_callChecks {t t' : Tree} {g g' : Group} (h : t.Replaced g [g'] t') :
    (t'.groups.flatMap (·.callChecks)).length + g.callChecks.length =
      (t.groups.flatMap (·.callChecks)).length + g'.callChecks.length := by
  obtain ⟨before, after, ht, ht'⟩ := h.groups
  simp only [ht, ht', List.flatMap_append, List.flatMap_cons, List.flatMap_nil, List.append_nil,
    List.length_append]
  omega

theorem length_of_cons {before after : List Case} {k : Case} (hk : k.call?.isSome) :
    ((before ++ k :: after).filterMap Case.call?).length =
      ((before ++ after).filterMap Case.call?).length + 1 := by
  obtain ⟨a, ha⟩ := Option.isSome_iff_exists.1 hk
  simp only [List.filterMap_append, List.filterMap_cons, ha, List.length_append, List.length_cons]
  omega

/-- Of two checks of calls in ascending order only one can stand first. -/
theorem not_ordered_of_swapped {before between after : List Case} {k l : Case}
    (hk : k.call?.isSome) (hl : l.call?.isSome) {g : Group}
    (hcases : g.cases = before ++ k :: (between ++ l :: after))
    (h : g.callChecks.Pairwise fun a b => a.sequence < b.sequence) :
    ¬ ({ g with cases := before ++ l :: (between ++ k :: after) } : Group).callChecks.Pairwise
      fun a b => a.sequence < b.sequence := by
  obtain ⟨a, ha⟩ := Option.isSome_iff_exists.1 hk
  obtain ⟨b, hb⟩ := Option.isSome_iff_exists.1 hl
  intro h'
  rw [callChecks_eq, hcases] at h
  rw [callChecks_eq] at h'
  simp only [List.filterMap_append, List.filterMap_cons, ha, hb, List.pairwise_append,
    List.pairwise_cons, List.mem_append, List.mem_cons] at h h'
  have hab : a.sequence < b.sequence := h.2.1.1 b (.inr (.inl rfl))
  have hba : b.sequence < a.sequence := h'.2.1.1 a (.inr (.inl rfl))
  omega

/-! ## Faults -/

section
variable {m : Model} {t t' : Tree}

/-- A group with a fault breaks what the gate guarantees of the tree it is in. -/
theorem not_accepted_of_group {g g' : Group} (hg : g.Fault g') (ht : t.Replaced g [g'] t')
    (h : Accepted t m) : ¬ Accepted t' m := by
  intro h'
  obtain ⟨before, after, hgroups, hgroups'⟩ := ht.groups
  have hmem : g ∈ t.groups := by simp [hgroups]
  have hmem' : g' ∈ t'.groups := by simp [hgroups']
  have htotal := length_callChecks ht
  rw [h.total, h'.total] at htotal
  cases hg with
  | @dropCall before after k hcases hk =>
    simp only [callChecks_eq, hcases, length_of_cons hk] at htotal
    omega
  | swapCalls hcases hk hl =>
    exact not_ordered_of_swapped hk hl hcases (h.ordered g hmem) (h'.ordered _ hmem')
  | @repeatStub before after s hstubs hs =>
    have hnodup := h'.stubs _ hmem'
    rw [hstubs] at hs
    have hagain : s.call ∈ (before ++ after).map (·.call) := List.mem_map_of_mem hs
    rw [List.map_append, List.map_cons, List.nodup_middle, ← List.map_append] at hnodup
    exact (List.nodup_cons.1 hnodup).1 hagain
  | @dropRaise before after k hmode hcases hk =>
    obtain ⟨a, ha⟩ := Option.isSome_iff_exists.1 hk
    have hone := h.raises g hmem
    have hone' := h'.raises _ hmem'
    rw [if_pos hmode] at hone
    rw [if_pos (by exact hmode)] at hone'
    change (g.cases.filterMap Case.raise?).length = 1 at hone
    change ((before ++ after).filterMap Case.raise?).length = 1 at hone'
    rw [hcases] at hone
    simp only [List.filterMap_append, List.filterMap_cons, ha, List.length_append,
      List.length_cons] at hone hone'
    omega
  | @flipInvokes before after k hcases =>
    have hk := h.invokes g hmem k (by simp [hcases])
    have hk' := h'.invokes _ hmem' { k with invokes := !k.invokes } (by simp)
    dsimp only at hk'
    rw [hk] at hk'
    exact (Bool.not_eq_self _).1 hk'
  | flipMode =>
    have hone := h.raises g hmem
    have hone' := h'.raises _ hmem'
    change g.raiseChecks.length = if g.mode.other = .exceptionTriggered then 1 else 0 at hone'
    rw [hone] at hone'
    cases hmode : g.mode <;> simp [hmode, Mode.other] at hone'

/-- The gate guarantees nothing any more of a tree with a fault. -/
theorem not_accepted_of_fault (hf : Fault m t t') (h : Accepted t m) : ¬ Accepted t' m := by
  intro h'
  cases hf with
  | within hg ht => exact not_accepted_of_group hg ht h h'
  | @repeatCall g h₀ before after k name _ hh hk hcall hcases ht =>
    have htotal := length_callChecks ht
    rw [h.total, h'.total, callChecks_eq, callChecks_eq, hcases,
      length_of_cons (by exact hcall)] at htotal
    omega
  | @dropBranch g b br _ hb hm hbr hg ht =>
    obtain ⟨before, after, hgroups, hgroups'⟩ := ht.groups
    have hone := h.branches b hb hm br hbr
    have hone' := h'.branches b hb hm br hbr
    simp only [Tree.ends, hgroups, hgroups', List.filterMap_append, List.filterMap_cons, hg,
      List.count_append, List.count_cons_self, List.append_nil] at hone hone'
    omega

/-- A tree that passes, with or without a plan, passes the checks against its model. -/
theorem passed_of_runWithPlan {plan : Option (List Plan.Operation)}
    (h : (runWithPlan t m plan).passed = true) : (run t m).passed = true := by
  cases plan with
  | none => exact h
  | some operations =>
    rw [passed_iff] at h ⊢
    exact (List.append_eq_nil_iff.1 h).1

/-- **Every single fault is found.** Where the gate lets a tree pass for a model, whoever made the
tree, it stops every tree that differs from it by one fault. -/
theorem rejects_of_fault {plan plan' : Option (List Plan.Operation)}
    (h : (runWithPlan t m plan).passed = true) (hf : Fault m t t') :
    (runWithPlan t' m plan').passed = false := by
  rw [Bool.eq_false_iff]
  intro h'
  exact not_accepted_of_fault hf (accepted_of_passed (passed_of_runWithPlan h))
    (accepted_of_passed (passed_of_runWithPlan h'))

end

set_option synthInstance.maxSize 256 in
/-- The tests of a diagram with two alternatives pass, and there is a group to lose. -/
theorem branch_earlyResult : ∃ x ∈ Stages.of? Stages.earlyResult,
    (runWithPlan x.tests x.model none).passed = true ∧
      ∃ s ∈ x.tests.suites, ∃ mt ∈ s.methods, ∃ g ∈ mt.groups, ∃ b ∈ x.model.alternatives,
        (∃ y ∈ x.model.methods, y.call = b.method) ∧ ∃ br ∈ b.branches,
          g.path.getLast?.map (·.choice) = some ((b.id : Int), (br.index : Int)) := by
  unfold Stages.earlyResult
  rw [Stages.of?_toList, String.toList_append, String.toList_append, String.toList_ofList,
    String.toList_ofList, String.toList_ofList]
  decide +kernel

theorem rejects_earlyResult : ∃ x ∈ Stages.of? Stages.earlyResult, ∃ t',
    (runWithPlan x.tests x.model none).passed = true ∧ Fault x.model x.tests t' ∧
      (runWithPlan t' x.model none).passed = false := by
  obtain ⟨x, hx, hpassed, s, hs, mt, hmt, g, hg, b, hb, howner, br, hbr, hend⟩ := branch_earlyResult
  obtain ⟨t', ht'⟩ := Tests.Tree.exists_replaced hs hmt hg []
  have hfault : Fault x.model x.tests t' := .dropBranch hb howner hbr hend ht'
  exact ⟨x, hx, t', hpassed, hfault, rejects_of_fault hpassed hfault⟩

end Lifeline.Gate
