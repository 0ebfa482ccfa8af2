import Lifeline.Gate.Rules
import Lifeline.Proofs.Stages
import Lifeline.Proofs.Tests.Choices
import Lifeline.Proofs.Tests.Failures

/-!
# Data flow in synthesized trees

A value that flows into a call comes from the reply to another call of the method. The check of the
call stands in the group of its path, and the stub of the other call there only if the group reaches
that call; where the reply itself stands does not matter. So the tree passes the check exactly where
each group reaches the calls whose values its own calls take.

**`dataFlow_iff_of_synthesis`** says so for the tree of the tests of a diagram. A call inside a
branch with its reply behind the alternative can break it (`not_dataFlow_lateReply`).
-/

set_option autoImplicit false

namespace Lifeline.Tests

open Model

/-! ## Arguments -/

/-- What a reference to an argument keeps of it. -/
structure ValueRefOf (a : ArgumentRef) (r : ValueRef) : Prop where
  text : r.text = a.name
  value : ∀ p v, a.source = .reply p v → r.source = .stub ∧ r.valueId = some v
  stub : r.source = .stub → ∃ p v, a.source = .reply p v

theorem Context.argumentRef_ok {c : Context} {a : ArgumentRef} {r : ValueRef}
    (h : c.argumentRef a = .ok r) : ValueRefOf a r := by
  unfold Context.argumentRef at h
  dsimp only at h
  cases hs : a.source with
  | literal =>
    rw [hs] at h
    obtain rfl := Except.ok.inj h
    exact ⟨rfl, by simp [hs], by simp⟩
  | reply p v =>
    rw [hs] at h
    simp only [bind_ok, pure_ok] at h
    obtain ⟨name, -, rfl⟩ := h
    refine ⟨rfl, fun p' v' he => ?_, fun _ => ⟨p, v, hs⟩⟩
    cases hs.symm.trans he
    exact ⟨rfl, rfl⟩
  | _ =>
    rw [hs] at h
    simp only [bind_ok, pure_ok] at h
    obtain ⟨name, -, rfl⟩ := h
    exact ⟨rfl, by simp [hs], by simp⟩

/-! ## Groups -/

/-- The group of the path `K` reaches the scope: a branch around it is on the path, or else it is
the pick of an alternative that the path leaves open. -/
def Context.Reaches (c : Context) (x : Method) (K : Path) (scope : Scope) : Prop :=
  ∀ y ∈ scope.path, y ∈ K ∨ (y.1 ∉ K.map (·.1) ∧
    ∃ b ∈ c.blocksOf x, b.id = y.1 ∧ Picks (c.blocksOf x) (c.raiseSites x) b y.2)

theorem Context.reaches_iff {c : Context} (hs : c.model.Sound) {x : Method} {i : Interaction}
    (hi : i ∈ c.model.interactions) (hix : i.method = x.call) {K : Path} :
    c.Reaches x K i.scope ↔ runs i.scope (c.chosen x K) = true := by
  obtain ⟨tl, ht⟩ := hs.timeline
  have hleads : Leads (c.blocksOf x) i.scope.path := by
    rw [(ht.interaction i hi).2, hix]
    exact Context.leads_scope ht i.position
  exact ((Context.nested hs x).runs_chosen_iff hleads).symm

namespace GroupOf

variable {c : Context} (hs : c.model.Sound) {x : Method} {K : Path} {g : Group}
  (hg : GroupOf c x K g)
include hs hg

/-- A group has the value of a reply where it reaches the call that is answered. -/
theorem stubs_value_iff {j : Interaction} (hj : j ∈ c.model.interactions)
    (hjx : j.method = x.call) {b : Binding} (hb : j.reply = some b) :
    (∃ s ∈ g.stubs, s.valueId = some b.valueId) ↔ c.Reaches x K j.scope := by
  rw [Context.reaches_iff hs hj hjx]
  constructor
  · rintro ⟨s, hsg, hv⟩
    obtain ⟨k, hk, -, hruns, -, hks⟩ := hg.stub_of_mem hsg
    rw [hks.valueId, Option.map_eq_some_iff] at hv
    obtain ⟨b', hb', hv⟩ := hv
    obtain rfl := hs.eq_of_valueId hk hj hb' hb hv
    exact hruns
  · intro hruns
    have hmem : j ∈ c.model.interactionsOf x.call := List.mem_filter.2 ⟨hj, by simp [hjx]⟩
    obtain ⟨s, hsg, hjs⟩ := forall₂_left hg.stubs j (List.mem_filter.2
      ⟨List.mem_filter.2 ⟨hmem, hruns⟩, by simp [answers, hb]⟩)
    exact ⟨s, hsg, by rw [hjs.valueId, hb, Option.map_some]⟩

/-- The check of a call finds all values in the group where the group reaches all calls that they
come from. -/
theorem argumentFailures_nil_iff {i : Interaction} (hi : i ∈ c.model.interactions)
    (hix : i.method = x.call) {a : CallCheck} (hia : CallCheckOf c i a) :
    Gate.argumentFailures g a = [] ↔ ∀ arg ∈ i.arguments, ∀ p v, arg.source = .reply p v →
      ∀ j ∈ c.model.interactions, j.index = p → c.Reaches x K j.scope := by
  have hrefs : List.Forall₂ ValueRefOf i.arguments a.arguments :=
    (mapM_ok.1 hia.arguments).imp fun _ _ h => Context.argumentRef_ok h
  have hproduced : ∀ arg ∈ i.arguments, ∀ p v, arg.source = .reply p v →
      ((∃ s ∈ g.stubs, s.valueId = some v) ↔
        ∀ j ∈ c.model.interactions, j.index = p → c.Reaches x K j.scope) := by
    intro arg harg p v hsource
    obtain ⟨j, hj, rfl, hjm, b, hb, rfl⟩ := hs.replied i hi arg harg p v hsource
    rw [hg.stubs_value_iff hs hj (hjm.trans hix) hb]
    constructor
    · intro hreach k hk hkj
      obtain rfl := List.inj_on_of_nodup_map hs.nodup_indexes hk hj hkj
      exact hreach
    · intro hall
      exact hall j hj rfl
  unfold Gate.argumentFailures
  rw [List.filterMap_eq_nil_iff]
  constructor
  · intro hnone arg harg p v hsource
    obtain ⟨r, hr, har⟩ := forall₂_left hrefs arg harg
    obtain ⟨hstub, hv⟩ := har.value p v hsource
    rw [← hproduced arg harg p v hsource]
    simpa [hstub, hv] using hnone r hr
  · intro hall r hr
    obtain ⟨arg, harg, har⟩ := forall₂_right hrefs r hr
    by_cases hstub : r.source = .stub
    · obtain ⟨p, v, hsource⟩ := har.stub hstub
      have hv := (har.value p v hsource).2
      have hsome := (hproduced arg harg p v hsource).2 (hall arg harg p v hsource)
      simpa [hstub, hv] using hsome
    · simp [hstub]

theorem callChecks_pairwise : g.callChecks.Pairwise fun a b => a.sequence < b.sequence := by
  refine forall₂_pairwise hg.calls (S := fun i j : Interaction => i.position < j.position)
    (hs.ordered.sublist (List.filter_sublist.trans List.filter_sublist)) ?_
  intro i j a b hij hia hjb
  rw [hia.sequence, hjb.sequence]
  omega

end GroupOf

end Lifeline.Tests

namespace Lifeline.Gate

open Tests (Group CallCheck)

/-- Where the checks of a group stand in order, only their arguments can fail. -/
theorem orderFailures_eq {g : Group} : ∀ {checks : List CallCheck} {previous : Int},
    checks.Pairwise (fun a b => a.sequence < b.sequence) →
      (∀ a ∈ checks, previous < a.sequence) →
        orderFailures g previous checks = checks.flatMap (argumentFailures g)
  | [], _, _, _ => rfl
  | a :: checks, previous, hs, hp => by
    obtain ⟨ha, hs⟩ := List.pairwise_cons.1 hs
    have hlt := hp a (.head _)
    rw [orderFailures, if_neg (by omega), List.nil_append, orderFailures_eq hs ha,
      List.flatMap_cons]

end Lifeline.Gate

namespace Lifeline.Tests

open Model

namespace TreeOf

variable {c : Context} {t : Tree} (h : TreeOf c t)
include h

theorem lastCheck?_of_call {i : Interaction} (hi : i ∈ c.model.interactions) {a : CallCheck}
    (ha : Gate.lastCheck? t i.index = some a) : CallCheckOf c i a := by
  have hcall : a.call = i.index := by simpa using List.find?_some ha
  obtain ⟨g, hg, hag⟩ :=
    List.mem_flatMap.1 (List.mem_reverse.1 (List.mem_of_find?_eq_some ha))
  obtain ⟨x, -, P, -, hgx⟩ := h.group_of_mem hg
  obtain ⟨j, hj, -, hja⟩ := hgx.call_of_mem hag
  have hj' := (List.mem_filter.1 hj).1
  obtain rfl := List.inj_on_of_nodup_map h.sound.nodup_indexes hj' hi (hja.call.symm.trans hcall)
  exact hja

theorem pipeFailures_nil : Gate.pipeFailures t c.model = [] := by
  unfold Gate.pipeFailures
  rw [List.filterMap_eq_nil_iff]
  intro q hq
  obtain ⟨i, hi, arg, harg, hsource, hconsumer, hname⟩ := (h.sound.pipes q).1 hq
  cases ha : Gate.lastCheck? t q.consumer with
  | none => rfl
  | some a =>
    have hia := h.lastCheck?_of_call hi (hconsumer ▸ ha)
    obtain ⟨r, hr, hargr⟩ := forall₂_left (mapM_ok.1 hia.arguments) arg harg
    have href := Context.argumentRef_ok hargr
    refine if_pos (List.any_eq_true.2 ⟨r, hr, ?_⟩)
    simp [href.text, hname, (href.value _ _ hsource).2]

theorem positionFailures_nil : Gate.positionFailures t c.model = [] := by
  unfold Gate.positionFailures
  rw [List.filterMap_eq_nil_iff]
  intro i hi
  cases ha : Gate.lastCheck? t i.index with
  | none => rfl
  | some a => exact if_pos (by simp [(h.lastCheck?_of_call hi ha).sequence])

/-- **Data flow** fails only where a group does not reach a call whose value it takes. -/
theorem dataFlow_nil_iff : Gate.dataFlow t c.model = [] ↔
    ∀ q ∈ c.model.pipes, ∀ i ∈ c.model.interactions, ∀ j ∈ c.model.interactions,
      i.index = q.consumer → j.index = q.producer →
        ∀ x ∈ c.model.methods, x.call = i.method → c.Reaches x i.scope.path j.scope := by
  have horder : ∀ g ∈ t.groups,
      Gate.orderFailures g (-1) g.callChecks = g.callChecks.flatMap (Gate.argumentFailures g) := by
    intro g hg
    obtain ⟨x, -, P, -, hgx⟩ := h.group_of_mem hg
    refine Gate.orderFailures_eq (hgx.callChecks_pairwise h.sound) fun a ha => ?_
    obtain ⟨i, -, -, hia⟩ := hgx.call_of_mem ha
    rw [hia.sequence]
    omega
  rw [Gate.dataFlow, h.pipeFailures_nil, h.positionFailures_nil, List.append_nil, List.append_nil,
    List.flatMap_eq_nil_iff]
  constructor
  · intro hnil q hq i hi j hj hconsumer hproducer x hx hxi
    obtain ⟨i', hi', arg, harg, hsource, hconsumer', -⟩ := (h.sound.pipes q).1 hq
    obtain rfl := List.inj_on_of_nodup_map h.sound.nodup_indexes hi' hi
      (hconsumer'.trans hconsumer.symm)
    have hmem : i' ∈ c.model.interactionsOf x.call := List.mem_filter.2 ⟨hi, by simp [hxi]⟩
    obtain ⟨g, hg, hgx⟩ := h.exists_group hx (Context.interaction_path h.sound hmem)
    obtain ⟨a, ha, hia⟩ := forall₂_left hgx.calls i' (List.mem_filter.2 ⟨hmem, by simp⟩)
    have hflat := hnil g hg
    rw [horder g hg, List.flatMap_eq_nil_iff] at hflat
    exact (hgx.argumentFailures_nil_iff h.sound hi hxi.symm hia).1 (hflat a ha) arg harg _ _
      hsource j hj hproducer
  · intro hall g hg
    obtain ⟨x, hx, P, -, hgx⟩ := h.group_of_mem hg
    rw [horder g hg, List.flatMap_eq_nil_iff]
    intro a ha
    obtain ⟨i, hi, rfl, hia⟩ := hgx.call_of_mem ha
    obtain ⟨hi, hix⟩ := List.mem_filter.1 hi
    rw [beq_iff_eq] at hix
    rw [hgx.argumentFailures_nil_iff h.sound hi hix hia]
    intro arg harg p v hsource j hj hp
    let q : Pipe := { producer := p, consumer := i.index, argument := arg.name, valueId := v }
    have hq : q ∈ c.model.pipes := (h.sound.pipes q).2 ⟨i, hi, arg, harg, hsource, rfl, rfl⟩
    exact hall q hq i hi j hj rfl hp x hx hix.symm

end TreeOf

end Lifeline.Tests

namespace Lifeline.Gate

open Tests (Context)

section

variable {source : String} {d : Diagram} {o : Model.Options} {m : Model}

/-- **Data flow.** The model of a diagram has a tree of tests. The tree passes the check exactly
where, for each value that flows from the reply to a call into another call, the group of the other
call's path reaches the first one. -/
theorem dataFlow_iff_of_synthesis (hd : Diagram.parse source = .ok d)
    (hm : d.buildModel o = .ok m) :
    (∃ t, m.synthesizeTests m.classify = .ok t) ∧
      ∀ s p t, m.synthesizeTests (m.classify s) p = .ok t →
        let c : Context := { model := m, roles := m.classify s, naming := p.naming }
        (dataFlow t m = [] ↔ ∀ q ∈ m.pipes, ∀ i ∈ m.interactions, ∀ j ∈ m.interactions,
          i.index = q.consumer → j.index = q.producer →
            ∀ x ∈ m.methods, x.call = i.method → c.Reaches x i.scope.path j.scope) := by
  have hs : m.Sound := Model.sound_of_build (Diagram.sound_of_parse hd) hm
  refine ⟨Tests.exists_tests hs {}, fun s p t ht => ?_⟩
  exact (Tests.treeOf_synthesis hs ht).dataFlow_nil_iff

/-- A diagram with a call inside a branch whose reply stands behind the alternative. -/
def lateReply : String :=
  "[-> A : run(x)\nalt [x]\nA -> BClient : ping(x)\nelse\nA -> BRepository : load(x)\nend\n" ++
    "BRepository --> A : v\nA -> CClient : send(v)\n"

/-- The main path takes a value from a call that it is not steered to. -/
theorem dataFlow_lateReply : ∃ x ∈ Stages.of? lateReply,
    (dataFlow x.tests x.model).map (·.message) =
      ["Argument 'v' of c_client.send in 'TestRun' is not produced by a stub of the group"] := by
  unfold lateReply
  rw [Stages.of?_toList, String.toList_append, String.toList_ofList, String.toList_ofList]
  decide +kernel

theorem dataFlow_iff_lateReply : ∃ d m, Diagram.parse lateReply = .ok d ∧ d.buildModel = .ok m ∧
    (∃ t, m.synthesizeTests m.classify = .ok t) ∧
      ∀ s p t, m.synthesizeTests (m.classify s) p = .ok t →
        let c : Context := { model := m, roles := m.classify s, naming := p.naming }
        (dataFlow t m = [] ↔ ∀ q ∈ m.pipes, ∀ i ∈ m.interactions, ∀ j ∈ m.interactions,
          i.index = q.consumer → j.index = q.producer →
            ∀ x ∈ m.methods, x.call = i.method → c.Reaches x i.scope.path j.scope) := by
  obtain ⟨x, hx, -⟩ := dataFlow_lateReply
  obtain ⟨d, hd, hm, -⟩ := Stages.of?_eq_some hx
  exact ⟨d, x.model, hd, hm, dataFlow_iff_of_synthesis hd hm⟩

/-- Not every tree that is synthesized passes the check of data flow. -/
theorem not_dataFlow_lateReply : ¬ ∀ (source : String) (o : Model.Options) (d : Diagram) (m : Model)
    (t : Tests.Tree), Diagram.parse source = .ok d → d.buildModel o = .ok m →
      m.synthesizeTests m.classify = .ok t → dataFlow t m = [] := by
  intro h
  obtain ⟨x, hx, hfailure⟩ := dataFlow_lateReply
  obtain ⟨d, hd, hm, ht, -⟩ := Stages.of?_eq_some hx
  rw [h lateReply {} d x.model x.tests hd hm ht] at hfailure
  cases hfailure

end

end Lifeline.Gate
