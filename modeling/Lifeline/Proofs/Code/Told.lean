import Lifeline.Code.Synthesis
import Lifeline.Proofs.Code.Anchors
import Lifeline.Proofs.Tests.Raises

/-!
# What tests tell of a method

`EventOf a e`: the check `a` tells of the event `e`. The events of a method (`Told`) are those that
its checks tell of, each once, and the starts of branches; they stand on the timeline of the model
(`Stage`), and no result stands in front of one around it.

**`told_of_eventsOf`**: the events that synthesis collects are told, and then settled.
-/

namespace Lifeline.Code

open Model
open Tests (Assertion CallCheck CallCheckOf Case Context Group GroupOf MethodOf MethodTests
  RaiseCheck RaiseCheckOf ResultCheck ResultCheckOf ScopeRef Stub)

/-- The event that a check tells of. A propagated exception is none. -/
inductive EventOf : Assertion → Event → Prop
  | call (a : CallCheck) (binding : Option String) :
      EventOf (.call a) {
        key := .call a.call
        moment := momentOf a.sequence
        scope := a.scope
        statement := some (.call { mock := a.mock, method := a.method, arguments := a.arguments,
                                   binding, sequence := a.sequence }) }
  | result (a : ResultCheck) :
      EventOf (.result a) {
        key := .result a.sequence
        moment := momentOf a.sequence
        scope := a.scope
        statement := some (.return { value := a.expected, sequence := a.sequence }) }
  | raise (a : RaiseCheck) (h : a.propagated = false) :
      EventOf (.raise a) {
        key := .raise a.sequence
        moment := momentOf a.sequence
        scope := a.scope
        statement := some (.raise { exception := a.exception, constant := a.constant,
                                    arguments := a.arguments, sequence := a.sequence }) }

theorem eventOf_ok {naming : NamingRules} {stubs : List Stub} {a : Assertion} {o : Option Event}
    (h : eventOf naming stubs a = .ok o) :
    (o = none ∧ ∃ t, a = .raise t ∧ t.propagated = true) ∨ ∃ e, o = some e ∧ EventOf a e := by
  cases a with
  | call a =>
    rw [eventOf, map_ok] at h
    obtain ⟨e, he, rfl⟩ := h
    unfold callEvent at he
    split at he
    all_goals
      simp only [bind_ok, pure_ok] at he
      obtain ⟨binding, -, rfl⟩ := he
      exact .inr ⟨_, rfl, .call a binding⟩
  | result a =>
    obtain rfl := Except.ok.inj h
    exact .inr ⟨_, rfl, .result a⟩
  | raise t =>
    rw [eventOf] at h
    split at h
    · rename_i hp
      exact .inl ⟨(Except.ok.inj h).symm, t, rfl, hp⟩
    · rename_i hp
      obtain rfl := Except.ok.inj h
      exact .inr ⟨_, rfl, .raise t (by simpa using hp)⟩

/-- Events that one check tells of have the same key. -/
theorem EventOf.key_eq {a : Assertion} {e e' : Event} (h : EventOf a e) (h' : EventOf a e') :
    e.key = e'.key := by
  cases h <;> cases h' <;> rfl

/-! ## Checks on the timeline -/

section

variable {c : Context} (hs : c.model.Sound) {tl : Timeline} (ht : tl.Fits c.model)
  {x : Model.Method} (hx : x ∈ c.model.methods)

include hs ht hx in
/-- What a check tells of stands on the timeline. -/
theorem EventOf.at {mt : MethodTests} (hm : MethodOf c x mt) {a : Assertion} (ha : mt.Asserts a)
    {e : Event} (h : EventOf a e) : ∃ n, e.At c.model tl x.call n := by
  cases h with
  | call a binding =>
    obtain ⟨g, hg, ha⟩ := Tests.asserts_call.1 ha
    obtain ⟨P, -, hgx⟩ := forall₂_right hm.groups g hg
    obtain ⟨i, hi, -, hia⟩ := hgx.call_of_mem ha
    obtain ⟨hi, hm⟩ := List.mem_filter.1 hi
    rw [beq_iff_eq] at hm
    refine ⟨i.position, by simp [momentOf, hia.sequence], ?_, .inl ⟨i, hi, rfl, by rw [hia.call]⟩⟩
    rw [← hm, ← (ht.interaction i hi).2]
    exact hia.scope
  | result a =>
    obtain ⟨g, hg, ha⟩ := Tests.asserts_result.1 ha
    obtain ⟨P, -, hgx⟩ := forall₂_right hm.groups g hg
    obtain ⟨r, hr, -, hra⟩ := hgx.result_of_mem ha
    obtain ⟨hv, hscope⟩ := ht.result x hx r hr
    refine ⟨r.position, by simp [momentOf, hra.sequence], hscope ▸ hra.scope,
      .inr (.inl ⟨by rw [hra.sequence], hv⟩)⟩
  | raise a hp =>
    obtain ⟨g, hg, ha⟩ := Tests.asserts_raise.1 ha
    obtain ⟨P, -, hgx⟩ := forall₂_right hm.groups g hg
    obtain ⟨s, hfirst, hsa⟩ := hgx.raise_of_mem ha
    have hsite := Context.siteOf_mem hs (List.mem_of_find?_eq_some hfirst)
    have hown : s.raisedBy = none := by
      rw [hsa.propagated] at hp
      simpa using hp
    refine ⟨s.sequence, by simp [momentOf, hsa.sequence], hsite.scope_eq ht ▸ hsa.scope,
      .inr (.inr ⟨by rw [hsa.sequence], hsite.happens_own ht hown⟩)⟩

omit hs ht hx in
/-- What a check tells of has the references of the check. -/
theorem EventOf.refers {mt : MethodTests} (hm : MethodOf c x mt) {a : Assertion}
    (ha : mt.Asserts a) {e : Event} (h : EventOf a e) : ∀ r ∈ e.scope, c.Refers r := by
  cases h with
  | call a binding =>
    obtain ⟨g, hg, ha⟩ := Tests.asserts_call.1 ha
    obtain ⟨P, -, hgx⟩ := forall₂_right hm.groups g hg
    obtain ⟨i, -, -, hia⟩ := hgx.call_of_mem ha
    exact Context.refers_of_scopeRefs hia.refs
  | result a =>
    obtain ⟨g, hg, ha⟩ := Tests.asserts_result.1 ha
    obtain ⟨P, -, hgx⟩ := forall₂_right hm.groups g hg
    obtain ⟨r, -, -, hra⟩ := hgx.result_of_mem ha
    exact Context.refers_of_scopeRefs hra.refs
  | raise a hp =>
    obtain ⟨g, hg, ha⟩ := Tests.asserts_raise.1 ha
    obtain ⟨P, -, hgx⟩ := forall₂_right hm.groups g hg
    obtain ⟨s, -, hsa⟩ := hgx.raise_of_mem ha
    exact Context.refers_of_scopeRefs hsa.refs

include hs ht hx in
/-- No result is checked in front of one around it. -/
theorem results_outward {mt : MethodTests} (hm : MethodOf c x mt) :
    (mt.groups.flatMap (·.resultChecks)).Pairwise fun r r' =>
      ¬ choices r'.scope <+: choices r.scope := by
  rw [List.pairwise_flatMap]
  refine ⟨fun g hg => ?_, forall₂_pairwise hm.groups (Context.paths_pairwise hs ht)
    fun P Q g g' hPQ hg hg' r hr r' hr' hpre => hPQ ?_⟩
  · obtain ⟨P, -, hgx⟩ := forall₂_right hm.groups g hg
    have hl := hgx.results_le_one hs hx
    match g.resultChecks, hl with
    | [], _ => exact .nil
    | [_], _ => exact List.pairwise_singleton _ _
  · obtain ⟨m, hmx, rfl, hmr⟩ := hg.result_of_mem hr
    obtain ⟨m', hmx', rfl, hmr'⟩ := hg'.result_of_mem hr'
    have hs1 := (ht.result x hx m hmx).2
    have hs2 := (ht.result x hx m' hmx').2
    rw [choices_of_refs ht (hs2 ▸ hmr'.scope), choices_of_refs ht (hs1 ▸ hmr.scope),
      ht.prefix_iff hs, ← hs1, ← hs2] at hpre
    obtain ⟨S, hS⟩ := hpre
    rw [← hS, Scope.path_append]
    exact List.prefix_append _ _

/-- Results that checks tell of stand outward. -/
theorem EventOf.outward {a a' : Assertion} {e e' : Event} (h : EventOf a e) (h' : EventOf a' e')
    (ho : ∀ r, a = .result r → ∀ r', a' = .result r' → ¬ choices r'.scope <+: choices r.scope)
    (hr : e.key.isResult = true) (hr' : e'.key.isResult = true) :
    ¬ choices e'.scope <+: choices e.scope := by
  cases h with
  | result r =>
    cases h' with
    | result r' => exact ho r rfl r' rfl
    | call | raise => cases hr'
  | call | raise => cases hr

end

/-! ## Events of a method -/

/-- The events of a method before results are settled. -/
structure Told (c : Context) (x : Model.Method) (mt : MethodTests) (tl : Timeline)
    (events : List Event) : Prop extends Stage c.model tl x.call events where
  nodup : (events.map (·.key)).Nodup
  outward : Event.Outward events
  told : ∀ e ∈ events, ((∃ block branch, e.key = .anchor block branch) ∧ e.statement = none) ∨
    ∃ a, mt.Asserts a ∧ EventOf a e
  tells : ∀ a, mt.Asserts a → ∀ e, EventOf a e → ∃ e' ∈ events, e'.key = e.key
  refers : ∀ e ∈ events, ∀ r ∈ e.scope, c.Refers r
  starts : ∀ g ∈ mt.groups, ∀ r ∈ g.path, ∃ e ∈ events, ∃ r' ∈ e.scope,
    r'.kind = .alt ∧ r'.choice = r.choice
  anchored : ∃ base, (∀ e ∈ base, ∃ a, mt.Asserts a ∧ EventOf a e) ∧
    events = Event.addAnchors base (mt.groups.map (·.path))

/-- An event at a position is not the start of a branch. -/
theorem Event.At.key_ne {m : Model} {tl : Timeline} {μ : MethodId} {n : Nat} {e : Event}
    (h : e.At m tl μ n) (block branch : Int) : e.key ≠ .anchor block branch := by
  rcases h.key with ⟨i, -, -, hk⟩ | ⟨hk, -⟩ | ⟨hk, -⟩ <;> simp [hk]

section

variable {naming : NamingRules} {mt : MethodTests} {stubs : List Stub} {told : List Event}
  (htold : (mt.groups.flatMap (·.cases)).filterMapM (fun k => eventOf naming stubs k.assertion) =
    .ok told)
include htold

/-- What synthesis reads from the tests is what they tell of. -/
theorem eventOf_of_mem {e : Event} (he : e ∈ told) : ∃ a, mt.Asserts a ∧ EventOf a e := by
  obtain ⟨k, hk, hke⟩ := (mem_filterMapM htold).1 he
  obtain ⟨g, hg, hk⟩ := List.mem_flatMap.1 hk
  rcases eventOf_ok hke with ⟨hnone, -⟩ | ⟨e', he', hof⟩
  · cases hnone
  · obtain rfl := Option.some.inj he'
    exact ⟨_, ⟨g, hg, k, hk, rfl⟩, hof⟩

/-- What the tests tell of is read from them. -/
theorem mem_of_asserts {a : Assertion} (ha : mt.Asserts a) {e : Event} (he : EventOf a e) :
    ∃ e' ∈ told, e'.key = e.key := by
  obtain ⟨g, hg, k, hk, rfl⟩ := ha
  have hk' : k ∈ mt.groups.flatMap (·.cases) := List.mem_flatMap.2 ⟨g, hg, hk⟩
  obtain ⟨o, ho⟩ := ok_of_filterMapM htold k hk'
  rcases eventOf_ok ho with ⟨-, t, hkt, hp⟩ | ⟨e', rfl, hof⟩
  · rw [hkt] at he
    cases he with
    | raise _ hn => simp [hn] at hp
  · exact ⟨e', (mem_filterMapM htold).2 ⟨k, hk', ho⟩, hof.key_eq he⟩

theorem outward_told (hresults : (mt.groups.flatMap (·.resultChecks)).Pairwise fun r r' =>
    ¬ choices r'.scope <+: choices r.scope) : Event.Outward told := by
  have hfilter : mt.groups.flatMap (·.resultChecks) =
      (mt.groups.flatMap (·.cases)).filterMap Case.result? := by
    rw [List.filterMap_flatMap]
    rfl
  rw [hfilter, List.pairwise_filterMap] at hresults
  refine pairwise_filterMapM htold hresults fun k k' e e' hkk hk hk' => ?_
  rcases eventOf_ok hk with ⟨hnone, -⟩ | ⟨e0, he0, hof0⟩
  · cases hnone
  rcases eventOf_ok hk' with ⟨hnone, -⟩ | ⟨e1, he1, hof1⟩
  · cases hnone
  obtain rfl := Option.some.inj he0
  obtain rfl := Option.some.inj he1
  refine hof0.outward hof1 fun r hr r' hr' => hkk r ?_ r' ?_
  · rw [Case.result?, hr]
  · rw [Case.result?, hr']

end

section

variable {c : Context} (hs : c.model.Sound) {tl : Timeline} (ht : tl.Fits c.model)
  {x : Model.Method} (hx : x ∈ c.model.methods) {mt : MethodTests} (hm : MethodOf c x mt)

/-- The event is the start of a branch on a path of the method, among events that are told. -/
def Starts (c : Context) (x : Model.Method) (base : List Event) (e : Event) : Prop :=
  ∃ P ∈ c.paths x, ∃ y ∈ (P.map c.branchRef).zipIdx,
    e = Event.anchor (Event.surroundings base) (P.map c.branchRef) y

/-- An event at a position does not start a branch. -/
theorem Event.At.not_starts {base : List Event} {n : Nat} {e : Event}
    (h : e.At c.model tl x.call n) : ¬ Starts c x base e := by
  rintro ⟨P, -, y, -, rfl⟩
  exact h.key_ne _ _ rfl

include hm in
/-- What is added to the events that are told starts a branch. -/
theorem mem_addAnchors {base : List Event} {e : Event}
    (he : e ∈ Event.addAnchors base (mt.groups.map (·.path))) : e ∈ base ∨ Starts c x base e := by
  obtain ⟨new, hnew, hsub⟩ := Event.addAll_eq
    (Event.anchors (Event.surroundings base) (mt.groups.map (·.path))) base
  rw [Event.addAnchors_eq, hnew] at he
  refine (List.mem_append.1 he).imp_right fun he => ?_
  obtain ⟨path, hp, he⟩ := List.mem_flatMap.1 (hsub.subset he)
  obtain ⟨g, hg, rfl⟩ := List.mem_map.1 hp
  obtain ⟨P, hP, hgx⟩ := forall₂_right hm.groups g hg
  obtain ⟨y, hy, rfl⟩ := List.mem_map.1 he
  rw [hgx.path] at hy ⊢
  exact ⟨P, hP, y, hy, rfl⟩

/-- The start of a branch refers to blocks of the model where the events that are told do. -/
theorem Starts.refers {base : List Event} (hbase : ∀ e ∈ base, ∀ r ∈ e.scope, c.Refers r)
    {e : Event} (h : Starts c x base e) : ∀ r ∈ e.scope, c.Refers r := by
  obtain ⟨P, -, ⟨r', i⟩, hy, rfl⟩ := h
  have hpath : ∀ r ∈ P.map c.branchRef, c.Refers r := fun r hr => by
    obtain ⟨z, -, rfl⟩ := List.mem_map.1 hr
    exact .branch z
  intro r hr
  rcases List.mem_append.1 hr with hr | hr
  · -- around it are the blocks that an event of its block has, or those of the path
    cases hl : (Event.surroundings base).lookup r'.block with
    | some L =>
      obtain ⟨e, he, j, -, -, -, rfl⟩ := Event.lookup_surroundings hl
      rw [hl] at hr
      exact hbase e he r (List.mem_of_mem_take hr)
    | none =>
      rw [hl] at hr
      exact hpath r (List.mem_of_mem_take hr)
  · rw [List.mem_singleton.1 hr]
    exact hpath r' (List.mem_of_getElem? (List.mk_mem_zipIdx_iff_getElem?.1 hy))

include hm in
/-- Every branch on the path of a group is started. -/
theorem exists_start {base : List Event} (hat : ∀ e ∈ base, ∃ n, e.At c.model tl x.call n)
    {g : Group} (hg : g ∈ mt.groups) {r : ScopeRef} (hr : r ∈ g.path) :
    ∃ e ∈ Event.addAnchors base (mt.groups.map (·.path)), ∃ r' ∈ e.scope,
      r'.kind = .alt ∧ r'.choice = r.choice := by
  obtain ⟨i, hi⟩ := List.getElem?_of_mem hr
  have hstart : Event.anchor (Event.surroundings base) g.path (r, i) ∈
      Event.anchors (Event.surroundings base) (mt.groups.map (·.path)) :=
    List.mem_flatMap.2 ⟨g.path, List.mem_map_of_mem hg,
      List.mem_map_of_mem (List.mk_mem_zipIdx_iff_getElem?.2 hi)⟩
  obtain ⟨e, he, hk⟩ := Event.key_mem_addAll base hstart
  rw [← Event.addAnchors_eq] at he
  refine ⟨e, he, ?_⟩
  rcases mem_addAnchors hm he with he | ⟨P, hP, ⟨r', j⟩, hy, rfl⟩
  · obtain ⟨n, hn⟩ := hat e he
    exact absurd hk (hn.key_ne _ _)
  · obtain ⟨z, -, rfl⟩ := List.mem_map.1
      (List.mem_of_getElem? (List.mk_mem_zipIdx_iff_getElem?.1 hy))
    obtain ⟨hblock, hbranch⟩ := EventKey.anchor.inj hk
    exact ⟨_, List.mem_append_right _ (.head _), rfl, Prod.ext hblock hbranch⟩

include hs ht hx hm

/-- What tests tell of, with the starts of branches added. -/
theorem told_addAnchors {base : List Event}
    (hof : ∀ e ∈ base, ∃ a, mt.Asserts a ∧ EventOf a e) (hn : (base.map (·.key)).Nodup)
    (ho : Event.Outward base)
    (htells : ∀ a, mt.Asserts a → ∀ e, EventOf a e → ∃ e' ∈ base, e'.key = e.key) :
    Told c x mt tl (Event.addAnchors base (mt.groups.map (·.path))) := by
  have hat : ∀ e ∈ base, ∃ n, e.At c.model tl x.call n := fun e he => by
    obtain ⟨a, ha, he⟩ := hof e he
    exact he.at hs ht hx hm ha
  have hrefers : ∀ e ∈ base, ∀ r ∈ e.scope, c.Refers r := fun e he => by
    obtain ⟨a, ha, he⟩ := hof e he
    exact he.refers hm ha
  have hadd := Event.addAnchors_eq base (mt.groups.map (·.path))
  refine ⟨⟨hs, ht, fun e he => ?_⟩, ?_, Event.outward_addAnchors _ ho, fun e he => ?_,
    fun a ha e he => ?_, fun e he => ?_, fun g hg r hr => exists_start hm hat hg hr,
    ⟨base, hof, rfl⟩⟩
  · rcases mem_addAnchors hm he with he | ⟨P, hP, y, hy, rfl⟩
    · exact .inl (hat e he)
    · refine .inr (opens_anchor hs ht hP hat (fun e he n hn => ?_) hy)
      exact (mem_addAnchors hm he).resolve_right hn.not_starts
  · rw [hadd]
    exact Event.nodup_addAll _ hn
  · rcases mem_addAnchors hm he with he | ⟨P, -, y, -, rfl⟩
    · exact .inr (hof e he)
    · exact .inl ⟨⟨_, _, rfl⟩, rfl⟩
  · obtain ⟨e', he', hk⟩ := htells a ha e he
    rw [hadd]
    exact ⟨e', Event.subset_addAll _ _ he', hk⟩
  · rcases mem_addAnchors hm he with he | he
    · exact hrefers e he
    · exact he.refers hrefers

/-- **What synthesis collects** is told, and then settled. -/
theorem told_of_eventsOf {naming : NamingRules} {es : List Event}
    (h : eventsOf naming mt = .ok es) :
    ∃ events, Told c x mt tl events ∧ es = events.map (Event.settled events) := by
  simp only [eventsOf, bind_ok, pure_ok] at h
  obtain ⟨told, htold, rfl⟩ := h
  obtain ⟨base, hbase, hsub⟩ : ∃ base, told.foldl Event.add [] = base ∧ base.Sublist told := by
    obtain ⟨new, hnew, hsub⟩ := Event.addAll_eq told []
    exact ⟨_, hnew, hsub⟩
  have hn : (base.map (·.key)).Nodup := by
    rw [← hbase]
    exact Event.nodup_addAll told .nil
  have ho : Event.Outward base := (outward_told htold (results_outward hs ht hx hm)).sublist hsub
  have hstage := told_addAnchors hs ht hx hm (fun e he => eventOf_of_mem htold (hsub.subset he)) hn
    ho fun a ha e he => by
      obtain ⟨e0, he0, hk⟩ := mem_of_asserts htold ha he
      obtain ⟨e', he', hk'⟩ := Event.key_mem_addAll [] he0
      rw [← hbase]
      exact ⟨e', he', hk'.trans hk⟩
  rw [hbase]
  exact ⟨_, hstage, Event.settleResults_eq hstage.nodup hstage.outward⟩

end

end Lifeline.Code
