import Lifeline.Proofs.Code.Bodies
import Lifeline.Proofs.Code.Runs

/-!
# Where a group stops

What the checks of a method tell of has events (`Told.exists_call`, `Told.exists_result`). A run of
a group stops at the results that the group drives (`Told.stops_result`) and at the first place
where an exception leaves the method (`Told.exists_stop`), and nowhere before
(`Told.stops_cases`).
-/

namespace Lifeline.Tests

open Model

namespace GroupOf

variable {c : Context} {x : Method} {P : Path} {g : Group} (h : GroupOf c x P g)
include h

theorem branchOf_of_mem {tl : Timeline} (ht : tl.Fits c.model) (hP : P ∈ c.paths x)
    {y : Nat × Nat} (hy : y ∈ c.chosen x P) : g.branchOf y.1 = some (y.2 : Int) := by
  have hn : (g.driven.map (·.block)).Nodup := by
    have hc := (Context.nodup_chosen ht hP).map (f := fun n : Nat => (n : Int))
      fun _ _ => Int.ofNat.inj
    rw [h.driven, List.map_map]
    rwa [List.map_map] at hc
  have hf : g.driven.find? (·.block == (c.branchRef y).block) = some (c.branchRef y) :=
    find?_key hn (h.driven ▸ List.mem_map_of_mem hy)
  exact congrArg (Option.map (·.branch)) hf

/-- A group drives the scopes that its branches reach. -/
theorem drives_iff {tl : Timeline} (ht : tl.Fits c.model) (hP : P ∈ c.paths x) {scope : Scope}
    {refs : List ScopeRef} (hr : RefsOf scope refs) :
    g.drives refs = true ↔ runs scope (c.chosen x P) = true := by
  simp only [Group.drives, List.all_eq_true, Bool.or_eq_true, bne_iff_ne, beq_iff_eq]
  constructor
  · refine fun hd => h.runs_of_taken hr fun r hrm hk => ?_
    have hbranch := (hd r hrm).resolve_left fun hn => hn hk
    obtain ⟨z, hz, hzb⟩ := Option.map_eq_some_iff.1 hbranch
    refine List.mem_map.2 ⟨z, List.mem_of_find?_eq_some hz, ?_⟩
    rw [ScopeRef.choice, ScopeRef.choice, hzb, beq_iff_eq.1 (List.find?_some hz :)]
  · intro hruns r hrm
    obtain ⟨f, hf, hfr⟩ := forall₂_right hr r hrm
    cases hk : f.kind with
    | loop => exact .inl fun ha => by cases hk.symm.trans (hfr.kind.symm.trans ha)
    | alt =>
      have hmem := runs_iff.1 hruns _ (Scope.mem_path.2 ⟨f, hf, hk, rfl⟩)
      refine .inr ?_
      rw [hfr.block, hfr.branch hk]
      exact h.branchOf_of_mem ht hP hmem

end GroupOf

end Lifeline.Tests

namespace Lifeline.Code

open Model
open Tests (Assertion CallCheck Context Group GroupOf MethodOf MethodTests RaiseCheck RaiseSite
  ResultCheck)

/-! ## Events of checks -/

namespace Told

variable {c : Context} {x : Model.Method} {mt : MethodTests} {tl : Timeline} {events : List Event}
  (h : Told c x mt tl events) (hm : MethodOf c x mt) (hx : x ∈ c.model.methods)
include h

theorem eq_of_key {e e' : Event} (he : e ∈ events) (he' : e' ∈ events) (hk : e.key = e'.key) :
    e = e' :=
  List.inj_on_of_nodup_map h.nodup he he' hk

theorem eq_of_at {e e' : Event} (he : e ∈ events) (he' : e' ∈ events) {n : Nat}
    (hat : e.At c.model tl x.call n) (hat' : e'.At c.model tl x.call n) : e = e' :=
  h.eq_of_key he he' (h.key_eq hat hat')

/-- What a check tells of has an event of its key, which some check tells of. -/
theorem exists_told {a : Assertion} (ha : mt.Asserts a) {e : Event} (he : EventOf a e) :
    ∃ e' ∈ events, e'.key = e.key ∧ ∃ a', mt.Asserts a' ∧ EventOf a' e' := by
  obtain ⟨e', he', hkey⟩ := h.tells a ha e he
  refine ⟨e', he', hkey, (h.told e' he').resolve_left fun ⟨⟨block, branch, hanchor⟩, _⟩ => ?_⟩
  rw [hkey] at hanchor
  cases he <;> cases hanchor

include hm hx

/-- The event of a call. -/
theorem exists_call {a : CallCheck} (ha : mt.Asserts (.call a)) :
    ∃ e ∈ events, ∃ n : Nat, e.At c.model tl x.call n ∧ a.sequence = n ∧ e.key = .call a.call ∧
      choices e.scope = choices a.scope ∧ ∃ s, e.statement = some (.call s) ∧
        s.meets a = true := by
  obtain ⟨e, he, hkey, a', ha', hof⟩ := h.exists_told ha (.call a none)
  obtain ⟨n, hat⟩ := hof.at h.sound h.fits hx hm ha'
  cases hof with
  | result | raise => cases hkey
  | call a' binding =>
    obtain ⟨g, hg, hga⟩ := Tests.asserts_call.1 ha
    obtain ⟨P, -, hgx⟩ := forall₂_right hm.groups g hg
    obtain ⟨i, hi, -, hia⟩ := hgx.call_of_mem hga
    obtain ⟨g', hg', hga'⟩ := Tests.asserts_call.1 ha'
    obtain ⟨P', -, hgx'⟩ := forall₂_right hm.groups g' hg'
    obtain ⟨i', hi', -, hia'⟩ := hgx'.call_of_mem hga'
    obtain rfl : i' = i := by
      refine List.inj_on_of_nodup_map h.sound.nodup_indexes (List.mem_filter.1 hi').1
        (List.mem_filter.1 hi).1 ?_
      rw [← hia.call, ← hia'.call]
      simpa using hkey
    have hsequence : a'.sequence = a.sequence := hia'.sequence.trans hia.sequence.symm
    have hmoment : 2 * a'.sequence = 2 * (n : Int) := hat.moment
    obtain ⟨hi, him⟩ := List.mem_filter.1 hi
    rw [beq_iff_eq] at him
    have hscope : i'.scope = tl.scopeAt i'.position x.call := him ▸ (h.fits.interaction i' hi).2
    refine ⟨_, he, n, hat, by omega, hkey, ?_, _, rfl, ?_⟩
    · rw [choices_of_refs h.fits (hscope ▸ hia'.scope), choices_of_refs h.fits (hscope ▸ hia.scope)]
    · have hmock := Except.ok.inj (hia'.mock.symm.trans hia.mock)
      have hmethod := Except.ok.inj (hia'.method.symm.trans hia.method)
      have harguments := Except.ok.inj (hia'.arguments.symm.trans hia.arguments)
      simp [CallStatement.meets, hsequence, hmock, hmethod, harguments]

omit h in
theorem result_at (hs : c.model.Sound) (ht : tl.Fits c.model) {r : ResultCheck}
    (hr : mt.Asserts (.result r)) {e : Event} (he : EventOf (.result r) e) :
    ∃ n : Nat, e.At c.model tl x.call n ∧ r.sequence = n ∧ e.scope = r.scope ∧
      e.key.isResult = true := by
  obtain ⟨n, hat⟩ := he.at hs ht hx hm hr
  have hmoment := hat.moment
  cases he
  simp only [momentOf] at hmoment
  exact ⟨n, hat, by omega, rfl, rfl⟩

/-- The event of a result, which no other check tells of. -/
theorem exists_result {r : ResultCheck} (hr : mt.Asserts (.result r)) :
    ∃ e ∈ events, EventOf (.result r) e := by
  obtain ⟨e, he, hkey, a, ha, hof⟩ := h.exists_told hr (.result r)
  obtain ⟨n, hat⟩ := hof.at h.sound h.fits hx hm ha
  obtain ⟨k, hat'⟩ := (EventOf.result r).at h.sound h.fits hx hm hr
  cases hof with
  | call | raise => cases hkey
  | result r' =>
    have hsequence : r'.sequence = r.sequence := by simpa using hkey
    have hn : 2 * r'.sequence = 2 * (n : Int) := hat.moment
    have hk : 2 * r.sequence = 2 * (k : Int) := hat'.moment
    obtain rfl : n = k := by omega
    have hchoices : choices r'.scope = choices r.scope :=
      (choices_of_refs h.fits hat.refs).trans (choices_of_refs h.fits hat'.refs).symm
    have hnodup : ((mt.groups.flatMap (·.resultChecks)).map fun r => choices r.scope).Nodup := by
      refine List.pairwise_map.2 ((results_outward h.sound h.fits hx hm).imp ?_)
      exact fun {r r'} hp he => hp (he ▸ List.prefix_rfl)
    obtain rfl : r' = r := List.inj_on_of_nodup_map hnodup
      (List.mem_flatMap.2 (Tests.asserts_result.1 ha))
      (List.mem_flatMap.2 (Tests.asserts_result.1 hr)) hchoices
    exact ⟨_, he, .result r'⟩

/-- An event that does something is reached, and some check tells of it. -/
theorem told_of_trace {d : Drive} {e : Event} (he : e ∈ events)
    (ht : (e.placedIn events).trace d ≠ {}) : (e.placedIn events).reached d = true ∧
      ∃ a, mt.Asserts a ∧ EventOf a e ∧ ∃ n : Nat, e.At c.model tl x.call n := by
  constructor
  · by_contra hn
    exact ht (trace_of_not_reached (by simpa using hn))
  · rcases h.told e he with ⟨-, hnone⟩ | ⟨a, ha, hof⟩
    · exact absurd (trace_none ((Event.settled_statement events e).trans hnone)) ht
    · exact ⟨a, ha, hof, hof.at h.sound h.fits hx hm ha⟩

/-- A call is made at the event of its position. -/
theorem call_at {d : Drive} {e : Event} (he : e ∈ events) {s : CallStatement}
    (hs : s ∈ ((e.placedIn events).trace d).calls) :
    ∃ n : Nat, e.At c.model tl x.call n ∧ s.sequence = n := by
  obtain ⟨hreached, a, -, hof, n, hat⟩ := h.told_of_trace (d := d) hm hx he fun ht => by
    simp [ht] at hs
  have hmoment := hat.moment
  cases hof with
  | call a binding =>
    rw [trace_call (Event.settled_statement _ _) hreached] at hs
    obtain rfl := List.mem_singleton.1 hs
    simp only [momentOf] at hmoment
    exact ⟨n, hat, by dsimp only; omega⟩
  | result =>
    rw [trace_return (Event.settled_statement _ _) hreached] at hs
    simp at hs
  | raise =>
    rw [trace_raise (Event.settled_statement _ _) hreached] at hs
    simp at hs

/-- A run returns at the event of the result. -/
theorem return_at {d : Drive} {e : Event} (he : e ∈ events) {s : ReturnStatement}
    (hs : ((e.placedIn events).trace d).ending = .returned s) :
    ∃ n : Nat, e.At c.model tl x.call n ∧ s.sequence = n := by
  obtain ⟨hreached, a, -, hof, n, hat⟩ := h.told_of_trace (d := d) hm hx he fun ht => by
    simp [ht] at hs
  have hmoment := hat.moment
  cases hof with
  | call a binding =>
    rw [trace_call (Event.settled_statement _ _) hreached] at hs
    dsimp only at hs
    split at hs <;> cases hs
  | result =>
    rw [trace_return (Event.settled_statement _ _) hreached] at hs
    obtain rfl := Ending.returned.inj hs
    simp only [momentOf] at hmoment
    exact ⟨n, hat, by dsimp only; omega⟩
  | raise =>
    rw [trace_raise (Event.settled_statement _ _) hreached] at hs
    cases hs

/-! ## Where a group stops -/

variable {P : Path} (hP : P ∈ c.paths x) {g : Group} (hg : GroupOf c x P g)
include hP hg

omit hm hx in
/-- Events at a position are reached as the scope there is. -/
theorem reached_iff {e : Event} {n : Nat} (hat : e.At c.model tl x.call n) :
    (e.placedIn events).reached g.drive = true ↔
      Tests.runs (tl.scopeAt n x.call) (c.chosen x P) = true :=
  hg.drives_iff h.fits hP hat.refs

omit hm hx in
theorem reached_of_runs {s : RaiseSite} (hs : s ∈ c.raiseSites x)
    (hruns : Tests.runs s.scope (c.chosen x P) = true) {e : Event} {n : Nat}
    (hat : e.At c.model tl x.call n) (hn : s.sequence = n) :
    (e.placedIn events).reached g.drive = true := by
  have hsite := Context.siteOf_mem h.sound hs
  rw [h.reached_iff hP hg hat, ← hn, ← hsite.scope_eq h.fits]
  exact hruns

/-- A run of a group stops at results that it drives, and where a raise stands that it reaches. -/
theorem stops_cases {e : Event} (he : e ∈ events) (hstop : (e.placedIn events).Stops g.drive) :
    (∃ r, mt.Asserts (.result r) ∧ EventOf (.result r) e ∧ g.drives r.scope = true) ∨
      ∃ n, e.At c.model tl x.call n ∧ e.key.isResult = false ∧
        ∃ s, c.firstSite x P = some s ∧ s.sequence ≤ n := by
  obtain ⟨hreached, a, ha, hof, n, hat⟩ := h.told_of_trace hm hx he fun ht => hstop (by rw [ht])
  have hruns := (h.reached_iff hP hg hat).1 hreached
  cases hof with
  | result r => exact .inl ⟨r, ha, .result r, hreached⟩
  | call a binding =>
    refine .inr ⟨n, hat, rfl, ?_⟩
    have hraises : g.drive.raises a.sequence = true := by
      by_contra hn
      exact hstop (by
        rw [trace_call (Event.settled_statement _ _) hreached]
        simp [hn])
    obtain ⟨st, hst, hraise⟩ := List.any_eq_true.1 hraises
    rw [Bool.and_eq_true, beq_iff_eq] at hraise
    obtain ⟨i, hi, hmethod, hir, -, hist⟩ := hg.stub_of_mem hst
    rw [hist.raises, Context.raisedAt_isSome] at hraise
    obtain ⟨hsequence, s, hs, hby⟩ := hraise
    have hn : 2 * a.sequence = 2 * (n : Int) := hat.moment
    obtain ⟨hscope, hposition⟩ : s.scope = i.scope ∧ s.sequence = n := by
      cases Context.siteOf_mem h.sound hs with
      | own => cases hby
      | @passed t j hj =>
        obtain rfl : j = i := List.inj_on_of_nodup_map h.sound.nodup_indexes
          (List.mem_filter.1 hj).1 hi (Option.some.inj hby)
        have := hist.sequence
        exact ⟨rfl, by dsimp only; omega⟩
    obtain ⟨first, hfirst, hle⟩ := Context.exists_firstSite hs (by rw [hscope]; exact hir)
    exact ⟨first, hfirst, hposition ▸ hle⟩
  | raise t hp =>
    refine .inr ⟨n, hat, rfl, ?_⟩
    obtain ⟨g', hg', ht⟩ := Tests.asserts_raise.1 ha
    obtain ⟨P', -, hgx'⟩ := forall₂_right hm.groups g' hg'
    obtain ⟨s, hs, hst⟩ := hgx'.raise_of_mem ht
    have hs := List.mem_of_find?_eq_some hs
    have hn : 2 * t.sequence = 2 * (n : Int) := hat.moment
    have hposition : s.sequence = n := by
      have := hst.sequence
      omega
    obtain ⟨first, hfirst, hle⟩ := Context.exists_firstSite hs (by
      rw [(Context.siteOf_mem h.sound hs).scope_eq h.fits, hposition]
      exact hruns)
    exact ⟨first, hfirst, hposition ▸ hle⟩

omit h hm hx hP hg in
theorem stops_of_trace {d : Drive} {e : Event} {t : Trace} (ht : (e.placedIn events).trace d = t)
    (hne : t.ending ≠ .finished) : (e.placedIn events).Stops d := by
  rw [Placed.Stops, ht]
  exact hne

omit h hm hx hP hg in
/-- A run of a group stops at every result that it drives. -/
theorem stops_result {g : Group} {r : ResultCheck} {e : Event} (he : EventOf (.result r) e)
    (hd : g.drives r.scope = true) : (e.placedIn events).Stops g.drive := by
  obtain ⟨hscope, hstatement⟩ : e.scope = r.scope ∧
      e.statement = some (.return { value := r.expected, sequence := r.sequence }) := by
    cases he
    exact ⟨rfl, rfl⟩
  have hreached : (e.placedIn events).reached g.drive = true := by
    rw [← hscope] at hd
    exact hd
  have ht := trace_return ((Event.settled_statement events e).trans hstatement) hreached
  exact stops_of_trace ht (by simp)

/-- A run of a group stops where the raise stands that the group checks. -/
theorem exists_stop {t : RaiseCheck} (hgm : g ∈ mt.groups) (ht : t ∈ g.raiseChecks) :
    ∃ e ∈ events, ∃ n : Nat, e.At c.model tl x.call n ∧ t.sequence = n ∧
      e.key.isResult = false ∧ (e.placedIn events).Stops g.drive := by
  obtain ⟨s, hfirst, hst⟩ := hg.raise_of_mem ht
  have hs := List.mem_of_find?_eq_some hfirst
  have hruns : Tests.runs s.scope (c.chosen x P) = true := by simpa using List.find?_some hfirst
  cases hsite : s.raisedBy with
  | none =>
    have hp : t.propagated = false := by rw [hst.propagated, hsite]; rfl
    obtain ⟨e, he, hkey, a, ha, hof⟩ :=
      h.exists_told (Tests.asserts_raise.2 ⟨g, hgm, ht⟩) (.raise t hp)
    obtain ⟨n, hat⟩ := hof.at h.sound h.fits hx hm ha
    cases hof with
    | call | result => cases hkey
    | raise t' hp' =>
      have hsequence : t'.sequence = t.sequence := by simpa using hkey
      have hn : 2 * t'.sequence = 2 * (n : Int) := hat.moment
      have hposition : s.sequence = n := by
        have := hst.sequence
        omega
      have hreached := h.reached_of_runs hP hg hs hruns hat hposition
      refine ⟨_, he, n, hat, by omega, rfl, stops_of_trace
        (trace_raise (Event.settled_statement _ _) hreached) (by simp)⟩
  | some call =>
    obtain ⟨i, hi, hposition, hscope, hby⟩ : ∃ i ∈ c.model.interactionsOf x.call,
        s.sequence = i.position ∧ s.scope = i.scope ∧ s.raisedBy = some i.index := by
      cases Context.siteOf_mem h.sound hs with
      | own => cases hsite
      | passed hi => exact ⟨_, hi, rfl, rfl, rfl⟩
    -- the call is checked in the group of its path, and its stub raises in this one
    obtain ⟨g', hg', hgx'⟩ := forall₂_left hm.groups _ (Context.interaction_path h.sound hi)
    obtain ⟨a, ha, hia⟩ := forall₂_left hgx'.calls i (List.mem_filter.2 ⟨hi, by simp⟩)
    obtain ⟨e, he, n, hat, hn, hkey, -, st, hstatement, hmeets⟩ :=
      h.exists_call hm hx (Tests.asserts_call.2 ⟨g', hg', ha⟩)
    have hn : s.sequence = n := by
      have := hia.sequence
      omega
    have hreached := h.reached_of_runs hP hg hs hruns hat hn
    have hraised : (Context.raisedAt (c.raiseSites x) i.index).isSome = true :=
      Context.raisedAt_isSome.2 ⟨s, hs, hby⟩
    obtain ⟨stub, hstub, hist⟩ := forall₂_left hg.stubs i (List.mem_filter.2
      ⟨List.mem_filter.2 ⟨hi, hscope ▸ hruns⟩, by simp [Tests.answers, hraised]⟩)
    have hraises : g.drive.raises st.sequence = true := by
      refine List.any_eq_true.2 ⟨stub, hstub, ?_⟩
      rw [Bool.and_eq_true, beq_iff_eq, hist.raises]
      exact ⟨by rw [hist.sequence, CallStatement.sequence_of_meets hmeets, hia.sequence], hraised⟩
    have htrace := trace_call ((Event.settled_statement events e).trans hstatement) hreached
    exact ⟨e, he, n, hat, by rw [hst.sequence, hn], by rw [hkey]; rfl,
      stops_of_trace htrace (by simp [hraises])⟩

end Told

end Lifeline.Code
