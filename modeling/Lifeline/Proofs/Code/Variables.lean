import Lifeline.Proofs.Code.Reads
import Lifeline.Proofs.Code.Ties
import Lifeline.Proofs.Stages

/-!
# Where generated methods read what they know

The events of a method are in good order (`Told.orderly`): references to one branch are the same,
and its branches come one after the other. So a generated method is closed over its parameters
exactly where its tests provide all that it reads (`Provides`, `closed_iff_of_synthesis`).

They need not. A guard becomes a condition on a value that is known anywhere in the method, also
where no call in front of the guard gives it (`not_closed_guardAhead`).
-/

namespace Lifeline.Model.Timeline

/-- Where the blocks are that are around what happens at a position: there, or behind the start of a
branch. -/
def spot (tl : Timeline) (n : Nat) : Nat := if tl.happens n = some .branch then n + 1 else n

theorem spot_mono (tl : Timeline) {n k : Nat} (h : n ≤ k) : tl.spot n ≤ tl.spot k := by
  unfold spot
  rcases Nat.eq_or_lt_of_le h with rfl | hlt
  · exact Nat.le_refl _
  · split <;> split <;> omega

end Lifeline.Model.Timeline

namespace Lifeline.Code

open Model
open Tests (Context MethodTests RefOf)

/-! ## Events in order -/

namespace Told

variable {c : Context} {x : Model.Method} {mt : MethodTests} {tl : Timeline} {events : List Event}
  (h : Told c x mt tl events)
include h

theorem consistent_placed : ∀ p ∈ placed events, ∀ q ∈ placed events, ∀ r ∈ p.scope,
    ∀ r' ∈ q.scope, r.block = r'.block →
      r.kind = r'.kind ∧ (r.kind = .loop ∨ r.branch = r'.branch → r = r') := by
  intro p hp q hq r hr r' hr' hb
  have hk := h.uniform_placed p hp q hq r hr r' hr' hb
  obtain ⟨e, he, rfl⟩ := mem_placed.1 hp
  obtain ⟨e', he', rfl⟩ := mem_placed.1 hq
  exact ⟨hk, (h.refers e he r hr).eq h.sound (h.refers e' he' r' hr') hk hb⟩

theorem spot_at {n : Nat} {e : Event} (hat : e.At c.model tl x.call n) : tl.spot n = n := by
  rw [Timeline.spot, if_neg]
  rcases h.happens_at hat with hh | hh | hh <;> simp [hh]

/-- Where an event stands on the timeline, the frames are that its references name. -/
theorem exists_frames {e : Event} (he : e ∈ events) : ∃ n : Nat, e.moment = 2 * n ∧
    ∀ r ∈ e.scope, ∃ f ∈ tl.scopeAt (tl.spot n) x.call, RefOf f r := by
  rcases h.stands e he with ⟨n, hn⟩ | ⟨n, hn⟩
  · refine ⟨n, hn.moment, ?_⟩
    rw [h.spot_at hn]
    exact forall₂_right hn.refs
  · refine ⟨n, hn.moment, ?_⟩
    rw [Timeline.spot, if_pos hn.happens]
    exact hn.frames

/-- A settled result has the blocks of the event that it has moved behind. -/
theorem exists_frames_settled {e : Event} (he : e ∈ events) : ∃ n : Nat,
    2 * (n : Int) ≤ (Event.settled events e).moment ∧
    (Event.settled events e).moment ≤ 2 * n + 1 ∧
    ∀ r ∈ e.scope, ∃ f ∈ tl.scopeAt (tl.spot n) x.call, RefOf f r := by
  rcases h.settled_cases he with ⟨hstays, -⟩ | ⟨-, -, y, hy, hpre, hm, -⟩
  · obtain ⟨n, hn, hframes⟩ := h.exists_frames he
    exact ⟨n, by rw [hstays]; omega, by rw [hstays]; omega, hframes⟩
  · obtain ⟨n, hn, hframes⟩ := h.exists_frames hy
    refine ⟨n, by omega, by omega, fun r hr => ?_⟩
    obtain ⟨r', hr', hc⟩ := List.mem_map.1 (hpre.subset (List.mem_map_of_mem hr))
    obtain ⟨hb, hbr⟩ := Prod.mk.inj hc
    have heq := (h.consistent_placed _ (mem_placed.2 ⟨y, hy, rfl⟩) _ (mem_placed.2 ⟨e, he, rfl⟩) r'
      hr' r hr hb).2 (.inr hbr)
    exact heq ▸ hframes r' hr'

/-- **The events of a method are in good order.** -/
theorem orderly : Orderly (placed events) where
  consistent := h.consistent_placed
  plain := h.plain_placed
  ascending := by
    refine (timed_placed events).imp_of_mem fun {p q} hp hq hle r hr r' hr' hb => ?_
    have hk := h.uniform_placed p hp q hq r hr r' hr' hb
    obtain ⟨e, he, rfl⟩ := mem_placed.1 hp
    obtain ⟨e', he', rfl⟩ := mem_placed.1 hq
    obtain ⟨n, hn, -, hframes⟩ := h.exists_frames_settled he
    obtain ⟨n', -, hn', hframes'⟩ := h.exists_frames_settled he'
    obtain ⟨f, hf, hfr⟩ := hframes r hr
    obtain ⟨f', hf', hfr'⟩ := hframes' r' hr'
    have hle : (Event.settled events e).moment ≤ (Event.settled events e').moment := hle
    have hat : tl.spot n ≤ tl.spot n' := tl.spot_mono (by omega)
    have hblock : f.block = f'.block := by
      have h1 := hfr.block
      have h2 := hfr'.block
      omega
    cases hkr : r.kind with
    | loop =>
      -- a loop has no branches
      have h1 := hfr.loop (hfr.kind.symm.trans hkr)
      have h2 := hfr'.loop (hfr'.kind.symm.trans (hk ▸ hkr))
      omega
    | alt =>
      rw [hfr.branch (hfr.kind.symm.trans hkr), hfr'.branch (hfr'.kind.symm.trans (hk ▸ hkr))]
      exact Int.ofNat_le.2 (h.fits.turns hat hf hf' hblock)

end Told

/-! ## Methods of a class -/

/-- Whether the body of a method is closed over its parameters. -/
def Method.closed (x : Method) : Bool := Code.closed x.parameters x.body

/-- Everything that the events of the tests of a method read is at hand. -/
def Provides (naming : NamingRules) (mt : MethodTests) : Prop :=
  ∃ es names, eventsOf naming mt = .ok es ∧ namesOf naming mt = .ok names ∧
    Provided { naming, names } mt.parameters
      ((Event.inOrder es).map fun e => { event := e, scope := e.scope })

/-- The method that is made for tests of a sound model is closed if and only if they provide what it
reads. -/
theorem method_closed {naming : NamingRules} {c : Context} (hs : c.model.Sound) {tl : Timeline}
    (ht : tl.Fits c.model) {x : Model.Method} (hx : x ∈ c.model.methods) {mt : MethodTests}
    (hm : Tests.MethodOf c x mt) {helpers helpers' : Helpers} {made : Method}
    (h : method naming helpers mt = .ok (made, helpers')) :
    made.closed = true ↔ Provides naming mt := by
  obtain ⟨-, hparameters, es, names, hes, hnames, hbody⟩ := method_ok h
  obtain ⟨events, htold, rfl⟩ := told_of_eventsOf hs ht hx hm hes
  have hfold : made.closed = true ↔ Provided { naming, names } mt.parameters (placed events) := by
    rw [Method.closed, hparameters]
    exact closed_of_fold hbody Stage.lt_depth htold.orderly
  rw [hfold]
  constructor
  · intro hprovided
    exact ⟨_, names, hes, hnames, hprovided⟩
  · rintro ⟨es, names', hes', hnames', hprovided⟩
    obtain rfl := Except.ok.inj (hes.symm.trans hes')
    obtain rfl := Except.ok.inj (hnames.symm.trans hnames')
    exact hprovided

/-- **A generated method reads no undefined variable** if and only if the tests that it is made for
provide what they read. -/
theorem closed_iff_of_synthesis {source : String} {d : Diagram} {o : Options} {m : Model}
    {s : LeafSuffixes} {p : Profile} {t : Tests.Tree} {code : Tree}
    (hd : Diagram.parse source = .ok d) (hm : d.buildModel o = .ok m)
    (ht : m.synthesizeTests (m.classify s) p = .ok t) (hc : t.synthesizeCode p = .ok code)
    {cls : Class} (hcls : cls ∈ code.classes) {made : Method} (hmade : made ∈ cls.methods) :
    made.closed = true ↔ ∀ suite ∈ t.suites, suite.subject = cls.subject →
      ∀ mt, suite.methods.find? (·.name == made.name) = some mt → Provides p.naming mt := by
  have hsound : m.Sound := sound_of_build (Diagram.sound_of_parse hd) hm
  have htree := Tests.treeOf_synthesis hsound ht
  simp only [Tests.Tree.synthesizeCode, bind_ok, pure_ok] at hc
  obtain ⟨classes, hclasses, rfl⟩ := hc
  obtain ⟨suite, hsuite, hof⟩ := forall₂_right (mapM_ok.1 hclasses) cls hcls
  -- the class is made for this suite only
  have honly : ∀ other ∈ t.suites, other.subject = cls.subject → other = suite := fun other ho he =>
    List.inj_on_of_nodup_map htree.nodup_subjects ho hsuite (he.trans (classOf_subject hof))
  rcases classOf_made hof hmade with ⟨mt, hfirst, helpers, helpers', hmethod⟩ | ⟨hnone, hbody⟩
  · obtain ⟨x, hx, hmx⟩ := htree.tests_of_mem hsuite (List.mem_of_find?_eq_some hfirst)
    obtain ⟨tl, htl⟩ := hsound.timeline
    rw [method_closed hsound htl hx hmx hmethod]
    constructor
    · intro hprovides other ho he mt' hfirst'
      obtain rfl := honly other ho he
      exact Option.some.inj (hfirst.symm.trans hfirst') ▸ hprovides
    · intro hall
      exact hall suite hsuite (classOf_subject hof).symm mt hfirst
  · -- a method that is only called on the class has an empty body
    have hclosed : made.closed = true := by
      rw [Method.closed, hbody]
      rfl
    refine iff_of_true hclosed fun other ho he mt hfirst => ?_
    obtain rfl := honly other ho he
    rw [hnone] at hfirst
    cases hfirst

/-! ## Guards on values -/

/-- A diagram with a guard on a value that is given in front of it. -/
def guardBehind : String :=
  "[-> A : run(x)\nA -> BRepository : load(x)\nBRepository --> A : v\nalt [v]\n" ++
    "A -> CClient : ping(v)\nend\n"

/-- A diagram with a guard on a value that is given inside the branch. -/
def guardAhead : String :=
  "[-> A : run(x)\nA -> CClient : ping(x)\nalt [v]\nA -> BRepository : load(x)\n" ++
    "BRepository --> A : v\nend\n"

theorem of?_guardBehind : ∃ x ∈ Stages.of? guardBehind, ∃ cls ∈ x.code.classes,
    ∃ made ∈ cls.methods, made.body ≠ [] ∧ made.closed = true := by
  unfold guardBehind
  rw [Stages.of?_toList, String.toList_append, String.toList_ofList, String.toList_ofList]
  decide +kernel

/-- The gate passes, but the condition reads the value before the call that gives it. -/
theorem of?_guardAhead : ∃ x ∈ Stages.of? guardAhead, (Gate.run x.tests x.model).passed = true ∧
    ∃ cls ∈ x.code.classes, ∃ made ∈ cls.methods, made.closed = false := by
  unfold guardAhead
  rw [Stages.of?_toList, String.toList_append, String.toList_ofList, String.toList_ofList]
  decide +kernel

theorem closed_iff_guards :
    (∃ x ∈ Stages.of? guardBehind, ∃ cls ∈ x.code.classes, ∃ made ∈ cls.methods,
      made.body ≠ [] ∧ made.closed = true ∧
        ∀ suite ∈ x.tests.suites, suite.subject = cls.subject →
          ∀ mt, suite.methods.find? (·.name == made.name) = some mt →
            Provides Profile.builtin.naming mt) ∧
    ∃ x ∈ Stages.of? guardAhead, ∃ cls ∈ x.code.classes, ∃ made ∈ cls.methods,
      made.closed = false ∧
        ¬ ∀ suite ∈ x.tests.suites, suite.subject = cls.subject →
          ∀ mt, suite.methods.find? (·.name == made.name) = some mt →
            Provides Profile.builtin.naming mt := by
  constructor
  · obtain ⟨x, hx, cls, hcls, made, hmade, hbody, hclosed⟩ := of?_guardBehind
    obtain ⟨d, hd, hm, ht, hc⟩ := Stages.of?_eq_some hx
    exact ⟨x, hx, cls, hcls, made, hmade, hbody, hclosed,
      (closed_iff_of_synthesis hd hm ht hc hcls hmade).1 hclosed⟩
  · obtain ⟨x, hx, -, cls, hcls, made, hmade, hopen⟩ := of?_guardAhead
    obtain ⟨d, hd, hm, ht, hc⟩ := Stages.of?_eq_some hx
    refine ⟨x, hx, cls, hcls, made, hmade, hopen, fun hall => ?_⟩
    rw [(closed_iff_of_synthesis hd hm ht hc hcls hmade).2 hall] at hopen
    cases hopen

/-- Generated methods are not always closed, also where the gate passes. -/
theorem not_closed_guardAhead : ¬ ∀ (source : String) (d : Diagram) (o : Options) (m : Model)
    (t : Tests.Tree) (code : Tree), Diagram.parse source = .ok d → d.buildModel o = .ok m →
      m.synthesizeTests (m.classify {}) .builtin = .ok t → (Gate.run t m).passed = true →
        t.synthesizeCode .builtin = .ok code →
          ∀ cls ∈ code.classes, ∀ made ∈ cls.methods, made.closed = true := by
  intro hall
  obtain ⟨x, hx, hgate, cls, hcls, made, hmade, hopen⟩ := of?_guardAhead
  obtain ⟨d, hd, hm, ht, hc⟩ := Stages.of?_eq_some hx
  rw [hall _ d _ _ _ _ hd hm ht hgate hc cls hcls made hmade] at hopen
  cases hopen

end Lifeline.Code
