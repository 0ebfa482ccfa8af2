import Lifeline.Proofs.Code.Reach
import Lifeline.Proofs.Stages

/-!
# Checks of the generated code

What the methods that are generated for the tests of a diagram do when the groups of these tests
drive them.

* **`makes_iff_of_synthesis`**: a group gets to a call that it checks exactly where no raise that it
  checks stands before the call, and every result that it drives stands behind the call or lies
  around it.
* **`returns_iff_of_synthesis`**: a group gets to the result that it checks exactly where every
  other result that it drives lies around it, or stands behind it and not inside.
-/

namespace Lifeline.Code

open Model
open Tests (CallCheck Context Group GroupOf MethodOf MethodTests ResultCheck Suite)

section

variable {c : Context} {x : Model.Method} {mt : MethodTests} {tl : Timeline} {events : List Event}
  (h : Told c x mt tl events) (hm : MethodOf c x mt) (hx : x ∈ c.model.methods)
  {P : Path} (hP : P ∈ c.paths x) {g : Group} (hgm : g ∈ mt.groups) (hg : GroupOf c x P g)
  {k : Knowledge} {body : List Statement}
  (hb : Yields (fold k (events.map (Event.settled events))) body)
include h hm hx hP hgm hg hb

theorem Told.makes_iff {a : CallCheck} (ha : a ∈ g.callChecks) :
    (driveAll g.drive body).makes a = true ↔ (∀ t ∈ g.raiseChecks, a.sequence ≤ t.sequence) ∧
      ∀ r, mt.Asserts (.result r) → g.drives r.scope = true →
        a.sequence < r.sequence ∨ choices r.scope <+: choices a.scope := by
  obtain ⟨e, he, n, hat, hn, hkey, hchoices, s, hs, hmeets⟩ :=
    h.exists_call hm hx (Tests.asserts_call.2 ⟨g, hgm, ha⟩)
  have hreached : (e.placedIn events).reached g.drive = true := by
    obtain ⟨i, hi, hpath, hia⟩ := hg.call_of_mem ha
    obtain ⟨hi, hmethod⟩ := List.mem_filter.1 hi
    rw [beq_iff_eq] at hmethod
    have hpos : i.position = n := by
      have := hia.sequence
      omega
    rw [h.reached_iff hP hg hat, ← hpos, ← hmethod, ← (h.fits.interaction i hi).2]
    exact Context.runs_chosen hpath
  have htrace := trace_call ((Event.settled_statement events e).trans hs) hreached
  rw [h.drive_body hb, Trace.makes, List.any_eq_true, hn, ← hchoices,
    ← h.unstopped_call hm hx hP hgm hg he hat (by rw [hkey]; rfl)]
  refine called_iff (List.Nodup.of_map _ (nodup_placed h.nodup)) (Told.mem_of_placed he)
    ⟨s, by simp [htrace], hmeets⟩ fun q hq s' hs' hmeets' => ?_
  obtain ⟨y, hy, rfl⟩ := mem_placed.1 hq
  obtain ⟨j, hyat, hj⟩ := h.call_at hm hx hy hs'
  have hsequence := CallStatement.sequence_of_meets hmeets'
  obtain rfl : j = n := by omega
  rw [h.eq_of_at hy he hyat hat]

theorem Told.returns_iff {a : ResultCheck} (ha : a ∈ g.resultChecks) :
    (driveAll g.drive body).ending = .returned { value := a.expected, sequence := a.sequence } ↔
      ∀ r, mt.Asserts (.result r) → g.drives r.scope = true → r.sequence ≠ a.sequence →
        choices r.scope <+: choices a.scope ∨
          (a.sequence < r.sequence ∧ ¬ choices a.scope <+: choices r.scope) := by
  have hasserts : mt.Asserts (.result a) := Tests.asserts_result.2 ⟨g, hgm, ha⟩
  obtain ⟨e, he, hof⟩ := h.exists_result hm hx hasserts
  obtain ⟨n, hat, hn, hscope, -⟩ := Told.result_at hm hx h.sound h.fits hasserts hof
  obtain ⟨r, hr, hpath, hra⟩ := hg.result_of_mem ha
  have hnone : c.firstSite x P = none := by
    by_contra hsome
    have hl := hg.results.length_eq
    rw [if_pos (Option.isSome_iff_ne_none.2 hsome)] at hl
    have := List.length_pos_of_mem ha
    simp only [List.length_nil] at hl
    omega
  have hreached : (e.placedIn events).reached g.drive = true := by
    have hpos : r.position = n := by
      have := hra.sequence
      omega
    rw [h.reached_iff hP hg hat, ← hpos, ← (h.fits.result x hx r hr).2]
    exact Context.runs_chosen hpath
  have hstatement : e.statement =
      some (.return { value := a.expected, sequence := a.sequence }) := by
    cases hof
    rfl
  have htrace := trace_return ((Event.settled_statement events e).trans hstatement) hreached
  rw [h.drive_body hb, ← h.unstopped_result hm hx hP hg hb hnone hasserts he hof]
  refine ending_iff (List.Nodup.of_map _ (nodup_placed h.nodup)) (Told.mem_of_placed he) (by simp)
    (by rw [htrace]) fun q hq hend => ?_
  obtain ⟨y, hy, rfl⟩ := mem_placed.1 hq
  obtain ⟨j, hyat, hj⟩ := h.return_at hm hx hy hend
  obtain rfl : j = n := by
    dsimp only at hj
    omega
  rw [h.eq_of_at hy he hyat hat]

end

section

variable {source : String} {d : Diagram} {o : Options} {m : Model} {s : LeafSuffixes} {p : Profile}
  {t : Tests.Tree} {code : Tree} (hd : Diagram.parse source = .ok d) (hm : d.buildModel o = .ok m)
  (ht : m.synthesizeTests (m.classify s) p = .ok t) (hc : t.synthesizeCode p = .ok code)
  {suite : Suite} (hs : suite ∈ t.suites) (hn : (suite.methods.map (·.name)).Nodup)
  {mt : MethodTests} (hmt : mt ∈ suite.methods)
include hd hm ht hc hs hn hmt

/-- The method that is generated for the tests of a method is made of what they tell. -/
theorem exists_told_body : ∃ body, code.body? suite.subject mt.name = some body ∧
    ∃ (c : Context) (x : Model.Method) (tl : Timeline) (events : List Event) (k : Knowledge),
      Told c x mt tl events ∧ MethodOf c x mt ∧ x ∈ c.model.methods ∧
        Yields (fold k (events.map (Event.settled events))) body := by
  obtain ⟨body, hbody, c, x, tl, events, k, -, hrest⟩ :=
    exists_first_body hd hm ht hc hs (find?_key hn hmt)
  exact ⟨body, hbody, c, x, tl, events, k, hrest⟩

variable {g : Group} (hg : g ∈ mt.groups)
include hg

/-- **Calls that are checked.** A run of a group makes a call that the group checks exactly where no
raise that it checks stands before the call, and every result that it drives stands behind the call
or lies around it. -/
theorem makes_iff_of_synthesis {a : CallCheck} (ha : a ∈ g.callChecks) :
    ∃ body, code.body? suite.subject mt.name = some body ∧
      ((driveAll g.drive body).makes a = true ↔
        (∀ raise ∈ g.raiseChecks, a.sequence ≤ raise.sequence) ∧
        ∀ g' ∈ mt.groups, ∀ r ∈ g'.resultChecks, g.drives r.scope = true →
          a.sequence < r.sequence ∨ choices r.scope <+: choices a.scope) := by
  obtain ⟨body, hbody, c, x, tl, events, k, htold, hmx, hx, hy⟩ :=
    exists_told_body hd hm ht hc hs hn hmt
  obtain ⟨P, hP, hgx⟩ := forall₂_right hmx.groups g hg
  refine ⟨body, hbody, (htold.makes_iff hmx hx hP hg hgx hy ha).trans (and_congr_right fun _ => ?_)⟩
  exact ⟨fun h g' hg' r hr => h r (Tests.asserts_result.2 ⟨g', hg', hr⟩), fun h r hr =>
    let ⟨g', hg', hr⟩ := Tests.asserts_result.1 hr
    h g' hg' r hr⟩

omit hd hm ht hc hs hn hmt hg in
theorem makes_iff_earlyResult : ∃ d m t code,
    Diagram.parse Stages.earlyResult = .ok d ∧ d.buildModel = .ok m ∧
      m.synthesizeTests m.classify = .ok t ∧ t.synthesizeCode = .ok code ∧
        ∃ suite ∈ t.suites, (suite.methods.map (·.name)).Nodup ∧ ∃ mt ∈ suite.methods,
          ∃ g ∈ mt.groups, ∃ a ∈ g.callChecks,
            ∃ body, code.body? suite.subject mt.name = some body ∧
              ((driveAll g.drive body).makes a = true ↔
                (∀ raise ∈ g.raiseChecks, a.sequence ≤ raise.sequence) ∧
                ∀ g' ∈ mt.groups, ∀ r ∈ g'.resultChecks, g.drives r.scope = true →
                  a.sequence < r.sequence ∨ choices r.scope <+: choices a.scope) := by
  obtain ⟨x, hx, -, suite, hs, hn, mt, hmt, -, -, g, hg, -, ⟨a, ha, -⟩, -⟩ := Stages.of?_earlyResult
  obtain ⟨d, hd, hm, ht, hc⟩ := Stages.of?_eq_some hx
  exact ⟨d, x.model, x.tests, x.code, hd, hm, ht, hc, suite, hs, hn, mt, hmt, g, hg, a, ha,
    makes_iff_of_synthesis hd hm ht hc hs hn hmt hg ha⟩

omit hd hm ht hc hs hn hmt hg in
/-- Not every call that a group checks is made in its run. -/
theorem not_makes_earlyResult : ¬ ∀ (source : String) (o : Options) (d : Diagram) (m : Model)
    (t : Tests.Tree) (code : Tree), Diagram.parse source = .ok d → d.buildModel o = .ok m →
      m.synthesizeTests m.classify = .ok t → (Gate.run t m).passed = true →
        t.synthesizeCode = .ok code → ∀ suite ∈ t.suites, (suite.methods.map (·.name)).Nodup →
          ∀ mt ∈ suite.methods, ∀ body, code.body? suite.subject mt.name = some body →
            ∀ g ∈ mt.groups, ∀ a ∈ g.callChecks, (driveAll g.drive body).makes a = true := by
  intro h
  obtain ⟨x, hx, hgate, suite, hs, hn, mt, hmt, body, hbody, g, hg, -, ⟨a, ha, hmakes⟩, -⟩ :=
    Stages.of?_earlyResult
  obtain ⟨d, hd, hm, ht, hc⟩ := Stages.of?_eq_some hx
  have := h _ {} d x.model x.tests x.code hd hm ht hgate hc suite hs hn mt hmt body hbody g hg a ha
  rw [hmakes] at this
  cases this

/-- **Results that are checked.** A run of a group ends at the result that the group checks exactly
where every other result that it drives lies around that result, or stands behind it and not
inside. -/
theorem returns_iff_of_synthesis {a : ResultCheck} (ha : a ∈ g.resultChecks) :
    ∃ body, code.body? suite.subject mt.name = some body ∧
      ((driveAll g.drive body).ending =
          .returned { value := a.expected, sequence := a.sequence } ↔
        ∀ g' ∈ mt.groups, ∀ r ∈ g'.resultChecks, g.drives r.scope = true →
          r.sequence ≠ a.sequence → choices r.scope <+: choices a.scope ∨
            (a.sequence < r.sequence ∧ ¬ choices a.scope <+: choices r.scope)) := by
  obtain ⟨body, hbody, c, x, tl, events, k, htold, hmx, hx, hy⟩ :=
    exists_told_body hd hm ht hc hs hn hmt
  obtain ⟨P, hP, hgx⟩ := forall₂_right hmx.groups g hg
  refine ⟨body, hbody, (htold.returns_iff hmx hx hP hg hgx hy ha).trans ?_⟩
  exact ⟨fun h g' hg' r hr => h r (Tests.asserts_result.2 ⟨g', hg', hr⟩), fun h r hr =>
    let ⟨g', hg', hr⟩ := Tests.asserts_result.1 hr
    h g' hg' r hr⟩

omit hd hm ht hc hs hn hmt hg in
theorem returns_iff_earlyResult : ∃ d m t code,
    Diagram.parse Stages.earlyResult = .ok d ∧ d.buildModel = .ok m ∧
      m.synthesizeTests m.classify = .ok t ∧ t.synthesizeCode = .ok code ∧
        ∃ suite ∈ t.suites, (suite.methods.map (·.name)).Nodup ∧ ∃ mt ∈ suite.methods,
          ∃ g ∈ mt.groups, ∃ a ∈ g.resultChecks,
            ∃ body, code.body? suite.subject mt.name = some body ∧
              ((driveAll g.drive body).ending =
                  .returned { value := a.expected, sequence := a.sequence } ↔
                ∀ g' ∈ mt.groups, ∀ r ∈ g'.resultChecks, g.drives r.scope = true →
                  r.sequence ≠ a.sequence → choices r.scope <+: choices a.scope ∨
                    (a.sequence < r.sequence ∧ ¬ choices a.scope <+: choices r.scope)) := by
  obtain ⟨x, hx, -, suite, hs, hn, mt, hmt, -, -, g, hg, -, -, a, ha, -⟩ := Stages.of?_earlyResult
  obtain ⟨d, hd, hm, ht, hc⟩ := Stages.of?_eq_some hx
  exact ⟨d, x.model, x.tests, x.code, hd, hm, ht, hc, suite, hs, hn, mt, hmt, g, hg, a, ha,
    returns_iff_of_synthesis hd hm ht hc hs hn hmt hg ha⟩

omit hd hm ht hc hs hn hmt hg in
/-- Not every group without an exception ends at the result that it checks. -/
theorem not_returns_earlyResult : ¬ ∀ (source : String) (o : Options) (d : Diagram) (m : Model)
    (t : Tests.Tree) (code : Tree), Diagram.parse source = .ok d → d.buildModel o = .ok m →
      m.synthesizeTests m.classify = .ok t → (Gate.run t m).passed = true →
        t.synthesizeCode = .ok code → ∀ suite ∈ t.suites, (suite.methods.map (·.name)).Nodup →
          ∀ mt ∈ suite.methods, ∀ body, code.body? suite.subject mt.name = some body →
            ∀ g ∈ mt.groups, g.mode = .noException → ∀ a ∈ g.resultChecks,
              (driveAll g.drive body).ending =
                .returned { value := a.expected, sequence := a.sequence } := by
  intro h
  obtain ⟨x, hx, hgate, suite, hs, hn, mt, hmt, body, hbody, g, hg, hmode, -, a, ha, hend⟩ :=
    Stages.of?_earlyResult
  obtain ⟨d, hd, hm, ht, hc⟩ := Stages.of?_eq_some hx
  exact hend (h _ {} d x.model x.tests x.code hd hm ht hgate hc suite hs hn mt hmt body hbody g hg
    hmode a ha)

end

end Lifeline.Code
