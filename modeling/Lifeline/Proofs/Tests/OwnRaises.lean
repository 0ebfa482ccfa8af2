import Lifeline.Proofs.Code.Leaves
import Lifeline.Proofs.Model.Building
import Lifeline.Proofs.Tests.Choices
import Lifeline.Proofs.Tests.Failures

/-!
# The raises of a method

A group ends at the first site that it reaches, so a raise behind another one on every way is never
checked. `Exposed c x t`: under some full choice of branches the method gets to the throw, and to no
other site before. Then the group of the throw's own path ends there (`firstSite_ownSite`): a block
in front of the throw is over when the throw comes, so what the choice takes of it is safe, and
steering takes a safe branch where there is one.

**`raise_checked_iff_of_synthesis`**: the throws that are exposed are checked, and no others.
-/

set_option autoImplicit false

namespace Lifeline.Tests

open Model

/-- The site of a throw in the method that raises it. -/
def ownSite (t : Throw) : RaiseSite :=
  { throw := t, scope := t.scope, sequence := t.position, raisedBy := none }

/-- A choice of branches gets to the site, and to no site before it. -/
structure ReachesFirst (sites : List RaiseSite) (s : RaiseSite) (R : Set (Nat × Nat)) : Prop where
  reaches : Takes R s.scope
  first : ∀ s' ∈ sites, Takes R s'.scope → s.sequence ≤ s'.sequence

/-- Under some full choice of branches the method raises the throw. -/
def Exposed (c : Context) (x : Method) (t : Throw) : Prop :=
  ∃ R, FullChoice (c.blocksOf x) R ∧ ReachesFirst (c.raiseSites x) (ownSite t) R

namespace Context

variable {c : Context} {x : Method}

theorem ownSite_mem {t : Throw} (ht : t ∈ c.model.throws) (hm : t.method = x.call)
    (ho : t.participant = x.owner) : ownSite t ∈ c.raiseSites x := by
  simp only [raiseSites, mem_sortBy, List.mem_flatMap, List.mem_append]
  exact ⟨t, ht, .inl (by simp [hm, ho, ownSite])⟩

variable (hs : c.model.Sound) (hl : c.model.Linear)

include hl in
theorem throw_unique {t t' : Throw} (ht : t ∈ c.model.throws) (ht' : t' ∈ c.model.throws)
    (hp : t.position = t'.position) : t = t' :=
  List.inj_on_of_nodup_map (List.pairwise_map.2 (hl.throws.imp Nat.ne_of_lt)) ht ht' hp

include hs in
/-- The path of a site has a group. -/
theorem site_path {s : RaiseSite} (h : s ∈ c.raiseSites x) : s.scope.path ∈ c.paths x := by
  obtain ⟨tl, ht⟩ := hs.timeline
  have hscope := (siteOf_mem hs h).scope_eq ht
  rw [hscope]
  refine path_mem_paths ht fun hnil => ?_
  simp only [hasMainPath, Bool.or_eq_true, List.any_eq_true]
  exact .inr ⟨s, h, by rw [hscope, hnil]; rfl⟩

include hs hl

/-- At the position of a throw there is no other site of the method. -/
theorem eq_ownSite {t : Throw} (ht : t ∈ c.model.throws) {s : RaiseSite} (h : s ∈ c.raiseSites x)
    (hp : s.sequence = t.position) : s = ownSite t := by
  obtain ⟨tl, hfits, -⟩ := hl.timeline
  cases siteOf_mem hs h with
  | @own t' ht' hm => rw [ownSite, throw_unique hl ht ht' hp.symm]
  | @passed t' i hi =>
    have hcall := (hfits.interaction i (List.mem_filter.1 hi).1).1
    have hp : i.position = t.position := hp
    rw [hp, (hfits.throw t ht).1] at hcall
    cases hcall

/-- A block that a site stands in before another one, and not the other: no later site stands in
it. -/
theorem not_around_later {s s' s'' : RaiseSite} (h : s ∈ c.raiseSites x) (h' : s' ∈ c.raiseSites x)
    (h'' : s'' ∈ c.raiseSites x) (hle : s'.sequence ≤ s.sequence) (hle' : s.sequence ≤ s''.sequence)
    {block : Nat} (hb : block ∈ s'.scope.path.map (·.1)) (hb' : block ∉ s.scope.path.map (·.1)) :
    block ∉ s''.scope.path.map (·.1) := by
  obtain ⟨tl, ht, hunbroken⟩ := hl.timeline
  have hframe : ∀ {z : RaiseSite}, z ∈ c.raiseSites x → block ∈ z.scope.path.map (·.1) →
      ∃ f ∈ tl.scopeAt z.sequence x.call, f.kind = .alt ∧ f.block = block := by
    intro z hz hin
    obtain ⟨y, hy, rfl⟩ := List.mem_map.1 hin
    rw [(siteOf_mem hs hz).scope_eq ht] at hy
    obtain ⟨f, hf, hk, rfl⟩ := Scope.mem_path.1 hy
    exact ⟨f, hf, hk, rfl⟩
  intro hin
  obtain ⟨f, hf, hk, rfl⟩ := hframe h' hb
  obtain ⟨g, hg, -, hgf⟩ := hframe h'' hin
  obtain ⟨f', hf', hff⟩ := hunbroken hle hle' hf hg hgf.symm
  refine hb' (List.mem_map.2 ⟨(f'.block, f'.branch), ?_, hff⟩)
  rw [(siteOf_mem hs h).scope_eq ht]
  exact Scope.mem_path.2 ⟨f', hf', (ht.kind_of_block hs hf' hf hff).trans hk, rfl⟩

/-- A group of the path of a site gets to no site before it, where a full choice gets to none. -/
theorem le_of_reachesFirst {s s' : RaiseSite} (h : s ∈ c.raiseSites x) (h' : s' ∈ c.raiseSites x)
    {R : Set (Nat × Nat)} (hR : FullChoice (c.blocksOf x) R)
    (hfirst : ReachesFirst (c.raiseSites x) s R)
    (hruns : runs s'.scope (c.chosen x s.scope.path) = true) : s.sequence ≤ s'.sequence := by
  have hn := nested hs x
  have hK : Leads (c.blocksOf x) s.scope.path := hn.site s h
  rw [← takes_iff_runs] at hruns
  by_cases hin : ∀ y ∈ s'.scope.path, y ∈ s.scope.path
  · exact hfirst.first s' h' fun y hy => hfirst.reaches y (hin y hy)
  obtain ⟨b, hb, Y, hcut, hX, hopen⟩ := hn.exists_steered h' hruns hin
  by_contra hlt
  -- What the full choice takes of the block is safe: the sites in the block are all before `s`.
  obtain ⟨br, hbr, hk⟩ := hR.one b hb fun z hz => hfirst.reaches z (hX z hz)
  have hsafe : Avoids (c.blocksOf x) (c.raiseSites x) (b.id, br.index) := by
    by_contra hnot
    obtain ⟨s'', hs'', hin'', htakes⟩ :=
      hn.exists_site hR (Bool.not_eq_true _ ▸ hnot) ((hk br.index).2 rfl)
    refine not_around_later hs hl h h' hs'' (by omega) (hfirst.first s'' hs'' htakes) ?_ hopen
      (List.mem_map_of_mem hin'')
    rw [hcut]
    simp
  exact hn.not_takes_of_avoids h' hcut (preferredBranch_avoids ⟨br, hbr, hsafe⟩)
    (hn.not_mem_of_open hK hopen) hruns

variable {t : Throw} (ht : t ∈ c.model.throws) (hm : t.method = x.call)
  (ho : t.participant = x.owner)
include ht hm ho

/-- The group of its own path ends at a throw that is exposed. -/
theorem firstSite_ownSite (h : Exposed c x t) :
    c.firstSite x t.scope.path = some (ownSite t) := by
  obtain ⟨R, hR, hfirst⟩ := h
  have hmem := ownSite_mem ht hm ho
  obtain ⟨s, hsite, hle⟩ := exists_firstSite hmem (runs_chosen (P := t.scope.path) rfl)
  have hs' : s ∈ c.raiseSites x := List.mem_of_find?_eq_some hsite
  have hge := le_of_reachesFirst hs hl hmem hs' hR hfirst (List.find?_eq_some_iff_append.1 hsite).1
  rw [hsite, eq_ownSite hs hl ht hs' (Nat.le_antisymm hle hge)]

omit hl ht hm ho in
/-- A throw at which a group ends is exposed. -/
theorem exposed_of_firstSite {P : Path} (hP : P ∈ c.paths x)
    (h : c.firstSite x P = some (ownSite t)) : Exposed c x t := by
  have hn := nested hs x
  have hK := leads_of_key hs x ((mem_paths.1 hP).imp_left And.left)
  refine ⟨{y | y ∈ c.chosen x P}, hn.fullChoice_chosen hK, ?_, fun s' hs' htakes => ?_⟩
  · exact takes_iff_runs.2 (List.find?_eq_some_iff_append.1 h).1
  · exact firstSite_le h hs' (takes_iff_runs.1 htakes)

end Context

/-- The check of a throw in the method that raises it. -/
structure ChecksThrow (t : Throw) (a : RaiseCheck) : Prop where
  own : a.propagated = false
  sequence : a.sequence = t.position
  exception : a.exception = t.exception

namespace MethodOf

variable {c : Context} {x : Method} {mt : MethodTests} (h : MethodOf c x mt)
  (hs : c.model.Sound) (hl : c.model.Linear)
include h hs

/-- A raise that the tests of a method check is a throw of the method that is exposed. -/
theorem throw_of_check {a : RaiseCheck} (ha : mt.Asserts (.raise a)) (hown : a.propagated = false) :
    ∃ t ∈ c.model.throws, t.method = x.call ∧ ChecksThrow t a ∧ Exposed c x t := by
  obtain ⟨g, hg, ha⟩ := asserts_raise.1 ha
  obtain ⟨P, hP, hgx⟩ := forall₂_right h.groups g hg
  obtain ⟨s, hfirst, hsa⟩ := hgx.raise_of_mem ha
  cases Context.siteOf_mem hs (List.mem_of_find?_eq_some hfirst) with
  | @own t ht hm =>
    exact ⟨t, ht, hm, ⟨hown, hsa.sequence, hsa.exception⟩,
      Context.exposed_of_firstSite hs hP hfirst⟩
  | passed => simp [hsa.propagated] at hown

include hl

/-- A throw that is exposed is checked. -/
theorem exists_check {t : Throw} (ht : t ∈ c.model.throws) (hm : t.method = x.call)
    (ho : t.participant = x.owner) (hexposed : Exposed c x t) :
    ∃ a, mt.Asserts (.raise a) ∧ ChecksThrow t a := by
  have hpath := Context.site_path hs (Context.ownSite_mem ht hm ho)
  obtain ⟨g, hg, hgx⟩ := forall₂_left h.groups _ hpath
  have hfirst := Context.firstSite_ownSite hs hl ht hm ho hexposed
  obtain ⟨a, ha, hsa⟩ := forall₂_left hgx.raises (ownSite t) (by simp [ownSite, hfirst])
  exact ⟨a, asserts_raise.2 ⟨g, hg, ha⟩, hsa.propagated, hsa.sequence, hsa.exception⟩

/-- What checks a throw at its position checks its exception. -/
theorem checksThrow {t : Throw} (ht : t ∈ c.model.throws) {a : RaiseCheck}
    (ha : mt.Asserts (.raise a)) (hown : a.propagated = false) (hp : a.sequence = t.position) :
    ChecksThrow t a ∧ t.method = x.call ∧ Exposed c x t := by
  obtain ⟨t', ht', hm, hc, hexposed⟩ := h.throw_of_check hs ha hown
  obtain rfl := Context.throw_unique hl ht ht' (by have := hc.sequence; omega)
  exact ⟨hc, hm, hexposed⟩

end MethodOf

/-- The throws of a method that the tests check are those that are exposed. -/
theorem TreeOf.throw_checked_iff {c : Context} {t : Tree} (h : TreeOf c t) (hl : c.model.Linear)
    {thrown : Throw} (ht : thrown ∈ c.model.throws) {x : Method} (hx : x ∈ c.model.methods)
    (hm : thrown.method = x.call) (ho : thrown.participant = x.owner) :
    (∃ g ∈ t.groups, ∃ a ∈ g.raiseChecks, a.propagated = false ∧ a.sequence = thrown.position) ↔
      Exposed c x thrown := by
  constructor
  · rintro ⟨g, hg, a, ha, hown, hp⟩
    obtain ⟨suite, hsuite, mt, hmt, hg⟩ := Tree.mem_groups.1 hg
    obtain ⟨x', hx', hmx⟩ := h.tests_of_mem hsuite hmt
    obtain ⟨-, hm', hexposed⟩ :=
      hmx.checksThrow h.sound hl ht (asserts_raise.2 ⟨g, hg, ha⟩) hown hp
    obtain rfl : x' = x :=
      List.inj_on_of_nodup_map h.sound.methods hx' hx (hm'.symm.trans hm)
    exact hexposed
  · intro hexposed
    obtain ⟨suite, hsuite, -, mt, hmt, hmx⟩ := h.exists_suite hx
    obtain ⟨a, ha, hc⟩ := hmx.exists_check h.sound hl ht hm ho hexposed
    obtain ⟨g, hg, ha⟩ := asserts_raise.1 ha
    exact ⟨g, Tree.mem_groups.2 ⟨suite, hsuite, mt, hmt, hg⟩, a, ha, hc.own, hc.sequence⟩

/-- The body that is made for the tests of a method raises what they check. -/
theorem MethodOf.mem_leaves {c : Context} {x : Method} {mt : MethodTests} (h : MethodOf c x mt)
    (hs : c.model.Sound) (hl : c.model.Linear) {thrown : Throw} (ht : thrown ∈ c.model.throws)
    {a : RaiseCheck} (ha : mt.Asserts (.raise a)) (hc : ChecksThrow thrown a)
    {c' : Context} {x' : Method} {tl : Timeline} {events : List Code.Event} {k : Code.Knowledge}
    {body : List Code.Statement} (htold : Code.Told c' x' mt tl events)
    (hb : Code.Yields (Code.fold k (events.map (Code.Event.settled events))) body) :
    ∃ r : Code.RaiseStatement, .raise r ∈ Code.leavesIn body ∧
      r.exception = thrown.exception ∧ r.sequence = thrown.position := by
  obtain ⟨e, he, hkey⟩ := htold.tells _ ha _ (.raise a hc.own)
  rcases htold.told e he with ⟨⟨block, branch, hanchor⟩, -⟩ | ⟨a', ha', hof⟩
  · cases hanchor.symm.trans hkey
  · cases hof with
    | call | result => cases hkey
    | raise a' hown =>
      have hsequence : a'.sequence = a.sequence := Code.EventKey.raise.inj hkey
      obtain ⟨hc', -⟩ := h.checksThrow hs hl ht ha' hown (hsequence.trans hc.sequence)
      exact ⟨_, htold.toStage.mem_leaves hb he rfl rfl, hc'.exception, hc'.sequence⟩

variable {source : String} {d : Diagram} {o : Options} {m : Model}

/-- **The raises of a method.** The model of a diagram has a tree of tests. A throw that a method
raises itself is checked somewhere in the tree exactly where it is exposed; and then the tests of
the method check it, and the body that is made for them raises it. -/
theorem raise_checked_iff_of_synthesis (hd : Diagram.parse source = .ok d)
    (hm : d.buildModel o = .ok m) :
    (∃ t, m.synthesizeTests m.classify = .ok t) ∧
      ∀ s p t, m.synthesizeTests (m.classify s) p = .ok t →
        ∀ thrown ∈ m.throws, ∀ x ∈ m.methods, thrown.method = x.call →
          thrown.participant = x.owner →
            let c : Context := { model := m, roles := m.classify s, naming := p.naming }
            ((∃ g ∈ t.groups, ∃ a ∈ g.raiseChecks, a.propagated = false ∧
                a.sequence = thrown.position) ↔ Exposed c x thrown) ∧
              (Exposed c x thrown → ∃ suite ∈ t.suites, suite.subject = x.owner ∧
                ∃ mt ∈ suite.methods, c.naming.method x.name = .ok mt.name ∧
                  (∃ a, mt.Asserts (.raise a) ∧ ChecksThrow thrown a) ∧
                  ∀ code, t.synthesizeCode p = .ok code →
                    suite.methods.find? (·.name == mt.name) = some mt →
                      ∃ body, code.body? suite.subject mt.name = some body ∧
                        ∃ r : Code.RaiseStatement, .raise r ∈ Code.leavesIn body ∧
                          r.exception = thrown.exception ∧ r.sequence = thrown.position) := by
  have hsound := Diagram.sound_of_parse hd
  have hs : m.Sound := sound_of_build hsound hm
  have hl : m.Linear := linear_of_build hsound hm
  refine ⟨exists_tests hs {}, fun s p t ht thrown hthrown x hx hmx ho => ?_⟩
  intro c
  have htree : TreeOf c t := treeOf_synthesis hs ht
  refine ⟨htree.throw_checked_iff hl hthrown hx hmx ho, fun hexposed => ?_⟩
  obtain ⟨suite, hsuite, hsubject, mt, hmt, hof⟩ := htree.exists_suite hx
  obtain ⟨a, ha, hc⟩ := hof.exists_check hs hl hthrown hmx ho hexposed
  refine ⟨suite, hsuite, hsubject, mt, hmt, hof.name, ⟨a, ha, hc⟩, fun code hcode hfirst => ?_⟩
  obtain ⟨body, hbody, c', x', tl, events, k, -, htold, -, -, hy⟩ :=
    Code.exists_first_body hd hm ht hcode hsuite hfirst
  exact ⟨body, hbody, hof.mem_leaves hs hl hthrown ha hc htold hy⟩

/-- A diagram with a raise behind another one. -/
def secondRaise : String :=
  "[-> A : run(x)\nA -> BRepository : load(x)\n" ++
    "A -> A : <<throws>> First\nA -> A : <<throws>> Second\n"

/-- One raise is checked, and another one is not. -/
theorem checks_secondRaise : ∃ y ∈ Stages.of? secondRaise, ∃ x ∈ y.model.methods,
    (∀ thrown ∈ y.model.throws, thrown.method = x.call ∧ thrown.participant = x.owner) ∧
      (∃ first ∈ y.model.throws, ∃ g ∈ y.tests.groups, ∃ a ∈ g.raiseChecks,
        a.propagated = false ∧ a.sequence = first.position) ∧
      ∃ second ∈ y.model.throws, ∀ g ∈ y.tests.groups, ∀ a ∈ g.raiseChecks,
        a.propagated = false → a.sequence ≠ second.position := by
  unfold secondRaise
  rw [Stages.of?_toList, String.toList_append, String.toList_ofList, String.toList_ofList]
  decide +kernel

theorem raise_checked_iff_secondRaise : ∃ d m t, Diagram.parse secondRaise = .ok d ∧
    d.buildModel = .ok m ∧ m.synthesizeTests m.classify = .ok t ∧
      ∃ x ∈ m.methods, ∃ first ∈ m.throws, ∃ second ∈ m.throws,
        let c : Context := { model := m, roles := m.classify, naming := Profile.builtin.naming }
        (first.method = x.call ∧ first.participant = x.owner ∧ Exposed c x first) ∧
          (second.method = x.call ∧ second.participant = x.owner ∧ ¬ Exposed c x second) ∧
          ∃ suite ∈ t.suites, ∃ mt ∈ suite.methods,
            ∃ a, mt.Asserts (.raise a) ∧ ChecksThrow first a := by
  obtain ⟨y, hy, x, hx, hall, ⟨first, hfirst, hchecked⟩, second, hsecond, hnot⟩ :=
    checks_secondRaise
  obtain ⟨d, hd, hm, ht, -⟩ := Stages.of?_eq_some hy
  obtain ⟨hmx, ho⟩ := hall first hfirst
  obtain ⟨hmx', ho'⟩ := hall second hsecond
  obtain ⟨hiff, hmade⟩ :=
    (raise_checked_iff_of_synthesis hd hm).2 _ _ _ ht first hfirst x hx hmx ho
  obtain ⟨hiff', -⟩ :=
    (raise_checked_iff_of_synthesis hd hm).2 _ _ _ ht second hsecond x hx hmx' ho'
  obtain ⟨suite, hsuite, -, mt, hmt, -, hcheck, -⟩ := hmade (hiff.1 hchecked)
  refine ⟨d, y.model, y.tests, hd, hm, ht, x, hx, first, hfirst, second, hsecond,
    ⟨hmx, ho, hiff.1 hchecked⟩, ⟨hmx', ho', fun hexposed => ?_⟩, suite, hsuite, mt, hmt, hcheck⟩
  obtain ⟨g, hg, a, ha, hown, hsequence⟩ := hiff'.2 hexposed
  exact hnot g hg a ha hown hsequence

/-- Not every throw of a method is checked. -/
theorem not_raise_checked_secondRaise : ¬ ∀ (source : String) (o : Options) (d : Diagram)
    (m : Model) (t : Tree), Diagram.parse source = .ok d → d.buildModel o = .ok m →
      m.synthesizeTests m.classify = .ok t → ∀ thrown ∈ m.throws, ∀ x ∈ m.methods,
        thrown.method = x.call → thrown.participant = x.owner →
          ∃ g ∈ t.groups, ∃ a ∈ g.raiseChecks, a.propagated = false ∧
            a.sequence = thrown.position ∧ a.exception = thrown.exception := by
  intro h
  obtain ⟨y, hy, x, hx, hall, -, second, hsecond, hnot⟩ := checks_secondRaise
  obtain ⟨d, hd, hm, ht, -⟩ := Stages.of?_eq_some hy
  obtain ⟨hmx, ho⟩ := hall second hsecond
  obtain ⟨g, hg, a, ha, hown, hsequence, -⟩ :=
    h secondRaise {} d y.model y.tests hd hm ht second hsecond x hx hmx ho
  exact hnot g hg a ha hown hsequence

end Lifeline.Tests
