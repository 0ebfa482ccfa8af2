import Lifeline.Proofs.Code.Fold
import Lifeline.Proofs.Code.Told
import Lifeline.Proofs.Model.Building
import Lifeline.Proofs.Tests.Trees

/-!
# Bodies of methods

`placed events`: the events of a method in the order in which they happen, once its results are
settled. The body that is made of them does what they do (`Stage.drive_body`); and of two events at
one moment, the first half a step behind another, the second does not lie further inside
(`Stage.not_further`). Of the methods of a suite with one name the first one has such a body
(`exists_first_body`), and the other methods of a class have none (`classOf_made`).
-/

namespace Lifeline.Code

open Model
open Tests (Context MethodOf MethodTests MockedMethod ScopeRef Suite TreeOf)

/-! ## Events in order -/

/-- The events of a method in order, once its results are settled. -/
def placed (events : List Event) : List Placed :=
  (Event.inOrder (events.map (Event.settled events))).map fun e => { event := e, scope := e.scope }

/-- An event of a method as it is placed. -/
def Event.placedIn (events : List Event) (e : Event) : Placed where
  event := settled events e
  scope := e.scope

theorem mem_placed {events : List Event} {p : Placed} :
    p ∈ placed events ↔ ∃ e ∈ events, p = e.placedIn events := by
  simp only [placed, Event.inOrder, List.mem_map, mem_sortBy]
  constructor
  · rintro ⟨_, ⟨e, he, rfl⟩, rfl⟩
    exact ⟨e, he, by simp [Event.placedIn]⟩
  · rintro ⟨e, he, rfl⟩
    exact ⟨_, ⟨e, he, rfl⟩, by simp [Event.placedIn]⟩

theorem timed_placed (events : List Event) : Timed (placed events) := by
  refine List.pairwise_map.2 ?_
  exact sortBy_key_pairwise Event.moment (by simp) _

theorem nodup_placed {events : List Event} (h : (events.map (·.key)).Nodup) :
    ((placed events).map (·.event.key)).Nodup := by
  have hp : (Event.inOrder (events.map (Event.settled events))).Perm
      (events.map (Event.settled events)) := sortBy_perm _
  rw [placed, List.map_map]
  refine ((hp.map fun e => e.key).nodup_iff).2 ?_
  rw [List.map_map]
  simpa [Function.comp_def] using h

theorem length_le_depthOf {events : List Event} {e : Event} (he : e ∈ events) :
    e.scope.length ≤ depthOf events := by
  have hfold : ∀ (es : List Event) (n : Nat), n ≤ es.foldl (fun d e => max d e.scope.length) n ∧
      ∀ e ∈ es, e.scope.length ≤ es.foldl (fun d e => max d e.scope.length) n := by
    intro es
    induction es with
    | nil => simp
    | cons x es ih =>
      intro n
      obtain ⟨hle, hall⟩ := ih (max n x.scope.length)
      rw [List.foldl_cons]
      refine ⟨by omega, fun e he => ?_⟩
      rcases List.mem_cons.1 he with rfl | he
      · omega
      · exact hall e he
  exact (hfold events 0).2 e he

/-! ## Folds -/

namespace Stage

variable {m : Model} {tl : Timeline} {μ : MethodId} {events : List Event}
  (h : Stage m tl μ events) {k : Knowledge} {body : List Statement}
  (hb : Yields (fold k (events.map (Event.settled events))) body)

include h in
/-- Each block of a scope is one of the method's. -/
theorem frame_of_mem {e : Event} (he : e ∈ events) {r : ScopeRef} (hr : r ∈ e.scope) :
    ∃ n, ∃ f ∈ tl.scopeAt n μ, r.block = f.block ∧ r.kind = f.kind := by
  rcases h.stands e he with ⟨n, hn⟩ | ⟨n, hn⟩
  · obtain ⟨f, hf, hfr⟩ := forall₂_right hn.refs r hr
    exact ⟨n, f, hf, hfr.block, hfr.kind⟩
  · obtain ⟨f, hf, hfr⟩ := hn.frames r hr
    exact ⟨n + 1, f, hf, hfr.block, hfr.kind⟩

include h in
theorem uniform_placed : Uniform (placed events) := by
  intro p hp q hq r hr r' hr' hb
  obtain ⟨e, he, rfl⟩ := mem_placed.1 hp
  obtain ⟨e', he', rfl⟩ := mem_placed.1 hq
  obtain ⟨n, f, hf, hfb, hfk⟩ := h.frame_of_mem he hr
  obtain ⟨n', f', hf', hfb', hfk'⟩ := h.frame_of_mem he' hr'
  rw [hfk, hfk', h.fits.kind_of_block h.sound hf hf' (by omega)]

omit h in
theorem lt_depth : ∀ p ∈ placed events,
    p.scope.length < depthOf (events.map (Event.settled events)) + 1 := by
  intro p hp
  obtain ⟨e, he, rfl⟩ := mem_placed.1 hp
  have hle := length_le_depthOf (List.mem_map_of_mem (f := Event.settled events) he)
  rw [Event.settled_scope] at hle
  exact Nat.lt_succ_of_le hle

include h hb in
/-- The body does what the events do. -/
theorem drive_body (d : Drive) : driveAll d body = driveEvents d (placed events) :=
  drive_of_fold hb lt_depth h.uniform_placed

omit h in
include hb in
/-- Of two events in a tie half a step behind another, the second does not lie further inside. -/
theorem not_further {p q : Placed} (hpq : [p, q].Sublist (placed events))
    (hm : q.event.moment = p.event.moment) (hodd : p.event.moment % 2 = 1)
    (hpre : choices p.scope <+: choices q.scope) : q.scope.length ≤ p.scope.length :=
  no_tie hb lt_depth (timed_placed events) hpq hm hodd hpre

end Stage

/-! ## Methods of a class -/

section

variable {naming : NamingRules}

theorem liftName_ok {α : Type} {r : Except NameError α} {a : α} :
    liftName r = .ok a ↔ r = .ok a := by
  cases r <;> simp [liftName]

/-- A method has the name and the parameters of its tests, and the fold makes its body of what they
tell. -/
theorem method_ok {helpers helpers' : Helpers} {mt : MethodTests} {made : Method}
    (h : method naming helpers mt = .ok (made, helpers')) :
    made.name = mt.name ∧ made.parameters = mt.parameters ∧
      ∃ es names, eventsOf naming mt = .ok es ∧ namesOf naming mt = .ok names ∧
        Yields (fold { naming, names } es) made.body := by
  simp only [method, bind_ok, pure_ok, liftName_ok] at h
  obtain ⟨es, hes, names, hnames, ⟨body, hs⟩, hbody, he⟩ := h
  obtain ⟨rfl, rfl⟩ := Prod.mk.inj he
  exact ⟨rfl, rfl, es, names, hes, hnames, helpers, _, hbody⟩

/-- Methods that are in a draft stay there. -/
theorem Draft.find?_implement {d d' : Draft} {mt : MethodTests} (h : d.implement naming mt = .ok d')
    {q : Method → Bool} {made : Method} (hf : d.methods.find? q = some made) :
    d'.methods.find? q = some made := by
  unfold Draft.implement at h
  split at h
  · obtain rfl := pure_ok.1 h
    exact hf
  · simp only [bind_ok, pure_ok] at h
    obtain ⟨⟨new, helpers⟩, -, rfl⟩ := h
    simp [List.find?_append, hf]

theorem Draft.find?_allow {d : Draft} {k : MockedMethod} {q : Method → Bool} {made : Method}
    (hf : d.methods.find? q = some made) : (d.allow k).methods.find? q = some made := by
  unfold Draft.allow
  split
  · exact hf
  · simp [List.find?_append, hf]

/-- A method that is in a draft is not made again. -/
theorem Draft.implement_old {d : Draft} {mt : MethodTests}
    (hold : mt.name ∈ d.methods.map (·.name)) : d.implement naming mt = .ok d := by
  obtain ⟨k, hk, hkn⟩ := List.mem_map.1 hold
  rw [Draft.implement, if_pos (List.any_eq_true.2 ⟨k, hk, by simpa using hkn⟩)]
  rfl

/-- A method that is not in a draft is made for it. -/
theorem Draft.implement_new {d d' : Draft} {mt : MethodTests} (h : d.implement naming mt = .ok d')
    (hnew : mt.name ∉ d.methods.map (·.name)) :
    ∃ helpers helpers' made, method naming helpers mt = .ok (made, helpers') ∧
      d'.methods = d.methods ++ [made] := by
  unfold Draft.implement at h
  split at h
  · rename_i hany
    obtain ⟨k, hk, hkn⟩ := List.any_eq_true.1 hany
    exact absurd (List.mem_map.2 ⟨k, hk, by simpa using hkn⟩) hnew
  · simp only [bind_ok, pure_ok] at h
    obtain ⟨⟨made, helpers'⟩, hmade, rfl⟩ := h
    exact ⟨_, _, made, hmade, rfl⟩

/-- A draft gets no other name than that of the method. -/
theorem Draft.mem_names_implement {d d' : Draft} {mt : MethodTests}
    (h : d.implement naming mt = .ok d') {name : String} (hn : name ∈ d'.methods.map (·.name)) :
    name ∈ d.methods.map (·.name) ∨ name = mt.name := by
  by_cases hmem : mt.name ∈ d.methods.map (·.name)
  · obtain rfl := Except.ok.inj ((Draft.implement_old hmem).symm.trans h)
    exact .inl hn
  · obtain ⟨_, _, made, hmade, hd'⟩ := Draft.implement_new h hmem
    rw [hd', List.map_append, List.mem_append] at hn
    refine hn.imp_right fun hn => ?_
    rw [List.map_singleton, List.mem_singleton] at hn
    exact hn.trans (method_ok hmade).1

/-- Of the methods of a name the first one is made. -/
theorem find?_implementAll {mt : MethodTests} : ∀ {mts : List MethodTests} {d d' : Draft},
    mts.foldlM (Draft.implement naming) d = .ok d' → mt.name ∉ d.methods.map (·.name) →
      mts.find? (·.name == mt.name) = some mt →
        ∃ helpers helpers' made, method naming helpers mt = .ok (made, helpers') ∧
          d'.methods.find? (·.name == mt.name) = some made
  | [], _, _, _, _, hfirst => by simp at hfirst
  | m :: mts, d, d', h, hnew, hfirst => by
    rw [List.foldlM_cons, bind_ok] at h
    obtain ⟨d1, h1, h2⟩ := h
    by_cases hm : m.name = mt.name
    · rw [List.find?_cons_of_pos (by simpa using hm)] at hfirst
      obtain rfl := Option.some.inj hfirst
      obtain ⟨helpers, helpers', made, hmade, hd1⟩ := Draft.implement_new h1 hnew
      refine ⟨_, _, made, hmade, foldlM_inv (fun d => d.methods.find? (·.name == m.name) =
        some made) h2 (fun d _ _ hd _ hd' => Draft.find?_implement hd' hd) ?_⟩
      have hnone : d.methods.find? (·.name == m.name) = none := by
        rw [List.find?_eq_none]
        exact fun k hk hkn => hnew (List.mem_map.2 ⟨k, hk, by simpa using hkn⟩)
      rw [hd1, List.find?_append, hnone]
      simp [(method_ok hmade).1]
    · rw [List.find?_cons_of_neg (by simpa using hm)] at hfirst
      refine find?_implementAll h2 (fun hn => ?_) hfirst
      rcases Draft.mem_names_implement h1 hn with hn | hn
      · exact hnew hn
      · exact hm hn.symm

/-- The methods of a draft are those that were there, and those that are made for the first tests of
a new name. -/
theorem mem_implementAll : ∀ {mts : List MethodTests} {d d' : Draft},
    mts.foldlM (Draft.implement naming) d = .ok d' → ∀ made ∈ d'.methods, made ∈ d.methods ∨
      made.name ∉ d.methods.map (·.name) ∧ ∃ mt, mts.find? (·.name == made.name) = some mt ∧
        ∃ helpers helpers', method naming helpers mt = .ok (made, helpers')
  | [], d, d', h, made, hmade => by
    obtain rfl := Except.ok.inj h
    exact .inl hmade
  | m :: mts, d, d', h, made, hmade => by
    rw [List.foldlM_cons, bind_ok] at h
    obtain ⟨d1, h1, h2⟩ := h
    have hlater : m.name ≠ made.name →
        (m :: mts).find? (·.name == made.name) = mts.find? (·.name == made.name) :=
      fun hne => List.find?_cons_of_neg (by simpa using hne)
    by_cases hm : m.name ∈ d.methods.map (·.name)
    · obtain rfl := Except.ok.inj ((Draft.implement_old hm).symm.trans h1)
      refine (mem_implementAll h2 made hmade).imp_right fun ⟨hnew, hfirst⟩ => ⟨hnew, ?_⟩
      rwa [hlater fun he => hnew (he ▸ hm)]
    · obtain ⟨helpers, helpers', new, hnew, hd1⟩ := Draft.implement_new h1 hm
      have hname : new.name = m.name := (method_ok hnew).1
      rcases mem_implementAll h2 made hmade with hmem | ⟨hnot, hfirst⟩
      · rw [hd1, List.mem_append, List.mem_singleton] at hmem
        refine hmem.imp_right ?_
        rintro rfl
        exact ⟨hname ▸ hm, m, List.find?_cons_of_pos (by simp [hname]), _, _, hnew⟩
      · rw [hd1, List.map_append, List.mem_append, not_or, List.map_singleton,
          List.mem_singleton] at hnot
        refine .inr ⟨hnot.1, ?_⟩
        rwa [hlater fun he => hnot.2 (he.symm.trans hname.symm)]

/-- The methods that others call are allowed with empty bodies, where they are new. -/
theorem Draft.mem_allowAll : ∀ {ks : List MockedMethod} {d : Draft},
    ∀ made ∈ (ks.foldl Draft.allow d).methods, made ∈ d.methods ∨
      made.name ∉ d.methods.map (·.name) ∧ made.body = []
  | [], _, _, h => .inl h
  | k :: ks, d, made, h => by
    rw [List.foldl_cons] at h
    by_cases hany : d.methods.any (·.name == k.name) = true
    · have hd : d.allow k = d := if_pos hany
      rw [hd] at h
      exact mem_allowAll made h
    · have hd : (d.allow k).methods =
          d.methods ++ [{ name := k.name, parameters := k.parameters, body := [] }] := by
        rw [Draft.allow, if_neg hany]
      rcases mem_allowAll made h with h | ⟨hnew, hbody⟩
      · rw [hd, List.mem_append, List.mem_singleton] at h
        refine h.imp_right ?_
        rintro rfl
        refine ⟨fun hm => hany ?_, rfl⟩
        obtain ⟨x, hx, hn⟩ := List.mem_map.1 hm
        exact List.any_eq_true.2 ⟨x, hx, by simpa using hn⟩
      · rw [hd, List.map_append, List.mem_append, not_or] at hnew
        exact .inr ⟨hnew.1, hbody⟩

theorem classOf_subject {called : List MockedMethod} {s : Suite} {cls : Class}
    (h : classOf naming called s = .ok cls) : cls.subject = s.subject := by
  simp only [classOf, bind_ok, pure_ok] at h
  obtain ⟨draft, -, rfl⟩ := h
  rfl

/-- The methods of a class have different names. -/
theorem classOf_nodup {called : List MockedMethod} {s : Suite} {cls : Class}
    (h : classOf naming called s = .ok cls) : (cls.methods.map (·.name)).Nodup := by
  simp only [classOf, bind_ok, pure_ok] at h
  obtain ⟨draft, hdraft, rfl⟩ := h
  have hmade : (draft.methods.map (·.name)).Nodup := by
    refine foldlM_inv (fun d => (d.methods.map (·.name)).Nodup) hdraft (fun d mt _ hd d' hd' => ?_)
      .nil
    by_cases hold : mt.name ∈ d.methods.map (·.name)
    · obtain rfl := Except.ok.inj ((Draft.implement_old hold).symm.trans hd')
      exact hd
    · obtain ⟨_, _, made, hmade, hadd⟩ := Draft.implement_new hd' hold
      rw [hadd, List.map_append, List.map_singleton, (method_ok hmade).1, ← List.concat_eq_append]
      exact hd.concat hold
  dsimp only
  generalize draft = d at hmade
  induction called generalizing d with
  | nil => exact hmade
  | cons k ks ih =>
    refine ih (d.allow k) ?_
    unfold Draft.allow
    split
    · exact hmade
    · rename_i hnew
      rw [List.map_append, List.map_singleton, ← List.concat_eq_append]
      refine hmade.concat fun hold => hnew ?_
      obtain ⟨x, hx, hname⟩ := List.mem_map.1 hold
      exact List.any_eq_true.2 ⟨x, hx, beq_iff_eq.2 hname⟩

/-- The class of a suite has the methods that are made for its tests. -/
theorem classOf_methods {called : List MockedMethod} {s : Suite} {cls : Class}
    (h : classOf naming called s = .ok cls) {mt : MethodTests}
    (hfirst : s.methods.find? (·.name == mt.name) = some mt) :
    ∃ helpers helpers' made, method naming helpers mt = .ok (made, helpers') ∧
      cls.methods.find? (·.name == mt.name) = some made := by
  simp only [classOf, bind_ok, pure_ok] at h
  obtain ⟨draft, hdraft, rfl⟩ := h
  obtain ⟨helpers, helpers', made, hmade, hfind⟩ := find?_implementAll hdraft (by simp) hfirst
  refine ⟨helpers, helpers', made, hmade, ?_⟩
  dsimp only
  generalize draft = d at hfind
  induction called generalizing d with
  | nil => exact hfind
  | cons k ks ih => exact ih (d.allow k) (Draft.find?_allow hfind)

/-- A method of a class is made for the first tests of its name, or its body is empty. -/
theorem classOf_made {called : List MockedMethod} {s : Suite} {cls : Class}
    (h : classOf naming called s = .ok cls) {made : Method} (hmade : made ∈ cls.methods) :
    (∃ mt, s.methods.find? (·.name == made.name) = some mt ∧
      ∃ helpers helpers', method naming helpers mt = .ok (made, helpers')) ∨
    s.methods.find? (·.name == made.name) = none ∧ made.body = [] := by
  simp only [classOf, bind_ok, pure_ok] at h
  obtain ⟨draft, hdraft, rfl⟩ := h
  rcases Draft.mem_allowAll made hmade with hmem | ⟨hnew, hbody⟩
  · refine .inl ((mem_implementAll hdraft made hmem).resolve_left ?_).2
    exact List.not_mem_nil
  · refine .inr ⟨?_, hbody⟩
    rw [Option.eq_none_iff_forall_not_mem]
    intro mt hfirst
    have hname : mt.name = made.name := by simpa using List.find?_some hfirst
    rw [← hname] at hfirst hnew
    obtain ⟨_, _, made', -, hfind⟩ := find?_implementAll hdraft (by simp) hfirst
    refine hnew (List.mem_map.2 ⟨made', List.mem_of_find?_eq_some hfind, ?_⟩)
    simpa using List.find?_some hfind

end

/-- **The body of a method** is made of its events, where it is the first method of its suite with
its name. -/
theorem exists_body {c : Context} {t : Tests.Tree} (h : TreeOf c t) {p : Profile} {code : Tree}
    (hc : t.synthesizeCode p = .ok code) {s : Suite} (hs : s ∈ t.suites) {mt : MethodTests}
    (hfirst : s.methods.find? (·.name == mt.name) = some mt) :
    ∃ body, code.body? s.subject mt.name = some body ∧
      ∃ k es, eventsOf p.naming mt = .ok es ∧ Yields (fold k es) body := by
  simp only [Tests.Tree.synthesizeCode, bind_ok, pure_ok] at hc
  obtain ⟨classes, hclasses, rfl⟩ := hc
  have hall := mapM_ok.1 hclasses
  obtain ⟨cls, hcls, hmade⟩ := forall₂_left hall s hs
  obtain ⟨helpers, helpers', made, hmethod, hfind⟩ := classOf_methods hmade hfirst
  have hsubjects : (classes.map (·.subject)).Nodup := by
    rw [← forall₂_map hall fun s cls h => (classOf_subject h).symm]
    exact h.nodup_subjects
  obtain ⟨-, -, es, names, hes, -, hy⟩ := method_ok hmethod
  refine ⟨made.body, ?_, _, es, hes, hy⟩
  have hclass : classes.find? (·.subject == s.subject) = some cls := by
    rw [← classOf_subject hmade]
    exact find?_key hsubjects hcls
  simp [Tree.body?, hclass, hfind]

/-- The method that is generated for the tests of a method is made of what they tell. -/
theorem exists_first_body {source : String} {d : Diagram} {o : Options} {m : Model}
    {s : LeafSuffixes} {p : Profile} {t : Tests.Tree} {code : Tree}
    (hd : Diagram.parse source = .ok d) (hm : d.buildModel o = .ok m)
    (ht : m.synthesizeTests (m.classify s) p = .ok t) (hc : t.synthesizeCode p = .ok code)
    {suite : Suite} (hs : suite ∈ t.suites) {mt : MethodTests}
    (hfirst : suite.methods.find? (·.name == mt.name) = some mt) :
    ∃ body, code.body? suite.subject mt.name = some body ∧
      ∃ (c : Context) (x : Model.Method) (tl : Timeline) (events : List Event) (k : Knowledge),
        eventsOf p.naming mt = .ok (events.map (Event.settled events)) ∧
          Told c x mt tl events ∧ MethodOf c x mt ∧ x ∈ c.model.methods ∧
            Yields (fold k (events.map (Event.settled events))) body := by
  have hsound : m.Sound := sound_of_build (Diagram.sound_of_parse hd) hm
  have htree := Tests.treeOf_synthesis hsound ht
  obtain ⟨body, hbody, k, es, hes, hy⟩ := exists_body htree hc hs hfirst
  obtain ⟨x, hx, hmx⟩ := htree.tests_of_mem hs (List.mem_of_find?_eq_some hfirst)
  obtain ⟨tl, htl⟩ := hsound.timeline
  obtain ⟨events, htold, rfl⟩ := told_of_eventsOf hsound htl hx hmx hes
  exact ⟨body, hbody, _, x, tl, events, k, hes, htold, hmx, hx, hy⟩

end Lifeline.Code
