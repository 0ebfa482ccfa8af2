import Lifeline.Proofs.Code.Places
import Lifeline.Proofs.Code.Runs

/-!
# Results that are tied

Two results of a method are tied (`Tied`) where they have moved behind the same event and the scope
of one lies around the other. The outer one stays in front (`Event.Outward`), so the inner one
begins its block once more, half a step behind another event. Results that are not tied trail
(`Told.trailing_placed`). So there is code for tests without tied results (`exists_code`), and none
for others (`code_unplaced`).
-/

namespace Lifeline.Code

open Model
open Tests (Context MethodTests Suite)

/-! ## Ties -/

/-- Two results half a step behind the same event, the scope of one of which lies around the scope
of the other. -/
def Tied (es : List Event) : Prop := ∃ p ∈ es, ∃ q ∈ es, p.moment = q.moment ∧
  p.moment % 2 = 1 ∧ choices p.scope <+: choices q.scope ∧ ¬ choices q.scope <+: choices p.scope

/-- An event is settled where it stands, if nothing in its scope comes later. -/
theorem Event.settled_of_latest {events : List Event} {e : Event}
    (h : ∀ y ∈ events, choices e.scope <+: choices y.scope → y.moment ≤ e.moment) :
    Event.settled events e = e := by
  refine if_neg fun ⟨_, hlt⟩ => ?_
  rcases Event.latestIn_cases events e.scope e.moment with hl | ⟨y, hy, hs, hl⟩
  · omega
  · have := h y hy hs
    omega

namespace Told

variable {c : Context} {x : Model.Method} {mt : MethodTests} {tl : Timeline} {events : List Event}
  (h : Told c x mt tl events)
include h

/-- A settled event stands where it stood, or half a step behind the latest event in its scope. -/
theorem settled_cases {e : Event} (he : e ∈ events) :
    (Event.settled events e = e ∧ (Event.settled events e).moment % 2 = 0) ∨
      (Event.settled events e).moment % 2 = 1 ∧ e.key.isResult = true ∧
        ∃ y ∈ events, choices e.scope <+: choices y.scope ∧
          (Event.settled events e).moment = y.moment + 1 ∧ Event.settled events y = y := by
  unfold Event.settled
  split
  · rename_i hmoved
    right
    rcases Event.latestIn_cases events e.scope e.moment with hl | ⟨y, hy, hs, hl⟩
    · omega
    · obtain ⟨k, hk⟩ := h.even hy
      refine ⟨by dsimp only; omega, hmoved.1, y, hy, hs, by rw [hl], ?_⟩
      refine Event.settled_of_latest fun z hz hyz => ?_
      rw [hl]
      exact Event.moment_le_latestIn hz (hs.trans hyz)
  · obtain ⟨k, hk⟩ := h.even he
    exact .inl ⟨rfl, by omega⟩

theorem eq_of_moment {e e' : Event} (he : e ∈ events) (he' : e' ∈ events)
    (hm : e.moment = e'.moment) : e = e' :=
  List.inj_on_of_nodup_map h.nodup he he' (h.key_of_moment he he' hm)

/-- What stands right in front of a result is at the moment of the event that the result has moved
behind, or half a step later. -/
theorem exists_front {e y : Event} (he : e ∈ events) (hy : y ∈ events)
    (hystays : Event.settled events y = y)
    (hmoved : (Event.settled events e).moment = y.moment + 1) {A B : List Placed}
    (hAB : placed events = A ++ e.placedIn events :: B) :
    ∃ A' w, A = A' ++ [w.placedIn events] ∧ w ∈ events ∧
      y.moment ≤ (Event.settled events w).moment ∧
      (Event.settled events w).moment ≤ y.moment + 1 := by
  have hnodup : (placed events).Nodup := List.Nodup.of_map _ (nodup_placed h.nodup)
  have htimed : Timed (A ++ e.placedIn events :: B) := hAB ▸ timed_placed events
  have hyq : [y.placedIn events, e.placedIn events].Sublist (placed events) := by
    refine (timed_placed events).before (mem_placed.2 ⟨y, hy, rfl⟩) (mem_placed.2 ⟨e, he, rfl⟩) ?_
    show (Event.settled events y).moment < (Event.settled events e).moment
    rw [hystays]
    omega
  have hyA : y.placedIn events ∈ A := mem_of_before (hAB ▸ hnodup) (hAB ▸ hyq)
  obtain rfl | ⟨A, z, rfl⟩ := A.eq_nil_or_concat'
  · simp at hyA
  have hz : z ∈ placed events := by simp [hAB]
  obtain ⟨w, hw, rfl⟩ := mem_placed.1 hz
  obtain ⟨hfront, -, hacross⟩ := List.pairwise_append.1 htimed
  have hge : (Event.settled events y).moment ≤ (Event.settled events w).moment := by
    rcases List.mem_append.1 hyA with hyA | hyA
    · exact (List.pairwise_append.1 hfront).2.2 (y.placedIn events) hyA (w.placedIn events)
        (.head _)
    · have heq := congrArg (fun p => p.event.moment) (List.mem_singleton.1 hyA)
      exact Int.le_of_eq heq
  have hle : (Event.settled events w).moment ≤ (Event.settled events e).moment :=
    hacross (w.placedIn events) (by simp) (e.placedIn events) (.head _)
  exact ⟨A, w, rfl, hw, hystays ▸ hge, hmoved ▸ hle⟩

/-- Results trail where none are tied. -/
theorem trailing_placed (ht : ¬ Tied (events.map (Event.settled events))) :
    Trailing (placed events) := by
  intro A q B hAB hodd hs
  have hq : q ∈ placed events := hAB ▸ List.mem_append_right _ (.head _)
  obtain ⟨e, he, rfl⟩ := mem_placed.1 hq
  obtain ⟨-, heven⟩ | ⟨-, -, y, hy, hey, hmoved, hystays⟩ := h.settled_cases he
  · have : (Event.settled events e).moment % 2 = 1 := hodd
    omega
  obtain ⟨A, w, rfl, hw, hge, hle⟩ := h.exists_front he hy hystays hmoved hAB
  refine ⟨A, w.placedIn events, rfl, ?_⟩
  show choices e.scope <+: choices w.scope
  obtain ⟨hwstays, heven⟩ | ⟨hwodd, -, v, hv, hwv, hwm, -⟩ := h.settled_cases hw
  · obtain ⟨k, hk⟩ := h.even hy
    rw [hwstays] at hle hge heven
    obtain rfl := h.eq_of_moment hw hy (by omega)
    exact hey
  · obtain ⟨k, hk⟩ := h.even hy
    obtain rfl := h.eq_of_moment hv hy (by omega)
    -- both results have moved behind the same event, so one scope lies around the other
    rcases List.prefix_or_prefix_of_prefix hey hwv with hpre | hpre
    · exact hpre
    · by_contra hn
      refine ht ⟨_, List.mem_map_of_mem hw, _, List.mem_map_of_mem he, by omega, hwodd, ?_, ?_⟩
      · simpa using hpre
      · simpa using hn

/-- No results are tied where a body is made of the events. -/
theorem not_tied {k : Knowledge} {body : List Statement}
    (hb : Yields (fold k (events.map (Event.settled events))) body) :
    ¬ Tied (events.map (Event.settled events)) := by
  rintro ⟨p, hp, q, hq, hm, hodd, hpre, hn⟩
  obtain ⟨e, he, rfl⟩ := List.mem_map.1 hp
  obtain ⟨e', he', rfl⟩ := List.mem_map.1 hq
  obtain ⟨-, heven⟩ | ⟨-, her, -⟩ := h.settled_cases he
  · omega
  obtain ⟨-, heven⟩ | ⟨-, her', -⟩ := h.settled_cases he'
  · omega
  rw [Event.settled_scope, Event.settled_scope] at hpre hn
  -- the outer result comes first, and sorting leaves it there
  have hne : e ≠ e' := by
    rintro rfl
    exact hn List.prefix_rfl
  have hfirst : [e, e'].Sublist events := (pair_sublist_or hne he he').resolve_right fun hs =>
    List.pairwise_iff_forall_sublist.1 h.outward hs her' her hpre
  have hsorted : [e.placedIn events, e'.placedIn events].Sublist (placed events) := by
    have hs := sortBy_stable (fun a b : Event => decide (a.moment ≤ b.moment))
      (by simp [hm]) (hfirst.map (Event.settled events))
    simpa [placed, Event.inOrder, Event.placedIn] using
      hs.map fun e => ({ event := e, scope := e.scope } : Placed)
  have hle := Stage.not_further hb hsorted hm.symm hodd hpre
  have hl : (choices e'.scope).length ≤ (choices e.scope).length := by
    simpa [choices, Event.placedIn] using hle
  rw [hpre.eq_of_length_le hl] at hn
  exact hn List.prefix_rfl

end Told

/-! ## The synthesis of code -/

/-- No method that is made for the tests has tied results. -/
def Untied (naming : NamingRules) (t : Tests.Tree) : Prop :=
  ∀ s ∈ t.suites, ∀ mt, s.methods.find? (·.name == mt.name) = some mt →
    ∀ es, eventsOf naming mt = .ok es → ¬ Tied es

section

variable {source : String} {d : Diagram} {o : Options} {m : Model} {s : LeafSuffixes} {p : Profile}
  {t : Tests.Tree} (hd : Diagram.parse source = .ok d) (hm : d.buildModel o = .ok m)
  (ht : m.synthesizeTests (m.classify s) p = .ok t)
include hd hm ht

/-- What the tests of a method tell. -/
theorem exists_told {suite : Suite} (hs : suite ∈ t.suites) {mt : MethodTests}
    (hmt : mt ∈ suite.methods) {es : List Event} (hes : eventsOf p.naming mt = .ok es) :
    ∃ (c : Context) (x : Model.Method) (tl : Timeline) (events : List Event),
      Told c x mt tl events ∧ es = events.map (Event.settled events) := by
  have hsound : m.Sound := sound_of_build (Diagram.sound_of_parse hd) hm
  obtain ⟨x, hx, hmx⟩ := (Tests.treeOf_synthesis hsound ht).tests_of_mem hs hmt
  obtain ⟨tl, htl⟩ := hsound.timeline
  obtain ⟨events, htold, he⟩ := told_of_eventsOf hsound htl hx hmx hes
  exact ⟨_, x, tl, events, htold, he⟩

variable (hn : p.naming.FailOnly fun _ => False)
include hn

/-- There is code for tests without tied results. -/
theorem exists_code (h : Untied p.naming t) : ∃ code, t.synthesizeCode p = .ok code := by
  refine exists_ok (synthesizeCode_failsOnly hn rfl fun suite hs mt hfirst es hes => .inl ?_)
  obtain ⟨c, x, tl, events, htold, rfl⟩ :=
    exists_told hd hm ht hs (List.mem_of_find?_eq_some hfirst) hes
  exact htold.trailing_placed (h suite hs mt hfirst _ hes)

/-- There is no code for tests with tied results, since a block has no place. -/
theorem code_unplaced (h : ¬ Untied p.naming t) : t.synthesizeCode p = .error .unplacedBlock := by
  cases hc : t.synthesizeCode p with
  | error e =>
    have hfails : FailsOnly (· = .unplacedBlock) (t.synthesizeCode p) :=
      synthesizeCode_failsOnly hn rfl fun _ _ _ _ _ _ => .inr rfl
    rw [hfails e hc]
  | ok code =>
    refine absurd (fun suite hs mt hfirst es hes => ?_) h
    obtain ⟨body, -, c, x, tl, events, k, hevents, htold, -, -, hy⟩ :=
      exists_first_body hd hm ht hc hs hfirst
    obtain rfl := Except.ok.inj (hevents.symm.trans hes)
    exact htold.not_tied hy

end

end Lifeline.Code
