import Lifeline.Proofs.Code.Events
import Lifeline.Proofs.Tests.References

/-!
# When the events of a method happen

The events of a method stand on the timeline of its model: calls, results and raises at their
positions (`Event.At`), and the starts of branches at those of the branches (`Event.Opens`). A
result that is settled comes behind everything in its scope, and before everything that stands
further back and outside it:

* `Stage.settled_after`: behind the events that it encloses.
* `Stage.settled_before`: before a position further back that its scope does not reach.
* `Stage.settled_outer`: not before a result inside its scope, and if at the same moment, then half
  a step behind another event.
-/

namespace Lifeline.Code

open Model
open Tests (RefOf RefsOf ScopeRef)

/-- The references of a scope have its choices. -/
theorem choices_of_refs {m : Model} {tl : Timeline} (ht : tl.Fits m) {n : Nat} {μ : MethodId}
    {refs : List ScopeRef} (h : RefsOf (tl.scopeAt n μ) refs) :
    choices refs = (tl.scopeAt n μ).map Frame.choice := by
  have hl : ∀ f ∈ tl.scopeAt n μ, f.kind = .loop → f.branch = 0 := fun f => ht.loop_branch
  generalize tl.scopeAt n μ = S at h hl
  induction h with
  | nil => rfl
  | @cons f r S refs hr _ ih =>
    have hc : r.choice = f.choice := by
      rw [ScopeRef.choice, Frame.choice, hr.block]
      cases hk : f.kind with
      | alt => rw [hr.branch hk]
      | loop => rw [hr.loop hk, hl f (.head _) hk]; rfl
    rw [choices, List.map_cons, List.map_cons, hc]
    exact congrArg _ (ih fun f hf => hl f (.tail _ hf))

namespace Event

variable (m : Model) (tl : Timeline) (μ : MethodId)

/-- A call, a result or a raise of a method at its position. -/
structure At (n : Nat) (e : Event) : Prop where
  moment : e.moment = 2 * n
  refs : RefsOf (tl.scopeAt n μ) e.scope
  key : (∃ i ∈ m.interactions, i.position = n ∧ e.key = .call i.index) ∨
    (e.key = .result n ∧ tl.happens n = some (.value μ)) ∨
    (e.key = .raise n ∧ tl.happens n = some .throw)

/-- The start of a branch at the position `n`, among the given events. A scope of one of them that
the start lies in is around the branch. -/
structure Opens (events : List Event) (n : Nat) (e : Event) : Prop where
  moment : e.moment = 2 * n
  happens : tl.happens n = some .branch
  key : ∃ S f, tl.scopeAt (n + 1) μ = S ++ [f] ∧ e.key = .anchor f.block f.branch
  statement : e.statement = none
  inside : ∀ x ∈ events, ∀ k, At m tl μ k x → choices x.scope <+: choices e.scope →
    tl.scopeAt k μ <+: tl.scopeAt (n + 1) μ
  frames : ∀ r ∈ e.scope, ∃ f ∈ tl.scopeAt (n + 1) μ, RefOf f r

end Event

/-- The events of a method of a sound model, before results are settled. -/
structure Stage (m : Model) (tl : Timeline) (μ : MethodId) (events : List Event) : Prop where
  sound : m.Sound
  fits : tl.Fits m
  stands : ∀ e ∈ events, (∃ n, e.At m tl μ n) ∨ ∃ n, e.Opens m tl μ events n

namespace Stage

variable {m : Model} {tl : Timeline} {μ : MethodId} {events : List Event}
  (h : Stage m tl μ events)
include h

/-- What happens at the position of an event. -/
theorem happens_at {n : Nat} {e : Event} (he : e.At m tl μ n) :
    tl.happens n = some .call ∨ tl.happens n = some (.value μ) ∨ tl.happens n = some .throw := by
  rcases he.key with ⟨i, hi, rfl, -⟩ | ⟨-, hv⟩ | ⟨-, ht⟩
  · exact .inl (h.fits.interaction i hi).1
  · exact .inr (.inl hv)
  · exact .inr (.inr ht)

/-- Events at one position have the same key. -/
theorem key_eq {n : Nat} {e e' : Event} (he : e.At m tl μ n) (he' : e'.At m tl μ n) :
    e.key = e'.key := by
  rcases he.key with ⟨i, hi, hn, hk⟩ | ⟨hk, hv⟩ | ⟨hk, ht⟩ <;>
    rcases he'.key with ⟨i', hi', hn', hk'⟩ | ⟨hk', hv'⟩ | ⟨hk', ht'⟩
  · have hpos : (m.interactions.map (·.position)).Nodup :=
      List.pairwise_map.2 (h.sound.ordered.imp Nat.ne_of_lt)
    obtain rfl := List.inj_on_of_nodup_map hpos hi hi' (hn.trans hn'.symm)
    rw [hk, hk']
  · rw [← hn, (h.fits.interaction i hi).1] at hv'
    cases hv'
  · rw [← hn, (h.fits.interaction i hi).1] at ht'
    cases ht'
  · rw [← hn', (h.fits.interaction i' hi').1] at hv
    cases hv
  · rw [hk, hk']
  · rw [hv] at ht'
    cases ht'
  · rw [← hn', (h.fits.interaction i' hi').1] at ht
    cases ht
  · rw [ht] at hv'
    cases hv'
  · rw [hk, hk']

/-- Events of one moment have the same key. -/
theorem key_of_moment {e e' : Event} (he : e ∈ events) (he' : e' ∈ events)
    (hm : e.moment = e'.moment) : e.key = e'.key := by
  rcases h.stands e he with ⟨n, hn⟩ | ⟨n, hn⟩ <;> rcases h.stands e' he' with ⟨k, hk⟩ | ⟨k, hk⟩ <;>
    (have hmn := hn.moment; have hmk := hk.moment; obtain rfl : n = k := by omega)
  · exact h.key_eq hn hk
  · rcases h.happens_at hn with hc | hv | ht <;> simp_all [hk.happens]
  · rcases h.happens_at hk with hc | hv | ht <;> simp_all [hn.happens]
  · -- both start the innermost branch that is around the next position
    obtain ⟨S, f, hS, hkey⟩ := hn.key
    obtain ⟨S', f', hS', hkey'⟩ := hk.key
    obtain ⟨-, hf⟩ := List.append_inj' (hS.symm.trans hS') rfl
    obtain rfl := (List.cons.inj hf).1
    rw [hkey, hkey']

/-- Scopes of events are compared by their choices. -/
theorem prefix_iff {n k : Nat} {e x : Event} (he : e.At m tl μ n) (hx : x.At m tl μ k) :
    choices e.scope <+: choices x.scope ↔ tl.scopeAt n μ <+: tl.scopeAt k μ := by
  rw [choices_of_refs h.fits he.refs, choices_of_refs h.fits hx.refs, h.fits.prefix_iff h.sound]

/-- Where an event lies in the scope of another, that scope is around it. -/
theorem around {n : Nat} {e x : Event} (he : e ∈ events) (hat : e.At m tl μ n) (hx : x ∈ events)
    (hs : choices e.scope <+: choices x.scope) :
    ∃ k j : Nat, x.moment = 2 * k ∧ k ≤ j ∧ tl.scopeAt n μ <+: tl.scopeAt j μ ∧
      ((x.At m tl μ k ∧ j = k) ∨ (tl.happens k = some .branch ∧ j = k + 1)) := by
  rcases h.stands x hx with ⟨k, hk⟩ | ⟨k, hk⟩
  · exact ⟨k, k, hk.moment, Nat.le_refl k, (h.prefix_iff hat hk).1 hs, .inl ⟨hk, rfl⟩⟩
  · exact ⟨k, k + 1, hk.moment, Nat.le_succ k, hk.inside e he n hat hs, .inr ⟨hk.happens, rfl⟩⟩

/-- Moments before settling are full steps. -/
theorem even {e : Event} (he : e ∈ events) : ∃ k : Nat, e.moment = 2 * k := by
  rcases h.stands e he with ⟨k, hk⟩ | ⟨k, hk⟩
  · exact ⟨k, hk.moment⟩
  · exact ⟨k, hk.moment⟩

/-! ## Settled results -/

variable {r : Event} {n : Nat} (hr : r ∈ events) (hat : r.At m tl μ n)
  (hres : r.key.isResult = true)

variable (events) in
omit h in
include hat hres in
/-- Where a result comes to stand: behind the latest event in its scope, or at its position. -/
theorem settled_moment : ∃ latest, latest = Event.latestIn events r.scope r.moment ∧
    2 * (n : Int) ≤ latest ∧
    (((Event.settled events r).moment = latest + 1 ∧ 2 * (n : Int) < latest) ∨
      ((Event.settled events r).moment = latest ∧ latest = 2 * (n : Int))) := by
  refine ⟨_, rfl, by rw [← hat.moment]; exact Event.le_latestIn _ _ _, ?_⟩
  unfold Event.settled
  split
  · rename_i hlt
    exact .inl ⟨rfl, hat.moment ▸ hlt.2⟩
  · rename_i hlt
    have hge : Event.latestIn events r.scope r.moment ≤ r.moment := by
      by_contra hn
      exact hlt ⟨hres, by omega⟩
    have hle := Event.le_latestIn events r.scope r.moment
    have hm := hat.moment
    exact .inr ⟨by omega, by omega⟩

variable (events) in
omit h in
include hat hres in
theorem le_settled : 2 * (n : Int) ≤ (Event.settled events r).moment := by
  obtain ⟨latest, -, hle, ⟨hm, -⟩ | ⟨hm, -⟩⟩ := settled_moment events hat hres <;> omega

include hat hres in
/-- A settled result comes behind the events in its scope. -/
theorem settled_after {x : Event} {k : Nat} (hx : x ∈ events) (hxat : x.At m tl μ k)
    (hne : x.key ≠ r.key) (hs : choices r.scope <+: choices x.scope) :
    2 * (k : Int) < (Event.settled events r).moment := by
  obtain ⟨latest, hl, -, hcase⟩ := settled_moment events hat hres
  have hle : x.moment ≤ latest := hl ▸ Event.moment_le_latestIn hx hs
  have hm := hxat.moment
  have hkn : k ≠ n := by
    rintro rfl
    exact hne (h.key_eq hxat hat)
  rcases hcase with ⟨hm', -⟩ | ⟨hm', hl'⟩ <;> omega

include hr hat hres in
/-- A settled result comes before a position further back that its scope does not reach. -/
theorem settled_before {k : Nat} (hlt : n < k)
    (hs : ¬ tl.scopeAt n μ <+: tl.scopeAt k μ) :
    (Event.settled events r).moment < 2 * (k : Int) := by
  obtain ⟨latest, hl, -, hcase⟩ := settled_moment events hat hres
  have hlatest : latest < 2 * (k : Int) - 1 := by
    rcases Event.latestIn_cases events r.scope r.moment with
      he | ⟨x, hx, hsx, he⟩
    · have hm := hat.moment
      omega
    · obtain ⟨i, j, hm, hij, hpre, hj⟩ := h.around hr hat hx hsx
      have hjk : j < k := by
        by_contra hge
        exact hs (h.fits.between (Nat.le_of_lt hlt) (by omega) List.prefix_rfl hpre)
      omega
  rcases hcase with ⟨hm', -⟩ | ⟨hm', hl'⟩ <;> omega

include hat hres in
/-- A settled result does not come before one inside its scope. -/
theorem settled_outer {a : Event} {k : Nat} (ha : a ∈ events) (haat : a.At m tl μ k)
    (hares : a.key.isResult = true)
    (hpre : choices r.scope <+: choices a.scope) (hnpre : ¬ choices a.scope <+: choices r.scope) :
    (Event.settled events a).moment < (Event.settled events r).moment ∨
      ((Event.settled events a).moment = (Event.settled events r).moment ∧
        (Event.settled events a).moment % 2 = 1) := by
  obtain ⟨La, hLa, hlea, hcasea⟩ := settled_moment events haat hares
  obtain ⟨Lr, hLr, hler, hcaser⟩ := settled_moment events hat hres
  -- the latest event in the inner scope is in the outer one too, and it is not the outer result
  obtain ⟨x, hx, hsx, hmx⟩ : ∃ x ∈ events, choices a.scope <+: choices x.scope ∧ x.moment = La := by
    rcases Event.latestIn_cases events a.scope a.moment with
      he | ⟨x, hx, hs, he⟩
    · exact ⟨a, ha, List.prefix_rfl, by rw [hLa, he]⟩
    · exact ⟨x, hx, hs, by rw [hLa, he]⟩
  have hle : La ≤ Lr := by
    rw [← hmx, hLr]
    exact Event.moment_le_latestIn hx (hpre.trans hsx)
  obtain ⟨i, hi⟩ := h.even hx
  have hLn : La ≠ 2 * (n : Int) := by
    intro he
    obtain ⟨i, j, hm, -, -, ⟨hxat, -⟩ | ⟨hb, -⟩⟩ := h.around ha haat hx hsx
    · obtain rfl : i = n := by omega
      have hkey := h.key_eq hxat hat
      refine hnpre ?_
      rw [choices_of_refs h.fits hat.refs, ← choices_of_refs h.fits hxat.refs]
      exact hsx
    · obtain rfl : i = n := by omega
      rcases h.happens_at hat with hc | hv | ht <;> simp_all
  rcases hcaser with ⟨hr, -⟩ | ⟨hr, hn⟩ <;> rcases hcasea with ⟨hma, -⟩ | ⟨hma, -⟩ <;> omega

end Stage

end Lifeline.Code
