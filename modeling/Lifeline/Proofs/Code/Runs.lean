import Lifeline.Proofs.Code.Fold

/-!
# Where runs get to

A driven run of some events gets to one of them where it stops at none before it (`Unstopped`). Then
it does what the event does: it makes a call that only this event makes (`called_iff`), and ends as
only this event does (`ending_iff`).
-/

namespace Lifeline.Code

/-! ## Where runs stop -/

section

variable {d : Drive} {ps : List Placed} {p : Placed}

/-- A driven run that gets to the event stops there. -/
def Placed.Stops (d : Drive) (p : Placed) : Prop := (p.trace d).ending ≠ .finished

/-- A driven run does not stop before it gets to the event. -/
def Unstopped (d : Drive) (ps : List Placed) (p : Placed) : Prop :=
  ∀ q ∈ ps, q.Stops d → ¬ [q, p].Sublist ps

theorem mem_of_before {α : Type} {A B : List α} {a b : α} (hn : (A ++ b :: B).Nodup)
    (h : [a, b].Sublist (A ++ b :: B)) : a ∈ A := by
  induction A with
  | nil =>
    have hb : b ∉ B := (List.nodup_cons.1 hn).1
    rcases List.sublist_cons_iff.1 h with h | ⟨l, hl, h⟩
    · exact absurd (h.subset (.tail _ (.head _))) hb
    · obtain ⟨rfl, rfl⟩ := List.cons.inj hl
      exact absurd (h.subset (.head _)) hb
  | cons x A ih =>
    rcases List.sublist_cons_iff.1 h with h | ⟨l, hl, -⟩
    · exact .tail _ (ih (List.nodup_cons.1 hn).2 h)
    · obtain ⟨rfl, -⟩ := List.cons.inj hl
      exact .head _

theorem before_of_mem {α : Type} {A B : List α} {a b : α} (h : a ∈ A) :
    [a, b].Sublist (A ++ b :: B) :=
  (List.singleton_sublist.2 h).append (List.singleton_sublist.2 (.head _))

/-- An event is got to where every event in front of it is passed. -/
theorem unstopped_iff (hn : ps.Nodup) {A B : List Placed} (hps : ps = A ++ p :: B) :
    Unstopped d ps p ↔ ∀ q ∈ A, (q.trace d).ending = .finished := by
  constructor
  · intro h q hq
    by_contra hs
    refine h q (hps ▸ List.mem_append_left _ hq) hs ?_
    rw [hps]
    exact before_of_mem hq
  · intro h q _ hs hqp
    rw [hps] at hqp hn
    exact hs (h q (mem_of_before hn hqp))

/-- A call that only one event makes is made where a run gets to that event. -/
theorem called_iff (hn : ps.Nodup) (hp : p ∈ ps) {R : CallStatement → Prop}
    (hR : ∃ s ∈ (p.trace d).calls, R s)
    (honly : ∀ q ∈ ps, ∀ s ∈ (q.trace d).calls, R s → q = p) :
    (∃ s ∈ (driveEvents d ps).calls, R s) ↔ Unstopped d ps p := by
  constructor
  · rintro ⟨s, hs, hRs⟩
    obtain ⟨A, q, B, hps, hA, hsq⟩ := Trace.mem_calls_chain.1 hs
    obtain rfl := honly q (hps ▸ List.mem_append_right _ (.head _)) s hsq hRs
    exact (unstopped_iff hn hps).2 hA
  · intro h
    obtain ⟨s, hs, hRs⟩ := hR
    obtain ⟨A, B, hps⟩ := List.append_of_mem hp
    exact ⟨s, Trace.mem_calls_chain.2 ⟨A, p, B, hps, (unstopped_iff hn hps).1 h, hs⟩, hRs⟩

/-- A run ends as only one event does where it gets to that event. -/
theorem ending_iff (hn : ps.Nodup) (hp : p ∈ ps) {e : Ending} (he : e ≠ .finished)
    (hpe : (p.trace d).ending = e) (honly : ∀ q ∈ ps, (q.trace d).ending = e → q = p) :
    (driveEvents d ps).ending = e ↔ Unstopped d ps p := by
  rw [driveEvents, Trace.ending_chain he]
  constructor
  · rintro ⟨A, q, B, hps, hA, hq⟩
    obtain rfl := honly q (hps ▸ List.mem_append_right _ (.head _)) hq
    exact (unstopped_iff hn hps).2 hA
  · intro h
    obtain ⟨A, B, hps⟩ := List.append_of_mem hp
    exact ⟨A, p, B, hps, (unstopped_iff hn hps).1 h, hpe⟩

theorem Timed.before {q : Placed} (ht : Timed ps) (hq : q ∈ ps) (hp : p ∈ ps)
    (h : q.event.moment < p.event.moment) : [q, p].Sublist ps := by
  obtain ⟨A, B, rfl⟩ := List.append_of_mem hp
  rcases List.mem_append.1 hq with hq | hq
  · exact before_of_mem hq
  · rcases List.mem_cons.1 hq with rfl | hq
    · omega
    · have := (List.pairwise_cons.1 (List.pairwise_append.1 ht).2.1).1 q hq
      omega

theorem Timed.le {q : Placed} (ht : Timed ps) (h : [q, p].Sublist ps) :
    q.event.moment ≤ p.event.moment :=
  List.pairwise_iff_forall_sublist.1 ht h

/-! ## What events do -/

theorem trace_of_not_reached (h : p.reached d = false) : p.trace d = {} := by
  simp [Placed.trace, h]

theorem trace_none (h : p.event.statement = none) : p.trace d = {} := by
  simp [Placed.trace, h, driveAll]

theorem trace_call {s : CallStatement} (h : p.event.statement = some (.call s))
    (hr : p.reached d = true) : p.trace d =
      { calls := [s], ending := if d.raises s.sequence then .passedOn s else .finished } := by
  simp [Placed.trace, h, hr, driveAll, Statement.drive]

theorem trace_return {s : ReturnStatement} (h : p.event.statement = some (.return s))
    (hr : p.reached d = true) : p.trace d = { ending := .returned s } := by
  simp [Placed.trace, h, hr, driveAll, Statement.drive]

theorem trace_raise {s : RaiseStatement} (h : p.event.statement = some (.raise s))
    (hr : p.reached d = true) : p.trace d = { ending := .raised s } := by
  simp [Placed.trace, h, hr, driveAll, Statement.drive]

end

end Lifeline.Code
