import Lifeline.Code.Event
import Lifeline.Proofs.Lists
import Lifeline.Proofs.Sorting
import Mathlib.Data.List.Basic
import Mathlib.Data.List.Nodup

/-!
# Lists of events

Collecting events keeps one of each key (`Event.nodup_addAll`, `Event.key_mem_addAll`). Settling
moves each result behind the latest event in its scope, and where no result stands in front of one
that lies around it, all results at once (`Event.settleResults_eq`).
-/

namespace Lifeline.Code.Event

/-! ## Collecting -/

/-- The events with more of them, of each key the first. -/
def addAll (events more : List Event) : List Event := more.foldl add events

/-- Collecting adds some of the new events behind the old ones. -/
theorem addAll_eq : ∀ (more events : List Event), ∃ new, addAll events more = events ++ new ∧
    new.Sublist more
  | [], events => ⟨[], by simp [addAll], .slnil⟩
  | e :: more, events => by
    obtain ⟨new, hnew, hs⟩ := addAll_eq more (add events e)
    have hcons : addAll events (e :: more) = addAll (add events e) more := rfl
    rw [hcons, hnew, add]
    split
    · exact ⟨new, rfl, hs.cons _⟩
    · exact ⟨e :: new, by simp, hs.cons_cons _⟩

theorem subset_addAll (events more : List Event) : events ⊆ addAll events more := by
  obtain ⟨new, hnew, -⟩ := addAll_eq more events
  rw [hnew]
  exact List.subset_append_left _ _

theorem nodup_addAll (more : List Event) {events : List Event}
    (h : (events.map (·.key)).Nodup) : ((addAll events more).map (·.key)).Nodup :=
  nodup_foldl_new more h

/-- Every key that came is there. -/
theorem key_mem_addAll {more : List Event} (events : List Event) {e : Event} (h : e ∈ more) :
    ∃ e' ∈ addAll events more, e'.key = e.key :=
  List.mem_map.1 (key_mem_foldl_new (.inr h))

/-! ## Settling -/

section

variable (events : List Event) (scope : List Tests.ScopeRef) (moment : Int)

theorem le_foldl_max : ∀ (es : List Event) (n : Int),
    n ≤ es.foldl (fun latest e => max latest e.moment) n
  | [], n => Int.le_refl n
  | e :: es, n => Int.le_trans (Int.le_max_left n e.moment) (le_foldl_max es _)

theorem le_latestIn : moment ≤ latestIn events scope moment := le_foldl_max _ _

variable {events scope moment} in
theorem moment_le_latestIn {e : Event} (he : e ∈ events)
    (hs : choices scope <+: choices e.scope) : e.moment ≤ latestIn events scope moment := by
  have hm : e ∈ events.filter fun e => (choices scope).isPrefixOf (choices e.scope) :=
    List.mem_filter.2 ⟨he, List.isPrefixOf_iff_prefix.2 hs⟩
  unfold latestIn
  generalize events.filter _ = es at hm
  induction es generalizing moment with
  | nil => simp at hm
  | cons x es ih =>
    rw [List.foldl_cons]
    rcases List.mem_cons.1 hm with rfl | hm
    · exact Int.le_trans (Int.le_max_right _ _) (le_foldl_max es _)
    · exact ih hm

theorem latestIn_cases : latestIn events scope moment = moment ∨
    ∃ e ∈ events, choices scope <+: choices e.scope ∧ e.moment = latestIn events scope moment := by
  have hf : ∀ (es : List Event) (n : Int), es.foldl (fun latest e => max latest e.moment) n = n ∨
      ∃ e ∈ es, e.moment = es.foldl (fun latest e => max latest e.moment) n := by
    intro es
    induction es with
    | nil => exact fun n => .inl rfl
    | cons x es ih =>
      intro n
      rw [List.foldl_cons]
      rcases ih (max n x.moment) with h | ⟨e, he, h⟩
      · rcases Int.max_def n x.moment ▸ ite_eq_or_eq _ x.moment n with hm | hm
        · exact .inr ⟨x, .head _, by rw [h, hm]⟩
        · exact .inl (by rw [h, hm])
      · exact .inr ⟨e, .tail _ he, h⟩
  refine (hf _ moment).imp_right fun ⟨e, he, h⟩ => ?_
  obtain ⟨he, hs⟩ := List.mem_filter.1 he
  exact ⟨e, he, List.isPrefixOf_iff_prefix.1 hs, h⟩

end

/-- The event behind all others in its scope, if it is a result. -/
def settled (events : List Event) (e : Event) : Event :=
  if e.key.isResult ∧ e.moment < latestIn events e.scope e.moment then
    { e with moment := latestIn events e.scope e.moment + 1 }
  else e

section

variable (events : List Event) (e : Event)

@[simp] theorem settled_key : (settled events e).key = e.key := by
  unfold settled
  split <;> rfl

@[simp] theorem settled_scope : (settled events e).scope = e.scope := by
  unfold settled
  split <;> rfl

@[simp] theorem settled_statement : (settled events e).statement = e.statement := by
  unfold settled
  split <;> rfl

variable {events e}

theorem settled_of_not_result (h : e.key.isResult = false) : settled events e = e := by
  simp [settled, h]

end

/-- No result stands in front of one that lies around it. -/
def Outward (events : List Event) : Prop :=
  events.Pairwise fun x y => x.key.isResult = true → y.key.isResult = true →
    ¬ choices y.scope <+: choices x.scope

/-- What the events before a result have become does not matter to where it goes. -/
theorem latestIn_settled (events : List Event) {A B : List Event} {e : Event}
    (ho : Outward (A ++ e :: B)) (he : e.key.isResult = true) :
    latestIn (A.map (settled events) ++ e :: B) e.scope e.moment =
      latestIn (A ++ e :: B) e.scope e.moment := by
  have hA : ∀ x ∈ A, (choices e.scope).isPrefixOf (choices x.scope) = true →
      settled events x = x := fun x hx hs => by
    refine settled_of_not_result (Bool.eq_false_iff.2 fun hr => ?_)
    exact (List.pairwise_append.1 ho).2.2 x hx e (.head _) hr he (List.isPrefixOf_iff_prefix.1 hs)
  have hfilter : (A.map (settled events)).filter
      (fun x => (choices e.scope).isPrefixOf (choices x.scope)) =
        A.filter fun x => (choices e.scope).isPrefixOf (choices x.scope) := by
    rw [List.filter_map]
    have hq : ((fun x : Event => (choices e.scope).isPrefixOf (choices x.scope)) ∘
        settled events) = fun x => (choices e.scope).isPrefixOf (choices x.scope) := by
      funext x
      simp
    rw [hq]
    conv_rhs => rw [← List.map_id (A.filter _)]
    refine List.map_congr_left fun x hx => ?_
    obtain ⟨hx, hs⟩ := List.mem_filter.1 hx
    exact hA x hx hs
  rw [latestIn, latestIn, List.filter_append, List.filter_append, hfilter]

/-- Only the event of the key is moved. -/
theorem map_moved {e : Event} {n : Int} {l : List Event} (h : ∀ x ∈ l, x.key ≠ e.key) :
    l.map (fun x => if x.key == e.key then { x with moment := n } else x) = l := by
  conv_rhs => rw [← List.map_id l]
  exact List.map_congr_left fun x hx => if_neg (by simpa using h x hx)

/-- One more result is settled, where those before it have been. -/
theorem settle_next {events A B : List Event} {e : Event} (hn : (events.map (·.key)).Nodup)
    (ho : Outward events) (hevents : events = A ++ e :: B) (hr : e.key.isResult = true) :
    settle (A.map (settled events) ++ e :: B) e = (A ++ [e]).map (settled events) ++ B := by
  have hkeys := hn
  rw [hevents, List.map_append, List.map_cons, List.nodup_append, List.nodup_cons] at hkeys
  obtain ⟨-, ⟨hB, -⟩, hA⟩ := hkeys
  have hdone : ∀ x ∈ A.map (settled events), x.key ≠ e.key := fun x hx hk => by
    obtain ⟨y, hy, rfl⟩ := List.mem_map.1 hx
    exact hA _ (List.mem_map_of_mem hy) _ (.head _) (by simpa using hk)
  have hcome : ∀ x ∈ B, x.key ≠ e.key := fun x hx hk => hB (hk ▸ List.mem_map_of_mem hx)
  have hlatest := latestIn_settled events (hevents ▸ ho) hr
  rw [← hevents] at hlatest
  have hsettled : (A ++ [e]).map (settled events) ++ B =
      A.map (settled events) ++ settled events e :: B := by simp
  rw [settle, hlatest, hsettled]
  split
  · rename_i hlt
    have hmoved : settled events e =
        { e with moment := latestIn events e.scope e.moment + 1 } := if_pos ⟨hr, hlt⟩
    rw [List.map_append, List.map_cons, map_moved hdone, map_moved hcome, hmoved,
      if_pos (by simp)]
  · rename_i hlt
    have hstays : settled events e = e := if_neg fun h => hlt h.2
    rw [hstays]

/-- **Settling the results** moves each behind the latest event in its scope. -/
theorem settleResults_eq {events : List Event} (hn : (events.map (·.key)).Nodup)
    (ho : Outward events) : settleResults events = events.map (settled events) := by
  -- the events before those that are still to come have been settled
  have hfold : ∀ A B : List Event, events = A ++ B →
      B.foldl (fun es e => if e.key.isResult then settle es e else es)
        (A.map (settled events) ++ B) = events.map (settled events) := by
    intro A B
    induction B generalizing A with
    | nil =>
      rintro rfl
      simp
    | cons e B ih =>
      intro hevents
      have hstep : (if e.key.isResult then settle (A.map (settled events) ++ e :: B) e
          else A.map (settled events) ++ e :: B) =
            (A ++ [e]).map (settled events) ++ B := by
        cases hr : e.key.isResult with
        | false => simp [settled_of_not_result hr]
        | true => exact settle_next hn ho hevents hr
      rw [List.foldl_cons, hstep]
      exact ih (A ++ [e]) (by simp [hevents])
  exact hfold [] events rfl

end Lifeline.Code.Event
