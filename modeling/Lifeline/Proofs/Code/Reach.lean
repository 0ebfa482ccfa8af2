import Lifeline.Proofs.Code.Stops

/-!
# What a group gets to

Which of two events the fold puts first (`Told.plain_before_plain`, `Told.result_before_plain`,
`Told.result_before_result`), and with it where the driven run of a group gets to.

* **`Told.unstopped_call`**: a run gets to a call unless a raise stands before it, or a result does
  that lies not around the call.
* **`Told.unstopped_result`**: a run gets to a result unless it gets to another one first.
-/

namespace Lifeline.Code

open Model
open Tests (Context Group GroupOf MethodOf MethodTests ResultCheck)

namespace Told

variable {c : Context} {x : Model.Method} {mt : MethodTests} {tl : Timeline} {events : List Event}
  (h : Told c x mt tl events) (hm : MethodOf c x mt) (hx : x ∈ c.model.methods)
  {P : Path} (hP : P ∈ c.paths x) {g : Group} (hgm : g ∈ mt.groups) (hg : GroupOf c x P g)

theorem mem_of_placed {e : Event} (he : e ∈ events) : e.placedIn events ∈ placed events :=
  mem_placed.2 ⟨e, he, rfl⟩

include h in
/-- No event comes before itself. -/
theorem not_before_self {p : Placed} : ¬ [p, p].Sublist (placed events) := fun hp =>
  List.pairwise_iff_forall_sublist.1 (List.Nodup.of_map _ (nodup_placed h.nodup)) hp rfl

variable (events) in
/-- Where an event stands that is no result. -/
theorem moment_of_not_result {m : Model} {μ : MethodId} {e : Event} {n : Nat} (hat : e.At m tl μ n)
    (hr : e.key.isResult = false) : (Event.settled events e).moment = 2 * (n : Int) := by
  rw [Event.settled_of_not_result hr]
  exact hat.moment

/-! ## Which of two events comes first -/

/-- Of two events one comes first. -/
theorem before_or {y e : Event} (hy : y ∈ events) (he : e ∈ events) (hne : y.scope ≠ e.scope) :
    [e.placedIn events, y.placedIn events].Sublist (placed events) ∨
      [y.placedIn events, e.placedIn events].Sublist (placed events) := by
  obtain ⟨A, B, hAB⟩ := List.append_of_mem (mem_of_placed he)
  have hmem := mem_of_placed hy
  rw [hAB] at hmem ⊢
  rcases List.mem_append.1 hmem with hyA | hyB
  · exact .inr (before_of_mem hyA)
  · refine .inl (List.sublist_append_of_sublist_right (List.Sublist.cons_cons _ ?_))
    exact List.singleton_sublist.2 ((List.mem_cons.1 hyB).resolve_left fun heq =>
      hne (congrArg Placed.scope heq))

theorem before_of_lt {y e : Event} (hy : y ∈ events) (he : e ∈ events)
    (hlt : (Event.settled events y).moment < (Event.settled events e).moment) :
    [y.placedIn events, e.placedIn events].Sublist (placed events) :=
  (timed_placed events).before (mem_of_placed hy) (mem_of_placed he) hlt

theorem le_of_before {y e : Event}
    (h : [y.placedIn events, e.placedIn events].Sublist (placed events)) :
    (Event.settled events y).moment ≤ (Event.settled events e).moment :=
  (timed_placed events).le h

/-- Of two events in a tie half a step behind another, the one whose scope lies around the other's
does not come first. -/
theorem not_before_of_tie {k : Knowledge} {body : List Statement}
    (hb : Yields (fold k (events.map (Event.settled events))) body) {y e : Event}
    (hm : (Event.settled events e).moment = (Event.settled events y).moment)
    (hodd : (Event.settled events y).moment % 2 = 1) (hpre : choices y.scope <+: choices e.scope)
    (hn : ¬ choices e.scope <+: choices y.scope) :
    ¬ [y.placedIn events, e.placedIn events].Sublist (placed events) := fun hp => by
  have hle := Stage.not_further hb hp hm hodd hpre
  have hl : (choices e.scope).length ≤ (choices y.scope).length := by
    simpa [choices, Event.placedIn] using hle
  rw [hpre.eq_of_length_le hl] at hn
  exact hn List.prefix_rfl

include h

/-- Two results do not lie around each other. -/
theorem not_around {y e : Event} (hy : y ∈ events) (he : e ∈ events) (hne : y ≠ e)
    (hyr : y.key.isResult = true) (her : e.key.isResult = true)
    (hpre : choices y.scope <+: choices e.scope) : ¬ choices e.scope <+: choices y.scope := by
  have ho := h.outward
  obtain ⟨A, B, rfl⟩ := List.append_of_mem he
  obtain ⟨-, hB, hA⟩ := List.pairwise_append.1 ho
  rcases List.mem_append.1 hy with hyA | hyB
  · exact hA y hyA e (.head _) hyr her
  · have hyB := (List.mem_cons.1 hyB).resolve_left hne
    exact absurd hpre ((List.pairwise_cons.1 hB).1 y hyB her hyr)

variable {y e : Event} (hy : y ∈ events) (he : e ∈ events) {i n : Nat}
  (hyat : y.At c.model tl x.call i) (hat : e.At c.model tl x.call n)
include hy he hyat hat

/-- Events that are no results keep the order of their positions. -/
theorem plain_before_plain (hyr : y.key.isResult = false) (her : e.key.isResult = false) :
    [y.placedIn events, e.placedIn events].Sublist (placed events) ↔ i < n := by
  have hym := moment_of_not_result events hyat hyr
  have hem := moment_of_not_result events hat her
  constructor
  · intro hbefore
    have hle := le_of_before hbefore
    by_contra hge
    obtain rfl : i = n := by omega
    obtain rfl := h.eq_of_at hy he hyat hat
    exact h.not_before_self hbefore
  · intro hlt
    exact before_of_lt hy he (by omega)

/-- A result comes before another event where it stands before it and not around it. -/
theorem result_before_plain (hyr : y.key.isResult = true) (her : e.key.isResult = false) :
    [y.placedIn events, e.placedIn events].Sublist (placed events) ↔
      i ≤ n ∧ ¬ choices y.scope <+: choices e.scope := by
  have hem := moment_of_not_result events hat her
  have hkey : e.key ≠ y.key := fun hk => by simp [hk, hyr] at her
  constructor
  · intro hbefore
    have hle := le_of_before hbefore
    have hfrom := Stage.le_settled events hyat hyr
    refine ⟨by omega, fun hpre => ?_⟩
    have := h.settled_after hyat hyr he hat hkey hpre
    omega
  · rintro ⟨hin, hpre⟩
    have hne : i ≠ n := by
      rintro rfl
      exact hkey (h.key_eq hat hyat)
    rw [h.prefix_iff hyat hat] at hpre
    have := h.settled_before hy hyat hyr (k := n) (by omega) hpre
    exact before_of_lt hy he (by omega)

/-- A result comes before another one unless it lies around it, or stands behind it and not
inside. -/
theorem result_before_result {k : Knowledge} {body : List Statement}
    (hb : Yields (fold k (events.map (Event.settled events))) body) (hyr : y.key.isResult = true)
    (her : e.key.isResult = true) (hne : i ≠ n) :
    [y.placedIn events, e.placedIn events].Sublist (placed events) ↔
      ¬ (choices y.scope <+: choices e.scope ∨
        (n < i ∧ ¬ choices e.scope <+: choices y.scope)) := by
  constructor
  · rintro hbefore (hpre | ⟨hlt, hnpre⟩)
    · have hle := le_of_before hbefore
      have hye : y ≠ e := fun heq => h.not_before_self (heq ▸ hbefore)
      have hnpre := h.not_around hy he hye hyr her hpre
      rcases h.settled_outer hyat hyr he hat her hpre hnpre with hlt | ⟨heq, hodd⟩
      · omega
      · exact not_before_of_tie hb heq (heq ▸ hodd) hpre hnpre hbefore
    · have hle := le_of_before hbefore
      rw [h.prefix_iff hat hyat] at hnpre
      have := h.settled_before he hat her (k := i) (by omega) hnpre
      have := Stage.le_settled events hyat hyr
      omega
  · intro hn
    obtain ⟨hnpre, hinside⟩ := not_or.1 hn
    by_cases hey : choices e.scope <+: choices y.scope
    · rcases h.settled_outer hat her hy hyat hyr hey hnpre with hlt | ⟨heq, hodd⟩
      · exact before_of_lt hy he hlt
      · have hnot := not_before_of_tie hb heq (heq ▸ hodd) hey hnpre
        have hscopes : e.scope ≠ y.scope := fun hs => hnpre (hs ▸ List.prefix_rfl)
        exact (before_or he hy hscopes).resolve_right hnot
    · have hlt : i < n := by
        by_contra hge
        exact hinside ⟨by omega, hey⟩
      rw [h.prefix_iff hyat hat] at hnpre
      have := h.settled_before hy hyat hyr (k := n) hlt hnpre
      have := Stage.le_settled events hat her
      exact before_of_lt hy he (by omega)

omit hy he hyat hat

/-! ## Where runs get to -/

include hm hx hP hg

include hgm in
/-- **Where a run gets to a call**: no raise that the group checks stands before it, and every
result that the group drives stands behind it or lies around it. -/
theorem unstopped_call {e : Event} (he : e ∈ events) {n : Nat} (hat : e.At c.model tl x.call n)
    (hnot : e.key.isResult = false) :
    Unstopped g.drive (placed events) (e.placedIn events) ↔
      (∀ t ∈ g.raiseChecks, (n : Int) ≤ t.sequence) ∧
        ∀ r, mt.Asserts (.result r) → g.drives r.scope = true →
          (n : Int) < r.sequence ∨ choices r.scope <+: choices e.scope := by
  constructor
  · refine fun hu => ⟨fun t ht => ?_, fun r hr hd => ?_⟩
    · obtain ⟨y, hy, k, hyat, hk, hyr, hstop⟩ := h.exists_stop hm hx hP hg hgm ht
      by_contra hlt
      refine hu _ (mem_of_placed hy) hstop ?_
      rw [h.plain_before_plain hy he hyat hat hyr hnot]
      omega
    · obtain ⟨y, hy, hof⟩ := h.exists_result hm hx hr
      obtain ⟨k, hyat, hk, hscope, hyr⟩ := result_at hm hx h.sound h.fits hr hof
      by_contra hn
      refine hu _ (mem_of_placed hy) (stops_result hof hd) ?_
      rw [h.result_before_plain hy he hyat hat hyr hnot, hscope]
      exact ⟨by omega, fun hpre => hn (.inr hpre)⟩
  · rintro ⟨hraise, hresult⟩ q hq hstop hbefore
    obtain ⟨y, hy, rfl⟩ := mem_placed.1 hq
    rcases h.stops_cases hm hx hP hg hy hstop with ⟨r, hr, hof, hd⟩ | ⟨k, hyat, hyr, s, hs, hsk⟩
    · obtain ⟨k, hyat, hk, hscope, hyr⟩ := result_at hm hx h.sound h.fits hr hof
      rw [h.result_before_plain hy he hyat hat hyr hnot, hscope] at hbefore
      exact (hresult r hr hd).elim (fun hlt => by omega) hbefore.2
    · rw [h.plain_before_plain hy he hyat hat hyr hnot] at hbefore
      obtain ⟨t, ht, hst⟩ := forall₂_left hg.raises s (by simp [hs])
      have hn := hraise t ht
      have hsequence := hst.sequence
      omega

/-- **Where a run gets to a result**: every other result that the group drives lies around it, or
stands behind it and not inside. -/
theorem unstopped_result {k : Knowledge} {body : List Statement}
    (hb : Yields (fold k (events.map (Event.settled events))) body)
    (hnone : c.firstSite x P = none) {a : ResultCheck} (ha : mt.Asserts (.result a)) {e : Event}
    (he : e ∈ events) (hof : EventOf (.result a) e) :
    Unstopped g.drive (placed events) (e.placedIn events) ↔
      ∀ r, mt.Asserts (.result r) → g.drives r.scope = true → r.sequence ≠ a.sequence →
        choices r.scope <+: choices a.scope ∨
          (a.sequence < r.sequence ∧ ¬ choices a.scope <+: choices r.scope) := by
  obtain ⟨n, hat, hn, hscope, her⟩ := result_at hm hx h.sound h.fits ha hof
  have hbefore : ∀ {y r}, y ∈ events → mt.Asserts (.result r) → EventOf (.result r) y →
      r.sequence ≠ a.sequence → ([y.placedIn events, e.placedIn events].Sublist (placed events) ↔
        ¬ (choices r.scope <+: choices a.scope ∨
          (a.sequence < r.sequence ∧ ¬ choices a.scope <+: choices r.scope))) := by
    intro y r hy hr hyof hne
    obtain ⟨i, hyat, hi, hyscope, hyr⟩ := result_at hm hx h.sound h.fits hr hyof
    rw [h.result_before_result hy he hyat hat hb hyr her (by omega), hscope, hyscope, hn, hi,
      Int.ofNat_lt]
  constructor
  · intro hu r hr hd hne
    obtain ⟨y, hy, hyof⟩ := h.exists_result hm hx hr
    by_contra hcase
    exact hu _ (mem_of_placed hy) (stops_result hyof hd) ((hbefore hy hr hyof hne).2 hcase)
  · intro hall q hq hstop hqe
    obtain ⟨y, hy, rfl⟩ := mem_placed.1 hq
    rcases h.stops_cases hm hx hP hg hy hstop with ⟨r, hr, hyof, hd⟩ | ⟨-, -, -, s, hs, -⟩
    · have hne : r.sequence ≠ a.sequence := fun heq => by
        obtain ⟨i, hyat, hi, -, -⟩ := result_at hm hx h.sound h.fits hr hyof
        obtain rfl : i = n := by omega
        obtain rfl := h.eq_of_at hy he hyat hat
        exact h.not_before_self hqe
      exact (hbefore hy hr hyof hne).1 hqe (hall r hr hd hne)
    · rw [hnone] at hs
      cases hs

end Told

end Lifeline.Code
