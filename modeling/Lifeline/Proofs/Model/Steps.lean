import Lifeline.Proofs.Diagram.OpenCalls
import Lifeline.Proofs.Model.Messages

/-!
# Steps of a walk

What every step of a walk over a sound diagram keeps holds of the whole walk (`Walk.run_inv`). So a
walk loses no message: every call, reply, raise and result of a diagram in which no call is answered
twice is in the lists of the walk, at its position (`Walk.complete_of_run`).
-/

set_option autoImplicit false

namespace Lifeline.Model.Walk

variable {es : List Element} {w w' : Walk} {e : Element}

/-! ## Invariants -/

theorem Follows.next (h : Follows es w) {rest : List Element}
    (hd : (Diagram.mk (es ++ e :: rest)).Sound) (hw : w.step es.length e = .ok w') :
    Follows (es ++ [e]) w' := by
  have hget : (Diagram.mk (es ++ e :: rest)).elements[es.length]? = some e := by simp
  have hbefore : (Diagram.mk (es ++ e :: rest)).elements.take es.length = es := List.take_left
  have hbranched := hd.branched es.length
  have hanswered := hd.answered es.length
  rw [hget, hbefore] at hbranched hanswered
  exact h.step (fun r he => hanswered r (congrArg some he))
    (fun line guard he => hbranched line guard (congrArg some he)) hw

/-- An invariant of a walk over a sound diagram: it holds at the start, and every step keeps it. -/
theorem run_inv {d : Diagram} (hd : d.Sound) (P : List Element → Walk → Prop) (start : P [] {})
    (step : ∀ es e rest w w', d.elements = es ++ e :: rest → Follows es w → P es w →
      w.step es.length e = .ok w' → P (es ++ [e]) w')
    (hw : Walk.run {} 0 d.elements = .ok w) : P d.elements w := by
  have further : ∀ (rest es : List Element) (u : Walk), d.elements = es ++ rest → Follows es u →
      P es u → Walk.run u es.length rest = .ok w → P d.elements w := by
    intro rest
    induction rest with
    | nil =>
      intro es u he _ hp hw
      obtain rfl := Except.ok.inj hw
      rwa [he, List.append_nil]
    | cons e rest ih =>
      intro es u he hf hp hw
      rw [Walk.run, bind_ok] at hw
      obtain ⟨u', hu, hw⟩ := hw
      have hsound : (Diagram.mk (es ++ e :: rest)).Sound := he ▸ hd
      have hp' : P (es ++ [e]) u' := step es e rest u u' he hf hp hu
      refine ih (es ++ [e]) u' (by simp [he]) (hf.next hsound hu) hp' ?_
      rwa [List.length_append, List.length_singleton]
  exact further d.elements [] {} rfl follows_start start hw

/-! ## No message is lost -/

/-- Every message of a kind among the elements `es` is listed, at its position. -/
def Whole {α : Type} (es : List Element) (element : α → Element) (xs : List (α × Place)) : Prop :=
  ∀ n a, es[n]? = some (element a) → ∃ x ∈ xs, x.1 = a ∧ x.2.position = n

theorem Whole.concat {α : Type} {element : α → Element} {xs xs' : List (α × Place)}
    (h : Whole es element xs) (hold : ∀ x ∈ xs, x.2.position < es.length → x ∈ xs')
    (hnew : ∀ a, e = element a → ∃ x ∈ xs', x.1 = a ∧ x.2.position = es.length) :
    Whole (es ++ [e]) element xs' := by
  intro n a hn
  rcases Nat.lt_or_ge n es.length with hl | hl
  · rw [List.getElem?_append_left hl] at hn
    obtain ⟨x, hx, rfl, rfl⟩ := h n a hn
    exact ⟨x, hold x hx hl, rfl, rfl⟩
  · obtain rfl : n = es.length := by
      have := (List.getElem?_eq_some_iff.1 hn).1
      rw [List.length_append, List.length_singleton] at this
      omega
    rw [List.getElem?_concat_length] at hn
    exact hnew a (Option.some.inj hn)

/-- A walk has every message of the elements `es`. -/
structure Complete (es : List Element) (w : Walk) : Prop where
  call : Whole es .call w.calls
  reply : Whole es .reply w.replies
  raise : Whole es .raise w.raises
  result : Whole es .result w.results

theorem complete_start : Complete [] {} :=
  ⟨fun _ _ h => by simp at h, fun _ _ h => by simp at h, fun _ _ h => by simp at h,
    fun _ _ h => by simp at h⟩

/-- A step keeps the messages that were heard, but for the replies to the call that is answered
now, and adds its own. -/
structure Heard (w w' : Walk) (n : Nat) (e : Element) : Prop where
  calls : w.calls ⊆ w'.calls
  replies : ∀ x ∈ w.replies, (∀ r, e = .reply r → x.1.call ≠ r.call) → x ∈ w'.replies
  raises : w.raises ⊆ w'.raises
  results : w.results ⊆ w'.results
  call : ∀ c, e = .call c → ∃ x ∈ w'.calls, x.1 = c ∧ x.2.position = n
  reply : ∀ r, e = .reply r → ∃ x ∈ w'.replies, x.1 = r ∧ x.2.position = n
  raise : ∀ t, e = .raise t → ∃ x ∈ w'.raises, x.1 = t ∧ x.2.position = n
  result : ∀ r, e = .result r → ∃ x ∈ w'.results, x.1 = r ∧ x.2.position = n

/-- The walk with another list of participants. -/
theorem note_eq (w : Walk) (name : String) : ∃ ps, w.note name = { w with participants := ps } := by
  unfold note
  split
  · exact ⟨_, rfl⟩
  · exact ⟨_, rfl⟩

/-- A further branch changes only the blocks that there are. -/
theorem branch_ok {n : Nat} {guard : Option String} (hw : w.branch n guard = .ok w') :
    ∃ b, w' = { w with fragments := w.fragments.modify b fun f =>
      { f with guards := f.guards ++ [(guard, n)], branch := f.branch + 1 } } := by
  unfold branch at hw
  split at hw
  · cases hw
  · exact ⟨_, (Except.ok.inj hw).symm⟩

/-- The end of a block changes only which blocks are open. -/
theorem closeBlock_ok (hw : w.closeBlock = .ok w') : ∃ bs, w' = { w with openBlocks := bs } := by
  unfold closeBlock at hw
  split at hw
  · cases hw
  · exact ⟨_, (Except.ok.inj hw).symm⟩

/-- A step without a message keeps all messages. -/
theorem heard_of_eq {n : Nat} (hc : w'.calls = w.calls) (hr : w'.replies = w.replies)
    (ht : w'.raises = w.raises) (hs : w'.results = w.results) (hcall : ∀ c, e ≠ .call c)
    (hreply : ∀ r, e ≠ .reply r) (hraise : ∀ t, e ≠ .raise t) (hresult : ∀ r, e ≠ .result r) :
    Heard w w' n e where
  calls := hc ▸ List.Subset.refl _
  replies _ hx _ := hr ▸ hx
  raises := ht ▸ List.Subset.refl _
  results := hs ▸ List.Subset.refl _
  call c he := absurd he (hcall c)
  reply r he := absurd he (hreply r)
  raise t he := absurd he (hraise t)
  result r he := absurd he (hresult r)

theorem heard_of_step {n : Nat} (hw : w.step n e = .ok w') : Heard w w' n e := by
  cases e with
  | participant line name =>
    obtain rfl := Except.ok.inj hw
    obtain ⟨ps, hps⟩ := w.note_eq name
    rw [hps]
    exact heard_of_eq rfl rfl rfl rfl (by simp) (by simp) (by simp) (by simp)
  | entry x =>
    obtain rfl := Except.ok.inj hw
    exact heard_of_eq rfl rfl rfl rfl (by simp) (by simp) (by simp) (by simp)
  | call c =>
    obtain rfl := Except.ok.inj hw
    obtain ⟨ps, hps⟩ := w.note_eq c.source
    obtain ⟨ps', hps'⟩ := (w.note c.source).note_eq c.target
    simp only [hps'] at *
    simp only [hps, own] at *
    refine ⟨List.subset_append_left _ _, fun x hx _ => hx, List.Subset.refl _, List.Subset.refl _,
      ?_, by simp, by simp, by simp⟩
    rintro _ ⟨⟩
    exact ⟨_, List.mem_append_right _ (.head _), rfl, rfl⟩
  | reply r =>
    obtain rfl := Except.ok.inj hw
    refine ⟨List.Subset.refl _, fun x hx hne => ?_, List.Subset.refl _, List.Subset.refl _,
      by simp, ?_, by simp, by simp⟩
    · exact List.mem_append_left _ (List.mem_filter.2 ⟨hx, by simpa using hne r rfl⟩)
    · rintro _ ⟨⟩
      exact ⟨_, List.mem_append_right _ (.head _), rfl, rfl⟩
  | raise t =>
    obtain rfl := Except.ok.inj hw
    obtain ⟨ps, hps⟩ := w.note_eq t.participant
    simp only [hps, own] at *
    refine ⟨List.Subset.refl _, fun x hx _ => hx, List.subset_append_left _ _, List.Subset.refl _,
      by simp, by simp, ?_, by simp⟩
    rintro _ ⟨⟩
    exact ⟨_, List.mem_append_right _ (.head _), rfl, rfl⟩
  | result r =>
    obtain rfl := Except.ok.inj hw
    refine ⟨List.Subset.refl _, fun x hx _ => hx, List.Subset.refl _, List.subset_append_left _ _,
      by simp, by simp, by simp, ?_⟩
    rintro _ ⟨⟩
    exact ⟨_, List.mem_append_right _ (.head _), rfl, rfl⟩
  | loop line label =>
    obtain rfl := Except.ok.inj hw
    exact heard_of_eq rfl rfl rfl rfl (by simp) (by simp) (by simp) (by simp)
  | alt line guard =>
    obtain rfl := Except.ok.inj hw
    exact heard_of_eq rfl rfl rfl rfl (by simp) (by simp) (by simp) (by simp)
  | orElse line guard =>
    obtain ⟨b, rfl⟩ := branch_ok hw
    exact heard_of_eq rfl rfl rfl rfl (by simp) (by simp) (by simp) (by simp)
  | close line =>
    obtain ⟨bs, rfl⟩ := closeBlock_ok hw
    exact heard_of_eq rfl rfl rfl rfl (by simp) (by simp) (by simp) (by simp)

/-- **No message is lost** in a walk over a sound diagram that answers no call twice. -/
theorem complete_of_run {d : Diagram} (hd : d.Sound)
    (once : (d.elements.filterMap Element.answered?).Nodup)
    (hw : Walk.run {} 0 d.elements = .ok w) : Complete d.elements w := by
  refine run_inv hd Complete complete_start (fun es e rest u u' he hf h hu => ?_) hw
  have hheard := heard_of_step hu
  refine ⟨h.call.concat (fun x hx _ => hheard.calls hx) hheard.call,
    h.reply.concat (fun x hx hlt => hheard.replies x hx fun r her heq => ?_) hheard.reply,
    h.raise.concat (fun x hx _ => hheard.raises hx) hheard.raise,
    h.result.concat (fun x hx _ => hheard.results hx) hheard.result⟩
  -- a reply that is heard already answers another call
  subst her
  have hmem : .reply x.1 ∈ es := List.mem_of_getElem? (hf.hears.reply.placed x hx).1
  rw [he, List.filterMap_append, List.nodup_append] at once
  refine once.2.2 x.1.call (List.mem_filterMap.2 ⟨_, hmem, rfl⟩) r.call ?_ heq
  exact List.mem_filterMap.2 ⟨_, .head _, rfl⟩

end Lifeline.Model.Walk
