import Lifeline.Proofs.Diagram.Activations

/-!
# Who a diagram starts from

`originBy who es`: the participant that the elements `es` start from, the target of the entry
message or, without one, the first participant that `who` finds. The root of a reader is the origin
by the senders of the elements that it has read (`Reader.Led`), so whoever speaks outside all
activations is the origin of the diagram up to there (`Diagram.Led`). Another reading of the same
elements may find another origin: it does not in a diagram with one root (`Diagram.OneRoot`).
-/

set_option autoImplicit false

namespace Lifeline

namespace Element

/-- The target of an entry message. -/
def entered? : Element → Option String
  | .entry x => some x.target
  | _ => none

/-- The participant that an element declares or that sends it. -/
def sender? : Element → Option String
  | .participant _ name => some name
  | .call c => some c.source
  | .reply r => some r.source
  | .raise t => some t.participant
  | .result r => some r.source
  | .entry _ | .loop .. | .alt .. | .orElse .. | .close .. => none

/-- The participant that an element declares or that calls or raises with it. -/
def acting? : Element → Option String
  | .participant _ name => some name
  | .call c => some c.source
  | .raise t => some t.participant
  | .entry _ | .reply _ | .result _ | .loop .. | .alt .. | .orElse .. | .close .. => none

variable {e : Element}

theorem entered?_eq_none : e.entered? = none ↔ ∀ x, e ≠ .entry x := by
  cases e <;> simp [entered?]

theorem sender?_of_acting {p : String} (h : e.acting? = some p) : e.sender? = some p := by
  cases e <;> first | exact h | cases h

theorem speaker?_of_acting {p : Option Int} {q : String} (hp : e.parent? = some p)
    (h : e.acting? = some q) : e.speaker? = some q := by
  cases e <;> simp_all [acting?, speaker?, parent?]

theorem exists_speaker {p : Option Int} (h : e.parent? = some p) : ∃ q, e.speaker? = some q := by
  cases e <;> first | exact ⟨_, rfl⟩ | cases h

/-- Who sends without acting replies or gives a result. -/
theorem sender?_of_silent (h : e.acting? = none) :
    e.sender? = none ∨ (∃ r, e = .reply r) ∨ ∃ r, e = .result r := by
  cases e <;> simp_all [acting?, sender?]

end Element

/-- The participant that the elements start from, where `who` finds those that come up. -/
def originBy (who : Element → Option String) (es : List Element) : Option String :=
  (es.findSome? Element.entered?).or (es.findSome? who)

section

variable {who : Element → Option String} {es : List Element} {e : Element}

@[simp] theorem originBy_nil : originBy who [] = none := rfl

theorem originBy_concat (h : e.entered? = none) :
    originBy who (es ++ [e]) = (originBy who es).or (who e) := by
  simp [originBy, List.findSome?_append, h, Option.or_assoc]

theorem findSome?_entered (h : ∀ e ∈ es, e.entered? = none) :
    es.findSome? Element.entered? = none :=
  List.findSome?_eq_none_iff.2 h

/-- The origin of elements without an entry message is the first participant. -/
theorem originBy_eq (h : ∀ e ∈ es, e.entered? = none) : originBy who es = es.findSome? who := by
  rw [originBy, findSome?_entered h, Option.none_or]

/-- The origin behind the first entry message is its target. -/
theorem originBy_entry {before after : List Element} {x : Entry}
    (h : ∀ e ∈ before, e.entered? = none) :
    originBy who (before ++ .entry x :: after) = some x.target := by
  rw [originBy, List.findSome?_append, findSome?_entered h]
  rfl

end

/-! ## The root of a reader -/

namespace Diagram

/-- Who speaks outside all activations is the origin of the diagram up to there, and the entry
message comes before all calls. -/
structure Led (d : Diagram) : Prop where
  spoken : ∀ before e after, d.elements = before ++ e :: after → e.parent? = some none →
    e.speaker? = originBy Element.sender? (before ++ [e])
  entered : ∀ before e after, d.elements = before ++ e :: after → e.entered? ≠ none →
    (∀ b ∈ before, b.entered? = none) ∧ (Diagram.mk before).calls = []

theorem Led.concat {es : List Element} {e : Element} (h : (Diagram.mk es).Led)
    (hspoken : e.parent? = some none → e.speaker? = originBy Element.sender? (es ++ [e]))
    (hentered : e.entered? ≠ none →
      (∀ b ∈ es, b.entered? = none) ∧ (Diagram.mk es).calls = []) :
    (Diagram.mk (es ++ [e])).Led := by
  constructor
  · refine forall_cut_append.2 ⟨h.spoken, forall_cut_cons.2 ⟨?_, by simp⟩⟩
    rwa [List.append_nil]
  · refine forall_cut_append.2 ⟨h.entered, forall_cut_cons.2 ⟨?_, by simp⟩⟩
    rwa [List.append_nil]

end Diagram

namespace Reader

/-- The root of a reader is the origin of what it has read. -/
structure Led (r : Reader) : Prop where
  root : r.root = originBy Element.sender? r.elements
  led : r.diagram.Led

theorem led_start : Led {} := ⟨rfl, by simp [diagram], by simp [diagram]⟩

variable {r r₁ r' : Reader} {e : Element}

/-- One more element that is no entry message. -/
theorem Led.took (h : r.Led) (hentered : e.entered? = none)
    (he : r'.elements = r.elements ++ [e]) (hroot : r'.root = r.root.or e.sender?)
    (hspoken : e.parent? = some none → e.speaker? = r'.root) : r'.Led := by
  have hlast : r'.root = originBy Element.sender? (r.elements ++ [e]) := by
    rw [hroot, h.root, originBy_concat hentered]
  refine ⟨by rw [hlast, he], ?_⟩
  rw [diagram, he]
  exact h.led.concat (fun hp => (hspoken hp).trans hlast) fun hne => absurd hentered hne

/-- The entry message, which comes before all calls. -/
theorem Led.entered (h : r.Led) {x : Entry} (hfirst : r.hasCall = false) :
    Led ({ r with root := some x.target }.push (.entry x)) := by
  have hnone : ∀ b ∈ r.elements, b.entered? = none := fun b hb =>
    Element.entered?_eq_none.2 fun y hy =>
      absurd (List.any_eq_false.1 hfirst b hb) (by simp [hy])
  have hcalls : r.diagram.calls = [] := by
    refine List.eq_nil_iff_forall_not_mem.2 fun c hc => ?_
    exact absurd (List.any_eq_false.1 hfirst _ (Diagram.mem_calls.1 hc)) (by simp)
  refine ⟨?_, h.led.concat (by simp [Element.parent?]) fun _ => ⟨hnone, hcalls⟩⟩
  rw [push, originBy_entry hnone]

/-- One more element of who acts. -/
theorem Led.sent (h : r.Led) {p : String} {parent : Option Int} (hacts : r.Heeds p r₁ parent)
    (hs : e.sender? = some p) (hentered : e.entered? = none)
    (hp : e.parent? = some none → parent = none ∧ e.speaker? = some p)
    (he : r'.elements = r₁.elements ++ [e]) (hroot : r'.root = r₁.root) : r'.Led := by
  refine h.took hentered (by rw [he, hacts.elements]) (by rw [hroot, hacts.root, hs]) fun hpar => ?_
  obtain ⟨hnone, hspeaker⟩ := hp hpar
  rw [hspeaker, hroot, hacts.root_of_none hnone]

/-- One more element that no participant sends. -/
theorem Led.unsent (h : r.Led) (hs : e.sender? = none) (hentered : e.entered? = none)
    (hp : e.parent? = none) (he : r'.elements = r.elements ++ [e]) (hroot : r'.root = r.root) :
    r'.Led :=
  h.took hentered he (by rw [hroot, hs, Option.or_none]) (by simp [hp])

theorem Led.step (h : r.Led) {n : Nat} (hr : r.Reads n r') : r'.Led := by
  cases hr with
  | participant name => exact h.took rfl rfl rfl (by simp [Element.parent?])
  | entry x _ hfirst => exact h.entered hfirst
  | call c _ _ hacts =>
    exact h.sent (e := .call c) hacts rfl rfl (fun hp => ⟨Option.some.inj hp, rfl⟩) rfl rfl
  | reply x _ hacts =>
    exact h.sent (e := .reply x) hacts rfl rfl (by simp [Element.parent?]) rfl rfl
  | raise t _ hacts =>
    exact h.sent (e := .raise t) hacts rfl rfl (fun hp => ⟨Option.some.inj hp, rfl⟩) rfl rfl
  | result x _ hacts =>
    exact h.sent (e := .result x) hacts rfl rfl (fun hp => ⟨Option.some.inj hp, rfl⟩) rfl rfl
  | loop label => exact h.unsent rfl rfl rfl rfl rfl
  | alt guard => exact h.unsent rfl rfl rfl rfl rfl
  | orElse guard => exact h.unsent rfl rfl rfl rfl rfl
  | close hinnermost => exact h.unsent rfl rfl rfl rfl rfl

end Reader

namespace Diagram

/-- Every diagram that was read from a text is led by its origin. -/
theorem led_of_parse {source : String} {d : Diagram} (h : parse source = .ok d) : d.Led := by
  obtain ⟨r, hled, rfl⟩ := exists_of_parse h Reader.led_start fun hp hr => hp.step hr
  exact hled.led

/-! ## One root -/

/-- All readings find one origin: in front of the entry message only its target raises, and, where
there is none, in front of the first participant that is declared, calls or raises only that one
gives results. -/
structure OneRoot (d : Diagram) : Prop where
  entered : ∀ before x after, d.elements = before ++ .entry x :: after →
    ∀ t, .raise t ∈ before → t.participant = x.target
  started : (∀ e ∈ d.elements, e.entered? = none) →
    ∀ before e after, d.elements = before ++ e :: after → (∀ b ∈ before, b.acting? = none) →
      ∀ p, e.acting? = some p → ∀ r, .result r ∈ before → r.source = p

variable {d : Diagram}

/-- Elements that no call stands in front of are spoken outside all activations. -/
theorem Disciplined.outside (hd : d.Disciplined) {before after : List Element} {e : Element}
    (he : d.elements = before ++ e :: after) (hcalls : (Diagram.mk before).calls = [])
    {p : Option Int} (hp : e.parent? = some p) : p = none := by
  cases p with
  | none => rfl
  | some k =>
    obtain ⟨⟨c, hc, -⟩, -⟩ := hd.spoken before e after he k hp
    simp [hcalls] at hc

/-- The first call is made outside all activations. -/
theorem Disciplined.exists_first (hd : d.Disciplined) (hne : d.calls ≠ []) :
    ∃ before c after, d.elements = before ++ .call c :: after ∧ c.parent = none := by
  obtain ⟨c, cs, hcs⟩ := List.exists_cons_of_ne_nil hne
  obtain ⟨before, e, after, he, hbefore, hec, -⟩ := List.filterMap_eq_cons_iff.1 hcs
  have hcalls : (Diagram.mk before).calls = [] := List.filterMap_eq_nil_iff.2 hbefore
  cases e with
  | call c' => exact ⟨before, c', after, he, hd.outside he hcalls rfl⟩
  | _ => cases hec

theorem findSome?_of_prefix {f : Element → Option String} {before after : List Element}
    {e : Element} {p : String} (h : (before ++ [e]).findSome? f = some p) :
    (before ++ e :: after).findSome? f = some p := by
  rw [List.append_cons, List.findSome?_append, h, Option.some_or]

/-- What is found first, where nothing else is found up to there. -/
theorem findSome?_of_forall {f : Element → Option String} {before after : List Element}
    {e : Element} {p : String} (he : f e = some p)
    (h : ∀ b ∈ before, f b = none ∨ f b = some p) :
    (before ++ e :: after).findSome? f = some p := by
  refine findSome?_of_prefix ?_
  cases hq : (before ++ [e]).findSome? f with
  | none => simp [List.findSome?_eq_none_iff.1 hq e (by simp)] at he
  | some q =>
    obtain ⟨b, hb, hbq⟩ := List.exists_of_findSome?_eq_some hq
    rcases List.mem_append.1 hb with hb | hb
    · rcases h b hb with hn | hs
      · rw [hn] at hbq
        cases hbq
      · exact hbq.symm.trans hs
    · rw [List.mem_singleton.1 hb] at hbq
      exact hbq.symm.trans he

/-- Without an entry message, who speaks outside all activations is the first sender. -/
theorem Led.first_sender (h : d.Led) (hnone : ∀ e ∈ d.elements, e.entered? = none)
    {before after : List Element} {e : Element} (he : d.elements = before ++ e :: after)
    (hp : e.parent? = some none) : e.speaker? = d.elements.findSome? Element.sender? := by
  obtain ⟨q, hq⟩ := Element.exists_speaker hp
  have hs := h.spoken before e after he hp
  rw [originBy_eq fun b hb => hnone b (by simp_all; tauto), hq] at hs
  rw [hq, he, findSome?_of_prefix hs.symm]

/-- Only the target of the entry message acts outside all activations. -/
theorem OneRoot.of_entered (hone : d.OneRoot) (h : d.Led) {front back : List Element} {x : Entry}
    (hfront : d.elements = front ++ .entry x :: back) {e : Element} (he : e ∈ d.elements)
    (hp : e.parent? = some none) {p : String} (hacting : e.acting? = some p) : x.target = p := by
  obtain ⟨hbefore, hcalls⟩ := h.entered front _ back hfront (by simp [Element.entered?])
  obtain ⟨before, after, hcut⟩ := List.append_of_mem he
  rcases cut_append (hfront.symm.trans hcut) with ⟨C, hC, -⟩ | ⟨C, rfl, hC⟩
  · -- in front of the entry message there are raises, but no calls
    have hmem : e ∈ front := by simp [hC]
    cases e with
    | raise t =>
      exact (hone.entered front x back hfront t hmem).symm.trans (Option.some.inj hacting)
    | call c =>
      have := mem_calls.2 hmem
      simp [hcalls] at this
    | _ => first | cases hp | cases hacting
  · cases C with
    | nil =>
      obtain ⟨rfl, -⟩ := List.cons.inj hC
      cases hp
    | cons y C =>
      obtain ⟨rfl, -⟩ := List.cons.inj hC
      have hs := h.spoken _ e after hcut hp
      rw [List.append_assoc, List.cons_append, originBy_entry hbefore,
        Element.speaker?_of_acting hp hacting] at hs
      exact (Option.some.inj hs).symm

/-- Without an entry message, the first that acts is the first sender. -/
theorem OneRoot.of_started (hone : d.OneRoot) (hd : d.Disciplined)
    (hnone : ∀ e ∈ d.elements, e.entered? = none) {q : String}
    (hfirst : d.elements.findSome? Element.acting? = some q) :
    d.elements.findSome? Element.sender? = some q := by
  obtain ⟨front, a, back, hfront, haq, hsilent⟩ := List.findSome?_eq_some_iff.1 hfirst
  rw [hfront]
  refine findSome?_of_forall (Element.sender?_of_acting haq) fun b hb => ?_
  rcases Element.sender?_of_silent (hsilent b hb) with hn | ⟨r, rfl⟩ | ⟨r, rfl⟩
  · exact .inl hn
  · -- a reply stands behind its call, which acts
    obtain ⟨first, mid, rfl⟩ := List.append_of_mem hb
    obtain ⟨c, hc, -⟩ := hd.answered first r (mid ++ a :: back) (by simp [hfront])
    have hcall := hsilent (.call c) (List.mem_append_left _ (mem_calls.1 hc))
    cases hcall
  · exact .inr (congrArg some (hone.started hnone front a back hfront hsilent q haq r hb))

theorem OneRoot.origin (hone : d.OneRoot) (h : d.Led) (hd : d.Disciplined) {e : Element}
    (he : e ∈ d.elements) (hp : e.parent? = some none) {p : String}
    (hacting : e.acting? = some p) : originBy Element.acting? d.elements = some p := by
  by_cases hnone : ∀ b ∈ d.elements, b.entered? = none
  · obtain ⟨before, after, hcut⟩ := List.append_of_mem he
    rw [originBy_eq hnone]
    cases hfirst : d.elements.findSome? Element.acting? with
    | none => simp [List.findSome?_eq_none_iff.1 hfirst e he] at hacting
    | some q =>
      rw [← hone.of_started hd hnone hfirst, ← h.first_sender hnone hcut hp,
        Element.speaker?_of_acting hp hacting]
  · simp only [not_forall] at hnone
    obtain ⟨y, hy, hyentry⟩ := hnone
    obtain ⟨front, back, hfront⟩ := List.append_of_mem hy
    obtain ⟨hbefore, -⟩ := h.entered front y back hfront hyentry
    obtain ⟨x, rfl⟩ : ∃ x, y = .entry x := by
      cases y <;> first | exact ⟨_, rfl⟩ | exact absurd rfl hyentry
    rw [← hone.of_entered h hfront he hp hacting]
    rw [hfront, originBy_entry hbefore]

/-- A raise in front of the entry message, or a result in front of all that act, is spoken outside
all activations. -/
theorem Disciplined.outside_of_mem (hd : d.Disciplined) {before after : List Element}
    (he : d.elements = before ++ after) (hcalls : (Diagram.mk before).calls = []) {b : Element}
    (hb : b ∈ before) {p : Option Int} (hp : b.parent? = some p) :
    ∃ first mid, d.elements = first ++ b :: mid ∧ b.parent? = some none := by
  obtain ⟨first, mid, hcut⟩ := List.append_of_mem hb
  have hfirst : d.elements = first ++ b :: (mid ++ after) := by simp [he, hcut]
  have hnone : (Diagram.mk first).calls = [] := by
    have hall := calls_of_append (d := Diagram.mk before) hcut
    rw [hcalls] at hall
    exact (List.append_eq_nil_iff.1 hall.symm).1
  exact ⟨first, _, hfirst, hd.outside hfirst hnone hp ▸ hp⟩

theorem Led.oneRoot (h : d.Led) (hd : d.Disciplined) (hne : d.calls ≠ [])
    (hroot : ∀ e ∈ d.elements, e.parent? = some none → ∀ p, e.acting? = some p →
      originBy Element.acting? d.elements = some p) : d.OneRoot := by
  refine ⟨fun before x after he t ht => ?_, fun hnone before e after he hsilent p hp r hr => ?_⟩
  · obtain ⟨hbefore, hcalls⟩ := h.entered before _ after he (by simp [Element.entered?])
    obtain ⟨first, mid, hfirst, hparent⟩ := hd.outside_of_mem he hcalls ht rfl
    have horigin := hroot (.raise t) (by simp [hfirst]) hparent t.participant rfl
    rw [he, originBy_entry hbefore] at horigin
    exact (Option.some.inj horigin).symm
  · -- the first sender gives the result and makes the first call
    obtain ⟨before₀, c, after₀, hc, hcp⟩ := hd.exists_first hne
    have hcall := hroot (.call c) (by simp [hc]) (congrArg some hcp) c.source rfl
    have hsender := h.first_sender hnone hc (congrArg some hcp)
    have hcalls : (Diagram.mk before).calls = [] := by
      refine List.filterMap_eq_nil_iff.2 fun b hb => ?_
      have hb := hsilent b hb
      cases b <;> first | rfl | cases hb
    obtain ⟨first, mid, hfirst, hparent⟩ := hd.outside_of_mem he hcalls hr rfl
    have hgives := h.first_sender hnone hfirst hparent
    rw [originBy_eq hnone, he, List.findSome?_append, List.findSome?_eq_none_iff.2 hsilent,
      Option.none_or, List.findSome?_cons, hp] at hcall
    exact Option.some.inj ((hgives.trans hsender.symm).trans hcall.symm)

/-- **Who acts outside all activations** is the origin by those that act if and only if the diagram
has one root. -/
theorem Led.origin_iff (h : d.Led) (hd : d.Disciplined) (hne : d.calls ≠ []) :
    (∀ e ∈ d.elements, e.parent? = some none → ∀ p, e.acting? = some p →
      originBy Element.acting? d.elements = some p) ↔ d.OneRoot :=
  ⟨h.oneRoot hd hne, fun hone _ he hp _ hacting => hone.origin h hd he hp hacting⟩

end Diagram

end Lifeline
