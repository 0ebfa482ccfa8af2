import Lifeline.Proofs.Diagram.Reading
import Mathlib.Data.List.Nodup
import Mathlib.Logic.Relation

/-!
# The open calls of a diagram

`openAfter es`: the calls that are open after the elements `es`, innermost first. It is a stack
machine over the numbers that the elements carry (`Element.turn`): who speaks in the activation of
a call closes the calls inside it, a reply closes its call as well. It knows nothing of the
participants by which a reader finds the activation.

* `nested_openAfter`: each open call is made in the activation of the next one, where every element
  agrees with the calls that are open where it stands (`Element.Agrees`).
* `not_open_of_ends`: a call is closed by its reply and by an element further out, and stays closed
  (`not_open_append`).

The calls that are made outside all activations have one source, and every exception that is raised
has a name (`Diagram.Rooted`). A reader fixes its root with the first participant or with the entry
message, which comes before all calls (`Reader.Rooted`).
-/

namespace Lifeline

open Relation (ReflTransGen TransGen)

namespace Element

/-- The line that an element stands on. -/
def line : Element → Int
  | .participant line _ | .loop line _ | .alt line _ | .orElse line _ | .close line => line
  | .entry e => e.line
  | .call c => c.line
  | .reply r => r.line
  | .raise t => t.line
  | .result r => r.line

/-- The call in whose activation an element is spoken, where it is a call, a raise or a result;
none for the root method. -/
def parent? : Element → Option (Option Int)
  | .call c => some c.parent
  | .raise t => some t.parent
  | .result r => some r.parent
  | .participant .. | .entry _ | .reply _ | .loop .. | .alt .. | .orElse .. | .close .. => none

/-- The participant that speaks such an element. -/
def speaker? : Element → Option String
  | .call c => some c.source
  | .raise t => some t.participant
  | .result r => some r.source
  | .participant .. | .entry _ | .reply _ | .loop .. | .alt .. | .orElse .. | .close .. => none

/-- The call that an element replies to. -/
def answered? : Element → Option Int
  | .reply r => some r.call
  | _ => none

/-- An element names a call: it is spoken in its activation or replies to it. -/
def Names (e : Element) (k : Int) : Prop := e.parent? = some (some k) ∨ e.answered? = some k

end Element

/-! ## The stack machine -/

/-- The calls `cs`, innermost first, from call `p` outwards; none of them for the root method. -/
def outwards (cs : List Call) : Option Int → List Call
  | none => []
  | some p => cs.dropWhile (·.id != p)

/-- The open calls after one more element. -/
def Element.turn (cs : List Call) : Element → List Call
  | .call c => c :: outwards cs c.parent
  | .raise t => outwards cs t.parent
  | .result r => outwards cs r.parent
  | .reply r => (outwards cs (some r.call)).tail
  | .participant .. | .entry _ | .loop .. | .alt .. | .orElse .. | .close .. => cs

/-- The open calls after some elements. -/
def openAfter (es : List Element) : List Call := es.foldl Element.turn []

@[simp] theorem openAfter_nil : openAfter [] = [] := rfl

@[simp] theorem openAfter_concat (es : List Element) (e : Element) :
    openAfter (es ++ [e]) = e.turn (openAfter es) := by
  simp [openAfter]

theorem outwards_suffix (cs : List Call) : ∀ p, outwards cs p <:+ cs
  | none => List.nil_suffix
  | some _ => List.dropWhile_suffix _

/-- Who is named among the calls is the first of those outwards from it. -/
theorem outwards_of_mem {k : Int} : ∀ {cs : List Call}, (∃ c ∈ cs, c.id = k) →
    ∃ c rest, outwards cs (some k) = c :: rest ∧ c.id = k
  | [], h => by simp at h
  | c :: cs, h => by
    by_cases hc : c.id = k
    · exact ⟨c, cs, by simp [outwards, hc], hc⟩
    · obtain ⟨c', hc', hk⟩ := h
      have hmem : c' ∈ cs := (List.mem_cons.1 hc').resolve_left fun he => hc (he ▸ hk)
      obtain ⟨x, rest, hx, hxk⟩ := outwards_of_mem ⟨c', hmem, hk⟩
      refine ⟨x, rest, ?_, hxk⟩
      simpa [outwards, hc] using hx

/-- What is open outwards of an open call was made before it. -/
theorem lt_of_outwards {cs : List Call} (hcs : cs.Pairwise (fun c c' => c'.id < c.id)) {k : Int}
    (ho : ∃ c ∈ cs, c.id = k) :
    ∃ x rest, outwards cs (some k) = x :: rest ∧ x.id = k ∧ ∀ c ∈ rest, c.id < k := by
  obtain ⟨x, rest, hx, rfl⟩ := outwards_of_mem ho
  have hrest := hx ▸ hcs.sublist (outwards_suffix cs (some x.id)).sublist
  exact ⟨x, rest, hx, rfl, (List.pairwise_cons.1 hrest).1⟩

/-- An element opens itself, where it is a call, and leaves open some of the outermost calls. -/
theorem turn_cases (cs : List Call) (e : Element) :
    (∃ c, e = .call c ∧ e.turn cs = c :: outwards cs c.parent) ∨
      (∀ c, e ≠ .call c) ∧ e.turn cs <:+ cs := by
  cases e with
  | call c => exact .inl ⟨c, rfl, rfl⟩
  | raise t => exact .inr ⟨by simp, outwards_suffix cs _⟩
  | result r => exact .inr ⟨by simp, outwards_suffix cs _⟩
  | reply r => exact .inr ⟨by simp, (List.tail_suffix _).trans (outwards_suffix cs _)⟩
  | _ => exact .inr ⟨by simp, List.suffix_refl _⟩

theorem mem_turn {cs : List Call} {e : Element} {c : Call} (h : c ∈ e.turn cs) :
    e = .call c ∨ c ∈ cs := by
  obtain ⟨c', rfl, ht⟩ | ⟨-, ht⟩ := turn_cases cs e
  · rw [ht] at h
    rcases List.mem_cons.1 h with rfl | h
    · exact .inl rfl
    · exact .inr ((outwards_suffix cs _).subset h)
  · exact .inr (ht.subset h)

/-- Who speaks in the activation of a call leaves open what is outwards from it. -/
theorem mem_turn_of_parent {cs : List Call} {e : Element} {p : Option Int} {c : Call}
    (hp : e.parent? = some p) (h : c ∈ e.turn cs) : e = .call c ∨ c ∈ outwards cs p := by
  cases e with
  | call c' =>
    cases hp
    rcases List.mem_cons.1 h with rfl | h
    · exact .inl rfl
    · exact .inr h
  | raise t => cases hp; exact .inr h
  | result r => cases hp; exact .inr h
  | _ => cases hp

/-- The open calls are some of the calls, the latest first. -/
theorem openAfter_sublist (es : List Element) :
    (openAfter es).reverse.Sublist (Diagram.mk es).calls := by
  induction es using List.reverseRecOn with
  | nil => simp
  | append_singleton es e ih =>
    rw [openAfter_concat, Diagram.calls_append]
    obtain ⟨c, rfl, ht⟩ | ⟨-, ht⟩ := turn_cases (openAfter es) e
    · have hr := (List.reverse_sublist.2 (outwards_suffix (openAfter es) c.parent).sublist).trans ih
      rw [ht, List.reverse_cons]
      exact hr.append (List.Sublist.refl _)
    · exact ((List.reverse_sublist.2 ht.sublist).trans ih).trans (List.sublist_append_left _ _)

theorem mem_calls_of_open {es : List Element} {c : Call} (h : c ∈ openAfter es) :
    c ∈ (Diagram.mk es).calls :=
  (openAfter_sublist es).subset (List.mem_reverse.2 h)

/-- A call that is not open does not come back, unless it is made once more. -/
theorem not_open_append {k : Int} {es es' : List Element} (h : ∀ c ∈ openAfter es, c.id ≠ k)
    (hes' : ∀ c, .call c ∈ es' → c.id ≠ k) : ∀ c ∈ openAfter (es ++ es'), c.id ≠ k := by
  induction es' using List.reverseRecOn with
  | nil => simpa using h
  | append_singleton es' e ih =>
    rw [← List.append_assoc, openAfter_concat]
    intro c hc
    rcases mem_turn hc with rfl | hc
    · exact hes' c (by simp)
    · exact ih (fun c hc => hes' c (List.mem_append_left _ hc)) c hc

/-! ## Nesting -/

/-- Each of the calls is made in the activation of the next one, the last one by the root method. -/
def Nested : List Call → Prop
  | [] => True
  | c :: cs => c.parent = cs.head?.map (·.id) ∧ Nested cs

theorem Nested.of_suffix {s : List Call} : ∀ {cs : List Call}, Nested cs → s <:+ cs → Nested s
  | [], _, hs => by
    rw [List.suffix_nil.1 hs]
    trivial
  | c :: cs, h, hs => by
    rcases List.suffix_cons_iff.1 hs with rfl | hs
    · exact h
    · exact of_suffix h.2 hs

/-- An element agrees with the open calls `cs`: it is spoken by the target of one of them, and it
replies to one of them from its target to its source. -/
structure Element.Agrees (e : Element) (cs : List Call) : Prop where
  spoken : ∀ k, e.parent? = some (some k) → ∃ c ∈ cs, c.id = k ∧ e.speaker? = some c.target
  answered : ∀ r, e = .reply r → ∃ c ∈ cs, c.id = r.call ∧ r.source = c.target ∧
    r.target = c.source

theorem Element.Agrees.of_names {e : Element} {cs : List Call} (h : e.Agrees cs) {k : Int}
    (hk : e.Names k) : ∃ c ∈ cs, c.id = k := by
  rcases hk with hk | hk
  · obtain ⟨c, hc, hid, -⟩ := h.spoken k hk
    exact ⟨c, hc, hid⟩
  · cases e with
    | reply r =>
      cases hk
      obtain ⟨c, hc, hid, -⟩ := h.answered r rfl
      exact ⟨c, hc, hid⟩
    | _ => cases hk

theorem Nested.turn {cs : List Call} (h : Nested cs) {e : Element} (he : e.Agrees cs) :
    Nested (e.turn cs) := by
  obtain ⟨c, rfl, ht⟩ | ⟨-, ht⟩ := turn_cases cs e
  · rw [ht]
    refine ⟨?_, h.of_suffix (outwards_suffix cs _)⟩
    cases hp : c.parent with
    | none => rfl
    | some k =>
      obtain ⟨c', hc', hid, -⟩ := he.spoken k (by simp [Element.parent?, hp])
      obtain ⟨x, rest, hx, hxk⟩ := outwards_of_mem ⟨c', hc', hid⟩
      simp [hx, hxk]
  · exact h.of_suffix ht

/-- Each element agrees with the calls that are open where it stands. -/
def Agree (es : List Element) : Prop :=
  ∀ before e after, es = before ++ e :: after → e.Agrees (openAfter before)

theorem Agree.of_append {es es' : List Element} (h : Agree (es ++ es')) : Agree es :=
  fun before e after he => h before e (after ++ es') (by simp [he])

theorem Agree.concat {es : List Element} (h : Agree es) {e : Element}
    (he : e.Agrees (openAfter es)) : Agree (es ++ [e]) := by
  intro before x after hx
  rcases List.eq_nil_or_concat after with rfl | ⟨after, y, rfl⟩
  · obtain ⟨rfl, hxe⟩ := List.append_inj' hx rfl
    obtain ⟨rfl, -⟩ := List.cons.inj hxe
    exact he
  · rw [List.concat_eq_append, ← List.cons_append, ← List.append_assoc] at hx
    exact h before x after (List.append_inj' hx rfl).1

theorem nested_openAfter {es : List Element} (h : Agree es) : Nested (openAfter es) := by
  induction es using List.reverseRecOn with
  | nil => trivial
  | append_singleton es e ih =>
    rw [openAfter_concat]
    exact (ih h.of_append).turn (h es e [] rfl)

/-! ## What ends an activation -/

namespace Diagram

/-- Call `k` is made in the activation of call `p`. -/
def MadeIn (d : Diagram) (k p : Int) : Prop := ∃ c ∈ d.calls, c.id = k ∧ c.parent = some p

/-- An element ends the activation of call `k`: it replies to the call, or it is spoken further
out, by the root method or in the activation of a call that call `k` is made in, step by step. -/
inductive Ends (d : Diagram) (k : Int) : Element → Prop
  | reply {e : Element} : e.answered? = some k → Ends d k e
  | root {e : Element} : e.parent? = some none → Ends d k e
  | outer {e : Element} {p : Int} : e.parent? = some (some p) → TransGen d.MadeIn k p → Ends d k e

variable {d : Diagram}

theorem Sound.increasing (h : d.Sound) : d.calls.Pairwise (fun c c' => c.id < c'.id) := by
  have hp : (d.calls.map (·.id)).Pairwise (· < ·) := by
    rw [h.numbered, List.pairwise_map]
    exact List.pairwise_lt_range.imp fun hlt => Int.ofNat_lt.2 hlt
  exact List.pairwise_map.1 hp

theorem Sound.eq_of_id (h : d.Sound) {c c' : Call} (hc : c ∈ d.calls) (hc' : c' ∈ d.calls)
    (hid : c.id = c'.id) : c = c' := by
  have hn : (d.calls.map (·.id)).Nodup :=
    List.pairwise_map.2 (h.increasing.imp fun hlt => Int.ne_of_lt hlt)
  exact List.inj_on_of_nodup_map hn hc hc' hid

theorem Sound.lt_of_madeIn (h : d.Sound) {k p : Int} (hk : TransGen d.MadeIn k p) : p < k := by
  induction hk with
  | single hk =>
    obtain ⟨c, hc, rfl, hp⟩ := hk
    exact (h.called c hc _ hp).1
  | tail _ hk ih =>
    obtain ⟨c, hc, rfl, hp⟩ := hk
    exact Int.lt_trans (h.called c hc _ hp).1 ih

/-- The call that an open call is made in is open. -/
theorem Sound.open_of_parent (h : d.Sound) {k p : Int} (hk : d.MadeIn k p) :
    ∀ {cs : List Call}, (∀ c ∈ cs, c ∈ d.calls) → Nested cs → (∃ c ∈ cs, c.id = k) →
      ∃ c ∈ cs, c.id = p
  | [], _, _, ho => by simp at ho
  | c :: cs, hcs, hn, ho => by
    obtain ⟨c', hc', hid⟩ := ho
    rcases List.mem_cons.1 hc' with rfl | hc'
    · -- the innermost call is made in the next one
      obtain ⟨x, hx, rfl, hp⟩ := hk
      obtain rfl := h.eq_of_id (hcs c' (.head _)) hx hid
      have hhead := hn.1
      rw [hp, eq_comm, Option.map_eq_some_iff] at hhead
      obtain ⟨c, hc, hcp⟩ := hhead
      exact ⟨c, .tail _ (List.mem_of_mem_head? hc), hcp⟩
    · obtain ⟨y, hy, hyp⟩ :=
        open_of_parent h hk (fun c hc => hcs c (.tail _ hc)) hn.2 ⟨c', hc', hid⟩
      exact ⟨y, .tail _ hy, hyp⟩

/-- The calls that an open call is made in, step by step, are open. -/
theorem Sound.open_of_madeIn (h : d.Sound) {cs : List Call} (hcs : ∀ c ∈ cs, c ∈ d.calls)
    (hn : Nested cs) {k p : Int} (hk : ReflTransGen d.MadeIn k p) (ho : ∃ c ∈ cs, c.id = k) :
    ∃ c ∈ cs, c.id = p := by
  induction hk with
  | refl => exact ho
  | tail _ hstep ih => exact h.open_of_parent hstep hcs hn ih

theorem mem_calls {es : List Element} {c : Call} : c ∈ (Diagram.mk es).calls ↔ .call c ∈ es := by
  simp only [calls, List.mem_filterMap]
  constructor
  · rintro ⟨e, he, h⟩
    cases e with
    | call c' =>
      obtain rfl := Option.some.inj h
      exact he
    | _ => cases h
  · exact fun h => ⟨_, h, rfl⟩

section

variable {before after : List Element} {e : Element}

theorem calls_of_append (hd : d.elements = before ++ after) :
    d.calls = (Diagram.mk before).calls ++ (Diagram.mk after).calls := by
  simp only [calls, hd, List.filterMap_append]

/-- A later call has a higher number. -/
theorem Sound.lt_of_append (h : d.Sound) (hd : d.elements = before ++ after) {c c' : Call}
    (hc : c ∈ (Diagram.mk before).calls) (hc' : c' ∈ (Diagram.mk after).calls) : c.id < c'.id :=
  (List.pairwise_append.1 (calls_of_append hd ▸ h.increasing)).2.2 c hc c' hc'

/-- The calls that are open at a place, the latest first. -/
theorem Sound.decreasing (h : d.Sound) (hd : d.elements = before ++ after) :
    (openAfter before).Pairwise (fun c c' => c'.id < c.id) := by
  have hsub : (openAfter before).reverse.Sublist d.calls :=
    calls_of_append hd ▸ (openAfter_sublist before).trans (List.sublist_append_left _ _)
  exact List.pairwise_reverse.1 (h.increasing.sublist hsub)

/-- A call that was made earlier is not open behind the element that ends its activation. -/
theorem not_open_of_ends (h : d.Sound) (hd : d.elements = before ++ e :: after)
    (ha : e.Agrees (openAfter before)) {k : Call} (hk : k ∈ (Diagram.mk before).calls)
    (he : d.Ends k.id e) : ∀ c ∈ openAfter (before ++ [e]), c.id ≠ k.id := by
  have hdec := h.decreasing hd
  -- the call that the element opens is another one
  have hnew : ∀ c, e = .call c → c.id ≠ k.id := by
    rintro c rfl hid
    have hlt := h.lt_of_append hd hk (mem_calls.2 List.mem_cons_self)
    omega
  rw [openAfter_concat]
  intro c hc hid
  cases he with
  | reply he =>
    cases e with
    | reply r =>
      have hr : r.call = k.id := Option.some.inj he
      obtain ⟨c', hc', hid', -⟩ := ha.answered r rfl
      obtain ⟨x, rest, hx, -, hrest⟩ := lt_of_outwards hdec ⟨c', hc', hid'⟩
      have hin : c ∈ (outwards (openAfter before) (some r.call)).tail := hc
      rw [hx, List.tail_cons] at hin
      have hlt := hrest c hin
      omega
    | _ => cases he
  | root hp =>
    rcases mem_turn_of_parent hp hc with rfl | hc
    · exact hnew c rfl hid
    · cases hc
  | @outer p hp hin =>
    rcases mem_turn_of_parent hp hc with rfl | hc
    · exact hnew c rfl hid
    · obtain ⟨c', hc', hid', -⟩ := ha.spoken p hp
      obtain ⟨x, rest, hx, hxk, hrest⟩ := lt_of_outwards hdec ⟨c', hc', hid'⟩
      have hlt := h.lt_of_madeIn hin
      rw [hx] at hc
      rcases List.mem_cons.1 hc with rfl | hc
      · omega
      · have := hrest c hc
        omega

end

end Diagram

/-! ## The root -/

/-- What the calls outside all activations agree on, and the raises. -/
structure Diagram.Rooted (d : Diagram) : Prop where
  source : ∀ c ∈ d.calls, ∀ c' ∈ d.calls, c.parent = none → c'.parent = none → c.source = c'.source
  named : ∀ t, .raise t ∈ d.elements → Label.Dotted t.exception

namespace Reader

/-- What a reader keeps of its root. -/
structure Rooted (r : Reader) : Prop where
  source : ∀ c ∈ r.diagram.calls, c.parent = none → r.root = some c.source
  named : ∀ t, .raise t ∈ r.elements → Label.Dotted t.exception

theorem rooted_start : Rooted {} := ⟨by simp [diagram, Diagram.calls], by simp⟩

variable {r r' : Reader}

/-- One more element, under the same root. -/
theorem Rooted.took {e : Element} (h : r.Rooted) (he : r'.elements = r.elements ++ [e])
    (hr : ∀ x, r.root = some x → r'.root = some x)
    (hcall : ∀ c, e = .call c → c.parent = none → r'.root = some c.source)
    (hraise : ∀ t, e = .raise t → Label.Dotted t.exception) : r'.Rooted := by
  refine ⟨fun c hc hp => ?_, fun t ht => ?_⟩
  · rw [diagram, he, Diagram.calls_append, List.mem_append] at hc
    rcases hc with hc | hc
    · exact hr _ (h.source c hc hp)
    · cases e with
      | call c' =>
        obtain rfl := List.mem_singleton.1 hc
        exact hcall c rfl hp
      | _ => cases hc
  · rw [he] at ht
    rcases List.mem_append.1 ht with ht | ht
    · exact h.named t ht
    · exact hraise t (List.mem_singleton.1 ht).symm

/-- Who acts leaves the root as it is. -/
theorem Heeds.root_eq {p : String} {parent : Option Int} (h : r.Heeds p r' parent) {x : String}
    (hx : r.root = some x) : r'.root = some x := by
  rw [h.root, hx, Option.some_or]

theorem Rooted.step (h : r.Rooted) {n : Nat} (hr : r.Reads n r') : r'.Rooted := by
  cases hr with
  | participant name =>
    exact h.took rfl (fun x hx => by simp [push, note, hx]) (by simp) (by simp)
  | entry x _ hfirst =>
    -- the entry message comes before all calls, so it is free to fix the root
    have hentered : Rooted { r with root := some x.target } := by
      refine ⟨fun c hc => absurd ?_ (Bool.eq_false_iff.1 hfirst), h.named⟩
      exact List.any_eq_true.2 ⟨.call c, Diagram.mem_calls.1 hc, rfl⟩
    exact hentered.took rfl (fun _ hx => hx) (by simp) (by simp)
  | call c _ _ hacts =>
    refine h.took (by rw [push, hacts.elements]) (fun _ => hacts.root_eq) ?_ (by simp)
    rintro _ ⟨⟩
    exact hacts.root_of_none
  | reply x _ hacts =>
    exact h.took (by rw [push, hacts.elements]) (fun _ => hacts.root_eq) (by simp) (by simp)
  | raise t _ hacts hnamed =>
    refine h.took (by rw [push, hacts.elements]) (fun _ => hacts.root_eq) (by simp) ?_
    rintro _ ⟨⟩
    exact hnamed
  | result x _ hacts =>
    exact h.took (by rw [push, hacts.elements]) (fun _ => hacts.root_eq) (by simp) (by simp)
  | loop label => exact h.took rfl (fun _ hx => hx) (by simp) (by simp)
  | alt guard => exact h.took rfl (fun _ hx => hx) (by simp) (by simp)
  | orElse guard => exact h.took rfl (fun _ hx => hx) (by simp) (by simp)
  | close hinnermost => exact h.took rfl (fun _ hx => hx) (by simp) (by simp)

end Reader

/-- Every diagram that was read from a text has a root. -/
theorem Diagram.rooted_of_parse {source : String} {d : Diagram} (h : parse source = .ok d) :
    d.Rooted := by
  obtain ⟨r, hroot, rfl⟩ := exists_of_parse h Reader.rooted_start fun hp hr => hp.step hr
  refine ⟨fun c hc c' hc' hp hp' => ?_, hroot.named⟩
  exact Option.some.inj ((hroot.source c hc hp).symm.trans (hroot.source c' hc' hp'))

end Lifeline
