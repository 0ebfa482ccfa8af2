import Lifeline.Proofs.Diagram.OpenCalls
import Lifeline.Proofs.Lists

/-!
# Activations of a diagram

`Diagram.Disciplined d`: calls are numbered in the order of the lines, whoever speaks in the
activation of a call is its target, a reply goes back from the target to the source, and
activations nest. Every diagram that was read from a text is disciplined
(`disciplined_of_parse`). A reader finds an activation by its participant, the innermost one first;
what is proved of it is that its activations are those of the open calls (`Reader.Follows`), which
are found by the numbers in the elements (`openAfter`).
-/

namespace Lifeline

open Relation (ReflTransGen)

/-- What the calls, replies, raises and results of a diagram agree on. -/
structure Diagram.Disciplined (d : Diagram) : Prop where
  ordered : d.elements.Pairwise (fun e e' => e.line < e'.line)
  numbered : d.calls.map (·.id) = (List.range d.calls.length).map Int.ofNat
  spoken : ∀ before e after, d.elements = before ++ e :: after → ∀ k, e.parent? = some (some k) →
    (∃ c ∈ (Diagram.mk before).calls, c.id = k ∧ e.speaker? = some c.target) ∧
      ∀ x ∈ before, x.answered? ≠ some k
  answered : ∀ before r after, d.elements = before ++ .reply r :: after →
    ∃ c ∈ (Diagram.mk before).calls, c.id = r.call ∧ r.source = c.target ∧ r.target = c.source
  once : (d.elements.filterMap Element.answered?).Nodup
  nested : ∀ before e after, d.elements = before ++ e :: after →
    ∀ c ∈ (Diagram.mk before).calls, d.Ends c.id e →
      ∀ x ∈ after, ∀ k, x.Names k → ¬ReflTransGen d.MadeIn k c.id

/-! ## From the open calls -/

namespace Diagram

variable {d : Diagram}

/-- No call is named behind the element that ends the activation of a call it is made in. -/
theorem Sound.nested (h : d.Sound) (ha : Agree d.elements) {before after : List Element}
    {e : Element} (hd : d.elements = before ++ e :: after) {c : Call}
    (hc : c ∈ (Diagram.mk before).calls) (he : d.Ends c.id e) {x : Element} (hx : x ∈ after)
    {k : Int} (hk : x.Names k) : ¬ReflTransGen d.MadeIn k c.id := by
  intro hin
  obtain ⟨mid, post, rfl⟩ := List.append_of_mem hx
  have hd' : d.elements = before ++ [e] ++ mid ++ x :: post := by simp [hd]
  -- the call `c` is not open any more where `x` stands
  have hclosed : ∀ c' ∈ openAfter (before ++ [e] ++ mid), c'.id ≠ c.id := by
    refine not_open_append (not_open_of_ends h hd (ha _ _ _ hd) hc he) fun c' hc' hid => ?_
    have hin : .call c' ∈ e :: (mid ++ x :: post) := .tail _ (List.mem_append_left _ hc')
    have hlt := h.lt_of_append hd hc (mem_calls.2 hin)
    omega
  have ha' : Agree (before ++ [e] ++ mid ++ x :: post) := hd' ▸ ha
  have hopen : ∀ y ∈ openAfter (before ++ [e] ++ mid), y ∈ d.calls := fun y hy =>
    mem_calls.2 (hd' ▸ List.mem_append_left _ (mem_calls.1 (mem_calls_of_open hy)))
  obtain ⟨c', hc', hid⟩ := h.open_of_madeIn hopen (nested_openAfter ha'.of_append) hin
    ((ha _ _ _ hd').of_names hk)
  exact hclosed c' hc' hid

/-- A call is not named behind its reply. -/
theorem Sound.not_names (h : d.Sound) (ha : Agree d.elements) {before after : List Element}
    {e : Element} (hd : d.elements = before ++ e :: after) {k : Int} (he : e.answered? = some k)
    {x : Element} (hx : x ∈ after) : ¬x.Names k := by
  obtain ⟨c, hc, hid⟩ := (ha _ _ _ hd).of_names (.inr he)
  subst hid
  exact fun hk => h.nested ha hd (mem_calls_of_open hc) (.reply he) hx hk .refl

theorem Sound.disciplined (h : d.Sound) (ha : Agree d.elements)
    (hl : d.elements.Pairwise (fun e e' => e.line < e'.line)) : d.Disciplined where
  ordered := hl
  numbered := h.numbered
  spoken before e after hd k hk := by
    obtain ⟨c, hc, hid, ht⟩ := (ha _ _ _ hd).spoken k hk
    refine ⟨⟨c, mem_calls_of_open hc, hid, ht⟩, fun x hx hxk => ?_⟩
    obtain ⟨first, mid, rfl⟩ := List.append_of_mem hx
    have hd' : d.elements = first ++ x :: (mid ++ e :: after) := by simp [hd]
    exact h.not_names ha hd' hxk (List.mem_append_right _ (.head _)) (.inl hk)
  answered before r after hd := by
    obtain ⟨c, hc, h'⟩ := (ha _ _ _ hd).answered r rfl
    exact ⟨c, mem_calls_of_open hc, h'⟩
  once := by
    refine List.pairwise_filterMap.2 (List.pairwise_iff_forall_sublist.2 fun {e x} hs => ?_)
    rintro k hk _ hk' rfl
    obtain ⟨r₁, r₂, hr, he, hx⟩ := List.cons_sublist_iff.1 hs
    obtain ⟨before, mid, rfl⟩ := List.append_of_mem he
    have hd : d.elements = before ++ e :: (mid ++ r₂) := by simp [hr]
    exact h.not_names ha hd hk (List.mem_append_right _ (List.singleton_sublist.1 hx)) (.inr hk')
  nested before e after hd c hc he x hx k hk := h.nested ha hd hc he hx hk

/-! ## Positions -/

/-- A call at a later position has a higher number. -/
theorem Sound.id_lt (h : d.Sound) {p q : Nat} {c c' : Call}
    (hp : d.elements[p]? = some (.call c)) (hq : d.elements[q]? = some (.call c')) (hlt : p < q) :
    c.id < c'.id := by
  refine h.lt_of_append (List.take_append_drop q d.elements).symm (mem_calls.2 ?_) (mem_calls.2 ?_)
  · exact List.mem_of_getElem? ((List.getElem?_take_of_lt hlt).trans hp)
  · refine List.mem_of_getElem? (i := 0) ?_
    rw [List.getElem?_drop, Nat.add_zero, hq]

/-- A call stands at one place. -/
theorem Sound.position_unique (h : d.Sound) {p q : Nat} {c c' : Call}
    (hp : d.elements[p]? = some (.call c)) (hq : d.elements[q]? = some (.call c'))
    (hid : c.id = c'.id) : p = q := by
  obtain hlt | heq | hlt := Nat.lt_trichotomy p q
  · exact absurd hid (Int.ne_of_lt (h.id_lt hp hq hlt))
  · exact heq
  · exact absurd hid.symm (Int.ne_of_lt (h.id_lt hq hp hlt))

/-- The calls in front of a place stand there. -/
theorem exists_of_take {n : Nat} {c : Call} (hc : c ∈ (Diagram.mk (d.elements.take n)).calls) :
    ∃ p < n, d.elements[p]? = some (.call c) := by
  obtain ⟨p, hp⟩ := List.getElem?_of_mem (mem_calls.1 hc)
  rw [List.getElem?_take] at hp
  split at hp
  · exact ⟨p, ‹_›, hp⟩
  · cases hp

/-- What is spoken in the activation of a call stands behind the call. -/
theorem Disciplined.call_before (hd : d.Disciplined) {n : Nat} {e : Element} {k : Int}
    (he : d.elements[n]? = some e) (hp : e.parent? = some (some k)) :
    ∃ p < n, ∃ c, d.elements[p]? = some (.call c) ∧ c.id = k := by
  obtain ⟨⟨c, hc, hid, -⟩, -⟩ := hd.spoken _ e _ (cut_of_getElem? he) k hp
  obtain ⟨p, hlt, hp⟩ := exists_of_take hc
  exact ⟨p, hlt, c, hp, hid⟩

end Diagram

/-! ## The activations of a reader -/

namespace Reader

/-- An activation is the one of an open call. -/
structure Opens (a : Activation) (c : Call) : Prop where
  call : c.id = a.call
  source : c.source = a.caller
  target : c.target = a.callee

/-- The activations of a reader are those of the calls `cs`. -/
def Follows (r : Reader) (cs : List Call) : Prop := List.Forall₂ Opens r.activations cs

/-- The innermost activation of a participant is found under the number of its call. -/
theorem follows_activationsOf {p : String} {a : Activation} {rest as : List Activation}
    {cs : List Call} (hf : List.Forall₂ Opens as cs)
    (hp : cs.Pairwise (fun c c' => c'.id < c.id)) (h : activationsOf p as = a :: rest) :
    List.Forall₂ Opens (a :: rest) (outwards cs (some a.call)) := by
  induction hf with
  | nil => simp [activationsOf] at h
  | @cons b c as cs hb has ih =>
    unfold activationsOf at h
    split at h
    · cases h
      have : outwards (c :: cs) (some a.call) = c :: cs := by simp [outwards, hb.call]
      rw [this]
      exact .cons hb has
    · obtain ⟨hc, hcs⟩ := List.pairwise_cons.1 hp
      have ih := ih hcs h
      obtain ⟨c', hc', ha⟩ := forall₂_left ih a (.head _)
      have hlt := hc c' ((outwards_suffix cs _).subset hc')
      have hne : c.id ≠ a.call := by
        rw [← ha.call]
        omega
      have : outwards (c :: cs) (some a.call) = outwards cs (some a.call) := by
        simp [outwards, hne]
      exact this ▸ ih

/-- A reader in which `participant` acts, in the activation of the call `parent`, where the calls
`cs` were open before. -/
structure Acts (r : Reader) (cs : List Call) (participant : String) (parent : Option Int) :
    Prop where
  follows : r.Follows (outwards cs parent)
  innermost : r.activations.head?.map (fun a => (a.call : Int)) = parent
  spoken : ∀ k, parent = some k → ∃ c ∈ cs, c.id = k ∧ c.target = participant

/-- What the elements and activations of a reader are after one more element, on the line `line`,
where the calls `cs` were open before. -/
def Took (r r' : Reader) (cs : List Call) (line : Int) : Prop :=
  ∃ e : Element, r'.elements = r.elements ++ [e] ∧ e.line = line ∧ e.Agrees cs ∧
    r'.Follows (e.turn cs)

variable {r r' : Reader} {cs : List Call} {line : Int} {parent : Option Int}

theorem Follows.heeds (h : r.Follows cs) (hp : cs.Pairwise (fun c c' => c'.id < c.id)) {p : String}
    (hr : r.Heeds p r' parent) : r'.Acts cs p parent := by
  cases hr with
  | @inside a rest found =>
    have hf := follows_activationsOf h hp found
    refine ⟨hf, rfl, ?_⟩
    rintro k ⟨⟩
    obtain ⟨c, hc, hac⟩ := forall₂_left hf a (.head _)
    exact ⟨c, (outwards_suffix cs _).subset hc, hac.call,
      hac.target.trans (activationsOf_callee p found)⟩
  | outside root => exact ⟨.nil, rfl, by simp⟩

/-- An element that names no call and leaves the activations as they are. -/
theorem Follows.took {e : Element} (h : r.Follows cs) (hp : e.parent? = none)
    (ha : e.answered? = none) (hl : e.line = line) (ht : e.turn cs = cs)
    (he : r'.elements = r.elements ++ [e]) (hr : r'.activations = r.activations) :
    r.Took r' cs line := by
  refine ⟨e, he, hl, ⟨by simp [hp], ?_⟩, by rw [ht, Follows, hr]; exact h⟩
  rintro x rfl
  cases ha

/-- An element that the participant who acts speaks. -/
theorem Acts.agrees {p : String} (h : r.Acts cs p parent) {e : Element}
    (hp : e.parent? = some parent) (hs : e.speaker? = some p) (ha : e.answered? = none) :
    e.Agrees cs := by
  refine ⟨fun k hk => ?_, ?_⟩
  · obtain ⟨c, hc, hid, rfl⟩ := h.spoken k (Option.some.inj (hp.symm.trans hk))
    exact ⟨c, hc, hid, hs⟩
  · rintro x rfl
    cases ha

/-- Every line is taken as one element that agrees with the open calls. -/
theorem Follows.step (h : r.Follows cs) (hp : cs.Pairwise (fun c c' => c'.id < c.id)) {n : Nat}
    (hr : r.Reads n r') : r.Took r' cs n := by
  cases hr with
  | participant name => exact h.took rfl rfl rfl rfl rfl rfl
  | entry x hline => exact h.took (e := .entry x) rfl rfl hline rfl rfl rfl
  | call c hline hid hacts =>
    have h₁ := h.heeds hp hacts
    exact ⟨.call c, by rw [push, hacts.elements], hline, h₁.agrees rfl rfl rfl,
      .cons ⟨hid, rfl, rfl⟩ h₁.follows⟩
  | @reply r₁ parent a rest x hline hacts hinnermost hcall hsource htarget =>
    have h₁ := h.heeds hp hacts
    -- the reply is to the call whose activation is the innermost one
    have hparent : parent = some x.call := by
      rw [← h₁.innermost, hinnermost, hcall]
      rfl
    have hf := h₁.follows
    rw [Follows, hinnermost, hparent] at hf
    obtain ⟨c, hc, hac⟩ := forall₂_left hf a (.head _)
    refine ⟨.reply x, by rw [push, hacts.elements], hline, ⟨by simp [Element.parent?], ?_⟩, ?_⟩
    · rintro _ ⟨⟩
      exact ⟨c, (outwards_suffix cs _).subset hc, hac.call.trans hcall.symm,
        hsource.trans hac.target.symm, htarget.trans hac.source.symm⟩
    · generalize ho : outwards cs (some x.call) = os at hf
      cases hf with
      | cons _ hrest => simpa [Follows, Element.turn, push, ho] using hrest
  | raise t hline hacts =>
    have h₁ := h.heeds hp hacts
    exact ⟨.raise t, by rw [push, hacts.elements], hline, h₁.agrees rfl rfl rfl, h₁.follows⟩
  | result x hline hacts =>
    have h₁ := h.heeds hp hacts
    exact ⟨.result x, by rw [push, hacts.elements], hline, h₁.agrees rfl rfl rfl, h₁.follows⟩
  | loop label => exact h.took rfl rfl rfl rfl rfl rfl
  | alt guard => exact h.took rfl rfl rfl rfl rfl rfl
  | orElse guard => exact h.took rfl rfl rfl rfl rfl rfl
  | close hinnermost => exact h.took rfl rfl rfl rfl rfl rfl

/-! ## The whole text -/

/-- What a reader keeps of the calls that are open. -/
structure Keeps (r : Reader) : Prop where
  inv : r.Inv
  agree : Agree r.elements
  follows : r.Follows (openAfter r.elements)

theorem keeps_start : Keeps {} where
  inv := inv_start
  agree := by simp [Agree]
  follows := .nil

theorem Keeps.step (h : r.Keeps) {l : Line} (hr : r.step l = .ok r') :
    r'.Keeps ∧ ∃ e : Element, r'.elements = r.elements ++ [e] ∧ e.line = l.number := by
  have hdec : (openAfter r.elements).Pairwise (fun c c' => c'.id < c.id) :=
    h.inv.sound.decreasing (List.append_nil r.elements).symm
  obtain ⟨e, he, hl, ha, hf⟩ := h.follows.step hdec (reads_of_step hr)
  refine ⟨⟨h.inv.step (reads_of_step hr), ?_, ?_⟩, e, he, hl⟩
  · rw [he]
    exact h.agree.concat ha
  · rw [he, openAfter_concat]
    exact hf

/-- Every line gives one element. -/
theorem Keeps.run : ∀ {lines : List Line} {r r' : Reader}, r.Keeps →
    lines.foldlM Reader.step r = .ok r' → r'.Keeps ∧
      r'.elements.map (·.line) = r.elements.map (·.line) ++ lines.map (fun l => (l.number : Int))
  | [], r, r', h, hr => by
    simp only [List.foldlM_nil, pure_ok] at hr
    subst hr
    exact ⟨h, by simp⟩
  | l :: lines, r, r', h, hr => by
    simp only [List.foldlM_cons, bind_ok] at hr
    obtain ⟨r1, h1, hr⟩ := hr
    obtain ⟨hk, e, he, hl⟩ := h.step h1
    obtain ⟨hk', hls⟩ := Keeps.run hk hr
    exact ⟨hk', by simp [hls, he, hl]⟩

end Reader

/-- Lines are numbered in their order. -/
theorem Line.increasing_of_scanFrom : ∀ {cs : List (List Char)} {number : Nat} {inNote : Bool}
    {lines : List Line}, scanFrom number inNote cs = .ok lines →
      (∀ l ∈ lines, number ≤ l.number) ∧ lines.Pairwise (fun l l' => l.number < l'.number)
  | [], _, _, _, h => by
    cases h
    simp
  | raw :: rest, number, inNote, lines, h => by
    have skip : ∀ {inNote : Bool}, scanFrom (number + 1) inNote rest = .ok lines →
        (∀ l ∈ lines, number ≤ l.number) ∧ lines.Pairwise (fun l l' => l.number < l'.number) :=
      fun h => by
        obtain ⟨hle, hp⟩ := increasing_of_scanFrom h
        exact ⟨fun l hl => Nat.le_of_succ_le (hle l hl), hp⟩
    unfold scanFrom at h
    simp only at h
    split at h
    · exact skip h
    split at h
    · exact skip h
    split at h
    · exact skip h
    split at h
    · cases h
    split at h
    · rename_i ls hls
      cases h
      obtain ⟨hle, hp⟩ := increasing_of_scanFrom hls
      refine ⟨fun l hl => ?_, List.pairwise_cons.2 ⟨fun l hl => hle l hl, hp⟩⟩
      rcases List.mem_cons.1 hl with rfl | hl
      · exact Nat.le_refl _
      · exact Nat.le_of_succ_le (hle l hl)
    · cases h

/-- **Every diagram that was read from a text keeps the discipline of activations.** -/
theorem Diagram.disciplined_of_parse {source : String} {d : Diagram} (h : parse source = .ok d) :
    d.Disciplined := by
  have hs : d.Sound := sound_of_parse h
  simp only [parse, ofLines, bind_ok] at h
  obtain ⟨lines, hlines, r, hr, hd⟩ := h
  obtain ⟨hk, hl⟩ := Reader.keeps_start.run hr
  unfold Reader.finish at hd
  split at hd
  · cases hd
    refine hs.disciplined hk.agree ?_
    have hp := (Line.increasing_of_scanFrom hlines).2
    have hlines : (r.elements.map (·.line)).Pairwise (· < ·) := by
      rw [hl]
      exact List.pairwise_map.2 (hp.imp fun hlt => Int.ofNat_lt.2 hlt)
    exact List.pairwise_map.1 hlines
  · cases hd

namespace Diagram

/-- A diagram in which a call is never answered: the reply of `B` and the next message of `A` close
what is open inside them. -/
def silentCalls : String :=
  "[-> A : run(x)\nA -> B : load(x)\nB -> C : find(x)\nC -> D : log(x)\nB --> A : v\n" ++
    "A -> C : send(v)\nC -> D : log(v)\nA -->] : v\n"

theorem parse_silentCalls : ∃ d ∈ (parse silentCalls).toOption,
    d.calls.map (·.parent) = [none, some 0, some 1, none, some 3] ∧
      d.elements.filterMap Element.answered? = [0] := by
  unfold parse Line.scan silentCalls
  rw [String.toList_append, String.toList_ofList, String.toList_ofList]
  decide +kernel

theorem disciplined_silentCalls : ∃ d, parse silentCalls = .ok d ∧
    d.calls.map (·.parent) = [none, some 0, some 1, none, some 3] ∧
      d.elements.filterMap Element.answered? = [0] ∧ d.Disciplined := by
  obtain ⟨d, hd, hp, ha⟩ := parse_silentCalls
  have hd : parse silentCalls = .ok d := toOption_eq_some.1 hd
  exact ⟨d, hd, hp, ha, disciplined_of_parse hd⟩

end Diagram

end Lifeline
