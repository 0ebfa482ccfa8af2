import Lifeline.Proofs.Diagram.Blocks
import Lifeline.Proofs.Diagram.Lines

/-!
# Diagrams that were read from a text

`Diagram.Sound d`: the calls of `d` are numbered from zero on, the activation that a call or a raise
stands in is the one of an earlier call, whose target makes the call, a reply answers an earlier
call, a further branch stands only inside an alternative, and only an open block is closed. Every
diagram that was read has it (`sound_of_parse`), since every
line keeps it together with what it says of the open activations and blocks (`Reader.Inv`).
-/

namespace Lifeline

open Model (Blocks)

/-- What the elements of a diagram agree on. -/
structure Diagram.Sound (d : Diagram) : Prop where
  numbered : d.calls.map (·.id) = (List.range d.calls.length).map Int.ofNat
  called : ∀ c ∈ d.calls, ∀ p, c.parent = some p →
    p < c.id ∧ ∃ c' ∈ d.calls, c'.id = p ∧ c'.target = c.source
  raised : ∀ t, .raise t ∈ d.elements → ∀ p, t.parent = some p → ∃ c ∈ d.calls, c.id = p
  branched : ∀ n line guard, d.elements[n]? = some (.orElse line guard) →
    ∃ f rest, (Blocks.after (d.elements.take n)).around = f :: rest ∧ f.kind = .alt
  closed : ∀ n line, d.elements[n]? = some (.close line) →
    (Blocks.after (d.elements.take n)).around ≠ []
  answered : ∀ n r, d.elements[n]? = some (.reply r) →
    ∃ c ∈ (Diagram.mk (d.elements.take n)).calls, c.id = r.call

namespace Diagram

theorem calls_append (es : List Element) (e : Element) :
    (Diagram.mk (es ++ [e])).calls =
      (Diagram.mk es).calls ++ (match e with | .call c => [c] | _ => []) := by
  cases e <;> simp [calls]

/-- A call of a sound diagram has its place among the calls as its number. -/
theorem Sound.call_id {d : Diagram} (h : d.Sound) {c : Call} (hc : c ∈ d.calls) :
    ∃ n : Nat, n < d.calls.length ∧ c.id = n := by
  have : c.id ∈ d.calls.map (·.id) := List.mem_map.2 ⟨c, hc, rfl⟩
  rw [h.numbered] at this
  obtain ⟨n, hn, he⟩ := List.mem_map.1 this
  exact ⟨n, List.mem_range.1 hn, he.symm⟩

/-- What every element of a list says of those before it, where one more has come. -/
theorem said_concat {P : List Element → Prop} {es : List Element} {e x : Element} {n : Nat}
    (h : ∀ {n}, es[n]? = some x → P (es.take n)) (he : e = x → P es)
    (hn : (es ++ [e])[n]? = some x) : P ((es ++ [e]).take n) := by
  rcases Nat.lt_or_ge n es.length with hl | hl
  · rw [List.getElem?_append_left hl] at hn
    rw [List.take_append_of_le_length (by omega)]
    exact h hn
  · obtain rfl : n = es.length := by
      have := (List.getElem?_eq_some_iff.1 hn).1
      simp only [List.length_append, List.length_singleton] at this
      omega
    rw [List.getElem?_concat_length] at hn
    rw [List.take_left]
    exact he (Option.some.inj hn)

/-- One more element that agrees with those before it. -/
theorem Sound.append {es : List Element} (h : (Diagram.mk es).Sound) (e : Element)
    (hcall : ∀ c, e = .call c → c.id = (Diagram.mk es).calls.length ∧ ∀ p, c.parent = some p →
      ∃ c' ∈ (Diagram.mk es).calls, c'.id = p ∧ c'.target = c.source)
    (hraise : ∀ t, e = .raise t → ∀ p, t.parent = some p →
      ∃ c ∈ (Diagram.mk es).calls, c.id = p)
    (helse : ∀ line guard, e = .orElse line guard →
      ∃ f rest, (Blocks.after es).around = f :: rest ∧ f.kind = .alt)
    (hclose : ∀ line, e = .close line → (Blocks.after es).around ≠ [])
    (hreply : ∀ r, e = .reply r → ∃ c ∈ (Diagram.mk es).calls, c.id = r.call) :
    (Diagram.mk (es ++ [e])).Sound := by
  have old : ∀ {c}, c ∈ (Diagram.mk es).calls → c ∈ (Diagram.mk (es ++ [e])).calls := fun hc => by
    rw [calls_append]
    exact List.mem_append_left _ hc
  refine ⟨?_, fun c hc p hp => ?_, fun t ht p hp => ?_,
    fun n line guard => said_concat (P := fun es =>
      ∃ f rest, (Blocks.after es).around = f :: rest ∧ f.kind = .alt)
      (h.branched _ line guard) (helse line guard),
    fun n line => said_concat (P := fun es => (Blocks.after es).around ≠ []) (h.closed _ line)
      (hclose line),
    fun n r => said_concat (P := fun es => ∃ c ∈ (Diagram.mk es).calls, c.id = r.call)
      (h.answered _ r) (hreply r)⟩
  · rw [calls_append]
    cases e with
    | call c =>
      simp [h.numbered, (hcall c rfl).1, List.range_succ]
    | _ => simpa using h.numbered
  · rw [calls_append, List.mem_append] at hc
    rcases hc with hc | hc
    · obtain ⟨hlt, c', hc', h'⟩ := h.called c hc p hp
      exact ⟨hlt, c', old hc', h'⟩
    · cases e with
      | call c0 =>
        obtain rfl : c = c0 := by simpa using hc
        obtain ⟨hid, hpar⟩ := hcall c rfl
        obtain ⟨c', hc', rfl, ht⟩ := hpar p hp
        obtain ⟨n, hn, hid'⟩ := h.call_id hc'
        exact ⟨by omega, c', old hc', rfl, ht⟩
      | _ => simp at hc
  · rcases List.mem_append.1 ht with ht | ht
    · obtain ⟨c, hc, hid⟩ := h.raised t ht p hp
      exact ⟨c, old hc, hid⟩
    · obtain ⟨c, hc, hid⟩ := hraise t (List.mem_singleton.1 ht).symm p hp
      exact ⟨c, old hc, hid⟩

end Diagram

namespace Reader

/-- What a reader keeps. -/
structure Inv (r : Reader) : Prop where
  sound : r.diagram.Sound
  count : r.calls = r.diagram.calls.length
  active : ∀ a ∈ r.activations, ∃ c ∈ r.diagram.calls, c.id = a.call ∧ c.target = a.callee
  blocks : r.blocks.map (·.kind) = (Blocks.after r.elements).around.map (·.kind)

theorem inv_start : Inv {} where
  sound := ⟨rfl, by simp [diagram, Diagram.calls], by simp [diagram], by simp [diagram],
    by simp [diagram], by simp [diagram]⟩
  count := rfl
  active := by simp
  blocks := rfl

variable {r r' : Reader}

/-- The invariant reads only the elements, the activations, the blocks and the count. -/
theorem Inv.of_eq (h : r.Inv) (he : r'.elements = r.elements)
    (ha : ∀ a ∈ r'.activations, a ∈ r.activations) (hb : r'.blocks = r.blocks)
    (hc : r'.calls = r.calls) : r'.Inv := by
  have hd : r'.diagram = r.diagram := by simp [diagram, he]
  exact ⟨hd ▸ h.sound, by rw [hc, hd, h.count], fun a h' => hd ▸ h.active a (ha a h'),
    by rw [hb, he, h.blocks]⟩

theorem Inv.note (h : r.Inv) (name : String) : (r.note name).Inv :=
  h.of_eq rfl (fun _ ha => ha) rfl rfl

/-- Who acts stands in an activation that it was called in, or outside all of them. -/
theorem Inv.heeds (h : r.Inv) {p : String} {parent : Option Int} (hr : r.Heeds p r' parent) :
    r'.Inv ∧ ∀ k, parent = some k → ∃ c ∈ r'.diagram.calls, c.id = k ∧ c.target = p := by
  have h' : r'.Inv :=
    h.of_eq hr.elements (fun _ ha => hr.activations.subset ha) hr.blocks hr.calls
  refine ⟨h', fun k hk => ?_⟩
  obtain ⟨a, ha, hcall, hcallee⟩ := hr.callee hk
  obtain ⟨c, hc, hid, htarget⟩ := h.active a ha
  rw [diagram, hr.elements]
  exact ⟨c, hc, hid.trans hcall, htarget.trans hcallee⟩

/-! ## One more element -/

/-- An element that is neither a call nor part of a block. -/
theorem Inv.push (h : r.Inv) {e : Element} (hcall : ∀ c, e ≠ .call c)
    (hraise : ∀ t, e = .raise t → ∀ p, t.parent = some p → ∃ c ∈ r.diagram.calls, c.id = p)
    (hreply : ∀ x, e = .reply x → ∃ c ∈ r.diagram.calls, c.id = x.call)
    (helse : ∀ line guard, e ≠ .orElse line guard) (hclose : ∀ line, e ≠ .close line)
    (hstep : ∀ b, Blocks.step b e = b) : (r.push e).Inv := by
  have hcs : (r.push e).diagram.calls = r.diagram.calls := by
    rw [diagram, Reader.push, Diagram.calls_append]
    cases e with
    | call c => exact absurd rfl (hcall c)
    | _ => simp [diagram]
  refine ⟨?_, ?_, fun a ha => ?_, ?_⟩
  · exact h.sound.append e (fun c hc => absurd hc (hcall c)) hraise
      (fun l g hg => absurd hg (helse l g)) (fun l hl => absurd hl (hclose l)) hreply
  · rw [hcs]
    exact h.count
  · rw [hcs]
    exact h.active a ha
  · rw [Reader.push, Blocks.after_append, hstep]
    exact h.blocks

/-- A call, with the activation that it opens. -/
theorem Inv.pushCall (h : r.Inv) {c : Call} (hid : c.id = r.calls)
    (hpar : ∀ p, c.parent = some p → ∃ c' ∈ r.diagram.calls, c'.id = p ∧ c'.target = c.source) :
    Inv ({ r with
      calls := r.calls + 1
      activations := { call := r.calls, caller := c.source, callee := c.target } :: r.activations
      }.push (.call c)) := by
  have hcs : (Diagram.mk (r.elements ++ [.call c])).calls = r.diagram.calls ++ [c] := by
    rw [Diagram.calls_append]; rfl
  refine ⟨h.sound.append _ ?_ (by simp) (by simp) (by simp) (by simp), ?_, fun a ha => ?_, ?_⟩
  · rintro _ ⟨⟩
    exact ⟨by rw [hid, h.count]; rfl, hpar⟩
  · simp [Reader.push, diagram, hcs, h.count]
  · simp only [diagram, Reader.push, hcs]
    rcases List.mem_cons.1 ha with rfl | ha
    · exact ⟨c, by simp, hid, rfl⟩
    · obtain ⟨c', hc', h'⟩ := h.active a ha
      exact ⟨c', List.mem_append_left _ hc', h'⟩
  · simp only [Reader.push, Blocks.after_append]
    exact h.blocks

/-- The start, a further branch or the end of a block. -/
theorem Inv.pushBlock (h : r.Inv) {e : Element} {b : List OpenBlock} (hcall : ∀ c, e ≠ .call c)
    (hraise : ∀ t, e ≠ .raise t) (hreply : ∀ x, e ≠ .reply x)
    (helse : ∀ line guard, e = .orElse line guard →
      ∃ f rest, (Blocks.after r.elements).around = f :: rest ∧ f.kind = .alt)
    (hclose : ∀ line, e = .close line → (Blocks.after r.elements).around ≠ [])
    (hbs : b.map (·.kind) = ((Blocks.after r.elements).step e).around.map (·.kind)) :
    Inv ({ r with blocks := b }.push e) := by
  have hcs : (Diagram.mk (r.elements ++ [e])).calls = r.diagram.calls := by
    rw [Diagram.calls_append]
    cases e with
    | call c => exact absurd rfl (hcall c)
    | _ => simp [diagram]
  refine ⟨h.sound.append e (fun c hc => absurd hc (hcall c)) (fun t ht => absurd ht (hraise t))
    helse hclose (fun x hx => absurd hx (hreply x)), ?_, fun a ha => ?_, ?_⟩
  · simpa [Reader.push, diagram, hcs] using h.count
  · simpa only [diagram, Reader.push, hcs] using h.active a ha
  · simpa only [Reader.push, Blocks.after_append] using hbs

/-! ## One more line -/

/-- What is open innermost is so by the elements too. -/
theorem Inv.innermost (h : r.Inv) {b : OpenBlock} {rest : List OpenBlock}
    (hb : r.blocks = b :: rest) : ∃ f fs, (Blocks.after r.elements).around = f :: fs ∧
      f.kind = b.kind ∧ rest.map (·.kind) = fs.map (·.kind) := by
  have hk := h.blocks
  rw [hb] at hk
  cases hfs : (Blocks.after r.elements).around with
  | nil => simp [hfs] at hk
  | cons f fs =>
    simp only [hfs, List.map_cons, List.cons.injEq] at hk
    exact ⟨f, fs, rfl, hk.1.symm, hk.2⟩

/-- Every line keeps the invariant. -/
theorem Inv.step (h : r.Inv) {n : Nat} (hr : r.Reads n r') : r'.Inv := by
  cases hr with
  | participant name =>
    exact (h.note name).push (by simp) (by simp) (by simp) (by simp) (by simp) fun _ => rfl
  | entry x =>
    have h' : Inv { r with root := some x.target } := h.of_eq rfl (fun _ ha => ha) rfl rfl
    exact h'.push (by simp) (by simp) (by simp) (by simp) (by simp) fun _ => rfl
  | call c _ hid hacts =>
    obtain ⟨h₁, hparent⟩ := h.heeds hacts
    exact h₁.pushCall hid hparent
  | @reply r₁ _ a rest x _ hacts hinnermost hcall =>
    obtain ⟨h₁, -⟩ := h.heeds hacts
    have h' : Inv { r₁ with activations := rest } :=
      h₁.of_eq rfl (fun b hb => hinnermost ▸ .tail _ hb) rfl rfl
    refine h'.push (by simp) (by simp) ?_ (by simp) (by simp) fun _ => rfl
    rintro _ ⟨⟩
    obtain ⟨c, hc, hid, -⟩ := h₁.active a (hinnermost ▸ .head _)
    exact ⟨c, hc, hid.trans hcall.symm⟩
  | raise t _ hacts =>
    obtain ⟨h₁, hparent⟩ := h.heeds hacts
    refine h₁.push (by simp) ?_ (by simp) (by simp) (by simp) fun _ => rfl
    rintro _ ⟨⟩ k hk
    obtain ⟨c, hc, hid, -⟩ := hparent k hk
    exact ⟨c, hc, hid⟩
  | result x _ hacts =>
    exact (h.heeds hacts).1.push (by simp) (by simp) (by simp) (by simp) (by simp) fun _ => rfl
  | loop label =>
    exact h.pushBlock (by simp) (by simp) (by simp) (by simp) (by simp)
      (by simp [Blocks.step, Blocks.opened, h.blocks])
  | alt guard =>
    exact h.pushBlock (by simp) (by simp) (by simp) (by simp) (by simp)
      (by simp [Blocks.step, Blocks.opened, h.blocks])
  | orElse guard hinnermost =>
    obtain ⟨f, fs, hfs, hkind, -⟩ := h.innermost hinnermost
    refine h.pushBlock (b := r.blocks) (by simp) (by simp) (by simp)
      (fun _ _ _ => ⟨f, fs, hfs, hkind⟩) (by simp) ?_
    rw [h.blocks]
    simp [Blocks.step, Blocks.branched, hfs]
  | close hinnermost =>
    obtain ⟨f, fs, hfs, -, hrest⟩ := h.innermost hinnermost
    refine h.pushBlock (by simp) (by simp) (by simp) (by simp) (fun _ _ => by simp [hfs]) ?_
    simpa [Blocks.step, Blocks.closed, hfs] using hrest

end Reader

/-- **Every diagram that was read from a text is sound.** -/
theorem Diagram.sound_of_parse {source : String} {d : Diagram} (h : parse source = .ok d) :
    d.Sound := by
  obtain ⟨r, hinv, rfl⟩ := exists_of_parse h Reader.inv_start fun hp hr => hp.step hr
  exact hinv.sound

end Lifeline
