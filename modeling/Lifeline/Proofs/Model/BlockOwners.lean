import Lifeline.Proofs.Diagram.Activations
import Lifeline.Proofs.Model.Building
import Lifeline.Proofs.Model.Steps

/-!
# Who owns a block

A block belongs to the method of the first message inside it (`Diagram.Leads`). A walk gives a block
its owner at that message (`Walk.Owns`), so the scope of a call holds those of the blocks around it
that its own method leads (`scoped_of_parse`). Such a block is opened behind the call that runs the
method.
-/

set_option autoImplicit false

namespace Lifeline

namespace Diagram

/-- The `n`-th element stands inside the block `b`. -/
def Inside (d : Diagram) (b n : Nat) : Prop := ∃ f ∈ Model.framesAt d.elements n, f.block = b

/-- The `n`-th element is a message of the method `μ`: it is spoken in the activation of the method,
or it replies to a call that the method makes. -/
inductive Speaks (d : Diagram) (n : Nat) (μ : Model.MethodId) : Prop
  | spoken (e : Element) : d.elements[n]? = some e → e.parent? = some μ → Speaks d n μ
  | reply (r : Reply) (c : Call) : d.elements[n]? = some (.reply r) → c ∈ d.calls → c.id = r.call →
      c.parent = μ → Speaks d n μ

/-- The first message inside the block `b` is one of the method `μ`. -/
def Leads (d : Diagram) (b : Nat) (μ : Model.MethodId) : Prop :=
  ∃ n, d.Inside b n ∧ d.Speaks n μ ∧ ∀ k < n, d.Inside b k → ∀ ν, ¬d.Speaks k ν

variable {d : Diagram}

theorem Sound.speaks_unique (h : d.Sound) {n : Nat} {μ ν : Model.MethodId} (hμ : d.Speaks n μ)
    (hν : d.Speaks n ν) : μ = ν := by
  cases hμ with
  | spoken e he hp =>
    cases hν with
    | spoken e' he' hp' =>
      obtain rfl := Option.some.inj (he.symm.trans he')
      exact Option.some.inj (hp.symm.trans hp')
    | reply r c he' =>
      obtain rfl := Option.some.inj (he.symm.trans he')
      cases hp
  | reply r c he hc hid hp =>
    cases hν with
    | spoken e' he' hp' =>
      obtain rfl := Option.some.inj (he.symm.trans he')
      cases hp'
    | reply r' c' he' hc' hid' hp' =>
      obtain rfl := Element.reply.inj (Option.some.inj (he.symm.trans he'))
      obtain rfl := h.eq_of_id hc hc' (hid.trans hid'.symm)
      exact hp.symm.trans hp'

theorem Sound.leads_unique (h : d.Sound) {b : Nat} {μ ν : Model.MethodId} (hμ : d.Leads b μ)
    (hν : d.Leads b ν) : μ = ν := by
  obtain ⟨n, hn, hs, hfirst⟩ := hμ
  obtain ⟨n', hn', hs', hfirst'⟩ := hν
  obtain hlt | rfl | hlt := Nat.lt_trichotomy n n'
  · exact absurd hs (hfirst' n hlt hn μ)
  · exact h.speaks_unique hs hs'
  · exact absurd hs' (hfirst n' hlt hn' ν)

/-- A message of the method that a call runs stands behind the call. -/
theorem Disciplined.call_before_message (hd : d.Disciplined) (h : d.Sound) {n : Nat} {k : Int}
    (hs : d.Speaks n (some k)) : ∃ p < n, ∃ c, d.elements[p]? = some (.call c) ∧ c.id = k := by
  cases hs with
  | spoken e he hp => exact hd.call_before he hp
  | reply r c he hc hid hp =>
    obtain ⟨c', hc', hid', -⟩ := hd.answered _ r _ (cut_of_getElem? he)
    obtain ⟨q, hlt, hq⟩ := exists_of_take hc'
    obtain rfl := h.eq_of_id hc (mem_calls.2 (List.mem_of_getElem? hq)) (hid.trans hid'.symm)
    obtain ⟨p, hpq, hcall⟩ := hd.call_before hq (congrArg some hp)
    exact ⟨p, by omega, hcall⟩

/-- A block that a method leads is opened behind the call that runs the method. -/
theorem Disciplined.not_inside_of_leads (hd : d.Disciplined) (h : d.Sound) {b : Nat} {k : Int}
    (hl : d.Leads b (some k)) {p : Nat} {c : Call} (hp : d.elements[p]? = some (.call c))
    (hc : c.id = k) {n : Nat} (hn : n ≤ p) : ¬d.Inside b n := by
  rintro ⟨f, hf, hb⟩
  obtain ⟨n', ⟨f', hf', hb'⟩, hs, hfirst⟩ := hl
  obtain ⟨q, hq, c', hc', hid⟩ := hd.call_before_message h hs
  obtain rfl := h.position_unique hc' hp (hid.trans hc.symm)
  -- the block is around the call, which is a message of another method inside it
  obtain ⟨g, hg, hgb⟩ := Model.framesAt_unbroken hn hq.le hf hf' (hb.trans hb'.symm)
  exact hfirst q hq ⟨g, hg, hgb.trans hb⟩ c.parent (.spoken _ hp rfl)

end Diagram

namespace Model

namespace Walk

/-! ## The owners that a walk finds -/

/-- The owners of the blocks in a walk behind the elements `es` of a diagram: a block that has one
is led by it, and inside a block that has none there is no message yet. -/
structure Owns (d : Diagram) (es : List Element) (w : Walk) : Prop where
  led : ∀ (b : Nat) (g : Fragment) μ, w.fragments[b]? = some g → g.owner = some μ → d.Leads b μ
  quiet : ∀ (b : Nat) (g : Fragment), w.fragments[b]? = some g → g.owner = none →
    ∀ n < es.length, d.Inside b n → ∀ ν, ¬d.Speaks n ν

theorem owns_start (d : Diagram) : Owns d [] {} := ⟨by simp, by simp⟩

variable {d : Diagram} {es rest : List Element} {e : Element} {w w' : Walk}

/-- The element stands inside the blocks that are open. -/
theorem Tracks.inside_iff (h : Tracks es w) (hd : d.elements = es ++ e :: rest) {b : Nat} :
    d.Inside b es.length ↔ b ∈ w.openBlocks := by
  rw [Diagram.Inside, h.openBlocks, framesAt, hd, List.take_left]
  simp

/-- No element up to here stands inside a block that is still to come. -/
theorem Tracks.not_inside (h : Tracks es w) (hd : d.elements = es ++ e :: rest) {b n : Nat}
    (hb : w.fragments.length ≤ b) (hn : n < es.length + 1) : ¬d.Inside b n := by
  rintro ⟨f, hf, rfl⟩
  rw [framesAt, List.mem_reverse] at hf
  have hlt : f.block < (Blocks.after (d.elements.take es.length)).count :=
    after_mono (P := fun b => f.block < b.count)
      (fun b e h => Nat.lt_of_lt_of_le h (b.count_le_step e)) (Nat.le_of_lt_succ hn)
      ((Blocks.after_ok _).counted f hf)
  rw [hd, List.take_left, ← h.count, length_shape] at hlt
  omega

/-- A message of the method `μ`. -/
theorem Owns.own (h : Owns d es w) (ht : Tracks es w) (hd : d.elements = es ++ e :: rest)
    {μ : MethodId} (hs : d.Speaks es.length μ) (hw : w'.fragments = (w.own μ).fragments) :
    Owns d (es ++ [e]) w' := by
  have hold : ∀ (b : Nat) (g : Fragment), w'.fragments[b]? = some g →
      ∃ g₀, w.fragments[b]? = some g₀ ∧
        g.owner = if b ∈ w.openBlocks then g₀.owner.or (some μ) else g₀.owner := by
    intro b g hg
    rw [hw, Walk.own, List.getElem?_map, List.getElem?_zipIdx, Option.map_map,
      Option.map_eq_some_iff] at hg
    obtain ⟨g₀, hg₀, rfl⟩ := hg
    refine ⟨g₀, hg₀, ?_⟩
    by_cases hb : b ∈ w.openBlocks <;> simp [hb]
  constructor
  · intro b g ν hg hν
    obtain ⟨g₀, hg₀, howner⟩ := hold b g hg
    rw [hν] at howner
    by_cases hb : b ∈ w.openBlocks
    · rw [if_pos hb] at howner
      cases ho : g₀.owner with
      | none =>
        rw [ho, Option.none_or, Option.some.injEq] at howner
        rw [howner]
        exact ⟨es.length, (ht.inside_iff hd).2 hb, hs, h.quiet b g₀ hg₀ ho⟩
      | some κ =>
        rw [ho, Option.some_or, Option.some.injEq] at howner
        exact h.led b g₀ ν hg₀ (ho.trans (congrArg some howner.symm))
    · rw [if_neg hb] at howner
      exact h.led b g₀ ν hg₀ howner.symm
  · intro b g hg hnone n hn hin
    obtain ⟨g₀, hg₀, howner⟩ := hold b g hg
    rw [hnone] at howner
    by_cases hb : b ∈ w.openBlocks
    · rw [if_pos hb] at howner
      cases ho : g₀.owner <;> simp [ho] at howner
    · rw [if_neg hb] at howner
      rw [List.length_append, List.length_singleton] at hn
      rcases Nat.lt_or_eq_of_le (Nat.le_of_lt_succ hn) with hlt | rfl
      · exact h.quiet b g₀ hg₀ howner.symm n hlt hin
      · exact absurd ((ht.inside_iff hd).1 hin) hb

/-- An element that is no message: blocks may come up, but none comes to be owned. -/
theorem Owns.pass (h : Owns d es w) (ht : Tracks es w) (hd : d.elements = es ++ e :: rest)
    (hs : ∀ ν, ¬d.Speaks es.length ν)
    (hw : ∀ (b : Nat) (g : Fragment), w'.fragments[b]? = some g →
      (∃ g₀, w.fragments[b]? = some g₀ ∧ g.owner = g₀.owner) ∨
        w.fragments.length ≤ b ∧ g.owner = none) : Owns d (es ++ [e]) w' := by
  constructor
  · intro b g ν hg hν
    rcases hw b g hg with ⟨g₀, hg₀, howner⟩ | ⟨-, hnone⟩
    · exact h.led b g₀ ν hg₀ (howner.symm.trans hν)
    · rw [hnone] at hν
      cases hν
  · intro b g hg hnone n hn hin
    rw [List.length_append, List.length_singleton] at hn
    rcases hw b g hg with ⟨g₀, hg₀, howner⟩ | ⟨hb, -⟩
    · rcases Nat.lt_or_eq_of_le (Nat.le_of_lt_succ hn) with hlt | rfl
      · exact h.quiet b g₀ hg₀ (howner.symm.trans hnone) n hlt hin
      · exact hs
    · exact absurd hin (ht.not_inside hd hb hn)

theorem fragments_own_note (w : Walk) (name : String) (μ : MethodId) :
    ((w.note name).own μ).fragments = (w.own μ).fragments := by
  obtain ⟨ps, hps⟩ := w.note_eq name
  rw [hps]
  rfl

/-- The blocks that there are stay as they are. -/
theorem Owns.keep (h : Owns d es w) (ht : Tracks es w) (hd : d.elements = es ++ e :: rest)
    (hs : ∀ ν, ¬d.Speaks es.length ν) (hw : w'.fragments = w.fragments) :
    Owns d (es ++ [e]) w' :=
  h.pass ht hd hs fun _ g hg => .inl ⟨g, hw ▸ hg, rfl⟩

/-- A block is opened. -/
theorem Owns.opened (h : Owns d es w) (ht : Tracks es w) (hd : d.elements = es ++ e :: rest)
    (hs : ∀ ν, ¬d.Speaks es.length ν) {f : Fragment} (hf : f.owner = none)
    (hw : w' = w.openBlock f) : Owns d (es ++ [e]) w' := by
  refine h.pass ht hd hs fun b g hg => ?_
  rw [hw, openBlock] at hg
  rcases Nat.lt_or_ge b w.fragments.length with hb | hb
  · rw [List.getElem?_append_left hb] at hg
    exact .inl ⟨g, hg, rfl⟩
  · obtain rfl := List.mem_singleton.1
      (List.mem_of_getElem? (List.getElem?_append_right hb ▸ hg))
    exact .inr ⟨hb, hf⟩

theorem Owns.step (h : Owns d es w) (hsound : d.Sound) (hf : Follows es w)
    (hd : d.elements = es ++ e :: rest) (hw : w.step es.length e = .ok w') :
    Owns d (es ++ [e]) w' := by
  have hat : d.elements[es.length]? = some e := by simp [hd]
  have hsilent : e.parent? = none → e.answered? = none → ∀ ν, ¬d.Speaks es.length ν := by
    rintro hp ha ν (⟨e', he', hp'⟩ | ⟨r, c, hr, -, -, -⟩)
    · obtain rfl := Option.some.inj (hat.symm.trans he')
      rw [hp] at hp'
      cases hp'
    · obtain rfl := Option.some.inj (hat.symm.trans hr)
      cases ha
  have ht := hf.tracks
  cases e with
  | participant line name =>
    obtain rfl := Except.ok.inj hw
    obtain ⟨ps, hps⟩ := w.note_eq name
    exact h.keep ht hd (hsilent rfl rfl) (by rw [hps])
  | entry x =>
    obtain rfl := Except.ok.inj hw
    exact h.keep ht hd (hsilent rfl rfl) rfl
  | call c =>
    obtain rfl := Except.ok.inj hw
    refine h.own ht hd (.spoken _ hat rfl) (μ := c.parent) ?_
    exact (fragments_own_note _ _ _).trans (fragments_own_note _ _ _)
  | reply r =>
    obtain rfl := Except.ok.inj hw
    have hanswered := hsound.answered es.length r hat
    rw [hd, List.take_left] at hanswered
    obtain ⟨c, hc, hid, hparent⟩ := hf.hears.callerOf hanswered
    have hmem : c ∈ d.calls := by
      rw [Diagram.mem_calls, hd]
      exact List.mem_append_left _ (Diagram.mem_calls.1 hc)
    exact h.own ht hd (.reply r c hat hmem hid hparent) rfl
  | raise t =>
    obtain rfl := Except.ok.inj hw
    exact h.own ht hd (.spoken _ hat rfl) (fragments_own_note _ _ _)
  | result r =>
    obtain rfl := Except.ok.inj hw
    exact h.own ht hd (.spoken _ hat rfl) rfl
  | loop line label => exact h.opened ht hd (hsilent rfl rfl) rfl (Except.ok.inj hw).symm
  | alt line guard => exact h.opened ht hd (hsilent rfl rfl) rfl (Except.ok.inj hw).symm
  | orElse line guard =>
    obtain ⟨id, rfl⟩ := branch_ok hw
    refine h.pass ht hd (hsilent rfl rfl) fun b g hg => .inl ?_
    rw [List.getElem?_modify, Option.map_eq_map, Option.map_eq_some_iff] at hg
    obtain ⟨g₀, hg₀, rfl⟩ := hg
    refine ⟨g₀, hg₀, ?_⟩
    split <;> rfl
  | close line =>
    obtain ⟨bs, rfl⟩ := closeBlock_ok hw
    exact h.keep ht hd (hsilent rfl rfl) rfl

/-- **The owners of the blocks** that a walk over a diagram has found. -/
theorem owns_of_run (hd : d.Sound) (hw : Walk.run {} 0 d.elements = .ok w) :
    Owns d d.elements w :=
  run_inv hd (fun es w => Owns d es w) (owns_start d)
    (fun _ _ _ _ _ hcut hf h hstep => h.step hd hf hcut hstep) hw

/-! ## The owners of a layout -/

theorem ownerOf_eq {b : Nat} {g : Fragment} {μ : MethodId} (hg : w.fragments[b]? = some g)
    (hμ : g.owner = some μ) : w.layout.ownerOf b = μ := by
  have hput := getElem?_foldl_concat (x := g) (y := μ)
    (g := fun (owners : List MethodId) (f : Fragment) =>
      f.owner.getD (f.parents.getLast?.bind fun e => (owners[e.block]?).join))
    (fun owners => by rw [hμ, Option.getD_some]) [] hg
  rw [List.length_nil, Nat.zero_add] at hput
  rw [Layout.ownerOf, layout, owners, hput]
  rfl

/-- A block around a message belongs to the method that leads it. -/
theorem Owns.ownerOf_iff (h : Owns d d.elements w) (hsound : d.Sound) (ht : Tracks d.elements w)
    {n : Nat} {μ : MethodId} (hs : d.Speaks n μ) {f : Frame} (hf : f ∈ framesAt d.elements n) :
    w.layout.ownerOf f.block = μ ↔ d.Leads f.block μ := by
  obtain ⟨pre, suf, hcut⟩ := List.append_of_mem hf
  obtain ⟨g, hg, -⟩ := ht.fragment_at hcut
  have hn : n < d.elements.length := by
    cases hs with
    | spoken e he => exact (List.getElem?_eq_some_iff.1 he).1
    | reply r c he => exact (List.getElem?_eq_some_iff.1 he).1
  cases ho : g.owner with
  | none => exact absurd hs (h.quiet _ g hg ho n hn ⟨f, hf, rfl⟩ μ)
  | some ν =>
    have hleads := h.led _ g ν hg ho
    rw [ownerOf_eq hg ho]
    exact ⟨fun hνμ => hνμ ▸ hleads, fun hμ => hsound.leads_unique hleads hμ⟩

end Walk

/-! ## The scope of a call -/

/-- The scope of a call of a diagram: the blocks around it that its method leads, each with the
branch the call stands in. They are opened behind the call that runs the method. -/
structure Scoped (d : Diagram) (m : Model) (i : Interaction) : Prop where
  call : ∃ c, d.elements[i.position]? = some (.call c) ∧ c.id = i.index ∧ c.parent = i.method
  mem_scope : ∀ f, f ∈ i.scope ↔ f ∈ framesAt d.elements i.position ∧ d.Leads f.block i.method
  behind : ∀ f ∈ i.scope, ∀ k j, i.method = some k → m.interaction? k = some j →
    ∀ n ≤ j.position, ¬d.Inside f.block n

/-- **The scope of every call** holds the blocks around it whose first message is one of its own
method. -/
theorem scoped_of_parse {source : String} {d : Diagram} {o : Options} {m : Model}
    (hp : Diagram.parse source = .ok d) (hm : d.buildModel o = .ok m) {i : Interaction}
    (hi : i ∈ m.interactions) : Scoped d m i := by
  have hd := Diagram.sound_of_parse hp
  have hdisciplined := Diagram.disciplined_of_parse hp
  rw [Diagram.buildModel, bind_ok] at hm
  obtain ⟨w, hw, hm⟩ := hm
  have hf := Walk.follows_of_run hd hw
  have howns := Walk.owns_of_run hd hw
  have hmakes := Layout.makes hm
  have hcall : ∀ j ∈ m.interactions, ∃ c, d.elements[j.position]? = some (.call c) ∧
      c.id = j.index ∧ c.parent = j.method := by
    intro j hj
    obtain ⟨x, hx, hjx⟩ := forall₂_right hmakes.interactions j hj
    exact ⟨x.1, hjx.position ▸ (hf.hears.call.placed x hx).1, hjx.index.symm, hjx.method.symm⟩
  have hscope : ∀ f, f ∈ i.scope ↔
      f ∈ framesAt d.elements i.position ∧ d.Leads f.block i.method := by
    intro f
    obtain ⟨x, hx, hix⟩ := forall₂_right hmakes.interactions i hi
    have hplaced := hf.hears.call.placed x hx
    have hs : d.Speaks i.position i.method :=
      .spoken (.call x.1) (hix.position ▸ hplaced.1) (congrArg some hix.method.symm)
    rw [hix.scope, hf.tracks.scopeIn_eq hplaced.2, Walk.scopeAt, List.mem_filter, beq_iff_eq,
      ← hix.position, ← hix.method]
    exact and_congr_right fun hin => howns.ownerOf_iff hd hf.tracks hs hin
  refine ⟨hcall i hi, hscope, fun f hfs k j hk hj n hn => ?_⟩
  obtain ⟨hin, hleads⟩ := (hscope f).1 hfs
  obtain ⟨c, hc, hid, -⟩ := hcall j (itemAt?_mem hj)
  have hindex : j.index = k := itemAt?_numbered (hmakes.numbered hd hf)
    (hmakes.activation hd hf hi hk).1 hj
  exact hdisciplined.not_inside_of_leads hd (hk ▸ hleads) hc (hid.trans hindex) hn

/-- A diagram with an alternative of the method under test, and one of a service inside it. -/
def ownChoice : String :=
  "[-> A : run(x)\nalt [x.ready]\nA -> BService : check(x)\nalt [x.fresh]\n" ++
    "BService -> CClient : get(x)\nelse\nBService -> DClient : find(x)\nend\nend\n"

theorem model_ownChoice : ∃ d ∈ (Diagram.parse ownChoice).toOption,
    ∃ m ∈ d.buildModel.toOption, ∃ i ∈ m.interactions, i.method = some 0 ∧
      framesAt d.elements i.position = [⟨.alt, 0, 0⟩, ⟨.alt, 1, 1⟩] ∧
      i.scope = [⟨.alt, 1, 1⟩] := by
  unfold Diagram.parse Line.scan ownChoice
  rw [String.toList_append, String.toList_ofList, String.toList_ofList]
  decide +kernel

theorem scoped_ownChoice : ∃ d m, Diagram.parse ownChoice = .ok d ∧ d.buildModel = .ok m ∧
    ∃ i ∈ m.interactions, i.method = some 0 ∧ i.scope = [⟨.alt, 1, 1⟩] ∧ Scoped d m i := by
  obtain ⟨d, hd, m, hm, i, hi, hmethod, -, hscope⟩ := model_ownChoice
  have hd : Diagram.parse ownChoice = .ok d := toOption_eq_some.1 hd
  have hm : d.buildModel = .ok m := toOption_eq_some.1 hm
  exact ⟨d, m, hd, hm, i, hi, hmethod, hscope, scoped_of_parse hd hm hi⟩

/-- A diagram in which a service raises in the first branch of an alternative, and the method under
test goes on in the other one. -/
def strangeChoice : String :=
  "[-> A : run(x)\nA -> B : check(x)\nalt [x.bad]\nB -> B : <<throws>> Bad\n" ++
    "else\nA -> C : send(x)\nend\n"

theorem model_strangeChoice : ∃ d ∈ (Diagram.parse strangeChoice).toOption,
    ∃ m ∈ d.buildModel.toOption, ∃ i ∈ m.interactions, i.method = none ∧
      ∃ f ∈ framesAt d.elements i.position, f.kind = .alt ∧ f ∉ i.scope := by
  unfold Diagram.parse Line.scan strangeChoice
  rw [String.toList_append, String.toList_ofList, String.toList_ofList]
  decide +kernel

/-- A call may be without the alternative around it, although that was opened behind the call that
runs its method. -/
theorem not_guarded_strangeChoice : ¬∀ (source : String) (o : Options) (d : Diagram) (m : Model),
    Diagram.parse source = .ok d → d.buildModel o = .ok m →
      ∀ i ∈ m.interactions, ∀ f ∈ framesAt d.elements i.position, f.kind = .alt →
        (∀ k j, i.method = some k → m.interaction? k = some j →
          ∀ n ≤ j.position, ¬d.Inside f.block n) → f ∈ i.scope := by
  intro h
  obtain ⟨d, hd, m, hm, i, hi, hmethod, f, hf, hk, hne⟩ := model_strangeChoice
  refine hne (h _ _ d m (toOption_eq_some.1 hd) (toOption_eq_some.1 hm) i hi f hf hk ?_)
  intro k j hk
  rw [hmethod] at hk
  cases hk

end Model

end Lifeline
