import Lifeline.Proofs.Model.Arguments
import Lifeline.Proofs.Model.BlockOwners

/-!
# The tree of scopes

Everything that has a scope (`Model.Stands`) stands inside the blocks of its method that are open
around it in the diagram. Each frame of a scope names a block of the same method, whose own scope is
what comes before the frame, and the position lies between the start of the branch named and the
start of the next one (`Model.Encloses`). So the blocks of a method are one tree
(`Model.ScopeTree`), and the depth of an alternative is its depth there.

A walk finds the blocks by their starts (`Walk.starts_of_run`), where nothing around them ends
(`Element.LeavesOpen`); so what the machine of blocks says of a position also holds behind it.
-/

set_option autoImplicit false

namespace Lifeline

open Model (Blocks)

/-- An element that leaves the blocks around it open, in the branches they are in. -/
def Element.LeavesOpen (e : Element) : Prop := ∀ b : Blocks, b.around <:+ (b.step e).around

namespace Model

/-! ## Parts of a model with a scope -/

/-- A part of a model stands at the position `n`, in the method `μ`, with the scope `s`. -/
inductive Stands (m : Model) : Nat → MethodId → Scope → Prop
  | interaction (i : Interaction) : i ∈ m.interactions → Stands m i.position i.method i.scope
  | throw (t : Throw) : t ∈ m.throws → Stands m t.position t.method t.scope
  | result (x : Method) (r : MethodResult) : x ∈ m.methods → r ∈ x.results →
      Stands m r.position x.call r.scope
  | loop (l : Loop) : l ∈ m.loops → Stands m l.position l.method l.scope
  | alternative (b : Alternative) : b ∈ m.alternatives → Stands m b.position b.method b.scope

/-- The block with the number `id` belongs to the method `μ`. -/
def Belongs (m : Model) (id : Nat) (μ : MethodId) : Prop :=
  (∃ l ∈ m.loops, l.id = id ∧ l.method = μ) ∨ ∃ b ∈ m.alternatives, b.id = id ∧ b.method = μ

/-- A frame around the position `n` names a block of the method `μ` whose own scope is `outer`. The
position is behind the start of the block and, in an alternative, between the start of the branch
named and the start of the next one. -/
inductive Encloses (m : Model) (n : Nat) (μ : MethodId) (outer : Scope) : Frame → Prop
  | loop (l : Loop) : l ∈ m.loops → l.method = μ → l.scope = outer → l.position < n →
      Encloses m n μ outer ⟨.loop, l.id, 0⟩
  | branch (b : Alternative) (br : Branch) : b ∈ m.alternatives → b.method = μ →
      b.scope = outer → b.position ≤ br.position → b.branches[br.index]? = some br →
      br.position < n → (∀ next, b.branches[br.index + 1]? = some next → n < next.position) →
      Encloses m n μ outer ⟨.alt, b.id, br.index⟩

/-- The scopes of the model of a diagram are one tree for each method. -/
structure ScopeTree (d : Diagram) (m : Model) : Prop where
  distinct : (m.loops.map (·.id) ++ m.alternatives.map (·.id)).Nodup
  /-- A scope holds the blocks around its position that belong to its method. -/
  around : ∀ n μ s, m.Stands n μ s → ∀ f, f ∈ s ↔ f ∈ framesAt d.elements n ∧ m.Belongs f.block μ
  /-- What comes before a frame is the scope of the block that it names. -/
  encloses : ∀ n μ s, m.Stands n μ s → ∀ outer f inner, s = outer ++ f :: inner →
    m.Encloses n μ outer f
  depth : ∀ b ∈ m.alternatives, b.depth = 1 + b.scope.countP (·.kind == .alt)

/-! ## Positions that end no block -/

theorem framesAt_prefix_succ {es : List Element} {n : Nat} {e : Element} (he : es[n]? = some e)
    (hopen : e.LeavesOpen) : framesAt es n <+: framesAt es (n + 1) := by
  obtain ⟨hn, rfl⟩ := List.getElem?_eq_some_iff.1 he
  rw [framesAt, framesAt, List.take_succ_eq_append_getElem hn, Blocks.after_append,
    List.reverse_prefix]
  exact hopen _

theorem leavesOpen_of_happens {es : List Element} {w : Walk} {n : Nat} {h : Happening}
    (hh : Walk.happens es w n = some h) (hne : h ≠ .branch) :
    ∃ e, es[n]? = some e ∧ e.LeavesOpen := by
  unfold Walk.happens at hh
  split at hh
  · rename_i c he
    exact ⟨_, he, fun b => List.suffix_refl _⟩
  · rename_i t he
    exact ⟨_, he, fun b => List.suffix_refl _⟩
  · exact absurd (Option.some.inj hh).symm hne
  · exact absurd (Option.some.inj hh).symm hne
  · rename_i r he
    exact ⟨_, he, fun b => List.suffix_refl _⟩
  · rename_i r he
    exact ⟨_, he, fun b => List.suffix_refl _⟩
  · cases hh

/-- The branches of an alternative are numbered by their places. -/
theorem Fragment.getElem?_branches (g : Fragment) (i : Nat) :
    (g.guards.zipIdx.map fun x => (⟨x.2, x.1.1, x.1.2⟩ : Branch))[i]? =
      (g.guards[i]?).map fun x => (⟨i, x.1, x.2⟩ : Branch) := by
  rw [List.getElem?_map, List.getElem?_zipIdx, Option.map_map, Nat.zero_add]
  rfl

namespace Walk

/-! ## The starts of blocks -/

variable {es : List Element} {w w' : Walk} {e : Element}

/-- Where a message comes to own blocks, they stay where they are. -/
theorem mem_own {μ : MethodId} {g : Fragment} (hg : g ∈ (w.own μ).fragments) :
    ∃ g₀ ∈ w.fragments, g.position = g₀.position := by
  obtain ⟨⟨g₀, id⟩, hg₀, rfl⟩ := List.mem_map.1 hg
  refine ⟨g₀, List.fst_mem_of_mem_zipIdx hg₀, ?_⟩
  dsimp only
  split <;> rfl

/-- A step keeps the blocks where they are. A block that it adds starts with its element. -/
theorem start_of_step {n : Nat} (hw : w.step n e = .ok w') {g : Fragment}
    (hg : g ∈ w'.fragments) :
    (∃ g₀ ∈ w.fragments, g.position = g₀.position) ∨ g.position = n ∧ e.LeavesOpen := by
  have hopened : ∀ f : Fragment, w' = w.openBlock f → f.position = n → e.LeavesOpen →
      (∃ g₀ ∈ w.fragments, g.position = g₀.position) ∨ g.position = n ∧ e.LeavesOpen := by
    rintro f rfl hpos hopen
    rcases List.mem_append.1 hg with hg | hg
    · exact .inl ⟨g, hg, rfl⟩
    · rw [List.mem_singleton.1 hg]
      exact .inr ⟨hpos, hopen⟩
  cases e with
  | participant line name =>
    obtain rfl := Except.ok.inj hw
    obtain ⟨ps, hps⟩ := w.note_eq name
    exact .inl ⟨g, by rwa [hps] at hg, rfl⟩
  | entry x =>
    obtain rfl := Except.ok.inj hw
    exact .inl ⟨g, hg, rfl⟩
  | call c =>
    obtain rfl := Except.ok.inj hw
    have hfragments := (fragments_own_note (w.note c.source) c.target c.parent).trans
      (fragments_own_note w c.source c.parent)
    exact .inl (mem_own (hfragments ▸ hg))
  | reply r =>
    obtain rfl := Except.ok.inj hw
    exact .inl (mem_own hg)
  | raise t =>
    obtain rfl := Except.ok.inj hw
    exact .inl (mem_own (fragments_own_note w t.participant t.parent ▸ hg))
  | result r =>
    obtain rfl := Except.ok.inj hw
    exact .inl (mem_own hg)
  | loop line label =>
    exact hopened _ (Except.ok.inj hw).symm rfl fun b => List.suffix_cons _ _
  | alt line guard =>
    exact hopened _ (Except.ok.inj hw).symm rfl fun b => List.suffix_cons _ _
  | orElse line guard =>
    obtain ⟨id, rfl⟩ := branch_ok hw
    obtain ⟨b, hb⟩ := List.getElem?_of_mem hg
    rw [List.getElem?_modify, Option.map_eq_map, Option.map_eq_some_iff] at hb
    obtain ⟨g₀, hg₀, rfl⟩ := hb
    refine .inl ⟨g₀, List.mem_of_getElem? hg₀, ?_⟩
    split <;> rfl
  | close line =>
    obtain ⟨bs, rfl⟩ := closeBlock_ok hw
    exact .inl ⟨g, hg, rfl⟩

/-- **The start of a block** ends no block around it. -/
theorem starts_of_run {d : Diagram} (hd : d.Sound) (hw : Walk.run {} 0 d.elements = .ok w) :
    ∀ g ∈ w.fragments, ∃ e, d.elements[g.position]? = some e ∧ e.LeavesOpen := by
  refine run_inv hd
    (fun es w => ∀ g ∈ w.fragments, ∃ e, es[g.position]? = some e ∧ e.LeavesOpen) (by simp) ?_ hw
  intro es e rest w w' hcut _ h hstep g hg
  rcases start_of_step hstep hg with ⟨g₀, hg₀, hpos⟩ | ⟨hpos, hopen⟩
  · obtain ⟨x, hx, hopen⟩ := h g₀ hg₀
    refine ⟨x, ?_, hopen⟩
    rw [hpos, List.getElem?_append_left (List.getElem?_eq_some_iff.1 hx).1]
    exact hx
  · exact ⟨e, by rw [hpos, List.getElem?_concat_length], hopen⟩

/-! ## The blocks of a method around a position -/

/-- A position that ends no block is in front of the next branch of each alternative around it. -/
theorem Tracks.lt_next (h : Tracks es w) {n : Nat} (he : es[n]? = some e) (hopen : e.LeavesOpen)
    {f : Frame} (hf : f ∈ framesAt es n) {g : Fragment} (hg : w.fragments[f.block]? = some g)
    {x : Option String × Nat} (hx : g.guards[f.branch + 1]? = some x) : n < x.2 := by
  obtain ⟨-, -, hnext⟩ := (h.found_at hg).starts (f.branch + 1) x hx
  by_contra hle
  -- the block would be in its next branch and in the one before, behind the element
  have hlater : f ∈ framesAt es (n + 1) := (framesAt_prefix_succ he hopen).subset hf
  have hturns := framesAt_turns (f := ⟨.alt, f.block, f.branch + 1⟩) (by omega : x.2 + 1 ≤ n + 1)
    (by simp [hnext]) hlater rfl
  exact Nat.not_succ_le_self _ hturns

section

variable {d : Diagram} {m : Model} (ht : Tracks d.elements w)
  (halternatives : m.alternatives = w.layout.alternatives) (hloops : m.loops = w.layout.loops)
include ht

/-- A loop stands in the scope at its position. -/
theorem Tracks.loop {l : Loop} (hl : l ∈ w.layout.loops) :
    l.scope = scopeAt d.elements w l.position l.method := by
  obtain ⟨id, g, hg, -, rfl⟩ := Layout.mem_loops.1 hl
  exact ht.scopeIn_eq (ht.found_at hg).parents _

/-- The depth of an alternative counts those of its method around it. -/
theorem Tracks.depthOf_eq {b : Nat} {g : Fragment} (hg : w.fragments[b]? = some g) :
    w.layout.depthOf b g =
      1 + (scopeAt d.elements w g.position (w.layout.ownerOf b)).countP (·.kind == .alt) := by
  have hparents : g.parents = (framesAt d.elements g.position).map Frame.enclosure :=
    (ht.found_at hg).parents
  rw [Layout.depthOf, hparents, List.countP_map, scopeAt, List.countP_filter]
  refine congrArg (1 + ·) (List.countP_congr fun f hf => ?_)
  obtain ⟨x, hx, hk⟩ := ht.kind_of_mem hf
  have hx' : w.layout.walk.fragments[f.block]? = some x := hx
  simp [Layout.isAlt, Frame.enclosure, hx', hk]

include halternatives hloops

/-- The owner of a block is the method that it belongs to in the model. -/
theorem Tracks.belongs_iff {n : Nat} {μ : MethodId} {f : Frame} (hf : f ∈ framesAt d.elements n) :
    m.Belongs f.block μ ↔ w.layout.ownerOf f.block = μ := by
  rw [Belongs, halternatives, hloops]
  constructor
  · rintro (⟨l, hl, hid, rfl⟩ | ⟨b, hb, hid, rfl⟩)
    · obtain ⟨id, g, -, -, rfl⟩ := Layout.mem_loops.1 hl
      exact congrArg w.layout.ownerOf hid.symm
    · obtain ⟨id, g, -, -, rfl⟩ := Layout.mem_alternatives.1 hb
      exact congrArg w.layout.ownerOf hid.symm
  · intro howner
    obtain ⟨g, hg, -⟩ := ht.kind_of_mem hf
    cases hk : g.kind with
    | loop => exact .inl ⟨_, Layout.mem_loops.2 ⟨f.block, g, hg, hk, rfl⟩, rfl, howner⟩
    | alt => exact .inr ⟨_, Layout.mem_alternatives.2 ⟨f.block, g, hg, hk, rfl⟩, rfl, howner⟩

/-- The frames of a method around a position that ends no block. -/
theorem Tracks.encloses {n : Nat} {μ : MethodId} {e : Element} (he : d.elements[n]? = some e)
    (hopen : e.LeavesOpen) {outer inner : List Frame} {f : Frame}
    (hs : scopeAt d.elements w n μ = outer ++ f :: inner) : m.Encloses n μ outer f := by
  obtain ⟨before, behind, hcut, houter, hf⟩ := cut_of_filter hs
  have howner : w.layout.ownerOf f.block = μ := by simpa using hf
  obtain ⟨g, hg, hfound, hkind, hbefore, hpos, halt, hloop⟩ := ht.fragment_at hcut
  have hscope : w.layout.scopeIn g.parents (w.layout.ownerOf f.block) = outer := by
    refine (ht.scopeIn_eq (n := g.position) hfound.parents _).trans ?_
    rw [scopeAt, hbefore, howner, houter]
  obtain ⟨kind, block, branch⟩ := f
  cases kind with
  | loop =>
    obtain rfl : branch = 0 := hloop rfl
    have hmem := (Layout.mem_loops (l := w.layout)).2 ⟨block, g, hg, hkind, rfl⟩
    exact .loop _ (hloops ▸ hmem) howner hscope hpos
  | alt =>
    obtain ⟨x, hx, hlt⟩ := halt rfl
    have hmem := (Layout.mem_alternatives (l := w.layout)).2 ⟨block, g, hg, hkind, rfl⟩
    refine .branch _ ⟨branch, x.1, x.2⟩ (halternatives ▸ hmem) howner hscope
      (hfound.starts branch x hx).1 ?_ hlt fun next hnext => ?_
    · exact (g.getElem?_branches branch).trans (by rw [hx]; rfl)
    · obtain ⟨y, hy, rfl⟩ := Option.map_eq_some_iff.1 ((g.getElem?_branches _).symm.trans hnext)
      exact ht.lt_next he hopen (by rw [hcut]; simp) hg hy

end

end Walk

/-! ## The model -/

/-- Where deep nesting is not allowed, no alternative is nested too deeply. -/
theorem Layout.depthOf_le_of_checkNesting {l : Layout} {o : Options} {ws : List Warning}
    (h : l.checkNesting o = .ok ws) (ho : o.allowDeepNesting = false) {b : Nat} {g : Fragment}
    (hg : l.walk.fragments[b]? = some g) (hk : g.kind = .alt) :
    l.depthOf b g ≤ maxBranchDepth := by
  have hall := foldlM_collects (P := fun _ => True)
    (Q := fun (x : Fragment × Nat) _ => x.1.kind = .alt → l.depthOf x.2 x.1 ≤ maxBranchDepth)
    (fun _ _ _ _ hx => hx) h trivial ?_
  · exact hall.2.2 (g, b) (List.mk_mem_zipIdx_iff_getElem?.2 hg) hk
  rintro ⟨f, id⟩ - ws' ws'' hstep -
  dsimp only at hstep
  split at hstep
  · rename_i hshallow
    obtain rfl := Except.ok.inj hstep
    refine ⟨trivial, List.Subset.refl _, fun (hk : f.kind = .alt) => ?_⟩
    simpa [hk] using hshallow
  · rw [ho] at hstep
    cases hstep

section

variable {d : Diagram} (hd : d.Sound) {w : Walk} (hw : Walk.run {} 0 d.elements = .ok w)
  {m : Model} (hm : w.layout.Makes m)
include hd hw hm

/-- Everything that has a scope stands where it ends no block, inside the blocks of its method. -/
theorem Layout.Makes.stands {n : Nat} {μ : MethodId} {s : Scope} (h : m.Stands n μ s) :
    s = Walk.scopeAt d.elements w n μ ∧ ∃ e, d.elements[n]? = some e ∧ e.LeavesOpen := by
  have hf := Walk.follows_of_run hd hw
  have hfits := hm.fits hf
  cases h with
  | interaction i hi =>
    obtain ⟨hcall, hscope⟩ := hfits.interaction i hi
    exact ⟨hscope, leavesOpen_of_happens hcall (by simp)⟩
  | throw t ht =>
    obtain ⟨hthrow, hscope⟩ := hfits.throw t ht
    exact ⟨hscope, leavesOpen_of_happens hthrow (by simp)⟩
  | result x r hx hr =>
    obtain ⟨hvalue, hscope⟩ := hfits.result x hx r hr
    exact ⟨hscope, leavesOpen_of_happens hvalue (by simp)⟩
  | loop l hl =>
    rw [hm.loops] at hl
    refine ⟨hf.tracks.loop hl, ?_⟩
    obtain ⟨id, g, hg, -, rfl⟩ := Layout.mem_loops.1 hl
    exact Walk.starts_of_run hd hw g (List.mem_of_getElem? hg)
  | alternative b hb =>
    refine ⟨(hfits.branch b hb).1, ?_⟩
    rw [hm.alternatives] at hb
    obtain ⟨id, g, hg, -, rfl⟩ := Layout.mem_alternatives.1 hb
    exact Walk.starts_of_run hd hw g (List.mem_of_getElem? hg)

/-- The blocks of each method are one tree. -/
theorem Layout.Makes.scopeTree : ScopeTree d m := by
  have hf := Walk.follows_of_run hd hw
  have hsound := hm.sound hd hf
  refine ⟨?_, fun n μ s h f => ?_, fun n μ s h outer f inner hs => ?_, fun b hb => ?_⟩
  · refine List.nodup_append.2 ⟨hsound.loops, hsound.blocks, fun i hi j hj => ?_⟩
    obtain ⟨l, hl, rfl⟩ := List.mem_map.1 hi
    obtain ⟨b, hb, rfl⟩ := List.mem_map.1 hj
    exact (hsound.kinds b hb l hl).symm
  · rw [(hm.stands hd hw h).1, Walk.scopeAt, List.mem_filter, beq_iff_eq]
    exact and_congr_right fun hmem =>
      (hf.tracks.belongs_iff hm.alternatives hm.loops hmem).symm
  · obtain ⟨hscope, e, he, hopen⟩ := hm.stands hd hw h
    exact hf.tracks.encloses hm.alternatives hm.loops he hopen (hscope.symm.trans hs)
  · have hscope := (hm.stands hd hw (.alternative b hb)).1
    rw [hm.alternatives] at hb
    obtain ⟨id, g, hg, -, rfl⟩ := Layout.mem_alternatives.1 hb
    rw [hscope]
    exact hf.tracks.depthOf_eq hg

end

/-- **The scopes of a model** are one tree for each method: whatever has a scope stands inside the
blocks of its method around it, each of them in the scope that comes before it. An alternative is as
deep as it stands in the tree, at most two deep where deep nesting is not allowed. -/
theorem scopeTree_of_parse {source : String} {d : Diagram} {o : Options} {m : Model}
    (hp : Diagram.parse source = .ok d) (hm : d.buildModel o = .ok m) :
    ScopeTree d m ∧ (o.allowDeepNesting = false → ∀ b ∈ m.alternatives, b.depth ≤ 2) := by
  have hd := Diagram.sound_of_parse hp
  rw [Diagram.buildModel, bind_ok] at hm
  obtain ⟨w, hw, hm⟩ := hm
  have hmakes := Layout.makes hm
  refine ⟨hmakes.scopeTree hd hw, fun ho b hb => ?_⟩
  obtain ⟨-, nesting, hnesting⟩ := Layout.passed_of_model hm
  rw [hmakes.alternatives] at hb
  obtain ⟨id, g, hg, hk, rfl⟩ := Layout.mem_alternatives.1 hb
  exact Layout.depthOf_le_of_checkNesting hnesting ho hg hk

/-- A diagram with nested blocks of the method under test and, between them, one of a service. -/
def nestedBlocks : String :=
  "[-> A : run(xs)\nloop for each x in xs\nalt [x.ready]\nA -> BService : check(x)\n" ++
    "alt [x.fresh]\nBService -> CClient : get(x)\nend\nelse\nalt [x.late]\n" ++
    "A -> DClient : send(x)\nend\nend\nend\n"

theorem model_nestedBlocks : ∃ d ∈ (Diagram.parse nestedBlocks).toOption,
    ∃ m ∈ d.buildModel.toOption, m.interactions.map (fun i => (i.method, i.scope)) =
      [(none, [⟨.loop, 0, 0⟩, ⟨.alt, 1, 0⟩]), (some 0, [⟨.alt, 2, 0⟩]),
        (none, [⟨.loop, 0, 0⟩, ⟨.alt, 1, 1⟩, ⟨.alt, 3, 0⟩])] := by
  unfold Diagram.parse Line.scan nestedBlocks
  rw [String.toList_append, String.toList_append, String.toList_ofList, String.toList_ofList,
    String.toList_ofList]
  decide +kernel

theorem scopeTree_nestedBlocks : ∃ d m, Diagram.parse nestedBlocks = .ok d ∧
    d.buildModel = .ok m ∧ m.interactions.map (fun i => (i.method, i.scope)) =
      [(none, [⟨.loop, 0, 0⟩, ⟨.alt, 1, 0⟩]), (some 0, [⟨.alt, 2, 0⟩]),
        (none, [⟨.loop, 0, 0⟩, ⟨.alt, 1, 1⟩, ⟨.alt, 3, 0⟩])] ∧
      ScopeTree d m ∧ ∀ b ∈ m.alternatives, b.depth ≤ 2 := by
  obtain ⟨d, hd, m, hm, hscopes⟩ := model_nestedBlocks
  have hd : Diagram.parse nestedBlocks = .ok d := toOption_eq_some.1 hd
  have hm : d.buildModel = .ok m := toOption_eq_some.1 hm
  obtain ⟨htree, hdepth⟩ := scopeTree_of_parse hd hm
  exact ⟨d, m, hd, hm, hscopes, htree, hdepth rfl⟩

end Model

end Lifeline
