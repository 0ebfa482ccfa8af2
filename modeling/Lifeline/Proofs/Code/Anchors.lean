import Lifeline.Proofs.Code.Moments
import Lifeline.Proofs.Tests.Paths

/-!
# The starts of branches

Every branch on the path of a group gets an event at its start. Its scope is the one that the events
inside its block have, or else the path up to the branch; either way the scope of an event that the
start lies in is around the branch (`opens_anchor`).
-/

namespace Lifeline.Code

open Model
open Tests (Context ScopeRef RefOf RefsOf)

namespace Event

/-- The start of a branch on a path. -/
def anchor (known : List (Int × List ScopeRef)) (path : List ScopeRef) (x : ScopeRef × Nat) :
    Event where
  key := .anchor x.1.block x.1.branch
  moment := momentOf x.1.position
  scope := (known.lookup x.1.block).getD (path.take x.2) ++ [x.1]
  statement := none

/-- The starts of the branches on some paths. -/
def anchors (known : List (Int × List ScopeRef)) (paths : List (List ScopeRef)) : List Event :=
  paths.flatMap fun path => path.zipIdx.map (anchor known path)

theorem addAnchors_eq (events : List Event) (paths : List (List ScopeRef)) :
    addAnchors events paths = addAll events (anchors (surroundings events) paths) := by
  unfold addAnchors addAll anchors
  simp only [List.foldl_flatMap, List.foldl_map]
  rfl

/-- The starts of branches are no results, so results stand outward with them too. -/
theorem outward_addAnchors {events : List Event} (paths : List (List ScopeRef))
    (ho : Outward events) : Outward (addAnchors events paths) := by
  obtain ⟨new, hnew, hsub⟩ := addAll_eq (anchors (surroundings events) paths) events
  have hresult : ∀ e ∈ new, e.key.isResult = false := fun e he => by
    obtain ⟨path, -, he⟩ := List.mem_flatMap.1 (hsub.subset he)
    obtain ⟨y, -, rfl⟩ := List.mem_map.1 he
    rfl
  rw [addAnchors_eq, hnew]
  refine List.pairwise_append.2 ⟨ho, List.pairwise_of_forall_mem_list fun e he e' _ hr => ?_,
    fun e _ e' he' _ hr => ?_⟩
  · rw [hresult e he] at hr
    cases hr
  · rw [hresult e' he'] at hr
    cases hr

theorem lookup_surroundings {events : List Event} {block : Int} {L : List ScopeRef}
    (h : (surroundings events).lookup block = some L) :
    ∃ e ∈ events, ∃ (i : Nat) (r : ScopeRef), e.scope[i]? = some r ∧ r.block = block ∧
      L = e.scope.take i := by
  obtain ⟨l₁, l₂, hl, -⟩ := List.lookup_eq_some_iff.1 h
  have hm : (block, L) ∈ surroundings events := by
    rw [hl]
    exact List.mem_append_right _ (.head _)
  obtain ⟨e, he, hm⟩ := List.mem_flatMap.1 hm
  obtain ⟨⟨r, i⟩, hr, hri⟩ := List.mem_map.1 hm
  obtain ⟨rfl, rfl⟩ := Prod.mk.inj hri
  exact ⟨e, he, i, r, List.mk_mem_zipIdx_iff_getElem?.1 hr, rfl, rfl⟩

theorem not_mem_of_lookup {events : List Event} {block : Int}
    (h : (surroundings events).lookup block = none) :
    ∀ e ∈ events, ∀ r ∈ e.scope, r.block ≠ block := by
  intro e he r hr hb
  obtain ⟨i, hi⟩ := List.getElem?_of_mem hr
  have hm : (r.block, e.scope.take i) ∈ surroundings events :=
    List.mem_flatMap.2 ⟨e, he, List.mem_map.2
      ⟨(r, i), List.mk_mem_zipIdx_iff_getElem?.2 hi, rfl⟩⟩
  simpa [hb] using List.lookup_eq_none_iff.1 h _ hm

end Event

/-! ## Branches of a path -/

section

variable {c : Context} (hs : c.model.Sound) {tl : Timeline} (ht : tl.Fits c.model)

include hs in
/-- A reference to a branch starts where the branch does. -/
theorem position_branchRef {b : Alternative} (hb : b ∈ c.model.alternatives) {br : Branch}
    (hbr : br ∈ b.branches) : (c.branchRef (b.id, br.index)).position = br.position := by
  obtain ⟨i, hi⟩ := List.getElem?_of_mem hbr
  have hidx : (b.branches.map (·.index))[i]? = some br.index := by
    rw [List.getElem?_map, hi, Option.map_some]
  rw [(hs.branches b hb).2, List.getElem?_range (List.getElem?_eq_some_iff.1 hi).1,
    Option.some.injEq] at hidx
  have hfind : c.model.alternatives.find? (·.id == b.id) = some b := find?_key hs.blocks hb
  simp [Context.branchRef, hfind, ← hidx, hi]

include hs ht in
/-- The same blocks are around an alternative, wherever it is met. -/
theorem around_alt {i j : Nat} {μ ν : MethodId} {X X' Y Y' : Scope} {f f' : Frame}
    (hX : tl.scopeAt i μ = X ++ f :: Y) (hX' : tl.scopeAt j ν = X' ++ f' :: Y')
    (hk : f.kind = .alt) (hb : f.block = f'.block) : f'.kind = .alt ∧ X' = X := by
  have hf : f ∈ tl.scopeAt i μ := by simp [hX]
  have hf' : f' ∈ tl.scopeAt j ν := by simp [hX']
  have hk' : f'.kind = .alt := (ht.kind_of_block hs hf hf' hb).symm.trans hk
  obtain ⟨b, hb1, hid, -, hscope, -⟩ := ht.alt hX hk
  obtain ⟨b', hb1', hid', -, hscope', -⟩ := ht.alt hX' hk'
  obtain rfl : b = b' := List.inj_on_of_nodup_map hs.blocks hb1 hb1' (by rw [hid, hid', hb])
  exact ⟨hk', hscope'.symm.trans hscope⟩

include hs ht in
/-- A scope whose choices are those of a path lies around what the path lies around. -/
theorem prefix_of_path {k j : Nat} {μ : MethodId} {X Y : Scope} (hX : tl.scopeAt j μ = X ++ Y)
    (hp : (tl.scopeAt k μ).map Frame.choice <+:
      (Scope.path X).map fun x => ((x.1 : Int), (x.2 : Int))) : tl.scopeAt k μ <+: X := by
  rcases (tl.scopeAt k μ).eq_nil_or_concat' with hS | ⟨S, g, hS⟩
  · rw [hS]
    exact List.nil_prefix
  -- the last frame of the scope is a branch of the path, so the same blocks are around it
  have hmem : g.choice ∈ (Scope.path X).map fun x => ((x.1 : Int), (x.2 : Int)) :=
    hp.subset (List.mem_map_of_mem (by rw [hS]; simp))
  obtain ⟨y, hy, hyg⟩ := List.mem_map.1 hmem
  obtain ⟨f, hf, hk, rfl⟩ := Scope.mem_path.1 hy
  obtain ⟨X1, X2, rfl⟩ := List.append_of_mem hf
  rw [List.append_assoc, List.cons_append] at hX
  simp only [Frame.choice, Prod.mk.injEq] at hyg
  obtain ⟨hk', rfl⟩ := around_alt hs ht hX hS hk (by omega)
  obtain rfl : f = g := by
    obtain ⟨hblock, hbranch⟩ : f.block = g.block ∧ f.branch = g.branch := by omega
    cases f
    cases g
    simp_all
  rw [hS]
  exact ⟨X2, by simp⟩

include ht in
/-- Where a path is cut, some scope is. -/
theorem exists_frame {x : Model.Method} {P : Path} (hP : P ∈ c.paths x) {i : Nat}
    {z : Nat × Nat} (hz : P[i]? = some z) : ∃ j X f Y, tl.scopeAt j x.call = X ++ f :: Y ∧
      f.kind = .alt ∧ (f.block, f.branch) = z ∧ Scope.path X = P.take i := by
  obtain ⟨j, hj⟩ : ∃ j, (tl.scopeAt j x.call).path = P := by
    rcases Context.mem_paths.1 hP with ⟨rfl, -⟩ | ⟨b, hb, br, hbr, rfl⟩
    · simp at hz
    · obtain ⟨hb, hm⟩ := Context.mem_blocksOf.1 hb
      refine ⟨br.position + 1, ?_⟩
      rw [← hm, ((ht.branch b hb).2 br hbr).2.2, Scope.path_append]
      rfl
  have hcut : P = P.take i ++ z :: P.drop (i + 1) := by
    obtain ⟨hlt, rfl⟩ := List.getElem?_eq_some_iff.1 hz
    rw [List.getElem_cons_drop, List.take_append_drop]
  obtain ⟨X, f, Y, hX, hk, hf, hXP, -⟩ := Scope.cut_of_path (hj.trans hcut)
  exact ⟨j, X, f, Y, hX, hk, hf, hXP⟩

include hs ht in
/-- A branch starts where its reference says, and its block is around what follows. -/
theorem start_of_frame {j : Nat} {μ : MethodId} {X Y : Scope} {f : Frame}
    (hX : tl.scopeAt j μ = X ++ f :: Y) (hk : f.kind = .alt) :
    ∃ n : Nat, (c.branchRef (f.block, f.branch)).position = n ∧ tl.happens n = some .branch ∧
      tl.scopeAt (n + 1) μ = X ++ [f] := by
  obtain ⟨b, hb, hid, hm, hscope, br, hbr, hindex, -⟩ := ht.alt hX hk
  obtain ⟨hhappens, -, hstart⟩ := (ht.branch b hb).2 br hbr
  have hf : f = ⟨.alt, b.id, br.index⟩ := by rw [hid, hindex, ← hk]
  refine ⟨br.position, ?_, hhappens, ?_⟩
  · rw [← hid, ← hindex]
    exact_mod_cast position_branchRef hs hb hbr
  · rw [← hm, hstart, hscope, hf]

end

/-! ## Anchors -/

section

variable {c : Context} (hs : c.model.Sound) {tl : Timeline} (ht : tl.Fits c.model)
  {x : Model.Method} {told : List Event} (htold : ∀ e ∈ told, ∃ n, e.At c.model tl x.call n)
  {j : Nat} {X Y : Scope} {f : Frame} (hX : tl.scopeAt j x.call = X ++ f :: Y) (hk : f.kind = .alt)
include hs ht hX hk

include htold in
/-- A scope that is known for a block is the one around it. -/
theorem refs_of_lookup {L : List ScopeRef}
    (hl : (Event.surroundings told).lookup (f.block : Int) = some L) : RefsOf X L := by
  obtain ⟨e, he, k, r, hr, hrb, rfl⟩ := Event.lookup_surroundings hl
  obtain ⟨n, hat⟩ := htold e he
  obtain ⟨g, hg, hgr⟩ := forall₂_getElem? hat.refs hr
  obtain ⟨hlt, rfl⟩ := List.getElem?_eq_some_iff.1 hg
  have hS : tl.scopeAt n x.call = (tl.scopeAt n x.call).take k ++
      (tl.scopeAt n x.call)[k] :: (tl.scopeAt n x.call).drop (k + 1) := by
    rw [List.getElem_cons_drop, List.take_append_drop]
  have hb : f.block = (tl.scopeAt n x.call)[k].block := by
    have := hgr.block
    omega
  obtain ⟨-, hXS⟩ := around_alt hs ht hX hS hk hb
  rw [← hXS]
  exact List.forall₂_take k hat.refs

omit hk in
/-- The scope of an event that is not known for a block lies around the block where the start of the
block lies in it. -/
theorem prefix_of_not_known (hl : (Event.surroundings told).lookup (f.block : Int) = none)
    {e : Event} (he : e ∈ told) {n : Nat} (hat : e.At c.model tl x.call n)
    (hp : choices e.scope <+:
      ((Scope.path X).map fun x => ((x.1 : Int), (x.2 : Int))) ++ [f.choice]) :
    tl.scopeAt n x.call <+: X := by
  refine prefix_of_path hs ht (Y := f :: Y) hX ?_
  rw [List.prefix_concat_iff, choices_of_refs ht hat.refs] at hp
  refine hp.resolve_left fun heq => ?_
  -- the whole path would be the scope of the event, and its block known
  have hmem : f.choice ∈ choices e.scope := by
    rw [choices_of_refs ht hat.refs, heq]
    simp
  obtain ⟨r, hr, hrf⟩ := List.mem_map.1 hmem
  exact Event.not_mem_of_lookup hl e he r hr (congrArg Prod.fst hrf)

end

/-- **The start of a branch** on a path is one on the timeline. -/
theorem opens_anchor {c : Context} (hs : c.model.Sound) {tl : Timeline} (ht : tl.Fits c.model)
    {x : Model.Method} {P : Path} (hP : P ∈ c.paths x) {told events : List Event}
    (htold : ∀ e ∈ told, ∃ n, e.At c.model tl x.call n)
    (hevents : ∀ e ∈ events, ∀ n, e.At c.model tl x.call n → e ∈ told)
    {y : ScopeRef × Nat} (hy : y ∈ (P.map c.branchRef).zipIdx) :
    ∃ n, (Event.anchor (Event.surroundings told) (P.map c.branchRef) y).Opens c.model tl x.call
      events n := by
  obtain ⟨r, i⟩ := y
  have hr := List.mk_mem_zipIdx_iff_getElem?.1 hy
  rw [List.getElem?_map, Option.map_eq_some_iff] at hr
  obtain ⟨z, hz, rfl⟩ := hr
  obtain ⟨j, X, f, Y, hX, hk, rfl, hXP⟩ := exists_frame ht hP hz
  obtain ⟨n, hpos, hhappens, hstart⟩ := start_of_frame hs ht hX hk
  have href : RefOf f (c.branchRef (f.block, f.branch)) := Context.branchRef_of hk
  have hopened : f ∈ tl.scopeAt (n + 1) x.call := by simp [hstart]
  set anchor := Event.anchor (Event.surroundings told) (P.map c.branchRef)
    (c.branchRef (f.block, f.branch), i) with hanchor
  have hopens : ∀ S, anchor.scope = S →
      (∀ e ∈ events, ∀ k, e.At c.model tl x.call k → choices e.scope <+: choices S →
        tl.scopeAt k x.call <+: tl.scopeAt (n + 1) x.call) →
      (∀ r ∈ S, ∃ g ∈ tl.scopeAt (n + 1) x.call, RefOf g r) →
        ∃ n, anchor.Opens c.model tl x.call events n := fun S hS hinside hframes =>
    ⟨n, by simp [hanchor, Event.anchor, momentOf, hpos], hhappens, ⟨X, f, hstart, rfl⟩, rfl,
      hS ▸ hinside, hS ▸ hframes⟩
  cases hl : (Event.surroundings told).lookup (f.block : Int) with
  | some L =>
    have hscope : anchor.scope = L ++ [c.branchRef (f.block, f.branch)] := by
      rw [hanchor, Event.anchor, href.block, hl]
      rfl
    have hrefs : RefsOf (tl.scopeAt (n + 1) x.call) (L ++ [c.branchRef (f.block, f.branch)]) := by
      rw [hstart]
      exact List.rel_append (refs_of_lookup hs ht htold hX hk hl) (.cons href .nil)
    refine hopens _ hscope (fun e he k hat hpre => ?_) fun r hr => ?_
    · rw [choices_of_refs ht hat.refs, choices_of_refs ht hrefs] at hpre
      exact (ht.prefix_iff hs).1 hpre
    · exact forall₂_right hrefs r hr
  | none =>
    have hscope : anchor.scope =
        (Scope.path X).map c.branchRef ++ [c.branchRef (f.block, f.branch)] := by
      rw [hanchor, Event.anchor, href.block, hl, Option.getD_none, ← List.map_take, hXP]
    refine hopens _ hscope (fun e he k hat hpre => ?_) fun r hr => ?_
    · have hlies := prefix_of_not_known hs ht hX hl (hevents e he k hat) hat (by
        simpa [choices, Context.branchRef, ScopeRef.choice, Frame.choice, Function.comp_def]
          using hpre)
      rw [hstart]
      exact hlies.trans (List.prefix_append _ _)
    · rcases List.mem_append.1 hr with hr | hr
      · obtain ⟨z, hz, rfl⟩ := List.mem_map.1 hr
        obtain ⟨g, hg, hgk, rfl⟩ := Scope.mem_path.1 hz
        exact ⟨g, hstart ▸ List.mem_append_left _ hg, Context.branchRef_of hgk⟩
      · rw [List.mem_singleton.1 hr]
        exact ⟨f, hopened, href⟩

end Lifeline.Code
