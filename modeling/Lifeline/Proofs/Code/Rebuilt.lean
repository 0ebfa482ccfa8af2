import Lifeline.Proofs.Code.Closing
import Lifeline.Proofs.Code.Nodes
import Lifeline.Proofs.Model.Building
import Lifeline.Proofs.Stages
import Lifeline.Proofs.Tests.Parameters
import Mathlib.Data.List.Sort

/-!
# Where blocks are rebuilt

A generated method rebuilds the blocks of its diagram (`Rebuilds`) where each alternative becomes
one conditional, inside the loops and branches of its scope, and no loop becomes several ones.

The start of a branch stands where the other events of its block stand. Where nothing happens in any
branch of an alternative there is no such event, and the path of the group names no loops. So a
method rebuilds its blocks if and only if something is checked in each alternative of it that lies
in a loop (`rebuilds_iff_of_synthesis`).
-/

set_option autoImplicit false

namespace Lifeline

/-- The blocks around the calls, the results and the raises of a method that its tests check. An
exception that the method only lets pass is none of its own. -/
def Tests.MethodTests.filledBlocks (mt : Tests.MethodTests) : List Int :=
  mt.groups.flatMap fun g =>
    (g.callChecks.flatMap (·.scope) ++ g.resultChecks.flatMap (·.scope) ++
      (g.raiseChecks.filter (!·.propagated)).flatMap (·.scope)).map (·.block)

namespace Code

open Model
open Tests (Context MethodOf MethodTests RefOf RefsOf ScopeRef Suite)

/-! ## Frames and statements -/

/-- The statement that a block of a scope becomes. -/
def surroundingOfFrame (f : Frame) : Surrounding :=
  match f.kind with
  | .loop => .loop f.block
  | .alt => .branch f.block f.branch

theorem surroundingOf_ref {f : Frame} {r : ScopeRef} (h : RefOf f r) :
    surroundingOf r = surroundingOfFrame f := by
  rw [surroundingOf, surroundingOfFrame, h.kind, h.block]
  cases hk : f.kind with
  | loop => rfl
  | alt => rw [h.branch hk]

theorem surroundings_of_refs {S : Scope} {refs : List ScopeRef} (h : RefsOf S refs) :
    refs.map surroundingOf = S.map surroundingOfFrame :=
  (forall₂_map h fun _ _ hr => (surroundingOf_ref hr).symm).symm

theorem choice_of_ref {f : Frame} {r r' : ScopeRef} (h : RefOf f r) (h' : RefOf f r') :
    r.choice = r'.choice := by
  rw [ScopeRef.choice, ScopeRef.choice, h.block, h'.block]
  cases hk : f.kind with
  | loop => rw [h.loop hk, h'.loop hk]
  | alt => rw [h.branch hk, h'.branch hk]

theorem choices_of_same {S : Scope} {refs refs' : List ScopeRef} (h : RefsOf S refs)
    (h' : RefsOf S refs') : choices refs = choices refs' := by
  induction h generalizing refs' with
  | nil =>
    cases h'
    rfl
  | cons hr _ ih =>
    cases h' with
    | cons hr' h' => exact List.cons_eq_cons.2 ⟨choice_of_ref hr hr', ih h'⟩

/-- References that are cut at a block name frames that are cut there. -/
theorem cut_of_refs {S : Scope} {A C : List ScopeRef} {r : ScopeRef}
    (h : RefsOf S (A ++ r :: C)) : ∃ X f Y, S = X ++ f :: Y ∧ RefsOf X A ∧ RefOf f r := by
  induction A generalizing S with
  | nil =>
    cases h with
    | cons hr _ => exact ⟨[], _, _, rfl, .nil, hr⟩
  | cons a A ih =>
    cases h with
    | cons ha h =>
      obtain ⟨X, f, Y, rfl, hX, hr⟩ := ih h
      exact ⟨_ :: X, f, Y, rfl, .cons ha hX, hr⟩

/-- Outside of loops, the references of the path name all frames. -/
theorem refs_of_path {c : Context} {S : Scope} (h : S.inLoop = false) :
    RefsOf S (S.path.map c.branchRef) := by
  induction S with
  | nil => exact .nil
  | cons f S ih =>
    simp only [Scope.inLoop, List.any_cons, Bool.or_eq_false_iff, beq_eq_false_iff_ne] at h
    cases hk : f.kind with
    | loop => exact absurd hk h.1
    | alt =>
      rw [Scope.path, List.filterMap_cons, hk]
      exact .cons (Context.branchRef_of hk) (ih h.2)

theorem exists_loop_of_inLoop {S : Scope} (h : S.inLoop = true) :
    ∃ f ∈ S, f.kind = .loop := by
  simpa [Scope.inLoop] using h

/-- The same blocks are around a block, wherever it is met. -/
theorem around_block {m : Model} (hs : m.Sound) {tl : Timeline} (ht : tl.Fits m) {i j : Nat}
    {μ ν : MethodId} {X X' Y Y' : Scope} {f f' : Frame} (hX : tl.scopeAt i μ = X ++ f :: Y)
    (hX' : tl.scopeAt j ν = X' ++ f' :: Y') (hb : f.block = f'.block) : X = X' := by
  have hk := ht.kind_of_block hs (f := f) (g := f') (by rw [hX]; simp) (by rw [hX']; simp) hb
  cases hf : f.kind with
  | alt =>
    obtain ⟨b, hb1, hid, -, hscope, -⟩ := ht.alt hX hf
    obtain ⟨b', hb1', hid', -, hscope', -⟩ := ht.alt hX' (hk ▸ hf)
    obtain rfl : b = b' := List.inj_on_of_nodup_map hs.blocks hb1 hb1' (by rw [hid, hid', hb])
    exact hscope.symm.trans hscope'
  | loop =>
    obtain ⟨-, l, hl, hid, -, hscope⟩ := ht.loop hX hf
    obtain ⟨-, l', hl', hid', -, hscope'⟩ := ht.loop hX' (hk ▸ hf)
    obtain rfl : l = l' := List.inj_on_of_nodup_map hs.loops hl hl' (by rw [hid, hid', hb])
    exact hscope.symm.trans hscope'

/-! ## What is checked in a block -/

/-- A block is filled where a check that tells of an event stands in it. -/
theorem mem_filledBlocks {mt : MethodTests} {block : Int} : block ∈ mt.filledBlocks ↔
    ∃ a, mt.Asserts a ∧ ∃ e, EventOf a e ∧ ∃ r ∈ e.scope, r.block = block := by
  simp only [MethodTests.filledBlocks, List.mem_flatMap, List.mem_map, List.mem_append,
    List.mem_filter, Bool.not_eq_true']
  constructor
  · rintro ⟨g, hg, r, (⟨a, ha, hr⟩ | ⟨a, ha, hr⟩) | ⟨a, ⟨ha, hp⟩, hr⟩, hb⟩
    · exact ⟨_, Tests.asserts_call.2 ⟨g, hg, ha⟩, _, .call a none, r, hr, hb⟩
    · exact ⟨_, Tests.asserts_result.2 ⟨g, hg, ha⟩, _, .result a, r, hr, hb⟩
    · exact ⟨_, Tests.asserts_raise.2 ⟨g, hg, ha⟩, _, .raise a hp, r, hr, hb⟩
  · rintro ⟨_, ha, _, hof, r, hr, hb⟩
    cases hof with
    | call a =>
      obtain ⟨g, hg, ha⟩ := Tests.asserts_call.1 ha
      exact ⟨g, hg, r, .inl (.inl ⟨a, ha, hr⟩), hb⟩
    | result a =>
      obtain ⟨g, hg, ha⟩ := Tests.asserts_result.1 ha
      exact ⟨g, hg, r, .inl (.inr ⟨a, ha, hr⟩), hb⟩
    | raise a hp =>
      obtain ⟨g, hg, ha⟩ := Tests.asserts_raise.1 ha
      exact ⟨g, hg, r, .inr ⟨a, ⟨ha, hp⟩, hr⟩, hb⟩

/-- Events of one key stand at one position. -/
theorem Stage.position_eq {m : Model} {tl : Timeline} {μ : MethodId} {events : List Event}
    (h : Stage m tl μ events) {e e' : Event} {n n' : Nat} (hat : e.At m tl μ n)
    (hat' : e'.At m tl μ n') (hk : e.key = e'.key) : n = n' := by
  rcases hat.key with ⟨i, hi, rfl, hr⟩ | ⟨hr, -⟩ | ⟨hr, -⟩ <;>
    rcases hat'.key with ⟨j, hj, rfl, hr'⟩ | ⟨hr', -⟩ | ⟨hr', -⟩ <;>
    rw [hr, hr'] at hk
  case inl.inl =>
    exact congrArg _ (List.inj_on_of_nodup_map h.sound.nodup_indexes hi hj (EventKey.call.inj hk))
  case inr.inl.inr.inl => exact Int.ofNat.inj (EventKey.result.inj hk)
  case inr.inr.inr.inr => exact Int.ofNat.inj (EventKey.raise.inj hk)
  all_goals cases hk

namespace Told

variable {c : Context} {x : Model.Method} {mt : MethodTests} {tl : Timeline} {events : List Event}
  (h : Told c x mt tl events) (hm : MethodOf c x mt) (hx : x ∈ c.model.methods)
include h

/-- The events that a check tells of, and beside them the starts of branches. -/
theorem split (hm : MethodOf c x mt) : ∃ base,
    (∀ e, e ∈ base ↔ e ∈ events ∧ ∃ a, mt.Asserts a ∧ EventOf a e) ∧
    ∀ e ∈ events, e ∈ base ∨ Starts c x base e := by
  obtain ⟨base, hof, rfl⟩ := h.anchored
  refine ⟨base, fun e => ⟨fun he => ⟨?_, hof e he⟩, fun ⟨he, a, _, hae⟩ => ?_⟩,
    fun e he => mem_addAnchors hm he⟩
  · rw [Event.addAnchors_eq]
    exact Event.subset_addAll _ _ he
  · refine (mem_addAnchors hm he).resolve_right ?_
    rintro ⟨P, -, y, -, rfl⟩
    cases hae

include hm hx

/-- A block is filled where an event that a check tells of stands in it. -/
theorem mem_filled {block : Int} : block ∈ mt.filledBlocks ↔
    ∃ e ∈ events, (∃ a, mt.Asserts a ∧ EventOf a e) ∧ ∃ r ∈ e.scope, r.block = block := by
  rw [mem_filledBlocks]
  constructor
  · rintro ⟨a, ha, e, hof, r, hr, rfl⟩
    obtain ⟨e', he', hkey, a', ha', hof'⟩ := h.exists_told ha hof
    obtain ⟨n, hat⟩ := hof.at h.sound h.fits hx hm ha
    obtain ⟨n', hat'⟩ := hof'.at h.sound h.fits hx hm ha'
    obtain rfl := h.position_eq hat' hat hkey
    have hmem : r.choice ∈ choices e'.scope := by
      rw [choices_of_same hat'.refs hat.refs]
      exact List.mem_map_of_mem hr
    obtain ⟨r', hr', hc⟩ := List.mem_map.1 hmem
    exact ⟨e', he', ⟨a', ha', hof'⟩, r', hr', congrArg Prod.fst hc⟩
  · rintro ⟨e, -, ⟨a, ha, hof⟩, hr⟩
    exact ⟨a, ha, e, hof, hr⟩

/-! ## Methods whose blocks are filled -/

section

variable (hfilled : ∀ b ∈ c.model.alternatives, b.method = x.call → b.scope.inLoop = true →
  (b.id : Int) ∈ mt.filledBlocks)
include hfilled

/-- Then each event has all blocks around it, the starts of branches too. -/
theorem refs_of_filled {e : Event} (he : e ∈ events) :
    ∃ n : Nat, e.moment = 2 * n ∧ RefsOf (tl.scopeAt (tl.spot n) x.call) e.scope := by
  obtain ⟨base, hbase, hsplit⟩ := h.split hm
  have hat : ∀ e ∈ base, ∃ n, e.At c.model tl x.call n := fun e he => by
    obtain ⟨-, a, ha, hof⟩ := (hbase e).1 he
    exact hof.at h.sound h.fits hx hm ha
  rcases hsplit e he with he | ⟨P, hP, ⟨r, i⟩, hy, rfl⟩
  · obtain ⟨n, hn⟩ := hat e he
    exact ⟨n, hn.moment, by rw [h.spot_at hn]; exact hn.refs⟩
  · have hr := List.mk_mem_zipIdx_iff_getElem?.1 hy
    rw [List.getElem?_map, Option.map_eq_some_iff] at hr
    obtain ⟨z, hz, rfl⟩ := hr
    obtain ⟨j, X, f, Y, hX, hk, rfl, hXP⟩ := exists_frame h.fits hP hz
    obtain ⟨n, hpos, hhappens, hstart⟩ := start_of_frame h.sound h.fits hX hk
    have href : RefOf f (c.branchRef (f.block, f.branch)) := Context.branchRef_of hk
    refine ⟨n, by simp [Event.anchor, momentOf, hpos], ?_⟩
    rw [Timeline.spot, if_pos hhappens, hstart, Event.anchor]
    refine List.rel_append ?_ (.cons href .nil)
    show RefsOf X (((Event.surroundings base).lookup (c.branchRef (f.block, f.branch)).block).getD _)
    rw [href.block]
    cases hl : (Event.surroundings base).lookup (f.block : Int) with
    | some L => exact refs_of_lookup h.sound h.fits hat hX hk hl
    | none =>
      -- no event stands in the block, so it is not in a loop
      obtain ⟨b, hb, hid, hmethod, rfl, -⟩ := h.fits.alt hX hk
      rw [Option.getD_none, ← List.map_take, ← hXP]
      refine refs_of_path (Bool.eq_false_iff.2 fun hloop => ?_)
      obtain ⟨e', he', htold, r, hr, hblock⟩ :=
        (h.mem_filled hm hx).1 (hfilled b hb hmethod hloop)
      exact Event.not_mem_of_lookup hl e' ((hbase e').2 ⟨he', htold⟩) r hr (by rw [hblock, hid])

/-- The same references, up to what they name, are around a block, wherever it is met. -/
theorem same_around {e e' : Event} (he : e ∈ events) (he' : e' ∈ events) {A C A' C' : List ScopeRef}
    {r r' : ScopeRef} (hs : e.scope = A ++ r :: C) (hs' : e'.scope = A' ++ r' :: C')
    (hb : r.block = r'.block) : ∃ X, RefsOf X A ∧ RefsOf X A' := by
  obtain ⟨n, -, hrefs⟩ := h.refs_of_filled hm hx hfilled he
  obtain ⟨n', -, hrefs'⟩ := h.refs_of_filled hm hx hfilled he'
  obtain ⟨X, f, Y, hX, hXA, hf⟩ := cut_of_refs (hs ▸ hrefs)
  obtain ⟨X', f', Y', hX', hXA', hf'⟩ := cut_of_refs (hs' ▸ hrefs')
  have hblock : f.block = f'.block := by
    have h1 := hf.block
    have h2 := hf'.block
    omega
  obtain rfl := around_block h.sound h.fits hX hX' hblock
  exact ⟨X, hXA, hXA'⟩

/-- An event between two events inside a block is inside it. -/
theorem unbroken_placed (hu : tl.Unbroken) {k : Knowledge} {body : List Statement}
    (hb : Yields (fold k (events.map (Event.settled events))) body) {p q s : Placed} {block : Int}
    (hpqs : [p, q, s].Sublist (placed events)) (hp : p.Inside block) (hs : s.Inside block) :
    q.Inside block := by
  have hqs : [q, s].Sublist (placed events) := (List.sublist_cons_self p _).trans hpqs
  have hle := (timed_placed events).le
    ((List.cons_sublist_cons.2 (List.cons_sublist_cons.2 (List.nil_sublist [s]))).trans hpqs)
  have hle' := (timed_placed events).le hqs
  obtain ⟨e, he, rfl⟩ := mem_placed.1 (hpqs.subset (.head _))
  obtain ⟨y, hy, rfl⟩ := mem_placed.1 (hpqs.subset (.tail _ (.head _)))
  obtain ⟨e', he', rfl⟩ := mem_placed.1 (hpqs.subset (.tail _ (.tail _ (.head _))))
  replace hle : (Event.settled events e).moment ≤ (Event.settled events y).moment := hle
  replace hle' : (Event.settled events y).moment ≤ (Event.settled events e').moment := hle'
  obtain ⟨r, hr, rfl⟩ := hp
  obtain ⟨r', hr', hblock⟩ := hs
  obtain ⟨n, hn, -, hframes⟩ := h.exists_frames_settled he
  obtain ⟨n', -, hn', hframes'⟩ := h.exists_frames_settled he'
  obtain ⟨f, hf, hfr⟩ := hframes r hr
  obtain ⟨f', hf', hfr'⟩ := hframes' r' hr'
  -- a position between them is inside the block
  have hbetween : ∀ {z : Event} {i : Nat}, n ≤ i → i ≤ n' →
      RefsOf (tl.scopeAt (tl.spot i) x.call) z.scope → ∃ r1 ∈ z.scope, r1.block = r.block := by
    intro z i hni hin hrefs
    have hff : f.block = f'.block := by
      have h1 := hfr.block
      have h2 := hfr'.block
      omega
    obtain ⟨g, hg, hgf⟩ := hu (tl.spot_mono hni) (tl.spot_mono hin) hf hf' hff
    obtain ⟨r1, hr1, hgr⟩ := forall₂_left hrefs g hg
    exact ⟨r1, hr1, by rw [hgr.block, hfr.block, hgf]⟩
  rcases h.settled_cases hy with ⟨hstays, -⟩ | ⟨-, hres, z, hz, hpre, hmoved, -⟩
  · obtain ⟨i, hi, hrefs⟩ := h.refs_of_filled hm hx hfilled hy
    rw [hstays] at hle hle'
    exact hbetween (by omega) (by omega) hrefs
  · -- a result that has moved inside the block has its scope inside the block, or would close it
    obtain ⟨i, hi, hrefs⟩ := h.refs_of_filled hm hx hfilled hz
    obtain ⟨r1, hr1, hr1b⟩ := hbetween (by omega) (by omega) hrefs
    by_contra hout
    obtain ⟨A, C, hcut⟩ := List.append_of_mem hr1
    obtain ⟨A', C', hcut'⟩ := List.append_of_mem hr'
    obtain ⟨X, hXA, hXA'⟩ := h.same_around hm hx hfilled hz he' hcut hcut' (hr1b.trans hblock.symm)
    have hshort : choices y.scope <+: choices A := by
      rw [hcut, choices, choices, List.map_append, List.map_cons] at hpre
      refine prefix_of_not_mem hpre fun hmem => hout ?_
      obtain ⟨r2, hr2, hc⟩ := List.mem_map.1 hmem
      exact ⟨r2, hr2, (congrArg Prod.fst hc).trans hr1b⟩
    refine List.pairwise_iff_forall_sublist.1 (h.closing_placed hb).behind hqs
      (h.returns_of_isResult hy hres) (hshort.trans ?_)
    rw [choices_of_same hXA hXA', hcut']
    simp [choices]

/-- An event inside an alternative is in one of its branches, and the statements around the
alternative are those of its scope. -/
theorem alternative_of_inside {b : Alternative} (hb : b ∈ c.model.alternatives) {e : Event}
    (he : e ∈ events) {A C : List ScopeRef} {r : ScopeRef} (hs : e.scope = A ++ r :: C)
    (hblock : r.block = b.id) : r.kind = .alt ∧
      A.map surroundingOf = b.scope.map surroundingOfFrame ∧
        ∃ br ∈ b.branches, r.branch = br.index := by
  obtain ⟨n, -, hrefs⟩ := h.refs_of_filled hm hx hfilled he
  obtain ⟨X, f, Y, hX, hXA, hf⟩ := cut_of_refs (hs ▸ hrefs)
  have hfb : f.block = b.id := by
    have := hf.block
    omega
  cases hk : f.kind with
  | loop =>
    obtain ⟨-, l, hl, hid, -⟩ := h.fits.loop hX hk
    exact absurd (hfb.symm.trans hid.symm) (h.sound.kinds b hb l hl)
  | alt =>
    obtain ⟨b', hb', hid, -, hscope, br, hbr, hindex, -⟩ := h.fits.alt hX hk
    obtain rfl : b' = b := List.inj_on_of_nodup_map h.sound.blocks hb' hb (hid.trans hfb)
    exact ⟨hf.kind.trans hk, by rw [surroundings_of_refs hXA, hscope], br, hbr,
      by rw [hf.branch hk, hindex]⟩

theorem compact_placed (hu : tl.Unbroken) {k : Knowledge} {body : List Statement}
    (hb : Yields (fold k (events.map (Event.settled events))) body) : Compact (placed events) where
  uniform := h.uniform_placed
  around p hp q hq A r C A' r' C' hs hs' hblock := by
    obtain ⟨e, he, rfl⟩ := mem_placed.1 hp
    obtain ⟨e', he', rfl⟩ := mem_placed.1 hq
    obtain ⟨X, hXA, hXA'⟩ := h.same_around hm hx hfilled he he' hs hs' hblock
    rw [surroundings_of_refs hXA, surroundings_of_refs hXA']
  unbroken p q s block hpqs hp hs := h.unbroken_placed hm hx hfilled hu hb hpqs hp hs

end

end Told

/-! ## Blocks of a body -/

/-- What stands in a body for a block, with the statements around it. -/
def nodesAt (body : List Statement) (block : Int) : List (List Surrounding × Node) :=
  (nodesIn [] body).filter (·.2.block == block)

/-- A body rebuilds the blocks of a method: for an alternative there is one conditional, which has
its branches in order and stands in the loops and branches of its scope, and for a loop there are
not several ones. -/
structure Rebuilds (m : Model) (x : Model.Method) (body : List Statement) : Prop where
  alternatives : ∀ b ∈ m.alternatives, b.method = x.call → nodesAt body b.id =
    [(b.scope.map surroundingOfFrame, .conditional b.id (b.branches.map fun br => (br.index : Int)))]
  loops : ∀ l ∈ m.loops, (nodesAt body l.id).length ≤ 1

namespace Told

variable {c : Context} {x : Model.Method} {mt : MethodTests} {tl : Timeline} {events : List Event}
  (h : Told c x mt tl events) (hm : MethodOf c x mt) (hx : x ∈ c.model.methods)
  {k : Knowledge} {body : List Statement}
  (hb : Yields (fold k (events.map (Event.settled events))) body)
include h hm

/-- Every branch of the method has an event inside. -/
theorem exists_inside {b : Alternative} (hbm : b ∈ c.model.alternatives)
    (hmethod : b.method = x.call) {br : Branch} (hbr : br ∈ b.branches) :
    ∃ e ∈ events, ∃ r ∈ e.scope, r.block = (b.id : Int) ∧ r.branch = (br.index : Int) := by
  have hpath : b.scope.path ++ [(b.id, br.index)] ∈ c.paths x :=
    Context.mem_paths.2 (.inr ⟨b, Context.mem_blocksOf.2 ⟨hbm, hmethod⟩, br, hbr, rfl⟩)
  obtain ⟨g, hg, hgx⟩ := forall₂_left hm.groups _ hpath
  have hr : c.branchRef (b.id, br.index) ∈ g.path := by simp [hgx.path]
  obtain ⟨e, he, r, hr, -, hc⟩ := h.starts g hg _ hr
  obtain ⟨hblock, hbranch⟩ := Prod.mk.inj hc
  exact ⟨e, he, r, hr, hblock, hbranch⟩

include hx hb

omit hm hx in
theorem nodesIn_eq : nodesIn [] body =
    nodesOf (depthOf (events.map (Event.settled events)) + 1) [] (placed events) :=
  nodes_of_fold hb h.plain_placed

/-- A conditional has the branches of its alternative, in order. -/
theorem indexes_of_filled (hu : tl.Unbroken)
    (hfilled : ∀ b ∈ c.model.alternatives, b.method = x.call → b.scope.inLoop = true →
      (b.id : Int) ∈ mt.filledBlocks)
    {b : Alternative} (hbm : b ∈ c.model.alternatives) (hmethod : b.method = x.call)
    {a : List Surrounding} {indexes : List Int}
    (hnode : (a, Node.conditional b.id indexes) ∈ nodesIn [] body) :
    indexes = b.branches.map fun br => (br.index : Int) := by
  rw [h.nodesIn_eq hb] at hnode
  obtain ⟨hascending, hindexes⟩ :=
    (h.compact_placed hm hx hfilled hu hb).mem_indexes_iff hnode
  have hrange : (b.branches.map fun br => (br.index : Int)).Pairwise (· < ·) := by
    have hindex : (b.branches.map (·.index)).Pairwise (· < ·) := by
      rw [(h.sound.branches b hbm).2]
      exact List.pairwise_lt_range
    exact List.pairwise_map.2 ((List.pairwise_map.1 hindex).imp fun hlt => Int.ofNat_lt.2 hlt)
  refine hascending.eq_of_mem_iff hrange fun index => ?_
  rw [hindexes, List.mem_map]
  constructor
  · rintro ⟨p, hp, r, hr, hrb, rfl⟩
    obtain ⟨e, he, rfl⟩ := mem_placed.1 hp
    obtain ⟨A, C, hs⟩ := List.append_of_mem hr
    obtain ⟨-, -, br, hbr, hbranch⟩ := h.alternative_of_inside hm hx hfilled hbm he hs hrb
    exact ⟨br, hbr, hbranch.symm⟩
  · rintro ⟨br, hbr, rfl⟩
    obtain ⟨e, he, r, hr, hrb, hbranch⟩ := h.exists_inside hm hbm hmethod hbr
    exact ⟨_, mem_placed.2 ⟨e, he, rfl⟩, r, hr, hrb, hbranch⟩

/-- **Blocks that are filled are rebuilt.** -/
theorem rebuilds_of_filled (hu : tl.Unbroken)
    (hfilled : ∀ b ∈ c.model.alternatives, b.method = x.call → b.scope.inLoop = true →
      (b.id : Int) ∈ mt.filledBlocks) : Rebuilds c.model x body := by
  have hcompact := h.compact_placed hm hx hfilled hu hb
  have hnodup : ((nodesIn [] body).map (·.2.block)).Nodup := by
    rw [h.nodesIn_eq hb]
    exact hcompact.nodup_nodesOf
  refine ⟨fun b hbm hmethod => ?_, fun l hl => ?_⟩
  · obtain ⟨br, hbr⟩ := List.exists_mem_of_ne_nil _ (h.sound.branches b hbm).1
    obtain ⟨e, he, r, hr, hblock, -⟩ := h.exists_inside hm hbm hmethod hbr
    obtain ⟨A, C, hs⟩ := List.append_of_mem hr
    obtain ⟨hk, hA, -⟩ := h.alternative_of_inside hm hx hfilled hbm he hs hblock
    have he' := mem_placed.2 ⟨e, he, rfl⟩
    obtain ⟨node, hnode, hnb, hkind⟩ := exists_mem_nodesOf [] h.uniform_placed he'
      (Stage.lt_depth _ he') hs
    rw [← h.nodesIn_eq hb, List.nil_append, hA] at hnode
    have hkey : node.block = b.id := hnb.trans hblock
    rw [nodesAt, ← hkey]
    refine (filter_key hnodup hnode).trans ?_
    cases node with
    | loop => exact absurd (hkind.trans hk) (by simp [Node.kind])
    | conditional block indexes =>
      obtain rfl : block = b.id := hkey
      rw [h.indexes_of_filled hm hx hb hu hfilled hbm hmethod hnode]
      rfl
  · cases hl : nodesAt body l.id with
    | nil => exact Nat.zero_le 1
    | cons y ys =>
      obtain ⟨hy, hyb⟩ := List.mem_filter.1 (hl ▸ List.mem_cons_self : y ∈ nodesAt body l.id)
      have hone := filter_key hnodup hy
      rw [beq_iff_eq.1 hyb] at hone
      rw [← hl, nodesAt, hone]
      exact Nat.le_refl 1

/-- **Blocks that are rebuilt are filled**: an alternative in which nothing is checked stands outside
of all loops. -/
theorem filled_of_rebuilds (hr : Rebuilds c.model x body) : ∀ b ∈ c.model.alternatives,
    b.method = x.call → b.scope.inLoop = true → (b.id : Int) ∈ mt.filledBlocks := by
  intro b hbm hmethod hloop
  by_contra hempty
  obtain ⟨base, hbase, hsplit⟩ := h.split hm
  have hnone : ∀ e ∈ base, ∀ r ∈ e.scope, r.block ≠ b.id := fun e he r hr hblock =>
    hempty ((h.mem_filled hm hx).2 ⟨e, ((hbase e).1 he).1, ((hbase e).1 he).2, r, hr, hblock⟩)
  have hnode : (b.scope.map surroundingOfFrame, Node.conditional b.id
      (b.branches.map fun br => (br.index : Int))) ∈ nodesAt body b.id := by
    rw [hr.alternatives b hbm hmethod]
    exact .head _
  have hmem := List.mem_of_mem_filter hnode
  rw [h.nodesIn_eq hb] at hmem
  obtain ⟨p, hp, A, r, C, hs, ha, hblock, -⟩ := exists_of_mem_nodesOf h.uniform_placed hmem
  obtain ⟨e, he, rfl⟩ := mem_placed.1 hp
  rcases hsplit e he with he | ⟨P, -, ⟨r1, i⟩, hy, rfl⟩
  · exact hnone e he r (by rw [show e.scope = _ from hs]; simp) hblock.symm
  replace hs : ((Event.surroundings base).lookup r1.block).getD ((P.map c.branchRef).take i) ++
    [r1] = A ++ r :: C := hs
  cases hl : (Event.surroundings base).lookup r1.block with
  | some L =>
    -- then something stands in the block of the start
    rw [hl, Option.getD_some] at hs
    obtain ⟨e', he', j, r2, hr2, hr2b, rfl⟩ := Event.lookup_surroundings hl
    have hr : r ∈ e'.scope.take j ++ [r1] := by simp [hs]
    rcases List.mem_append.1 hr with hr | hr
    · exact hnone e' he' r (List.mem_of_mem_take hr) hblock.symm
    · obtain rfl := List.mem_singleton.1 hr
      exact hnone e' he' r2 (List.mem_of_getElem? hr2) (hr2b.trans hblock.symm)
  | none =>
    -- then no loop is around the start
    rw [hl, Option.getD_none] at hs
    obtain ⟨f, hf, hk⟩ := exists_loop_of_inLoop hloop
    have hfa : surroundingOfFrame f ∈ A.map surroundingOf := by
      rw [List.nil_append] at ha
      rw [← ha]
      exact List.mem_map_of_mem hf
    obtain ⟨r2, hr2, hf2⟩ := List.mem_map.1 hfa
    have hr2 : r2 ∈ (P.map c.branchRef).take i := by
      have hpre : A <+: (P.map c.branchRef).take i := by
        have hcut : A ++ [r] <+: (P.map c.branchRef).take i ++ [r1] := ⟨C, by simp [hs]⟩
        rcases List.prefix_concat_iff.1 hcut with heq | hpre
        · rw [(List.append_inj' heq rfl).1]
        · exact (List.prefix_append A [r]).trans hpre
      exact hpre.subset hr2
    obtain ⟨z, -, rfl⟩ := List.mem_map.1 (List.mem_of_mem_take hr2)
    simp [surroundingOf, surroundingOfFrame, hk, Context.branchRef] at hf2

end Told

/-! ## Generated methods -/

/-- **Where the blocks of a method are rebuilt**: the suite of a subject has the tests of each
method that the subject owns. The method that is generated for them rebuilds the blocks of its own
exactly where something is checked in each alternative that lies in a loop. -/
theorem rebuilds_iff_of_synthesis {source : String} {d : Diagram} {o : Options} {m : Model}
    {s : LeafSuffixes} {p : Profile} {t : Tests.Tree} {code : Tree}
    (hd : Diagram.parse source = .ok d) (hm : d.buildModel o = .ok m)
    (ht : m.synthesizeTests (m.classify s) p = .ok t) (hc : t.synthesizeCode p = .ok code)
    {suite : Suite} (hs : suite ∈ t.suites) :
    List.Forall₂ (fun x mt => suite.methods.find? (·.name == mt.name) = some mt →
        ∃ body, code.body? suite.subject mt.name = some body ∧
          (Rebuilds m x body ↔ ∀ b ∈ m.alternatives, b.method = x.call →
            b.scope.inLoop = true → (b.id : Int) ∈ mt.filledBlocks))
      (m.methods.filter (·.owner == suite.subject)) suite.methods := by
  have hsound : m.Sound := sound_of_build (Diagram.sound_of_parse hd) hm
  have htree := Tests.treeOf_synthesis hsound ht
  obtain ⟨tl, htl, hunbroken⟩ := (linear_of_build (Diagram.sound_of_parse hd) hm).timeline
  have hmethods := htree.methods_of_suite hs
  refine List.forall₂_iff_zip.2 ⟨hmethods.length_eq, fun {x mt} hz hfirst => ?_⟩
  have hx := List.mem_of_mem_filter (List.of_mem_zip hz).1
  have hmx := (List.forall₂_iff_zip.1 hmethods).2 hz
  obtain ⟨body, hbody, k, es, hes, hy⟩ := exists_body htree hc hs hfirst
  obtain ⟨events, htold, rfl⟩ := told_of_eventsOf hsound htl hx hmx hes
  exact ⟨body, hbody, htold.filled_of_rebuilds hmx hx hy,
    htold.rebuilds_of_filled hmx hx hy hunbroken⟩

/-- A diagram with two alternatives in loops. In the first one nothing happens, in the second one
there is a call. -/
def emptyInLoop : String :=
  "[-> A : run(xs)\nloop for each x in xs\nA -> BRepository : load(x)\nBRepository --> A : v\n" ++
    "alt [v.bad]\nelse\nend\nA -> CService : push(v)\nloop for each y in v\nalt [y.ready]\n" ++
    "CService -> DClient : send(y)\nelse\nend\nend\nend\n"

/-- The conditional of the first alternative stands behind its loop, which then begins again. -/
theorem of?_emptyInLoop : ∃ y ∈ Stages.of? emptyInLoop, (Gate.run y.tests y.model).passed = true ∧
    (∃ l ∈ y.model.loops, l.id = 0) ∧ ∃ suite ∈ y.tests.suites,
      ∃ z ∈ (y.model.methods.filter (·.owner == suite.subject)).zip suite.methods,
        suite.methods.find? (·.name == z.2.name) = some z.2 ∧
          ∃ body ∈ y.code.body? suite.subject z.2.name,
            (nodesIn [] body).map (·.2) = [.loop 0, .conditional 1 [0, 1], .loop 0] := by
  unfold emptyInLoop
  rw [Stages.of?_toList, String.toList_append, String.toList_append, String.toList_ofList,
    String.toList_ofList, String.toList_ofList]
  decide +kernel

theorem twice_of_nodes {body : List Statement}
    (h : (nodesIn [] body).map (·.2) = [.loop 0, .conditional 1 [0, 1], .loop 0]) :
    (nodesAt body (0 : Nat)).length = 2 := by
  have hfilter : (nodesAt body (0 : Nat)).map (·.2) =
      ((nodesIn [] body).map (·.2)).filter (·.block == ((0 : Nat) : Int)) := by
    rw [nodesAt, List.filter_map]
    rfl
  rw [← List.length_map (·.2), hfilter, h]
  rfl

/-- Something is checked in the second alternative. -/
theorem filled_emptyInLoop : ∃ y ∈ Stages.of? emptyInLoop, ∃ suite ∈ y.tests.suites,
    ∃ z ∈ (y.model.methods.filter (·.owner == suite.subject)).zip suite.methods,
      suite.methods.find? (·.name == z.2.name) = some z.2 ∧
        (∃ b ∈ y.model.alternatives, b.method = z.1.call ∧ b.scope.inLoop = true) ∧
        ∀ b ∈ y.model.alternatives, b.method = z.1.call → (b.id : Int) ∈ z.2.filledBlocks := by
  unfold emptyInLoop
  rw [Stages.of?_toList, String.toList_append, String.toList_append, String.toList_ofList,
    String.toList_ofList, String.toList_ofList]
  decide +kernel

theorem rebuilds_iff_emptyInLoop : ∃ d m t code, Diagram.parse emptyInLoop = .ok d ∧
    d.buildModel = .ok m ∧ m.synthesizeTests m.classify = .ok t ∧ t.synthesizeCode = .ok code ∧
      (∃ suite ∈ t.suites, ∃ x ∈ m.methods, ∃ mt ∈ suite.methods,
        suite.methods.find? (·.name == mt.name) = some mt ∧
          ∃ b ∈ m.alternatives, b.method = x.call ∧ b.scope.inLoop = true ∧
            (b.id : Int) ∉ mt.filledBlocks) ∧
      ∃ suite ∈ t.suites, ∃ x ∈ m.methods, ∃ mt ∈ suite.methods,
        (∃ b ∈ m.alternatives, b.method = x.call ∧ b.scope.inLoop = true) ∧
          ∃ body, code.body? suite.subject mt.name = some body ∧ Rebuilds m x body := by
  obtain ⟨y, hy, -, ⟨l, hl, hl0⟩, suite, hs, z, hz, hfirst, body, hbody, hnodes⟩ := of?_emptyInLoop
  obtain ⟨y', hy', suite', hs', z', hz', hfirst', hloop, hfilled⟩ := filled_emptyInLoop
  obtain rfl := Option.some.inj (hy.symm.trans hy')
  obtain ⟨d, hd, hm, ht, hc⟩ := Stages.of?_eq_some hy
  refine ⟨d, y.model, y.tests, y.code, hd, hm, ht, hc, ⟨suite, hs, z.1,
    List.mem_of_mem_filter (List.of_mem_zip hz).1, z.2, (List.of_mem_zip hz).2, hfirst, ?_⟩,
    suite', hs', z'.1, List.mem_of_mem_filter (List.of_mem_zip hz').1, z'.2,
    (List.of_mem_zip hz').2, hloop, ?_⟩
  · obtain ⟨body', hbody', hiff⟩ :=
      (List.forall₂_iff_zip.1 (rebuilds_iff_of_synthesis hd hm ht hc hs)).2 hz hfirst
    obtain rfl := Option.some.inj (hbody.symm.trans hbody')
    by_contra hnone
    have hle := (hiff.2 fun b hb hmethod hin => by_contra fun hn =>
      hnone ⟨b, hb, hmethod, hin, hn⟩).loops l hl
    rw [hl0, twice_of_nodes hnodes] at hle
    omega
  · obtain ⟨body', hbody', hiff⟩ :=
      (List.forall₂_iff_zip.1 (rebuilds_iff_of_synthesis hd hm ht hc hs')).2 hz' hfirst'
    exact ⟨body', hbody', hiff.2 fun b hb hmethod _ => hfilled b hb hmethod⟩

/-- A method does not always rebuild its blocks. -/
theorem not_rebuilds_emptyInLoop : ¬∀ (source : String) (d : Diagram) (o : Options) (m : Model)
    (s : LeafSuffixes) (t : Tests.Tree) (code : Tree), Diagram.parse source = .ok d →
      d.buildModel o = .ok m → m.synthesizeTests (m.classify s) = .ok t →
        (Gate.run t m).passed = true → t.synthesizeCode = .ok code → ∀ suite ∈ t.suites,
          ∀ z ∈ (m.methods.filter (·.owner == suite.subject)).zip suite.methods,
            suite.methods.find? (·.name == z.2.name) = some z.2 →
              ∀ body, code.body? suite.subject z.2.name = some body → Rebuilds m z.1 body := by
  intro hall
  obtain ⟨y, hy, hgate, ⟨l, hl, hl0⟩, suite, hs, z, hz, hfirst, body, hbody, hnodes⟩ :=
    of?_emptyInLoop
  obtain ⟨d, hd, hm, ht, hc⟩ := Stages.of?_eq_some hy
  have hle := (hall _ d _ _ _ _ _ hd hm ht hgate hc suite hs z hz hfirst body hbody).loops l hl
  rw [hl0, twice_of_nodes hnodes] at hle
  omega

end Code

end Lifeline
