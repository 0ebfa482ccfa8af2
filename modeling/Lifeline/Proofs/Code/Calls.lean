import Lifeline.Proofs.Code.Reach
import Lifeline.Proofs.Stages

/-!
# The calls of a body

`callsIn around body`: the calls of a body as they stand in it, each with the loops and branches
around it, outermost first.

* **`calls_of_fold`**: the fold puts the calls of events in their order, each inside the blocks of
  its event, where an event in a later branch of a block does not come first (`InTurn`).
* **`calls_of_synthesis`**: the body of a generated method has the calls that its tests check.
-/

namespace Lifeline.Code

open Model
open Tests (CallCheck Context Group GroupOf MethodOf MethodTests RefsOf ScopeRef Suite)

/-! ## Reading a body -/

/-- A statement that calls stand in: a loop, or a branch of a conditional. -/
inductive Surrounding where
  | loop (block : Int)
  | branch (block index : Int)
deriving Repr, DecidableEq

/-- The statement that a block of a scope becomes. -/
def surroundingOf (r : ScopeRef) : Surrounding :=
  match r.kind with
  | .loop => .loop r.block
  | .alt => .branch r.block r.branch

mutual

/-- The calls of a statement that stands in `around`. -/
def Statement.callsWithin (around : List Surrounding) :
    Statement → List (List Surrounding × CallStatement)
  | .call s => [(around, s)]
  | .return _ | .raise _ => []
  | .conditional block branches _ => callsInBranches around block branches
  | .iteration head body => callsIn (around ++ [.loop head.block]) body

/-- The calls of some statements, in pre-order. -/
def callsIn (around : List Surrounding) :
    List Statement → List (List Surrounding × CallStatement)
  | [] => []
  | s :: rest => s.callsWithin around ++ callsIn around rest

def callsInBranches (around : List Surrounding) (block : Int) :
    List (BranchHead × List Statement) → List (List Surrounding × CallStatement)
  | [] => []
  | (head, body) :: rest =>
    callsIn (around ++ [.branch block head.index]) body ++ callsInBranches around block rest

end

variable {around : List Surrounding}

theorem callsIn_append (xs ys : List Statement) :
    callsIn around (xs ++ ys) = callsIn around xs ++ callsIn around ys := by
  induction xs with
  | nil => rfl
  | cons s xs ih => rw [List.cons_append, callsIn, ih, callsIn, List.append_assoc]

theorem callsIn_flatten (parts : List (List Statement)) :
    callsIn around parts.flatten = parts.flatMap (callsIn around) := by
  induction parts with
  | nil => rfl
  | cons part parts ih => rw [List.flatten_cons, callsIn_append, ih, List.flatMap_cons]

theorem callsInBranches_eq (block : Int) (branches : List (BranchHead × List Statement)) :
    callsInBranches around block branches =
      branches.flatMap fun b => callsIn (around ++ [.branch block b.1.index]) b.2 := by
  induction branches with
  | nil => rfl
  | cons b branches ih => rw [callsInBranches, ih, List.flatMap_cons]

/-! ## Calls of events -/

/-- The call that an event makes, with the blocks that are still around it. -/
def Placed.call? (around : List Surrounding) (p : Placed) :
    Option (List Surrounding × CallStatement) :=
  match p.event.statement with
  | some (.call s) => some (around ++ p.scope.map surroundingOf, s)
  | _ => none

theorem Placed.call?_eq_some {p : Placed} {y : List Surrounding × CallStatement} :
    p.call? around = some y ↔ p.event.statement = some (.call y.2) ∧
      y.1 = around ++ p.scope.map surroundingOf := by
  obtain ⟨places, s⟩ := y
  unfold Placed.call?
  split
  · rename_i s' hs
    simp [hs, and_comm, eq_comm]
  · rename_i hs
    simpa using fun h => (hs s h).elim

/-- The events make calls, returns and raises only. -/
def Plain (ps : List Placed) : Prop := ∀ p ∈ ps, ∀ s, p.event.statement = some s →
  (∃ call, s = .call call) ∨ (∃ result, s = .return result) ∨ ∃ raise, s = .raise raise

/-- Whatever is in a later branch of a block comes later, as far as calls go. -/
def InTurn (ps : List Placed) : Prop := ps.Pairwise fun p q =>
  ∀ s s', p.event.statement = some (.call s) → q.event.statement = some (.call s') →
    ∀ r ∈ p.scope, ∀ r' ∈ q.scope, r.block = r'.block → r.branch ≤ r'.branch

theorem Plain.subset {ps qs : List Placed} (h : Plain ps) (hs : qs ⊆ ps) : Plain qs :=
  fun p hp => h p (hs hp)

theorem Plain.enter {ps : List Placed} (h : Plain ps) : Plain (ps.map (·.enter)) := by
  intro p hp
  obtain ⟨q, hq, rfl⟩ := List.mem_map.1 hp
  exact h q hq

theorem InTurn.enter {ps : List Placed} (h : InTurn ps) : InTurn (ps.map (·.enter)) :=
  List.pairwise_map.2 (h.imp fun hpq s s' hs hs' r hr r' hr' =>
    hpq s s' hs hs' r (List.mem_of_mem_drop hr) r' (List.mem_of_mem_drop hr'))

/-- Further in, an event has one of its blocks among those around. -/
theorem Placed.call?_enter {p : Placed} {r : ScopeRef} {rest : List ScopeRef}
    (hp : p.scope = r :: rest) :
    p.enter.call? (around ++ [surroundingOf r]) = p.call? around := by
  simp [Placed.call?, Placed.enter, hp]

/-! ## The fold -/

theorem branchesOf_ascending (ps : List Placed) : (branchesOf ps).Pairwise (· < ·) := by
  have hle : (branchesOf ps).Pairwise (· ≤ ·) := sortBy_key_pairwise id (by simp) _
  have hn : (branchesOf ps).Nodup := nodup_sortBy.2 (nodup_eraseDups _)
  exact (hle.and hn).imp fun {a b} h => Int.lt_iff_le_and_ne.2 h

/-- The calls of the events inside an alternative, branch by branch. -/
theorem filterMap_branches {block : Int} {ps : List Placed}
    (h : ∀ p ∈ ps, ∃ r rest, p.scope = r :: rest ∧ r.block = block ∧ r.kind = .alt)
    (ht : InTurn ps) :
    ((branchesOf ps).flatMap fun index =>
      ((inBranch ps index).map (·.enter)).filterMap
        (Placed.call? (around ++ [.branch block index]))) =
      ps.filterMap (Placed.call? around) := by
  rw [← flatMap_filterMap_sorted (fun p => (p.scope.head?.map (·.branch)).getD 0)
    (fun index p => p.scope.head?.any (·.branch == index)) (branchesOf_ascending ps)
    (fun p hp => ?_) (fun p hp index => ?_)
    (List.Pairwise.imp_of_mem (fun {p q} hp hq hpq => ?_) ht)]
  · refine congrArg List.flatten (List.map_congr_left fun index _ => ?_)
    rw [List.filterMap_map]
    refine List.filterMap_congr fun p hp => ?_
    obtain ⟨hp, hbranch⟩ := List.mem_filter.1 hp
    obtain ⟨r, rest, hs, rfl, hk⟩ := h p hp
    obtain rfl : r.branch = index := by simpa [hs] using hbranch
    rw [← Placed.call?_enter hs, surroundingOf, hk]
    rfl
  · obtain ⟨r, rest, hs, -⟩ := h p hp
    simpa [hs] using branch_mem hp hs
  · obtain ⟨r, rest, hs, -⟩ := h p hp
    simp [hs]
  · obtain ⟨r, rest, hs, hb, -⟩ := h p hp
    obtain ⟨r', rest', hs', hb', -⟩ := h q hq
    intro hp hq
    obtain ⟨y, hy⟩ := Option.ne_none_iff_exists'.1 hp
    obtain ⟨z, hz⟩ := Option.ne_none_iff_exists'.1 hq
    have hle := hpq y.2 z.2 (Placed.call?_eq_some.1 hy).1 (Placed.call?_eq_some.1 hz).1 r
      (by simp [hs]) r' (by simp [hs']) (hb.trans hb'.symm)
    simpa [hs, hs'] using hle

/-- What holds of one level of the fold where it holds of the level below. -/
theorem calls_of_run {k : Knowledge} {fuel : Nat} {run : Run} {part : List Statement}
    (ih : ∀ {around : List Surrounding} {ps : List Placed} {body : List Statement},
      Yields (foldPlaced k fuel ps) body → (∀ p ∈ ps, p.scope.length < fuel) → Uniform ps →
        Plain ps → InTurn ps → callsIn around body = ps.filterMap (Placed.call? around))
    (h : RunOf k fuel run part) (hf : run.Fits) (hd : ∀ p ∈ run.items, p.scope.length < fuel + 1)
    (hu : Uniform run.items) (hp : Plain run.items) (ht : InTurn run.items) :
    callsIn around part = run.items.filterMap (Placed.call? around) := by
  cases h with
  | single p =>
    have hscope : p.scope = [] := hf
    cases hs : p.event.statement with
    | none => simp [callsIn, Run.items, Placed.call?, hs]
    | some s =>
      rcases hp p (.head _) s hs with ⟨call, rfl⟩ | ⟨result, rfl⟩ | ⟨raise, rfl⟩ <;>
        simp [callsIn, Statement.callsWithin, Run.items, Placed.call?, hs, hscope]
  | @loop r first rest body head hk hm hb hh =>
    have hhead := hf.head hu
    rw [callsIn, callsIn, List.append_nil, Statement.callsWithin, loopHead_block hh, Run.items,
      ih hb (lt_of_enter hd hf.scope_ne_nil) hu.enter hp.enter ht.enter, List.filterMap_map]
    refine List.filterMap_congr fun p hp => ?_
    obtain ⟨r', rest', hs, hb, hk'⟩ := hhead p hp
    rw [Function.comp_apply, ← Placed.call?_enter hs, surroundingOf, hk', hk, hb]
  | @alt r first rest branches sequence hk hm hb =>
    have hhead := hf.head hu
    rw [hk] at hhead
    rw [callsIn, callsIn, List.append_nil, Statement.callsWithin, callsInBranches_eq, Run.items,
      ← filterMap_branches hhead ht]
    refine (forall₂_flatMap hb fun index b h => ?_).symm
    obtain ⟨hi, -, hbody⟩ := h
    have hsub : (inBranch (first :: rest) index).Sublist (first :: rest) := List.filter_sublist
    have hdeep := lt_of_enter (fun p hp => hd p (hsub.subset hp)) fun p hp =>
      hf.scope_ne_nil p (hsub.subset hp)
    rw [hi, ih hbody hdeep (hu.subset hsub.subset).enter (hp.subset hsub.subset).enter
      (InTurn.enter (ht.sublist hsub))]

/-- **The fold keeps the calls**: each event's call once, in the order of the events, and inside the
blocks of its event. -/
theorem calls_of_fold {k : Knowledge} : ∀ {fuel : Nat} {around : List Surrounding}
    {ps : List Placed} {body : List Statement}, Yields (foldPlaced k fuel ps) body →
      (∀ p ∈ ps, p.scope.length < fuel) → Uniform ps → Plain ps → InTurn ps →
        callsIn around body = ps.filterMap (Placed.call? around)
  | 0, _, ps, body, h, hd, _, _, _ => by
    obtain rfl := yields_pure h
    cases ps with
    | nil => rfl
    | cons p ps => exact absurd (hd p (.head _)) (Nat.not_lt_zero _)
  | fuel + 1, around, ps, body, h, hd, hu, hp, ht => by
    obtain ⟨parts, rfl, hparts⟩ := folds_succ h
    have hall := (List.forall₂_and_left (p := fun run => run.Fits ∧ run.items.Sublist ps) _ _).2
      ⟨fun run hr => ⟨fits_runs run hr, sublist_of_run hr⟩, hparts⟩
    have hmap := forall₂_flatMap (f := fun run => run.items.filterMap (Placed.call? around)) hall
      fun run part ⟨⟨hf, hs⟩, hr⟩ =>
        (calls_of_run (fun h hd hu hp ht => calls_of_fold h hd hu hp ht) hr hf
          (fun p hp => hd p (hs.subset hp)) (hu.subset hs.subset) (hp.subset hs.subset)
          (ht.sublist hs)).symm
    conv_rhs => rw [← items_runs (Nat.le_refl ps.length)]
    rw [callsIn_flatten, ← hmap, List.filterMap_flatMap]

/-! ## The calls that are checked -/

namespace Told

variable {c : Context} {x : Model.Method} {mt : MethodTests} {tl : Timeline} {events : List Event}
  (h : Told c x mt tl events) (hm : MethodOf c x mt) (hx : x ∈ c.model.methods)
include h

theorem plain_placed : Plain (placed events) := by
  intro p hp s hs
  obtain ⟨e, he, rfl⟩ := mem_placed.1 hp
  have hs : e.statement = some s := (Event.settled_statement events e).symm.trans hs
  rcases h.told e he with ⟨-, hnone⟩ | ⟨a, -, hof⟩
  · cases hnone.symm.trans hs
  · cases hof <;> cases hs <;> simp

/-- The check that an event with a call tells of. -/
theorem call_of_statement (hm : MethodOf c x mt) (hx : x ∈ c.model.methods) {e : Event}
    (he : e ∈ events) {s : CallStatement} (hs : e.statement = some (.call s)) :
    ∃ a ∈ mt.groups.flatMap (·.callChecks), e.key = .call a.call ∧ e.scope = a.scope ∧
      s.meets a = true ∧ ∃ n : Nat, e.At c.model tl x.call n ∧ s.sequence = (n : Int) := by
  rcases h.told e he with ⟨-, hnone⟩ | ⟨a, ha, hof⟩
  · cases hnone.symm.trans hs
  · obtain ⟨n, hat⟩ := hof.at h.sound h.fits hx hm ha
    cases hof with
    | result | raise => cases hs
    | call a binding =>
      cases hs
      have hmoment : 2 * a.sequence = 2 * (n : Int) := hat.moment
      refine ⟨a, List.mem_flatMap.2 (Tests.asserts_call.1 ha), rfl, rfl, ?_, n, hat, ?_⟩
      · simp [CallStatement.meets]
      · dsimp only
        omega

include hm hx

/-- Every call that is checked has an event. -/
theorem statement_of_call {a : CallCheck} (ha : a ∈ mt.groups.flatMap (·.callChecks)) :
    ∃ e ∈ events, e.scope = a.scope ∧ ∃ s, e.statement = some (.call s) ∧ s.meets a = true := by
  obtain ⟨e, he, n, -, hn, -, -, s, hs, hmeets⟩ :=
    h.exists_call hm hx (Tests.asserts_call.2 (List.mem_flatMap.1 ha))
  obtain ⟨a', ha', -, hscope, hmeets', -⟩ := h.call_of_statement hm hx he hs
  have hsequence : a'.sequence = a.sequence :=
    (CallStatement.sequence_of_meets hmeets').symm.trans (CallStatement.sequence_of_meets hmeets)
  obtain rfl : a' = a :=
    List.inj_on_of_nodup_map (hm.nodup_sequences h.sound) ha' ha hsequence
  exact ⟨e, he, hscope, s, hs, hmeets⟩

/-- Calls come in the order of their positions. -/
theorem calls_ordered : (placed events).Pairwise fun p q => ∀ s s',
    p.event.statement = some (.call s) → q.event.statement = some (.call s') →
      ∃ n n' : Nat, n < n' ∧ s.sequence = (n : Int) ∧ s'.sequence = (n' : Int) ∧
        RefsOf (tl.scopeAt n x.call) p.scope ∧ RefsOf (tl.scopeAt n' x.call) q.scope := by
  have hnodup : (placed events).Nodup := List.Nodup.of_map _ (nodup_placed h.nodup)
  refine ((timed_placed events).and hnodup).imp_of_mem ?_
  rintro p q hp hq ⟨hle, hne⟩ s s' hs hs'
  obtain ⟨e, he, rfl⟩ := mem_placed.1 hp
  obtain ⟨e', he', rfl⟩ := mem_placed.1 hq
  obtain ⟨a, -, hkey, -, -, n, hat, hn⟩ :=
    h.call_of_statement hm hx he ((Event.settled_statement events e).symm.trans hs)
  obtain ⟨a', -, hkey', -, -, n', hat', hn'⟩ :=
    h.call_of_statement hm hx he' ((Event.settled_statement events e').symm.trans hs')
  have hm := moment_of_not_result events hat (by rw [hkey]; rfl)
  have hm' := moment_of_not_result events hat' (by rw [hkey']; rfl)
  have hnn : n ≠ n' := by
    rintro rfl
    exact hne (congrArg (Event.placedIn events) (h.eq_of_at he he' hat hat'))
  have hle : (Event.settled events e).moment ≤ (Event.settled events e').moment := hle
  exact ⟨n, n', by omega, hn, hn', hat.refs, hat'.refs⟩

theorem inTurn_placed : InTurn (placed events) := by
  refine (h.calls_ordered hm hx).imp fun {p q} hpq s s' hs hs' r hr r' hr' hb => ?_
  obtain ⟨n, n', hlt, -, -, hrefs, hrefs'⟩ := hpq s s' hs hs'
  obtain ⟨f, hf, hfr⟩ := forall₂_right hrefs r hr
  obtain ⟨f', hf', hfr'⟩ := forall₂_right hrefs' r' hr'
  have hblock : f.block = f'.block := by
    have h1 := hfr.block
    have h2 := hfr'.block
    omega
  have hkind := h.fits.kind_of_block h.sound hf hf' hblock
  cases hk : f.kind with
  | loop => exact Int.le_of_eq ((hfr.loop hk).trans (hfr'.loop (hkind.symm.trans hk)).symm)
  | alt =>
    rw [hfr.branch hk, hfr'.branch (hkind.symm.trans hk)]
    exact Int.ofNat_le.2 (h.fits.turns (Nat.le_of_lt hlt) hf hf' hblock)

omit h hm hx in
/-- The calls of the placed events. -/
theorem mem_calls_placed {y : List Surrounding × CallStatement} :
    y ∈ (placed events).filterMap (Placed.call? []) ↔
      ∃ e ∈ events, e.statement = some (.call y.2) ∧ y.1 = e.scope.map surroundingOf := by
  rw [List.mem_filterMap]
  constructor
  · rintro ⟨p, hp, hy⟩
    obtain ⟨e, he, rfl⟩ := mem_placed.1 hp
    obtain ⟨hs, hy⟩ := Placed.call?_eq_some.1 hy
    exact ⟨e, he, (Event.settled_statement events e).symm.trans hs, hy⟩
  · rintro ⟨e, he, hs, hy⟩
    exact ⟨_, mem_of_placed he,
      Placed.call?_eq_some.2 ⟨(Event.settled_statement events e).trans hs, hy⟩⟩

/-- The body has the calls that are checked, in the order of their positions, each inside the blocks
of its check. -/
theorem calls_body {k : Knowledge} {body : List Statement}
    (hb : Yields (fold k (events.map (Event.settled events))) body) :
    ∃ checks : List CallCheck, checks.Perm (mt.groups.flatMap (·.callChecks)) ∧
      checks.Pairwise (fun a a' => a.sequence < a'.sequence) ∧
      List.Forall₂ (fun a y => y.1 = a.scope.map surroundingOf ∧ y.2.meets a = true) checks
        (callsIn [] body) := by
  have hcalls : callsIn [] body = (placed events).filterMap (Placed.call? []) :=
    calls_of_fold hb Stage.lt_depth h.uniform_placed h.plain_placed (h.inTurn_placed hm hx)
  have hordered : (callsIn [] body).Pairwise fun y z => y.2.sequence < z.2.sequence := by
    rw [hcalls, List.pairwise_filterMap]
    refine (h.calls_ordered hm hx).imp fun {p q} hpq y hy z hz => ?_
    obtain ⟨n, n', hlt, hn, hn', -⟩ :=
      hpq _ _ (Placed.call?_eq_some.1 hy).1 (Placed.call?_eq_some.1 hz).1
    omega
  have hsequence : ∀ (a : CallCheck) (y : List Surrounding × CallStatement),
      y.1 = a.scope.map surroundingOf ∧ y.2.meets a = true → a.sequence = y.2.sequence :=
    fun _ _ ⟨_, hmeets⟩ => (CallStatement.sequence_of_meets hmeets).symm
  have hmade : ∀ a ∈ mt.groups.flatMap (·.callChecks), ∃ y ∈ callsIn [] body,
      y.1 = a.scope.map surroundingOf ∧ y.2.meets a = true := fun a ha => by
    obtain ⟨e, he, hscope, s, hs, hmeets⟩ := h.statement_of_call hm hx ha
    exact ⟨(e.scope.map surroundingOf, s), hcalls ▸ mem_calls_placed.2 ⟨e, he, hs, rfl⟩,
      by rw [hscope], hmeets⟩
  have hchecked : ∀ y ∈ callsIn [] body, ∃ a ∈ mt.groups.flatMap (·.callChecks),
      y.1 = a.scope.map surroundingOf ∧ y.2.meets a = true := fun y hy => by
    obtain ⟨e, he, hs, hy⟩ := mem_calls_placed.1 (hcalls ▸ hy)
    obtain ⟨a, ha, -, hscope, hmeets, -⟩ := h.call_of_statement hm hx he hs
    exact ⟨a, ha, hscope ▸ hy, hmeets⟩
  obtain ⟨checks, hperm, hall⟩ := exists_forall₂_perm hmade hchecked hsequence
    (hm.nodup_sequences h.sound)
    (List.pairwise_map.2 (hordered.imp fun hlt => Int.ne_of_lt hlt))
  refine ⟨checks, hperm, forall₂_pairwise hall.flip hordered fun y z a a' hlt ha ha' => ?_, hall⟩
  rw [hsequence a y ha, hsequence a' z ha']
  exact hlt

end Told

/-- **The calls of a generated method** are those that its tests check, each once and in the order
of their positions. Each stands inside the loops and branches of its scope, outermost first, and in
no others. -/
theorem calls_of_synthesis {source : String} {d : Diagram} {o : Options} {m : Model}
    {s : LeafSuffixes} {p : Profile} {t : Tests.Tree} {code : Tree}
    (hd : Diagram.parse source = .ok d) (hm : d.buildModel o = .ok m)
    (ht : m.synthesizeTests (m.classify s) p = .ok t) (hc : t.synthesizeCode p = .ok code)
    {suite : Suite} (hs : suite ∈ t.suites) {mt : MethodTests}
    (hfirst : suite.methods.find? (·.name == mt.name) = some mt) :
    ∃ body, code.body? suite.subject mt.name = some body ∧
      ∃ checks : List CallCheck, checks.Perm (mt.groups.flatMap (·.callChecks)) ∧
        checks.Pairwise (fun a a' => a.sequence < a'.sequence) ∧
        List.Forall₂ (fun a y => y.1 = a.scope.map surroundingOf ∧ y.2.meets a = true) checks
          (callsIn [] body) := by
  obtain ⟨body, hbody, c, x, tl, events, k, -, htold, hmx, hx, hy⟩ :=
    exists_first_body hd hm ht hc hs hfirst
  exact ⟨body, hbody, htold.calls_body hmx hx hy⟩

/-- A diagram with an alternative inside a loop. -/
def nestedCalls : String :=
  "[-> A : run(xs)\nloop for x in xs\nalt [x]\nA -> BRepository : load(x)\n" ++
    "BRepository --> A : v\nelse\nA -> CClient : push(x)\nend\nend\nA -> CClient : done(xs)\n"

theorem of?_nestedCalls : ∃ x ∈ Stages.of? nestedCalls, ∃ suite ∈ x.tests.suites,
    (suite.methods.map (·.name)).Nodup ∧ ∃ mt ∈ suite.methods,
      ∃ body ∈ x.code.body? suite.subject mt.name, (callsIn [] body).map (·.1) =
        [[.loop 0, .branch 1 0], [.loop 0, .branch 1 1], []] := by
  unfold nestedCalls
  rw [Stages.of?_toList, String.toList_append, String.toList_ofList, String.toList_ofList]
  decide +kernel

theorem calls_nestedCalls : ∃ d m t code,
    Diagram.parse nestedCalls = .ok d ∧ d.buildModel = .ok m ∧
      m.synthesizeTests m.classify = .ok t ∧ t.synthesizeCode = .ok code ∧
        ∃ suite ∈ t.suites, ∃ mt, suite.methods.find? (·.name == mt.name) = some mt ∧
          ∃ body, code.body? suite.subject mt.name = some body ∧
            (callsIn [] body).map (·.1) = [[.loop 0, .branch 1 0], [.loop 0, .branch 1 1], []] ∧
            ∃ checks : List CallCheck, checks.Perm (mt.groups.flatMap (·.callChecks)) ∧
              checks.Pairwise (fun a a' => a.sequence < a'.sequence) ∧
              List.Forall₂ (fun a y => y.1 = a.scope.map surroundingOf ∧ y.2.meets a = true) checks
                (callsIn [] body) := by
  obtain ⟨x, hx, suite, hs, hn, mt, hmt, body, hbody, hcalls⟩ := of?_nestedCalls
  obtain ⟨d, hd, hm, ht, hc⟩ := Stages.of?_eq_some hx
  have hfirst := find?_key hn hmt
  obtain ⟨body', hbody', hchecks⟩ := calls_of_synthesis hd hm ht hc hs hfirst
  obtain rfl : body = body' := Option.some.inj (hbody.symm.trans hbody')
  exact ⟨d, x.model, x.tests, x.code, hd, hm, ht, hc, suite, hs, mt, hfirst, body, hbody, hcalls,
    hchecks⟩

end Lifeline.Code
