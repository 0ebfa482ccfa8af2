import Lifeline.Proofs.Name.Unique
import Lifeline.Proofs.Tests.Paths

/-!
# What synthesis puts into a tree

One relation for each level of a tree, between the part of the model that it is made for and what
is made: `CallCheckOf`, `ResultCheckOf`, `RaiseCheckOf` and `StubOf` for the parts of a group,
`GroupOf` for a path, `MethodOf` for a method, `SuiteOf` for an orchestrator, `TableOf` for a leaf.
Where synthesis succeeds, the suites are those of the orchestrators that own methods, and the tables
those of the computational leaves that are called (`Context.tree_ok`).
-/

namespace Lifeline.Tests

open Model

/-! ## Parts of a group -/

/-- The check of a call. -/
structure CallCheckOf (c : Context) (i : Interaction) (a : CallCheck) : Prop where
  call : a.call = i.index
  sequence : a.sequence = i.position
  collaborator : a.collaborator = i.target
  mock : c.mockName i.target = .ok a.mock
  method : c.naming.method i.operation = .ok a.method
  arguments : i.arguments.mapM c.argumentRef = .ok a.arguments
  refs : c.scopeRefs i.scope = .ok a.scope

/-- The check of a result. -/
structure ResultCheckOf (c : Context) (r : MethodResult) (a : ResultCheck) : Prop where
  sequence : a.sequence = r.position
  refs : c.scopeRefs r.scope = .ok a.scope

/-- The check of the place where an exception leaves a method. A constant holds a message. -/
structure RaiseCheckOf (c : Context) (s : RaiseSite) (a : RaiseCheck) : Prop where
  exception : a.exception = s.throw.exception
  message : a.message = s.throw.message
  constant : a.constant.isSome = true → s.throw.message.isSome = true
  propagated : a.propagated = s.raisedBy.isSome
  raisedBy : a.raisedBy = s.raisedBy
  sequence : a.sequence = s.sequence
  refs : c.scopeRefs s.scope = .ok a.scope

/-- The blocks of a check are those of its call. -/
theorem CallCheckOf.scope {c : Context} {i : Interaction} {a : CallCheck} (h : CallCheckOf c i a) :
    RefsOf i.scope a.scope := Context.scopeRefs_ok h.refs

theorem ResultCheckOf.scope {c : Context} {r : MethodResult} {a : ResultCheck}
    (h : ResultCheckOf c r a) : RefsOf r.scope a.scope := Context.scopeRefs_ok h.refs

theorem RaiseCheckOf.scope {c : Context} {s : RaiseSite} {a : RaiseCheck}
    (h : RaiseCheckOf c s a) : RefsOf s.scope a.scope := Context.scopeRefs_ok h.refs

/-- The stub of a call. What the call replies, it holds under a name made of the value. -/
structure StubOf (c : Context) (x : Method) (i : Interaction) (s : Stub) : Prop where
  call : s.call = i.index
  mock : c.mockName i.target = .ok s.mock
  method : c.naming.method i.operation = .ok s.method
  held : ∀ b, i.reply = some b → b.value ≠ "" → s.holder.isSome = true
  holder : ∀ name, s.holder = some name → ∃ b, i.reply = some b ∧
    ∃ base taken, c.naming.valueName b.value = .ok base ∧ name = Name.unique base taken
  value : s.value = i.reply.map (·.value)
  valueId : s.valueId = i.reply.map (·.valueId)
  sequence : s.sequence = i.position
  single : s.singleElement = (c.givesCollection x i.index || i.scope.inLoop)
  raises : s.raises = Context.raisedAt (c.raiseSites x) i.index

/-- Whether a call that is reached gets a stub. -/
def answers (c : Context) (x : Method) (i : Interaction) : Bool :=
  i.reply.isSome || (Context.raisedAt (c.raiseSites x) i.index).isSome

namespace Context

variable {c : Context} {x : Method}

theorem callCheck_ok {i : Interaction} {repeated : Bool} {a : CallCheck}
    (h : c.callCheck i repeated = .ok a) : CallCheckOf c i a := by
  simp only [callCheck, bind_ok, pure_ok, lift_ok] at h
  obtain ⟨mock, hm, method, hn, arguments, ha, scope, hs, rfl⟩ := h
  exact ⟨rfl, rfl, rfl, hm, hn, ha, hs⟩

theorem resultCheck_ok {stubs : List Stub} {r : MethodResult} {a : ResultCheck}
    (h : c.resultCheck x stubs r = .ok a) : ResultCheckOf c r a := by
  simp only [resultCheck, bind_ok, pure_ok] at h
  obtain ⟨expected, -, scope, hs, rfl⟩ := h
  exact ⟨rfl, hs⟩

theorem raiseCheck_ok {stubs : List Stub} {s : RaiseSite} {a : RaiseCheck}
    (h : c.raiseCheck x stubs s = .ok a) : RaiseCheckOf c s a := by
  simp only [raiseCheck, bind_ok, pure_ok] at h
  obtain ⟨message, hm, scope, hs, rfl⟩ := h
  refine ⟨rfl, rfl, fun hconstant => ?_, rfl, rfl, rfl, hs⟩
  unfold raiseMessage at hm
  split at hm
  · rename_i hmessage
    rw [hmessage]
    rfl
  · obtain rfl := Except.ok.inj hm
    cases hconstant

theorem stubsFrom_ok {guards : List String} : ∀ {taken : List String} {is : List Interaction}
    {stubs : List Stub}, c.stubsFrom x (c.raiseSites x) guards taken is = .ok stubs →
      List.Forall₂ (StubOf c x) (is.filter (answers c x)) stubs
  | _, [], stubs, h => by
    obtain rfl := Except.ok.inj h
    exact .nil
  | taken, i :: is, stubs, h => by
    unfold stubsFrom at h
    dsimp only at h
    split at h
    · rename_i hn
      rw [List.filter_cons_of_neg (by simpa [answers] using hn)]
      exact stubsFrom_ok h
    · rename_i hn
      have ha : answers c x i = true := by
        rw [answers]
        rw [Bool.and_eq_true, not_and_or] at hn
        simpa [Option.isSome_iff_ne_none] using hn
      rw [List.filter_cons_of_pos ha]
      simp only [bind_ok] at h
      obtain ⟨mock, hmock, name, hname, h⟩ := h
      obtain ⟨s, taken', rest, hs, hr, rfl⟩ : ∃ s taken' rest, StubOf c x i s ∧
          c.stubsFrom x (c.raiseSites x) guards taken' is = .ok rest ∧ s :: rest = stubs := by
        split at h
        · rename_i v hv
          obtain ⟨b, hb, rfl⟩ := Option.map_eq_some_iff.1 hv
          split at h
          · rename_i hempty
            simp only [bind_ok, pure_ok, Except.ok.injEq, exists_eq_left'] at h
            obtain ⟨rest, hr, rfl⟩ := h
            have hblank : b.value = "" := String.isEmpty_iff.1 hempty
            exact ⟨_, _, rest, ⟨rfl, hmock, hname, by simp [hb, hblank], by simp, rfl, rfl, rfl, rfl,
              rfl⟩, hr, rfl⟩
          · simp only [bind_ok, map_ok, pure_ok] at h
            obtain ⟨_, ⟨base, hbase, rfl⟩, rest, hr, rfl⟩ := h
            exact ⟨_, _, rest, ⟨rfl, hmock, hname, fun _ _ _ => rfl, fun n hn => ⟨b, hb, base, _, hbase,
              (Option.some.inj hn).symm⟩, rfl, rfl, rfl, rfl, rfl⟩, hr, rfl⟩
        · rename_i hv
          simp only [bind_ok, pure_ok, Except.ok.injEq, exists_eq_left'] at h
          obtain ⟨rest, hr, rfl⟩ := h
          have hnone : i.reply = none := Option.map_eq_none_iff.1 hv
          exact ⟨_, _, rest, ⟨rfl, hmock, hname, by simp [hnone], by simp, rfl, rfl, rfl, rfl, rfl⟩,
            hr, rfl⟩
      exact .cons hs (stubsFrom_ok hr)

/-! ## Tests -/

/-- The tests of calls: each has the check of its call, and their names are new. -/
theorem callCases_ok {reached : List Interaction} {invokes : Bool} :
    ∀ {taken : List String} {is : List Interaction} {cases : List Case},
      c.callCases x reached invokes taken is = .ok cases →
        List.Forall₂ (fun i k => k.invokes = invokes ∧
          ∃ a, k.assertion = .call a ∧ CallCheckOf c i a) is cases ∧
        (taken.Nodup → (taken ++ cases.map (·.name)).Nodup)
  | taken, [], cases, h => by
    obtain rfl := Except.ok.inj h
    exact ⟨.nil, fun hn => by simpa using hn⟩
  | taken, i :: is, cases, h => by
    simp only [callCases, bind_ok, pure_ok] at h
    obtain ⟨name, -, a, ha, others, ho, rfl⟩ := h
    obtain ⟨hf, hn⟩ := callCases_ok ho
    refine ⟨.cons ⟨rfl, a, rfl, callCheck_ok ha⟩ hf, fun ht => ?_⟩
    simpa using hn (Name.nodup_unique ht name)

/-- The tests of results: each has the check of its result, and their names are new. -/
theorem resultCases_ok {stubs : List Stub} :
    ∀ {taken : List String} {rs : List MethodResult} {cases : List Case},
      c.resultCases x stubs taken rs = .ok cases →
        List.Forall₂ (fun r k => k.invokes = false ∧
          ∃ a, k.assertion = .result a ∧ ResultCheckOf c r a) rs cases ∧
        (taken.Nodup → (taken ++ cases.map (·.name)).Nodup)
  | taken, [], cases, h => by
    obtain rfl := Except.ok.inj h
    exact ⟨.nil, fun hn => by simpa using hn⟩
  | taken, r :: rs, cases, h => by
    simp only [resultCases, bind_ok, pure_ok] at h
    obtain ⟨name, -, a, ha, others, ho, rfl⟩ := h
    obtain ⟨hf, hn⟩ := resultCases_ok ho
    refine ⟨.cons ⟨rfl, a, rfl, resultCheck_ok ha⟩ hf, fun ht => ?_⟩
    simpa using hn (Name.nodup_unique ht name)

end Context

/-! ## Groups -/

/-- The check of a call, where the test has one. -/
def Case.call? (k : Case) : Option CallCheck :=
  match k.assertion with | .call a => some a | _ => none

/-- The check of a result, where the test has one. -/
def Case.result? (k : Case) : Option ResultCheck :=
  match k.assertion with | .result a => some a | _ => none

/-- The check of a raise, where the test has one. -/
def Case.raise? (k : Case) : Option RaiseCheck :=
  match k.assertion with | .raise a => some a | _ => none

/-- The group of a path. -/
structure GroupOf (c : Context) (x : Method) (P : Path) (g : Group) : Prop where
  path : g.path = P.map c.branchRef
  driven : g.driven = (c.chosen x P).map c.branchRef
  mode : g.mode = if (c.firstSite x P).isSome then .exceptionTriggered else .noException
  calls : List.Forall₂ (CallCheckOf c)
    ((c.model.interactionsOf x.call).filter (·.scope.path == P)) g.callChecks
  results : List.Forall₂ (ResultCheckOf c)
    (if (c.firstSite x P).isSome then [] else x.results.filter (·.scope.path == P)) g.resultChecks
  raises : List.Forall₂ (RaiseCheckOf c) (c.firstSite x P).toList g.raiseChecks
  stubs : List.Forall₂ (StubOf c x) (((c.model.interactionsOf x.call).filter fun i =>
    runs i.scope (c.chosen x P)).filter (answers c x)) g.stubs
  sizes : ∀ l ∈ g.loops, l.size = 1
  names : (g.cases.map (·.name)).Nodup
  invokes : ∀ k ∈ g.cases, k.invokes = (c.firstSite x P).isSome
  named : ∃ method qualifier name taken, c.naming.testGroup.apply
    [("method", method), ("qualifier", qualifier)] = .ok name ∧ g.name = Name.unique name taken

namespace GroupOf

variable {c : Context} {x : Method} {P : Path} {g : Group} (h : GroupOf c x P g)
include h

/-- The stubs of a group are those of calls of the method that the group reaches. -/
theorem stub_of_mem {s : Stub} (hs : s ∈ g.stubs) : ∃ i ∈ c.model.interactions, i.method = x.call ∧
      runs i.scope (c.chosen x P) = true ∧ answers c x i = true ∧ StubOf c x i s := by
  obtain ⟨i, hi, his⟩ := forall₂_right h.stubs s hs
  obtain ⟨hi, ha⟩ := List.mem_filter.1 hi
  obtain ⟨hi, hr⟩ := List.mem_filter.1 hi
  obtain ⟨hi, hm⟩ := List.mem_filter.1 hi
  exact ⟨i, hi, by simpa using hm, hr, ha, his⟩

/-- The checks of calls are those of the calls right on the path. -/
theorem call_of_mem {a : CallCheck} (ha : a ∈ g.callChecks) :
    ∃ i ∈ c.model.interactionsOf x.call, i.scope.path = P ∧ CallCheckOf c i a := by
  obtain ⟨i, hi, hia⟩ := forall₂_right h.calls a ha
  obtain ⟨hi, hp⟩ := List.mem_filter.1 hi
  exact ⟨i, hi, by simpa using hp, hia⟩

/-- The check of a result is that of a result right on the path. -/
theorem result_of_mem {a : ResultCheck} (ha : a ∈ g.resultChecks) :
    ∃ r ∈ x.results, r.scope.path = P ∧ ResultCheckOf c r a := by
  obtain ⟨r, hr, hra⟩ := forall₂_right h.results a ha
  split at hr
  · simp at hr
  · obtain ⟨hr, hp⟩ := List.mem_filter.1 hr
    exact ⟨r, hr, by simpa using hp, hra⟩

/-- The check of a raise is that of the first site that the group reaches. -/
theorem raise_of_mem {a : RaiseCheck} (ha : a ∈ g.raiseChecks) :
    ∃ s, c.firstSite x P = some s ∧ RaiseCheckOf c s a := by
  obtain ⟨s, hs, hsa⟩ := forall₂_right h.raises a ha
  exact ⟨s, Option.mem_toList.1 hs, hsa⟩

/-- A group checks one result at most. -/
theorem results_le_one (hs : c.model.Sound) (hx : x ∈ c.model.methods) :
    g.resultChecks.length ≤ 1 := by
  rw [← h.results.length_eq]
  split
  · exact Nat.zero_le _
  · have hc := List.nodup_iff_count_le_one.1 (hs.paths x hx) P
    rwa [List.count_eq_countP, List.countP_map, List.countP_eq_length_filter] at hc

/-- A scope whose branches are all among those a group takes is reached by the group. -/
theorem runs_of_taken {scope : Scope} {refs : List ScopeRef} (hr : RefsOf scope refs)
    (ht : ∀ r ∈ refs, r.kind = .alt → r.choice ∈ g.driven.map (·.choice)) :
    runs scope (c.chosen x P) = true := by
  refine runs_iff.2 fun y hy => ?_
  obtain ⟨f, hf, hk, rfl⟩ := Scope.mem_path.1 hy
  obtain ⟨r, hrm, hfr⟩ := forall₂_left hr f hf
  have hc := ht r hrm (hfr.kind.trans hk)
  rw [h.driven, List.map_map] at hc
  obtain ⟨z, hz, hze⟩ := List.mem_map.1 hc
  have hb : ((z.1 : Int), (z.2 : Int)) = ((f.block : Int), (f.branch : Int)) := by
    rw [show (ScopeRef.choice ∘ c.branchRef) z = ((z.1 : Int), (z.2 : Int)) from rfl] at hze
    rw [hze, ScopeRef.choice, hfr.block, hfr.branch hk]
  simp only [Prod.mk.injEq] at hb
  obtain rfl : z = (f.block, f.branch) := Prod.ext (by omega) (by omega)
  exact hz

end GroupOf

/-- Some test of the method makes the assertion. -/
def MethodTests.Asserts (mt : MethodTests) (a : Assertion) : Prop :=
  ∃ g ∈ mt.groups, ∃ k ∈ g.cases, k.assertion = a

section

variable {mt : MethodTests}

theorem asserts_call {a : CallCheck} :
    mt.Asserts (.call a) ↔ ∃ g ∈ mt.groups, a ∈ g.callChecks := by
  simp only [MethodTests.Asserts, Group.callChecks, List.mem_filterMap]
  refine exists_congr fun g => and_congr_right fun _ => exists_congr fun k =>
    and_congr_right fun _ => ?_
  cases k.assertion <;> simp

theorem asserts_result {a : ResultCheck} :
    mt.Asserts (.result a) ↔ ∃ g ∈ mt.groups, a ∈ g.resultChecks := by
  simp only [MethodTests.Asserts, Group.resultChecks, List.mem_filterMap]
  refine exists_congr fun g => and_congr_right fun _ => exists_congr fun k =>
    and_congr_right fun _ => ?_
  cases k.assertion <;> simp

theorem asserts_raise {a : RaiseCheck} :
    mt.Asserts (.raise a) ↔ ∃ g ∈ mt.groups, a ∈ g.raiseChecks := by
  simp only [MethodTests.Asserts, Group.raiseChecks, List.mem_filterMap]
  refine exists_congr fun g => and_congr_right fun _ => exists_congr fun k =>
    and_congr_right fun _ => ?_
  cases k.assertion <;> simp

end

/-- The checks that the tests of a list have, one by one. -/
theorem forall₂_checks {α β : Type} {R : α → β → Prop} {f : Case → Option β} {xs : List α}
    {cases : List Case} (h : List.Forall₂ (fun x k => ∃ a, f k = some a ∧ R x a) xs cases) :
    List.Forall₂ R xs (cases.filterMap f) := by
  induction h with
  | nil => exact .nil
  | cons hk _ ih =>
    obtain ⟨a, ha, hr⟩ := hk
    rw [List.filterMap_cons_some ha]
    exact .cons hr ih

/-- Where the tests of a list have no check of a kind. -/
theorem checks_nil {α β : Type} {R : α → Case → Prop} {f : Case → Option β} {xs : List α}
    {cases : List Case} (h : List.Forall₂ R xs cases) (hf : ∀ x k, R x k → f k = none) :
    cases.filterMap f = [] :=
  List.filterMap_eq_nil_iff.2 fun k hk => by
    obtain ⟨x, -, hx⟩ := forall₂_right h k hk
    exact hf x k hx

/-- Tests that check the calls `is`, the results `rs` and the raises `ss`, in this order each. -/
structure CasesOf (c : Context) (invokes : Bool) (is : List Interaction) (rs : List MethodResult)
    (ss : List RaiseSite) (cases : List Case) : Prop where
  calls : List.Forall₂ (CallCheckOf c) is (cases.filterMap Case.call?)
  results : List.Forall₂ (ResultCheckOf c) rs (cases.filterMap Case.result?)
  raises : List.Forall₂ (RaiseCheckOf c) ss (cases.filterMap Case.raise?)
  invokes : ∀ k ∈ cases, k.invokes = invokes

theorem CasesOf.append {c : Context} {invokes : Bool} {is is' : List Interaction}
    {rs rs' : List MethodResult} {ss ss' : List RaiseSite} {cases cases' : List Case}
    (h : CasesOf c invokes is rs ss cases) (h' : CasesOf c invokes is' rs' ss' cases') :
    CasesOf c invokes (is ++ is') (rs ++ rs') (ss ++ ss') (cases ++ cases') where
  calls := by rw [List.filterMap_append]; exact List.rel_append h.calls h'.calls
  results := by rw [List.filterMap_append]; exact List.rel_append h.results h'.results
  raises := by rw [List.filterMap_append]; exact List.rel_append h.raises h'.raises
  invokes k hk := (List.mem_append.1 hk).elim (h.invokes k) (h'.invokes k)

namespace Context

variable {c : Context} {x : Method}

theorem casesOf_calls {reached : List Interaction} {invokes : Bool} {taken : List String}
    {is : List Interaction} {cases : List Case}
    (h : c.callCases x reached invokes taken is = .ok cases) :
    CasesOf c invokes is [] [] cases := by
  have hf := (callCases_ok h).1
  refine ⟨forall₂_checks (hf.imp fun i k hik => ?_), ?_, ?_, fun k hk => ?_⟩
  · obtain ⟨-, a, ha, hi⟩ := hik
    exact ⟨a, by rw [Case.call?, ha], hi⟩
  · rw [checks_nil hf fun i k hik => ?_]
    · exact .nil
    · obtain ⟨-, a, ha, -⟩ := hik
      rw [Case.result?, ha]
  · rw [checks_nil hf fun i k hik => ?_]
    · exact .nil
    · obtain ⟨-, a, ha, -⟩ := hik
      rw [Case.raise?, ha]
  · obtain ⟨i, -, hi, -⟩ := forall₂_right hf k hk
    exact hi

theorem casesOf_results {stubs : List Stub} {taken : List String} {rs : List MethodResult}
    {cases : List Case} (h : c.resultCases x stubs taken rs = .ok cases) :
    CasesOf c false [] rs [] cases := by
  have hf := (resultCases_ok h).1
  refine ⟨?_, forall₂_checks (hf.imp fun r k hrk => ?_), ?_, fun k hk => ?_⟩
  · rw [checks_nil hf fun r k hrk => ?_]
    · exact .nil
    · obtain ⟨-, a, ha, -⟩ := hrk
      rw [Case.call?, ha]
  · obtain ⟨-, a, ha, hr⟩ := hrk
    exact ⟨a, by rw [Case.result?, ha], hr⟩
  · rw [checks_nil hf fun r k hrk => ?_]
    · exact .nil
    · obtain ⟨-, a, ha, -⟩ := hrk
      rw [Case.raise?, ha]
  · obtain ⟨r, -, hi, -⟩ := forall₂_right hf k hk
    exact hi

theorem casesOf_raise {s : RaiseSite} {a : RaiseCheck} (h : RaiseCheckOf c s a) (name : String) :
    CasesOf c true [] [] [s] [{ name, assertion := .raise a, invokes := true }] :=
  ⟨.nil, .nil, .cons h .nil, by simp⟩

theorem loopFixtures_ok {chosen : Path} {loops : List LoopFixture}
    (h : c.loopFixtures x chosen = .ok loops) : ∀ l ∈ loops, l.size = 1 := by
  intro l hl
  obtain ⟨m, -, hm⟩ := forall₂_right (mapM_ok.1 h) l hl
  simp only [bind_ok, pure_ok] at hm
  obtain ⟨element, -, collection, -, rfl⟩ := hm
  rfl

theorem stubs_ok {P : Path} {chosen : List ScopeRef} {stubs : List Stub}
    (h : c.stubs x ((c.model.interactionsOf x.call).filter fun i => runs i.scope (c.chosen x P))
      (c.raiseSites x) chosen = .ok stubs) :
    List.Forall₂ (StubOf c x) (((c.model.interactionsOf x.call).filter fun i =>
      runs i.scope (c.chosen x P)).filter (answers c x)) stubs := by
  simp only [Context.stubs, bind_ok] at h
  obtain ⟨mocks, -, parameters, -, h⟩ := h
  exact stubsFrom_ok h

theorem group_ok {taken : List String} {P : Path} {g : Group} (h : c.group x taken P = .ok g) :
    GroupOf c x P g := by
  unfold group at h
  dsimp only at h
  simp only [bind_ok, lift_ok] at h
  obtain ⟨pathRefs, hpath, steeringRefs, hsteering, stubs, hstubs, calls, hcalls, h⟩ := h
  obtain rfl := knownBranches_ok hpath
  obtain rfl := knownBranches_ok hsteering
  have hcn : (calls.map (·.name)).Nodup := by simpa using (callCases_ok hcalls).2 .nil
  have hgroup : ∀ {last : List Case} {gname description : String} {loops : List LoopFixture},
      CasesOf c (c.firstSite x P).isSome [] (if (c.firstSite x P).isSome then [] else
        x.results.filter (·.scope.path == P)) (c.firstSite x P).toList last →
      ((calls ++ last).map (·.name)).Nodup → (∀ l ∈ loops, l.size = 1) →
      (∃ method qualifier name taken, c.naming.testGroup.apply
        [("method", method), ("qualifier", qualifier)] = .ok name ∧
          gname = Name.unique name taken) →
      GroupOf c x P {
        name := gname, description, path := P.map c.branchRef
        steering := (steer P (c.blocksOf x) (c.raiseSites x)).map c.branchRef
        mode := if (c.firstSite x P).isSome then .exceptionTriggered else .noException
        stubs, loops, cases := calls ++ last } := by
    intro last gname description loops hlast hn hl hname
    have hcases := (casesOf_calls hcalls).append hlast
    rw [List.append_nil] at hcases
    exact ⟨rfl, by simp [Group.driven, chosen], rfl, hcases.calls, hcases.results, hcases.raises,
      stubs_ok hstubs, hl, hn, hcases.invokes, hname⟩
  split at h
  · rename_i site hsite
    have hfirst : c.firstSite x P = some site := hsite
    simp only [bind_ok, pure_ok, lift_ok, Except.ok.injEq, exists_eq_left'] at h
    obtain ⟨name, -, check, hcheck, qualifiers, -, gname, hg, loops, hl, rfl⟩ := h
    refine hgroup ?_ ?_ (loopFixtures_ok hl) ⟨_, _, gname, _, hg, rfl⟩
    · simpa [hfirst] using
        casesOf_raise (raiseCheck_ok hcheck) (Name.unique name (calls.map (·.name)))
    · simpa using Name.nodup_unique hcn name
  · rename_i hsite
    have hfirst : c.firstSite x P = none := hsite
    simp only [bind_ok, pure_ok, lift_ok] at h
    obtain ⟨last, hlast, qualifiers, -, gname, hg, loops, hl, rfl⟩ := h
    refine hgroup ?_ ?_ (loopFixtures_ok hl) ⟨_, _, gname, _, hg, rfl⟩
    · simpa [hfirst] using casesOf_results hlast
    · simpa using (resultCases_ok hlast).2 hcn

end Context

/-! ## Suites and tables -/

/-- The tests of a method. -/
structure MethodOf (c : Context) (x : Method) (mt : MethodTests) : Prop where
  name : c.naming.method x.name = .ok mt.name
  groups : List.Forall₂ (GroupOf c x) (c.paths x) mt.groups

/-- The methods under test of an orchestrator. -/
def methodsOf (c : Context) (p : Classified) : List Method :=
  c.model.methods.filter (·.owner == p.name)

/-- The suite of an orchestrator. -/
structure SuiteOf (c : Context) (p : Classified) (s : Suite) : Prop where
  subject : s.subject = p.name
  methods : List.Forall₂ (MethodOf c) (methodsOf c p) s.methods
  mocks : List.Forall₂ (fun target (k : Mock) => k.collaborator = target ∧
      c.mockKind target = .ok k.kind)
    (((methodsOf c p).flatMap fun x => c.model.interactionsOf x.call).map (·.target)).eraseDups
    s.mocks

/-- The decision table of a leaf. -/
structure TableOf (leaf : Classified) (d : DecisionTable) : Prop where
  participant : d.participant = leaf.name
  status : d.status = .pending
  placeholder : ∃ k ∈ d.methods, ∃ row ∈ k.rows, row.placeholder = true

namespace Context

variable {c : Context}

theorem groups_ok {x : Method} : ∀ {taken : List String} {Ps : List Path} {gs : List Group},
    c.groups x taken Ps = .ok gs → List.Forall₂ (GroupOf c x) Ps gs
  | _, [], gs, h => by
    obtain rfl := Except.ok.inj h
    exact .nil
  | taken, P :: Ps, gs, h => by
    simp only [groups, bind_ok, pure_ok] at h
    obtain ⟨g, hg, rest, hr, rfl⟩ := h
    exact .cons (group_ok hg) (groups_ok hr)

theorem methodTests_ok : ∀ {taken : List String} {xs : List Method} {ms : List MethodTests},
    c.methodTests taken xs = .ok ms → List.Forall₂ (MethodOf c) xs ms
  | _, [], ms, h => by
    obtain rfl := Except.ok.inj h
    exact .nil
  | taken, x :: xs, ms, h => by
    simp only [methodTests, bind_ok, pure_ok, lift_ok] at h
    obtain ⟨-, -, groups, hg, name, hn, parameters, -, others, ho, rfl⟩ := h
    exact .cons ⟨hn, groups_ok hg⟩ (methodTests_ok ho)

theorem suite_ok {p : Classified} {s : Suite} (h : c.suite p (methodsOf c p) = .ok s) :
    SuiteOf c p s := by
  simp only [suite, bind_ok, pure_ok] at h
  obtain ⟨mocks, hm, methods, hms, rfl⟩ := h
  refine ⟨rfl, methodTests_ok hms, (mapM_ok.1 hm).imp fun target k hk => ?_⟩
  simp only [bind_ok, pure_ok] at hk
  obtain ⟨methods, -, name, -, kind, hkind, rfl⟩ := hk
  exact ⟨rfl, hkind⟩

theorem decisionTable_ok {leaf : Classified} {calls : List Interaction} {d : DecisionTable}
    (hne : calls ≠ []) (h : c.decisionTable leaf calls = .ok d) : TableOf leaf d := by
  simp only [decisionTable, bind_ok, pure_ok] at h
  obtain ⟨methods, hm, rfl⟩ := h
  refine ⟨rfl, rfl, ?_⟩
  have hp : ∀ {ms ms' : List DecisionMethod} {i : Interaction},
      ms = [] ∨ (∃ k ∈ ms, ∃ row ∈ k.rows, row.placeholder = true) →
      (do let name ← c.naming.method i.operation
          if ms.any fun m => m.name == name then return ms
          else
            let parameters ← c.parameterNames i.arguments
            return ms ++ [{ name, parameters, returns := i.reply.map (·.type), rows := [
              { inputs := parameters.map fun _ => "None", expected := "None",
                placeholder := true }] }]) = (.ok ms' : Naming _) →
      ∃ k ∈ ms', ∃ row ∈ k.rows, row.placeholder = true := by
    intro ms ms' i hms h
    simp only [bind_ok] at h
    obtain ⟨name, -, h⟩ := h
    split at h
    · rename_i hany
      obtain rfl := pure_ok.1 h
      refine hms.resolve_left fun hnil => ?_
      simp [hnil] at hany
    · simp only [bind_ok, pure_ok] at h
      obtain ⟨parameters, -, rfl⟩ := h
      exact ⟨_, List.mem_append_right _ (.head _), _, .head _, rfl⟩
  cases calls with
  | nil => exact absurd rfl hne
  | cons i rest =>
    simp only [List.foldlM_cons] at hm
    obtain ⟨ms, h1, h2⟩ := bind_ok.1 hm
    exact foldlM_inv (fun ms => ∃ k ∈ ms, ∃ row ∈ k.rows, row.placeholder = true) h2
      (fun _ _ _ hb _ h => hp (.inr hb) h) (hp (.inl rfl) h1)

/-- The steps that make the suites and the tables of a tree. -/
theorem tree_parts {t : Tree} (h : c.tree = .ok t) :
    List.Forall₂ (fun p s => c.suite p (methodsOf c p) = .ok s)
        (c.roles.orchestrators.filter fun p => !(methodsOf c p).isEmpty) t.suites ∧
      List.Forall₂ (fun (leaf : Classified) d =>
          c.model.interactions.filter (·.target == leaf.name) ≠ [] ∧
          c.decisionTable leaf (c.model.interactions.filter (·.target == leaf.name)) = .ok d)
        (c.roles.computational.filter fun leaf =>
          c.model.interactions.any (·.target == leaf.name)) t.tables := by
  simp only [tree, bind_ok] at h
  obtain ⟨suites, hs, tables, ht, h⟩ := h
  obtain ⟨rfl, rfl⟩ : t.suites = suites ∧ t.tables = tables := by
    split at h
    · obtain rfl := pure_ok.1 h
      exact ⟨rfl, rfl⟩
    · cases h
  refine ⟨filterMapM_filter hs fun p o hp => ?_, filterMapM_filter ht fun leaf o hl => ?_⟩
  · split at hp
    · rename_i hnil
      obtain rfl := Except.ok.inj hp
      exact .inl ⟨by simp [methodsOf, hnil], rfl⟩
    · rename_i hnil
      obtain ⟨s, hs, rfl⟩ := map_ok.1 hp
      exact .inr ⟨by simpa [methodsOf] using hnil, s, rfl, hs⟩
  · split at hl
    · rename_i hnil
      obtain rfl := Except.ok.inj hl
      refine .inl ⟨?_, rfl⟩
      simpa using hnil
    · rename_i hnil
      obtain ⟨d, hd, rfl⟩ := map_ok.1 hl
      refine .inr ⟨?_, d, rfl, hnil, lift_ok.1 hd⟩
      simpa using hnil

/-- The suites and the tables of a tree. -/
theorem tree_ok {t : Tree} (h : c.tree = .ok t) :
    List.Forall₂ (SuiteOf c) (c.roles.orchestrators.filter fun p => !(methodsOf c p).isEmpty)
        t.suites ∧
      List.Forall₂ TableOf (c.roles.computational.filter fun leaf =>
        c.model.interactions.any (·.target == leaf.name)) t.tables :=
  ⟨(tree_parts h).1.imp fun _ _ => suite_ok,
    (tree_parts h).2.imp fun _ _ hd => decisionTable_ok hd.1 hd.2⟩

end Context

end Lifeline.Tests
