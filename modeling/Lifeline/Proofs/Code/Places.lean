import Lifeline.Proofs.Code.Bodies
import Lifeline.Proofs.Name.Patterns

/-!
# Where code can be made

A block takes its place from the event that it begins with, so it has none where that is a result
half a step behind another event. Nothing else stops the synthesis of code: a fold fails only where
a result stands right behind an event that is not in its scope (`Trailing`, `foldPlaced_failsOnly`),
and so does the synthesis of all classes (`synthesizeCode_failsOnly`).
-/

namespace Lifeline.Code

open Model
open Tests (MethodTests ScopeRef)

/-! ## Steps that fail -/

/-- A step of a fold fails only as `P` allows, whatever helpers were made before it. -/
def StepFailsOnly {α : Type} (P : CodeError → Prop) (x : Folding α) : Prop :=
  ∀ hs, FailsOnly P (x.run hs)

section

variable {α β : Type} {P : CodeError → Prop}

theorem stepFailsOnly_pure (a : α) : StepFailsOnly P (pure a : Folding α) :=
  fun _ => failsOnly_ok _

theorem StepFailsOnly.bind {x : Folding α} {f : α → Folding β} (hx : StepFailsOnly P x)
    (hf : ∀ a, StepFailsOnly P (f a)) : StepFailsOnly P (x >>= f) := fun hs => by
  rw [StateT.run_bind]
  exact (hx hs).bind fun (a, hs') _ => hf a hs'

theorem stepFailsOnly_lift {x : Except CodeError α} (h : FailsOnly P x) :
    StepFailsOnly P (liftM x : Folding α) := fun hs => by
  cases x with
  | ok a => exact failsOnly_ok _
  | error e => exact failsOnly_error (h e rfl)

theorem stepFailsOnly_addHelper (h : Helper) : StepFailsOnly P (addHelper h) :=
  fun _ => failsOnly_ok _

theorem stepFailsOnly_mapM {f : α → Folding β} : ∀ {xs : List α},
    (∀ x ∈ xs, StepFailsOnly P (f x)) → StepFailsOnly P (xs.mapM f)
  | [], _ => by
    rw [List.mapM_nil]
    exact stepFailsOnly_pure []
  | x :: xs, h => by
    rw [List.mapM_cons]
    refine (h x (.head _)).bind fun y => ?_
    refine (stepFailsOnly_mapM fun z hz => h z (.tail _ hz)).bind fun ys => ?_
    exact stepFailsOnly_pure _

theorem failsOnly_liftName {x : Except NameError α} (h : FailsOnly (fun _ => False) x) :
    FailsOnly P (liftName x) := by
  obtain ⟨a, rfl⟩ := exists_ok h
  exact failsOnly_ok a

end

/-! ## Results behind their scopes -/

/-- A result half a step behind another event stands right behind an event in its scope, unless it
is outside all blocks. -/
def Trailing (ps : List Placed) : Prop :=
  ∀ A q B, ps = A ++ q :: B → q.event.moment % 2 = 1 → q.scope ≠ [] →
    ∃ A' z, A = A' ++ [z] ∧ choices q.scope <+: choices z.scope

theorem Trailing.of_append {ps qs : List Placed} (h : Trailing (ps ++ qs)) : Trailing ps :=
  fun A q B he => h A q (B ++ qs) (by simp [he])

/-- What comes behind some events, where no result that they could hold comes first. -/
theorem Trailing.of_append_right {ps qs : List Placed} (h : Trailing (ps ++ qs))
    (hq : ∀ A z, ps = A ++ [z] → ∀ q B, qs = q :: B → choices q.scope <+: choices z.scope →
      q.scope = []) : Trailing qs := by
  intro A q B he hodd hs
  obtain ⟨A', z, hA, hpre⟩ := h (ps ++ A) q B (by simp [he]) hodd hs
  rcases List.eq_nil_or_concat' A with rfl | ⟨A0, z0, rfl⟩
  · exact absurd (hq A' z (by simpa using hA) q B he hpre) hs
  · rw [← List.append_assoc] at hA
    obtain ⟨-, hz⟩ := List.append_inj' hA rfl
    obtain rfl := (List.cons.inj hz).1
    exact ⟨A0, z0, rfl, hpre⟩

/-- Events whose outermost blocks have the same choice are in one block. -/
theorem Placed.isIn_of_prefix {q z : Placed} {block : Int}
    (h : choices q.scope <+: choices z.scope) (hq : q.scope ≠ []) (hz : z.isIn block = true) :
    q.isIn block = true := by
  obtain ⟨r, rest, hr, rfl⟩ := Placed.head_of_isIn hz
  cases hs : q.scope with
  | nil => exact absurd hs hq
  | cons a as =>
    rw [hs, hr] at h
    have hc : a.choice = r.choice := (List.cons_prefix_cons.1 h).1
    have hb : a.block = r.block := congrArg Prod.fst hc
    simpa [Placed.isIn, hs] using hb

/-- An event outside all blocks holds no result, so what comes behind it trails without it. -/
theorem Trailing.behind_outside {p : Placed} {ps : List Placed} (h : Trailing (p :: ps))
    (hp : p.scope = []) : Trailing ps := by
  have h : Trailing ([p] ++ ps) := h
  refine h.of_append_right fun A z hz q B _ hpre => ?_
  obtain rfl : p = z := by
    have hlast := congrArg List.getLast? hz
    simpa using hlast
  rw [hp] at hpre
  simpa [choices] using hpre

/-- What comes behind a run of a block begins outside of the block, so it trails without it. -/
theorem Trailing.behind_block {block : Int} {ps qs : List Placed} (h : Trailing (ps ++ qs))
    (hps : ∀ z ∈ ps, z.isIn block = true)
    (hqs : ∀ q ∈ qs.head?, q.isIn block = false) : Trailing qs := by
  refine h.of_append_right fun A z hz q B hq hpre => ?_
  by_contra hs
  have hin := Placed.isIn_of_prefix hpre hs (hps z (hz ▸ List.mem_append_right _ (.head _)))
  rw [hqs q (by simp [hq])] at hin
  cases hin

/-- A run of a block begins with a full step, and results trail in it. -/
theorem Trailing.of_run : ∀ {fuel : Nat} {ps : List Placed}, Trailing ps →
    ∀ r first rest, .block r first rest ∈ runs fuel ps →
      first.event.moment % 2 = 0 ∧ Trailing (first :: rest)
  | 0, _, _, _, _, _, h => by simp [runs] at h
  | _ + 1, [], _, _, _, _, h => by simp [runs] at h
  | fuel + 1, p :: ps, ht, r, first, rest, h => by
    rcases runs_cons fuel p ps with ⟨hp, hruns⟩ | ⟨r', own, later, rfl, hfits, hlater, hruns⟩
    · rw [hruns] at h
      rcases List.mem_cons.1 h with h | h
      · cases h
      · exact of_run (ht.behind_outside hp) r first rest h
    · rw [hruns] at h
      rw [← List.cons_append] at ht
      rcases List.mem_cons.1 h with h | h
      · obtain ⟨-, rfl, rfl⟩ := Run.block.inj h
        refine ⟨?_, ht.of_append⟩
        by_contra hodd
        obtain ⟨A', z, hnil, -⟩ :=
          ht.of_append [] first rest rfl (by omega) (hfits.scope_ne_nil first (.head _))
        simp at hnil
      · exact of_run (ht.behind_block hfits.2 hlater) r first rest h

theorem Trailing.enter {ps : List Placed} (h : Trailing ps) : Trailing (ps.map (·.enter)) := by
  intro A q B he hodd hs
  obtain ⟨A, ps', rfl, rfl, hps⟩ := List.map_eq_append_iff.1 he
  obtain ⟨q, B, rfl, rfl, rfl⟩ := List.map_eq_cons_iff.1 hps
  obtain ⟨A, z, rfl, hpre⟩ := h A q B rfl hodd fun hnil => hs (by simp [Placed.enter, hnil])
  refine ⟨A.map (·.enter), z.enter, by simp, ?_⟩
  simpa [choices, Placed.enter, List.map_drop] using hpre.drop 1

theorem Trailing.inBranch {ps : List Placed} (h : Trailing ps) (index : Int) :
    Trailing (inBranch ps index) := by
  intro A q B he hodd hs
  obtain ⟨X, Y, rfl, hX, hq⟩ := cut_of_filter he
  obtain ⟨X, z, rfl, hpre⟩ := h X q Y rfl hodd hs
  -- the event in front of a result is in the same branch
  have hz : z.scope.head?.any (·.branch == index) = true := by
    cases hqs : q.scope with
    | nil => exact absurd hqs hs
    | cons a as =>
      rw [hqs] at hpre hq
      cases hzs : z.scope with
      | nil => simp [hzs, choices] at hpre
      | cons b bs =>
        rw [hzs] at hpre
        have hc : a.choice = b.choice := (List.cons_prefix_cons.1 hpre).1
        have hb : a.branch = b.branch := congrArg Prod.snd hc
        simpa [hb] using hq
  rw [List.filter_append, List.filter_singleton, hz, cond_true] at hX
  exact ⟨_, z, hX.symm, hpre⟩

/-! ## The fold -/

section

variable {P : CodeError → Prop} {k : Knowledge} (hk : k.naming.FailOnly fun _ => False)

theorem placeOf_failsOnly {e : Event} (h : e.moment % 2 = 0 ∨ P .unplacedBlock) :
    FailsOnly P (placeOf e) := by
  unfold placeOf
  split
  · exact failsOnly_ok _
  · rename_i hodd
    exact failsOnly_error (h.resolve_left (by simpa using hodd))

include hk

theorem testOf_failsOnly (block index : Int) (guard : Option String) (mayBeElse : Bool) :
    StepFailsOnly P (k.testOf block index guard mayBeElse) := by
  unfold Knowledge.testOf
  split
  · exact stepFailsOnly_pure _
  · dsimp only
    split
    · exact stepFailsOnly_pure _
    · refine (stepFailsOnly_lift (failsOnly_liftName (hk.predicate _))).bind fun name => ?_
      exact (stepFailsOnly_addHelper _).bind fun _ => stepFailsOnly_pure _

theorem loopHead_failsOnly {r : ScopeRef} {first : Event}
    (h : first.moment % 2 = 0 ∨ P .unplacedBlock) : StepFailsOnly P (k.loopHead r first) := by
  unfold Knowledge.loopHead
  dsimp only
  split
  · exact (stepFailsOnly_lift (placeOf_failsOnly h)).bind fun _ => stepFailsOnly_pure _
  · refine (stepFailsOnly_lift (failsOnly_liftName (hk.loopSource _))).bind fun name => ?_
    refine (stepFailsOnly_addHelper _).bind fun _ => ?_
    exact (stepFailsOnly_lift (placeOf_failsOnly h)).bind fun _ => stepFailsOnly_pure _

/-- **A fold fails only where a block has no place**, which it has where results trail. -/
theorem foldPlaced_failsOnly : ∀ {fuel : Nat} {ps : List Placed},
    Trailing ps ∨ P .unplacedBlock → StepFailsOnly P (foldPlaced k fuel ps)
  | 0, _, _ => stepFailsOnly_pure []
  | fuel + 1, ps, h => by
    rw [foldPlaced]
    refine (stepFailsOnly_mapM fun run hrun => ?_).bind fun _ => stepFailsOnly_pure _
    cases run with
    | single p => exact stepFailsOnly_pure _
    | block r first rest =>
      have hrun := h.imp_left fun ht => ht.of_run r first rest hrun
      have hplace := hrun.imp_left And.left
      have htrail := hrun.imp_left And.right
      dsimp only
      split
      · refine (foldPlaced_failsOnly (htrail.imp_left Trailing.enter)).bind fun _ => ?_
        exact (loopHead_failsOnly hk hplace).bind fun _ => stepFailsOnly_pure _
      · have hbranch : ∀ index, Trailing ((inBranch (first :: rest) index).map (·.enter)) ∨
            P .unplacedBlock := fun index => htrail.imp_left fun ht => (ht.inBranch index).enter
        refine (stepFailsOnly_mapM fun x _ => ?_).bind fun _ =>
          (stepFailsOnly_lift (placeOf_failsOnly hplace)).bind fun _ => stepFailsOnly_pure _
        refine (foldPlaced_failsOnly (hbranch x.1)).bind fun _ => ?_
        exact (testOf_failsOnly hk _ _ _ _).bind fun _ => stepFailsOnly_pure _

end

/-! ## Classes -/

section

variable {P : CodeError → Prop} {naming : NamingRules} (hn : naming.FailOnly fun _ => False)
include hn

theorem eventsOf_failsOnly (mt : MethodTests) :
    FailsOnly (fun _ => False) (eventsOf naming mt) := by
  have hevent : ∀ (stubs : List Tests.Stub) (a : Tests.Assertion),
      FailsOnly (fun _ => False) (eventOf naming stubs a) := fun stubs a => by
    cases a with
    | call a =>
      refine FailsOnly.map ?_ _
      unfold callEvent
      split
      · exact ((hn.valueName _).map _).bind fun _ _ => failsOnly_ok _
      · exact (failsOnly_ok _).bind fun _ _ => failsOnly_ok _
    | result r => exact failsOnly_ok _
    | raise t =>
      rw [eventOf]
      split
      · exact failsOnly_ok _
      · exact failsOnly_ok _
  unfold eventsOf
  exact (failsOnly_filterMapM fun _ _ => hevent _ _).bind fun _ _ => failsOnly_ok _

theorem namesOf_failsOnly (mt : MethodTests) : FailsOnly (fun _ => False) (namesOf naming mt) := by
  unfold namesOf
  refine (failsOnly_mapM fun v _ => ?_).bind fun _ _ => failsOnly_ok _
  exact (hn.valueName v).bind fun _ _ => failsOnly_ok _

/-- The events of a method in order. -/
theorem method_failsOnly {mt : MethodTests} (h : ∀ es, eventsOf naming mt = .ok es →
    Trailing ((Event.inOrder es).map fun e => { event := e, scope := e.scope }) ∨ P .unplacedBlock)
    (helpers : Helpers) : FailsOnly P (method naming helpers mt) := by
  unfold method
  obtain ⟨es, hes⟩ := exists_ok (eventsOf_failsOnly hn mt)
  obtain ⟨names, hnames⟩ := exists_ok (namesOf_failsOnly hn mt)
  rw [hes, hnames]
  refine (failsOnly_ok es).bind fun es' he => ?_
  obtain rfl := Except.ok.inj he
  refine (failsOnly_ok names).bind fun _ _ => ?_
  exact ((foldPlaced_failsOnly hn (h es hes)) helpers).bind fun _ _ => failsOnly_ok _

omit hn in
/-- Only the first method of a name is made. -/
theorem implementAll_failsOnly : ∀ {mts : List MethodTests} {d : Draft},
    (∀ mt, mt.name ∉ d.methods.map (·.name) → mts.find? (·.name == mt.name) = some mt →
      ∀ helpers, FailsOnly P (method naming helpers mt)) →
        FailsOnly P (mts.foldlM (Draft.implement naming) d)
  | [], _, _ => failsOnly_ok _
  | m :: mts, d, h => by
    rw [List.foldlM_cons]
    have hlater : ∀ mt : MethodTests, m.name ≠ mt.name →
        (m :: mts).find? (·.name == mt.name) = mts.find? (·.name == mt.name) :=
      fun mt hne => List.find?_cons_of_neg (by simpa using hne)
    by_cases hm : m.name ∈ d.methods.map (·.name)
    · have hd : d.implement naming m = .ok d := Draft.implement_old hm
      refine FailsOnly.bind (hd ▸ failsOnly_ok d) fun d' hd' => ?_
      obtain rfl := Except.ok.inj (hd.symm.trans hd')
      refine implementAll_failsOnly fun mt hnew hfirst => h mt hnew ?_
      rw [hlater mt fun he => hnew (he ▸ hm), hfirst]
    · refine FailsOnly.bind ?_ fun d' hd' => ?_
      · unfold Draft.implement
        split
        · exact failsOnly_ok _
        · refine (h m hm ?_ _).bind fun _ _ => failsOnly_ok _
          exact List.find?_cons_of_pos (by simp)
      · obtain ⟨_, _, made, hmade, hnames⟩ := Draft.implement_new hd' hm
        refine implementAll_failsOnly fun mt hnew hfirst => h mt ?_ ?_
        · exact fun hmt => hnew (by simp [hnames, List.mem_map.1 hmt])
        · rw [hlater mt fun he => hnew ?_, hfirst]
          simp [hnames, (method_ok hmade).1, he]

/-- The synthesis of code fails only where a block of a method that is made has no place. -/
theorem synthesizeCode_failsOnly {t : Tests.Tree} {p : Profile} (hp : p.naming = naming)
    (h : ∀ s ∈ t.suites, ∀ mt, s.methods.find? (·.name == mt.name) = some mt →
      ∀ es, eventsOf naming mt = .ok es →
        Trailing ((Event.inOrder es).map fun e => { event := e, scope := e.scope }) ∨
          P .unplacedBlock) : FailsOnly P (t.synthesizeCode p) := by
  subst hp
  unfold Tests.Tree.synthesizeCode
  refine (failsOnly_mapM fun s hs => ?_).bind fun _ _ => failsOnly_ok _
  unfold classOf
  refine (implementAll_failsOnly fun mt _ hfirst => ?_).bind fun _ _ => failsOnly_ok _
  exact method_failsOnly hn (h s hs mt hfirst)

end

end Lifeline.Code
