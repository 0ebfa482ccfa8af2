import Lifeline.Code.Fold
import Lifeline.Proofs.Code.Drive
import Lifeline.Proofs.Lists
import Lifeline.Proofs.Outcome
import Lifeline.Proofs.Sorting
import Mathlib.Data.List.TakeWhile

/-!
# What the fold makes of events

`Yields x a`: the step `x` of a fold can give `a`. The fold of some events cuts them into runs
(`runs_cons`) and makes a part of each (`RunOf`, `folds_succ`).

* **`drive_of_fold`**: a driven run of the body does what the events do that are reached, in order.
* **`no_tie`**: a block does not begin half a step behind an event outside it.
-/

namespace Lifeline.Code

open Tests (ScopeRef)

/-! ## Steps of a fold -/

/-- A step of a fold gives `a`, for some helpers made before it. -/
def Yields {α : Type} (x : Folding α) (a : α) : Prop := ∃ hs hs', x.run hs = .ok (a, hs')

section

variable {α β : Type}

theorem yields_bind {x : Folding α} {f : α → Folding β} {b : β} (h : Yields (x >>= f) b) :
    ∃ a, Yields x a ∧ Yields (f a) b := by
  obtain ⟨hs, hs', h⟩ := h
  rw [StateT.run_bind, bind_ok] at h
  obtain ⟨⟨a, hs1⟩, h1, h2⟩ := h
  exact ⟨a, ⟨hs, hs1, h1⟩, hs1, hs', h2⟩

theorem yields_pure {a b : α} (h : Yields (pure a) b) : a = b := by
  obtain ⟨hs, hs', h⟩ := h
  rw [StateT.run_pure, pure_ok] at h
  exact (Prod.mk.inj h).1

theorem yields_lift {x : Except CodeError α} {a : α} (h : Yields (liftM x) a) : x = .ok a := by
  obtain ⟨hs, hs', h⟩ := h
  cases x with
  | error e => cases h
  | ok b =>
    obtain ⟨rfl, -⟩ := Prod.mk.inj (Except.ok.inj h)
    rfl

theorem yields_mapM {f : α → Folding β} : ∀ {xs : List α} {ys : List β},
    Yields (xs.mapM f) ys → List.Forall₂ (fun x y => Yields (f x) y) xs ys
  | [], ys, h => by
    rw [List.mapM_nil] at h
    obtain rfl := yields_pure h
    exact .nil
  | x :: xs, ys, h => by
    rw [List.mapM_cons] at h
    obtain ⟨y, hy, h⟩ := yields_bind h
    obtain ⟨ys', hys, h⟩ := yields_bind h
    obtain rfl := yields_pure h
    exact .cons hy (yields_mapM hys)

end

/-! ## Runs -/

/-- The events of a run. -/
def Run.items : Run → List Placed
  | .single p => [p]
  | .block _ first rest => first :: rest

/-- A run of a list: an event outside all blocks, or events that share their outermost block, of
which the first one gives the reference. -/
def Run.Fits : Run → Prop
  | .single p => p.scope = []
  | .block r first rest => first.scope.head? = some r ∧
      ∀ p ∈ first :: rest, p.isIn r.block = true

/-- The first run is the first event, if that is outside all blocks, or the events up to the first
one that is not in its outermost block. -/
theorem runs_cons (fuel : Nat) (p : Placed) (ps : List Placed) :
    (p.scope = [] ∧ runs (fuel + 1) (p :: ps) = .single p :: runs fuel ps) ∨
    ∃ r own later, ps = own ++ later ∧ (Run.block r p own).Fits ∧
      (∀ q ∈ later.head?, q.isIn r.block = false) ∧
      runs (fuel + 1) (p :: ps) = .block r p own :: runs fuel later := by
  cases hp : p.scope with
  | nil => exact .inl ⟨rfl, by simp only [runs, hp]⟩
  | cons r rest =>
    refine .inr ⟨r, ps.takeWhile (·.isIn r.block), ps.dropWhile (·.isIn r.block),
      List.takeWhile_append_dropWhile.symm, ⟨by simp [hp], fun q hq => ?_⟩, fun q hq => ?_,
      by simp only [runs, hp]⟩
    · rcases List.mem_cons.1 hq with rfl | hq
      · simp [Placed.isIn, hp]
      · exact List.mem_takeWhile_imp (p := fun q : Placed => q.isIn r.block) hq
    · have hnot := List.head?_dropWhile_not (fun q : Placed => q.isIn r.block) ps
      rw [Option.mem_def.1 hq] at hnot
      exact hnot

/-- The runs of a list make up the list. -/
theorem items_runs : ∀ {fuel : Nat} {ps : List Placed}, ps.length ≤ fuel →
    (runs fuel ps).flatMap Run.items = ps
  | 0, [], _ => rfl
  | _ + 1, [], _ => rfl
  | fuel + 1, p :: ps, h => by
    rw [List.length_cons] at h
    rcases runs_cons fuel p ps with ⟨-, hruns⟩ | ⟨r, own, later, rfl, -, -, hruns⟩
    · rw [hruns, List.flatMap_cons, items_runs (by omega)]
      rfl
    · rw [List.length_append] at h
      rw [hruns, List.flatMap_cons, items_runs (by omega), Run.items, List.cons_append]

theorem fits_runs : ∀ {fuel : Nat} {ps : List Placed}, ∀ run ∈ runs fuel ps, run.Fits
  | 0, _, run, h => by simp [runs] at h
  | _ + 1, [], run, h => by simp [runs] at h
  | fuel + 1, p :: ps, run, h => by
    rcases runs_cons fuel p ps with ⟨hp, hruns⟩ | ⟨r, own, later, -, hfits, -, hruns⟩
    all_goals
      rw [hruns] at h
      rcases List.mem_cons.1 h with rfl | h
    · exact hp
    · exact fits_runs run h
    · exact hfits
    · exact fits_runs run h

theorem sublist_of_run {ps : List Placed} {run : Run} (h : run ∈ runs ps.length ps) :
    run.items.Sublist ps := by
  conv_rhs => rw [← items_runs (Nat.le_refl ps.length)]
  exact List.sublist_flatten_of_mem (List.mem_map.2 ⟨_, h, rfl⟩)

/-- An event whose outermost block is known. -/
theorem Placed.head_of_isIn {p : Placed} {block : Int} (h : p.isIn block = true) :
    ∃ r rest, p.scope = r :: rest ∧ r.block = block := by
  unfold Placed.isIn at h
  cases hs : p.scope with
  | nil => simp [hs] at h
  | cons r rest => exact ⟨r, rest, rfl, by simpa [hs] using h⟩

theorem Placed.block_of_isIn {p : Placed} {r : ScopeRef} {block : Int} (h : p.isIn block = true)
    (hr : p.scope.head? = some r) : r.block = block := by
  simpa [Placed.isIn, hr] using h

/-- An event has at most one outermost block. -/
theorem Placed.isIn_unique {p : Placed} {b b' : Int} (h : p.isIn b = true) (h' : p.isIn b' = true) :
    b = b' := by
  obtain ⟨r, rest, hp, rfl⟩ := Placed.head_of_isIn h
  exact Placed.block_of_isIn h' (by rw [hp, List.head?_cons])

theorem Placed.scope_ne_nil {p : Placed} {block : Int} (h : p.isIn block = true) :
    p.scope ≠ [] := by
  obtain ⟨r, rest, hp, -⟩ := Placed.head_of_isIn h
  simp [hp]

theorem Run.Fits.scope_ne_nil {r : ScopeRef} {first : Placed} {rest : List Placed}
    (h : (Run.block r first rest).Fits) : ∀ p ∈ first :: rest, p.scope ≠ [] := fun p hp =>
  Placed.scope_ne_nil (h.2 p hp)

/-! ## One level of the fold -/

/-- What the fold makes of one branch of the events of an alternative, with the body from one level
below. The guard is that of the first event in the branch, and only the last branch may go without a
test. -/
def BranchOf (k : Knowledge) (fuel : Nat) (r : ScopeRef) (all : List Placed) (index : Int)
    (b : BranchHead × List Statement) : Prop :=
  b.1.index = index ∧
    (∃ mayBeElse, (mayBeElse = true → (branchesOf all).getLast? = some index) ∧
      Yields (k.testOf r.block index
        (((inBranch all index).head?.bind (·.scope.head?)).bind (·.guard)) mayBeElse) b.1.test) ∧
    Yields (foldPlaced k fuel ((inBranch all index).map (·.enter))) b.2

/-- The statements that the fold makes of a run, with the bodies from one level below. -/
inductive RunOf (k : Knowledge) (fuel : Nat) : Run → List Statement → Prop
  | single (p : Placed) : RunOf k fuel (.single p) p.event.statement.toList
  | loop {r : ScopeRef} {first : Placed} {rest : List Placed} {body : List Statement}
      {head : LoopHead} (hk : r.kind = .loop) (hm : first.event.moment % 2 = 0)
      (hb : Yields (foldPlaced k fuel ((first :: rest).map (·.enter))) body)
      (hh : Yields (k.loopHead r first.event) head) :
      RunOf k fuel (.block r first rest) [.iteration head body]
  | alt {r : ScopeRef} {first : Placed} {rest : List Placed}
      {branches : List (BranchHead × List Statement)} {sequence : Int} (hk : r.kind = .alt)
      (hm : first.event.moment % 2 = 0)
      (hb : List.Forall₂ (BranchOf k fuel r (first :: rest)) (branchesOf (first :: rest))
        branches) :
      RunOf k fuel (.block r first rest) [.conditional r.block branches sequence]

theorem RunOf.even {k : Knowledge} {fuel : Nat} {r : ScopeRef} {first : Placed} {rest : List Placed}
    {part : List Statement} (h : RunOf k fuel (.block r first rest) part) :
    first.event.moment % 2 = 0 := by
  cases h with
  | loop _ he _ _ => exact he
  | alt _ he => exact he

theorem placeOf_even {e : Event} {n : Int} (h : placeOf e = .ok n) : e.moment % 2 = 0 := by
  unfold placeOf at h
  split at h
  · rename_i he
    simpa using he
  · cases h

theorem loopHead_even {k : Knowledge} {r : ScopeRef} {first : Event} {head : LoopHead}
    (h : Yields (k.loopHead r first) head) : first.moment % 2 = 0 := by
  unfold Knowledge.loopHead at h
  dsimp only at h
  split at h
  · obtain ⟨n, hn, -⟩ := yields_bind h
    exact placeOf_even (yields_lift hn)
  · obtain ⟨name, -, h⟩ := yields_bind h
    obtain ⟨-, -, h⟩ := yields_bind h
    obtain ⟨n, hn, -⟩ := yields_bind h
    exact placeOf_even (yields_lift hn)

theorem loopHead_block {k : Knowledge} {r : ScopeRef} {first : Event} {head : LoopHead}
    (h : Yields (k.loopHead r first) head) : head.block = r.block := by
  unfold Knowledge.loopHead at h
  dsimp only at h
  split at h
  · obtain ⟨n, -, h⟩ := yields_bind h
    obtain rfl := yields_pure h
    rfl
  · obtain ⟨name, -, h⟩ := yields_bind h
    obtain ⟨-, -, h⟩ := yields_bind h
    obtain ⟨n, -, h⟩ := yields_bind h
    obtain rfl := yields_pure h
    rfl

/-- **One level of the fold**: a part for each run. -/
theorem folds_succ {k : Knowledge} {fuel : Nat} {ps : List Placed} {body : List Statement}
    (h : Yields (foldPlaced k (fuel + 1) ps) body) :
    ∃ parts, body = parts.flatten ∧ List.Forall₂ (RunOf k fuel) (runs ps.length ps) parts := by
  rw [foldPlaced] at h
  obtain ⟨parts, hparts, h⟩ := yields_bind h
  obtain rfl := yields_pure h
  refine ⟨parts, rfl, (yields_mapM hparts).imp fun run part hrun => ?_⟩
  cases run with
  | single p =>
    obtain rfl := yields_pure hrun
    exact .single p
  | block r first rest =>
    dsimp only at hrun
    split at hrun
    · rename_i hk
      obtain ⟨body, hb, hrun⟩ := yields_bind hrun
      obtain ⟨head, hh, hrun⟩ := yields_bind hrun
      obtain rfl := yields_pure hrun
      exact .loop hk (loopHead_even hh) hb hh
    · rename_i hk
      obtain ⟨branches, hb, hrun⟩ := yields_bind hrun
      obtain ⟨sequence, hs, hrun⟩ := yields_bind hrun
      obtain rfl := yields_pure hrun
      refine .alt hk (placeOf_even (yields_lift hs)) ?_
      rw [← List.zipIdx_map_fst 0 (branchesOf (first :: rest)), List.forall₂_map_left_iff]
      have hall := (List.forall₂_and_left _ _).2 ⟨fun x hx => hx, yields_mapM hb⟩
      refine hall.imp fun (index, n) b ⟨hmem, hbranch⟩ => ?_
      dsimp only at hbranch
      obtain ⟨body, hbody, hbranch⟩ := yields_bind hbranch
      obtain ⟨test, htest, hbranch⟩ := yields_bind hbranch
      obtain rfl := yields_pure hbranch
      refine ⟨rfl, ⟨_, fun hlast => ?_, htest⟩, hbody⟩
      obtain ⟨hn, -⟩ := Bool.and_eq_true_iff.1 hlast
      rw [List.getLast?_eq_getElem?, ← beq_iff_eq.1 hn, Nat.add_sub_cancel]
      exact List.mk_mem_zipIdx_iff_getElem?.1 hmem

/-! ## Driven runs -/

/-- Whether a driven run gets to the blocks around an event, if nothing stops it before. -/
def Placed.reached (d : Drive) (p : Placed) : Bool :=
  p.scope.all fun r => r.kind != .alt || d.branch r.block == some r.branch

/-- What a driven run does at an event. -/
def Placed.trace (d : Drive) (p : Placed) : Trace :=
  if p.reached d then driveAll d p.event.statement.toList else {}

/-- What a driven run does at some events. -/
def driveEvents (d : Drive) (ps : List Placed) : Trace := Trace.chain (ps.map (Placed.trace d))

/-- Each block is of one kind, wherever it is met. -/
def Uniform (ps : List Placed) : Prop :=
  ∀ p ∈ ps, ∀ q ∈ ps, ∀ r ∈ p.scope, ∀ r' ∈ q.scope, r.block = r'.block → r.kind = r'.kind

theorem Uniform.subset {ps qs : List Placed} (h : Uniform ps) (hs : qs ⊆ ps) : Uniform qs :=
  fun p hp q hq => h p (hs hp) q (hs hq)

theorem Uniform.enter {ps : List Placed} (h : Uniform ps) : Uniform (ps.map (·.enter)) := by
  intro p hp q hq r hr r' hr'
  obtain ⟨p, hp', rfl⟩ := List.mem_map.1 hp
  obtain ⟨q, hq', rfl⟩ := List.mem_map.1 hq
  exact h p hp' q hq' r (List.mem_of_mem_drop hr) r' (List.mem_of_mem_drop hr')

theorem Trace.chain_flatMap {α β : Type} (f : β → Trace) (g : α → List β) (xs : List α) :
    chain ((xs.flatMap g).map f) = chain (xs.map fun x => chain ((g x).map f)) := by
  induction xs with
  | nil => rfl
  | cons x xs ih => rw [List.flatMap_cons, List.map_append, chain_append, ih, List.map_cons,
      chain_cons]

/-- Parts that do nothing can be left out. -/
theorem Trace.chain_filter {α : Type} {f : α → Trace} {q : α → Bool} :
    ∀ {xs : List α}, (∀ x ∈ xs, q x = false → f x = {}) →
      chain (xs.map f) = chain ((xs.filter q).map f)
  | [], _ => rfl
  | x :: xs, h => by
    have ih : chain (xs.map f) = chain ((xs.filter q).map f) :=
      chain_filter fun y hy => h y (.tail _ hy)
    cases hq : q x with
    | true => rw [List.filter_cons_of_pos hq, List.map_cons, List.map_cons, chain_cons, chain_cons,
        ih]
    | false => rw [List.filter_cons_of_neg (by simp [hq]), List.map_cons, chain_cons,
        h x (.head _) hq, nil_andThen, ih]

section

variable {d : Drive}

/-- The outermost block of the events of a run, where blocks are of one kind. -/
theorem Run.Fits.head {r : ScopeRef} {first : Placed} {rest : List Placed}
    (h : (Run.block r first rest).Fits) (hu : Uniform (first :: rest)) :
    ∀ p ∈ first :: rest, ∃ r' rest', p.scope = r' :: rest' ∧ r'.block = r.block ∧
      r'.kind = r.kind := fun p hp => by
  obtain ⟨r', rest', hp', hb⟩ := Placed.head_of_isIn (h.2 p hp)
  exact ⟨r', rest', hp', hb,
    hu p hp first (.head _) r' (by simp [hp']) r (List.mem_of_mem_head? h.1) hb⟩

/-- Inside a loop, or inside the branch that is taken, an event is reached as it is further in. -/
theorem Placed.trace_enter {p : Placed} {r : ScopeRef} {rest : List ScopeRef}
    (hp : p.scope = r :: rest) (hr : r.kind = .alt → d.branch r.block = some r.branch) :
    p.trace d = p.enter.trace d := by
  have hreach : p.reached d = p.enter.reached d := by
    simp only [Placed.reached, Placed.enter, hp, List.all_cons, List.drop_succ_cons, List.drop_zero]
    cases hk : r.kind with
    | loop => simp
    | alt => simp [hr hk]
  rw [Placed.trace, Placed.trace, hreach]
  rfl

theorem Placed.trace_other {p : Placed} {r : ScopeRef} {rest : List ScopeRef}
    (hp : p.scope = r :: rest) (hk : r.kind = .alt) (hr : d.branch r.block ≠ some r.branch) :
    p.trace d = {} := by
  rw [Placed.trace, if_neg]
  simp [Placed.reached, hp, hk, hr]

theorem branch_mem {ps : List Placed} {p : Placed} (hp : p ∈ ps) {r : ScopeRef}
    {rest : List ScopeRef} (hs : p.scope = r :: rest) : r.branch ∈ branchesOf ps := by
  rw [branchesOf, mem_sortBy, List.mem_eraseDups, List.mem_filterMap]
  exact ⟨p, hp, by simp [hs]⟩

/-- The events inside a loop. -/
theorem driveEvents_loop {block : Int} {ps : List Placed}
    (h : ∀ p ∈ ps, ∃ r rest, p.scope = r :: rest ∧ r.block = block ∧ r.kind = .loop) :
    driveEvents d ps = driveEvents d (ps.map (·.enter)) := by
  rw [driveEvents, driveEvents, List.map_map]
  refine congrArg Trace.chain (List.map_congr_left fun p hp => ?_)
  obtain ⟨r, rest, hs, -, hk⟩ := h p hp
  exact Placed.trace_enter hs fun ha => by rw [hk] at ha; cases ha

/-- Of the events inside an alternative, those in the branch that is taken count. -/
theorem driveEvents_taken {block index : Int} {ps : List Placed}
    (h : ∀ p ∈ ps, ∃ r rest, p.scope = r :: rest ∧ r.block = block ∧ r.kind = .alt)
    (hb : d.branch block = some index) :
    driveEvents d ps = driveEvents d ((inBranch ps index).map (·.enter)) := by
  rw [driveEvents, driveEvents, List.map_map, inBranch]
  rw [Trace.chain_filter (q := fun p => p.scope.head?.any (·.branch == index))]
  · refine congrArg Trace.chain (List.map_congr_left fun p hp => ?_)
    obtain ⟨hp, hbr⟩ := List.mem_filter.1 hp
    obtain ⟨r, rest, hs, hr, -⟩ := h p hp
    simp only [hs, List.head?_cons, Option.any_some, beq_iff_eq] at hbr
    exact Placed.trace_enter hs fun _ => by rw [hr, hb, hbr]
  · intro p hp hq
    obtain ⟨r, rest, hs, hr, hk⟩ := h p hp
    refine Placed.trace_other hs hk ?_
    rw [hr, hb]
    simp only [hs, List.head?_cons, Option.any_some, beq_eq_false_iff_ne] at hq
    exact fun hi => hq (Option.some.inj hi).symm

/-- Nothing happens inside an alternative without events in the branch that is taken. -/
theorem driveEvents_none {block : Int} {ps : List Placed}
    (h : ∀ p ∈ ps, ∃ r rest, p.scope = r :: rest ∧ r.block = block ∧ r.kind = .alt)
    (hb : ∀ index ∈ branchesOf ps, d.branch block ≠ some index) : driveEvents d ps = {} := by
  rw [driveEvents, Trace.chain_filter (q := fun _ => false)]
  · simp
  · intro p hp _
    obtain ⟨r, rest, hs, hr, hk⟩ := h p hp
    exact Placed.trace_other hs hk (hr ▸ hb _ (branch_mem hp hs))

/-- A conditional takes the branch that is chosen, or none. -/
theorem driveBranches_of (chosen : Option Int) {R : Int → BranchHead × List Statement → Prop}
    (hR : ∀ index b, R index b → b.1.index = index) {indexes : List Int}
    {branches : List (BranchHead × List Statement)} (h : List.Forall₂ R indexes branches) :
    (driveBranches d chosen branches = {} ∧ ∀ index ∈ indexes, chosen ≠ some index) ∨
      ∃ index b, chosen = some index ∧ R index b ∧
        driveBranches d chosen branches = driveAll d b.2 := by
  induction h with
  | nil => exact .inl ⟨rfl, by simp⟩
  | @cons index b indexes branches hb _ ih =>
    obtain ⟨head, body⟩ := b
    have hi : head.index = index := hR _ _ hb
    by_cases hc : chosen = some index
    · refine .inr ⟨index, (head, body), hc, hb, ?_⟩
      rw [driveBranches, if_pos (by rw [hi, hc])]
    · rw [driveBranches, if_neg (by rw [hi]; exact hc)]
      rcases ih with ⟨he, hn⟩ | ⟨j, b, hj, hb, he⟩
      · refine .inl ⟨he, fun j hj => ?_⟩
        rcases List.mem_cons.1 hj with rfl | hj
        · exact hc
        · exact hn j hj
      · exact .inr ⟨j, b, hj, hb, he⟩

theorem lt_of_enter {ps : List Placed} {fuel : Nat} (hd : ∀ p ∈ ps, p.scope.length < fuel + 1)
    (hn : ∀ p ∈ ps, p.scope ≠ []) : ∀ p ∈ ps.map (·.enter), p.scope.length < fuel := by
  intro p hp
  obtain ⟨q, hq, rfl⟩ := List.mem_map.1 hp
  have h1 := hd q hq
  have h2 := List.length_pos_iff.2 (hn q hq)
  rw [Placed.enter, List.length_drop]
  omega

/-- What holds of one level of the fold where it holds of the level below. -/
theorem drive_of_run {k : Knowledge} {fuel : Nat} {run : Run} {part : List Statement}
    (ih : ∀ {ps : List Placed} {body : List Statement}, Yields (foldPlaced k fuel ps) body →
      (∀ p ∈ ps, p.scope.length < fuel) → Uniform ps → driveAll d body = driveEvents d ps)
    (h : RunOf k fuel run part) (hf : run.Fits) (hd : ∀ p ∈ run.items, p.scope.length < fuel + 1)
    (hu : Uniform run.items) : driveAll d part = driveEvents d run.items := by
  cases h with
  | single p =>
    have hreach : p.reached d = true := by simp [Placed.reached, show p.scope = [] from hf]
    simp [driveEvents, Run.items, Placed.trace, hreach]
  | @loop r first rest body head hk hm hb _ =>
    have hhead := hf.head hu
    rw [hk] at hhead
    have hbody := ih hb (lt_of_enter hd hf.scope_ne_nil) hu.enter
    rw [driveAll, driveAll, Trace.andThen_nil, Statement.drive, hbody, Run.items,
      driveEvents_loop hhead]
  | @alt r first rest branches sequence hk hm hb =>
    have hhead := hf.head hu
    rw [hk] at hhead
    rw [driveAll, driveAll, Trace.andThen_nil, Statement.drive, Run.items]
    rcases driveBranches_of (d.branch r.block) (fun _ _ h => h.1) hb with
      ⟨he, hnone⟩ | ⟨index, b, hchosen, ⟨-, -, hbody⟩, he⟩
    · rw [he, driveEvents_none hhead hnone]
    · have hsub : inBranch (first :: rest) index ⊆ first :: rest := List.filter_subset_self _
      have hdeep := lt_of_enter (fun p hp => hd p (hsub hp)) fun p hp =>
        hf.scope_ne_nil p (hsub hp)
      rw [he, ih hbody hdeep (hu.subset hsub).enter, driveEvents_taken hhead hchosen]

/-- **The fold keeps what is done**: a driven run of the body does what the events do that are
reached, in order. -/
theorem drive_of_fold {k : Knowledge} : ∀ {fuel : Nat} {ps : List Placed} {body : List Statement},
    Yields (foldPlaced k fuel ps) body → (∀ p ∈ ps, p.scope.length < fuel) → Uniform ps →
      driveAll d body = driveEvents d ps
  | 0, ps, body, h, hd, _ => by
    obtain rfl := yields_pure h
    cases ps with
    | nil => rfl
    | cons p ps => exact absurd (hd p (.head _)) (Nat.not_lt_zero _)
  | fuel + 1, ps, body, h, hd, hu => by
    obtain ⟨parts, rfl, hparts⟩ := folds_succ h
    have hitems := items_runs (Nat.le_refl ps.length)
    have hall := (List.forall₂_and_left (p := fun run => run.Fits ∧ run.items ⊆ ps) _ _).2
      ⟨fun run hr => ⟨fits_runs run hr, (sublist_of_run hr).subset⟩, hparts⟩
    have hmap := forall₂_map (f := fun run => driveEvents d run.items) (g := driveAll d) hall
      fun run part ⟨⟨hf, hs⟩, hr⟩ =>
        (drive_of_run (fun h hd hu => drive_of_fold h hd hu) hr hf (fun p hp => hd p (hs hp))
          (hu.subset hs)).symm
    rw [driveAll_flatten, ← hmap]
    conv_rhs => rw [driveEvents, ← hitems, Trace.chain_flatMap]
    rfl

end

/-! ## Ties -/

/-- Events in order of their moments. -/
def Timed (ps : List Placed) : Prop :=
  ps.Pairwise fun p q => p.event.moment ≤ q.event.moment

/-- An event inside some block is in a run of a block that begins no later. -/
theorem exists_run : ∀ {fuel : Nat} {ps : List Placed}, ps.length ≤ fuel → Timed ps →
    ∀ q ∈ ps, q.scope ≠ [] → ∃ r first rest, .block r first rest ∈ runs fuel ps ∧ first ∈ ps ∧
      first.event.moment ≤ q.event.moment
  | _, [], _, _, q, hq, _ => by simp at hq
  | 0, _ :: _, hl, _, _, _, _ => by simp at hl
  | fuel + 1, p :: ps, hl, ht, q, hq, hs => by
    obtain ⟨hp, ht⟩ := List.pairwise_cons.1 ht
    rw [List.length_cons] at hl
    have hl : ps.length ≤ fuel := by omega
    rcases runs_cons fuel p ps with ⟨hnil, hruns⟩ | ⟨r, own, later, -, -, -, hruns⟩
    all_goals rw [hruns]
    · have hq : q ∈ ps := (List.mem_cons.1 hq).resolve_left fun he => hs (he ▸ hnil)
      obtain ⟨r, first, rest, hr, hf, hm⟩ := exists_run hl ht q hq hs
      exact ⟨r, first, rest, .tail _ hr, .tail _ hf, hm⟩
    · refine ⟨r, p, own, .head _, .head _, ?_⟩
      rcases List.mem_cons.1 hq with rfl | hq
      · exact Int.le_refl _
      · exact hp q hq

/-- Of two events, the later one inside some block, both are in one run, or a run of a block begins
between them. -/
theorem same_run_or_between : ∀ {fuel : Nat} {ps : List Placed}, ps.length ≤ fuel → Timed ps →
    ∀ {p q : Placed}, [p, q].Sublist ps → q.scope ≠ [] →
      ∃ r first rest, .block r first rest ∈ runs fuel ps ∧ ([p, q].Sublist (first :: rest) ∨
        (p.event.moment ≤ first.event.moment ∧ first.event.moment ≤ q.event.moment))
  | _, [], _, _, p, q, hpq, _ => by simp at hpq
  | 0, _ :: _, hl, _, _, _, _, _ => by simp at hl
  | fuel + 1, x :: ps, hl, ht, p, q, hpq, hs => by
    obtain ⟨hx, htail⟩ := List.pairwise_cons.1 ht
    rw [List.length_cons] at hl
    have hl : ps.length ≤ fuel := by omega
    rcases runs_cons fuel x ps with ⟨-, hruns⟩ | ⟨r, own, later, rfl, -, -, hruns⟩
    · rw [hruns]
      rcases List.sublist_cons_iff.1 hpq with hpq | ⟨l, hl', hpq⟩
      · obtain ⟨r, first, rest, hr, h⟩ := same_run_or_between hl htail hpq hs
        exact ⟨r, first, rest, .tail _ hr, h⟩
      · obtain ⟨rfl, rfl⟩ := List.cons.inj hl'
        obtain ⟨r, first, rest, hr, hf, hm⟩ :=
          exists_run hl htail q (List.singleton_sublist.1 hpq) hs
        exact ⟨r, first, rest, .tail _ hr, .inr ⟨hx first hf, hm⟩⟩
    · rw [hruns]
      have hll : later.length ≤ fuel := by
        rw [List.length_append] at hl
        omega
      obtain ⟨-, htl, hafter⟩ := List.pairwise_append.1 htail
      have hlater : ∀ y ∈ x :: own, ∀ z ∈ later, y.event.moment ≤ z.event.moment :=
        fun y hy z hz => by
          rcases List.mem_cons.1 hy with rfl | hy
          · exact hx z (List.mem_append_right _ hz)
          · exact hafter y hy z hz
      rw [← List.cons_append] at hpq
      rcases pair_sublist_append hpq with hpq | ⟨hp, hq⟩ | hpq
      · exact ⟨r, x, own, .head _, .inl hpq⟩
      · obtain ⟨r', first, rest, hr, hf, hm⟩ := exists_run hll htl q hq hs
        exact ⟨r', first, rest, .tail _ hr, .inr ⟨hlater p hp first hf, hm⟩⟩
      · obtain ⟨r', first, rest, hr, h⟩ := same_run_or_between hll htl hpq hs
        exact ⟨r', first, rest, .tail _ hr, h⟩

/-- Two events of a run that share the branch of its block are both in a list that some body of the
run is made of. -/
theorem RunOf.below {k : Knowledge} {fuel : Nat} {r : ScopeRef} {first : Placed}
    {rest : List Placed} {part : List Statement} (h : RunOf k fuel (.block r first rest) part)
    {p q : Placed} (hpq : [p, q].Sublist (first :: rest)) {a b : ScopeRef} {as bs : List ScopeRef}
    (hp : p.scope = a :: as) (hq : q.scope = b :: bs) (hab : a.branch = b.branch) :
    ∃ qs body, [p, q].Sublist qs ∧ qs.Sublist (first :: rest) ∧
      Yields (foldPlaced k fuel (qs.map (·.enter))) body := by
  cases h with
  | loop _ _ hb _ => exact ⟨_, _, hpq, List.Sublist.refl _, hb⟩
  | alt _ _ hb =>
    obtain ⟨br, -, -, -, hbody⟩ := forall₂_left hb _ (branch_mem (hpq.subset (.head _)) hp)
    refine ⟨_, _, ?_, List.filter_sublist, hbody⟩
    have := hpq.filter fun x => x.scope.head?.any (·.branch == a.branch)
    simpa [hp, hq, hab] using this

/-- **No block begins in a tie.** An event half a step behind another does not come before one of
the same moment that lies further inside its blocks, since a block that began there would have no
place. -/
theorem no_tie {k : Knowledge} : ∀ {fuel : Nat} {ps : List Placed} {body : List Statement},
    Yields (foldPlaced k fuel ps) body → (∀ p ∈ ps, p.scope.length < fuel) → Timed ps →
      ∀ {p q : Placed}, [p, q].Sublist ps → q.event.moment = p.event.moment →
        p.event.moment % 2 = 1 → choices p.scope <+: choices q.scope →
          q.scope.length ≤ p.scope.length
  | 0, ps, _, _, hd, _, p, _, hpq, _, _, _ =>
    absurd (hd p (hpq.subset (.head _))) (Nat.not_lt_zero _)
  | fuel + 1, ps, body, h, hd, ht, p, q, hpq, hm, hodd, hpre => by
    obtain ⟨parts, rfl, hparts⟩ := folds_succ h
    by_contra hlen
    have hs : q.scope ≠ [] := fun hnil => by simp [hnil] at hlen
    obtain ⟨r, first, rest, hr, hrun⟩ := same_run_or_between (Nat.le_refl _) ht hpq hs
    obtain ⟨part, -, hpart⟩ := forall₂_left hparts _ hr
    rcases hrun with hrun | ⟨h1, h2⟩
    · have hfits : (Run.block r first rest).Fits := fits_runs _ hr
      obtain ⟨a, as, hp, -⟩ := Placed.head_of_isIn (hfits.2 p (hrun.subset (.head _)))
      obtain ⟨b, bs, hq, -⟩ := Placed.head_of_isIn (hfits.2 q (hrun.subset (.tail _ (.head _))))
      rw [hp, hq] at hpre
      obtain ⟨hchoice, hrest⟩ := List.cons_prefix_cons.1 hpre
      obtain ⟨qs, body, hqs, hsubq, hbody⟩ := hpart.below hrun hp hq (congrArg Prod.snd hchoice)
      have hsubps : qs.Sublist ps := hsubq.trans (sublist_of_run hr)
      have htq : Timed (qs.map (·.enter)) :=
        List.pairwise_map.2 ((List.Pairwise.sublist hsubps ht).imp fun {x y} hxy => hxy)
      have hdeep := lt_of_enter (fun x hx => hd x (hsubps.subset hx)) fun x hx =>
        hfits.scope_ne_nil x (hsubq.subset hx)
      have hle := no_tie (p := p.enter) (q := q.enter) hbody hdeep htq (hqs.map Placed.enter) hm
        hodd (by simpa [Placed.enter, hp, hq, choices] using hrest)
      simp only [Placed.enter, hp, hq, List.drop_succ_cons, List.drop_zero] at hle
      rw [hp, hq, List.length_cons, List.length_cons] at hlen
      omega
    · -- a block that begins between them would begin at an odd moment
      have heven := hpart.even
      omega

end Lifeline.Code
