import Lifeline.Proofs.Code.Calls

/-!
# The blocks of a body

`nodesIn around body`: the loops and the conditionals of a body, each with the statements that it
stands in. The fold makes one of every run of a block (`nodes_of_fold`), so each comes from an event
inside its block, and stands where the scope of that event says (`exists_of_mem_nodesOf`).

A block that begins twice becomes two statements. Where the blocks around events nest and are not
interrupted (`Compact`), each block becomes one (`nodup_nodesOf`), and an alternative has a branch
for each branch of it that events are in (`mem_indexes_iff`).
-/

set_option autoImplicit false

namespace Lifeline.Code

open Tests (ScopeRef)

/-! ## Reading a body -/

/-- What a block of a diagram becomes: a loop, or a conditional with the indexes of its branches. -/
inductive Node where
  | loop (block : Int)
  | conditional (block : Int) (indexes : List Int)
deriving Repr, DecidableEq

def Node.block : Node → Int
  | .loop block | .conditional block _ => block

def Node.kind : Node → FragmentKind
  | .loop _ => .loop
  | .conditional _ _ => .alt

mutual

/-- The loops and conditionals of a statement that stands in `around`. -/
def Statement.nodesWithin (around : List Surrounding) : Statement → List (List Surrounding × Node)
  | .call _ | .return _ | .raise _ => []
  | .conditional block branches _ =>
    (around, .conditional block (branches.map (·.1.index))) ::
      nodesInBranches around block branches
  | .iteration head body =>
    (around, .loop head.block) :: nodesIn (around ++ [.loop head.block]) body

/-- The loops and conditionals of some statements, in pre-order. -/
def nodesIn (around : List Surrounding) : List Statement → List (List Surrounding × Node)
  | [] => []
  | s :: rest => s.nodesWithin around ++ nodesIn around rest

def nodesInBranches (around : List Surrounding) (block : Int) :
    List (BranchHead × List Statement) → List (List Surrounding × Node)
  | [] => []
  | (head, body) :: rest =>
    nodesIn (around ++ [.branch block head.index]) body ++ nodesInBranches around block rest

end

variable {around : List Surrounding}

theorem nodesIn_append (xs ys : List Statement) :
    nodesIn around (xs ++ ys) = nodesIn around xs ++ nodesIn around ys := by
  induction xs with
  | nil => rfl
  | cons s xs ih => rw [List.cons_append, nodesIn, ih, nodesIn, List.append_assoc]

theorem nodesIn_flatten (parts : List (List Statement)) :
    nodesIn around parts.flatten = parts.flatMap (nodesIn around) := by
  induction parts with
  | nil => rfl
  | cons part parts ih => rw [List.flatten_cons, nodesIn_append, ih, List.flatMap_cons]

theorem nodesInBranches_eq (block : Int) (branches : List (BranchHead × List Statement)) :
    nodesInBranches around block branches =
      branches.flatMap fun b => nodesIn (around ++ [.branch block b.1.index]) b.2 := by
  induction branches with
  | nil => rfl
  | cons b branches ih => rw [nodesInBranches, ih, List.flatMap_cons]

theorem surroundingOf_block {r r' : ScopeRef} (h : surroundingOf r = surroundingOf r') :
    r.block = r'.block := by
  unfold surroundingOf at h
  split at h <;> split at h <;> simp_all

/-! ## Blocks of events -/

/-- What a run becomes, if it is one of a block. -/
def Run.node? : Run → Option Node
  | .single _ => none
  | .block r first rest =>
    match r.kind with
    | .loop => some (.loop r.block)
    | .alt => some (.conditional r.block (branchesOf (first :: rest)))

/-- The events inside the block of a run, with the statement that they come to stand in: those of a
loop, or those of each branch. -/
def Run.inner : Run → List (Surrounding × List Placed)
  | .single _ => []
  | .block r first rest =>
    match r.kind with
    | .loop => [(.loop r.block, (first :: rest).map (·.enter))]
    | .alt => (branchesOf (first :: rest)).map fun index =>
      (.branch r.block index, (inBranch (first :: rest) index).map (·.enter))

/-- The loops and conditionals that events become. `fuel` bounds how deep blocks are nested. -/
def nodesOf : (fuel : Nat) → List Surrounding → List Placed → List (List Surrounding × Node)
  | 0, _, _ => []
  | fuel + 1, around, ps => (runs ps.length ps).flatMap fun run =>
    run.node?.toList.map (around, ·) ++
      run.inner.flatMap fun x => nodesOf fuel (around ++ [x.1]) x.2

/-- What holds of one level of the fold where it holds of the level below. -/
theorem nodes_of_run {k : Knowledge} {fuel : Nat} {run : Run} {part : List Statement}
    (ih : ∀ {around : List Surrounding} {ps : List Placed} {body : List Statement},
      Yields (foldPlaced k fuel ps) body → Plain ps → nodesIn around body = nodesOf fuel around ps)
    (h : RunOf k fuel run part) (hp : Plain run.items) :
    nodesIn around part = run.node?.toList.map (around, ·) ++
      run.inner.flatMap fun x => nodesOf fuel (around ++ [x.1]) x.2 := by
  cases h with
  | single p =>
    cases hs : p.event.statement with
    | none => rfl
    | some s =>
      rcases hp p (.head _) s hs with ⟨call, rfl⟩ | ⟨result, rfl⟩ | ⟨raise, rfl⟩ <;> rfl
  | @loop r first rest body head hk hm hb hh =>
    simp only [nodesIn, Statement.nodesWithin, loopHead_block hh, Run.node?, Run.inner, hk,
      ih hb hp.enter]
    simp
  | @alt r first rest branches sequence hk hm hb =>
    have hindexes : branches.map (·.1.index) = branchesOf (first :: rest) := by
      rw [← forall₂_map (f := id) hb fun _ _ h => h.1.symm, List.map_id]
    have hbranches := forall₂_flatMap (f := fun index => nodesOf fuel
        (around ++ [.branch r.block index]) ((inBranch (first :: rest) index).map (·.enter)))
      (g := fun b => nodesIn (around ++ [.branch r.block b.1.index]) b.2) hb
      fun index b ⟨hi, _, hbody⟩ => by
        rw [hi, ih hbody (hp.subset (List.filter_subset_self _)).enter]
    simp only [nodesIn, Statement.nodesWithin, nodesInBranches_eq, Run.node?, Run.inner, hk,
      List.append_nil, hindexes, ← hbranches, List.flatMap_map]
    rfl

/-- **The fold makes a loop or a conditional of each run of a block.** -/
theorem nodes_of_fold {k : Knowledge} : ∀ {fuel : Nat} {around : List Surrounding}
    {ps : List Placed} {body : List Statement}, Yields (foldPlaced k fuel ps) body → Plain ps →
      nodesIn around body = nodesOf fuel around ps
  | 0, _, _, _, h, _ => by
    obtain rfl := yields_pure h
    rfl
  | fuel + 1, around, ps, body, h, hp => by
    obtain ⟨parts, rfl, hparts⟩ := folds_succ h
    have hall := (List.forall₂_and_left (p := fun run => run ∈ runs ps.length ps) _ _).2
      ⟨fun _ hr => hr, hparts⟩
    rw [nodesIn_flatten, nodesOf]
    exact (forall₂_flatMap hall fun run part ⟨hrun, hof⟩ =>
      (nodes_of_run nodes_of_fold hof (hp.subset (sublist_of_run hrun).subset)).symm).symm

/-! ## Events inside a block -/

section

variable {run : Run} (hf : run.Fits) (hu : Uniform run.items)
include hf hu

/-- An event of a run with an outermost block, what the run becomes and the part of the run that the
event is in. -/
theorem Run.Fits.node_of_mem {p : Placed} (hp : p ∈ run.items) {r : ScopeRef} {rest : List ScopeRef}
    (hs : p.scope = r :: rest) :
    (∃ node, run.node? = some node ∧ node.block = r.block ∧ node.kind = r.kind) ∧
      ∃ x ∈ run.inner, x.1 = surroundingOf r ∧ p.enter ∈ x.2 := by
  cases run with
  | single q =>
    obtain rfl := List.mem_singleton.1 hp
    exact absurd (hs.symm.trans hf) (by simp)
  | block r' first others =>
    obtain ⟨r'', rest', hs', hblock, hkind⟩ := hf.head hu p hp
    obtain ⟨rfl, rfl⟩ := List.cons.inj (hs.symm.trans hs')
    cases hk : r'.kind with
    | loop =>
      rw [hk] at hkind
      refine ⟨⟨.loop r'.block, by simp [Run.node?, hk], hblock.symm, hkind.symm⟩, ?_⟩
      refine ⟨(.loop r'.block, (first :: others).map (·.enter)), ?_, ?_, List.mem_map_of_mem hp⟩
      · rw [Run.inner, hk]
        exact .head _
      · rw [surroundingOf, hkind, hblock]
    | alt =>
      rw [hk] at hkind
      refine ⟨⟨.conditional r'.block (branchesOf (first :: others)), by simp [Run.node?, hk],
        hblock.symm, hkind.symm⟩, ?_⟩
      have hin : p ∈ inBranch (first :: others) r.branch :=
        List.mem_filter.2 ⟨hp, by simp [hs]⟩
      refine ⟨(.branch r'.block r.branch, (inBranch (first :: others) r.branch).map (·.enter)), ?_,
        ?_, List.mem_map_of_mem hin⟩
      · rw [Run.inner, hk]
        exact List.mem_map_of_mem (branch_mem hp hs)
      · rw [surroundingOf, hkind, hblock]

/-- What a run becomes is the outermost block of its events. -/
theorem Run.Fits.block_of_node {node : Node} (hn : run.node? = some node) : ∃ p ∈ run.items,
    ∃ r rest, p.scope = r :: rest ∧ node.block = r.block ∧ node.kind = r.kind := by
  cases run with
  | single => cases hn
  | block r first others =>
    obtain ⟨r', rest, hs, -⟩ := hf.head hu first (.head _)
    obtain ⟨⟨node', hn', hnode⟩, -⟩ := hf.node_of_mem hu (.head _) hs
    obtain rfl := Option.some.inj (hn.symm.trans hn')
    exact ⟨first, .head _, r', rest, hs, hnode⟩

/-- The events inside the block of a run are events of the run, in order. -/
theorem Run.Fits.inner {x : Surrounding × List Placed} (hx : x ∈ run.inner) :
    ∃ qs : List Placed, qs.Sublist run.items ∧ x.2 = qs.map (·.enter) ∧
      ∀ q ∈ qs, ∃ r rest, q.scope = r :: rest ∧ surroundingOf r = x.1 := by
  cases run with
  | single => cases hx
  | block r first rest =>
    have hhead := hf.head hu
    cases hk : r.kind with
    | loop =>
      rw [Run.inner, hk] at hx
      obtain rfl := List.mem_singleton.1 hx
      refine ⟨_, List.Sublist.refl _, rfl, fun q hq => ?_⟩
      obtain ⟨r', rest', hs, hblock, hkind⟩ := hhead q hq
      exact ⟨r', rest', hs, by rw [surroundingOf, hkind, hk, hblock]⟩
    | alt =>
      rw [Run.inner, hk] at hx
      obtain ⟨index, -, rfl⟩ := List.mem_map.1 hx
      refine ⟨_, List.filter_sublist, rfl, fun q hq => ?_⟩
      obtain ⟨hq, hbranch⟩ := List.mem_filter.1 hq
      obtain ⟨r', rest', hs, hblock, hkind⟩ := hhead q hq
      obtain rfl : r'.branch = index := by simpa [hs] using hbranch
      exact ⟨r', rest', hs, by rw [surroundingOf, hkind, hk, hblock]⟩

end

/-- The parts of a run stand in different statements. -/
theorem Run.pairwise_inner (run : Run) : run.inner.Pairwise fun x y => x.1 ≠ y.1 := by
  cases run with
  | single => exact .nil
  | block r first rest =>
    cases hk : r.kind with
    | loop =>
      rw [Run.inner, hk]
      exact List.pairwise_singleton _ _
    | alt =>
      rw [Run.inner, hk, List.pairwise_map]
      refine (branchesOf_ascending _).imp fun {i j} hlt he => ?_
      have := (Surrounding.branch.inj he).2
      omega

theorem mem_nodesOf {fuel : Nat} {ps : List Placed} {y : List Surrounding × Node} :
    y ∈ nodesOf (fuel + 1) around ps ↔ ∃ run ∈ runs ps.length ps,
      (y.1 = around ∧ run.node? = some y.2) ∨
        ∃ x ∈ run.inner, y ∈ nodesOf fuel (around ++ [x.1]) x.2 := by
  obtain ⟨a, node⟩ := y
  simp only [nodesOf, List.mem_flatMap, List.mem_append, List.mem_map, Option.mem_toList,
    Prod.mk.injEq]
  refine exists_congr fun run => and_congr_right fun _ => or_congr_left ?_
  constructor
  · rintro ⟨_, hn, rfl, rfl⟩
    exact ⟨rfl, hn⟩
  · rintro ⟨rfl, hn⟩
    exact ⟨node, hn, rfl, rfl⟩

/-- **A block of a body comes from an event inside it**, and stands where the scope of the event
says. -/
theorem exists_of_mem_nodesOf : ∀ {fuel : Nat} {around : List Surrounding} {ps : List Placed},
    Uniform ps → ∀ {y : List Surrounding × Node}, y ∈ nodesOf fuel around ps →
      ∃ p ∈ ps, ∃ A r C, p.scope = A ++ r :: C ∧ y.1 = around ++ A.map surroundingOf ∧
        y.2.block = r.block ∧ y.2.kind = r.kind
  | 0, _, _, _, _, h => by cases h
  | fuel + 1, around, ps, hu, y, h => by
    obtain ⟨run, hrun, h⟩ := mem_nodesOf.1 h
    have hsub := (sublist_of_run hrun).subset
    have hf : run.Fits := fits_runs run hrun
    rcases h with ⟨ha, hn⟩ | ⟨x, hx, h⟩
    · obtain ⟨p, hp, r, rest, hs, hnode⟩ := hf.block_of_node (hu.subset hsub) hn
      exact ⟨p, hsub hp, [], r, rest, hs, by simp [ha], hnode⟩
    · obtain ⟨qs, hqs, hx2, hheads⟩ := hf.inner (hu.subset hsub) hx
      have huq := (hu.subset (List.Subset.trans hqs.subset hsub)).enter
      obtain ⟨_, hp, A, r, C, hs, ha, hnode⟩ := exists_of_mem_nodesOf (hx2 ▸ huq) h
      rw [hx2] at hp
      obtain ⟨q, hq, rfl⟩ := List.mem_map.1 hp
      obtain ⟨r0, rest, hscope, hr0⟩ := hheads q hq
      simp only [Placed.enter, hscope, List.drop_succ_cons, List.drop_zero] at hs
      exact ⟨q, hsub (hqs.subset hq), r0 :: A, r, C, by rw [hscope, hs, List.cons_append],
        by simp [ha, hr0], hnode⟩

/-- A block that an event is inside of is there, where the scope of the event says. -/
theorem exists_mem_nodesOf : ∀ {fuel : Nat} (around : List Surrounding) {ps : List Placed},
    Uniform ps → ∀ {p : Placed}, p ∈ ps → p.scope.length < fuel → ∀ {A C : List ScopeRef}
      {r : ScopeRef}, p.scope = A ++ r :: C → ∃ node,
        (around ++ A.map surroundingOf, node) ∈ nodesOf fuel around ps ∧ node.block = r.block ∧
          node.kind = r.kind
  | 0, _, _, _, _, _, hd, _, _, _, _ => absurd hd (Nat.not_lt_zero _)
  | fuel + 1, around, ps, hu, p, hp, hd, A, C, r, hs => by
    have hitems : p ∈ (runs ps.length ps).flatMap Run.items := by
      rwa [items_runs (Nat.le_refl _)]
    obtain ⟨run, hrun, hpr⟩ := List.mem_flatMap.1 hitems
    have hsub := (sublist_of_run hrun).subset
    have hf : run.Fits := fits_runs run hrun
    cases A with
    | nil =>
      obtain ⟨⟨node, hn, hnode⟩, -⟩ := hf.node_of_mem (hu.subset hsub) hpr hs
      exact ⟨node, mem_nodesOf.2 ⟨run, hrun, .inl ⟨by simp, hn⟩⟩, hnode⟩
    | cons r0 A =>
      obtain ⟨-, x, hx, hx1, hx2⟩ := hf.node_of_mem (hu.subset hsub) hpr hs
      obtain ⟨qs, hqs, hxq, -⟩ := hf.inner (hu.subset hsub) hx
      have huq := (hu.subset (List.Subset.trans hqs.subset hsub)).enter
      have hlen : p.enter.scope.length < fuel := by
        rw [Placed.enter, List.length_drop]
        rw [hs] at hd ⊢
        simp only [List.cons_append, List.length_cons] at hd ⊢
        omega
      obtain ⟨node, hmem, hnode⟩ := exists_mem_nodesOf (around ++ [x.1]) (hxq ▸ huq) hx2
        hlen (A := A) (C := C) (r := r) (by simp [Placed.enter, hs])
      refine ⟨node, mem_nodesOf.2 ⟨run, hrun, .inr ⟨x, hx, ?_⟩⟩, hnode⟩
      simpa [hx1] using hmem

/-! ## Compact blocks -/

/-- The event is inside a block. -/
def Placed.Inside (p : Placed) (block : Int) : Prop := ∃ r ∈ p.scope, r.block = block

theorem Placed.Inside.cut {p : Placed} {block : Int} (h : p.Inside block) :
    ∃ A r C, p.scope = A ++ r :: C ∧ r.block = block := by
  obtain ⟨r, hr, hb⟩ := h
  obtain ⟨A, C, hs⟩ := List.append_of_mem hr
  exact ⟨A, r, C, hs, hb⟩

/-- Events whose blocks nest, and are not interrupted: the same statements are around a block,
wherever it is met, and what stands between two events inside a block is inside it. -/
structure Compact (ps : List Placed) : Prop where
  uniform : Uniform ps
  around : ∀ p ∈ ps, ∀ q ∈ ps, ∀ A r C A' r' C', p.scope = A ++ r :: C → q.scope = A' ++ r' :: C' →
    r.block = r'.block → A.map surroundingOf = A'.map surroundingOf
  unbroken : ∀ p q s block, [p, q, s].Sublist ps → p.Inside block → s.Inside block →
    q.Inside block

namespace Compact

variable {ps qs : List Placed}

theorem sublist (h : Compact ps) (hs : qs.Sublist ps) : Compact qs where
  uniform := h.uniform.subset hs.subset
  around p hp q hq := h.around p (hs.subset hp) q (hs.subset hq)
  unbroken p q s block hpqs := h.unbroken p q s block (hpqs.trans hs)

/-- The block of an event further in, with the one that was entered. -/
theorem cut_of_enter {p : Placed} {A C : List ScopeRef} {r : ScopeRef}
    (hs : p.enter.scope = A ++ r :: C) : ∃ r0, p.scope = r0 :: A ++ r :: C := by
  cases hp : p.scope with
  | nil => simp [Placed.enter, hp] at hs
  | cons r0 rest =>
    simp only [Placed.enter, hp, List.drop_succ_cons, List.drop_zero] at hs
    exact ⟨r0, by rw [hs, List.cons_append]⟩

theorem enter (h : Compact ps) : Compact (ps.map (·.enter)) where
  uniform := h.uniform.enter
  around p hp q hq A r C A' r' C' hs hs' hb := by
    obtain ⟨p, hp0, rfl⟩ := List.mem_map.1 hp
    obtain ⟨q, hq0, rfl⟩ := List.mem_map.1 hq
    obtain ⟨r0, hs⟩ := cut_of_enter hs
    obtain ⟨r0', hs'⟩ := cut_of_enter hs'
    exact (List.cons.inj (h.around p hp0 q hq0 _ _ _ _ _ _ hs hs' hb)).2
  unbroken p q s block hpqs hp hs := by
    obtain ⟨l, hl, he⟩ := List.sublist_map_iff.1 hpqs
    obtain ⟨p, l, rfl, rfl, hq⟩ := List.map_eq_cons_iff.1 he.symm
    obtain ⟨q, l, rfl, rfl, hs'⟩ := List.map_eq_cons_iff.1 hq
    obtain ⟨s, l, rfl, rfl, -⟩ := List.map_eq_cons_iff.1 hs'
    have hsub : [p, q, s].Sublist ps := (List.cons_sublist_cons.2 (List.cons_sublist_cons.2
      (List.cons_sublist_cons.2 (List.nil_sublist l)))).trans hl
    obtain ⟨A, r, C, hpc, rfl⟩ := hp.cut
    obtain ⟨A', r', C', hsc, hb⟩ := hs.cut
    obtain ⟨r0, hpc⟩ := cut_of_enter hpc
    obtain ⟨r0', hsc⟩ := cut_of_enter hsc
    obtain ⟨X, r1, Y, hqc, hb1⟩ := (h.unbroken p q s r.block hsub ⟨r, by simp [hpc], rfl⟩
      ⟨r', by simp [hsc], hb⟩).cut
    have haround := h.around p (hsub.subset (.head _)) q (hsub.subset (.tail _ (.head _)))
      _ _ _ _ _ _ hpc hqc hb1.symm
    cases X with
    | nil => simp at haround
    | cons r0'' X => exact ⟨r1, by simp [Placed.enter, hqc], hb1⟩

/-- Of a block there is one run. -/
theorem apart_runs : ∀ {fuel : Nat} {ps : List Placed}, Compact ps → ps.length ≤ fuel →
    (runs fuel ps).Pairwise fun run run' => ∀ p ∈ run.items, ∀ q ∈ run'.items, ∀ r C r' C',
      p.scope = r :: C → q.scope = r' :: C' → r.block ≠ r'.block
  | 0, _, _, _ => by simp [runs]
  | _ + 1, [], _, _ => by simp [runs]
  | fuel + 1, p :: ps, h, hl => by
    rw [List.length_cons] at hl
    rcases runs_cons fuel p ps with ⟨hp, hruns⟩ | ⟨r, own, later, rfl, hf, hlater, hruns⟩
    · rw [hruns, List.pairwise_cons]
      refine ⟨fun run' _ q hq q' _ r C r' C' hs => ?_,
        apart_runs (h.sublist (List.sublist_cons_self _ _)) (by omega)⟩
      obtain rfl := List.mem_singleton.1 hq
      rw [hp] at hs
      cases hs
    · have hll : later.length ≤ fuel := by
        rw [List.length_append] at hl
        omega
      rw [hruns, List.pairwise_cons]
      refine ⟨fun run' hrun' q hq q' hq' r1 C r' C' hs hs' hb => ?_, apart_runs
        (h.sublist ((List.sublist_append_right own later).trans (List.sublist_cons_self _ _))) hll⟩
      -- what follows the run begins outside its block
      have hmem : q' ∈ later := by
        rw [← items_runs hll]
        exact List.mem_flatMap.2 ⟨run', hrun', hq'⟩
      have hr1 : r1.block = r.block :=
        Placed.block_of_isIn (hf.2 q hq) (by rw [hs, List.head?_cons])
      have hin : q'.isIn r.block = true := by simp [Placed.isIn, hs', ← hb, hr1]
      cases later with
      | nil => cases hmem
      | cons y later =>
        have hy : y.isIn r.block = false := hlater y rfl
        have hq'y : q' ∈ later := (List.mem_cons.1 hmem).resolve_left fun he => by
          rw [he, hy] at hin
          cases hin
        have hsub : [p, y, q'].Sublist (p :: (own ++ y :: later)) :=
          List.cons_sublist_cons.2 ((List.cons_sublist_cons.2
            (List.singleton_sublist.2 hq'y)).trans (List.sublist_append_right own _))
        obtain ⟨rp, Cp, hps, hrp⟩ := Placed.head_of_isIn (hf.2 p (.head _))
        obtain ⟨X, ry, Y, hys, hry⟩ := (h.unbroken p y q' r.block hsub ⟨rp, by simp [hps], hrp⟩
          ⟨r', by simp [hs'], by rw [← hb, hr1]⟩).cut
        have haround := h.around p (.head _) y (hsub.subset (.tail _ (.head _))) [] rp Cp X ry Y hps
          hys (hrp.trans hry.symm)
        obtain rfl : X = [] := by simpa using haround
        rw [List.nil_append] at hys
        simp [Placed.isIn, hys, hry] at hy

/-- Events inside one block have the same statement around them, unless the block is their outermost
one. -/
theorem same_head (h : Compact ps) {p q : Placed} (hp : p ∈ ps) (hq : q ∈ ps) {r0 r0' : ScopeRef}
    {S S' : List ScopeRef} (hs : p.scope = r0 :: S) (hs' : q.scope = r0' :: S') {block : Int}
    (hpi : p.enter.Inside block) (hqi : q.Inside block) :
    surroundingOf r0' = surroundingOf r0 ∧ q.enter.Inside block := by
  obtain ⟨A, r, C, hpc, rfl⟩ := hpi.cut
  obtain ⟨A', r', C', hqc, hb⟩ := hqi.cut
  obtain ⟨r1, hpc⟩ := cut_of_enter hpc
  obtain rfl : r1 = r0 := (List.cons.inj (hpc.symm.trans hs)).1
  have haround := h.around p hp q hq _ _ _ _ _ _ hpc hqc hb.symm
  cases A' with
  | nil => simp at haround
  | cons r2 A' =>
    obtain rfl : r2 = r0' := (List.cons.inj (hqc.symm.trans hs')).1
    exact ⟨(List.cons.inj haround).1.symm, r', by simp [Placed.enter, hqc], hb⟩

/-- Events inside one block have the same outermost block. -/
theorem same_block (h : Compact ps) {p q : Placed} (hp : p ∈ ps) (hq : q ∈ ps) {block : Int}
    (hpi : p.Inside block) (hqi : q.Inside block) :
    ∃ r C r' C', p.scope = r :: C ∧ q.scope = r' :: C' ∧ r.block = r'.block := by
  obtain ⟨A, r, C, hs, rfl⟩ := hpi.cut
  obtain ⟨A', r', C', hs', hb⟩ := hqi.cut
  have haround := h.around p hp q hq _ _ _ _ _ _ hs hs' hb.symm
  cases A with
  | nil =>
    obtain rfl : A' = [] := by simpa using haround.symm
    exact ⟨r, C, r', C', hs, hs', hb.symm⟩
  | cons r0 A =>
    cases A' with
    | nil => simp at haround
    | cons r0' A' =>
      exact ⟨r0, _, r0', _, hs, hs', surroundingOf_block (List.cons.inj haround).1⟩

/-- No block is inside itself. -/
theorem not_inside_itself (h : Compact ps) {p : Placed} (hp : p ∈ ps) {r : ScopeRef}
    {S : List ScopeRef} (hs : p.scope = r :: S) : ¬ p.enter.Inside r.block := by
  intro hin
  obtain ⟨A, r', C, hcut, hb⟩ := hin.cut
  obtain ⟨r0, hcut⟩ := cut_of_enter hcut
  have haround := h.around p hp p hp [] r S _ _ _ hs hcut hb.symm
  simp at haround

/-- Events inside one block are in one run. -/
theorem mem_items (h : Compact ps) {run : Run} (hrun : run ∈ runs ps.length ps) {p q : Placed}
    (hp : p ∈ run.items) (hq : q ∈ ps) {block : Int} (hpi : p.Inside block)
    (hqi : q.Inside block) : q ∈ run.items := by
  rw [← items_runs (Nat.le_refl ps.length)] at hq
  obtain ⟨run', hrun', hq⟩ := List.mem_flatMap.1 hq
  obtain ⟨r, C, r', C', hs, hs', hb⟩ := h.same_block ((sublist_of_run hrun).subset hp)
    ((sublist_of_run hrun').subset hq) hpi hqi
  by_contra hnot
  have hne : run ≠ run' := fun he => hnot (he ▸ hq)
  rcases pair_sublist_or hne hrun hrun' with hsub | hsub
  · exact List.pairwise_iff_forall_sublist.1 (h.apart_runs (Nat.le_refl _)) hsub p hp q hq _ _ _ _
      hs hs' hb
  · exact List.pairwise_iff_forall_sublist.1 (h.apart_runs (Nat.le_refl _)) hsub q hq p hp _ _ _ _
      hs' hs hb.symm

/-- The events inside the block of a run are compact again. -/
theorem inner (h : Compact ps) {run : Run} (hrun : run ∈ runs ps.length ps)
    {x : Surrounding × List Placed} (hx : x ∈ run.inner) : Compact x.2 := by
  have hsub := sublist_of_run hrun
  obtain ⟨qs, hqs, hxq, -⟩ := Run.Fits.inner (fits_runs run hrun) (h.uniform.subset hsub.subset) hx
  rw [hxq]
  exact (h.sublist (hqs.trans hsub)).enter

/-- What stands inside the block of a run comes from an event of the run inside that block. -/
theorem exists_of_inner (h : Compact ps) {run : Run} (hrun : run ∈ runs ps.length ps)
    {x : Surrounding × List Placed} (hx : x ∈ run.inner) {fuel : Nat} {around : List Surrounding}
    {y : List Surrounding × Node} (hy : y ∈ nodesOf fuel around x.2) :
    ∃ p ∈ run.items, ∃ r S, p.scope = r :: S ∧ surroundingOf r = x.1 ∧
      p.enter.Inside y.2.block := by
  have hu := h.uniform.subset (sublist_of_run hrun).subset
  obtain ⟨q, hq, A, r, C, hs, -, hblock, -⟩ :=
    exists_of_mem_nodesOf (h.inner hrun hx).uniform hy
  obtain ⟨qs, hqs, hxq, hheads⟩ := Run.Fits.inner (fits_runs run hrun) hu hx
  rw [hxq] at hq
  obtain ⟨p, hp, rfl⟩ := List.mem_map.1 hq
  obtain ⟨r0, S, hscope, hr0⟩ := hheads p hp
  exact ⟨p, hqs.subset hp, r0, S, hscope, hr0, r, by simp [hs], hblock.symm⟩

theorem exists_enter (h : Compact ps) {run : Run} (hrun : run ∈ runs ps.length ps)
    {x : Surrounding × List Placed} (hx : x ∈ run.inner) {q : Placed} (hq : q ∈ x.2) :
    ∃ p ∈ ps, q = p.enter := by
  have hsub := (sublist_of_run hrun).subset
  obtain ⟨qs, hqs, hxq, -⟩ := Run.Fits.inner (fits_runs run hrun) (h.uniform.subset hsub) hx
  rw [hxq] at hq
  obtain ⟨p, hp, rfl⟩ := List.mem_map.1 hq
  exact ⟨p, hsub (hqs.subset hp), rfl⟩

/-- Where a block stands inside the block of a run, all events that are inside it do. -/
theorem enter_mem_inner (h : Compact ps) {run : Run} (hrun : run ∈ runs ps.length ps)
    {x : Surrounding × List Placed} (hx : x ∈ run.inner) {fuel : Nat} {around : List Surrounding}
    {y : List Surrounding × Node} (hy : y ∈ nodesOf fuel around x.2) {p : Placed} (hp : p ∈ ps)
    (hin : p.Inside y.2.block) :
    p.enter ∈ x.2 ∧ ∃ r S, p.scope = r :: S ∧ p.enter.Inside y.2.block := by
  have hsub := (sublist_of_run hrun).subset
  obtain ⟨q, hq, r0, S0, hs0, hr0, hqin⟩ := h.exists_of_inner hrun hx hy
  have hqin' : q.Inside y.2.block := by
    obtain ⟨r, hr, hblock⟩ := hqin
    exact ⟨r, List.mem_of_mem_drop hr, hblock⟩
  have hpr := h.mem_items hrun hq hp hqin' hin
  obtain ⟨-, -, r, S, -, hs, -⟩ := h.same_block (hsub hq) hp hqin' hin
  obtain ⟨hr, hpin⟩ := h.same_head (hsub hq) hp hs0 hs hqin hin
  obtain ⟨-, x', hx', hx1, hmem⟩ :=
    Run.Fits.node_of_mem (fits_runs run hrun) (h.uniform.subset hsub) hpr hs
  obtain rfl : x' = x := by
    by_contra hne
    rcases pair_sublist_or hne hx' hx with hpair | hpair
    · exact List.pairwise_iff_forall_sublist.1 run.pairwise_inner hpair (by rw [hx1, hr, hr0])
    · exact List.pairwise_iff_forall_sublist.1 run.pairwise_inner hpair (by rw [hx1, hr, hr0])
  exact ⟨hmem, r, S, hs, hpin⟩

/-- What a run becomes, and what stands inside, comes from an event of the run. -/
theorem exists_of_run (h : Compact ps) {run : Run} (hrun : run ∈ runs ps.length ps) {block : Int}
    {fuel : Nat} {around : List Surrounding}
    (hb : block ∈ (run.node?.toList.map (around, ·) ++ run.inner.flatMap fun x =>
      nodesOf fuel (around ++ [x.1]) x.2).map (·.2.block)) :
    ∃ p ∈ run.items, p.Inside block := by
  obtain ⟨y, hy, rfl⟩ := List.mem_map.1 hb
  rcases List.mem_append.1 hy with hy | hy
  · obtain ⟨node, hn, rfl⟩ := List.mem_map.1 hy
    obtain ⟨p, hp, r, rest, hs, hblock, -⟩ := Run.Fits.block_of_node (fits_runs run hrun)
      (h.uniform.subset (sublist_of_run hrun).subset) (Option.mem_toList.1 hn)
    exact ⟨p, hp, r, by simp [hs], hblock.symm⟩
  · obtain ⟨x, hx, hy⟩ := List.mem_flatMap.1 hy
    obtain ⟨p, hp, -, -, -, -, r, hr, hblock⟩ := h.exists_of_inner hrun hx hy
    exact ⟨p, hp, r, List.mem_of_mem_drop hr, hblock⟩

/-- **Each block becomes one statement** where the blocks of the events are compact. -/
theorem nodup_nodesOf : ∀ {fuel : Nat} {around : List Surrounding} {ps : List Placed},
    Compact ps → ((nodesOf fuel around ps).map (·.2.block)).Nodup
  | 0, _, _, _ => .nil
  | fuel + 1, around, ps, h => by
    rw [nodesOf, List.map_flatMap, List.nodup_flatMap]
    refine ⟨fun run hrun => ?_, ?_⟩
    · have hsub := (sublist_of_run hrun).subset
      rw [List.map_append, List.map_flatMap, List.nodup_append']
      refine ⟨?_, List.nodup_flatMap.2 ⟨fun x hx => nodup_nodesOf (h.inner hrun hx), ?_⟩, ?_⟩
      · cases run.node? <;> simp
      · -- two branches of a run hold different blocks
        refine run.pairwise_inner.imp_of_mem fun {x x'} hx hx' hne block hb hb' => hne ?_
        obtain ⟨y, hy, rfl⟩ := List.mem_map.1 hb
        obtain ⟨y', hy', he⟩ := List.mem_map.1 hb'
        obtain ⟨p, hp, r, S, hs, hr, hin⟩ := h.exists_of_inner hrun hx hy
        obtain ⟨q, hq, r', S', hs', hr', hin'⟩ := h.exists_of_inner hrun hx' hy'
        rw [← hr, ← hr', ← (h.same_head (hsub hp) (hsub hq) hs hs' hin ?_).1]
        obtain ⟨r1, hr1, hblock⟩ := hin'
        exact ⟨r1, List.mem_of_mem_drop hr1, hblock.trans he⟩
      · -- the block of the run is not inside itself
        intro block hb hb'
        obtain ⟨⟨_, node⟩, hnode, rfl⟩ := List.mem_map.1 hb
        obtain ⟨node', hn, hpair⟩ := List.mem_map.1 hnode
        obtain rfl : node' = node := (Prod.mk.inj hpair).2
        obtain ⟨x, hx, hb'⟩ := List.mem_flatMap.1 hb'
        obtain ⟨y, hy, hyb⟩ := List.mem_map.1 hb'
        obtain ⟨q, hq, r', S', hs', -, hin⟩ := h.exists_of_inner hrun hx hy
        obtain ⟨p, hp, r, S, hs, hblock, -⟩ := Run.Fits.block_of_node (fits_runs run hrun)
          (h.uniform.subset hsub) (Option.mem_toList.1 hn)
        have hinside := (h.same_head (hsub hq) (hsub hp) hs' hs hin
          ⟨r, by simp [hs], hblock.symm.trans hyb.symm⟩).2
        rw [hyb, hblock] at hinside
        exact h.not_inside_itself (hsub hp) hs hinside
    · refine (h.apart_runs (Nat.le_refl _)).imp_of_mem fun {run run'} hrun hrun' hne block hb hb' => ?_
      obtain ⟨p, hp, hin⟩ := h.exists_of_run hrun hb
      obtain ⟨q, hq, hin'⟩ := h.exists_of_run hrun' hb'
      obtain ⟨r, C, r', C', hs, hs', hblock⟩ := h.same_block ((sublist_of_run hrun).subset hp)
        ((sublist_of_run hrun').subset hq) hin hin'
      exact hne p hp q hq _ _ _ _ hs hs' hblock

/-- The branches of the block of a run. -/
theorem mem_indexes_of_node (h : Compact ps) {run : Run} (hrun : run ∈ runs ps.length ps)
    {block : Int} {indexes : List Int} (hn : run.node? = some (.conditional block indexes)) :
    indexes.Pairwise (· < ·) ∧ ∀ index, index ∈ indexes ↔
      ∃ p ∈ ps, ∃ r ∈ p.scope, r.block = block ∧ r.branch = index := by
  have hsub := (sublist_of_run hrun).subset
  have hf : run.Fits := fits_runs run hrun
  cases run with
  | single => cases hn
  | block r first rest =>
    cases hk : r.kind with
    | loop => simp [Run.node?, hk] at hn
    | alt =>
      simp only [Run.node?, hk, Option.some.injEq, Node.conditional.injEq] at hn
      obtain ⟨rfl, rfl⟩ := hn
      refine ⟨branchesOf_ascending _, fun index => ⟨fun hi => ?_, ?_⟩⟩
      · rw [branchesOf, mem_sortBy, List.mem_eraseDups, List.mem_filterMap] at hi
        obtain ⟨p, hp, hi⟩ := hi
        obtain ⟨r', S, hs, hblock⟩ := Placed.head_of_isIn (hf.2 p hp)
        rw [hs] at hi
        exact ⟨p, hsub hp, r', by simp [hs], hblock, Option.some.inj hi⟩
      · rintro ⟨p, hp, r', hr', hblock, rfl⟩
        obtain ⟨rf, Sf, hsf, hbf⟩ := Placed.head_of_isIn (hf.2 first (.head _))
        have hpr : p ∈ first :: rest := h.mem_items hrun (.head _) hp ⟨rf, by simp [hsf], hbf⟩
          ⟨r', hr', hblock⟩
        obtain ⟨r'', S, hs, hblock'⟩ := Placed.head_of_isIn (hf.2 p hpr)
        rw [hs] at hr'
        rcases List.mem_cons.1 hr' with rfl | hr'
        · exact branch_mem hpr hs
        · exact absurd ⟨r', by simpa [Placed.enter, hs] using hr', hblock.trans hblock'.symm⟩
            (h.not_inside_itself hp hs)

/-- **The branches of a conditional** are those that events are in. -/
theorem mem_indexes_iff : ∀ {fuel : Nat} {around : List Surrounding} {ps : List Placed},
    Compact ps → ∀ {a : List Surrounding} {block : Int} {indexes : List Int},
      (a, Node.conditional block indexes) ∈ nodesOf fuel around ps →
        indexes.Pairwise (· < ·) ∧ ∀ index, index ∈ indexes ↔
          ∃ p ∈ ps, ∃ r ∈ p.scope, r.block = block ∧ r.branch = index
  | 0, _, _, _, _, _, _, hy => by cases hy
  | fuel + 1, around, ps, h, a, block, indexes, hy => by
    obtain ⟨run, hrun, ⟨-, hn⟩ | ⟨x, hx, hy⟩⟩ := mem_nodesOf.1 hy
    · exact h.mem_indexes_of_node hrun hn
    · obtain ⟨hascending, hindexes⟩ := mem_indexes_iff (h.inner hrun hx) hy
      refine ⟨hascending, fun index => (hindexes index).trans ⟨?_, ?_⟩⟩
      · rintro ⟨q, hq, r, hr, hblock, hbranch⟩
        obtain ⟨p, hp, rfl⟩ := h.exists_enter hrun hx hq
        exact ⟨p, hp, r, List.mem_of_mem_drop hr, hblock, hbranch⟩
      · rintro ⟨p, hp, r, hr, hblock, hbranch⟩
        obtain ⟨hq, r0, S, hs, hin⟩ := h.enter_mem_inner hrun hx hy hp ⟨r, hr, hblock⟩
        refine ⟨p.enter, hq, r, ?_, hblock, hbranch⟩
        rw [hs] at hr
        rw [Placed.enter, hs]
        refine (List.mem_cons.1 hr).resolve_left fun he => h.not_inside_itself hp hs ?_
        rwa [← he, hblock]

end Compact

end Lifeline.Code
