import Lifeline.Proofs.Code.Bodies

/-!
# The statements inside a body

`leavesIn body`: the calls, returns and raises of a body, however deep they stand. The fold loses
no statement of an event (`mem_leaves_of_fold`) and makes no other ones (`statement_of_leaf`).
-/

set_option autoImplicit false

namespace Lifeline.Code

mutual

/-- The calls, returns and raises of a statement. -/
def Statement.leaves : Statement → List Statement
  | .call s => [.call s]
  | .return s => [.return s]
  | .raise s => [.raise s]
  | .conditional _ branches _ => leavesInBranches branches
  | .iteration _ body => leavesIn body

/-- The calls, returns and raises of a body, in pre-order. -/
def leavesIn : List Statement → List Statement
  | [] => []
  | s :: rest => s.leaves ++ leavesIn rest

def leavesInBranches : List (BranchHead × List Statement) → List Statement
  | [] => []
  | (_, body) :: rest => leavesIn body ++ leavesInBranches rest

end

theorem leavesIn_append (xs ys : List Statement) :
    leavesIn (xs ++ ys) = leavesIn xs ++ leavesIn ys := by
  induction xs with
  | nil => rfl
  | cons s xs ih => rw [List.cons_append, leavesIn, ih, leavesIn, List.append_assoc]

theorem mem_leavesIn_flatten {parts : List (List Statement)} {part : List Statement}
    (hp : part ∈ parts) {s : Statement} (hs : s ∈ leavesIn part) : s ∈ leavesIn parts.flatten := by
  induction parts with
  | nil => cases hp
  | cons first parts ih =>
    rw [List.flatten_cons, leavesIn_append, List.mem_append]
    rcases List.mem_cons.1 hp with rfl | hp
    · exact .inl hs
    · exact .inr (ih hp)

theorem mem_leavesInBranches {branches : List (BranchHead × List Statement)}
    {b : BranchHead × List Statement} (hb : b ∈ branches) {s : Statement}
    (hs : s ∈ leavesIn b.2) : s ∈ leavesInBranches branches := by
  induction branches with
  | nil => cases hb
  | cons first branches ih =>
    rw [leavesInBranches, List.mem_append]
    rcases List.mem_cons.1 hb with rfl | hb
    · exact .inl hs
    · exact .inr (ih hb)

/-- A statement that is a call, a return or a raise. -/
def Statement.IsLeaf (s : Statement) : Prop := s.leaves = [s]

/-- **The fold keeps the statements** of its events. -/
theorem mem_leaves_of_fold {k : Knowledge} {s : Statement} (hleaf : s.IsLeaf) :
    ∀ {fuel : Nat} {ps : List Placed} {body : List Statement} {q : Placed},
      Yields (foldPlaced k fuel ps) body → (∀ p ∈ ps, p.scope.length < fuel) → Uniform ps →
        q ∈ ps → q.event.statement = some s → s ∈ leavesIn body
  | 0, ps, body, q, _, hd, _, hq, _ => absurd (hd q hq) (Nat.not_lt_zero _)
  | fuel + 1, ps, body, q, h, hd, hu, hq, hs => by
    obtain ⟨parts, rfl, hparts⟩ := folds_succ h
    obtain ⟨run, hrun, hqrun⟩ : ∃ run ∈ runs ps.length ps, q ∈ run.items := by
      rw [← items_runs (Nat.le_refl ps.length)] at hq
      exact List.mem_flatMap.1 hq
    have hsub : run.items ⊆ ps := (sublist_of_run hrun).subset
    have hfits := fits_runs run hrun
    obtain ⟨part, hpart, hof⟩ := forall₂_left hparts run hrun
    refine mem_leavesIn_flatten hpart ?_
    cases hof with
    | single p' =>
      obtain rfl : q = p' := List.mem_singleton.1 hqrun
      simp only [hs, Option.toList_some, leavesIn, List.append_nil]
      exact hleaf ▸ List.mem_singleton_self s
    | @loop r first rest body head hk hm hb hh =>
      rw [leavesIn, leavesIn, List.append_nil, Statement.leaves]
      exact mem_leaves_of_fold hleaf hb
        (lt_of_enter (fun p hp => hd p (hsub hp)) hfits.scope_ne_nil) (hu.subset hsub).enter
        (List.mem_map_of_mem hqrun) hs
    | @alt r first rest branches sequence hk hm hb =>
      obtain ⟨r', rest', hscope, -⟩ := hfits.head (hu.subset hsub) q hqrun
      obtain ⟨b, hbmem, -, -, hbody⟩ := forall₂_left hb r'.branch (branch_mem hqrun hscope)
      have hin : q ∈ inBranch (first :: rest) r'.branch :=
        List.mem_filter.2 ⟨hqrun, by simp [hscope]⟩
      have hsub' : inBranch (first :: rest) r'.branch ⊆ first :: rest := List.filter_subset_self _
      rw [leavesIn, leavesIn, List.append_nil, Statement.leaves]
      refine mem_leavesInBranches hbmem (mem_leaves_of_fold hleaf hbody ?_
        (hu.subset (List.Subset.trans hsub' hsub)).enter (List.mem_map_of_mem hin) hs)
      exact lt_of_enter (fun p hp => hd p (hsub (hsub' hp))) fun p hp =>
        hfits.scope_ne_nil p (hsub' hp)

theorem mem_flatten_leavesIn {parts : List (List Statement)} {s : Statement}
    (hs : s ∈ leavesIn parts.flatten) : ∃ part ∈ parts, s ∈ leavesIn part := by
  induction parts with
  | nil => cases hs
  | cons first parts ih =>
    rw [List.flatten_cons, leavesIn_append, List.mem_append] at hs
    rcases hs with hs | hs
    · exact ⟨first, .head _, hs⟩
    · obtain ⟨part, hpart, hs⟩ := ih hs
      exact ⟨part, .tail _ hpart, hs⟩

theorem exists_branch_of_leaf {branches : List (BranchHead × List Statement)} {s : Statement}
    (hs : s ∈ leavesInBranches branches) : ∃ b ∈ branches, s ∈ leavesIn b.2 := by
  induction branches with
  | nil => cases hs
  | cons first branches ih =>
    rw [leavesInBranches, List.mem_append] at hs
    rcases hs with hs | hs
    · exact ⟨first, .head _, hs⟩
    · obtain ⟨b, hb, hs⟩ := ih hs
      exact ⟨b, .tail _ hb, hs⟩

/-- **The fold makes no other statements** than those of its events. -/
theorem statement_of_leaf {k : Knowledge} {s : Statement} :
    ∀ {fuel : Nat} {ps : List Placed} {body : List Statement}, Yields (foldPlaced k fuel ps) body →
      (∀ p ∈ ps, ∀ s', p.event.statement = some s' → s'.IsLeaf) → s ∈ leavesIn body →
        ∃ p ∈ ps, p.event.statement = some s
  | 0, ps, body, h, _, hs => by
    obtain rfl := yields_pure h
    cases hs
  | fuel + 1, ps, body, h, hleaf, hs => by
    obtain ⟨parts, rfl, hparts⟩ := folds_succ h
    obtain ⟨part, hpart, hs⟩ := mem_flatten_leavesIn hs
    obtain ⟨run, hrun, hof⟩ := forall₂_right hparts part hpart
    have hsub : run.items ⊆ ps := (sublist_of_run hrun).subset
    -- what holds of the events further in holds of those of the run
    have hdeeper : ∀ {qs : List Placed} {body : List Statement}, qs ⊆ run.items →
        Yields (foldPlaced k fuel (qs.map (·.enter))) body → s ∈ leavesIn body →
          ∃ p ∈ ps, p.event.statement = some s := by
      intro qs body hqs hbody hs
      obtain ⟨p, hp, hstatement⟩ := statement_of_leaf hbody (fun p hp s' hs' => by
        obtain ⟨q, hq, rfl⟩ := List.mem_map.1 hp
        exact hleaf q (hsub (hqs hq)) s' hs') hs
      obtain ⟨q, hq, rfl⟩ := List.mem_map.1 hp
      exact ⟨q, hsub (hqs hq), hstatement⟩
    cases hof with
    | single p =>
      cases hstatement : p.event.statement with
      | none =>
        rw [hstatement] at hs
        cases hs
      | some s' =>
        have hmem : p ∈ ps := hsub (.head _)
        rw [hstatement, Option.toList_some, leavesIn, leavesIn, List.append_nil,
          hleaf p hmem s' hstatement, List.mem_singleton] at hs
        exact ⟨p, hmem, by rw [hstatement, hs]⟩
    | @loop r first rest body head hk hm hb hh =>
      rw [leavesIn, leavesIn, List.append_nil, Statement.leaves] at hs
      exact hdeeper (List.Subset.refl _) hb hs
    | @alt r first rest branches sequence hk hm hb =>
      rw [leavesIn, leavesIn, List.append_nil, Statement.leaves] at hs
      obtain ⟨b, hbranch, hs⟩ := exists_branch_of_leaf hs
      obtain ⟨index, -, -, -, hbody⟩ := forall₂_right hb b hbranch
      exact hdeeper (List.filter_subset_self _) hbody hs

/-- The body of a method has the statement of each of its events. -/
theorem Stage.mem_leaves {m : Model} {tl : Model.Timeline} {μ : Model.MethodId}
    {events : List Event} (h : Stage m tl μ events) {k : Knowledge} {body : List Statement}
    (hb : Yields (fold k (events.map (Event.settled events))) body) {e : Event} (he : e ∈ events)
    {s : Statement} (hleaf : s.IsLeaf) (hs : e.statement = some s) : s ∈ leavesIn body :=
  mem_leaves_of_fold hleaf hb Stage.lt_depth h.uniform_placed (mem_placed.2 ⟨e, he, rfl⟩)
    ((Event.settled_statement events e).trans hs)

end Lifeline.Code
