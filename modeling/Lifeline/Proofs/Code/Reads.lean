import Lifeline.Proofs.Code.Calls

/-!
# Variables that generated code reads

A body is closed over some names (`closed`) when it reads no variable but these names, the elements
of the loops around the reader, and what calls in front of the reader, in its body or in a body
around it, have bound.

The same can be asked of the events that a body is made of (`Provided`): everything that is read at
an event, or at the top of a block around it, is at hand there (`AtHand`). What is at hand inside a
block is at hand further in, once the names in front of the block are given (`atHand_enter`), so the
events of a block can be taken one branch at a time (`provided_block`).

**`closed_of_fold`**: the fold of events makes a closed body if and only if everything is provided.
-/

namespace Lifeline.Tests

/-- The variable that generated code reads for a value. A literal stands for itself. -/
def ValueRef.reads (v : ValueRef) : List String :=
  match v.source with
  | .literal => []
  | _ => [v.name]

/-- The name of the element of a loop in generated code. -/
def ScopeRef.elementName (r : ScopeRef) : String := (r.element.filter (!·.isEmpty)).getD "item"

end Lifeline.Tests

namespace Lifeline.Code

open Tests (ScopeRef)

/-! ## What statements read -/

/-- The variable that a test reads: the first name of its expression, behind a negation. -/
def Test.reads : Test → List String
  | .condition expression =>
    match Text.drop? "not ".toList expression.toList with
    | some rest => [Name.root (.ofList rest)]
    | none => [Name.root expression]
  | .helper _ | .otherwise => []

/-- The variable that the items of a loop are read from. -/
def ItemSource.reads : ItemSource → List String
  | .collection path => [Name.root path]
  | .helper _ => []

/-- The variables that a call, a return or a raise reads. -/
def Statement.reads : Statement → List String
  | .call s => s.arguments.flatMap (·.reads)
  | .return s => s.value.reads
  | .raise s => s.arguments.flatMap (·.value.reads)
  | .conditional _ _ _ | .iteration _ _ => []

/-- The variable that a statement binds for those behind it. -/
def Statement.binds : Statement → List String
  | .call s => s.binding.toList
  | .return _ | .raise _ | .conditional _ _ _ | .iteration _ _ => []

mutual

/-- Whether a statement reads no variable but the given names, and what stands inside it no other
than these and those that are bound there. -/
def Statement.closed (names : List String) : Statement → Bool
  | .conditional _ branches _ => branchesClosed names branches
  | .iteration head body =>
    head.source.reads.all names.contains && closed (head.element :: names) body
  | s => s.reads.all names.contains

/-- Whether a body is closed over some names: each call binds its variable for what follows. -/
def closed (names : List String) : List Statement → Bool
  | [] => true
  | s :: rest => s.closed names && closed (s.binds ++ names) rest

/-- Whether the tests and the bodies of branches are closed over some names. -/
def branchesClosed (names : List String) : List (BranchHead × List Statement) → Bool
  | [] => true
  | (head, body) :: rest =>
    head.test.reads.all names.contains && closed names body && branchesClosed names rest

end

theorem branchesClosed_iff {names : List String} {branches : List (BranchHead × List Statement)} :
    branchesClosed names branches = true ↔
      ∀ b ∈ branches, (∀ x ∈ b.1.test.reads, x ∈ names) ∧ closed names b.2 = true := by
  induction branches with
  | nil => simp [branchesClosed]
  | cons b branches ih =>
    obtain ⟨head, body⟩ := b
    simp [branchesClosed, ih, and_assoc]

/-! ## What is at hand -/

/-- The variables that an event reads. -/
def Event.reads (e : Event) : List String := e.statement.toList.flatMap (·.reads)

/-- The variable that an event binds. -/
def Event.binds (e : Event) : List String := e.statement.toList.flatMap (·.binds)

/-- The variable that is read at the top of a block, or of a branch of it. -/
def Knowledge.headReads (k : Knowledge) (r : ScopeRef) : List String :=
  match r.kind with
  | .loop =>
    match r.element.filter (!·.isEmpty), r.collection.filter (!·.isEmpty) with
    | some _, some path => (ItemSource.collection path).reads
    | _, _ => []
  | .alt =>
    match (r.guard.filter (!·.isEmpty)).bind k.expression? with
    | some expression => (Test.condition expression).reads
    | none => []

/-- A variable is at hand behind some events and inside some blocks: it is one of the given names,
the element of a loop among the blocks, or bound by an event whose blocks are all among them and
have not been left since. -/
inductive AtHand (names : List String) (before : List Placed) (scope : List ScopeRef) (x : String) :
    Prop
  | given (h : x ∈ names)
  | element (r : ScopeRef) (hr : r ∈ scope) (hk : r.kind = .loop) (h : r.elementName = x)
  | bound (A : List Placed) (q : Placed) (B : List Placed) (hA : before = A ++ q :: B)
      (h : x ∈ q.event.binds) (hq : q.scope <+: scope) (hB : ∀ s ∈ B, q.scope <+: s.scope)

/-- What an event reads is at hand there, and what is read at the top of a block around it is at
hand in front of the block. -/
structure ProvidedAt (k : Knowledge) (names : List String) (before : List Placed) (p : Placed) :
    Prop where
  statement : ∀ x ∈ p.event.reads, AtHand names before p.scope x
  heads : ∀ S r T, p.scope = S ++ r :: T → ∀ x ∈ k.headReads r, AtHand names before S x

/-- Everything that some events read is at hand. -/
def Provided (k : Knowledge) (names : List String) (ps : List Placed) : Prop :=
  ∀ A p B, ps = A ++ p :: B → ProvidedAt k names A p

/-- Outside all blocks, a variable is at hand that is given or was bound there. -/
theorem atHand_nil {names : List String} {before : List Placed} {x : String} :
    AtHand names before [] x ↔
      x ∈ names ∨ ∃ q ∈ before, q.scope = [] ∧ x ∈ q.event.binds := by
  constructor
  · rintro (h | ⟨r, hr, -, -⟩ | ⟨A, q, B, rfl, h, hq, -⟩)
    · exact .inl h
    · cases hr
    · exact .inr ⟨q, by simp, List.prefix_nil.1 hq, h⟩
  · rintro (h | ⟨q, hq, hs, h⟩)
    · exact .given h
    · obtain ⟨A, B, rfl⟩ := List.append_of_mem hq
      exact .bound A q B rfl h (by simp [hs]) fun s _ => by simp [hs]

/-- What is bound inside blocks is not at hand outside them. -/
theorem atHand_nil_append {names : List String} {before own : List Placed} {x : String}
    (hown : ∀ q ∈ own, q.scope ≠ []) :
    AtHand names (before ++ own) [] x ↔ AtHand names before [] x := by
  rw [atHand_nil, atHand_nil]
  refine or_congr_right ⟨?_, ?_⟩
  · rintro ⟨q, hq, hs, h⟩
    exact ⟨q, (List.mem_append.1 hq).resolve_right fun hq => hown q hq hs, hs, h⟩
  · rintro ⟨q, hq, hs, h⟩
    exact ⟨q, List.mem_append_left _ hq, hs, h⟩

/-- What is bound outside all blocks is at hand from there on. -/
theorem atHand_concat {names : List String} {before : List Placed} {p : Placed} {x : String}
    (hp : p.scope = []) :
    AtHand names (before ++ [p]) [] x ↔ x ∈ p.event.binds ∨ AtHand names before [] x := by
  rw [atHand_nil, atHand_nil]
  constructor
  · rintro (hx | ⟨q, hq, hs, hx⟩)
    · exact .inr (.inl hx)
    · rcases List.mem_append.1 hq with hq | hq
      · exact .inr (.inr ⟨q, hq, hs, hx⟩)
      · obtain rfl := List.mem_singleton.1 hq
        exact .inl hx
  · rintro (hx | hx | ⟨q, hq, hs, hx⟩)
    · exact .inr ⟨p, by simp, hp, hx⟩
    · exact .inl hx
    · exact .inr ⟨q, by simp [hq], hs, hx⟩

/-- An event outside all blocks reads only what it reads itself. -/
theorem providedAt_nil {k : Knowledge} {names : List String} {before : List Placed} {p : Placed}
    (hp : p.scope = []) :
    ProvidedAt k names before p ↔ ∀ x ∈ p.event.reads, AtHand names before [] x := by
  constructor
  · intro h x hx
    exact hp ▸ h.statement x hx
  · intro h
    exact ⟨fun x hx => hp.symm ▸ h x hx, fun S r T hS => by simp [hp] at hS⟩

/-! ## Inside a block -/

/-- The element that a block binds for what is inside it. -/
def elementsOf (r : ScopeRef) : List String := if r.kind = .loop then [r.elementName] else []

section

variable {k : Knowledge} {names inner : List String} {outer own : List Placed} {r : ScopeRef}
  (hlast : ∀ l ∈ outer.getLast?, l.scope.head? ≠ some r)

include hlast in
/-- An event in front of a block none of whose own blocks has been left since has none, where the
block begins behind it. -/
theorem scope_eq_nil_of_outer {A B : List Placed} {q : Placed} {S : List ScopeRef}
    (houter : outer = A ++ q :: B) (hq : q.scope <+: r :: S) (hB : ∀ s ∈ B, q.scope <+: s.scope) :
    q.scope = [] := by
  cases hs : q.scope with
  | nil => rfl
  | cons a as =>
    rw [hs] at hq hB
    obtain ⟨rfl, -⟩ := List.cons_prefix_cons.1 hq
    exfalso
    obtain rfl | ⟨B, l, rfl⟩ := B.eq_nil_or_concat'
    · exact hlast q (by simp [houter]) (by simp [hs])
    · obtain ⟨T, hT⟩ := hB l (by simp)
      refine hlast l ?_ (by simp [← hT])
      rw [houter, ← List.cons_append, ← List.append_assoc, List.getLast?_concat]
      rfl

variable (hown : ∀ q ∈ own, q.scope.head? = some r)
  (hinner : ∀ x, x ∈ inner ↔ AtHand names outer [] x)

include hlast hown hinner

/-- What is at hand inside a block: further in, the names at hand in front of the block are given,
and its element. -/
theorem atHand_enter {S : List ScopeRef} {x : String} :
    AtHand names (outer ++ own) (r :: S) x ↔
      AtHand (elementsOf r ++ inner) (own.map (·.enter)) S x := by
  have howns : ∀ q ∈ own, q.scope = r :: q.enter.scope := fun q hq => by
    obtain ⟨rest, hrest⟩ := List.head?_eq_some_iff.1 (hown q hq)
    simp [Placed.enter, hrest]
  constructor
  · rintro (h | ⟨r', hr', hk, h⟩ | ⟨A, q, B, hcut, h, hq, hB⟩)
    · exact .given (List.mem_append_right _ ((hinner x).2 (.given h)))
    · rcases List.mem_cons.1 hr' with rfl | hr'
      · exact .given (List.mem_append_left _ (by simp [elementsOf, hk, h]))
      · exact .element r' hr' hk h
    · rcases cut_append hcut with ⟨C, houter, rfl⟩ | ⟨C, -, rfl⟩
      · have hs : q.scope = [] := scope_eq_nil_of_outer hlast houter hq fun s hs =>
          hB s (List.mem_append_left _ hs)
        have hmem : x ∈ inner := (hinner x).2 (atHand_nil.2 (.inr ⟨q, by simp [houter], hs, h⟩))
        exact .given (List.mem_append_right _ hmem)
      · rw [howns q (by simp)] at hq hB
        refine .bound (C.map (·.enter)) q.enter (B.map (·.enter)) (by simp) h
          (List.cons_prefix_cons.1 hq).2 fun s' hs' => ?_
        obtain ⟨s, hs, rfl⟩ := List.mem_map.1 hs'
        have hpre := hB s hs
        rw [howns s (by simp [hs])] at hpre
        exact (List.cons_prefix_cons.1 hpre).2
  · rintro (h | ⟨r', hr', hk, h⟩ | ⟨A, q, B, hcut, h, hq, hB⟩)
    · rcases List.mem_append.1 h with h | h
      · rw [elementsOf] at h
        split at h
        · rename_i hk
          exact .element r (.head _) hk (List.mem_singleton.1 h).symm
        · cases h
      · rcases atHand_nil.1 ((hinner x).1 h) with h | ⟨q, hq, hs, h⟩
        · exact .given h
        · obtain ⟨A, B, rfl⟩ := List.append_of_mem hq
          exact .bound A q (B ++ own) (by simp) h (by simp [hs]) fun s _ => by simp [hs]
    · exact .element r' (.tail _ hr') hk h
    · obtain ⟨A, own', rfl, rfl, hown'⟩ := List.map_eq_append_iff.1 hcut
      obtain ⟨q, B, rfl, rfl, rfl⟩ := List.map_eq_cons_iff.1 hown'
      refine .bound (outer ++ A) q B (by simp) h ?_ fun s hs => ?_
      · rw [howns q (by simp)]
        exact List.cons_prefix_cons.2 ⟨rfl, hq⟩
      · rw [howns q (by simp), howns s (by simp [hs])]
        exact List.cons_prefix_cons.2 ⟨rfl, hB _ (List.mem_map_of_mem hs)⟩

/-- What an event inside a block reads is at hand where it is further in, and the top of the block
reads what is at hand in front of it. -/
theorem providedAt_enter {p : Placed} {S : List ScopeRef} (hp : p.scope = r :: S) :
    ProvidedAt k names (outer ++ own) p ↔ (∀ x ∈ k.headReads r, x ∈ inner) ∧
      ProvidedAt k (elementsOf r ++ inner) (own.map (·.enter)) p.enter := by
  have hscope : p.enter.scope = S := by simp [Placed.enter, hp]
  have hfront : ∀ x, AtHand names (outer ++ own) [] x ↔ x ∈ inner := fun x => by
    rw [hinner, atHand_nil_append fun q hq hs => by simpa [hs] using hown q hq]
  constructor
  · intro h
    refine ⟨fun x hx => (hfront x).1 (h.heads [] r S hp x hx), fun x hx => ?_,
      fun S' r' T hS x hx => ?_⟩
    · rw [hscope, ← atHand_enter hlast hown hinner, ← hp]
      exact h.statement x hx
    · rw [← atHand_enter hlast hown hinner]
      exact h.heads (r :: S') r' T (by rw [hp, ← hscope, hS, List.cons_append]) x hx
  · rintro ⟨hhead, h⟩
    refine ⟨fun x hx => ?_, fun S' r' T hS x hx => ?_⟩
    · rw [hp, atHand_enter hlast hown hinner, ← hscope]
      exact h.statement x hx
    · rw [hp] at hS
      cases S' with
      | nil =>
        obtain ⟨rfl, -⟩ := List.cons.inj hS
        exact (hfront x).2 (hhead x hx)
      | cons a S' =>
        obtain ⟨rfl, hS'⟩ := List.cons.inj hS
        rw [atHand_enter hlast hown hinner]
        exact h.heads S' r' T (hscope.trans hS') x hx

end

/-! ## Events in good order -/

/-- References to one block are of one kind, and those to one branch of it, or to one loop, are the
same. The branches of a block come one after the other, and the events make calls, returns and
raises only. -/
structure Orderly (ps : List Placed) : Prop where
  consistent : ∀ p ∈ ps, ∀ q ∈ ps, ∀ r ∈ p.scope, ∀ r' ∈ q.scope, r.block = r'.block →
    r.kind = r'.kind ∧ (r.kind = .loop ∨ r.branch = r'.branch → r = r')
  ascending : ps.Pairwise fun p q =>
    ∀ r ∈ p.scope, ∀ r' ∈ q.scope, r.block = r'.block → r.branch ≤ r'.branch
  plain : Plain ps

theorem Orderly.sublist {ps qs : List Placed} (h : Orderly ps) (hs : qs.Sublist ps) : Orderly qs :=
  ⟨fun p hp q hq => h.consistent p (hs.subset hp) q (hs.subset hq), h.ascending.sublist hs,
    h.plain.subset hs.subset⟩

theorem Orderly.enter {ps : List Placed} (h : Orderly ps) : Orderly (ps.map (·.enter)) where
  consistent p hp q hq r hr r' hr' := by
    obtain ⟨p, hp', rfl⟩ := List.mem_map.1 hp
    obtain ⟨q, hq', rfl⟩ := List.mem_map.1 hq
    exact h.consistent p hp' q hq' r (List.mem_of_mem_drop hr) r' (List.mem_of_mem_drop hr')
  ascending := List.pairwise_map.2 (h.ascending.imp fun hpq r hr r' hr' =>
    hpq r (List.mem_of_mem_drop hr) r' (List.mem_of_mem_drop hr'))
  plain := h.plain.enter

/-- Whether the outermost block around an event is the one that is referred to, with its branch. -/
def Placed.under (r : ScopeRef) (p : Placed) : Bool := p.scope.head? == some r

theorem Placed.under_iff {r : ScopeRef} {p : Placed} :
    p.under r = true ↔ p.scope.head? = some r := by
  rw [under, beq_iff_eq]

/-- In front of an event inside a block, a branch of it begins once. -/
theorem Orderly.split {block : Int} {A B : List Placed} {p : Placed} {r : ScopeRef}
    (h : Orderly (A ++ p :: B)) (hin : ∀ q ∈ A ++ p :: B, q.isIn block = true)
    (hp : p.scope.head? = some r) :
    ∃ outer, A = outer ++ A.filter (·.under r) ∧ ∀ q ∈ outer, q.scope.head? ≠ some r := by
  induction A with
  | nil => exact ⟨[], rfl, by simp⟩
  | cons a A ih =>
    by_cases ha : a.under r = true
    · -- what follows it lies between it and the event, so in the same branch
      refine ⟨[], ?_, by simp⟩
      rw [List.nil_append, eq_comm, List.filter_eq_self]
      intro q hq
      obtain ⟨r', rest, hq', hb⟩ := Placed.head_of_isIn (hin q (by
        rcases List.mem_cons.1 hq with rfl | hq <;> simp [*]))
      rcases List.mem_cons.1 hq with rfl | hq
      · exact ha
      have hr : r ∈ p.scope := List.mem_of_mem_head? hp
      have hra : r ∈ a.scope := List.mem_of_mem_head? (Placed.under_iff.1 ha)
      have hr' : r' ∈ q.scope := by simp [hq']
      have hblock : r.block = block := Placed.block_of_isIn (hin p (by simp)) hp
      have hle : r.branch ≤ r'.branch :=
        (List.pairwise_cons.1 h.ascending).1 q (by simp [hq]) r hra r' hr' (hblock.trans hb.symm)
      have hge : r'.branch ≤ r.branch :=
        (List.pairwise_append.1 (List.pairwise_cons.1 h.ascending).2).2.2 q hq p (.head _) r' hr' r
          hr (hb.trans hblock.symm)
      have heq : r' = r := (h.consistent q (by simp [hq]) p (by simp) r' hr' r hr
        (hb.trans hblock.symm)).2 (.inr (by omega))
      rw [Placed.under_iff, hq', heq, List.head?_cons]
    · obtain ⟨outer, hA, houter⟩ := ih (h.sublist (List.sublist_cons_self _ _))
        fun q hq => hin q (.tail _ hq)
      refine ⟨a :: outer, ?_, fun q hq => ?_⟩
      · rw [List.filter_cons_of_neg ha, List.cons_append, ← hA]
      · rcases List.mem_cons.1 hq with rfl | hq
        · exact fun he => ha (Placed.under_iff.2 he)
        · exact houter q hq

/-- The events of a branch of a block are those under one reference. -/
theorem Orderly.inBranch_eq {block : Int} {ps : List Placed} {p : Placed} {r : ScopeRef}
    (h : Orderly ps) (hin : ∀ q ∈ ps, q.isIn block = true) (hp : p ∈ ps)
    (hr : p.scope.head? = some r) : inBranch ps r.branch = ps.filter (·.under r) := by
  refine List.filter_congr fun q hq => ?_
  obtain ⟨a, S, hq', hb⟩ := Placed.head_of_isIn (hin q hq)
  obtain ⟨a', S', hp', hb'⟩ := Placed.head_of_isIn (hin p hp)
  obtain rfl : a' = r := by simpa [hp'] using hr
  have heq := (h.consistent q hq p hp a (by simp [hq']) a' (by simp [hp']) (hb.trans hb'.symm)).2
  rw [Bool.eq_iff_iff]
  simp only [hq', List.head?_cons, Option.any_some, beq_iff_eq, Placed.under, Option.some.injEq]
  exact ⟨fun he => heq (.inr he), fun he => he ▸ rfl⟩

section

variable {k : Knowledge} {names inner : List String} {before : List Placed}
  (hinner : ∀ x, x ∈ inner ↔ AtHand names before [] x)
include hinner

/-- **The events of a block** read what is at hand if and only if, for each branch of it, the top of
the branch reads what is at hand in front of the block, and further in the events of the branch read
what is at hand there. -/
theorem provided_block {block : Int} {ps : List Placed} (h : Orderly ps)
    (hin : ∀ p ∈ ps, p.isIn block = true) (hlast : ∀ l ∈ before.getLast?, l.isIn block = false) :
    (∀ A p B, ps = A ++ p :: B → ProvidedAt k names (before ++ A) p) ↔
      ∀ r, (∃ p ∈ ps, p.scope.head? = some r) → (∀ x ∈ k.headReads r, x ∈ inner) ∧
        Provided k (elementsOf r ++ inner) ((ps.filter (·.under r)).map (·.enter)) := by
  -- at each event, the events in front of it that are in its branch are those further in
  have hcut : ∀ {A p B r}, ps = A ++ p :: B → p.scope.head? = some r →
      (ProvidedAt k names (before ++ A) p ↔ (∀ x ∈ k.headReads r, x ∈ inner) ∧
        ProvidedAt k (elementsOf r ++ inner) ((A.filter (·.under r)).map (·.enter)) p.enter) := by
    intro A p B r hps hp
    subst hps
    obtain ⟨outer, hA, houter⟩ := h.split hin hp
    obtain ⟨S, hS⟩ := List.head?_eq_some_iff.1 hp
    have hout : ∀ q ∈ outer, q.scope ≠ [] := fun q hq =>
      Placed.scope_ne_nil (hin q (by rw [hA]; simp [hq]))
    conv_lhs => rw [hA, ← List.append_assoc]
    refine providedAt_enter ?_ (fun q hq => Placed.under_iff.1 (List.mem_filter.1 hq).2) ?_ hS
    · intro l hl he
      obtain rfl | ⟨outer, z, rfl⟩ := outer.eq_nil_or_concat'
      · have hlin : l.isIn block = false := hlast l (by simpa using hl)
        have hpin : p.isIn block = true := hin p (by simp)
        rw [Placed.isIn, he, ← hp, ← Placed.isIn, hpin] at hlin
        cases hlin
      · obtain rfl : z = l := by simpa [← List.append_assoc] using hl
        exact houter z (by simp) he
    · intro x
      rw [hinner, atHand_nil_append hout]
  constructor
  · rintro hall r ⟨p, hp, hr⟩
    obtain ⟨A, B, hps⟩ := List.append_of_mem hp
    refine ⟨((hcut hps hr).1 (hall A p B hps)).1, fun X p' Y hXY => ?_⟩
    obtain ⟨X, rest, hfilter, rfl, hrest⟩ := List.map_eq_append_iff.1 hXY
    obtain ⟨p', Y, rfl, rfl, rfl⟩ := List.map_eq_cons_iff.1 hrest
    obtain ⟨A, B, hps, rfl, hr⟩ := Model.cut_of_filter hfilter
    exact ((hcut hps (Placed.under_iff.1 hr)).1 (hall A p' B hps)).2
  · intro hall A p B hps
    have hp : p ∈ ps := by simp [hps]
    obtain ⟨r, rest, hr, -⟩ := Placed.head_of_isIn (hin p hp)
    have hhead : p.scope.head? = some r := by simp [hr]
    obtain ⟨hreads, hprovided⟩ := hall r ⟨p, hp, hhead⟩
    refine (hcut hps hhead).2 ⟨hreads, hprovided _ _ ((B.filter (·.under r)).map (·.enter)) ?_⟩
    rw [hps, List.filter_append, List.filter_cons_of_pos (Placed.under_iff.2 hhead),
      List.map_append, List.map_cons]

end

/-! ## Tops of blocks -/

theorem loopHead_reads {k : Knowledge} {r : ScopeRef} {first : Event} {head : LoopHead}
    (hk : r.kind = .loop) (h : Yields (k.loopHead r first) head) :
    head.source.reads = k.headReads r ∧ head.element = r.elementName := by
  unfold Knowledge.loopHead at h
  dsimp only at h
  split at h
  · rename_i element path he hp
    obtain ⟨n, -, h⟩ := yields_bind h
    obtain rfl := yields_pure h
    simp [Knowledge.headReads, hk, he, hp, ScopeRef.elementName]
  · rename_i hnone
    obtain ⟨name, -, h⟩ := yields_bind h
    obtain ⟨-, -, h⟩ := yields_bind h
    obtain ⟨n, -, h⟩ := yields_bind h
    obtain rfl := yields_pure h
    refine ⟨?_, rfl⟩
    rw [Knowledge.headReads, hk]
    dsimp only
    split
    · rename_i element path he hp
      exact absurd hp (hnone element path he)
    · rfl

theorem testOf_reads {k : Knowledge} {block index : Int} {mayBeElse : Bool} {test : Test}
    {r : ScopeRef} (hk : r.kind = .alt)
    (h : Yields (k.testOf block index r.guard mayBeElse) test) : test.reads = k.headReads r := by
  unfold Knowledge.testOf at h
  split at h
  · rename_i hnone
    obtain rfl := yields_pure h
    simp only [Bool.and_eq_true, Option.isNone_iff_eq_none] at hnone
    simp [Knowledge.headReads, hk, hnone.1, Test.reads]
  · dsimp only at h
    cases he : (r.guard.filter (!·.isEmpty)).bind k.expression? with
    | some expression =>
      simp only [he] at h
      obtain rfl := yields_pure h
      simp [Knowledge.headReads, hk, he]
    | none =>
      simp only [he] at h
      obtain ⟨name, -, h⟩ := yields_bind h
      obtain ⟨-, -, h⟩ := yields_bind h
      obtain rfl := yields_pure h
      simp [Knowledge.headReads, hk, he, Test.reads]

/-! ## The fold -/

/-- The statement of an event reads and binds what the event does. -/
theorem closed_event {ps : List Placed} (h : Plain ps) {p : Placed} (hp : p ∈ ps)
    {names : List String} {rest : List Statement} :
    closed names (p.event.statement.toList ++ rest) = true ↔
      (∀ x ∈ p.event.reads, x ∈ names) ∧ closed (p.event.binds ++ names) rest = true := by
  cases hs : p.event.statement with
  | none => simp [Event.reads, Event.binds, hs]
  | some s =>
    have hclosed : s.closed names = s.reads.all names.contains := by
      rcases h p hp s hs with ⟨call, rfl⟩ | ⟨result, rfl⟩ | ⟨raise, rfl⟩ <;> rfl
    simp [closed, hclosed, Event.reads, Event.binds, hs]

section

variable {k : Knowledge} {fuel : Nat}
  (ih : ∀ {names : List String} {ps : List Placed} {body : List Statement},
    Yields (foldPlaced k fuel ps) body → (∀ p ∈ ps, p.scope.length < fuel) → Orderly ps →
      (closed names body = true ↔ Provided k names ps))
include ih

/-- What holds of one branch of a block where it holds of the level below: it is made of the events
under its reference, and tests its guard. -/
theorem closed_of_branch {r r' : ScopeRef} {ps : List Placed} {b : BranchHead × List Statement}
    (h : BranchOf k fuel r ps r'.branch b) (hd : ∀ p ∈ ps, p.scope.length < fuel + 1)
    (ho : Orderly ps) (hin : ∀ p ∈ ps, p.isIn r.block = true) (hk : r'.kind = .alt) {p : Placed}
    (hp : p ∈ ps) (hr' : p.scope.head? = some r') {inner : List String} :
    ((∀ x ∈ b.1.test.reads, x ∈ inner) ∧ closed inner b.2 = true) ↔
      (∀ x ∈ k.headReads r', x ∈ inner) ∧
        Provided k (elementsOf r' ++ inner) ((ps.filter (·.under r')).map (·.enter)) := by
  obtain ⟨-, ⟨mayBeElse, -, htest⟩, hbody⟩ := h
  have hfilter : inBranch ps r'.branch = ps.filter (·.under r') := ho.inBranch_eq hin hp hr'
  -- the guard of a branch is read from its first event
  have hguard : ((inBranch ps r'.branch).head?.bind (·.scope.head?)).bind (·.guard) = r'.guard := by
    rw [hfilter]
    cases hown : ps.filter (·.under r') with
    | nil => exact absurd (List.filter_eq_nil_iff.1 hown p hp) (by simp [Placed.under_iff, hr'])
    | cons q own =>
      have hq : q ∈ ps.filter (·.under r') := hown ▸ .head _
      rw [List.head?_cons, Option.bind_some, Placed.under_iff.1 (List.mem_filter.1 hq).2,
        Option.bind_some]
  rw [hguard] at htest
  rw [hfilter] at hbody
  have hsub : (ps.filter (·.under r')).Sublist ps := List.filter_sublist
  have hinside : ∀ q ∈ ps.filter (·.under r'), q.scope ≠ [] := fun q hq =>
    Placed.scope_ne_nil (hin q (hsub.subset hq))
  have hclosed : closed inner b.2 = true ↔
      Provided k inner ((ps.filter (·.under r')).map (·.enter)) :=
    ih hbody (lt_of_enter (fun q hq => hd q (hsub.subset hq)) hinside) (ho.sublist hsub).enter
  rw [testOf_reads hk htest, elementsOf, if_neg (by simp [hk]), List.nil_append, hclosed]

/-- What holds of one block of the fold where it holds of the level below. -/
theorem closed_of_block {r : ScopeRef} {first : Placed} {rest : List Placed}
    {part : List Statement} (h : RunOf k fuel (.block r first rest) part)
    (hf : (Run.block r first rest).Fits) (hd : ∀ p ∈ first :: rest, p.scope.length < fuel + 1)
    (ho : Orderly (first :: rest)) {names inner : List String} {before : List Placed}
    (hinner : ∀ x, x ∈ inner ↔ AtHand names before [] x)
    (hlast : ∀ l ∈ before.getLast?, l.isIn r.block = false) :
    ∃ s, part = [s] ∧ s.binds = [] ∧ (s.closed inner = true ↔
      ∀ A p B, first :: rest = A ++ p :: B → ProvidedAt k names (before ++ A) p) := by
  -- the events lie in one block, so their outermost references are of one kind
  have hhead : ∀ p ∈ first :: rest, ∀ r', p.scope.head? = some r' →
      r'.kind = r.kind ∧ (r.kind = .loop → r' = r) := fun p hp r' hr' => by
    have hb : r'.block = r.block := Placed.block_of_isIn (hf.2 p hp) hr'
    obtain ⟨hk, heq⟩ := ho.consistent p hp first (.head _) r' (List.mem_of_mem_head? hr') r
      (List.mem_of_mem_head? hf.1) hb
    exact ⟨hk, fun h => heq (.inl (hk.trans h))⟩
  have hblock := provided_block (k := k) hinner ho hf.2 hlast
  cases h with
  | @loop _ _ _ body head hk _ hb hh =>
    refine ⟨_, rfl, rfl, ?_⟩
    obtain ⟨hreads, helement⟩ := loopHead_reads hk hh
    have hfilter : (first :: rest).filter (·.under r) = first :: rest :=
      List.filter_eq_self.2 fun p hp => by
        obtain ⟨r', S, hp', -⟩ := Placed.head_of_isIn (hf.2 p hp)
        have hr' : p.scope.head? = some r' := by rw [hp', List.head?_cons]
        exact Placed.under_iff.2 ((hhead p hp r' hr').2 hk ▸ hr')
    have hbody : closed (r.elementName :: inner) body = true ↔
        Provided k (elementsOf r ++ inner)
          (((first :: rest).filter (·.under r)).map (·.enter)) := by
      rw [hfilter, elementsOf, if_pos hk]
      exact ih hb (lt_of_enter hd hf.scope_ne_nil) ho.enter
    simp only [hblock, Statement.closed, Bool.and_eq_true, List.all_eq_true,
      List.contains_iff_mem, helement, hreads, hbody]
    constructor
    · rintro hclosed r' ⟨p, hp, hr'⟩
      obtain rfl := (hhead p hp r' hr').2 hk
      exact hclosed
    · intro hprovided
      exact hprovided r ⟨first, .head _, hf.1⟩
  | @alt _ _ _ branches sequence hk _ hb =>
    refine ⟨_, rfl, rfl, ?_⟩
    rw [hblock, Statement.closed, branchesClosed_iff]
    constructor
    · rintro hclosed r' ⟨p, hp, hr'⟩
      obtain ⟨S, hS⟩ := List.head?_eq_some_iff.1 hr'
      obtain ⟨b, hbmem, hof⟩ := forall₂_left hb r'.branch (branch_mem hp hS)
      have hkr' : r'.kind = .alt := (hhead p hp r' hr').1.trans hk
      exact (closed_of_branch ih hof hd ho hf.2 hkr' hp hr').1 (hclosed b hbmem)
    · intro hprovided b hbmem
      obtain ⟨index, hindex, hof⟩ := forall₂_right hb b hbmem
      rw [branchesOf, mem_sortBy, List.mem_eraseDups, List.mem_filterMap] at hindex
      obtain ⟨p, hp, hpi⟩ := hindex
      obtain ⟨r', hr', rfl⟩ := Option.map_eq_some_iff.1 hpi
      have hkr' : r'.kind = .alt := (hhead p hp r' hr').1.trans hk
      exact (closed_of_branch ih hof hd ho hf.2 hkr' hp hr').2 (hprovided r' ⟨p, hp, hr'⟩)

/-- What holds of the runs of some events where it holds of the level below: the names at hand in
front of a run are those that are given or were bound outside all blocks. -/
theorem closed_of_runs : ∀ {n : Nat} {ps : List Placed} {parts : List (List Statement)}
    {names inner : List String} {before : List Placed}, ps.length ≤ n →
      List.Forall₂ (RunOf k fuel) (runs n ps) parts → (∀ p ∈ ps, p.scope.length < fuel + 1) →
        Orderly ps → (∀ x, x ∈ inner ↔ AtHand names before [] x) →
          (∀ l ∈ before.getLast?, ∀ p ∈ ps.head?, ∀ b, l.isIn b = true → p.isIn b = false) →
            (closed inner parts.flatten = true ↔
              ∀ A p B, ps = A ++ p :: B → ProvidedAt k names (before ++ A) p)
  | 0, p :: ps, _, _, _, _, hl, _, _, _, _, _ => by simp at hl
  | n, [], parts, names, inner, before, _, hparts, _, _, _, _ => by
    have hnil : runs n [] = [] := by cases n <;> rfl
    rw [hnil] at hparts
    cases hparts
    simp [closed]
  | n + 1, p :: ps, parts, names, inner, before, hl, hparts, hd, ho, hinner, hlast => by
    rw [List.length_cons] at hl
    rcases runs_cons n p ps with ⟨hp, hruns⟩ | ⟨r, own, later, rfl, hfits, hnot, hruns⟩
    all_goals
      rw [hruns] at hparts
      obtain ⟨part, parts, hpart, hafter, rfl⟩ := List.forall₂_cons_left_iff.1 hparts
      rw [List.flatten_cons]
    · -- an event outside all blocks binds for what follows
      cases hpart
      have hnext : ∀ x, x ∈ p.event.binds ++ inner ↔ AtHand names (before ++ [p]) [] x :=
        fun x => by rw [List.mem_append, hinner, atHand_concat hp]
      have hrest : closed (p.event.binds ++ inner) parts.flatten = true ↔
          ∀ A q B, ps = A ++ q :: B → ProvidedAt k names (before ++ [p] ++ A) q := by
        refine closed_of_runs (Nat.le_of_succ_le_succ hl) hafter (fun q hq => hd q (.tail _ hq))
          (ho.sublist (List.sublist_cons_self _ _)) hnext fun l hlp q _ b hb => ?_
        obtain rfl : p = l := by simpa using hlp
        simp [Placed.isIn, hp] at hb
      have hat : ProvidedAt k names before p ↔ ∀ x ∈ p.event.reads, x ∈ inner := by
        simp only [providedAt_nil hp, hinner]
      simp only [List.append_assoc, List.singleton_append] at hrest
      rw [forall_cut_cons, List.append_nil, hat, ← hrest, closed_event ho.plain (.head _)]
    · -- a block binds nothing for what follows
      rw [← List.cons_append] at hd ho ⊢
      have hown : (p :: own).Sublist (p :: own ++ later) := List.sublist_append_left _ _
      have hlater : later.Sublist (p :: own ++ later) := List.sublist_append_right _ _
      obtain ⟨s, rfl, hbinds, hclosed⟩ := closed_of_block ih hpart hfits
        (fun q hq => hd q (hown.subset hq)) (ho.sublist hown) hinner fun l hlp => by
          rw [Bool.eq_false_iff]
          intro hlin
          have hpin := hlast l hlp p rfl r.block hlin
          rw [hfits.2 p (.head _)] at hpin
          cases hpin
      have hnext : ∀ x, x ∈ inner ↔ AtHand names (before ++ p :: own) [] x := fun x => by
        rw [hinner, atHand_nil_append hfits.scope_ne_nil]
      have hll : later.length ≤ n := by
        rw [List.length_append] at hl
        omega
      have hrest : closed inner parts.flatten = true ↔
          ∀ A q B, later = A ++ q :: B → ProvidedAt k names (before ++ p :: own ++ A) q := by
        refine closed_of_runs hll hafter (fun q hq => hd q (hlater.subset hq)) (ho.sublist hlater)
          hnext fun l hlp q hq b hb => ?_
        rw [List.getLast?_append_of_ne_nil _ (by simp)] at hlp
        obtain rfl : r.block = b :=
          Placed.isIn_unique (hfits.2 l (List.mem_of_getLast? hlp)) hb
        exact hnot q hq
      simp only [List.append_assoc] at hrest
      rw [forall_cut_append, ← hclosed, ← hrest, List.singleton_append, closed, hbinds,
        Bool.and_eq_true, List.nil_append]

end

/-- **The fold makes a closed body** if and only if everything that its events read is at hand. -/
theorem closed_of_fold {k : Knowledge} : ∀ {fuel : Nat} {names : List String} {ps : List Placed}
    {body : List Statement}, Yields (foldPlaced k fuel ps) body →
      (∀ p ∈ ps, p.scope.length < fuel) → Orderly ps →
        (closed names body = true ↔ Provided k names ps)
  | 0, names, ps, body, h, hd, _ => by
    obtain rfl := yields_pure h
    cases ps with
    | nil => simp [closed, Provided]
    | cons p ps => exact absurd (hd p (.head _)) (Nat.not_lt_zero _)
  | fuel + 1, names, ps, body, h, hd, ho => by
    obtain ⟨parts, rfl, hparts⟩ := folds_succ h
    have hruns : closed names parts.flatten = true ↔
        ∀ A p B, ps = A ++ p :: B → ProvidedAt k names ([] ++ A) p :=
      closed_of_runs (fun h hd ho => closed_of_fold h hd ho) (Nat.le_refl _) hparts hd ho
        (fun x => by simp [atHand_nil]) (by simp)
    exact hruns

end Lifeline.Code
