import Lifeline.Code.Tree
import Lifeline.Tests.Tree

/-!
# Driven runs

What an implemented method does when the setup of a group runs it. The group drives the run
(`Group.drive`): it decides the branch of every conditional and which calls raise. Statements run in
order, loop bodies once, and the run stops at the first return, raise or call that raises
(`Statement.drive`, `driveAll`). What happens is a `Trace`; traces follow each other by
`Trace.andThen`.
-/

namespace Lifeline.Code

/-- How a driven run ends. -/
inductive Ending where
  | finished
  | returned (s : ReturnStatement)
  | raised (s : RaiseStatement)
  /-- A call whose stub raises. -/
  | passedOn (s : CallStatement)
deriving Repr, DecidableEq

/-- The calls that a driven run makes, in order, and how it ends. -/
structure Trace where
  calls : List CallStatement := []
  ending : Ending := .finished
deriving Repr, DecidableEq

namespace Trace

/-- One run after another, which does not happen where the first one stops. -/
def andThen (a b : Trace) : Trace :=
  match a.ending with
  | .finished => { calls := a.calls ++ b.calls, ending := b.ending }
  | _ => a

@[simp] theorem andThen_nil (a : Trace) : a.andThen {} = a := by
  obtain ⟨calls, ending⟩ := a
  cases ending <;> simp [andThen]

@[simp] theorem nil_andThen (a : Trace) : ({} : Trace).andThen a = a := by
  simp [andThen]

theorem andThen_assoc (a b c : Trace) : (a.andThen b).andThen c = a.andThen (b.andThen c) := by
  obtain ⟨calls, ending⟩ := a
  obtain ⟨calls', ending'⟩ := b
  cases ending <;> cases ending' <;> simp [andThen]

/-- Traces that follow each other. -/
def chain (ts : List Trace) : Trace := ts.foldr andThen {}

@[simp] theorem chain_nil : chain [] = {} := rfl

@[simp] theorem chain_cons (t : Trace) (ts : List Trace) : chain (t :: ts) = t.andThen (chain ts) :=
  rfl

theorem chain_append (ts us : List Trace) : chain (ts ++ us) = (chain ts).andThen (chain us) := by
  induction ts with
  | nil => simp
  | cons t ts ih => rw [List.cons_append, chain_cons, ih, chain_cons, andThen_assoc]

theorem mem_calls_andThen {a b : Trace} {s : CallStatement} :
    s ∈ (a.andThen b).calls ↔ s ∈ a.calls ∨ a.ending = .finished ∧ s ∈ b.calls := by
  rw [andThen]
  split <;> simp_all

theorem ending_andThen {a b : Trace} {e : Ending} (he : e ≠ .finished) :
    (a.andThen b).ending = e ↔ a.ending = e ∨ a.ending = .finished ∧ b.ending = e := by
  rw [andThen]
  split <;> simp_all [eq_comm]

/-- What shows in a chain shows in a part before which nothing stops. -/
theorem chain_iff {α : Type} {f : α → Trace} {P : Trace → Prop} (hnil : ¬ P {})
    (hthen : ∀ a b : Trace, P (a.andThen b) ↔ P a ∨ a.ending = .finished ∧ P b) :
    ∀ {xs : List α}, P (chain (xs.map f)) ↔
      ∃ A x B, xs = A ++ x :: B ∧ (∀ y ∈ A, (f y).ending = .finished) ∧ P (f x)
  | [] => by simpa using hnil
  | x :: xs => by
    rw [List.map_cons, chain_cons, hthen, chain_iff hnil hthen]
    constructor
    · rintro (hs | ⟨hx, A, y, B, rfl, hA, hs⟩)
      · exact ⟨[], x, xs, rfl, by simp, hs⟩
      · exact ⟨x :: A, y, B, rfl, by simpa [hx] using hA, hs⟩
    · rintro ⟨A, y, B, h, hA, hs⟩
      cases A with
      | nil =>
        obtain ⟨rfl, rfl⟩ := List.cons.inj h
        exact .inl hs
      | cons a A =>
        obtain ⟨rfl, rfl⟩ := List.cons.inj h
        exact .inr ⟨hA _ (.head _), A, y, B, rfl, fun z hz => hA z (.tail _ hz), hs⟩

/-- A call is made in a chain where it is made in a part before which nothing stops. -/
theorem mem_calls_chain {α : Type} {f : α → Trace} {s : CallStatement} {xs : List α} :
    s ∈ (chain (xs.map f)).calls ↔
      ∃ A x B, xs = A ++ x :: B ∧ (∀ y ∈ A, (f y).ending = .finished) ∧ s ∈ (f x).calls :=
  chain_iff (P := fun t => s ∈ t.calls) (by simp) fun _ _ => mem_calls_andThen

/-- A chain stops as the first part does that stops. -/
theorem ending_chain {α : Type} {f : α → Trace} {e : Ending} (he : e ≠ .finished) {xs : List α} :
    (chain (xs.map f)).ending = e ↔
      ∃ A x B, xs = A ++ x :: B ∧ (∀ y ∈ A, (f y).ending = .finished) ∧ (f x).ending = e :=
  chain_iff (P := fun t => t.ending = e) (fun h => he h.symm) fun _ _ => ending_andThen he

end Trace

/-- What decides a run: the branch that each conditional takes, and the calls that raise, by their
sequence. -/
structure Drive where
  branch : Int → Option Int
  raises : Int → Bool

mutual

/-- The driven run of a statement. -/
def Statement.drive (d : Drive) : Statement → Trace
  | .call s => { calls := [s], ending := if d.raises s.sequence then .passedOn s else .finished }
  | .return s => { ending := .returned s }
  | .raise s => { ending := .raised s }
  | .conditional block branches _ => driveBranches d (d.branch block) branches
  | .iteration _ body => driveAll d body

/-- The driven run of some statements. -/
def driveAll (d : Drive) : List Statement → Trace
  | [] => {}
  | s :: rest => (s.drive d).andThen (driveAll d rest)

/-- The driven run of a conditional that takes the branch of index `chosen`, where there is one. -/
def driveBranches (d : Drive) (chosen : Option Int) : List (BranchHead × List Statement) → Trace
  | [] => {}
  | (head, body) :: rest =>
    if chosen = some head.index then driveAll d body else driveBranches d chosen rest

end

theorem driveAll_append (d : Drive) (xs ys : List Statement) :
    driveAll d (xs ++ ys) = (driveAll d xs).andThen (driveAll d ys) := by
  induction xs with
  | nil => simp [driveAll]
  | cons s xs ih => rw [List.cons_append, driveAll, ih, driveAll, Trace.andThen_assoc]

theorem driveAll_flatten (d : Drive) (parts : List (List Statement)) :
    driveAll d parts.flatten = Trace.chain (parts.map (driveAll d)) := by
  induction parts with
  | nil => rfl
  | cons part parts ih =>
    rw [List.flatten_cons, driveAll_append, ih, List.map_cons, Trace.chain_cons]

/-- Whether a call is the one that a check verifies. -/
def CallStatement.meets (s : CallStatement) (a : Tests.CallCheck) : Bool :=
  s.sequence == a.sequence && s.mock == a.mock && s.method == a.method &&
    s.arguments == a.arguments

theorem CallStatement.sequence_of_meets {s : CallStatement} {a : Tests.CallCheck}
    (h : s.meets a = true) : s.sequence = a.sequence := by
  simp only [meets, Bool.and_eq_true, beq_iff_eq] at h
  exact h.1.1.1

/-- Whether a run makes the call that a check verifies. -/
def Trace.makes (t : Trace) (a : Tests.CallCheck) : Bool := t.calls.any (·.meets a)

/-- The body of the method of a class. -/
def Tree.body? (t : Tree) (subject method : String) : Option (List Statement) := do
  let c ← t.classes.find? (·.subject == subject)
  let m ← c.methods.find? (·.name == method)
  return m.body

end Lifeline.Code

namespace Lifeline.Tests.Group

/-- The branch of an alternative that the setup of a group takes. -/
def branchOf (g : Group) (block : Int) : Option Int :=
  (g.driven.find? (·.block == block)).map (·.branch)

/-- Whether the setup of a group gets to a scope, if nothing stops it before. -/
def drives (g : Group) (scope : List ScopeRef) : Bool :=
  scope.all fun r => r.kind != .alt || g.branchOf r.block == some r.branch

/-- How a group drives the method: along its path and its steering, with the stubs that raise. -/
def drive (g : Group) : Code.Drive where
  branch := g.branchOf
  raises n := g.stubs.any fun s => s.sequence == n && s.raises.isSome

end Lifeline.Tests.Group
