import Lifeline.Proofs.Outcome
import Lifeline.Source.TestFile
import Mathlib.Data.List.Nodup

/-!
# The lines that drive branches

The setup of a group gives the values and the helpers that decide branches what it takes
(`Renderer.lines`), and what it writes are these lines (`Renderer.setup_eq`). Of several lines for
one target the last one counts (`given?`). The setup drives a conditional into a branch (`Drives`)
where it makes every branch in front fail, and the branch itself hold, if that is decided at all.

**`drives_iff`**: it drives all conditionals exactly where every branch that is tested on the way
has a line, and no two of them ask one target for different answers (`Agreed`).
-/

set_option autoImplicit false

namespace Lifeline.Source

open Code (BranchHead LoopHead Statement)
open Tests (Group)

/-! ## Lines -/

/-- What a line of a setup is about: a value that the test holds, or a helper method. -/
inductive Target where
  | value (name : String)
  | helper (name : String)
deriving Repr, DecidableEq

def Target.isValue : Target → Bool
  | .value _ => true
  | .helper _ => false

/-- What a line gives: a truth value, or the one item of a loop. -/
inductive Given where
  | truth (b : Bool)
  | items (element : String)
deriving Repr, DecidableEq

/-- A line of a setup. -/
structure Line where
  target : Target
  given : Given
deriving Repr, DecidableEq

/-- What some lines give for a target. A later line overrides an earlier one. -/
def given? (lines : List Line) (t : Target) : Option Given :=
  (lines.reverse.find? (·.target == t)).map (·.given)

/-- What a branch is decided by, and with which truth value of it the branch is taken. -/
structure Decider where
  target : Target
  taking : Bool
deriving Repr, DecidableEq

namespace Renderer

variable (r : Renderer) (g : Group) (parameters : List String)

/-- The names that the loops of a group bind. -/
def elements : List String :=
  (g.loops.filterMap fun l => l.element.filter (!·.isEmpty)) ++ (r.helpedLoops g).map (·.1.element)

/-- What decides a branch in a test of a group: the value that its guard tests, where the group
holds it, or a helper. -/
def decider? (b : BranchHead) : Option Decider :=
  match b.test with
  | .condition expression =>
    ((if expression.isEmpty then none else b.guard).bind ValueTest.ofGuard?).bind fun test =>
      (guardedName? g (r.elements g) parameters test.root).map fun name =>
        { target := .value (name ++ test.path), taking := !test.negated }
  | .helper name => if name.isEmpty then none else some { target := .helper name, taking := true }
  | .otherwise => none

/-- The line that a branch asks for on the way to the branch that is taken. -/
def lineFor? (x : BranchHead × Int) : Option Line :=
  (r.decider? g parameters x.1).map fun d =>
    { target := d.target, given := .truth ((x.1.index == x.2) == d.taking) }

/-- The lines that the branches on the way ask for. -/
def branchLines : List Line := (r.decidedBranches g).filterMap (r.lineFor? g parameters)

/-- The lines for the helpers that loops get their items from. -/
def sourceLines : List Line :=
  (r.helpedLoops g).map fun x => { target := .helper x.2, given := .items x.1.element }

/-- The lines of a setup that drive branches and loops, in order. -/
def lines : List Line :=
  (r.branchLines g parameters).filter (·.target.isValue) ++
    ((r.branchLines g parameters).filter (!·.target.isValue) ++ r.sourceLines g)

variable {r g parameters}

theorem concat_cons (piece : String) (pieces : List String) :
    concat (piece :: pieces) = piece ++ concat pieces := by
  simp [concat, String.join_cons]

theorem write_cons {α : Type} (write : α → Writing String) (x : α) (xs : List α) :
    concat <$> (x :: xs).mapM write = do
      return (← write x) ++ (← concat <$> xs.mapM write) := by
  simp [List.mapM_cons, concat_cons]

theorem write_append {α : Type} (write : α → Writing String) (xs ys : List α) :
    concat <$> (xs ++ ys).mapM write = do
      return (← concat <$> xs.mapM write) ++ (← concat <$> ys.mapM write) := by
  have hnil : concat [] = "" := rfl
  induction xs with
  | nil => simp [hnil]
  | cons x xs ih =>
    rw [List.cons_append, write_cons, ih, write_cons]
    simp [String.append_assoc]

variable (r g parameters)

/-- How a branch comes out under the lines of the setup, where they decide it. -/
def outcome? (b : BranchHead) : Option Bool := do
  let d ← r.decider? g parameters b
  match given? (r.lines g parameters) d.target with
  | some (.truth value) => some (value == d.taking)
  | _ => none

/-- The setup drives a conditional into a branch: the branches in front of it fail, and it holds
itself, or is the last one and needs no test. -/
def Drives (heads : List BranchHead) (taken : Int) : Prop :=
  (∀ b ∈ heads, b.index < taken → r.outcome? g parameters b = some false) ∧
    ∃ b ∈ heads, b.index = taken ∧ (r.outcome? g parameters b = some true ∨
      b.test = .otherwise ∧ heads.getLast? = some b)

instance (heads : List BranchHead) (taken : Int) : Decidable (r.Drives g parameters heads taken) :=
  inferInstanceAs (Decidable (_ ∧ _))

/-- The branches that are tested on the way through some conditionals, each with the branch that is
taken. -/
def tested (nodes : List (List BranchHead × Int)) : List (BranchHead × Int) :=
  nodes.flatMap fun (heads, taken) =>
    (heads.filter fun b => b.index ≤ taken && b.test != .otherwise).map (·, taken)

/-- The conditionals that a setup passes have the branches that it takes, every branch that is
tested on the way has a line for what decides it, and no two of them ask one target for different
answers. -/
structure Agreed (nodes : List (List BranchHead × Int)) : Prop where
  present : ∀ n ∈ nodes, n.2 ∈ n.1.map (·.index)
  answered : ∀ x ∈ tested nodes, ∃ l, r.lineFor? g parameters x = some l ∧
    ∃ l' ∈ r.lines g parameters, l'.target = l.target
  agreed : ∀ x ∈ tested nodes, ∀ y ∈ tested nodes, ∀ l l', r.lineFor? g parameters x = some l →
    r.lineFor? g parameters y = some l' → l.target = l'.target → l = l'

variable {r g parameters}

theorem mem_tested {nodes : List (List BranchHead × Int)} {x : BranchHead × Int} :
    x ∈ tested nodes ↔ ∃ heads, (heads, x.2) ∈ nodes ∧ x.1 ∈ heads ∧ x.1.index ≤ x.2 ∧
      x.1.test ≠ .otherwise := by
  obtain ⟨b, taken⟩ := x
  simp only [tested, List.mem_flatMap, List.mem_map, List.mem_filter, Prod.exists, Prod.mk.injEq,
    Bool.and_eq_true, decide_eq_true_eq, bne_iff_ne]
  constructor
  · rintro ⟨heads, t, hn, b', ⟨hb, hle, htest⟩, rfl, rfl⟩
    exact ⟨heads, hn, hb, hle, htest⟩
  · rintro ⟨heads, hn, hb, hle, htest⟩
    exact ⟨heads, taken, hn, b, ⟨hb, hle, htest⟩, rfl, rfl⟩

/-- A branch comes out as it has to, exactly where the last line for what decides it is the one that
the branch asks for. -/
theorem outcome_iff {x : BranchHead × Int} :
    r.outcome? g parameters x.1 = some (x.1.index == x.2) ↔
      ∃ l, r.lineFor? g parameters x = some l ∧
        given? (r.lines g parameters) l.target = some l.given := by
  unfold outcome? lineFor?
  cases r.decider? g parameters x.1 with
  | none => simp
  | some d =>
    have hflip : ∀ a b c : Bool, (a == b) = c ↔ a = (c == b) := by decide
    cases hg : given? (r.lines g parameters) d.target with
    | none => simp [hg]
    | some given =>
      cases given with
      | truth value => simp [hg, hflip]
      | items element => simp [hg]

/-- What is given for a target is given by a line for it. -/
theorem exists_line {lines : List Line} {t : Target} :
    (∃ l ∈ lines, l.target = t) ↔ ∃ l ∈ lines, l.target = t ∧ given? lines t = some l.given := by
  refine ⟨fun ⟨l, hl, ht⟩ => ?_, fun ⟨l, hl, ht, _⟩ => ⟨l, hl, ht⟩⟩
  obtain ⟨last, hlast⟩ : ∃ last, lines.reverse.find? (·.target == t) = some last := by
    refine Option.isSome_iff_exists.1 (List.find?_isSome.2 ⟨l, List.mem_reverse.2 hl, ?_⟩)
    exact beq_iff_eq.2 ht
  refine ⟨last, List.mem_reverse.1 (List.mem_of_find?_eq_some hlast), ?_, ?_⟩
  · simpa using List.find?_some hlast
  · rw [given?, hlast, Option.map_some]

section

variable {nodes : List (List BranchHead × Int)}
  (hascending : ∀ n ∈ nodes, n.1.Pairwise fun b b' => b.index < b'.index)
  (helse : ∀ n ∈ nodes, ∀ b ∈ n.1, b.test = .otherwise → n.1.getLast? = some b)
include hascending helse

/-- The setup drives conditionals exactly where they have the branches that it takes, and every
branch that is tested on the way comes out as it has to. -/
theorem drives_iff_outcomes : (∀ n ∈ nodes, r.Drives g parameters n.1 n.2) ↔
    (∀ n ∈ nodes, n.2 ∈ n.1.map (·.index)) ∧
      ∀ x ∈ tested nodes, r.outcome? g parameters x.1 = some (x.1.index == x.2) := by
  constructor
  · intro hdrives
    refine ⟨fun n hn => ?_, fun x hx => ?_⟩
    · obtain ⟨-, b, hb, hi, -⟩ := hdrives n hn
      exact List.mem_map.2 ⟨b, hb, hi⟩
    · obtain ⟨heads, hn, hb, hle, htest⟩ := mem_tested.1 hx
      obtain ⟨hfront, b, hb', hi, htaken⟩ := hdrives _ hn
      rcases Int.lt_or_eq_of_le hle with hlt | heq
      · rw [hfront x.1 hb hlt, beq_false_of_ne (Int.ne_of_lt hlt)]
      · have hdistinct : (heads.map (·.index)).Nodup :=
          List.pairwise_map.2 ((hascending _ hn).imp fun h => Int.ne_of_lt h)
        obtain rfl : x.1 = b := List.inj_on_of_nodup_map hdistinct hb hb' (heq.trans hi.symm)
        rw [htaken.resolve_right fun h => htest h.1, beq_iff_eq.2 heq]
  · rintro ⟨hpresent, houtcome⟩ n hn
    obtain ⟨b, hb, hi⟩ := List.mem_map.1 (hpresent n hn)
    refine ⟨fun b' hb' hlt => ?_, b, hb, hi, ?_⟩
    · -- a branch with others behind it is tested
      have htest : b'.test ≠ .otherwise := by
        intro ht
        obtain ⟨front, hfront⟩ := List.getLast?_eq_some_iff.1 (helse n hn b' hb' ht)
        have hsorted := hascending n hn
        rw [hfront] at hb hsorted
        rcases List.mem_append.1 hb with hb | hb
        · have := (List.pairwise_append.1 hsorted).2.2 b hb b' (.head _)
          omega
        · rw [List.mem_singleton.1 hb] at hi
          omega
      have hx : (b', n.2) ∈ tested nodes :=
        mem_tested.2 ⟨n.1, hn, hb', Int.le_of_lt hlt, htest⟩
      rw [houtcome _ hx, beq_false_of_ne (Int.ne_of_lt hlt)]
    · by_cases ht : b.test = .otherwise
      · exact .inr ⟨ht, helse n hn b hb ht⟩
      · have hx : (b, n.2) ∈ tested nodes := mem_tested.2 ⟨n.1, hn, hb, Int.le_of_eq hi, ht⟩
        rw [houtcome _ hx, beq_iff_eq.2 hi]
        exact .inl rfl

/-- **The setup drives conditionals** exactly where the branches that are tested on the way agree,
if no other line is for what decides one of them. -/
theorem drives_iff (hlines : ∀ x ∈ tested nodes, ∀ l, r.lineFor? g parameters x = some l →
      ∀ l' ∈ r.lines g parameters, l'.target = l.target →
        ∃ y ∈ tested nodes, r.lineFor? g parameters y = some l') :
    (∀ n ∈ nodes, r.Drives g parameters n.1 n.2) ↔ r.Agreed g parameters nodes := by
  rw [drives_iff_outcomes hascending helse]
  simp only [outcome_iff]
  constructor
  · rintro ⟨hpresent, hgiven⟩
    refine ⟨hpresent, fun x hx => ?_, fun x hx y hy l l' hl hl' ht => ?_⟩
    · obtain ⟨l, hl, hlast⟩ := hgiven x hx
      unfold given? at hlast
      obtain ⟨l', hl', -⟩ := Option.map_eq_some_iff.1 hlast
      refine ⟨l, hl, l', List.mem_reverse.1 (List.mem_of_find?_eq_some hl'), ?_⟩
      simpa using List.find?_some hl'
    · obtain ⟨l₁, hl₁, hlast⟩ := hgiven x hx
      obtain ⟨l₂, hl₂, hlast'⟩ := hgiven y hy
      obtain rfl := Option.some.inj (hl₁.symm.trans hl)
      obtain rfl := Option.some.inj (hl₂.symm.trans hl')
      rw [ht, hlast'] at hlast
      cases l₁
      cases l₂
      simp_all
  · rintro ⟨hpresent, hanswered, hagreed⟩
    refine ⟨hpresent, fun x hx => ?_⟩
    obtain ⟨l, hl, hline⟩ := hanswered x hx
    obtain ⟨last, hlast, ht, hgiven⟩ := exists_line.1 hline
    obtain ⟨y, hy, hly⟩ := hlines x hx l hl last hlast ht
    obtain rfl := hagreed x hx y hy l last hl hly ht.symm
    exact ⟨l, hl, hgiven⟩

end

end Renderer

end Lifeline.Source
