import Lifeline.Proofs.Gate.Faults
import Lifeline.Tests.Decision

/-!
# Completed tables and the gate

Rows complete a decision table exactly where `Rows.Completes` holds, and then the table is `filled`
with them (`DecisionTable.complete_ok`). Of the checks of the gate only one reads decision tables,
and of a table it reads the participant and whether its status tells of its placeholders (`Marked`).
A filled table has the participant of the table before and no placeholders
(`Rows.Completes.marked`).

**`passed_of_complete`**: a completed table in the place of the one before leaves the gate green,
and takes exactly the failure of that table from readiness.
-/

set_option autoImplicit false

namespace Lifeline.Tests

/-! ## Completing a table -/

/-- The rows for a method. -/
def Rows.own (rows : Rows) (m : DecisionMethod) : List DecisionRow := (rows.lookup m.name).getD []

/-- What rows need to complete a table. -/
structure Rows.Completes (rows : Rows) (t : DecisionTable) : Prop where
  known : ∀ key ∈ rows.map (·.1), ∃ m ∈ t.methods, m.name = key
  present : ∀ m ∈ t.methods, rows.own m ≠ []
  written : ∀ key own, rows.lookup key = some own → ∀ row ∈ own, row.placeholder = false
  fits : ∀ m ∈ t.methods, ∀ row ∈ rows.own m, row.inputs.length = m.parameters.length

/-- The method with its rows in the place of those that it has. -/
def DecisionMethod.filled (rows : Rows) (m : DecisionMethod) : DecisionMethod :=
  { m with rows := rows.own m }

/-- The table with rows in the place of those that it has. -/
def DecisionTable.filled (rows : Rows) (t : DecisionTable) : DecisionTable :=
  { t with methods := t.methods.map (·.filled rows), status := .complete }

/-- What a method is called with and gives. -/
def DecisionMethod.signature (m : DecisionMethod) : String × List String × Option String :=
  (m.name, m.parameters, m.returns)

/-- The tree with other tables. -/
def Tree.withTables (t : Tree) (tables : List DecisionTable) : Tree := { t with tables }

theorem DecisionMethod.checkRow_ok {m : DecisionMethod} {row : DecisionRow} :
    m.checkRow row = .ok () ↔
      row.placeholder = false ∧ row.inputs.length = m.parameters.length := by
  unfold DecisionMethod.checkRow
  by_cases hp : row.placeholder = true
  · simp [hp]
  · by_cases hl : row.inputs.length = m.parameters.length
    · simp [hp, hl]
    · simp [hp, hl]

theorem DecisionMethod.complete_ok {participant : String} {rows : Rows} {m m' : DecisionMethod} :
    m.complete participant rows = .ok m' ↔
      (rows.own m ≠ [] ∧ ∀ row ∈ rows.own m,
        row.placeholder = false ∧ row.inputs.length = m.parameters.length) ∧
      m.filled rows = m' := by
  unfold DecisionMethod.complete DecisionMethod.filled Rows.own
  cases hrows : rows.lookup m.name with
  | none => simp
  | some own =>
    cases own with
    | nil => simp
    | cons row rest =>
      simp only [bind_ok, forM_ok, pure_ok, exists_const, checkRow_ok, Option.getD_some,
        ne_eq, reduceCtorEq, not_false_eq_true, true_and]

theorem Rows.mem_own {rows : Rows} {m : DecisionMethod} {row : DecisionRow} :
    row ∈ rows.own m ↔ ∃ own, rows.lookup m.name = some own ∧ row ∈ own := by
  unfold Rows.own
  cases rows.lookup m.name with
  | none => simp
  | some own => simp

/-- Where every key is the name of a method, the rows of the methods are all rows. -/
theorem Rows.exists_own {rows : Rows} {t : DecisionTable}
    (hknown : ∀ key ∈ rows.map (·.1), ∃ m ∈ t.methods, m.name = key) {key : String}
    {own : List DecisionRow} (hown : rows.lookup key = some own) :
    ∃ m ∈ t.methods, rows.own m = own := by
  have hkey : key ∈ rows.map (·.1) := by
    obtain ⟨before, after, hrows, -⟩ := List.lookup_eq_some_iff.1 hown
    simp [hrows]
  obtain ⟨m, hm, rfl⟩ := hknown key hkey
  exact ⟨m, hm, by rw [Rows.own, hown, Option.getD_some]⟩

theorem Rows.known_iff {rows : Rows} {t : DecisionTable} :
    ((rows.map (·.1)).filter fun key => !t.methods.any (·.name == key)).isEmpty = true ↔
      ∀ key ∈ rows.map (·.1), ∃ m ∈ t.methods, m.name = key := by
  simp only [List.isEmpty_iff, List.filter_eq_nil_iff, Bool.not_eq_true', Bool.not_eq_false,
    List.any_eq_true, beq_iff_eq]

/-- Which rows complete a table, and what they make of it. -/
theorem DecisionTable.complete_ok {t done : DecisionTable} {rows : Rows} :
    t.complete rows = .ok done ↔ rows.Completes t ∧ t.filled rows = done := by
  unfold DecisionTable.complete
  dsimp only
  split
  · rename_i hnone
    have hknown := Rows.known_iff.1 hnone
    simp only [bind_ok, mapM_ok_iff fun _ _ => DecisionMethod.complete_ok, pure_ok]
    constructor
    · rintro ⟨_, ⟨hmethods, rfl⟩, rfl⟩
      refine ⟨{ known := hknown
                present := fun m hm => (hmethods m hm).1
                written := fun key own hown row hrow => ?_
                fits := fun m hm row hrow => ((hmethods m hm).2 row hrow).2 }, rfl⟩
      obtain ⟨m, hm, rfl⟩ := Rows.exists_own hknown hown
      exact ((hmethods m hm).2 row hrow).1
    · rintro ⟨h, rfl⟩
      refine ⟨_, ⟨fun m hm => ⟨h.present m hm, fun row hrow => ⟨?_, h.fits m hm row hrow⟩⟩, rfl⟩,
        rfl⟩
      obtain ⟨own, hown, hrow⟩ := Rows.mem_own.1 hrow
      exact h.written m.name own hown row hrow
  · rename_i hsome
    refine iff_of_false (fun h => by cases h) fun h => ?_
    exact hsome (Rows.known_iff.2 h.1.known)

/-! ## What a table says of its rows -/

/-- The status of a table tells whether a row of it is a placeholder. -/
def DecisionTable.Marked (t : DecisionTable) : Prop :=
  t.status = .pending ↔ ∃ m ∈ t.methods, ∃ row ∈ m.rows, row.placeholder = true

/-- Completed tables are marked: no row of them is a placeholder. -/
theorem Rows.Completes.marked {rows : Rows} {t : DecisionTable} (h : rows.Completes t) :
    (t.filled rows).Marked := by
  refine iff_of_false (by simp [DecisionTable.filled]) ?_
  rintro ⟨_, hm, row, hrow, hplaceholder⟩
  obtain ⟨m, -, rfl⟩ := List.mem_map.1 hm
  obtain ⟨own, hown, hrow⟩ := Rows.mem_own.1 hrow
  rw [h.written m.name own hown row hrow] at hplaceholder
  cases hplaceholder

end Lifeline.Tests

namespace Lifeline.Gate

open Tests (DecisionTable Rows Tree)

variable {t : Tree} {m : Model} {plan : Option (List Plan.Operation)}

/-! ## The checks that read tables -/

theorem tableFailures_eq_nil : tableFailures t = [] ↔
    (∀ leaf ∈ computationalLeaves t, t.tables.countP (·.participant == leaf) = 1) ∧
      ∀ d ∈ t.tables, d.Marked := by
  unfold tableFailures
  dsimp only
  rw [List.append_eq_nil_iff, List.filterMap_eq_nil_iff, List.filterMap_eq_nil_iff]
  refine and_congr (forall₂_congr fun leaf _ => by simp) (forall₂_congr fun d _ => ?_)
  unfold DecisionTable.Marked
  cases hstatus : d.status with
  | complete => simp
  | pending => simp

/-- Where a tree passes, only its tables decide whether it does with other ones. -/
theorem passed_withTables (h : (runWithPlan t m plan).passed = true) (tables : List DecisionTable) :
    (runWithPlan (t.withTables tables) m plan).passed = true ↔
      tableFailures (t.withTables tables) = [] := by
  have hnil : arrowParity t m ++ dataFlow t m ++ patternRules t m = [] :=
    passed_iff.1 (passed_of_runWithPlan h)
  simp only [patternRules, List.append_eq_nil_iff] at hnil
  obtain ⟨⟨hparity, hflow⟩, ⟨⟨hsuites, hbranches⟩, hshapes⟩, -⟩ := hnil
  have hrun : (run (t.withTables tables) m).failures = tableFailures (t.withTables tables) := by
    show arrowParity t m ++ dataFlow t m ++ (t.suites.flatMap suiteFailures ++ branchFailures t m ++
      t.groups.flatMap (shapeFailures m) ++ tableFailures (t.withTables tables)) = _
    rw [hparity, hflow, hsuites, hbranches, hshapes]
    rfl
  rw [passed_iff, ← hrun]
  cases plan with
  | none => rfl
  | some operations =>
    have hplan : (placement operations).failures = [] :=
      (List.append_eq_nil_iff.1 (passed_iff.1 h)).2
    show (run (t.withTables tables) m).failures ++ (placement operations).failures = [] ↔ _
    rw [hplan, List.append_nil]

/-- A table that is marked may take the place of one with its participant. -/
theorem tableFailures_replaced {before after : List DecisionTable} {d d' : DecisionTable}
    (h : tableFailures (t.withTables (before ++ d :: after)) = [])
    (hp : d'.participant = d.participant) (hd : d'.Marked) :
    tableFailures (t.withTables (before ++ d' :: after)) = [] := by
  rw [tableFailures_eq_nil] at h ⊢
  obtain ⟨hcounts, hmarks⟩ := h
  refine ⟨fun leaf hl => ?_, fun x hx => ?_⟩
  · have hone := hcounts leaf hl
    simp only [Tree.withTables, List.countP_append, List.countP_cons, hp] at hone ⊢
    exact hone
  · simp only [Tree.withTables, List.mem_append, List.mem_cons] at hmarks hx
    rcases hx with hx | rfl | hx
    · exact hmarks x (.inl hx)
    · exact hd
    · exact hmarks x (.inr (.inr hx))

/-! ## Readiness -/

/-- What readiness finds of a table that waits for its rows. -/
def pendingFailure (d : DecisionTable) : Failure :=
  ⟨.readiness, s!"Decision table for '{d.participant}' is pending human input"⟩

theorem readiness_withTables (t : Tree) (tables : List DecisionTable) :
    (readiness (t.withTables tables)).failures =
      (tables.filter (·.status == .pending)).map pendingFailure := rfl

/-! ## Completing a table of a tree -/

/-- **A completed table leaves the gate green.** Where a tree passes for a model, its tables can be
completed by exactly the rows that fit, the tree with the completed table still passes, the methods
keep their signatures, and readiness has the failure of the table less, if the table was pending. -/
theorem passed_of_complete {before after : List DecisionTable} {table : DecisionTable}
    (h : (runWithPlan t m plan).passed = true) (ht : t.tables = before ++ table :: after)
    (rows : Rows) :
    ((∃ done, table.complete rows = .ok done) ↔ rows.Completes table) ∧
      ∀ done, table.complete rows = .ok done →
        (runWithPlan (t.withTables (before ++ done :: after)) m plan).passed = true ∧
          done.methods.map (·.signature) = table.methods.map (·.signature) ∧
          (table.status = .pending → ∃ found found',
            (readiness t).failures = found ++ pendingFailure table :: found' ∧
              (readiness (t.withTables (before ++ done :: after))).failures = found ++ found') ∧
          (table.status = .complete →
            (readiness (t.withTables (before ++ done :: after))).failures =
              (readiness t).failures) := by
  have hself : t = t.withTables (before ++ table :: after) := by
    rw [← ht]
    rfl
  have htables : tableFailures (t.withTables (before ++ table :: after)) = [] := by
    rw [← passed_withTables h, ← hself]
    exact h
  refine ⟨by simp only [DecisionTable.complete_ok, exists_and_left, exists_eq', and_true], ?_⟩
  intro done hdone
  obtain ⟨hrows, rfl⟩ := DecisionTable.complete_ok.1 hdone
  refine ⟨(passed_withTables h _).2 (tableFailures_replaced htables rfl hrows.marked), ?_, ?_, ?_⟩
  · exact List.map_map.trans rfl
  · intro hpending
    refine ⟨(before.filter (·.status == .pending)).map pendingFailure,
      (after.filter (·.status == .pending)).map pendingFailure, ?_, ?_⟩
    · rw [hself, readiness_withTables]
      simp [hpending]
    · rw [readiness_withTables]
      simp [DecisionTable.filled]
  · intro hcomplete
    conv_rhs => rw [hself]
    rw [readiness_withTables, readiness_withTables]
    simp [DecisionTable.filled, hcomplete]

/-- A diagram that asks a computational leaf. -/
def pricing : String :=
  "[-> Checkout : total(item)\nCheckout -> PriceCalculator : price(item)\n" ++
    "PriceCalculator --> Checkout : amount\n"

def pricingRows : Rows := [("price", [{ inputs := ["'apple'"], expected := "3" }])]

theorem of?_pricing : ∃ x ∈ Stages.of? pricing,
    (runWithPlan x.tests x.model none).passed = true ∧ ∃ table ∈ x.tests.tables,
      x.tests.tables = [table] ∧ table.status = .pending ∧
        (table.complete pricingRows).toOption.isSome = true := by
  unfold pricing
  rw [Stages.of?_toList, String.toList_append, String.toList_ofList, String.toList_ofList]
  decide +kernel

theorem completed_pricing : ∃ x ∈ Stages.of? pricing, ∃ table done,
    table.complete pricingRows = .ok done ∧ (runWithPlan x.tests x.model none).passed = true ∧
      x.tests.tables = [] ++ table :: [] ∧
      (runWithPlan (x.tests.withTables [done]) x.model none).passed = true ∧
      (readiness x.tests).failures ≠ [] ∧
      (readiness (x.tests.withTables [done])).failures = [] := by
  obtain ⟨x, hx, hpassed, table, -, htables, hpending, hsome⟩ := of?_pricing
  obtain ⟨done, hdone⟩ := Option.isSome_iff_exists.1 hsome
  rw [toOption_eq_some] at hdone
  have hcut : x.tests.tables = [] ++ table :: [] := htables
  obtain ⟨-, hafter⟩ := passed_of_complete hpassed hcut pricingRows
  obtain ⟨hgreen, -, hless, -⟩ := hafter done hdone
  obtain ⟨found, found', hbefore, -⟩ := hless hpending
  refine ⟨x, hx, table, done, hdone, hpassed, hcut, hgreen, by simp [hbefore], ?_⟩
  obtain ⟨-, rfl⟩ := DecisionTable.complete_ok.1 hdone
  rfl

end Lifeline.Gate
