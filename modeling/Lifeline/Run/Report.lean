import Lifeline.Plan.Basic

/-!
# Reports

What a run found and planned, in numbers and names (`Run.Report`), and as text for its user.
-/

namespace Lifeline.Run

/-- What a run found in a diagram and plans to do about it. -/
structure Report where
  arrows : Nat
  orchestrators : Nat
  leaves : Nat
  decisionTables : Nat
  tests : Nat
  files : List (String × Plan.Mode)
  unchanged : List String
  warnings : List String
  dryRun : Bool
deriving Repr, DecidableEq

namespace Report

/-- The text followed by blanks up to a width. -/
def padded (width : Nat) (text : String) : String :=
  .ofList (text.toList ++ List.replicate (width - text.length) ' ')

/-- The lines of a report. Sections with nothing in them are left out. -/
def lines (r : Report) : List String :=
  [s!"Arrows:          {r.arrows}", s!"Orchestrators:   {r.orchestrators}",
    s!"Leaves:          {r.leaves}", s!"Decision tables: {r.decisionTables}",
    s!"Tests:           {r.tests}"] ++
  (if r.files.isEmpty then []
    else (if r.dryRun then "Files (dry run):" else "Files:") ::
      r.files.map fun (path, mode) => "  " ++ padded 7 mode.name ++ " " ++ path) ++
  (if r.unchanged.isEmpty then [] else [s!"Unchanged:       {r.unchanged.length}"]) ++
  (if r.warnings.isEmpty then [] else "Warnings:" :: r.warnings.map ("  - " ++ ·))

def text (r : Report) : String := Text.Packed.join "\n" r.lines

end Report

end Lifeline.Run
