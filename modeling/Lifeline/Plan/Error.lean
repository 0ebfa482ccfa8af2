import Lifeline.Plan.Basic
import Lifeline.Store.Basic

/-!
# Failures of a plan

Why no plan can be made, or why a plan could not be carried out, and what is said about it.
-/

namespace Lifeline.Plan

/-- Why no plan can be made or carried out. -/
inductive Error where
  /-- Types that should be abstract are there as concrete ones. -/
  | conflict (first : Warning) (others : List Warning)
  | unreadable (path : String) (reason : Option String)
  /-- A write was refused. The files that could not be put back as they were are named. -/
  | unwritable (path : String) (reason : Option String) (unrestored : List String)
  /-- The store failed in another way than by refusing. -/
  | fault (f : Store.Fault)
  | badPattern (pattern : String)
deriving Repr, DecidableEq

namespace Error

/-- The name of a failure that is about a file, and the path of the file. -/
def kindAndPath? : Error → Option (String × String)
  | .conflict first _ => some ("existing-domain-type-conflict", first.path)
  | .unreadable path _ => some ("unreadable-target", path)
  | .unwritable path _ _ => some ("write-failed", path)
  | .fault _ | .badPattern _ => none

/-- The files that could not be put back as they were. -/
def unrestored : Error → List String
  | .unwritable _ _ paths => paths
  | _ => []

/-- What is said about the cause, where it is known. -/
def detail? : Error → Option String
  | .conflict first others => some (Text.Packed.join "; " ((first :: others).map (·.message)))
  | .unreadable _ reason => reason
  | .unwritable _ reason [] => reason
  | .unwritable _ reason unrestored =>
    reason.map (· ++ "; could not restore " ++ Text.Packed.join ", " unrestored)
  | .fault f => f.message?
  | .badPattern _ => none

/-- What is said about a failure, where its cause is known. -/
def message? (e : Error) : Option String :=
  match e.kindAndPath? with
  | some (kind, path) => e.detail?.map ((path ++ ": " ++ kind ++ ": ") ++ ·)
  | none => e.detail?

end Error

end Lifeline.Plan
