import Lifeline.Source.File

/-!
# Plans

What a run is going to write: an operation for each file that is created or extended, the files that
stay as they are, and warnings about declarations that differ from what would be generated.
-/

namespace Lifeline

namespace Plan

/-- Whether a file is new or extended. -/
inductive Mode where
  | create | update
deriving Repr, DecidableEq

def Mode.name : Mode → String
  | .create => "create"
  | .update => "update"

/-- A write: the whole content of the file afterwards, its content before where it was there, and
the blocks that the write adds. -/
structure Operation where
  path : String
  mode : Mode
  content : String
  previous : Option String := none
  blocks : List Source.Block := []
deriving Repr, DecidableEq

structure Warning where
  path : String
  message : String
deriving Repr, DecidableEq

end Plan

/-- What a run is going to write. -/
structure Plan where
  operations : List Plan.Operation := []
  warnings : List Plan.Warning := []
  unchanged : List String := []
deriving Repr, DecidableEq

end Lifeline
