import Lifeline.Model.Build
import Lifeline.Profile.Basic

/-!
# Configuration of a run

Everything that a run needs besides its diagram.
-/

namespace Lifeline.Run

/-- What a run needs besides its diagram: the directory that paths are relative to, the base of the
names of modules, the profile, how the model is built, and whether nothing is written. -/
structure Config where
  root : String := "."
  base : String := "app"
  profile : Profile := .builtin
  options : Model.Options := {}
  dryRun : Bool := false
deriving Repr, DecidableEq

/-- The base of the names of modules as a directory. -/
def Config.basePath (c : Config) : String := Text.Packed.replace "." "/" c.base

end Lifeline.Run
