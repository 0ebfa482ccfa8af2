/-!
# Stores

A place where files are kept under paths (`Store`): whether there is a file, its text, writing it
and removing it. A store has a state, which a call may change even where it fails.
-/

namespace Lifeline

/-- Why a store does not do what it is asked. -/
inductive Store.Fault where
  /-- It cannot, for a reason that it may give. -/
  | refused (reason : Option String)
  | notText
  | invalidPath
deriving Repr, DecidableEq

/-- What a fault says, where it says something. -/
def Store.Fault.message? : Store.Fault → Option String
  | .refused reason => reason
  | .notText => none
  | .invalidPath => some "embedded null byte"

/-- A place where files are kept, with the states that it may be in. -/
structure Store (σ : Type) where
  isFile : σ → String → Except Store.Fault Bool
  read : σ → String → Except Store.Fault String
  write : σ → String → String → σ × Except Store.Fault Unit
  remove : σ → String → σ × Except Store.Fault Unit

end Lifeline
