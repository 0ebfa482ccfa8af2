import Lifeline.Store.Basic

/-!
# Files in memory

Files under their paths, some of which cannot be read, written or removed (`Memory`), as a store.
-/

namespace Lifeline.Store

/-- Files with their texts, and the paths that refuse to be read, written or removed. -/
structure Memory where
  files : List (String × String) := []
  unreadable : List String := []
  unwritable : List String := []
  undeletable : List String := []
deriving Repr, DecidableEq

namespace Memory

/-- The text of a file. -/
def text? (m : Memory) (path : String) : Option String := m.files.lookup path

/-- Files with one more, or with another text for one of them. -/
def put (m : Memory) (path text : String) : Memory :=
  { m with files := (path, text) :: m.files.filter (·.1 != path) }

/-- Files without one of them. -/
def erase (m : Memory) (path : String) : Memory :=
  { m with files := m.files.filter (·.1 != path) }

/-- The refusal of a call for a path. -/
def refusal (what path : String) : Fault := .refused (some (what ++ ": " ++ path))

/-- Files in memory as a store. A call that is refused changes nothing, and to remove a file that is
not there is no failure. -/
def store : Store Memory where
  isFile m path := .ok (m.text? path).isSome
  read m path :=
    if m.unreadable.contains path then .error (refusal "unreadable" path)
    else
      match m.text? path with
      | some text => .ok text
      | none => .error (.refused none)
  write m path text :=
    if m.unwritable.contains path then (m, .error (refusal "disk full" path))
    else (m.put path text, .ok ())
  remove m path :=
    if m.undeletable.contains path then (m, .error (refusal "read-only" path))
    else (m.erase path, .ok ())

end Memory

end Lifeline.Store
