/-!
# Elements of a diagram

What the lines of a sequence diagram say: participants, messages (calls, replies, raises, results
and the message the diagram starts from) and blocks. The elements of a diagram stand in the order
of its lines.
-/

namespace Lifeline

/-- An argument of a call. A literal is passed on as it is written; any other argument names a
value. -/
structure Argument where
  name : String
  isLiteral : Bool := false
deriving Repr, DecidableEq

/-- The message that a diagram starts from: it names the method under test. -/
structure Entry where
  line : Int
  target : String
  method : String
  arguments : List Argument := []
deriving Repr, DecidableEq

/-- A call. `parent` is the call in whose activation it is made, none for the root method. -/
structure Call where
  line : Int
  id : Int
  parent : Option Int
  source : String
  target : String
  method : String
  arguments : List Argument := []
  glyph : String := "->"
deriving Repr, DecidableEq

/-- The reply to a call, which binds its value. -/
structure Reply where
  line : Int
  call : Int
  source : String
  target : String
  value : String
  type : Option String := none
  glyph : String := "-->"
deriving Repr, DecidableEq

/-- An exception that a participant raises in the activation of `parent`. -/
structure Raise where
  line : Int
  parent : Option Int
  participant : String
  exception : String
  message : Option String := none
deriving Repr, DecidableEq

/-- A value that a participant gives as the result of the activation of `parent`. -/
structure Result where
  line : Int
  parent : Option Int
  source : String
  value : String
  type : Option String := none
deriving Repr, DecidableEq

/-- The two kinds of fragment: a loop, and an alternative of several branches. -/
inductive FragmentKind where
  | loop | alt
deriving Repr, DecidableEq

def FragmentKind.keyword : FragmentKind → String
  | .loop => "loop"
  | .alt => "alt"

inductive Element where
  | participant (line : Int) (name : String)
  | entry (e : Entry)
  | call (c : Call)
  | reply (r : Reply)
  | raise (t : Raise)
  | result (r : Result)
  | loop (line : Int) (label : String)
  | alt (line : Int) (guard : Option String)
  | orElse (line : Int) (guard : Option String)
  | close (line : Int)
deriving Repr, DecidableEq

/-- A diagram: its elements in order. -/
structure Diagram where
  elements : List Element := []
deriving Repr, DecidableEq

namespace Diagram

def calls (d : Diagram) : List Call :=
  d.elements.filterMap fun | .call c => some c | _ => none

/-- The number of arrows of a diagram: its calls, replies and raises. -/
def arrowCount (d : Diagram) : Nat :=
  d.elements.countP fun | .call _ | .reply _ | .raise _ => true | _ => false

end Diagram

end Lifeline
