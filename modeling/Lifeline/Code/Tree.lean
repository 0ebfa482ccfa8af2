import Lifeline.Tests.Tree

/-!
# Trees of code

The implementation that tests call for: classes with methods made of statements, the interfaces of
collaborators at the boundary, the scaffolds of computational leaves, and the exceptions that are
raised.
-/

namespace Lifeline.Code

open Tests (MessageArgument TableStatus ValueRef)

/-- A call of a collaborator, which may bind its value to a name. -/
structure CallStatement where
  mock : String
  method : String
  arguments : List ValueRef
  binding : Option String
  sequence : Int
deriving Repr, DecidableEq

/-- The end of a method with a value. -/
structure ReturnStatement where
  value : ValueRef
  sequence : Int
deriving Repr, DecidableEq

/-- The end of a method with an exception, whose message is made of a constant where there is
one. -/
structure RaiseStatement where
  exception : String
  constant : Option String
  arguments : List MessageArgument
  sequence : Int
deriving Repr, DecidableEq

/-- How a branch is decided: by an expression over known values, by a helper method, or by no
branch before it having been taken. -/
inductive Test where
  | condition (expression : String)
  | helper (name : String)
  | otherwise
deriving Repr, DecidableEq

/-- What stands at the top of a branch. The index is its place in the diagram. -/
structure BranchHead where
  index : Int
  guard : Option String
  test : Test
deriving Repr, DecidableEq

/-- Where the items of a loop come from: a collection at hand, or a helper method. -/
inductive ItemSource where
  | collection (path : String)
  | helper (name : String)
deriving Repr, DecidableEq

/-- What stands at the top of a loop. -/
structure LoopHead where
  block : Int
  label : String
  element : String
  source : ItemSource
  sequence : Int
deriving Repr, DecidableEq

inductive Statement where
  | call (s : CallStatement)
  | return (s : ReturnStatement)
  | raise (s : RaiseStatement)
  | conditional (block : Int) (branches : List (BranchHead × List Statement)) (sequence : Int)
  | iteration (head : LoopHead) (body : List Statement)
deriving Repr, Inhabited

/-- A constant that holds the message of an exception. -/
structure Constant where
  name : String
  template : String
deriving Repr, DecidableEq

/-- What a helper method decides or gives. -/
inductive HelperKind where
  | predicate | loopSource
deriving Repr, DecidableEq

/-- A method that is left to someone to write. The text is the guard or the label it stands for. -/
structure Helper where
  name : String
  kind : HelperKind
  text : String
deriving Repr, DecidableEq

structure Method where
  name : String
  parameters : List String
  body : List Statement
deriving Repr

/-- The class of an orchestrator. -/
structure Class where
  subject : String
  collaborators : List String
  constants : List Constant
  methods : List Method
  helpers : List Helper
deriving Repr

/-- A method without a body. -/
structure Signature where
  name : String
  parameters : List String
  returns : Option String
deriving Repr, DecidableEq

/-- The interface of a collaborator at the boundary, with the orchestrators that use it. -/
structure Interface where
  name : String
  users : List String
  methods : List Signature
deriving Repr, DecidableEq

/-- A computational leaf, whose behaviour its decision table fixes. -/
structure Scaffold where
  name : String
  methods : List Signature
  status : TableStatus
deriving Repr, DecidableEq

structure Tree where
  classes : List Class
  interfaces : List Interface
  scaffolds : List Scaffold
  exceptions : List String
deriving Repr

end Lifeline.Code
