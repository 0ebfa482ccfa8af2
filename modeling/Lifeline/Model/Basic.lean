import Lifeline.Diagram.Element

/-!
# The model of a diagram

What a diagram means: participants, interactions with the values that flow between them, blocks,
raises, and the methods under test with their results. Every part of a model carries its scope, the
blocks of its own method that enclose it.
-/

namespace Lifeline.Model

/-- The method that a part of a diagram belongs to: the call that runs it, none for the root
method. -/
abbrev MethodId := Option Int

/-- An enclosing block, with the branch of it that is meant. -/
structure Frame where
  kind : FragmentKind
  block : Nat
  branch : Nat := 0
deriving Repr, DecidableEq

/-- The enclosing blocks, outermost first. -/
abbrev Scope := List Frame

/-- A choice of branches: blocks with the branch that is taken in each. -/
abbrev Path := List (Nat × Nat)

/-- The branches that enclose a place, outermost first. -/
def Scope.path (s : Scope) : Path :=
  s.filterMap fun f => if f.kind == .alt then some (f.block, f.branch) else none

def Scope.inLoop (s : Scope) : Bool := s.any (·.kind == .loop)

def Scope.inBranch (s : Scope) : Bool := s.any (·.kind == .alt)

/-- A participant; the one with ordinal zero is the component under test. -/
structure Participant where
  name : String
  ordinal : Nat
deriving Repr, DecidableEq

def Participant.underTest (p : Participant) : Bool := p.ordinal == 0

/-- What identifies the value that a call's reply binds: the name it is bound to and the call. -/
def valueId (name : String) (call : Int) : String := name ++ "@" ++ toString call

/-- Where the value of an argument comes from. -/
inductive ArgumentSource where
  | input
  /-- The reply to an earlier call, with the name of the value it binds. -/
  | reply (producer : Int) (valueId : String)
  | literal
  | loopElement
deriving Repr, DecidableEq

/-- An argument of a call with the place that its value comes from. -/
structure ArgumentRef where
  name : String
  source : ArgumentSource
deriving Repr, DecidableEq

/-- The value that a reply binds. The type is explicit where the diagram gives it. -/
structure Binding where
  value : String
  type : String
  explicitType : Bool
  valueId : String
  line : Int
deriving Repr, DecidableEq

/-- A call with its reply. It is void where there is no reply. -/
structure Interaction where
  index : Int
  /-- The place of the call among the elements of the diagram. -/
  position : Nat
  method : MethodId
  source : String
  target : String
  operation : String
  arguments : List ArgumentRef
  line : Int
  reply : Option Binding
  scope : Scope
deriving Repr, DecidableEq

/-- A value that flows from a reply into an argument. -/
structure Pipe where
  producer : Int
  consumer : Int
  argument : String
  valueId : String
deriving Repr, DecidableEq

/-- A loop. The element and the collection are there where the label names them. -/
structure Loop where
  id : Nat
  method : MethodId
  label : String
  element : Option String
  collection : Option String
  producer : Option Int
  scope : Scope
  position : Nat
  line : Int
deriving Repr, DecidableEq

structure Branch where
  index : Nat
  guard : Option String
  position : Nat
deriving Repr, DecidableEq

/-- An alternative. Its depth counts the alternatives around it and itself. -/
structure Alternative where
  id : Nat
  method : MethodId
  branches : List Branch
  depth : Nat
  scope : Scope
  position : Nat
  line : Int
deriving Repr, DecidableEq

/-- An exception that the owner of a method raises. It leaves the calls of `through`, innermost
first, before anything can catch it. -/
structure Throw where
  participant : String
  exception : String
  message : Option String
  method : MethodId
  scope : Scope
  through : List Int
  position : Nat
  line : Int
deriving Repr, DecidableEq

/-- What a method returns on one path. -/
structure MethodResult where
  value : String
  type : String
  valueId : Option String
  scope : Scope
  position : Nat
  explicit : Bool
deriving Repr, DecidableEq

/-- A method under test: the root method, or a method of a participant that makes calls itself. -/
structure Method where
  call : MethodId
  owner : String
  name : String
  parameters : List String
  inferredParameters : Bool
  results : List MethodResult
deriving Repr, DecidableEq

/-- A finding that does not stop the model. -/
inductive Finding where
  /-- A name that no reply binds was taken for an input. -/
  | inferredInput (name : String)
  /-- Several replies bind the name of an argument; the last one was taken. -/
  | ambiguousBinding (name : String) (lines : List Int)
  /-- Alternatives are nested more deeply than usual. -/
  | deepNesting (depth : Nat)
deriving Repr, DecidableEq

/-- A finding on a line of the diagram. -/
structure Warning where
  finding : Finding
  line : Int
deriving Repr, DecidableEq

end Lifeline.Model

namespace Lifeline

/-- The model of a diagram. -/
structure Model where
  participants : List Model.Participant
  interactions : List Model.Interaction
  pipes : List Model.Pipe
  loops : List Model.Loop
  alternatives : List Model.Alternative
  throws : List Model.Throw
  methods : List Model.Method
  warnings : List Model.Warning
deriving Repr, DecidableEq

namespace Model

def participant? (m : Model) (name : String) : Option Participant :=
  m.participants.find? (·.name == name)

/-- The name of the component under test. -/
def componentUnderTest? (m : Model) : Option String := m.participants.head?.map (·.name)

/-- The method that a call runs. -/
def method? (m : Model) (call : MethodId) : Option Method := m.methods.find? (·.call == call)

/-- The calls that a method makes, in order. -/
def interactionsOf (m : Model) (method : MethodId) : List Interaction :=
  m.interactions.filter (·.method == method)

/-- The calls that a participant makes, in order. -/
def outgoing (m : Model) (name : String) : List Interaction :=
  m.interactions.filter (·.source == name)

/-- The item at an index, counted from the end where the index is negative. -/
def itemAt? {α : Type} (items : List α) (index : Int) : Option α :=
  if 0 ≤ index then items[index.toNat]?
  else if index.natAbs ≤ items.length then items[items.length - index.natAbs]? else none

def interaction? (m : Model) (index : Int) : Option Interaction := itemAt? m.interactions index

end Model

end Lifeline
