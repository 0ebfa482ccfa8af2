import Lifeline.Code.Event
import Lifeline.Guard
import Lifeline.Profile.Basic
import Lifeline.Sorting

/-!
# From events to statements

Events in order become a method body (`fold`): events inside one block become the loop or the
conditional that the block is, and what is inside it is folded in the same way. A guard that tests a
known value becomes an expression; any other guard, and a loop without a collection, gets a helper
method.
-/

namespace Lifeline.Code

open Tests (ScopeRef)

/-- Why no code can be made of a tree of tests. -/
inductive CodeError where
  | naming (e : NameError)
  /-- A block begins with a result that has moved half a step. -/
  | unplacedBlock
deriving Repr, DecidableEq

def CodeError.message? : CodeError → Option String
  | .naming e => e.message?
  | .unplacedBlock => none

/-- What the fold of a method knows: the naming rules, and the values at hand with their names in
generated code. -/
structure Knowledge where
  naming : NamingRules
  names : List (String × String)

/-- The helpers made so far, each name once. -/
abbrev Helpers := List Helper

/-- A step of the fold. It may make helpers, and fails where a name cannot be made or a block has no
place. -/
abbrev Folding (α : Type) := StateT Helpers (Except CodeError) α

def liftName {α : Type} : Except NameError α → Except CodeError α
  | .ok a => .ok a
  | .error e => .error (.naming e)

/-- The helpers with one more, unless there is one of its name. -/
def Helpers.add (hs : Helpers) (h : Helper) : Helpers :=
  if hs.any (·.name == h.name) then hs else hs ++ [h]

def addHelper (h : Helper) : Folding Unit := modify (·.add h)

/-- The position of a block that begins with an event. -/
def placeOf (e : Event) : Except CodeError Int :=
  if e.moment % 2 == 0 then .ok (e.moment / 2) else .error .unplacedBlock

/-! ## Guards -/

/-- A guard as an expression, where it tests a value at hand. -/
def Knowledge.expression? (k : Knowledge) (guard : String) : Option String := do
  let test ← ValueTest.ofGuard? guard
  let name ← k.names.lookup test.root
  return (if test.negated then "not " else "") ++ name ++ test.path

/-- How a branch is decided. The last of several branches needs no test where it has no guard. -/
def Knowledge.testOf (k : Knowledge) (block index : Int) (guard : Option String)
    (mayBeElse : Bool) : Folding Test := do
  if guard.isNone && mayBeElse then return .otherwise
  let guard := guard.filter (!·.isEmpty)
  match guard.bind k.expression? with
  | some expression => return .condition expression
  | none =>
    let text := guard.getD s!"branch {index + 1} of block {block}"
    let name ← liftName (k.naming.predicate.apply [("guard", text)])
    addHelper { name, kind := .predicate, text }
    return .helper name

/-- What stands at the top of a loop. -/
def Knowledge.loopHead (k : Knowledge) (r : ScopeRef) (first : Event) : Folding LoopHead := do
  let element := r.element.filter (!·.isEmpty)
  let collection := r.collection.filter (!·.isEmpty)
  match element, collection with
  | some element, some collection =>
    let sequence ← placeOf first
    return { block := r.block, label := r.label, element, source := .collection collection,
             sequence }
  | _, _ =>
    let text := if r.label.isEmpty then s!"loop {r.block}" else r.label
    let name ← liftName (k.naming.loopSource.apply [("label", text)])
    addHelper { name, kind := .loopSource, text }
    let sequence ← placeOf first
    return { block := r.block, label := r.label, element := element.getD "item",
             source := .helper name, sequence }

/-! ## Runs -/

/-- An event together with the blocks that are still around it. -/
structure Placed where
  event : Event
  scope : List ScopeRef

/-- Whether the outermost block around an event is `block`. -/
def Placed.isIn (p : Placed) (block : Int) : Bool := p.scope.head?.any (·.block == block)

/-- The event inside its outermost block. -/
def Placed.enter (p : Placed) : Placed := { p with scope := p.scope.drop 1 }

/-- A part of a body: an event outside all blocks, or the events of one block, of which the first
one says what the block is. -/
inductive Run where
  | single (p : Placed)
  | block (r : ScopeRef) (first : Placed) (rest : List Placed)

/-- Events cut into runs. `fuel` bounds their number. -/
def runs : (fuel : Nat) → List Placed → List Run
  | 0, _ => []
  | _ + 1, [] => []
  | fuel + 1, p :: ps =>
    match p.scope with
    | [] => .single p :: runs fuel ps
    | r :: _ =>
      .block r p (ps.takeWhile (·.isIn r.block)) :: runs fuel (ps.dropWhile (·.isIn r.block))

/-- The branches that events of one alternative are in, in order. -/
def branchesOf (ps : List Placed) : List Int :=
  sortBy (fun a b => a ≤ b) (ps.filterMap fun p => p.scope.head?.map (·.branch)).eraseDups

def inBranch (ps : List Placed) (branch : Int) : List Placed :=
  ps.filter fun p => p.scope.head?.any (·.branch == branch)

/-! ## The fold -/

/-- The statements of some events, in order. `fuel` bounds how deep blocks are nested. -/
def foldPlaced (k : Knowledge) : (fuel : Nat) → List Placed → Folding (List Statement)
  | 0, _ => return []
  | fuel + 1, ps => do
    let parts ← (runs ps.length ps).mapM fun run => do
      match run with
      | .single p => return p.event.statement.toList
      | .block r first rest =>
        let all := first :: rest
        match r.kind with
        | .loop =>
          let body ← foldPlaced k fuel (all.map (·.enter))
          let head ← k.loopHead r first.event
          return [.iteration head body]
        | .alt =>
          let indexes := branchesOf all
          let branches ← indexes.zipIdx.mapM fun (index, n) => do
            let own := inBranch all index
            let guard := (own.head?.bind (·.scope.head?)).bind (·.guard)
            let body ← foldPlaced k fuel (own.map (·.enter))
            let test ← k.testOf r.block index guard (n + 1 == indexes.length && 0 < n)
            return (({ index, guard, test } : BranchHead), body)
          let sequence ← placeOf first.event
          return [.conditional r.block branches sequence]
    return parts.flatten

/-- How deep the scopes of events go. -/
def depthOf (events : List Event) : Nat := events.foldl (fun d e => max d e.scope.length) 0

/-- The body of a method in which the events happen. -/
def fold (k : Knowledge) (events : List Event) : Folding (List Statement) :=
  foldPlaced k (depthOf events + 1)
    ((Event.inOrder events).map fun e => { event := e, scope := e.scope })

end Lifeline.Code
