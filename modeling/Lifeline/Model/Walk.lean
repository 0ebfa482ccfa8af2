import Lifeline.Model.Error

/-!
# Walking the elements

One pass over the elements of a diagram (`Walk.step`), which finds the participants, gives every
message its place, that is its position and the branches of the blocks around it, and every block
the method that owns it: the method of the first message inside it.
-/

namespace Lifeline.Model

/-- A block around a place, with the branch that the place is in. -/
structure Enclosure where
  block : Nat
  branch : Nat
deriving Repr, DecidableEq

/-- Where a message stands: its position, the method that sends it, and the blocks around it,
outermost first. -/
structure Place where
  position : Nat
  method : MethodId
  enclosing : List Enclosure
deriving Repr, DecidableEq

/-- A block as the walk finds it. The owner is missing until a message stands inside the block. -/
structure Fragment where
  kind : FragmentKind
  position : Nat
  line : Int
  label : String := ""
  /-- The guard and the position of each branch. -/
  guards : List (Option String × Nat) := []
  parents : List Enclosure := []
  owner : Option MethodId := none
  /-- The branch that the walk is in. -/
  branch : Nat := 0
deriving Repr, DecidableEq

/-- What the walk has found so far. -/
structure Walk where
  participants : List String := []
  entry : Option Entry := none
  fragments : List Fragment := []
  /-- The open blocks, innermost first. -/
  openBlocks : List Nat := []
  calls : List (Call × Place) := []
  /-- The replies in order, one for each call. -/
  replies : List (Reply × Place) := []
  raises : List (Raise × Place) := []
  results : List (Result × Place) := []
deriving Repr, DecidableEq

namespace Walk

/-- The walk after a participant has come up. -/
def note (w : Walk) (name : String) : Walk :=
  if w.participants.contains name then w else { w with participants := w.participants ++ [name] }

/-- The walk after the entry message, whose target becomes the first participant. -/
def enter (w : Walk) (e : Entry) : Walk :=
  { w with entry := some e, participants := e.target :: w.participants.erase e.target }

/-- The blocks around the present place, outermost first. -/
def enclosing (w : Walk) : List Enclosure :=
  w.openBlocks.reverse.map fun id =>
    { block := id, branch := ((w.fragments[id]?).map (·.branch)).getD 0 }

/-- The place of a message of `method`. -/
def placeOf (w : Walk) (position : Nat) (method : MethodId) : Place :=
  { position, method, enclosing := w.enclosing }

/-- The walk after a message of `method`, which comes to own the open blocks without an owner. -/
def own (w : Walk) (method : MethodId) : Walk :=
  { w with fragments := w.fragments.zipIdx.map fun (f, id) =>
      if w.openBlocks.contains id then { f with owner := f.owner.or (some method) } else f }

def openBlock (w : Walk) (f : Fragment) : Walk :=
  { w with
    fragments := w.fragments ++ [{ f with parents := w.enclosing }]
    openBlocks := w.fragments.length :: w.openBlocks }

/-- The walk after a further branch of the innermost block. -/
def branch (w : Walk) (position : Nat) (guard : Option String) : Except BuildError Walk :=
  match w.openBlocks with
  | [] => .error .noOpenBlock
  | id :: _ =>
    .ok { w with fragments := w.fragments.modify id fun f =>
      { f with guards := f.guards ++ [(guard, position)], branch := f.branch + 1 } }

def closeBlock (w : Walk) : Except BuildError Walk :=
  match w.openBlocks with
  | [] => .error .noOpenBlock
  | _ :: rest => .ok { w with openBlocks := rest }

/-- The method that makes a call, as far as the calls before show; the root method for a call that
is not among them. -/
def callerOf (w : Walk) (call : Int) : MethodId :=
  match w.calls.reverse.find? (·.1.id == call) with
  | some (c, _) => c.parent
  | none => none

def step (w : Walk) (position : Nat) : Element → Except BuildError Walk
  | .participant _ name => .ok (w.note name)
  | .entry e => .ok (w.enter e)
  | .call c =>
    let w := (w.note c.source).note c.target
    .ok { w.own c.parent with calls := w.calls ++ [(c, w.placeOf position c.parent)] }
  | .reply r =>
    let method := w.callerOf r.call
    .ok { w.own method with
      replies := w.replies.filter (·.1.call != r.call) ++ [(r, w.placeOf position method)] }
  | .raise t =>
    let w := w.note t.participant
    .ok { w.own t.parent with raises := w.raises ++ [(t, w.placeOf position t.parent)] }
  | .result r =>
    .ok { w.own r.parent with results := w.results ++ [(r, w.placeOf position r.parent)] }
  | .loop line label => .ok (w.openBlock { kind := .loop, position, line, label })
  | .alt line guard =>
    .ok (w.openBlock { kind := .alt, position, line, guards := [(guard, position)] })
  | .orElse _ guard => w.branch position guard
  | .close _ => w.closeBlock

/-- The walk over the elements from a position on. -/
def run (w : Walk) (position : Nat) : List Element → Except BuildError Walk
  | [] => .ok w
  | e :: rest => do run (← w.step position e) (position + 1) rest

/-- The owners of the blocks. A block without messages belongs to the method of the block around
it. -/
def owners (w : Walk) : List MethodId :=
  w.fragments.foldl (fun owners f =>
    owners ++ [f.owner.getD (f.parents.getLast?.bind fun e => (owners[e.block]?).join)]) []

end Walk

end Lifeline.Model
