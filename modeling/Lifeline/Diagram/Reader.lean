import Lifeline.Diagram.Label
import Lifeline.Diagram.Line

/-!
# Reading a diagram

The lines of a diagram in order, each read in the light of the calls and blocks that are open where
it stands (`Reader`). A call opens an activation of its target; the reply to it, or a message from a
participant further out, closes it.
-/

namespace Lifeline

/-- A call that has not been answered. -/
structure Activation where
  call : Nat
  caller : String
  callee : String
deriving Repr, DecidableEq

/-- A block that has not been closed. -/
structure OpenBlock where
  kind : FragmentKind
  line : Nat
deriving Repr, DecidableEq

/-- Where a reader stands: the elements read so far, the open activations and blocks with the
innermost first, the participant that the diagram starts from, and the number of calls. -/
structure Reader where
  elements : List Element := []
  activations : List Activation := []
  blocks : List OpenBlock := []
  root : Option String := none
  calls : Nat := 0
deriving Repr, DecidableEq

namespace Reader

def push (r : Reader) (e : Element) : Reader := { r with elements := r.elements ++ [e] }

/-- The reader after a participant has come up: the first one is the root. -/
def note (r : Reader) (name : String) : Reader := { r with root := r.root.or (some name) }

/-- The open activations from the innermost one of `participant` outwards. -/
def activationsOf (participant : String) : List Activation → List Activation
  | [] => []
  | a :: rest => if a.callee == participant then a :: rest else activationsOf participant rest

/-- Makes `participant` the one that acts. Activations inside its innermost one are closed; the
root acts outside any activation. -/
def activate (r : Reader) (participant : String) :
    Except DiagramFault (Reader × Option Int) :=
  match activationsOf participant r.activations with
  | a :: rest => .ok ({ r with activations := a :: rest }, some a.call)
  | [] =>
    if r.root == some participant then .ok ({ r with activations := [] }, none)
    else .error (.inactive participant (r.root.getD ""))

/-- Whether an entry message or a call has been read. -/
def hasCall (r : Reader) : Bool :=
  r.elements.any fun | .entry _ | .call _ => true | _ => false

/-! ## Arrows -/

/-- The message that the diagram starts from. -/
def readEntry (r : Reader) (line : Int) (target label : String) : Except DiagramFault Reader :=
  if r.hasCall then .error .lateEntry
  else
    match Label.readCall? label.toList with
    | some (some method, arguments) => do
      let arguments ← Label.readArguments arguments
      return { r with root := some target }.push (.entry { line, target, method, arguments })
    | _ => .error (.entryWithoutCall target label)

/-- The result of a method, given to the outside. -/
def readResult (r : Reader) (line : Int) (parent : Option Int) (source label : String) :
    Except DiagramFault Reader :=
  match Label.readValue? label.toList with
  | some (value, type) => .ok (r.push (.result { line, parent, source, value, type }))
  | none => .error (.resultWithoutValue source label)

/-- An exception raised by the participant that acts. -/
def readRaise (r : Reader) (line : Int) (parent : Option Int) (source target label : String) :
    Except DiagramFault Reader :=
  match Label.readRaise? label.toList with
  | none => .error (.unknownStereotype label)
  | some (exception, message) =>
    if source != target then .error (.raiseElsewhere source target label)
    else .ok (r.push (.raise { line, parent, participant := source, exception, message }))

/-- A call, which opens an activation of its target. -/
def readCall (r : Reader) (line : Int) (parent : Option Int) (source glyph target label : String) :
    Except DiagramFault Reader :=
  match Label.readCall? label.toList with
  | none => .error (.unreadableCall label)
  | some (none, _) => .error (.namelessCall source glyph target label)
  | some (some method, arguments) => do
    let arguments ← Label.readArguments arguments
    let call : Call :=
      { line, id := r.calls, parent, source, target, method, arguments, glyph }
    return { r with
      calls := r.calls + 1
      activations := { call := r.calls, caller := source, callee := target } :: r.activations
      }.push (.call call)

/-- The reply to the innermost open call, which closes its activation. -/
def readReply (r : Reader) (line : Int) (source glyph target label : String) :
    Except DiagramFault Reader :=
  match Label.readValue? label.toList, r.activations with
  | some (value, type), a :: rest =>
    if a.callee == source && a.caller == target then
      .ok ({ r with activations := rest }.push
        (.reply { line, call := a.call, source, target, value, type, glyph }))
    else refuse
  | _, _ => refuse
where
  /-- The fault of an arrow that is no reply; it names the caller that the source could reply
  to. -/
  refuse : Except DiagramFault Reader :=
    let caller := match r.activations with
      | a :: _ => if a.callee == source then some a.caller else none
      | [] => none
    .error (.neitherCallNorReturn source glyph target label caller)

/-- An arrow: what it is depends on its ends and on the form of its label. -/
def readArrow (r : Reader) (line : Int) (source glyph target : String) (label : Option String) :
    Except DiagramFault Reader := do
  let label := label.getD ""
  if source == Line.outsideSource then r.readEntry line target label
  else
    let (r, parent) ← (r.note source).activate source
    if target == Line.outsideTarget then r.readResult line parent source label
    else if label.isEmpty then .error (.unlabelled source glyph target)
    else if Text.Packed.startsWith "<<" label then r.readRaise line parent source target label
    else if label.toList.contains '(' then r.readCall line parent source glyph target label
    else r.readReply line source glyph target label

/-! ## Blocks -/

/-- The start of a fragment, of which there are only loops and alternatives. -/
def readFragment (r : Reader) (number : Nat) (keyword label : String) :
    Except DiagramFault Reader :=
  if keyword == "loop" then
    .ok ({ r with blocks := ⟨.loop, number⟩ :: r.blocks }.push (.loop number label))
  else if keyword == "alt" then
    .ok ({ r with blocks := ⟨.alt, number⟩ :: r.blocks }.push (.alt number (Label.readGuard label)))
  else .error (.unsupportedFragment keyword)

def readElse (r : Reader) (number : Nat) (label : String) : Except DiagramFault Reader :=
  match r.blocks with
  | ⟨.alt, _⟩ :: _ => .ok (r.push (.orElse number (Label.readGuard label)))
  | _ => .error .strayElse

def readEnd (r : Reader) (number : Nat) : Except DiagramFault Reader :=
  match r.blocks with
  | _ :: rest => .ok ({ r with blocks := rest }.push (.close number))
  | [] => .error .strayEnd

/-! ## The whole text -/

def readStatement (r : Reader) (number : Nat) : Line.Statement → Except DiagramFault Reader
  | .participant _ name => .ok ((r.note name).push (.participant number name))
  | .arrow source glyph target label => r.readArrow number source glyph target label
  | .fragment keyword label => r.readFragment number keyword label
  | .orElse label => r.readElse number label
  | .close => r.readEnd number

def step (r : Reader) (l : Line) : Except DiagramError Reader :=
  match r.readStatement l.number l.statement with
  | .ok r => .ok r
  | .error fault => .error ⟨l.number, fault⟩

/-- The diagram that has been read, where no block is open any more. -/
def finish (r : Reader) : Except DiagramError Diagram :=
  match r.blocks with
  | [] => .ok { elements := r.elements }
  | b :: _ => .error ⟨b.line, .unclosed b.kind.keyword b.line⟩

end Reader

namespace Diagram

def ofLines (lines : List Line) : Except DiagramError Diagram := do
  (← lines.foldlM Reader.step {}).finish

/-- The diagram that a text describes. -/
def parse (source : String) : Except DiagramError Diagram := do
  ofLines (← Line.scan source)

end Diagram

end Lifeline
