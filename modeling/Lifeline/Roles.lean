import Lifeline.Model.Basic
import Lifeline.Text.Basic

/-!
# Roles of participants

The component under test and every participant that makes calls are orchestrators; all others are
leaves. The longest suffix of its name that a table lists decides the kind of a leaf (`classify`).
-/

namespace Lifeline

/-- The two kinds of leaf. -/
inductive LeafKind where
  | computational | ioBoundary
deriving Repr, DecidableEq

/-- The suffixes of names that decide the kind of a leaf. -/
structure LeafSuffixes where
  computational : List String := ["Mapper", "Factory", "Calculator", "Converter", "Builder"]
  ioBoundary : List String := ["Repository", "Client", "Gateway", "Adapter"]
deriving Repr, DecidableEq

/-- What a participant is for. -/
inductive Role where
  | orchestrator
  | leaf (kind : LeafKind)
deriving Repr, DecidableEq

/-- A participant with its role. -/
structure Classified where
  name : String
  role : Role
  underTest : Bool
deriving Repr, DecidableEq

/-- The roles of all participants in order, and the leaves that no suffix matches. -/
structure Classification where
  participants : List Classified
  unmatched : List String
deriving Repr, DecidableEq

namespace LeafSuffixes

/-- All suffixes with the kinds they stand for. -/
def table (s : LeafSuffixes) : List (String × LeafKind) :=
  s.computational.map (·, .computational) ++ s.ioBoundary.map (·, .ioBoundary)

/-- The kind of the longest matching suffix; among equally long ones the first counts. -/
def longest (name : String) : List (String × LeafKind) → Option (Nat × LeafKind)
  | [] => none
  | (suffix, kind) :: rest =>
    let others := longest name rest
    if Text.Packed.endsWith suffix name then
      match others with
      | some (length, other) =>
        if suffix.length < length then some (length, other) else some (suffix.length, kind)
      | none => some (suffix.length, kind)
    else others

/-- The kind of a leaf with the given name, where a suffix matches. -/
def kindOf? (s : LeafSuffixes) (name : String) : Option LeafKind :=
  (longest name s.table).map (·.2)

end LeafSuffixes

namespace Classification

def roleOf (m : Model) (s : LeafSuffixes) (p : Model.Participant) : Role :=
  if p.underTest || m.interactions.any (·.source == p.name) then .orchestrator
  else .leaf ((s.kindOf? p.name).getD .computational)

/-- Whether no suffix matches the name of a leaf. -/
def isUnmatched (m : Model) (s : LeafSuffixes) (p : Model.Participant) : Bool :=
  roleOf m s p != .orchestrator && (s.kindOf? p.name).isNone

def find? (c : Classification) (name : String) : Option Classified :=
  c.participants.find? (·.name == name)

def orchestrators (c : Classification) : List Classified :=
  c.participants.filter (·.role == .orchestrator)

def leaves (c : Classification) : List Classified :=
  c.participants.filter (·.role != .orchestrator)

def computational (c : Classification) : List Classified :=
  c.participants.filter (·.role == .leaf .computational)

/-- What the warning about an unmatched leaf says. -/
def unmatchedMessage (name : String) : String :=
  s!"'{name}' matches no leaf suffix; classified as computational"

end Classification

namespace Model

/-- The roles of the participants of a model. -/
def classify (m : Model) (s : LeafSuffixes := {}) : Classification where
  participants := m.participants.map fun p =>
    { name := p.name, role := Classification.roleOf m s p, underTest := p.underTest }
  unmatched := (m.participants.filter (Classification.isUnmatched m s)).map (·.name)

end Model

end Lifeline
