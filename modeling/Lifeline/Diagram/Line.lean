import Lifeline.Diagram.Error
import Lifeline.Text.Lexeme

/-!
# Lines of a diagram

Each line of a diagram text is blank, a comment, a framing line or part of a note, or it makes one
statement: an arrow, a declaration of a participant, the start of a fragment, an `else` or an `end`
(`Line.scan`). A line that is none of these is refused.
-/

namespace Lifeline

/-- What a line says by its form alone. -/
inductive Line.Statement where
  /-- An arrow; the label is what follows the colon, where there is one. -/
  | arrow (source glyph target : String) (label : Option String)
  /-- A declaration of a participant, with the keyword that names its kind. -/
  | participant (keyword name : String)
  | fragment (keyword label : String)
  | orElse (label : String)
  | close
deriving Repr, DecidableEq

/-- A line that makes a statement: its number from one on, and its text without outer blanks. -/
structure Line where
  number : Nat
  text : String
  statement : Line.Statement
deriving Repr, DecidableEq

namespace Line

/-- What stands in place of a source for a message that comes from outside. -/
def outsideSource : String := "["

/-- What stands in place of a target for a message that goes outside. -/
def outsideTarget : String := "]"

/-! ## Arrows -/

/-- The label after a colon; the inner `none` stands for a line that ends without one. -/
def readLabel (cs : List Char) : Option (Option String) :=
  match Text.stripLeft cs with
  | [] => some none
  | ':' :: label => some (some (.ofList (Text.strip label)))
  | _ => none

/-- One or two dashes and one or two heads at the start of the text, and what follows them. -/
def readGlyph (cs : List Char) : Option (List Char × List Char) :=
  match cs with
  | '-' :: '-' :: '>' :: '>' :: rest => some (['-', '-', '>', '>'], rest)
  | '-' :: '-' :: '>' :: rest => some (['-', '-', '>'], rest)
  | '-' :: '>' :: '>' :: rest => some (['-', '>', '>'], rest)
  | '-' :: '>' :: rest => some (['-', '>'], rest)
  | _ => none

/-- The text without the sign that may mark an activation. -/
def dropActivation : List Char → List Char
  | '+' :: cs => cs
  | '-' :: cs => cs
  | cs => cs

/-- The text of the line as an arrow from left to right. -/
def readArrow? (cs : List Char) : Option Statement := do
  let (source, rest) ← match cs with
    | '[' :: rest => some (['['], rest)
    | _ => Text.readWord? cs
  let (glyph, rest) ← readGlyph (Text.stripLeft rest)
  let (target, rest) ← match Text.stripLeft (dropActivation rest) with
    | ']' :: rest => some ([']'], rest)
    | rest => Text.readWord? rest
  let label ← readLabel rest
  return .arrow (.ofList source) (.ofList glyph) (.ofList target) label

/-- The text of the line as a result written from right to left, such as `[<-- A : value`. -/
def readReversed? (cs : List Char) : Option Statement := do
  let rest ← match cs with
    | '[' :: rest => some (Text.stripLeft rest)
    | _ => none
  let (glyph, rest) ← match rest with
    | '<' :: '-' :: '-' :: rest => some ("-->", rest)
    | '<' :: '-' :: rest => some ("->", rest)
    | _ => none
  let (source, rest) ← Text.readWord? (Text.stripLeft rest)
  let label ← readLabel rest
  return .arrow (.ofList source) glyph outsideTarget label

/-! ## Declarations -/

def participantKeywords : List String :=
  ["participant", "actor", "boundary", "control", "entity", "database", "collections", "queue"]

/-- Whether the text is blank or an order such as `order 10`. -/
def isOrder (cs : List Char) : Bool :=
  (Text.stripLeft cs).isEmpty ||
    match Text.dropSpacedKeyword? "order".toList cs with
    | some rest =>
      !(rest.takeWhile Text.isDecimal).isEmpty &&
        (Text.stripLeft (rest.dropWhile Text.isDecimal)).isEmpty
    | none => false

/-- Whether the text names an alias that a participant is shown as. -/
def isAlias (cs : List Char) : Bool :=
  match Text.dropSpacedKeyword? ['a', 's'] cs with
  | some rest => !rest.isEmpty
  | none => false

/-- The name that follows a keyword and blanks: a word that may have an alias, or a quoted title
with the word that stands for it. -/
def readDeclared? (cs : List Char) : Option String :=
  match cs with
  | '"' :: cs => do
    let title := cs.takeWhile (· != '"')
    let rest ← if title.isEmpty then none else some ((cs.dropWhile (· != '"')).drop 1)
    let rest ← if cs.contains '"' then Text.dropSpacedKeyword? ['a', 's'] rest else none
    let (name, rest) ← Text.readWord? rest
    if isOrder rest then some (.ofList name) else none
  | _ => do
    let (name, rest) ← Text.readWord? cs
    if isAlias rest || isOrder rest then some (.ofList name) else none

/-- The text of the line as a declaration of a participant. -/
def readParticipant? (cs : List Char) : Option Statement :=
  participantKeywords.findSome? fun keyword => do
    let rest ← Text.dropWordAnyCase? keyword.toList cs
    let rest ← Text.dropBlanks? rest
    let name ← readDeclared? rest
    return .participant (toLowerCase (.ofList (cs.take keyword.length))) name

/-! ## Fragments -/

def fragmentKeywords : List String :=
  ["loop", "alt", "opt", "par", "critical", "break", "group", "neg", "ref", "rect", "region",
    "seq", "strict"]

/-- The text of the line as the start, a branch or the end of a fragment. -/
def readFragment? (cs : List Char) : Option Statement :=
  let keyword := cs.takeWhile Text.isLetterAnyCase
  let rest := cs.dropWhile Text.isLetterAnyCase
  if keyword.isEmpty || rest.head?.any Text.isWord then none
  else
    let keyword := toLowerCase (.ofList keyword)
    let label := String.ofList (Text.strip rest)
    if keyword == "end" && label.isEmpty then some .close
    else if keyword == "else" then some (.orElse label)
    else if fragmentKeywords.contains keyword then some (.fragment keyword label)
    else none

/-! ## Lines that say nothing -/

/-- What a line starts with, in any case, that has no part in the interaction. -/
def ignoredStarts : List String :=
  ["@startuml", "@enduml", "sequencediagram", "autonumber", "title ", "skinparam", "hide ",
    "show ", "activate ", "deactivate ", "destroy ", "create ", "==", "...", "|||"]

def commentStarts : List String := ["'", "//", "%%"]

def noteKeywords : List String := ["note", "hnote", "rnote"]

def startsNote (cs : List Char) : Bool :=
  noteKeywords.any fun keyword =>
    match Text.dropWordAnyCase? keyword.toList cs with
    | some rest => !rest.head?.any Text.isWord
    | none => false

/-- Whether the text ends a note of several lines. -/
def endsNote (cs : List Char) : Bool :=
  match Text.dropWordAnyCase? ['e', 'n', 'd'] cs with
  | some rest =>
    noteKeywords.any fun keyword =>
      Text.dropWordAnyCase? keyword.toList (Text.stripLeft rest) == some []
  | none => false

/-- Whether the line says nothing: it is empty, a comment or one of the ignored forms. -/
def isIgnored (cs : List Char) : Bool :=
  cs.isEmpty || commentStarts.any (fun s => Text.startsWith s.toList cs) ||
    let lowered := Text.lower cs
    ignoredStarts.any fun s => Text.startsWith s.toList lowered

/-! ## Scanning -/

/-- What the text of a line states. The forms are tried in this order. -/
def classify? (cs : List Char) : Option Statement :=
  (readArrow? cs).orElse fun _ => (readReversed? cs).orElse fun _ =>
    (readParticipant? cs).orElse fun _ => readFragment? cs

/-- The statements of the given lines, of which the first has the number `number`. A note whose
first line has no colon goes on to the line that ends it. -/
def scanFrom (number : Nat) (inNote : Bool) : List (List Char) → Except DiagramError (List Line)
  | [] => .ok []
  | raw :: rest =>
    let text := Text.strip raw
    if inNote then scanFrom (number + 1) (!endsNote text) rest
    else if isIgnored text then scanFrom (number + 1) false rest
    else if startsNote text then scanFrom (number + 1) (!text.contains ':') rest
    else
      match classify? text with
      | none => .error ⟨number, .unreadable (.ofList text)⟩
      | some statement =>
        match scanFrom (number + 1) false rest with
        | .ok lines => .ok ({ number, text := .ofList text, statement } :: lines)
        | .error e => .error e

/-- The statements of a diagram text. -/
def scan (source : String) : Except DiagramError (List Line) :=
  scanFrom 1 false (Text.lines source.toList)

end Line

end Lifeline
