import Lifeline.Text.Basic
import Lifeline.Text.Case
import Lifeline.Template

/-!
# Names in a case style

Free text and identifiers as lists of lower-case words (`Name.words`), and the words written in one
of the case styles of generated code (`CaseStyle.write`).
-/

namespace Lifeline

namespace Name

/-! ## Words -/

/-- Whether a new word begins at `c`: an upper-case letter after a lower-case letter or a digit, or
the last upper-case letter of several, where a lower-case letter follows. -/
def breaksAt (before : Option Char) (c : Char) (after : Option Char) : Bool :=
  c.isUpper && (before.any (fun b => b.isLower || b.isDigit) ||
    (before.any (·.isUpper) && after.any (·.isLower)))

/-- The text with a space in front of every word that begins inside a run of letters. -/
def spaced (before : Option Char) : List Char → List Char
  | [] => []
  | c :: cs =>
    if breaksAt before c cs.head? then ' ' :: c :: spaced (some c) cs else c :: spaced (some c) cs

/-- The words of a text or of an identifier in any case style, in lower case. -/
def wordsIn (cs : List Char) : List (List Char) :=
  (Text.runs Text.isAsciiAlnum (spaced none cs)).map (·.map Char.toLower)

def words (s : String) : List String := (wordsIn s.toList).map .ofList

/-- The first letter in upper case, the others as they are. -/
def capitalized : List Char → List Char
  | [] => []
  | c :: cs => c.toUpper :: cs

/-- The first letter in lower case, the others as they are. -/
def uncapitalized : List Char → List Char
  | [] => []
  | c :: cs => c.toLower :: cs

/-- The type that a value is taken to have where the diagram gives none: its name with the first
letter in upper case. -/
def typeOf (value : String) : String :=
  match value.toList with
  | [] => ""
  | c :: cs => .ofList (Text.upperChar c ++ cs)

/-- The variable that an argument reads: the part of its name before the first point. -/
def root (argument : String) : String := (Text.Packed.cut '.' argument).1

end Name

/-! ## Case styles -/

/-- How the words of a name are put together. -/
inductive CaseStyle where
  | snake | camel | pascal | upperSnake
  /-- The text stays as it is. -/
  | keep
deriving Repr, DecidableEq

namespace CaseStyle

def ofName? : String → Option CaseStyle
  | "snake" => some .snake
  | "camel" => some .camel
  | "pascal" => some .pascal
  | "upper-snake" => some .upperSnake
  | "keep" => some .keep
  | _ => none

/-- The text as a name in the style. -/
def write (style : CaseStyle) (cs : List Char) : List Char :=
  match style with
  | .snake => Text.join ['_'] (Name.wordsIn cs)
  | .upperSnake => (Text.join ['_'] (Name.wordsIn cs)).map Char.toUpper
  | .pascal => ((Name.wordsIn cs).map Name.capitalized).flatten
  | .camel => Name.uncapitalized ((Name.wordsIn cs).map Name.capitalized).flatten
  | .keep => cs

end CaseStyle

/-- Why a name cannot be made. -/
inductive NameError where
  | unknownStyle (style : String)
  | template (cause : TemplateError)
deriving Repr, DecidableEq

/-- What is said about a name that cannot be made, where something is. -/
def NameError.message? : NameError → Option String
  | .unknownStyle style => some ("Unknown case style: " ++ Text.Packed.quoted style)
  | .template cause => cause.message?

namespace Name

/-- The text in the case style with the given name. -/
def convert (text style : String) : Except NameError String :=
  match CaseStyle.ofName? style with
  | some s => .ok (.ofList (s.write text.toList))
  | none => .error (.unknownStyle style)

def snake (text : String) : String := .ofList (CaseStyle.snake.write text.toList)

end Name

/-- A template of words together with the case style of the name it makes. -/
structure NamePattern where
  pattern : String
  case : String := "snake"
deriving Repr, DecidableEq

namespace NamePattern

/-- The name that the pattern makes of the given words. -/
def apply (p : NamePattern) (words : Template.Values) : Except NameError String :=
  match Template.fill p.pattern words with
  | .ok text => Name.convert text p.case
  | .error e => .error (.template e)

end NamePattern

end Lifeline
