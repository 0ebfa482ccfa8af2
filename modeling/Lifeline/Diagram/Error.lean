import Lifeline.Text.Quoted

/-!
# Diagram errors

Why a diagram text is refused (`DiagramFault`), always on one line of it (`DiagramError`). Every
fault belongs to one `Issue`, explains itself (`DiagramFault.detail`) and proposes a way to write
what was meant (`DiagramFault.suggestion`).
-/

namespace Lifeline

/-- The classes of faults in a diagram. -/
inductive Issue where
  | malformedLine
  | missingMethodLabel
  | ambiguousArrow
  | unsupportedFragment
  | unexpectedBlockKeyword
  | unterminatedBlock
  | inactiveParticipant
deriving Repr, DecidableEq

def Issue.phrase : Issue → String
  | .malformedLine => "malformed line"
  | .missingMethodLabel => "missing method label"
  | .ambiguousArrow => "ambiguous arrow"
  | .unsupportedFragment => "unrecognized fragment keyword"
  | .unexpectedBlockKeyword => "unexpected block keyword"
  | .unterminatedBlock => "unterminated block"
  | .inactiveParticipant => "inactive participant"

/-- What is wrong with a line of a diagram. -/
inductive DiagramFault where
  /-- The line has none of the forms a line may have. -/
  | unreadable (text : String)
  /-- An entry message stands after another entry message or a call. -/
  | lateEntry
  | entryWithoutCall (target label : String)
  | resultWithoutValue (source label : String)
  | unlabelled (source glyph target : String)
  /-- A label in double angle brackets is no raise. -/
  | unknownStereotype (label : String)
  /-- A raise goes to another participant. -/
  | raiseElsewhere (source target label : String)
  | unreadableCall (label : String)
  | namelessCall (source glyph target label : String)
  /-- A label without parentheses does not go back to the caller. `caller` is the caller that the
  source could return to. -/
  | neitherCallNorReturn (source glyph target label : String) (caller : Option String)
  | unreadableArgument (text : String)
  | unsupportedFragment (keyword : String)
  | strayElse
  | strayEnd
  /-- A block is still open at the end of the text. -/
  | unclosed (keyword : String) (opened : Int)
  /-- A participant that no open call has reached sends a message. `root` is the participant that
  the diagram starts from. -/
  | inactive (participant root : String)
deriving Repr, DecidableEq

namespace DiagramFault

def issue : DiagramFault → Issue
  | .unreadable _ | .lateEntry | .raiseElsewhere .. | .unreadableCall _ | .unreadableArgument _ =>
    .malformedLine
  | .entryWithoutCall .. | .unlabelled .. | .namelessCall .. => .missingMethodLabel
  | .resultWithoutValue .. | .neitherCallNorReturn .. => .ambiguousArrow
  | .unknownStereotype _ | .unsupportedFragment _ => .unsupportedFragment
  | .strayElse | .strayEnd => .unexpectedBlockKeyword
  | .unclosed .. => .unterminatedBlock
  | .inactive .. => .inactiveParticipant

def detail : DiagramFault → String
  | .unreadable text => "Cannot interpret " ++ Text.Packed.quoted text
  | .lateEntry => "An entry message must precede every other arrow"
  | .entryWithoutCall _ label =>
    "Entry message label " ++ Text.Packed.quoted label ++ " is not a method call"
  | .resultWithoutValue _ label =>
    "Result label " ++ Text.Packed.quoted label ++ " is not a value name"
  | .unlabelled source glyph target => s!"Arrow {source} {glyph} {target} has no label"
  | .unknownStereotype label => "Cannot interpret stereotype label " ++ Text.Packed.quoted label
  | .raiseElsewhere source target _ =>
    s!"<<throws>> must be a self-arrow, got {source} -> {target}"
  | .unreadableCall label => "Cannot interpret call label " ++ Text.Packed.quoted label
  | .namelessCall _ _ _ label => "Call label " ++ Text.Packed.quoted label ++ " has no method name"
  | .neitherCallNorReturn source glyph target label _ =>
    s!"{source} {glyph} {target} : " ++ Text.Packed.quoted label ++
      " is neither a call (no parentheses) nor a return to an open caller"
  | .unreadableArgument text =>
    "Argument " ++ Text.Packed.quoted text ++ " is neither a name nor a literal"
  | .unsupportedFragment keyword => s!"Fragment '{keyword}' is not supported"
  | .strayElse => "'else' outside an 'alt' block"
  | .strayEnd => "'end' without an open 'loop' or 'alt' block"
  | .unclosed keyword opened => s!"'{keyword}' block opened on line {opened} is never closed"
  | .inactive participant _ =>
    s!"{participant} sends a message but no open call has activated it"

/-- How to write a fragment that is not supported. -/
def fragmentSuggestion : String → String
  | "opt" => "rewrite as 'alt [condition]' ... 'else' ... 'end'"
  | "par" => "write the calls as a plain sequence"
  | "break" => "model the early exit as an 'alt' branch ending in a <<throws>> self-arrow"
  | "neg" => "remove the fragment; invalid interactions cannot be generated"
  | "ref" => "inline the referenced interaction"
  | _ => "remove the fragment and keep its arrows in sequence"

/-- How to write what was meant. -/
def suggestion : DiagramFault → String
  | .unreadable _ =>
    "use 'A -> B : method(args)', 'B --> A : value', 'loop', 'alt', 'else' or 'end'"
  | .lateEntry => "move the '[->' line to the top of the diagram"
  | .entryWithoutCall target _ => s!"write '[-> {target} : method(args)'"
  | .resultWithoutValue source _ => s!"write '{source} -->] : value' or 'value : Type'"
  | .unlabelled source glyph target =>
    s!"label the arrow, e.g. '{source} {glyph} {target} : method(args)'"
  | .unknownStereotype _ =>
    "only <<throws>> is supported: 'X -> X : <<throws>> ErrorType(\"message\")'"
  | .raiseElsewhere source _ label => s!"write '{source} -> {source} : {label}'"
  | .unreadableCall _ =>
    "write the label as 'method(arg1, arg2)' and bind its result on a return arrow"
  | .namelessCall source glyph target label =>
    s!"write '{source} {glyph} {target} : method{label}'"
  | .neitherCallNorReturn source _ _ label caller =>
    s!"add parentheses for a call ('{label}()')" ++
      match caller with
      | some caller => s!" or return with '{source} --> {caller} : {label}'"
      | none => ""
  | .unreadableArgument _ =>
    "pass variable names bound by earlier return arrows, or quoted literals"
  | .unsupportedFragment keyword => fragmentSuggestion keyword
  | .strayElse => "open the block with 'alt [condition]'"
  | .strayEnd => "remove the stray 'end'"
  | .unclosed .. => "add a matching 'end' line"
  | .inactive participant root =>
    s!"call {participant} first, or start the diagram from {root}"

end DiagramFault

/-- A fault on a line of a diagram. -/
structure DiagramError where
  line : Int
  fault : DiagramFault
deriving Repr, DecidableEq

def DiagramError.message (e : DiagramError) : String :=
  s!"Line {e.line}: {e.fault.issue.phrase}: {e.fault.detail} (suggestion: {e.fault.suggestion})"

end Lifeline
