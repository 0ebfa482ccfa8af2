import Lifeline.Diagram.Element
import Lifeline.Diagram.Error
import Lifeline.Text.Lexeme

/-!
# Labels

The forms that the label of an arrow may have: a call with its arguments, a value with an optional
type, and a raised exception with an optional message; and the labels of blocks: the guards of
branches, and what a loop runs over.
-/

namespace Lifeline.Label

/-- What a dotted name is made of after its first character. -/
def isDotted (c : Char) : Bool := Text.isWord c || c == '.'

/-- What a type is made of after its first character. -/
def isTypePart (c : Char) : Bool :=
  Text.isWord c || c == '[' || c == ']' || c == '<' || c == '>' || c == ',' || c == ' ' || c == '.'

def isType : List Char → Bool
  | [] => false
  | c :: cs => Text.isNameStart c && cs.all isTypePart

/-! ## Values -/

/-- A label of the form `value` or `value : Type`. -/
def readValue? (cs : List Char) : Option (String × Option String) := do
  let (value, rest) ← Text.readName? Text.isWord cs
  match Text.stripLeft rest with
  | [] => return (.ofList value, none)
  | ':' :: rest =>
    let type := Text.strip rest
    if isType type then return (.ofList value, some (.ofList type)) else none
  | _ => none

/-! ## Calls -/

/-- A label of the form `method(arguments)`: the method, where it is there, and the text of the
arguments. The last parenthesis closes the list. -/
def readCall? (cs : List Char) : Option (Option String × List Char) :=
  let (method, rest) := match Text.readName? Text.isWord cs with
    | some (name, rest) => (some (String.ofList name), rest)
    | none => (none, cs)
  match Text.stripLeft rest with
  | '(' :: rest =>
    let inner := Text.stripRight rest
    if inner.getLast? == some ')' then some (method, inner.dropLast) else none
  | _ => none

/-- The text up to the quote that closes a literal, and what follows that quote. A backslash takes
the character after it along. -/
def readQuoted? (quote : Char) : List Char → Option (List Char × List Char)
  | [] => none
  | [c] => if c == quote then some ([], []) else none
  | c :: d :: cs =>
    if c == quote then some ([], d :: cs)
    else if c == '\\' then (readQuoted? quote cs).map fun (text, rest) => (c :: d :: text, rest)
    else (readQuoted? quote (d :: cs)).map fun (text, rest) => (c :: text, rest)

/-- Whether the text is a whole number or a number with a decimal point. -/
def isUnsigned (cs : List Char) : Bool :=
  !(cs.takeWhile Text.isDecimal).isEmpty &&
    match cs.dropWhile Text.isDecimal with
    | [] => true
    | '.' :: places => !places.isEmpty && places.all Text.isDecimal
    | _ => false

def literalWords : List String := ["true", "false", "null", "none", "nil"]

def isLiteralWord (s : String) : Bool := literalWords.contains (toLowerCase s)

def isLiteral (cs : List Char) : Bool :=
  (match cs with
    | '"' :: rest => (readQuoted? '"' rest).any (·.2.isEmpty)
    | '\'' :: rest => (readQuoted? '\'' rest).any (·.2.isEmpty)
    | '-' :: rest => isUnsigned rest
    | _ => isUnsigned cs) || isLiteralWord (.ofList cs)

/-- The name of an argument of the form `name` or `name : Type`. -/
def readArgumentName? (cs : List Char) : Option (List Char) := do
  let (name, rest) ← Text.readName? isDotted cs
  match rest with
  | [] => return name
  | _ =>
    match Text.stripLeft rest with
    | ':' :: rest => if isType (Text.stripLeft rest) then return name else none
    | _ => none

/-- The text cut at the commas that stand outside quotes and brackets. `quote` is the quote that is
open, `depth` the number of brackets open. -/
def splitArguments (quote : Option Char) (depth : Int) : List Char → List (List Char)
  | [] => [[]]
  | c :: cs =>
    match quote with
    | some q => push c (splitArguments (if c == q then none else some q) depth cs)
    | none =>
      if c == '"' || c == '\'' then push c (splitArguments (some c) depth cs)
      else if c == '(' || c == '[' || c == '\x7b' || c == '<' then
        push c (splitArguments none (depth + 1) cs)
      else if c == ')' || c == ']' || c == '\x7d' || c == '>' then
        push c (splitArguments none (depth - 1) cs)
      else if c == ',' && depth == 0 then [] :: splitArguments none depth cs
      else push c (splitArguments none depth cs)
where
  /-- The pieces with `c` in front of the first. -/
  push (c : Char) : List (List Char) → List (List Char)
    | [] => [[c]]
    | piece :: rest => (c :: piece) :: rest

/-- One argument, written without outer blanks. -/
def readArgument (cs : List Char) : Except DiagramFault Argument :=
  if isLiteral cs then .ok { name := .ofList cs, isLiteral := true }
  else
    match readArgumentName? cs with
    | some name => .ok { name := .ofList name }
    | none => .error (.unreadableArgument (.ofList cs))

/-- The arguments between the parentheses of a call. -/
def readArguments (cs : List Char) : Except DiagramFault (List Argument) :=
  if (Text.stripLeft cs).isEmpty then .ok []
  else (splitArguments none 0 cs).mapM fun piece => readArgument (Text.strip piece)

/-! ## Raises -/

/-- The message between the parentheses of a raise, where there is one. The text goes from the
opening parenthesis to the end of the label. -/
def readMessage? (cs : List Char) : Option (Option String) :=
  match cs with
  | [] => some none
  | '(' :: rest =>
    match Text.stripLeft rest with
    | '"' :: rest => do
      let (message, rest) ← readQuoted? '"' rest
      if closes rest then some (some (.ofList (Text.replace ['\\', '"'] ['"'] message))) else none
    | rest => if closes rest then some none else none
  | _ => none
where
  /-- Whether the text is a closing parenthesis between blanks. -/
  closes (cs : List Char) : Bool := Text.strip cs == [')']

/-- A label of the form `<<throws>> Type("message")`: the type and the message. -/
def readRaise? (cs : List Char) : Option (String × Option String) := do
  let rest ← Text.drop? ['<', '<'] cs
  let rest ← Text.drop? "throws".toList (Text.stripLeft rest)
  let rest ← Text.drop? ['>', '>'] (Text.stripLeft rest)
  let (type, rest) ← Text.readName? isDotted (Text.stripLeft rest)
  let message ← readMessage? (Text.stripLeft rest)
  return (.ofList type, message)

/-! ## Guards -/

/-- The guard of a branch without the brackets around it; an empty guard is none. -/
def readGuard (label : String) : Option String :=
  let text := Text.strip label.toList
  let text :=
    if text.head? == some '[' && text.getLast? == some ']' then
      Text.strip (text.drop 1).dropLast
    else text
  if text.isEmpty then none else some (.ofList text)

/-! ## Loops -/

/-- An element and a collection with `in` between them. -/
def readElementIn? (cs : List Char) : Option (String × String) := do
  let (element, rest) ← Text.readWord? cs
  let rest ← Text.dropSpacedKeyword? ['i', 'n'] rest
  match rest.takeWhile isDotted with
  | [] => none
  | collection => return (.ofList element, .ofList collection)

/-- The element and the collection that the label of a loop names, as in `for each x in xs`. What
follows the collection does not matter. -/
def readLoop? (label : String) : Option (String × String) :=
  let cs := Text.strip label.toList
  let afterFor := Text.dropKeyword? ['f', 'o', 'r'] cs
  let afterForEach := afterFor.bind (Text.dropKeyword? ['e', 'a', 'c', 'h'])
  let afterEach := Text.dropKeyword? ['e', 'a', 'c', 'h'] cs
  [afterForEach, afterFor, afterEach].findSome? fun start => start.bind readElementIn?

end Lifeline.Label
