import Lifeline.Text.Char

/-!
# Operations on text

Stripping, splitting and searching, over lists of characters, with the same names for texts that are
packed into a `String` under `Lifeline.Text.Packed`.
-/

namespace Lifeline.Text

/-! ## Blanks -/

/-- The text without the blanks it starts with. -/
def stripLeft (cs : List Char) : List Char := cs.dropWhile isBlank

/-- The text without the blanks it ends with. -/
def stripRight (cs : List Char) : List Char := (cs.reverse.dropWhile isBlank).reverse

/-- The text without the blanks around it. -/
def strip (cs : List Char) : List Char := stripRight (stripLeft cs)

/-! ## Lines -/

/-- The lines of the text, without their line breaks. A carriage return and a line feed that follow
each other are one break; a break at the end opens no further line. -/
def lines : List Char → List (List Char)
  | [] => []
  | '\r' :: '\n' :: cs => [] :: lines cs
  | c :: cs =>
    if isLineBreak c then [] :: lines cs
    else
      match lines cs with
      | [] => [[c]]
      | line :: rest => (c :: line) :: rest

/-! ## Pieces -/

/-- The pieces between the occurrences of `sep`, at least one. -/
def splitOn (sep : Char) : List Char → List (List Char)
  | [] => [[]]
  | c :: cs =>
    if c == sep then [] :: splitOn sep cs
    else
      match splitOn sep cs with
      | [] => [[c]]
      | piece :: rest => (c :: piece) :: rest

/-- The maximal runs of characters with the property `p`. -/
def runs (p : Char → Bool) : List Char → List (List Char)
  | [] => []
  | c :: cs =>
    if p c then
      match cs with
      | [] => [[c]]
      | d :: _ =>
        match runs p cs with
        | run :: rest => if p d then (c :: run) :: rest else [c] :: run :: rest
        | [] => [[c]]
    else runs p cs

/-- The text up to the first `sep`, and what follows that `sep` where there is one. -/
def cut (sep : Char) : List Char → List Char × Option (List Char)
  | [] => ([], none)
  | c :: cs =>
    if c == sep then ([], some cs)
    else
      let (before, after) := cut sep cs
      (c :: before, after)

/-- The texts one after the other with `sep` between them. -/
def join (sep : List Char) : List (List Char) → List Char
  | [] => []
  | [piece] => piece
  | piece :: rest => piece ++ sep ++ join sep rest

/-! ## Search -/

/-- What follows `start` where the text starts with it. -/
def drop? : List Char → List Char → Option (List Char)
  | [], text => some text
  | _ :: _, [] => none
  | s :: ss, c :: cs => if s == c then drop? ss cs else none

def startsWith (start text : List Char) : Bool := start.isPrefixOf text

def endsWith (ending text : List Char) : Bool := ending.isSuffixOf text

/-- Whether `piece` occurs in the text. -/
def occursIn (piece : List Char) : List Char → Bool
  | [] => piece.isEmpty
  | c :: cs => piece.isPrefixOf (c :: cs) || occursIn piece cs

/-- The text with every occurrence of `old`, taken from the left, written as `new`. An empty `old`
changes nothing. -/
def replace (old new : List Char) (text : List Char) : List Char :=
  match old with
  | [] => text
  | o :: os => go (o :: os) text.length text
where
  /-- At most `n` replacements, which suffices where `n` is the length of the text. -/
  go (old : List Char) : Nat → List Char → List Char
    | 0, text => text
    | _ + 1, [] => []
    | n + 1, c :: cs =>
      match drop? old (c :: cs) with
      | some rest => new ++ go old n rest
      | none => c :: go old n cs

/-! ## Word boundaries -/

/-- Whether a word starts or ends between the two characters, of which one may be missing. -/
def isBoundary (before after : Option Char) : Bool :=
  (before.any isWord) != (after.any isWord)

/-- Whether `word` occurs in the text after `before` with a word boundary on both sides. -/
def hasWord (word : List Char) (before : Option Char) : List Char → Bool
  | [] => word.isEmpty && isBoundary before none
  | c :: cs =>
    wordHere word before (c :: cs) || hasWord word (some c) cs
where
  /-- Whether `word` stands at the start of the text, between word boundaries. -/
  wordHere (word : List Char) (before : Option Char) (text : List Char) : Bool :=
    match drop? word text with
    | none => false
    | some rest =>
      isBoundary before text.head? && isBoundary (word.getLast? <|> before) rest.head?

end Lifeline.Text

namespace Lifeline.Text.Packed

def strip (s : String) : String := .ofList (Text.strip s.toList)

def occursIn (piece text : String) : Bool := Text.occursIn piece.toList text.toList

def startsWith (start text : String) : Bool := Text.startsWith start.toList text.toList

def endsWith (ending text : String) : Bool := Text.endsWith ending.toList text.toList

def join (sep : String) : List String → String
  | [] => ""
  | [piece] => piece
  | piece :: rest => piece ++ sep ++ join sep rest

def replace (old new text : String) : String :=
  .ofList (Text.replace old.toList new.toList text.toList)

def cut (sep : Char) (s : String) : String × Option String :=
  let (before, after) := Text.cut sep s.toList
  (.ofList before, after.map .ofList)

def splitOn (sep : Char) (s : String) : List String :=
  (Text.splitOn sep s.toList).map .ofList

end Lifeline.Text.Packed
