import Lifeline.Json.Parser
import Lifeline.Pattern.Basic

/-!
# Written patterns

The pattern that a text writes (`Pattern.parse?`): characters, escapes, sets in square brackets,
groups, alternatives, repetitions, and the marks for the edges of lines, words and the text. `^` and
`$` stand for the edges of lines. And the text that writes given characters (`Pattern.escape`).
-/

namespace Lifeline.Pattern

/-! ## Escapes -/

/-- The characters that a pattern writes with a backslash where they stand for themselves. -/
def isSpecial (c : Char) : Bool :=
  "()[]\x7b\x7d?*+-|^$\\.&~# \t\n\r\x0b\x0c".toList.contains c

/-- The text that writes given characters. -/
def escape (cs : List Char) : List Char :=
  cs.flatMap fun c => if isSpecial c then ['\\', c] else [c]

/-- The character with a code that is written in so many hexadecimal digits, and what follows. -/
def readCode? (digits : Nat) (cs : List Char) : Option (Char × List Char) := do
  let values ← (cs.take digits).mapM Json.hexValue?
  let code := values.foldl (fun n d => 16 * n + d) 0
  if values.length == digits && (code < 0xD800 || (0xE000 ≤ code && code < 0x110000)) then
    some (Char.ofNat code, cs.drop digits)
  else none

def isOctal (c : Char) : Bool := '0' ≤ c && c ≤ '7'

/-- The character with a code in octal digits. -/
def octal (digits : List Char) : Char :=
  Char.ofNat (digits.foldl (fun n d => 8 * n + (d.toNat - 48)) 0)

/-- The character that a letter stands for after a backslash. -/
def controlOf? : Char → Option Char
  | 'a' => some (Char.ofNat 7)
  | 'f' => some (Char.ofNat 12)
  | 'n' => some '\n'
  | 'r' => some '\r'
  | 't' => some '\t'
  | 'v' => some (Char.ofNat 11)
  | _ => none

/-- The class that a letter stands for after a backslash. -/
def classOf? : Char → Option CharItem
  | 'd' => some (.named .digit false)
  | 'D' => some (.named .digit true)
  | 's' => some (.named .blank false)
  | 'S' => some (.named .blank true)
  | 'w' => some (.named .word false)
  | 'W' => some (.named .word true)
  | _ => none

/-- The edge that a letter stands for after a backslash. -/
def edgeOf? : Char → Option Edge
  | 'A' => some .textStart
  | 'Z' => some .textEnd
  | 'b' => some .word
  | 'B' => some .insideOrOutside
  | _ => none

/-- The character that the text after a backslash writes, and what follows. Codes are written in
hexadecimal or octal digits; a letter that stands for nothing is refused. -/
def readEscape? : List Char → Option (Char × List Char)
  | 'x' :: cs => readCode? 2 cs
  | 'u' :: cs => readCode? 4 cs
  | 'U' :: cs => readCode? 8 cs
  | '0' :: cs =>
    let digits := (cs.take 2).takeWhile isOctal
    some (octal digits, cs.drop digits.length)
  | c :: cs =>
    if c.isDigit then
      match cs with
      | d :: e :: rest =>
        if '1' ≤ c && c ≤ '3' && isOctal d && isOctal e then some (octal [c, d, e], rest)
        else none
      | _ => none
    else
      match controlOf? c with
      | some control => some (control, cs)
      | none => if Text.isAsciiLetter c then none else some (c, cs)
  | [] => none

/-! ## Sets -/

/-- An end of a range or a class in square brackets, and what follows. -/
def readItem? : List Char → Option (CharItem × List Char)
  | '\\' :: 'b' :: cs => some (.range (Char.ofNat 8) (Char.ofNat 8), cs)
  | '\\' :: c :: cs =>
    match classOf? c with
    | some item => some (item, cs)
    | none => (readEscape? (c :: cs)).map fun (c, rest) => (.range c c, rest)
  | ['\\'] => none
  | c :: cs => some (.range c c, cs)
  | [] => none

/-- The items of a set up to its closing bracket, on top of `done`, and what follows. A bracket that
comes first is an item. `fuel` bounds their number. -/
def readItems? : (fuel : Nat) → (done : List CharItem) → List Char →
    Option (List CharItem × List Char)
  | 0, _, _ => none
  | fuel + 1, done, cs =>
    match cs with
    | ']' :: rest => if done.isEmpty then own fuel done cs else some (done, rest)
    | _ => own fuel done cs
where
  own (fuel : Nat) (done : List CharItem) (cs : List Char) :
      Option (List CharItem × List Char) := do
    let (item, rest) ← readItem? cs
    match rest with
    | '-' :: ']' :: after => some (done ++ [item, .range '-' '-'], after)
    | '-' :: more =>
      let (last, after) ← readItem? more
      match item, last with
      | .range a _, .range _ b =>
        if a ≤ b then readItems? fuel (done ++ [.range a b]) after else none
      | _, _ => none
    | _ => readItems? fuel (done ++ [item]) rest

/-- A set after its opening bracket, and what follows its closing bracket. -/
def readSet? (cs : List Char) : Option (CharSet × List Char) :=
  let (negated, cs) := match cs with
    | '^' :: rest => (true, rest)
    | _ => (false, cs)
  (readItems? cs.length [] cs).map fun (items, rest) => ({ items, negated }, rest)

/-! ## Tokens -/

/-- What a written pattern consists of. -/
inductive Token where
  | one (set : CharSet)
  | edge (e : Edge)
  | times (least : Nat) (most : Option Nat)
  | bar
  /-- A group opens, perhaps one with a name. -/
  | opening (name : List Char)
  | closing
deriving Repr, DecidableEq

/-- The bounds of a repetition between braces, where the text after the opening brace writes them,
and what follows the closing brace. -/
def readBounds? (cs : List Char) : Option (Nat × Option Nat × List Char) :=
  let (low, rest) := Json.digitsOf cs
  match rest with
  | '}' :: after =>
    if low.isEmpty then none else some (Json.natOf low, some (Json.natOf low), after)
  | ',' :: more =>
    match Json.digitsOf more with
    | (high, '}' :: after) =>
      some (Json.natOf low, if high.isEmpty then none else some (Json.natOf high), after)
    | _ => none
  | _ => none

/-- A repetition, and what follows it. A question mark after it changes nothing about where the
pattern matches; a plus sign is refused. -/
def readTimes? (least : Nat) (most : Option Nat) (cs : List Char) : Option (Token × List Char) :=
  if most.any (· < least) then none
  else
    match cs with
    | '?' :: rest => some (.times least most, rest)
    | '+' :: _ => none
    | _ => some (.times least most, cs)

/-- A set that a single character of a pattern writes, and what follows. -/
def readOne? : List Char → Option (CharSet × List Char)
  | '[' :: cs => readSet? cs
  | '.' :: cs => some (.inLine, cs)
  | '\\' :: c :: cs =>
    match classOf? c with
    | some item => some ({ items := [item] }, cs)
    | none => (readEscape? (c :: cs)).map fun (c, rest) => (.single c, rest)
  | c :: cs => if "\\()|*+?^$".toList.contains c then none else some (.single c, cs)
  | [] => none

/-- A question about the next or the previous character, up to the closing bracket. -/
def readLook? (edge : CharSet → Edge) (cs : List Char) : Option (Token × List Char) := do
  match ← readOne? cs with
  | (set, ')' :: rest) => some (.edge (edge set), rest)
  | _ => none

/-- What a group opens with, and what follows. -/
def readOpening? : List Char → Option (Token × List Char)
  | '?' :: ':' :: cs => some (.opening [], cs)
  | '?' :: '=' :: cs => readLook? (.before · false) cs
  | '?' :: '!' :: cs => readLook? (.before · true) cs
  | '?' :: '<' :: '=' :: cs => readLook? (.after · false) cs
  | '?' :: '<' :: '!' :: cs => readLook? (.after · true) cs
  | '?' :: 'P' :: '<' :: cs =>
    let name := cs.takeWhile (· != '>')
    if Text.isIdentifier name then some (.opening name, cs.drop (name.length + 1)) else none
  | '?' :: _ => none
  | cs => some (.opening [], cs)

/-- The first token of a written pattern, and what follows it. -/
def readToken? : List Char → Option (Token × List Char)
  | '|' :: cs => some (.bar, cs)
  | '(' :: cs => readOpening? cs
  | ')' :: cs => some (.closing, cs)
  | '^' :: cs => some (.edge .lineStart, cs)
  | '$' :: cs => some (.edge .lineEnd, cs)
  | '*' :: cs => readTimes? 0 none cs
  | '+' :: cs => readTimes? 1 none cs
  | '?' :: cs => readTimes? 0 (some 1) cs
  | '{' :: cs =>
    match readBounds? cs with
    | some (least, most, rest) => readTimes? least most rest
    | none => some (.one (.single '{'), cs)
  | '\\' :: c :: cs =>
    match edgeOf? c with
    | some e => some (.edge e, cs)
    | none => (readOne? ('\\' :: c :: cs)).map fun (set, rest) => (.one set, rest)
  | cs => (readOne? cs).map fun (set, rest) => (.one set, rest)

/-- The tokens of a written pattern. `fuel` bounds their number. -/
def tokens? : (fuel : Nat) → List Char → Option (List Token)
  | _, [] => some []
  | 0, _ => none
  | fuel + 1, cs => do
    let (token, rest) ← readToken? cs
    return token :: (← tokens? fuel rest)

/-! ## Patterns -/

/-- A part of a pattern, and whether a repetition may follow it. -/
structure Piece where
  pattern : Pattern
  repeatable : Bool := true
deriving Repr

/-- A group that is being read: its complete branches, and the pieces of its last one, both in
reverse. -/
structure Group where
  branches : List Pattern := []
  pieces : List Piece := []
deriving Repr

namespace Group

def branch (g : Group) : Pattern :=
  g.pieces.foldl (fun rest piece => piece.pattern.andThen rest) .empty

def pattern (g : Group) : Pattern := g.branches.foldl (fun rest p => .either p rest) g.branch

/-- A group with one more piece. -/
def push (g : Group) (p : Pattern) (repeatable : Bool := true) : Group :=
  { g with pieces := { pattern := p, repeatable } :: g.pieces }

end Group

/-- The group that is being read and those around it, after one more token. A repetition follows
anything but a mark for an edge or another repetition. -/
def readInto : Group × List Group → Token → Option (Group × List Group)
  | (g, around), .one set => some (g.push (.one set), around)
  | (g, around), .edge e => some (g.push (.edge e) e.isLook, around)
  | (g, around), .bar => some ({ branches := g.branch :: g.branches }, around)
  | (g, around), .opening _ => some ({}, g :: around)
  | (g, outer :: around), .closing => some (outer.push g.pattern, around)
  | (_, []), .closing => none
  | (g, around), .times least most =>
    match g.pieces with
    | piece :: pieces =>
      if piece.repeatable then
        some ({ g with pieces := pieces }.push (piece.pattern.times least most) false, around)
      else none
    | [] => none

/-- The names of the groups that open. -/
def groupNames (ts : List Token) : List (List Char) :=
  ts.filterMap fun
    | .opening (c :: name) => some (c :: name)
    | _ => none

/-- The pattern that a text writes. Two groups of one name are refused. -/
def parse? (text : String) : Option Pattern := do
  let ts ← tokens? text.length text.toList
  guard (groupNames ts).Nodup
  match ← ts.foldlM readInto ({}, []) with
  | (g, []) => some g.pattern
  | _ => none

end Lifeline.Pattern
