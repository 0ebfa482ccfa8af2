import Lifeline.Yaml.Scalar

/-!
# The tokens of a YAML document

A document as the marks and texts it consists of (`Yaml.tokens?`). Blocks are told by the columns
that their lines start at: where a line starts further on, a block opens, and where one starts
further back, blocks close. That a text is a key is known only at the colon after it; its mark is
then put in front of it (`Scan.key?`).
-/

namespace Lifeline.Yaml

/-- The type that a tag gives a value. -/
inductive Tag where
  /-- The type is to be found out. -/
  | open
  | text | int | float | bool | null | list | map
  | unknown
deriving Repr, DecidableEq

/-- The tag that a text writes. -/
def Tag.ofString : String → Tag
  | "!" => .open
  | "!!str" => .text
  | "!!int" => .int
  | "!!float" => .float
  | "!!bool" => .bool
  | "!!null" => .null
  | "!!seq" => .list
  | "!!map" => .map
  | _ => .unknown

/-- What a document consists of. -/
inductive Token where
  | directive
  | documentStart | documentEnd
  | blockListStart | blockMapStart | blockEnd
  | flowListStart | flowListEnd | flowMapStart | flowMapEnd
  | item | comma | key | value
  | anchor (name : String)
  | alias (name : String)
  | tag (t : Tag)
  | scalar (plain : Bool) (text : String)
deriving Repr, DecidableEq

/-- A text that may turn out to be a key: the number of its token, and where it stands. It must be
one where nothing else can be at its place. -/
structure PossibleKey where
  token : Nat
  required : Bool
  index : Nat
  line : Nat
  column : Nat
deriving Repr

/-- A document that is being read. -/
structure Scan where
  cursor : Cursor
  tokens : Array Token := #[]
  /-- How many brackets are open. -/
  depth : Nat := 0
  /-- The column of the innermost block, and those of the blocks around it. -/
  indent : Int := -1
  indents : List Int := []
  /-- Whether a key may stand here. -/
  keyAllowed : Bool := true
  /-- The possible key at each depth. -/
  keys : List (Nat × PossibleKey) := []
deriving Repr

namespace Scan

/-- The document after one more token. -/
def push (s : Scan) (t : Token) : Scan := { s with tokens := s.tokens.push t }

/-- The document at another place. -/
def at_ (s : Scan) (c : Cursor) : Scan := { s with cursor := c }

/-- The document after a token of so many characters. -/
def pushMark (s : Scan) (t : Token) (length : Nat := 1) : Scan :=
  (s.at_ (s.cursor.advanceBy length)).push t

/-! ## Blocks -/

/-- How many blocks close at a column, and which ones stay open. -/
def closing (column indent : Int) : List Int → Nat × Int × List Int
  | [] => (0, indent, [])
  | outer :: indents =>
    if column < indent then
      let (n, rest) := closing column outer indents
      (n + 1, rest)
    else (0, indent, outer :: indents)

/-- The document after the blocks have closed that cannot go on at a column. Within brackets there
are no blocks. -/
def closeBlocks (s : Scan) (column : Int) : Scan :=
  if s.depth != 0 then s
  else
    let (n, indent, indents) := closing column s.indent s.indents
    { s with indent, indents, tokens := s.tokens ++ Array.replicate n Token.blockEnd }

/-- The document with a block at a column, if that is further on than the innermost block, where the
token with a number opens the block. -/
def openBlock (s : Scan) (column : Nat) (start : Token) (number : Nat) : Scan :=
  if s.indent < column then
    { s with indent := column, indents := s.indent :: s.indents
             tokens := s.tokens.insertIdxIfInBounds number start }
  else s

/-! ## Possible keys -/

/-- The document without the possible key at the present depth. One that is required must not be
given up. -/
def dropKey? (s : Scan) : Option Scan :=
  match s.keys.lookup s.depth with
  | none => some s
  | some key =>
    if key.required then none else some { s with keys := s.keys.filter (·.1 != s.depth) }

/-- The document with a possible key at the present place, where one is allowed. -/
def noteKey? (s : Scan) : Option Scan :=
  if s.keyAllowed then do
    let s ← s.dropKey?
    let c := s.cursor
    let key : PossibleKey := {
      token := s.tokens.size, required := s.depth == 0 && s.indent == c.column
      index := c.index, line := c.line, column := c.column }
    return { s with keys := (s.depth, key) :: s.keys }
  else some s

/-- The document without the possible keys that no colon can follow any more: a key is a part of one
line, and not too long. -/
def dropOldKeys? (s : Scan) : Option Scan :=
  let isOld (key : PossibleKey) : Bool :=
    key.line != s.cursor.line || 1024 < s.cursor.index - key.index
  if s.keys.any fun e => isOld e.2 && e.2.required then none
  else some { s with keys := s.keys.filter fun e => !isOld e.2 }

/-- The document in which the possible key at the present depth is one. -/
def key? (s : Scan) : Option Scan :=
  match s.keys.lookup s.depth with
  | none => none
  | some key =>
    let s := { s with
      keys := s.keys.filter (·.1 != s.depth), keyAllowed := false
      tokens := s.tokens.insertIdxIfInBounds key.token .key }
    some (if s.depth == 0 then s.openBlock key.column .blockMapStart key.token else s)

/-! ## Marks -/

/-- A mark that starts or ends a document, or that is about it. -/
def documentMark? (s : Scan) (t : Token) (c : Cursor) : Option Scan := do
  let s ← (s.closeBlocks (-1)).dropKey?
  return ({ s with keyAllowed := false }.at_ c).push t

def openFlow? (s : Scan) (t : Token) : Option Scan := do
  let s ← s.noteKey?
  return { s with depth := s.depth + 1, keyAllowed := true }.pushMark t

def closeFlow? (s : Scan) (t : Token) : Option Scan := do
  let s ← s.dropKey?
  if s.depth == 0 then none
  else return { s with depth := s.depth - 1, keyAllowed := false }.pushMark t

def comma? (s : Scan) : Option Scan := do
  let s ← { s with keyAllowed := true }.dropKey?
  return s.pushMark .comma

/-- The mark of an item or of a key, with the token that opens a block of them. -/
def blockMark? (s : Scan) (t start : Token) (keyAllowed : Bool) : Option Scan :=
  if s.depth == 0 && !s.keyAllowed then none
  else do
    let s := if s.depth == 0 then s.openBlock s.cursor.column start s.tokens.size else s
    let s ← { s with keyAllowed }.dropKey?
    return s.pushMark t

/-- The colon after a key, or without one. -/
def value? (s : Scan) : Option Scan :=
  match s.key? with
  | some s => some (s.pushMark .value)
  | none => s.blockMark? .value .blockMapStart (s.depth == 0)

/-! ## Texts and names -/

/-- A text, and the place after it. -/
def pushText (s : Scan) (plain : Bool) (text : List Char) (c : Cursor) : Scan :=
  (s.at_ c).push (.scalar plain (.ofList text))

def plain? (s : Scan) : Option Scan := do
  let s ← s.noteKey?
  let (text, c, ended) := readPlain (s.depth != 0) (s.indent + 1) (s.cursor.rest.length + 1) [] []
    false s.cursor
  return { s with keyAllowed := ended }.pushText true text c

def quoted? (s : Scan) (quote : Char) : Option Scan := do
  let s ← s.noteKey?
  let c := s.cursor.advance
  let (text, c) ← readQuoted? quote (c.rest.length + 1) [] c
  return { s with keyAllowed := false }.pushText false text c

def block? (s : Scan) (fold : Bool) : Option Scan := do
  let s ← { s with keyAllowed := true }.dropKey?
  let (text, c) ← readBlock? fold s.indent s.cursor.advance
  return s.pushText false text c

/-- Characters of the name of an anchor. -/
def isNamePart (c : Char) : Bool := Text.isAsciiAlnum c || c == '-' || c == '_'

/-- The name of an anchor, after the mark. -/
def name? (s : Scan) (token : String → Token) : Option Scan := do
  let s ← s.noteKey?
  let c := s.cursor.advance
  let name := c.take isNamePart
  let c := c.advanceBy name.length
  let ends := endsWord c.peek || c.peek.any "?:,]\x7d%@`".toList.contains
  if name.isEmpty || !ends then none
  else return ({ s with keyAllowed := false }.at_ c).push (token (.ofList name))

def tag? (s : Scan) : Option Scan := do
  let s ← s.noteKey?
  let written := s.cursor.take (!isGap ·)
  let c := s.cursor.advanceBy written.length
  if c.peek == some '\t' then none
  else return ({ s with keyAllowed := false }.at_ c).push (.tag (.ofString (.ofList written)))

/-- A directive: its name, and for the version of the language its value, up to the end of its
line. -/
def directive? (s : Scan) : Option Scan :=
  let line := s.cursor.take (!isBreak ·)
  let words := (Text.runs (!isGap ·) (line.drop 1)).map String.ofList
  let startsAtOnce := !(line.drop 1).head?.all isGap
  let isVersion (v : String) : Bool :=
    match Text.Packed.splitOn '.' v with
    | [major, minor] => major == "1" && !minor.isEmpty && minor.toList.all Char.isDigit
    | _ => false
  let fits := match words with
    | "YAML" :: version :: rest => isVersion version && rest.head?.all (Text.Packed.startsWith "#")
    | "YAML" :: [] => false
    | _ => true
  if startsAtOnce && fits then
    s.documentMark? .directive (s.cursor.advanceBy line.length)
  else none

/-! ## Tokens in order -/

/-- The document at the next token. Where a line has ended, a key may stand. `fuel` bounds the
number of lines. -/
def skipGap : (fuel : Nat) → Scan → Scan
  | 0, s => s
  | fuel + 1, s =>
    let c := s.cursor.skipComment
    match c.lineBreak? with
    | none => s.at_ c
    | some (_, c) =>
      skipGap fuel { s with cursor := c, keyAllowed := s.keyAllowed || s.depth == 0 }

/-- Whether a plain text may start with a character, given the one after it. -/
def startsPlain (inFlow : Bool) (c : Char) (next : Option Char) : Bool :=
  !(isGap c || "-?:,[]\x7b\x7d#&*!|>'\"%@`".toList.contains c) ||
    (!endsWord next && (c == '-' || (!inFlow && (c == '?' || c == ':'))))

/-- The document after the next token, which starts with the character `x`. -/
def token? (s : Scan) (x : Char) : Option Scan :=
  let c := s.cursor
  let next := c.advance.peek
  let inFlow := s.depth != 0
  let isMark := inFlow || endsWord next
  if c.column == 0 && x == '%' then s.directive?
  else if c.column == 0 && c.atMark '-' then s.documentMark? .documentStart (c.advanceBy 3)
  else if c.column == 0 && c.atMark '.' then s.documentMark? .documentEnd (c.advanceBy 3)
  else if x == '[' then s.openFlow? .flowListStart
  else if x == '\x7b' then s.openFlow? .flowMapStart
  else if x == ']' then s.closeFlow? .flowListEnd
  else if x == '\x7d' then s.closeFlow? .flowMapEnd
  else if x == ',' then s.comma?
  else if x == '-' && endsWord next then s.blockMark? .item .blockListStart true
  else if x == '?' && isMark then s.blockMark? .key .blockMapStart (!inFlow)
  else if x == ':' && isMark then s.value?
  else if x == '*' then s.name? .alias
  else if x == '&' then s.name? .anchor
  else if x == '!' then s.tag?
  else if x == '|' && !inFlow then s.block? false
  else if x == '>' && !inFlow then s.block? true
  else if x == '\'' || x == '"' then s.quoted? x
  else if startsPlain inFlow x next then s.plain?
  else none

/-- All tokens. `fuel` bounds their number. -/
def run? : (fuel : Nat) → Scan → Option (Array Token)
  | 0, _ => none
  | fuel + 1, s => do
    let s := s.skipGap (s.cursor.rest.length + 1)
    let s ← s.dropOldKeys?
    let s := s.closeBlocks s.cursor.column
    match s.cursor.peek with
    | some x => run? fuel (← s.token? x)
    | none =>
      let s ← (s.closeBlocks (-1)).dropKey?
      return s.tokens

end Scan

/-- The tokens of a document. A byte order mark may come first. -/
def tokens? (text : List Char) : Option (Array Token) :=
  if text.all isAllowed then
    let c : Cursor := { rest := text }
    let c := if c.peek.any (·.toNat == 0xFEFF) then c.advance else c
    Scan.run? (text.length + 1) { cursor := c }
  else none

end Lifeline.Yaml
