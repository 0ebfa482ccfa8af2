import Lifeline.Json.Parser
import Lifeline.Yaml.Cursor

/-!
# The texts of a YAML document

Plain, quoted and block texts. Within a text, a single line break reads as a blank and further ones
as line feeds, except in a literal block. The functions return the text and the place after it.
-/

namespace Lifeline.Yaml

/-- What line breaks between two parts of a text read as. -/
def folded (first : Char) (others : List Char) : List Char :=
  if first != '\n' then first :: others else if others.isEmpty then [' '] else others

/-! ## Plain texts -/

/-- The characters that a plain text may hold on, in or outside of brackets. It ends before a colon
that ends a word. -/
def plainWord (inFlow : Bool) : List Char → List Char
  | [] => []
  | c :: cs =>
    let endsHere := endsWord cs.head? || (inFlow && cs.head?.any ",[]\x7b\x7d".toList.contains)
    if isGap c || (c == ':' && endsHere) || (inFlow && ",?[]\x7b\x7d".toList.contains c) then []
    else c :: plainWord inFlow cs

/-- The line breaks that come next, with blanks around them, up to a mark that ends the document.
`fuel` bounds the number of steps. -/
def plainBreaks : (fuel : Nat) → Cursor → List Char × Cursor × Bool
  | 0, c => ([], c, false)
  | fuel + 1, c =>
    if c.peek == some ' ' then plainBreaks fuel c.advance
    else
      match c.lineBreak? with
      | none => ([], c, false)
      | some (b, c) =>
        if c.atDocumentMark then ([b], c, true)
        else
          let (bs, c, stopped) := plainBreaks fuel c
          (b :: bs, c, stopped)

/-- What stands between two words of a plain text, and whether a line ends there. Nothing does where
the document ends. -/
def plainGap (c : Cursor) : List Char × Cursor × Bool :=
  let blanks := c.take (· == ' ')
  let c := c.skip (· == ' ')
  match c.lineBreak? with
  | none => (blanks, c, false)
  | some (b, c) =>
    if c.atDocumentMark then ([], c, true)
    else
      let (bs, c, stopped) := plainBreaks c.rest.length c
      (if stopped then [] else folded b bs, c, true)

/-- A plain text after `done` and the gap before the next word, the place after it, and whether the
line ended there. Outside of brackets its lines start at a column, or further on. `fuel` bounds the
number of words. -/
def readPlain (inFlow : Bool) (indent : Int) :
    (fuel : Nat) → (done gap : List Char) → (ended : Bool) → Cursor →
    List Char × Cursor × Bool
  | 0, done, _, ended, c => (done, c, ended)
  | fuel + 1, done, gap, ended, c =>
    let word := if c.peek == some '#' then [] else plainWord inFlow c.rest
    if word.isEmpty then (done, c, ended)
    else
      let done := done ++ gap ++ word
      let (gap, c, ended) := plainGap (c.advanceBy word.length)
      if gap.isEmpty || c.peek == some '#' || (!inFlow && (c.column : Int) < indent) then
        (done, c, ended)
      else readPlain inFlow indent fuel done gap ended c

/-! ## Quoted texts -/

/-- The line breaks that come next in a quoted text, with blanks around them. The document must not
end here. `fuel` bounds their number. -/
def quotedBreaks? : (fuel : Nat) → Cursor → Option (List Char × Cursor)
  | 0, _ => none
  | fuel + 1, c =>
    if c.atDocumentMark then none
    else
      let c := c.skip fun x => x == ' ' || x == '\t'
      match c.lineBreak? with
      | none => some ([], c)
      | some (b, c) => (quotedBreaks? fuel c).map fun (bs, c) => (b :: bs, c)

/-- The character that a letter stands for after a backslash. -/
def escaped? : Char → Option Char
  | '0' => some (Char.ofNat 0)
  | 'a' => some (Char.ofNat 7)
  | 'b' => some (Char.ofNat 8)
  | 't' | '\t' => some '\t'
  | 'n' => some '\n'
  | 'v' => some (Char.ofNat 11)
  | 'f' => some (Char.ofNat 12)
  | 'r' => some '\r'
  | 'e' => some (Char.ofNat 27)
  | ' ' => some ' '
  | '"' => some '"'
  | '\\' => some '\\'
  | '/' => some '/'
  | 'N' => some (Char.ofNat 0x85)
  | '_' => some (Char.ofNat 0xA0)
  | 'L' => some (Char.ofNat 0x2028)
  | 'P' => some (Char.ofNat 0x2029)
  | _ => none

/-- How many hexadecimal digits follow a letter after a backslash. -/
def codeLength? : Char → Option Nat
  | 'x' => some 2
  | 'u' => some 4
  | 'U' => some 8
  | _ => none

/-- What the text after a backslash stands for, and the place after it: a character by its letter or
its code, or nothing where the line goes on. -/
def readEscaped? (c : Cursor) : Option (List Char × Cursor) :=
  match c.rest with
  | [] => none
  | x :: rest =>
    match escaped? x, codeLength? x with
    | some y, _ => some ([y], c.advance)
    | none, some n => do
      let digits ← (rest.take n).mapM Json.hexValue?
      let code := digits.foldl (fun v d => 16 * v + d) 0
      if digits.length == n && code < 0x110000 then
        some ([Char.ofNat code], c.advanceBy (n + 1))
      else none
    | none, none =>
      match c.lineBreak? with
      | some (_, c) => quotedBreaks? (c.rest.length + 1) c
      | none => none

/-- A quoted text after `done`, which is reversed, and the place after its closing quote. Within
double quotes a backslash escapes; within single ones a quote is written twice. `fuel` bounds the
number of steps. -/
def readQuoted? (quote : Char) : (fuel : Nat) → (done : List Char) → Cursor →
    Option (List Char × Cursor)
  | 0, _, _ => none
  | fuel + 1, done, c =>
    match c.rest with
    | [] => none
    | x :: rest =>
      if x == quote then
        if quote == '\'' && rest.head? == some '\'' then
          readQuoted? quote fuel ('\'' :: done) (c.advanceBy 2)
        else some (done.reverse, c.advance)
      else if x == '\\' && quote == '"' then do
        let (cs, c) ← readEscaped? c.advance
        readQuoted? quote fuel (cs.reverse ++ done) c
      else if isGap x then
        let blanks := c.take fun x => x == ' ' || x == '\t'
        let c := c.skip fun x => x == ' ' || x == '\t'
        match c.lineBreak? with
        | none => readQuoted? quote fuel (blanks.reverse ++ done) c
        | some (b, c) => do
          let (bs, c) ← quotedBreaks? (c.rest.length + 1) c
          readQuoted? quote fuel ((folded b bs).reverse ++ done) c
      else readQuoted? quote fuel (x :: done) c.advance

/-! ## Block texts -/

/-- What becomes of the line breaks at the end of a block. -/
inductive Chomping where
  | clip | strip | keep
deriving Repr, DecidableEq

/-- The signs after the mark of a block: what becomes of its end, and how far it is indented, in
either order. -/
def blockSigns? (c : Cursor) : Option (Chomping × Option Nat × Cursor) :=
  let chomping (c : Cursor) : Option Chomping × Cursor := match c.peek with
    | some '+' => (some .keep, c.advance)
    | some '-' => (some .strip, c.advance)
    | _ => (none, c)
  let indent (c : Cursor) : Option Nat × Cursor := match c.peek with
    | some x => if x.isDigit then (some (x.toNat - 48), c.advance) else (none, c)
    | none => (none, c)
  let (first, c) := chomping c
  let (indented, c) := indent c
  let (second, c) := if first.isNone && indented.isSome then chomping c else (none, c)
  let goesOn := c.peek.any fun x => !(x == ' ' || isBreak x)
  if indented == some 0 || goesOn then none
  else some ((first <|> second).getD .clip, indented, c)

/-- The place after the rest of a line on which nothing but a comment may stand. -/
def endLine? (c : Cursor) : Option Cursor :=
  let c := c.skipComment
  match c.peek with
  | none => some c
  | some _ => c.lineBreak?.map (·.2)

/-- The empty lines that come next, and the greatest column that one of them, or the line after
them, starts at. `fuel` bounds the number of steps. -/
def emptyLines : (fuel : Nat) → (indent : Nat) → Cursor → List Char × Nat × Cursor
  | 0, indent, c => ([], indent, c)
  | fuel + 1, indent, c =>
    if c.peek == some ' ' then emptyLines fuel (max indent c.advance.column) c.advance
    else
      match c.lineBreak? with
      | none => ([], indent, c)
      | some (b, c) =>
        let (bs, indent, c) := emptyLines fuel indent c
        (b :: bs, indent, c)

/-- The empty lines that come next in a block with an indentation. `fuel` bounds their number. -/
def blockBreaks (indent : Nat) : (fuel : Nat) → Cursor → List Char × Cursor
  | 0, c => ([], c)
  | fuel + 1, c =>
    let c := c.advanceBy (min (c.take (· == ' ')).length (indent - c.column))
    match c.lineBreak? with
    | none => ([], c)
    | some (b, c) =>
      let (bs, c) := blockBreaks indent fuel c
      (b :: bs, c)

/-- The lines of a block after `done`, its last line break where there is one, the empty lines at
its end, and the place after it. `fuel` bounds the number of lines. -/
def blockLines (fold : Bool) (indent : Nat) :
    (fuel : Nat) → (done : List Char) → (last : Option Char) → (breaks : List Char) → Cursor →
    List Char × Option Char × List Char × Cursor
  | 0, done, last, breaks, c => (done, last, breaks, c)
  | fuel + 1, done, last, breaks, c =>
    if c.column != indent || c.peek.isNone then (done, last, breaks, c)
    else
      let isText (x : Option Char) : Bool := !x.any fun x => x == ' ' || x == '\t'
      let startsText := isText c.peek
      let line := c.take (!isBreak ·)
      let c := c.advanceBy line.length
      let (last, c) := match c.lineBreak? with
        | some (b, c) => (some b, c)
        | none => (none, c)
      let done := done ++ breaks ++ line
      let (breaks, c) := blockBreaks indent (c.rest.length + 1) c
      if c.column != indent || c.peek.isNone then (done, last, breaks, c)
      else
        let joint :=
          if fold && last == some '\n' && startsText && isText c.peek then
            if breaks.isEmpty then [' '] else []
          else last.toList
        blockLines fold indent fuel (done ++ joint) last breaks c

/-- A block text after its mark, and the place after it, within a block with an indentation. -/
def readBlock? (fold : Bool) (indent : Int) (c : Cursor) : Option (List Char × Cursor) := do
  let (chomping, increment, c) ← blockSigns? c
  let c ← endLine? c
  let least := max (indent + 1).toNat 1
  let (indent, breaks, c) := match increment with
    | none =>
      let (breaks, found, c) := emptyLines (c.rest.length + 1) 0 c
      (max least found, breaks, c)
    | some n =>
      let indent := least + n - 1
      let (breaks, c) := blockBreaks indent (c.rest.length + 1) c
      (indent, breaks, c)
  let (done, last, breaks, c) := blockLines fold indent (c.rest.length + 1) [] none breaks c
  return (done ++ (if chomping == .strip then [] else last.toList) ++
    (if chomping == .keep then breaks else []), c)

end Lifeline.Yaml
