import Lifeline.Text.Basic
import Lifeline.Text.Quoted

/-!
# Templates

Text with named slots in braces, such as a line of generated code or a path. A doubled brace stands
for one brace. A slot may ask for the quoted form of its value and for padding or cutting
(`Layout`).

* `Template.next` reads one piece of a template;
* `Template.fill` puts values into the slots. It works from left to right, so of two faults the
  first one is reported.
-/

namespace Lifeline

/-- Why a template cannot be filled. -/
inductive TemplateError where
  /-- The text of the template, or of a slot's layout, is malformed. -/
  | malformed (message : String)
  /-- A slot has a name that no value is given for. -/
  | unknownSlot (name : String)
  /-- A slot asks for a value by its position, or for a character past the end of one. -/
  | noPosition
  /-- A slot asks for a character of a value by something that is no index. -/
  | notAnIndex
  /-- A slot asks for an attribute that text does not have. -/
  | noAttribute (name : String)
deriving Repr, DecidableEq

/-- What is said about a template that cannot be filled, where something is. -/
def TemplateError.message? : TemplateError → Option String
  | .malformed message => some message
  | .unknownSlot name => some (Text.Packed.quoted name)
  | .noPosition | .notAnIndex | .noAttribute _ => none

namespace Template

/-- A slot of a template as written: the name, the conversion after `!` and the layout after `:`. -/
structure Slot where
  name : List Char
  conversion : Option Char := none
  layout : List Char := []
deriving Repr, DecidableEq

/-- A plain slot as a template holds it. -/
def slotText (name : String) : String := "\x7b" ++ name ++ "\x7d"

/-! ## Reading a template -/

/-- The text up to the brace that closes a layout, and what follows the brace. `depth` counts the
braces open inside the layout. -/
def splitLayout (depth : Nat) : List Char → Except TemplateError (List Char × List Char)
  | [] => .error (.malformed "unmatched '\x7b' in format spec")
  | '{' :: cs => do
    let (layout, rest) ← splitLayout (depth + 1) cs
    return ('{' :: layout, rest)
  | '}' :: cs =>
    match depth with
    | 0 => .ok ([], cs)
    | d + 1 => do
      let (layout, rest) ← splitLayout d cs
      return ('}' :: layout, rest)
  | c :: cs => do
    let (layout, rest) ← splitLayout depth cs
    return (c :: layout, rest)

/-- The name of a slot, the character that ends it and what follows that character. A name runs on
to the bracket that closes one opened in it. -/
def splitName (inBracket : Bool) : List Char → Except TemplateError (List Char × Char × List Char)
  | [] => .error (.malformed "expected '\x7d' before end of string")
  | c :: cs =>
    if inBracket then
      match splitName (c != ']') cs with
      | .ok (name, rest) => .ok (c :: name, rest)
      | .error e => .error e
    else if c == '{' then .error (.malformed "unexpected '\x7b' in field name")
    else if c == '}' || c == ':' || c == '!' then .ok ([], c, cs)
    else
      match splitName (c == '[') cs with
      | .ok (name, rest) => .ok (c :: name, rest)
      | .error e => .error e

/-- The slot that follows an opening brace, and what follows its closing brace. -/
def readSlot (cs : List Char) : Except TemplateError (Slot × List Char) := do
  match ← splitName false cs with
  | (name, '}', rest) => return ({ name }, rest)
  | (name, ':', rest) =>
    let (layout, rest) ← splitLayout 0 rest
    return ({ name, layout }, rest)
  | (name, _, rest) =>
    match rest with
    | [] => .error (.malformed "end of string while looking for conversion specifier")
    | conversion :: rest =>
      match rest with
      | [] => .error (.malformed "unmatched '\x7b' in format spec")
      | '}' :: rest => return ({ name, conversion := some conversion }, rest)
      | ':' :: rest =>
        let (layout, rest) ← splitLayout 0 rest
        return ({ name, conversion := some conversion, layout }, rest)
      | _ => .error (.malformed "expected ':' after conversion specifier")

/-- A part of a template: a character that stands for itself, or a slot. -/
inductive Piece where
  | char (c : Char)
  | slot (s : Slot)
deriving Repr, DecidableEq

/-- The first piece of a template that begins with `c`, and the rest of the template. -/
def next (c : Char) (cs : List Char) : Except TemplateError (Piece × List Char) :=
  match c, cs with
  | '}', '}' :: rest => .ok (.char '}', rest)
  | '}', _ => .error (.malformed "Single '\x7d' encountered in format string")
  | '{', '{' :: rest => .ok (.char '{', rest)
  | '{', [] => .error (.malformed "Single '\x7b' encountered in format string")
  | '{', _ => do
    let (slot, rest) ← readSlot cs
    return (.slot slot, rest)
  | c, cs => .ok (.char c, cs)

/-! ## Layout of a value -/

/-- Which side of a value the padding goes to. -/
inductive Align where
  | left | right | center
deriving Repr, DecidableEq

/-- How a slot lays out its value. -/
structure Layout where
  fill : Char := ' '
  align : Align := .left
  width : Nat := 0
  /-- The most characters of the value that are kept. -/
  limit : Option Nat := none
deriving Repr, DecidableEq

/-- The largest number that a template may hold. -/
def numberBound : Nat := 9223372036854775807

/-- The value of the digits the text starts with, and what follows them. -/
def readNumber (cs : List Char) : Except TemplateError (Option Nat × List Char) :=
  let digits := cs.takeWhile Text.isDecimal
  let value := digits.foldl (fun n c => 10 * n + Text.decimalValue c) 0
  if numberBound < value then .error (.malformed "Too many decimal digits in format string")
  else .ok (if digits.isEmpty then none else some value, cs.dropWhile Text.isDecimal)

/-- The alignment that a character asks for; the outer `some` says that it is one, the inner
`none` that text cannot have it. -/
def alignOf? : Char → Option (Option Align)
  | '<' => some (some .left)
  | '>' => some (some .right)
  | '^' => some (some .center)
  | '=' => some none
  | _ => none

/-- The fill character and the alignment a layout starts with, and the rest of it. -/
def readAlign : List Char → Option Char × Option (Option Align) × List Char
  | c :: d :: rest =>
    match alignOf? d with
    | some a => (some c, some a, rest)
    | none =>
      match alignOf? c with
      | some a => (none, some a, d :: rest)
      | none => (none, none, c :: d :: rest)
  | [c] =>
    match alignOf? c with
    | some a => (none, some a, [])
    | none => (none, none, [c])
  | [] => (none, none, [])

/-- The limit that a layout gives after a point, and the rest of it. -/
def readLimit : List Char → Except TemplateError (Option Nat × List Char)
  | '.' :: cs => do
    match ← readNumber cs with
    | (none, _) => .error (.malformed "Format specifier missing precision")
    | (some n, rest) => return (some n, rest)
  | cs => .ok (none, cs)

/-- The separator for thousands, which text cannot have, and the rest of the layout. -/
def readSeparator : List Char → Except TemplateError (Option Char × List Char)
  | ',' :: '_' :: _ => .error (.malformed "Cannot specify both ',' and '_'.")
  | '_' :: ',' :: _ => .error (.malformed "Cannot specify both ',' and '_'.")
  | ',' :: rest => .ok (some ',', rest)
  | '_' :: rest => .ok (some '_', rest)
  | cs => .ok (none, cs)

/-- The kinds of value, by the letter a layout ends with, that may have the separator. -/
def separatedKinds (separator : Char) : List Char :=
  if separator == '_' then "deEfFgG%boxX".toList else "deEfFgG%".toList

/-- A character as messages about a template show it: as it is where it is above the space and below
`bound`, else in hexadecimal. -/
def shownBelow (bound : Nat) (c : Char) : String :=
  if 32 < c.toNat && c.toNat < bound then String.ofList [c]
  else "\\x" ++ String.ofList (Nat.toDigits 16 c.toNat)

/-- The letter that a layout ends with, as messages show it. -/
def shownKind (c : Char) : String := shownBelow 128 c

/-- The letter of a conversion, as messages show it. -/
def shownConversion (c : Char) : String := shownBelow 127 c

/-- A layout as written after the colon of a slot. -/
def readLayout (written : List Char) : Except TemplateError Layout := do
  let (fill, align, cs) := readAlign written
  let (sign, cs) :=
    match cs with
    | '+' :: rest => (some "Sign", rest)
    | '-' :: rest => (some "Sign", rest)
    | ' ' :: rest => (some "Space", rest)
    | _ => (none, cs)
  let (zeroSign, cs) :=
    match cs with
    | 'z' :: rest => (true, rest)
    | _ => (false, cs)
  let (alternate, cs) :=
    match cs with
    | '#' :: rest => (true, rest)
    | _ => (false, cs)
  let (zeros, cs) :=
    match fill, cs with
    | none, '0' :: rest => (true, rest)
    | _, _ => (false, cs)
  let (width, cs) ← readNumber cs
  let (separator, cs) ← readSeparator cs
  let (limit, cs) ← readLimit cs
  let type ←
    match cs with
    | [] => .ok 's'
    | [c] => .ok c
    | _ =>
      .error (.malformed
        ("Invalid format specifier '" ++ String.ofList written ++ "' for object of type 'str'"))
  if let some c := separator then
    if !(separatedKinds c).contains type then
      throw (.malformed
        ("Cannot specify '" ++ String.ofList [c] ++ "' with '" ++ shownKind type ++ "'."))
  if type != 's' then
    throw (.malformed
      ("Unknown format code '" ++ shownKind type ++ "' for object of type 'str'"))
  if let some what := sign then
    throw (.malformed (what ++ " not allowed in string format specifier"))
  if zeroSign then
    throw (.malformed "Negative zero coercion (z) not allowed in string format specifier")
  if alternate then
    throw (.malformed "Alternate form (#) not allowed in string format specifier")
  if align == some none then
    throw (.malformed "'=' alignment not allowed in string format specifier")
  return {
    fill := fill.getD (if zeros then '0' else ' ')
    align := (align.join).getD .left
    width := width.getD 0
    limit }

/-- A value under a layout. -/
def Layout.apply (l : Layout) (value : List Char) : List Char :=
  let shown := match l.limit with
    | some n => value.take n
    | none => value
  let missing := l.width - shown.length
  let before := match l.align with
    | .left => 0
    | .right => missing
    | .center => missing / 2
  List.replicate before l.fill ++ shown ++ List.replicate (missing - before) l.fill

/-! ## Filling -/

/-- The values that a template may use, by name. -/
abbrev Values := List (String × String)

/-- The character of `value` at the index written as `index`. -/
def charAt (value index : List Char) : Except TemplateError (List Char) := do
  match ← readNumber index with
  | (some n, []) =>
    match value[n]? with
    | some c => .ok [c]
    | none => .error .noPosition
  | _ =>
    .error (if index.isEmpty then .malformed "Empty attribute in format string" else .notAnIndex)

/-- A value after the accesses that follow the name in a slot, as in `name[0]`. At most `fuel` of
them are read, which the length of the text bounds. -/
def access : (fuel : Nat) → (value : List Char) → (path : List Char) →
    Except TemplateError (List Char)
  | _, value, [] => .ok value
  | 0, value, _ => .ok value
  | _ + 1, _, '.' :: rest =>
    .error (match rest with
      | [] => .malformed "Empty attribute in format string"
      | _ => .noAttribute (.ofList rest))
  | fuel + 1, value, '[' :: rest =>
    match Text.cut ']' rest with
    | (_, none) => .error (.malformed "Missing ']' in format string")
    | (index, some rest) => do access fuel (← charAt value index) rest
  | _ + 1, _, _ =>
    .error (.malformed "Only '.' or '[' may follow ']' in format field specifier")

/-- The value of a slot before conversion and layout. -/
def lookUp (values : Values) (name : List Char) : Except TemplateError (List Char) :=
  let head := name.takeWhile fun c => c != '.' && c != '['
  let path := name.dropWhile fun c => c != '.' && c != '['
  if head.all Text.isDecimal then readNumber head >>= fun _ => .error .noPosition
  else
    match values.lookup (.ofList head) with
    | none => .error (.unknownSlot (.ofList head))
    | some value => access path.length value.toList path

/-- A value after the conversion of a slot. -/
def convert (conversion : Option Char) (value : List Char) : Except TemplateError (List Char) :=
  match conversion with
  | none => .ok value
  | some 's' => .ok value
  | some 'r' => .ok (Text.quoted value)
  | some 'a' => .ok (Text.quotedAscii value)
  | some c =>
    .error (.malformed ("Unknown conversion specifier " ++ shownConversion c))

/-- Fills the slots of `cs` from left to right, those inside layouts by `fillLayout`. `fuel` bounds
the number of pieces, which the length of the text bounds. -/
def fillPieces (values : Values) (fillLayout : List Char → Except TemplateError (List Char)) :
    (fuel : Nat) → List Char → Except TemplateError (List Char)
  | _, [] => .ok []
  | 0, _ :: _ => .ok []
  | fuel + 1, c :: cs => do
    match ← next c cs with
    | (.char c, rest) => return c :: (← fillPieces values fillLayout fuel rest)
    | (.slot slot, rest) =>
      let value ← lookUp values slot.name
      let value ← convert slot.conversion value
      let layout ← if slot.layout.contains '{' then fillLayout slot.layout else .ok slot.layout
      let shown ← if layout.isEmpty then .ok value else (·.apply value) <$> readLayout layout
      return shown ++ (← fillPieces values fillLayout fuel rest)

/-- Fills the slots of a text. `depth` bounds how deep layouts may hold slots themselves. -/
def fillFrom (values : Values) : (depth : Nat) → List Char → Except TemplateError (List Char)
  | 0, _ => .error (.malformed "Max string recursion exceeded")
  | depth + 1, cs => fillPieces values (fillFrom values depth) cs.length cs

/-- The template with the values in its slots. -/
def fill (template : String) (values : Values) : Except TemplateError String :=
  String.ofList <$> fillFrom values 2 template.toList

end Template

end Lifeline
