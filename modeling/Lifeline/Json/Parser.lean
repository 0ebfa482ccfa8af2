import Lifeline.Data.Basic

/-!
# Reading JSON

One JSON value with nothing but blanks around it (`Json.parse?`). The values NaN and Infinity are
read too; of several entries with one key the last one counts.
-/

namespace Lifeline.Json

/-- Text that has not been read yet. -/
abbrev Input := List Char

/-- The four characters that may stand between tokens. -/
def isSpace (c : Char) : Bool := c == ' ' || c == '\n' || c == '\r' || c == '\t'

/-- The text without the blanks it starts with. -/
def skip (cs : Input) : Input := cs.dropWhile isSpace

/-! ## Strings -/

/-- The value of a hexadecimal digit. -/
def hexValue? (c : Char) : Option Nat :=
  if '0' ≤ c && c ≤ '9' then some (c.toNat - 48)
  else if 'a' ≤ c && c ≤ 'f' then some (c.toNat - 87)
  else if 'A' ≤ c && c ≤ 'F' then some (c.toNat - 55)
  else none

/-- The UTF-16 unit of four hexadecimal digits, and what follows them. -/
def readUnit? : Input → Option (Nat × Input)
  | a :: b :: c :: d :: rest => do
    let a ← hexValue? a
    let b ← hexValue? b
    let c ← hexValue? c
    let d ← hexValue? d
    return (((a * 16 + b) * 16 + c) * 16 + d, rest)
  | _ => none

/-- The character that an escape other than `\u` stands for. -/
def simpleEscape? : Char → Option Char
  | '"' => some '"'
  | '\\' => some '\\'
  | '/' => some '/'
  | 'b' => some (Char.ofNat 8)
  | 'f' => some (Char.ofNat 12)
  | 'n' => some '\n'
  | 'r' => some '\r'
  | 't' => some '\t'
  | _ => none

/-- The character of a UTF-16 unit, where the unit that follows may complete it. -/
def readScalar (unit : Nat) (rest : Input) : Char × Input :=
  if 0xD800 ≤ unit && unit < 0xDC00 then
    match rest with
    | '\\' :: 'u' :: more =>
      match readUnit? more with
      | some (low, after) =>
        if 0xDC00 ≤ low && low < 0xE000 then
          (Char.ofNat (0x10000 + (unit - 0xD800) * 0x400 + (low - 0xDC00)), after)
        else (Char.ofNat 0xFFFD, rest)
      | none => (Char.ofNat 0xFFFD, rest)
    | _ => (Char.ofNat 0xFFFD, rest)
  else if 0xDC00 ≤ unit && unit < 0xE000 then (Char.ofNat 0xFFFD, rest)
  else (Char.ofNat unit, rest)

/-- The characters of a string after its opening quote, in reverse and on top of `done`, and what
follows its closing quote. `fuel` bounds the number of characters. -/
def readString? : (fuel : Nat) → (done : List Char) → Input → Option (String × Input)
  | 0, _, _ => none
  | _ + 1, _, [] => none
  | fuel + 1, done, c :: cs =>
    if c == '"' then some (.ofList done.reverse, cs)
    else if c == '\\' then
      match cs with
      | 'u' :: rest => do
        let (unit, rest) ← readUnit? rest
        let (scalar, rest) := readScalar unit rest
        readString? fuel (scalar :: done) rest
      | e :: rest => do readString? fuel ((← simpleEscape? e) :: done) rest
      | [] => none
    else if c.toNat < 32 then none
    else readString? fuel (c :: done) cs

/-! ## Numbers -/

/-- The number that decimal digits write. -/
def natOf (digits : List Char) : Nat := digits.foldl (fun n c => 10 * n + (c.toNat - 48)) 0

/-- The digits the text starts with, and what follows them. -/
def digitsOf (cs : Input) : List Char × Input :=
  (cs.takeWhile Char.isDigit, cs.dropWhile Char.isDigit)

/-- The digits after a decimal point, where the text starts with a point and a digit. -/
def readFraction? : Input → Option (List Char × Input)
  | '.' :: cs =>
    match digitsOf cs with
    | ([], _) => none
    | (digits, rest) => some (digits, rest)
  | _ => none

/-- The exponent, where the text starts with one. -/
def readExponent? : Input → Option (Int × Input)
  | c :: cs =>
    if c == 'e' || c == 'E' then
      let (negative, cs) := match cs with
        | '-' :: rest => (true, rest)
        | '+' :: rest => (false, rest)
        | _ => (false, cs)
      match digitsOf cs with
      | ([], _) => none
      | (digits, rest) =>
        let n : Int := natOf digits
        some (if negative then -n else n, rest)
    else none
  | [] => none

/-- A number, without its sign, where the text starts with one. -/
def readNumber? (negative : Bool) (cs : Input) : Option (Data × Input) :=
  let (whole, rest) := match cs with
    | '0' :: rest => (['0'], rest)
    | _ => digitsOf cs
  if whole.isEmpty then none
  else
    let (fraction, afterFraction) := match readFraction? rest with
      | some (digits, rest) => (some digits, rest)
      | none => (none, rest)
    let (exponent, afterExponent) := match readExponent? afterFraction with
      | some (e, rest) => (some e, rest)
      | none => (none, afterFraction)
    if fraction.isNone && exponent.isNone then
      let n : Int := natOf whole
      some (.int (if negative then -n else n), afterExponent)
    else
      let places := fraction.getD []
      some (.float (Binary64.ofDecimal negative (natOf (whole ++ places))
        (exponent.getD 0 - places.length)), afterExponent)

/-! ## Values -/

/-- The words that stand for a value. -/
def readWord? (cs : Input) : Option (Data × Input) :=
  words.findSome? fun (word, value) => (Text.drop? word.toList cs).map (value, ·)
where
  words : List (String × Data) :=
    [("null", .null), ("true", .bool true), ("false", .bool false), ("NaN", .float .nan),
      ("Infinity", .float (.infinite false)), ("-Infinity", .float (.infinite true))]

mutual

/-- A value at the start of the text, and what follows it. `fuel` bounds the number of characters
of the value. -/
def readValue? : (fuel : Nat) → Input → Option (Data × Input)
  | 0, _ => none
  | _ + 1, [] => none
  | fuel + 1, c :: cs =>
    if c == '"' then (readString? (cs.length + 1) [] cs).map fun (s, rest) => (.text s, rest)
    else if c == '[' then
      match skip cs with
      | ']' :: rest => some (.list [], rest)
      | rest => readItems? fuel [] rest
    else if c == '\x7b' then
      match skip cs with
      | '\x7d' :: rest => some (.map [], rest)
      | rest => readEntries? fuel [] rest
    else if c == '-' then
      (readNumber? true cs).orElse fun _ => readWord? (c :: cs)
    else (readNumber? false (c :: cs)).orElse fun _ => readWord? (c :: cs)

/-- The items of a list up to its closing bracket, after those of `done` in reverse. -/
def readItems? : (fuel : Nat) → (done : List Data) → Input → Option (Data × Input)
  | 0, _, _ => none
  | fuel + 1, done, cs => do
    let (value, rest) ← readValue? fuel cs
    match skip rest with
    | ']' :: rest => return (.list (value :: done).reverse, rest)
    | ',' :: rest => readItems? fuel (value :: done) (skip rest)
    | _ => none

/-- The entries of a map up to its closing brace, after those of `done` in reverse. -/
def readEntries? : (fuel : Nat) → (done : Data.Entries) → Input → Option (Data × Input)
  | 0, _, _ => none
  | fuel + 1, done, cs =>
    match cs with
    | '"' :: cs => do
      let (key, rest) ← readString? (cs.length + 1) [] cs
      match skip rest with
      | ':' :: rest =>
        let (value, rest) ← readValue? fuel (skip rest)
        let done := (.text key, value) :: done
        match skip rest with
        | '\x7d' :: rest => return (Data.ofEntries done.reverse, rest)
        | ',' :: rest => readEntries? fuel done (skip rest)
        | _ => none
      | _ => none
    | _ => none

end

/-- The value that the text holds, where it is well-formed. -/
def parse? (s : String) : Option Data :=
  let cs := skip s.toList
  match readValue? (cs.length + 1) cs with
  | some (value, rest) => if (skip rest).isEmpty then some value else none
  | none => none

end Lifeline.Json
