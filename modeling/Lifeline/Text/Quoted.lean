import Lifeline.Text.Basic

/-!
# Quoted text

Text as messages show it: in single quotes, or in double quotes where it holds a single quote and
no double one, with a backslash before the quote, the backslash and whatever is not printable.
-/

namespace Lifeline.Text

/-- The hexadecimal digit of a value below sixteen. -/
def hexDigit (n : Nat) : Char :=
  if n < 10 then Char.ofNat (48 + n) else Char.ofNat (87 + n)

/-- The last `width` hexadecimal digits of `n`. -/
def hex : (width : Nat) → (n : Nat) → List Char
  | 0, _ => []
  | w + 1, n => hex w (n / 16) ++ [hexDigit (n % 16)]

/-- The quote that `quoted` puts around the text. -/
def quoteFor (cs : List Char) : Char :=
  if cs.contains '\'' && !cs.contains '"' then '"' else '\''

/-- One character inside text quoted with `quote`, where the characters in `shown` stand for
themselves. -/
def quotedChar (shown : Char → Bool) (quote c : Char) : List Char :=
  if c == quote || c == '\\' then ['\\', c]
  else if c == '\n' then ['\\', 'n']
  else if c == '\r' then ['\\', 'r']
  else if c == '\t' then ['\\', 't']
  else if shown c then [c]
  else if c.toNat < 0x100 then '\\' :: 'x' :: hex 2 c.toNat
  else if c.toNat < 0x10000 then '\\' :: 'u' :: hex 4 c.toNat
  else '\\' :: 'U' :: hex 8 c.toNat

/-- The text in quotes. -/
def quoted (cs : List Char) : List Char :=
  let quote := quoteFor cs
  quote :: cs.flatMap (quotedChar isPrintable quote) ++ [quote]

/-- The text in quotes, with nothing but ASCII in it. -/
def quotedAscii (cs : List Char) : List Char :=
  let quote := quoteFor cs
  quote :: cs.flatMap (quotedChar (fun c => c.toNat < 128 && isPrintable c) quote) ++ [quote]

end Lifeline.Text

namespace Lifeline.Text.Packed

def quoted (s : String) : String := .ofList (Text.quoted s.toList)

/-- A list of texts, each in quotes. -/
def quotedList (xs : List String) : String := "[" ++ Packed.join ", " (xs.map quoted) ++ "]"

end Lifeline.Text.Packed
