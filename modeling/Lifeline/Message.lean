import Lifeline.Text.Basic

/-!
# Message templates

The message of a raised exception may name values in braces (`Message.placeholders`).
-/

namespace Lifeline.Message

/-- The name at the start of the text where a closing brace follows it. -/
def nameBeforeBrace? (cs : List Char) : Option (List Char) :=
  match cs.takeWhile isPart, cs.dropWhile isPart with
  | c :: name, '}' :: _ => if c.isDigit then none else some (c :: name)
  | _, _ => none
where
  /-- What a placeholder's name is made of. -/
  isPart (c : Char) : Bool := Text.isAsciiAlnum c || c == '_'

/-- The names in braces, in order. -/
def placeholdersIn : List Char → List (List Char)
  | [] => []
  | c :: cs =>
    match if c == '{' then nameBeforeBrace? cs else none with
    | some name => name :: placeholdersIn cs
    | none => placeholdersIn cs

/-- The values that a message names, each once, in the order of their first mention. -/
def placeholders (template : String) : List String :=
  ((placeholdersIn template.toList).map String.ofList).eraseDups

end Lifeline.Message
