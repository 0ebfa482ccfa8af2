import Lifeline.Text.Lexeme

/-!
# Guards that test one value

A guard such as `order.shipped` or `not paid` reads one value, possibly through attributes. Such a
guard can be driven by setting the value; any other guard is left to a helper.
-/

namespace Lifeline

/-- A guard that tests one value: the value, the attributes read from it (each with its point), and
whether the test is negated. -/
structure ValueTest where
  negated : Bool
  root : String
  path : String
deriving Repr, DecidableEq

namespace ValueTest

/-- Words that name no value. -/
def keywords : List String := ["not", "and", "or", "is", "in", "True", "False", "None"]

/-- Whether the text is a chain of attributes, each of them a point and a name. `fuel` bounds their
number; the length of the text suffices. -/
def isAttributePath : (fuel : Nat) → List Char → Bool
  | _, [] => true
  | 0, _ => false
  | fuel + 1, c :: cs =>
    c == '.' && match Text.readName? Text.isWord cs with
      | some (_, rest) => isAttributePath fuel rest
      | none => false

/-- What follows the word `not` and at least one blank. -/
def dropNot? (cs : List Char) : Option (List Char) :=
  match cs with
  | 'n' :: 'o' :: 't' :: c :: rest => if Text.isBlank c then some (Text.stripLeft rest) else none
  | _ => none

/-- The guard as a test of one value, where it is one. -/
def ofGuard? (guard : String) : Option ValueTest :=
  let cs := Text.strip guard.toList
  let (negated, cs) := match dropNot? cs with
    | some rest => (true, rest)
    | none => (false, cs)
  match Text.readName? Text.isWord cs with
  | none => none
  | some (root, path) =>
    if isAttributePath path.length path && !keywords.contains (.ofList root) then
      some { negated, root := .ofList root, path := .ofList path }
    else none

end ValueTest

end Lifeline
