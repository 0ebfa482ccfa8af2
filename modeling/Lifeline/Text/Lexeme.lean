import Lifeline.Text.Basic
import Lifeline.Text.Case

/-!
# Lexemes

What a text may start with: blanks, a word, a name, a keyword in any case. Each reader gives back
what follows.
-/

namespace Lifeline.Text

/-- The text after the blanks it starts with, of which there is at least one. -/
def dropBlanks? : List Char → Option (List Char)
  | c :: cs => if isBlank c then some (stripLeft cs) else none
  | [] => none

/-- The word at the start of the text, where there is one, and what follows it. -/
def readWord? (cs : List Char) : Option (List Char × List Char) :=
  match cs.takeWhile isWord with
  | [] => none
  | word => some (word, cs.dropWhile isWord)

/-- A name at the start of the text and what follows it. A name starts with an ASCII letter or an
underscore and goes on as `part` says. -/
def readName? (part : Char → Bool) : List Char → Option (List Char × List Char)
  | c :: cs => if isNameStart c then some (c :: cs.takeWhile part, cs.dropWhile part) else none
  | [] => none

/-- The text after `word`, in any case, and the blanks that follow it. -/
def dropKeyword? (word : List Char) (cs : List Char) : Option (List Char) := do
  dropBlanks? (← dropWordAnyCase? word cs)

/-- The text after `word`, in any case, between blanks. -/
def dropSpacedKeyword? (word : List Char) (cs : List Char) : Option (List Char) := do
  dropKeyword? word (← dropBlanks? cs)

end Lifeline.Text
