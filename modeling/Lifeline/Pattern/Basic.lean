import Lifeline.Text.Char

/-!
# Patterns of text

A pattern matches stretches of a text, and may ask what stands right before and right after a place
(`Edge`). Whether it matches somewhere in a text (`Pattern.occursIn`) is decided in one pass: after
each character, the patterns that are left to be matched are known (`Pattern.step`), and a match
starts anew at every place.
-/

namespace Lifeline

/-! ## Characters -/

/-- The classes of characters that patterns have a name for. -/
inductive CharClass where
  | word | digit | blank
deriving Repr, DecidableEq

def CharClass.has : CharClass → Char → Bool
  | .word => Text.isWord
  | .digit => Text.isDecimal
  | .blank => Text.isBlank

/-- A part of a set of characters. -/
inductive CharItem where
  | range (first last : Char)
  | named (name : CharClass) (negated : Bool)
deriving Repr, DecidableEq

def CharItem.has : CharItem → Char → Bool
  | .range first last, c => first ≤ c && c ≤ last
  | .named name negated, c => name.has c != negated

/-- A set of characters: those in one of its items, or those in none of them. -/
structure CharSet where
  items : List CharItem
  negated : Bool := false
deriving Repr, DecidableEq

namespace CharSet

def has (s : CharSet) (c : Char) : Bool := s.items.any (·.has c) != s.negated

/-- The set of one character. -/
def single (c : Char) : CharSet := { items := [.range c c] }

/-- All characters but the line feed. -/
def inLine : CharSet := { items := [.range '\n' '\n'], negated := true }

end CharSet

/-! ## Places -/

/-- What a pattern may ask of a place in a text. -/
inductive Edge where
  | textStart | textEnd | lineStart | lineEnd
  /-- A word starts or ends here. -/
  | word
  /-- No word starts or ends here, in a text that is not empty. -/
  | insideOrOutside
  | after (set : CharSet) (negated : Bool)
  | before (set : CharSet) (negated : Bool)
deriving Repr, DecidableEq

/-- Whether an edge is a question about a neighbouring character. -/
def Edge.isLook : Edge → Bool
  | .after _ _ | .before _ _ => true
  | _ => false

/-- Whether a place between two characters, of which either may be missing, is as asked. -/
def Edge.holds (previous next : Option Char) : Edge → Bool
  | .textStart => previous.isNone
  | .textEnd => next.isNone
  | .lineStart => previous.isNone || previous == some '\n'
  | .lineEnd => next.isNone || next == some '\n'
  | .word => previous.any Text.isWord != next.any Text.isWord
  | .insideOrOutside =>
    (previous.isSome || next.isSome) && previous.any Text.isWord == next.any Text.isWord
  | .after set negated => previous.any set.has != negated
  | .before set negated => next.any set.has != negated

/-! ## Patterns -/

/-- A pattern of text. -/
inductive Pattern where
  | empty
  | one (set : CharSet)
  | edge (e : Edge)
  | seq (first second : Pattern)
  | either (first second : Pattern)
  | many (p : Pattern)
deriving Repr, DecidableEq

namespace Pattern

/-- One pattern and then another one. -/
def andThen : Pattern → Pattern → Pattern
  | .empty, q => q
  | p, .empty => p
  | p, q => .seq p q

/-- A pattern so many times. -/
def copies (p : Pattern) : Nat → Pattern
  | 0 => .empty
  | n + 1 => p.andThen (copies p n)

/-- A pattern at most so many times. -/
def upTo (p : Pattern) : Nat → Pattern
  | 0 => .empty
  | n + 1 => .either (p.andThen (upTo p n)) .empty

/-- A pattern at least `least` times, and at most `most` times where that is given. -/
def times (p : Pattern) (least : Nat) : Option Nat → Pattern
  | none => (p.copies least).andThen (.many p)
  | some most => (p.copies least).andThen (p.upTo (most - least))

/-- Whether a pattern matches nothing at all at a place between two characters. -/
def emptyAt (previous next : Option Char) : Pattern → Bool
  | .empty => true
  | .one _ => false
  | .edge e => e.holds previous next
  | .seq p q => p.emptyAt previous next && q.emptyAt previous next
  | .either p q => p.emptyAt previous next || q.emptyAt previous next
  | .many _ => true

/-- What may be left of a pattern when it starts with the character `c`, which stands after
`previous`. -/
def step (previous : Option Char) (c : Char) : Pattern → List Pattern
  | .empty => []
  | .one set => if set.has c then [.empty] else []
  | .edge _ => []
  | .seq p q =>
    (p.step previous c).map (·.andThen q) ++
      if p.emptyAt previous (some c) then q.step previous c else []
  | .either p q => p.step previous c ++ q.step previous c
  | .many p => (p.step previous c).map (·.andThen (.many p))

/-- Whether one of the patterns in `started` matches a start of the text, or the pattern matches
somewhere in it. -/
def occursFrom (p : Pattern) (started : List Pattern) (previous : Option Char) :
    List Char → Bool
  | [] => (p :: started).any (·.emptyAt previous none)
  | c :: cs =>
    (p :: started).any (·.emptyAt previous (some c)) ||
      p.occursFrom ((p :: started).flatMap (·.step previous c)).eraseDups (some c) cs

/-- Whether a pattern matches somewhere in a text. -/
def occursIn (p : Pattern) (text : List Char) : Bool := p.occursFrom [] none text

end Pattern

end Lifeline
