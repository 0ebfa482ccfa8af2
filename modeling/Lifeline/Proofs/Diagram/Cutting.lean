import Lifeline.Diagram.Label

/-!
# Cutting at commas

A list of arguments is cut at the commas outside of quotes and brackets, before any argument is
read. The cutting takes a backslash for a character like others, so it sees quotes in a literal
where the reading of the literal sees none.

* `openQuote`, `outside`, `nesting`: what a text is to quotes that know no backslash, and to the
  brackets outside of them.
* `Unsplit`: no comma of a text is one that a list is cut at.
* `splitArguments_append`: a text that is not cut stays in one piece, and leaves the quotes and
  brackets open that it leaves open (`splitArguments_cut`, `splitArguments_uncut`).
* `unsplit_or_cut`: a text is not cut, or cut first at one of its commas.
-/

set_option autoImplicit false

namespace Lifeline.Label

def isQuote (c : Char) : Bool := c == '"' || c == '\''

/-! ## Quotes that know no backslash -/

/-- The quote that is open behind a text. -/
def openQuote : Option Char → List Char → Option Char
  | quote, [] => quote
  | none, c :: cs => openQuote (if isQuote c then some c else none) cs
  | some quote, c :: cs => openQuote (if c == quote then none else some quote) cs

/-- What of a text stands outside of quotes. -/
def outside : Option Char → List Char → List Char
  | _, [] => []
  | none, c :: cs => if isQuote c then outside (some c) cs else c :: outside none cs
  | some quote, c :: cs => outside (if c == quote then none else some quote) cs

/-- What a character adds to the number of open brackets. -/
def bracket (c : Char) : Int :=
  if c == '(' || c == '[' || c == '\x7b' || c == '<' then 1
  else if c == ')' || c == ']' || c == '\x7d' || c == '>' then -1
  else 0

/-- How many more brackets a text opens than it closes. -/
def nesting : List Char → Int
  | [] => 0
  | c :: cs => bracket c + nesting cs

/-- No comma of the text is one that a list is cut at, where `quote` and `depth` brackets are open
in front of the text: all that stand outside of quotes stand in brackets. -/
def Unsplit (quote : Option Char) (depth : Int) (a : List Char) : Prop :=
  ∀ before after, outside quote a = before ++ ',' :: after → depth + nesting before ≠ 0

/-- A text that leaves neither a quote nor a bracket open. -/
def Closes (a : List Char) : Prop := openQuote none a = none ∧ nesting (outside none a) = 0

instance (a : List Char) : Decidable (Closes a) :=
  inferInstanceAs (Decidable (openQuote none a = none ∧ nesting (outside none a) = 0))

variable {quote : Option Char} {depth : Int} {c : Char} {cs xs ys : List Char}

theorem isQuote_iff : isQuote c = true ↔ c = '"' ∨ c = '\'' := by simp [isQuote]

@[simp] theorem nesting_nil : nesting [] = 0 := rfl

@[simp] theorem nesting_cons : nesting (c :: cs) = bracket c + nesting cs := rfl

theorem unsplit_nil : Unsplit quote depth [] := by
  intro before after h
  cases before <;> cases h

theorem unsplit_cons (hc : isQuote c = false) :
    Unsplit none depth (c :: cs) ↔
      ¬ (c = ',' ∧ depth = 0) ∧ Unsplit none (depth + bracket c) cs := by
  have hout : outside none (c :: cs) = c :: outside none cs := by simp [outside, hc]
  unfold Unsplit
  rw [hout]
  constructor
  · refine fun h => ⟨?_, fun before after hcs => ?_⟩
    · rintro ⟨rfl, rfl⟩
      exact h [] _ rfl rfl
    · have := h (c :: before) after (by rw [hcs]; rfl)
      rwa [nesting_cons, ← Int.add_assoc] at this
  · rintro ⟨hcut, h⟩ before after hcs
    cases before with
    | nil =>
      obtain ⟨rfl, -⟩ := List.cons.inj hcs
      exact fun h0 => hcut ⟨rfl, by simpa using h0⟩
    | cons b before =>
      obtain ⟨rfl, hrest⟩ := List.cons.inj hcs
      rw [nesting_cons, ← Int.add_assoc]
      exact h before after hrest

theorem unsplit_quote (hc : isQuote c = true) :
    Unsplit none depth (c :: cs) ↔ Unsplit (some c) depth cs := by
  simp [Unsplit, outside, hc]

theorem unsplit_inside {q : Char} : Unsplit (some q) depth (c :: cs) ↔
    Unsplit (if c == q then none else some q) depth cs := Iff.rfl

/-- A comma is not cut where a quote or a bracket is open. -/
theorem unsplit_comma (h : ¬ (quote = none ∧ depth = 0)) : Unsplit quote depth [','] := by
  cases quote with
  | none => exact (unsplit_cons rfl).2 ⟨fun hcut => h ⟨rfl, hcut.2⟩, unsplit_nil⟩
  | some q => exact unsplit_inside.2 unsplit_nil

/-! ## Cutting -/

open splitArguments (push)

theorem splitArguments_ne_nil : splitArguments quote depth cs ≠ [] := by
  have hpush : ∀ (c : Char) (pieces : List (List Char)), push c pieces ≠ [] := by
    intro c pieces
    cases pieces <;> simp [push]
  cases cs with
  | nil => simp [splitArguments]
  | cons c cs =>
    unfold splitArguments
    split
    · exact hpush _ _
    · repeat' split
      all_goals first | exact hpush _ _ | simp

/-- A text in front of pieces goes into the first of them. -/
theorem foldr_push {piece : List Char} {pieces : List (List Char)} :
    xs.foldr push (piece :: pieces) = (xs ++ piece) :: pieces := by
  induction xs with
  | nil => rfl
  | cons x xs ih => simp [ih, push]

theorem splitArguments_cons (hc : isQuote c = false) (hcut : ¬ (c = ',' ∧ depth = 0)) :
    splitArguments none depth (c :: cs) =
      push c (splitArguments none (depth + bracket c) cs) := by
  have hquote : (c == '"' || c == '\'') = false := hc
  have hcomma : (c == ',' && depth == 0) = false := by simpa using fun h h' => hcut ⟨h, h'⟩
  rw [splitArguments]
  simp only [hquote, hcomma, Bool.false_eq_true, if_false, bracket]
  split
  · rfl
  split
  · rfl
  · rw [Int.add_zero]

theorem splitArguments_quote (hc : isQuote c = true) : splitArguments none depth (c :: cs) =
    push c (splitArguments (some c) depth cs) := by
  have hquote : (c == '"' || c == '\'') = true := hc
  rw [splitArguments]
  simp [hquote]

/-- **A text that is not cut** stays in one piece, in front of what is cut behind it. -/
theorem splitArguments_append (h : Unsplit quote depth xs) :
    splitArguments quote depth (xs ++ ys) = xs.foldr push
      (splitArguments (openQuote quote xs) (depth + nesting (outside quote xs)) ys) := by
  induction xs generalizing quote depth with
  | nil => cases quote <;> simp [openQuote, outside]
  | cons c xs ih =>
    rw [List.cons_append, List.foldr_cons]
    cases quote with
    | some q =>
      rw [splitArguments, ih (unsplit_inside.1 h)]
      rfl
    | none =>
      by_cases hc : isQuote c = true
      · rw [splitArguments_quote hc, ih ((unsplit_quote hc).1 h)]
        simp [openQuote, outside, hc]
      · rw [Bool.not_eq_true] at hc
        obtain ⟨hcut, h⟩ := (unsplit_cons hc).1 h
        rw [splitArguments_cons hc hcut, ih h]
        simp [openQuote, outside, hc, Int.add_assoc]

/-- A comma that is not cut goes on in the piece of the text in front of it. -/
theorem splitArguments_uncut (h : Unsplit quote depth xs)
    (hopen : ¬ (openQuote quote xs = none ∧ depth + nesting (outside quote xs) = 0)) :
    ∃ piece pieces, splitArguments quote depth (xs ++ ',' :: ys) =
      (xs ++ ',' :: piece) :: pieces := by
  have hcomma := @splitArguments_append _ _ [','] ys (unsplit_comma hopen)
  obtain ⟨piece, pieces, hpieces⟩ := List.exists_cons_of_ne_nil (@splitArguments_ne_nil
    (openQuote (openQuote quote xs) [',']) (depth + nesting (outside quote xs) +
      nesting (outside (openQuote quote xs) [','])) ys)
  rw [hpieces, foldr_push] at hcomma
  refine ⟨piece, pieces, ?_⟩
  rw [splitArguments_append h, ← List.singleton_append, hcomma, foldr_push]
  rfl

/-- A text is either not cut, or cut first at one of its commas. -/
theorem unsplit_or_cut (quote : Option Char) (depth : Int) (cs : List Char) :
    Unsplit quote depth cs ∨ ∃ xs ys, cs = xs ++ ',' :: ys ∧ Unsplit quote depth xs ∧
      openQuote quote xs = none ∧ depth + nesting (outside quote xs) = 0 := by
  induction cs generalizing quote depth with
  | nil => exact .inl unsplit_nil
  | cons c cs ih =>
    cases quote with
    | some q =>
      refine (ih (if c == q then none else some q) depth).imp unsplit_inside.2 ?_
      rintro ⟨xs, ys, rfl, hxs, hopen, hdepth⟩
      exact ⟨c :: xs, ys, rfl, unsplit_inside.2 hxs, hopen, hdepth⟩
    | none =>
      by_cases hc : isQuote c = true
      · refine (ih (some c) depth).imp (unsplit_quote hc).2 ?_
        rintro ⟨xs, ys, rfl, hxs, hopen, hdepth⟩
        exact ⟨c :: xs, ys, rfl, (unsplit_quote hc).2 hxs, by simpa [openQuote, hc] using hopen,
          by simpa [outside, hc] using hdepth⟩
      · rw [Bool.not_eq_true] at hc
        by_cases hcut : c = ',' ∧ depth = 0
        · obtain ⟨rfl, rfl⟩ := hcut
          exact .inr ⟨[], cs, rfl, unsplit_nil, rfl, rfl⟩
        · refine (ih none (depth + bracket c)).imp (fun h => (unsplit_cons hc).2 ⟨hcut, h⟩) ?_
          rintro ⟨xs, ys, rfl, hxs, hopen, hdepth⟩
          exact ⟨c :: xs, ys, rfl, (unsplit_cons hc).2 ⟨hcut, hxs⟩,
            by simpa [openQuote, hc] using hopen,
            by simpa [outside, hc, Int.add_assoc] using hdepth⟩

/-- The comma that a text is cut at. -/
theorem splitArguments_cut (h : Unsplit quote depth xs) (hopen : openQuote quote xs = none)
    (hdepth : depth + nesting (outside quote xs) = 0) :
    splitArguments quote depth (xs ++ ',' :: ys) = xs :: splitArguments none 0 ys := by
  rw [splitArguments_append h, hopen, hdepth]
  have hcomma : splitArguments none 0 (',' :: ys) = [] :: splitArguments none 0 ys := by
    simp [splitArguments]
  rw [hcomma, foldr_push, List.append_nil]

end Lifeline.Label
