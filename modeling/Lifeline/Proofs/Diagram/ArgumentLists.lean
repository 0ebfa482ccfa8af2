import Lifeline.Proofs.Diagram.Cutting
import Lifeline.Proofs.Name.Letters
import Lifeline.Proofs.Outcome
import Lifeline.Proofs.Text.Blanks

/-!
# Lists of arguments

* `IsArgument`: a literal in quotes, a number or a name, as it is written. By itself it is read as
  what it is (`readArgument_argument`).
* `unsplit_argument`: a name, a number or a literal without its own quote inside is never cut, and
  leaves nothing open.
* `readArguments_iff`: a list of arguments is read as these arguments if and only if no comma is cut
  in any of them, and all but the last close their quotes and brackets.
-/

set_option autoImplicit false

namespace Lifeline.Label

/-! ## Arguments as they are written -/

/-- What may stand between two quotes: a backslash takes the character after it along. -/
inductive Escaped (quote : Char) : List Char → Prop
  | nil : Escaped quote []
  | char {c : Char} {cs : List Char} (other : c ≠ quote) (single : c ≠ '\\')
      (rest : Escaped quote cs) : Escaped quote (c :: cs)
  | pair {c : Char} {cs : List Char} (line : c ≠ '\n') (rest : Escaped quote cs) :
      Escaped quote ('\\' :: c :: cs)

/-- A literal in quotes. -/
def IsQuoted (a : List Char) : Prop :=
  ∃ quote text, isQuote quote = true ∧ Escaped quote text ∧ a = quote :: (text ++ [quote])

def Digits (cs : List Char) : Prop := cs ≠ [] ∧ ∀ c ∈ cs, Text.isDecimal c = true

/-- A number, which may have a sign and a decimal point. -/
def IsNumber (a : List Char) : Prop := ∃ sign whole places, (sign = [] ∨ sign = ['-']) ∧
  Digits whole ∧ (places = [] ∨ ∃ digits, Digits digits ∧ places = '.' :: digits) ∧
    a = sign ++ (whole ++ places)

/-- A name, which may have points in it. -/
def IsName (a : List Char) : Prop :=
  ∃ c cs, Text.isNameStart c = true ∧ (∀ d ∈ cs, isDotted d = true) ∧ a = c :: cs

def IsArgument (a : List Char) : Prop := IsQuoted a ∨ IsNumber a ∨ IsName a

/-- What is read as the given arguments: each with its text as its name, and told from a name where
it is a literal. -/
def Lists (as : List (List Char)) (args : List Argument) : Prop :=
  List.Forall₂ (fun a arg => arg.name = .ofList a ∧
    (arg.isLiteral = true ↔ IsQuoted a ∨ IsNumber a ∨ isLiteralWord (.ofList a) = true)) as args

/-! ## Reading one argument -/

section

open splitArguments (push)

variable {a text cs xs ys : List Char} {c q : Char}

theorem readQuoted?_append (hq : q ≠ '\\') (h : Escaped q text) (rest : List Char) :
    readQuoted? q (text ++ q :: rest) = some (text, rest) := by
  induction h with
  | nil => cases rest <;> simp [readQuoted?]
  | @char c cs other single _ ih =>
    -- something follows the character, at least the closing quote
    obtain ⟨d, more, hmore⟩ : ∃ d more, cs ++ q :: rest = d :: more := by cases cs <;> simp
    rw [List.cons_append, hmore, readQuoted?, ← hmore, ih]
    simp [other, single]
  | pair _ _ ih =>
    rw [List.cons_append, List.cons_append, readQuoted?, ih]
    simp [Ne.symm hq]

/-- A number is read up to its end. -/
theorem isUnsigned_append {whole places : List Char} (hw : Digits whole)
    (hp : places = [] ∨ ∃ digits, Digits digits ∧ places = '.' :: digits) :
    isUnsigned (whole ++ places) = true := by
  have hpoint : ∀ c ∈ places.head?, Text.isDecimal c = false := by
    rcases hp with rfl | ⟨digits, -, rfl⟩
    · exact fun c hc => by cases hc
    · intro c hc
      obtain rfl : '.' = c := by simpa using hc
      decide
  have htake : places.takeWhile Text.isDecimal = [] ∧ places.dropWhile Text.isDecimal = places := by
    cases places with
    | nil => exact ⟨rfl, rfl⟩
    | cons c places => simp [hpoint c rfl]
  rw [isUnsigned, List.takeWhile_append_of_pos hw.2, List.dropWhile_append_of_pos hw.2, htake.1,
    htake.2, List.append_nil]
  rcases hp with rfl | ⟨digits, ⟨hne, hall⟩, rfl⟩
  · simp [hw.1]
  · simpa [hw.1, hne] using hall

/-- What an argument starts with tells its kind. -/
theorem nameStart_other (h : Text.isNameStart c = true) :
    Text.isDecimal c = false ∧ isQuote c = false ∧ c ≠ '-' := by
  have hascii : c.toNat < 128 := by
    rw [Text.isNameStart, Bool.or_eq_true, Text.isAsciiLetter] at h
    rcases h with h | h
    · exact Text.toNat_lt_of_isAsciiAlnum (by rw [Text.isAsciiAlnum, h, Bool.true_or])
    · obtain rfl := beq_iff_eq.1 h
      decide
  have hall : ∀ n < 128, Text.isNameStart (Char.ofNat n) = true →
      Text.isDecimal (Char.ofNat n) = false ∧ isQuote (Char.ofNat n) = false ∧
        Char.ofNat n ≠ '-' := by
    decide
  have hc := hall c.toNat hascii
  rw [Char.ofNat_toNat] at hc
  exact hc h

theorem isLiteral_quoted (h : IsQuoted a) : isLiteral a = true := by
  obtain ⟨quote, text, hq, htext, rfl⟩ := h
  rcases isQuote_iff.1 hq with rfl | rfl
  · have hread := readQuoted?_append (by decide) htext []
    simp [isLiteral, hread]
  · have hread := readQuoted?_append (by decide) htext []
    simp [isLiteral, hread]

theorem isLiteral_of_isUnsigned (h : isUnsigned a = true) : isLiteral a = true := by
  obtain ⟨c, cs, rfl⟩ : ∃ c cs, a = c :: cs := by
    cases a with
    | nil => simp [isUnsigned] at h
    | cons c cs => exact ⟨c, cs, rfl⟩
  have hc : Text.isDecimal c = true := by
    by_contra hc
    simp [isUnsigned, hc] at h
  have hne : ∀ d, Text.isDecimal d = false → c ≠ d := by
    rintro d hd rfl
    rw [hc] at hd
    cases hd
  have hsign : c ≠ '-' := hne _ (by decide)
  have hdouble : c ≠ '"' := hne _ (by decide)
  have hsingle : c ≠ '\'' := hne _ (by decide)
  simp [isLiteral, h, hsign, hdouble, hsingle]

theorem isLiteral_number (h : IsNumber a) : isLiteral a = true := by
  obtain ⟨sign, whole, places, hsign, hwhole, hplaces, rfl⟩ := h
  have hunsigned := isUnsigned_append hwhole hplaces
  rcases hsign with rfl | rfl
  · exact isLiteral_of_isUnsigned hunsigned
  · simp [isLiteral, hunsigned]

theorem isLiteral_name (h : IsName a) : isLiteral a = isLiteralWord (.ofList a) := by
  obtain ⟨c, cs, hc, -, rfl⟩ := h
  obtain ⟨hdecimal, hquote, hsign⟩ := nameStart_other hc
  have hunsigned : isUnsigned (c :: cs) = false := by simp [isUnsigned, hdecimal]
  have hdouble : c ≠ '"' := fun h => by simp [h, isQuote] at hquote
  have hsingle : c ≠ '\'' := fun h => by simp [h, isQuote] at hquote
  simp [isLiteral, hunsigned, hsign, hdouble, hsingle]

theorem not_literal_of_name (h : IsName a) : ¬ IsQuoted a ∧ ¬ IsNumber a := by
  obtain ⟨c, cs, hc, -, rfl⟩ := h
  obtain ⟨hdecimal, hquote, hsign⟩ := nameStart_other hc
  constructor
  · rintro ⟨quote, text, hq, -, heq⟩
    obtain ⟨rfl, -⟩ := List.cons.inj heq
    rw [hq] at hquote
    cases hquote
  · rintro ⟨sign, whole, places, rfl | rfl, ⟨hne, hall⟩, -, heq⟩
    · cases whole with
      | nil => exact hne rfl
      | cons d whole =>
        obtain ⟨rfl, -⟩ := List.cons.inj heq
        rw [hall c (.head _)] at hdecimal
        cases hdecimal
    · exact hsign (List.cons.inj heq).1

theorem readArgumentName?_name (h : IsName a) : readArgumentName? a = some a := by
  obtain ⟨c, cs, hc, hcs, rfl⟩ := h
  have htake : cs.takeWhile isDotted = cs := List.takeWhile_eq_self_iff.2 hcs
  have hdrop : cs.dropWhile isDotted = [] := List.dropWhile_eq_nil_iff.2 hcs
  simp [readArgumentName?, Text.readName?, hc, htake, hdrop]

theorem IsNumber.solid (h : IsNumber a) : ∀ c ∈ a, Text.isBlank c = false := by
  obtain ⟨sign, whole, places, hsign, hwhole, hplaces, rfl⟩ := h
  intro c hc
  simp only [List.mem_append] at hc
  rcases hc with hc | hc | hc
  · rcases hsign with rfl | rfl
    · cases hc
    · obtain rfl := List.mem_singleton.1 hc
      decide
  · exact Text.isBlank_of_isDecimal (hwhole.2 c hc)
  · rcases hplaces with rfl | ⟨digits, hdigits, rfl⟩
    · cases hc
    · rcases List.mem_cons.1 hc with rfl | hc
      · decide
      · exact Text.isBlank_of_isDecimal (hdigits.2 c hc)

theorem IsName.solid (h : IsName a) : ∀ c ∈ a, Text.isBlank c = false := by
  obtain ⟨c, cs, hc, hcs, rfl⟩ := h
  intro d hd
  rcases List.mem_cons.1 hd with rfl | hd
  · exact Text.isBlank_of_isWord (Text.isWord_of_isNameStart hc)
  · have hd := hcs d hd
    rw [isDotted, Bool.or_eq_true] at hd
    rcases hd with hd | hd
    · exact Text.isBlank_of_isWord hd
    · obtain rfl := beq_iff_eq.1 hd
      decide

/-- An argument has no blanks around it. -/
theorem strip_argument (h : IsArgument a) : Text.strip a = a := by
  rcases h with ⟨quote, text, hq, -, rfl⟩ | h | h
  · have hblank : Text.isBlank quote = false := by
      rcases isQuote_iff.1 hq with rfl | rfl <;> decide
    refine Text.strip_eq_self (fun c hc => ?_) fun c hc => ?_
    · obtain rfl := Option.some.inj hc
      exact hblank
    · rw [← List.cons_append, List.getLast?_concat] at hc
      obtain rfl := Option.some.inj hc
      exact hblank
  · exact Text.strip_solid h.solid
  · exact Text.strip_solid h.solid

/-- **An argument by itself** is read as what it is. -/
theorem readArgument_argument (h : IsArgument a) : ∃ arg, readArgument a = .ok arg ∧
    arg.name = .ofList a ∧
      (arg.isLiteral = true ↔ IsQuoted a ∨ IsNumber a ∨ isLiteralWord (.ofList a) = true) := by
  unfold readArgument
  rcases h with h | h | h
  · rw [isLiteral_quoted h]
    exact ⟨_, rfl, rfl, iff_of_true rfl (.inl h)⟩
  · rw [isLiteral_number h]
    exact ⟨_, rfl, rfl, iff_of_true rfl (.inr (.inl h))⟩
  · obtain ⟨hquoted, hnumber⟩ := not_literal_of_name h
    simp only [hquoted, hnumber, false_or, isLiteral_name h, readArgumentName?_name h]
    cases hword : isLiteralWord (.ofList a) with
    | true => exact ⟨_, rfl, rfl, iff_of_true rfl rfl⟩
    | false => exact ⟨_, rfl, rfl, iff_of_false Bool.noConfusion Bool.noConfusion⟩

/-- The name of an argument is what its text starts with. -/
theorem name_begins {arg : Argument} (h : readArgument cs = .ok arg) :
    arg.name.toList <+: cs := by
  unfold readArgument at h
  split at h
  · obtain rfl := Except.ok.inj h
    simp
  · split at h
    · rename_i name hname
      obtain rfl := Except.ok.inj h
      rw [String.toList_ofList]
      cases cs with
      | nil => cases hname
      | cons c cs =>
        simp only [readArgumentName?, Text.readName?] at hname
        split at hname
        · simp only [Option.bind_eq_bind, Option.bind_some] at hname
          have heq : name = c :: cs.takeWhile isDotted := by
            split at hname
            · exact (Option.some.inj hname).symm
            · split at hname
              · split at hname
                · exact (Option.some.inj hname).symm
                · cases hname
              · cases hname
          rw [heq]
          exact (List.prefix_cons_inj c).2 (List.takeWhile_prefix _)
        · cases hname
    · cases h

/-- What starts with a quote is read whole or not at all. -/
theorem name_of_quote {arg : Argument} (hq : isQuote q = true)
    (h : readArgument (q :: cs) = .ok arg) : arg.name = .ofList (q :: cs) := by
  have hname : readArgumentName? (q :: cs) = none := by
    have hstart : Text.isNameStart q = false := by
      rcases isQuote_iff.1 hq with rfl | rfl <;> decide
    simp [readArgumentName?, Text.readName?, hstart]
  unfold readArgument at h
  rw [hname] at h
  split at h
  · obtain rfl := Except.ok.inj h
    rfl
  · cases h

/-! ## Arguments that are never cut -/

/-- Whether cutting heeds a character. -/
def isMark (c : Char) : Bool := isQuote c || bracket c != 0 || c == ','

/-- The marks of the cutting are in no name and no number. -/
theorem isMark_other (h : isMark c = true) :
    isDotted c = false ∧ Text.isDecimal c = false ∧ c ≠ '-' := by
  have hall : ∀ d ∈ ['"', '\'', '(', '[', '\x7b', '<', ')', ']', '\x7d', '>', ','],
      isDotted d = false ∧ Text.isDecimal d = false ∧ d ≠ '-' := by
    simp only [List.forall_mem_cons, List.not_mem_nil, false_implies, implies_true, and_true]
    decide
  refine hall c ?_
  by_contra hc
  simp only [List.mem_cons, List.not_mem_nil, or_false, not_or] at hc
  simp [isMark, isQuote, bracket, hc] at h

/-- What the cutting heeds nothing in. -/
theorem unsplit_of_not_isMark (h : ∀ c ∈ a, isMark c = false) :
    Unsplit none 0 a ∧ Closes a := by
  have hread : openQuote none a = none ∧ outside none a = a ∧ nesting a = 0 := by
    induction a with
    | nil => exact ⟨rfl, rfl, rfl⟩
    | cons c a ih =>
      obtain ⟨hc, ha⟩ := List.forall_mem_cons.1 h
      obtain ⟨hopen, hout, hnest⟩ := ih ha
      simp only [isMark, Bool.or_eq_false_iff, bne_eq_false_iff_eq] at hc
      simp [openQuote, outside, hc, hopen, hout, hnest]
  obtain ⟨hopen, hout, hnest⟩ := hread
  refine ⟨fun before after hcomma => ?_, hopen, hout.symm ▸ hnest⟩
  rw [hout] at hcomma
  have hmark := h ',' (by simp [hcomma])
  simp [isMark] at hmark

theorem unsplit_name (h : IsName a) : Unsplit none 0 a ∧ Closes a := by
  obtain ⟨c, cs, hc, hcs, rfl⟩ := h
  refine unsplit_of_not_isMark fun d hd => ?_
  by_contra hmark
  obtain ⟨hdotted, -, -⟩ := isMark_other (Bool.not_eq_false _ ▸ hmark)
  rcases List.mem_cons.1 hd with rfl | hd
  · rw [isDotted, Text.isWord_of_isNameStart hc] at hdotted
    cases hdotted
  · rw [hcs d hd] at hdotted
    cases hdotted

theorem unsplit_number (h : IsNumber a) : Unsplit none 0 a ∧ Closes a := by
  obtain ⟨sign, whole, places, hsign, hwhole, hplaces, rfl⟩ := h
  refine unsplit_of_not_isMark fun d hd => ?_
  by_contra hmark
  obtain ⟨hdotted, hdecimal, hne⟩ := isMark_other (Bool.not_eq_false _ ▸ hmark)
  have hdigits : ∀ {ds : List Char}, Digits ds → d ∉ ds := fun hds hd => by
    rw [hds.2 d hd] at hdecimal
    cases hdecimal
  simp only [List.mem_append] at hd
  rcases hd with hd | hd | hd
  · rcases hsign with rfl | rfl
    · cases hd
    · exact hne (List.mem_singleton.1 hd)
  · exact hdigits hwhole hd
  · rcases hplaces with rfl | ⟨digits, hds, rfl⟩
    · cases hd
    · rcases List.mem_cons.1 hd with rfl | hd
      · exact absurd hdotted (by decide)
      · exact hdigits hds hd

/-- A literal without its own quote inside. -/
theorem unsplit_quoted (hq : isQuote q = true) (h : q ∉ text) :
    Unsplit none 0 (q :: (text ++ [q])) ∧ Closes (q :: (text ++ [q])) := by
  have hread : openQuote (some q) (text ++ [q]) = none ∧ outside (some q) (text ++ [q]) = [] := by
    induction text with
    | nil => simp [openQuote, outside]
    | cons c text ih =>
      rw [List.mem_cons, not_or] at h
      have hc : (c == q) = false := by simpa using Ne.symm h.1
      rw [List.cons_append, openQuote, outside, hc]
      exact ih h.2
  obtain ⟨hopen, hout⟩ := hread
  refine ⟨(unsplit_quote hq).2 fun before after hcomma => ?_, ?_, ?_⟩
  · rw [hout] at hcomma
    cases before <;> cases hcomma
  · simpa [openQuote, hq] using hopen
  · simp [outside, hq, hout]

theorem unsplit_argument (h : IsArgument a)
    (hq : ∀ q text, isQuote q = true → a = q :: (text ++ [q]) → q ∉ text) :
    Unsplit none 0 a ∧ Closes a := by
  rcases h with ⟨quote, text, hquote, -, rfl⟩ | h | h
  · exact unsplit_quoted hquote (hq quote text hquote rfl)
  · exact unsplit_number h
  · exact unsplit_name h

/-! ## Reading a list -/

/-- The pieces of a text are read as the arguments. -/
def Cut (cs : List Char) (args : List Argument) : Prop :=
  List.Forall₂ (fun piece arg => readArgument (Text.strip piece) = .ok arg)
    (splitArguments none 0 cs) args

theorem readArguments_ok {args : List Argument} (h : Text.stripLeft cs ≠ []) :
    readArguments cs = .ok args ↔ Cut cs args := by
  have hblank : (Text.stripLeft cs).isEmpty = false := by simpa using h
  rw [readArguments, hblank, if_neg Bool.noConfusion, mapM_ok]
  rfl

/-- A blank in front of a text is in front of its first piece. -/
theorem cut_blank {args : List Argument} : Cut (' ' :: cs) args ↔ Cut cs args := by
  have hsplit : splitArguments none 0 (' ' :: cs) = push ' ' (splitArguments none 0 cs) :=
    splitArguments_cons (by decide) (by decide)
  have hstrip : ∀ piece : List Char, Text.strip (' ' :: piece) = Text.strip piece := fun piece =>
    @Text.strip_blanks piece [' '] (List.forall_mem_singleton.2 (by decide))
  obtain ⟨piece, pieces, hpieces⟩ :=
    List.exists_cons_of_ne_nil (@splitArguments_ne_nil none 0 cs)
  rw [Cut, Cut, hsplit, hpieces, push, List.forall₂_cons_left_iff, List.forall₂_cons_left_iff,
    hstrip]

/-- A text that is cut behind its first argument. -/
theorem cut_cons {args : List Argument} (hu : Unsplit none 0 a) (hc : Closes a) :
    Cut (a ++ ',' :: ys) args ↔
      ∃ arg rest, readArgument (Text.strip a) = .ok arg ∧ Cut ys rest ∧ args = arg :: rest := by
  have hsplit := @splitArguments_cut none 0 a ys hu hc.1 (by rw [hc.2]; rfl)
  rw [Cut, hsplit, List.forall₂_cons_left_iff]
  rfl

/-- Where an argument is listed first, the first piece of the text starts with it. -/
theorem first_begins {args : List Argument} {piece : List Char} {pieces as : List (List Char)}
    (hpieces : splitArguments none 0 cs = piece :: pieces) (hcut : Cut cs args)
    (hlist : Lists (a :: as) args) :
    ∃ arg, readArgument (Text.strip piece) = .ok arg ∧ arg.name.toList = a := by
  rw [Cut, hpieces, List.forall₂_cons_left_iff] at hcut
  obtain ⟨arg, rest, harg, -, rfl⟩ := hcut
  obtain ⟨⟨hname, -⟩, -⟩ := List.forall₂_cons.1 hlist
  exact ⟨arg, harg, by rw [hname, String.toList_ofList]⟩

/-- No argument is read of a piece that ends inside of it. -/
theorem not_lists_of_cut {args : List Argument} {as : List (List Char)} (hxs : Unsplit none 0 xs)
    (hopen : openQuote none xs = none) (hdepth : 0 + nesting (outside none xs) = 0)
    (hcut : Cut (xs ++ ',' :: ys) args) (ha : a = xs ++ ',' :: cs) : ¬ Lists (a :: as) args := by
  intro hlist
  obtain ⟨arg, harg, hname⟩ := first_begins (splitArguments_cut hxs hopen hdepth) hcut hlist
  have hprefix := (name_begins harg).length_le.trans (Text.length_strip_le xs)
  rw [hname, ha, List.length_append, List.length_cons] at hprefix
  omega

/-- Behind an argument that leaves a quote or a bracket open the list goes on in the same piece. -/
theorem not_lists_of_open {args : List Argument} {as : List (List Char)} (h : IsArgument a)
    (hu : Unsplit none 0 a) (hc : ¬ Closes a) (hcut : Cut (a ++ ',' :: ys) args) :
    ¬ Lists (a :: as) args := by
  intro hlist
  -- only a literal leaves something open
  obtain ⟨q, text, hq, -, rfl⟩ : IsQuoted a := by
    rcases h with h | h | h
    · exact h
    · exact absurd (unsplit_number h).2 hc
    · exact absurd (unsplit_name h).2 hc
  obtain ⟨piece, pieces, hpieces⟩ := @splitArguments_uncut none 0 _ ys hu
    fun hclosed => hc ⟨hclosed.1, by rw [← hclosed.2, Int.zero_add]⟩
  obtain ⟨arg, harg, hname⟩ := first_begins hpieces hcut hlist
  have hstrip : Text.strip (q :: (text ++ [q]) ++ ',' :: piece) =
      q :: (text ++ [q]) ++ ',' :: Text.stripRight piece := by
    rw [Text.strip_append (by decide), Text.stripLeft_eq_self fun c hc => ?_]
    obtain rfl := Option.some.inj hc
    rcases isQuote_iff.1 hq with rfl | rfl <;> decide
  rw [hstrip, List.cons_append] at harg
  rw [name_of_quote hq harg, String.toList_ofList, ← List.cons_append] at hname
  simpa using congrArg List.length hname

/-- The pieces of a list are its arguments if and only if no comma inside of an argument is cut, and
all but the last close what they open. -/
theorem lists_iff : ∀ {as : List (List Char)}, as ≠ [] → (∀ a ∈ as, IsArgument a) →
    ((∃ args, Cut (Text.join [',', ' '] as) args ∧ Lists as args) ↔
      (∀ a ∈ as, Unsplit none 0 a) ∧ ∀ a ∈ as.dropLast, Closes a)
  | [a], _, h => by
    have ha := h a (.head _)
    obtain ⟨arg, harg, hname, hliteral⟩ := readArgument_argument ha
    rw [← strip_argument ha] at harg
    simp only [List.mem_singleton, forall_eq, List.dropLast_singleton, List.not_mem_nil,
      false_implies, implies_true, and_true, Text.join]
    constructor
    · rintro ⟨args, hcut, hlist⟩
      rcases unsplit_or_cut none 0 a with hu | ⟨xs, ys, hxs, hu, hopen, hdepth⟩
      · exact hu
      · exact absurd hlist (not_lists_of_cut hu hopen hdepth (hxs ▸ hcut) hxs)
    · intro hu
      have hsplit := @splitArguments_append _ _ a [] hu
      simp only [List.append_nil, splitArguments, foldr_push] at hsplit
      exact ⟨[arg], by simpa [Cut, hsplit] using harg, by simpa [Lists] using ⟨hname, hliteral⟩⟩
  | a :: b :: as, _, h => by
    have ha := h a (.head _)
    have ih := @lists_iff (b :: as) (by simp) fun c hc => h c (.tail _ hc)
    have htext : Text.join [',', ' '] (a :: b :: as) =
        a ++ ',' :: ' ' :: Text.join [',', ' '] (b :: as) := by simp [Text.join]
    rw [htext, List.dropLast_cons_cons, @List.forall_mem_cons _ (Unsplit none 0) a,
      @List.forall_mem_cons _ Closes a, and_and_and_comm, ← ih]
    constructor
    · rintro ⟨args, hcut, hlist⟩
      rcases unsplit_or_cut none 0 a with hu | ⟨xs, ys, rfl, hu, hopen, hdepth⟩
      swap
      · rw [List.append_assoc, List.cons_append] at hcut
        exact absurd hlist (not_lists_of_cut hu hopen hdepth hcut rfl)
      by_cases hc : Closes a
      swap
      · exact absurd hlist (not_lists_of_open ha hu hc hcut)
      obtain ⟨arg, rest, -, hrest, rfl⟩ := (cut_cons hu hc).1 hcut
      exact ⟨⟨hu, hc⟩, rest, cut_blank.1 hrest, (List.forall₂_cons.1 hlist).2⟩
    · rintro ⟨⟨hu, hc⟩, rest, hrest, hlist⟩
      obtain ⟨arg, harg, hname, hliteral⟩ := readArgument_argument ha
      rw [← strip_argument ha] at harg
      exact ⟨arg :: rest, (cut_cons hu hc).2 ⟨arg, rest, harg, cut_blank.2 hrest, rfl⟩,
        .cons ⟨hname, hliteral⟩ hlist⟩

theorem argument_ne_nil (h : IsArgument a) : a ≠ [] := by
  rintro rfl
  rcases h with ⟨quote, text, -, -, heq⟩ | ⟨sign, whole, places, -, ⟨hne, -⟩, -, heq⟩ |
    ⟨c, cs, -, -, heq⟩
  · cases heq
  · simp [hne] at heq
  · cases heq

/-- A list of arguments is not blank. -/
theorem stripLeft_join_ne_nil {as : List (List Char)} (hne : as ≠ [])
    (h : ∀ a ∈ as, IsArgument a) : Text.stripLeft (Text.join [',', ' '] as) ≠ [] := by
  obtain ⟨a, rest, rfl⟩ := List.exists_cons_of_ne_nil hne
  obtain ⟨more, hmore⟩ : ∃ more, Text.join [',', ' '] (a :: rest) = a ++ more := by
    cases rest with
    | nil => exact ⟨[], by simp [Text.join]⟩
    | cons b rest => exact ⟨_, by rw [Text.join, List.append_assoc]; simp⟩
  have ha := h a (.head _)
  rw [hmore]
  intro hblank
  -- then the first argument would be blank, and it has no blanks around it
  have hall : ∀ c ∈ a, Text.isBlank c = true := fun c hc =>
    List.dropWhile_eq_nil_iff.1 hblank c (List.mem_append_left _ hc)
  have hstrip : Text.stripLeft a = [] := List.dropWhile_eq_nil_iff.2 hall
  refine argument_ne_nil ha ?_
  rw [← strip_argument ha, Text.strip, hstrip]
  rfl

end

/-- **Lists of arguments.** What is written as a list of arguments is read as these arguments if and
only if no comma inside of one is cut, and all but the last close the quotes and brackets that they
open. So do names, numbers and literals without their own quote inside. -/
theorem readArguments_iff {as : List (List Char)} (hne : as ≠ []) (h : ∀ a ∈ as, IsArgument a) :
    ((∃ args, readArguments (Text.join [',', ' '] as) = .ok args ∧ Lists as args) ↔
      (∀ a ∈ as, Unsplit none 0 a) ∧ ∀ a ∈ as.dropLast, Closes a) ∧
    ∀ a ∈ as, (∀ q text, isQuote q = true → a = q :: (text ++ [q]) → q ∉ text) →
      Unsplit none 0 a ∧ Closes a := by
  refine ⟨?_, fun a ha => unsplit_argument (h a ha)⟩
  simp only [readArguments_ok (stripLeft_join_ne_nil hne h)]
  exact lists_iff hne h

/-- A literal with a comma, a number, a name and a literal with its own quote inside. -/
def quoteLast : List (List Char) :=
  [['"', 'a', ',', '"'], ['-', '1', '.', '5'], ['x', '.', 'i', 'd'], ['\'', '\\', '\'', '\'']]

theorem quoteLast_arguments : ∀ a ∈ quoteLast, IsArgument a := by
  simp only [quoteLast, List.forall_mem_cons, List.not_mem_nil, false_implies, implies_true,
    and_true]
  have digits : ∀ c, Text.isDecimal c = true → Digits [c] := fun c hc =>
    ⟨by simp, List.forall_mem_singleton.2 hc⟩
  refine ⟨.inl ⟨'"', ['a', ','], rfl, ?_, rfl⟩, .inr (.inl ⟨['-'], ['1'], ['.', '5'], .inr rfl,
    digits _ (by decide), .inr ⟨['5'], digits _ (by decide), rfl⟩, rfl⟩),
    .inr (.inr ⟨'x', ['.', 'i', 'd'], by decide, List.all_eq_true.1 (by decide), rfl⟩),
    .inl ⟨'\'', ['\\', '\''], rfl, ?_, rfl⟩⟩
  · exact .char (by decide) (by decide) (.char (by decide) (by decide) .nil)
  · exact .pair (by decide) .nil

theorem readArguments_quoteLast : quoteLast ≠ [] ∧ (∀ a ∈ quoteLast, IsArgument a) ∧
    (∃ args, readArguments (Text.join [',', ' '] quoteLast) = .ok args ∧ Lists quoteLast args) := by
  have hne : quoteLast ≠ [] := by decide
  obtain ⟨hiff, hclosed⟩ := readArguments_iff hne quoteLast_arguments
  have hsplit : ∀ a ∈ quoteLast, ',' ∉ outside none a := by decide
  refine ⟨hne, quoteLast_arguments, hiff.2 ⟨fun a ha before after hcomma => ?_, by decide⟩⟩
  exact absurd (by simp [hcomma]) (hsplit a ha)

/-- A literal with its own quote inside, in front of a name. -/
def quoteFirst : List (List Char) := [['"', 'a', '\\', '"', 'b', '"'], ['x']]

/-- A list is not always read as it is written: the comma behind a literal with its own quote inside
is taken for a part of the literal. -/
theorem not_readArguments_quoteFirst : ¬ ∀ as : List (List Char), as ≠ [] →
    (∀ a ∈ as, IsArgument a) →
      ∃ args, readArguments (Text.join [',', ' '] as) = .ok args ∧ Lists as args := by
  intro h
  obtain ⟨args, hread, -⟩ := h quoteFirst (by decide) (by
    simp only [quoteFirst, List.forall_mem_cons, List.not_mem_nil, false_implies, implies_true,
      and_true]
    exact ⟨.inl ⟨'"', ['a', '\\', '"', 'b'], rfl, .char (by decide) (by decide)
      (.pair (by decide) (.char (by decide) (by decide) .nil)), rfl⟩,
      .inr (.inr ⟨'x', [], by decide, List.forall_mem_nil _, rfl⟩)⟩)
  have hnone : (readArguments (Text.join [',', ' '] quoteFirst)).toOption = none := by decide
  rw [hread] at hnone
  cases hnone

end Lifeline.Label
