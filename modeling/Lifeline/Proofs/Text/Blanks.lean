import Lifeline.Text.Lexeme

/-!
# Blanks

Blanks belong to no word and are no digits, and what ends a line is a blank. So a text that neither
starts nor ends with a blank is not changed by stripping (`strip_eq_self`), and a text without the
ends of lines is one line (`lines_eq_singleton`).
-/

set_option autoImplicit false

namespace Lifeline.Text

variable {c : Char} {cs before after : List Char}

/-- The code points of all blanks. -/
def blankCodes : List Nat :=
  [9, 10, 11, 12, 13, 28, 29, 30, 31, 32, 0x85, 0xA0, 0x1680, 0x2000, 0x2001, 0x2002, 0x2003,
    0x2004, 0x2005, 0x2006, 0x2007, 0x2008, 0x2009, 0x200A, 0x2028, 0x2029, 0x202F, 0x205F, 0x3000]

theorem toNat_mem_blankCodes (h : isBlank c = true) : c.toNat ∈ blankCodes := by
  simp only [isBlank, Bool.or_eq_true, Bool.and_eq_true, decide_eq_true_eq, beq_iff_eq] at h
  simp only [blankCodes, List.mem_cons, List.not_mem_nil, or_false]
  omega

/-- Blanks belong to no word. -/
theorem isWord_of_isBlank (h : isBlank c = true) : isWord c = false := by
  have hall : ∀ n ∈ blankCodes, isWord (Char.ofNat n) = false := by decide +kernel
  have hc := hall c.toNat (toNat_mem_blankCodes h)
  rwa [Char.ofNat_toNat] at hc

theorem isBlank_of_isWord (h : isWord c = true) : isBlank c = false := by
  cases hb : isBlank c with
  | false => rfl
  | true => simp [isWord_of_isBlank hb] at h

/-- Blanks are no digits. -/
theorem isDecimal_of_isBlank (h : isBlank c = true) : isDecimal c = false := by
  have hall : ∀ n ∈ blankCodes, isDecimal (Char.ofNat n) = false := by decide +kernel
  have hc := hall c.toNat (toNat_mem_blankCodes h)
  rwa [Char.ofNat_toNat] at hc

theorem isBlank_of_isDecimal (h : isDecimal c = true) : isBlank c = false := by
  cases hb : isBlank c with
  | false => rfl
  | true => simp [isDecimal_of_isBlank hb] at h

/-- What ends a line is a blank. -/
theorem isBlank_of_isLineBreak (h : isLineBreak c = true) : isBlank c = true := by
  simp only [isLineBreak, Bool.or_eq_true, Bool.and_eq_true, decide_eq_true_eq, beq_iff_eq] at h
  simp only [isBlank, Bool.or_eq_true, Bool.and_eq_true, decide_eq_true_eq, beq_iff_eq]
  omega

/-- No blank is among characters that a test passes one by one. (To decide the quantifier itself may
run over every character there is.) -/
theorem not_isBlank_of_all (h : (cs.all fun c => !isBlank c) = true) :
    ∀ c ∈ cs, isBlank c = false := by
  simpa using h

/-- A text that does not start with a blank. -/
theorem stripLeft_eq_self (h : ∀ c ∈ cs.head?, isBlank c = false) : stripLeft cs = cs := by
  cases cs with
  | nil => rfl
  | cons c cs => exact List.dropWhile_cons_of_neg (by simp [h c rfl])

/-- A text that neither starts nor ends with a blank. -/
theorem strip_eq_self (hfirst : ∀ c ∈ cs.head?, isBlank c = false)
    (hlast : ∀ c ∈ cs.getLast?, isBlank c = false) : strip cs = cs := by
  have hrev : stripLeft cs.reverse = cs.reverse :=
    stripLeft_eq_self fun c hc => hlast c (by rwa [List.head?_reverse] at hc)
  rw [strip, stripLeft_eq_self hfirst, stripRight, ← stripLeft, hrev, List.reverse_reverse]

theorem strip_solid (h : ∀ c ∈ cs, isBlank c = false) : strip cs = cs :=
  strip_eq_self (fun c hc => h c (List.mem_of_mem_head? hc))
    fun c hc => h c (List.mem_of_mem_getLast? hc)

/-- A stripped text does not end with a blank. -/
theorem isBlank_getLast?_strip (h : c ∈ (strip cs).getLast?) : isBlank c = false := by
  rw [strip, stripRight, List.getLast?_reverse] at h
  have hnot := List.head?_dropWhile_not isBlank (stripLeft cs).reverse
  rw [Option.mem_def.1 h] at hnot
  exact eq_false_of_ne_true (by simpa using hnot)

theorem stripLeft_append (hc : isBlank c = false) :
    stripLeft (before ++ c :: after) = stripLeft before ++ c :: after := by
  unfold stripLeft
  rw [List.dropWhile_append]
  split
  · rename_i h
    rw [List.isEmpty_iff.1 h, List.dropWhile_cons_of_neg (by simp [hc])]
    rfl
  · rfl

theorem stripRight_append (hc : isBlank c = false) :
    stripRight (before ++ c :: after) = before ++ c :: stripRight after := by
  have h := @stripLeft_append c after.reverse before.reverse hc
  unfold stripLeft at h
  simp only [stripRight, List.reverse_append, List.reverse_cons, List.append_assoc,
    List.singleton_append, h]
  simp

/-- What stands between blanks can be cut at a character that is none. -/
theorem strip_append (hc : isBlank c = false) :
    strip (before ++ c :: after) = stripLeft before ++ c :: stripRight after := by
  rw [strip, stripLeft_append hc, stripRight_append hc]

/-- Blanks in front of a text. -/
theorem strip_blanks (h : ∀ c ∈ before, isBlank c = true) : strip (before ++ cs) = strip cs := by
  rw [strip, strip, stripLeft, List.dropWhile_append_of_pos h, ← stripLeft]

theorem length_strip_le (cs : List Char) : (strip cs).length ≤ cs.length := by
  have hleft : ∀ cs : List Char, (stripLeft cs).length ≤ cs.length := fun cs =>
    (List.dropWhile_sublist _).length_le
  have hright := hleft (stripLeft cs).reverse
  rw [List.length_reverse] at hright
  rw [strip, stripRight, List.length_reverse]
  exact Nat.le_trans hright (hleft cs)

/-- A text without the ends of lines is one line. -/
theorem lines_eq_singleton (h : ∀ c ∈ cs, isLineBreak c = false) (hne : cs ≠ []) :
    lines cs = [cs] := by
  induction cs with
  | nil => exact absurd rfl hne
  | cons c cs ih =>
    have hc := h c (.head _)
    have hr : c ≠ '\r' := by
      rintro rfl
      cases hc
    cases cs with
    | nil => simp [lines, hc]
    | cons d cs =>
      rw [lines.eq_3 _ _ (fun _ hc' _ => hr hc'), ih (fun x hx => h x (.tail _ hx)) (by simp)]
      simp [hc]

end Lifeline.Text
