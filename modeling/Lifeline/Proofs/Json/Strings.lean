import Mathlib.Data.List.Basic
import Mathlib.Tactic.IntervalCases
import Lifeline.Json.Parser
import Lifeline.Json.Printer

/-!
# Strings and numbers read back

What `Json.escape` writes for a character is read as that character again, in one step of the
reader (`readString?_escapeChar`), so a quoted text is read as the text (`readString?_quote`). A
whole number is read back where no character follows that could belong to a number
(`readNumber?_natural`).
-/

namespace Lifeline.Json

/-! ## Escapes -/

theorem hexValue?_hexDigit : ∀ n < 16, hexValue? (Text.hexDigit n) = some n := by decide

/-- Four hexadecimal digits are read as the unit they write. -/
theorem readUnit?_hex {n : Nat} (hn : n < 0x10000) (rest : Input) :
    readUnit? (Text.hex 4 n ++ rest) = some (n, rest) := by
  have digit (k : Nat) : hexValue? (Text.hexDigit (k % 16)) = some (k % 16) :=
    hexValue?_hexDigit _ (Nat.mod_lt _ (by decide))
  have hvalue :
      ((n / 16 / 16 / 16 % 16 * 16 + n / 16 / 16 % 16) * 16 + n / 16 % 16) * 16 + n % 16 = n := by
    omega
  simp [Text.hex, readUnit?, digit, hvalue]

/-- A unit that is a character of its own is read as this character. -/
theorem readScalar_toNat {c : Char} (hc : c.toNat < 0x10000) (rest : Input) :
    readScalar c.toNat rest = (c, rest) := by
  have hvalid : ¬ (0xD800 ≤ c.toNat ∧ c.toNat < 0xE000) := by
    rcases c.valid with h | h
    · change c.toNat < 0xD800 at h
      omega
    · have hlow : 0xDFFF < c.toNat := h.1
      omega
  simp only [readScalar, Bool.and_eq_true, decide_eq_true_eq]
  rw [if_neg (by omega), if_neg (by omega), Char.ofNat_toNat]

/-- The two units of a character that takes two are read as this character. -/
theorem readScalar_pair {c : Char} (hc : 0x10000 ≤ c.toNat) (rest : Input) :
    readScalar (0xD800 + (c.toNat - 0x10000) / 0x400)
      (escapeUnit (0xDC00 + (c.toNat - 0x10000) % 0x400) ++ rest) = (c, rest) := by
  have hmax : c.toNat < 0x110000 := by
    rcases c.valid with h | h
    · change c.toNat < 0xD800 at h
      omega
    · exact h.2
  have hlow := readUnit?_hex (n := 0xDC00 + (c.toNat - 0x10000) % 0x400) (by omega) rest
  have hvalue : 0x10000 + (0xD800 + (c.toNat - 0x10000) / 0x400 - 0xD800) * 0x400 +
      (0xDC00 + (c.toNat - 0x10000) % 0x400 - 0xDC00) = c.toNat := by omega
  simp only [readScalar, escapeUnit, List.cons_append, hlow, Bool.and_eq_true,
    decide_eq_true_eq]
  rw [if_pos (by omega), if_pos (by omega), hvalue, Char.ofNat_toNat]

/-- **What is written for a character is read as this character**, in one step of the reader. -/
theorem readString?_escapeChar (c : Char) (fuel : Nat) (done : List Char) (rest : Input) :
    readString? (fuel + 1) done (escapeChar c ++ rest) = readString? fuel (c :: done) rest := by
  have named {d : Char} {n : Nat} (hn : c.toNat = n) (hd : d = Char.ofNat n) : d = c := by
    rw [hd, ← hn, Char.ofNat_toNat]
  unfold escapeChar
  split_ifs with hquote hslash hline hreturn htab hback hfeed hplain hunit
  · rw [beq_iff_eq.1 hquote]
    rfl
  · rw [beq_iff_eq.1 hslash]
    rfl
  · rw [beq_iff_eq.1 hline]
    rfl
  · rw [beq_iff_eq.1 hreturn]
    rfl
  · rw [beq_iff_eq.1 htab]
    rfl
  · rw [← named (beq_iff_eq.1 hback) rfl]
    rfl
  · rw [← named (beq_iff_eq.1 hfeed) rfl]
    rfl
  · have hlow : ¬ c.toNat < 32 := by simp at hplain; omega
    simp [readString?, hquote, hslash, hlow]
  · simp [escapeUnit, readString?, readUnit?_hex hunit, readScalar_toNat hunit]
  · have hpair := readScalar_pair (by omega : 0x10000 ≤ c.toNat) rest
    have hhigh : 0xD800 + (c.toNat - 0x10000) / 0x400 < 0x10000 := by
      rcases c.valid with h | h
      · change c.toNat < 0xD800 at h
        omega
      · have : c.toNat < 0x110000 := h.2
        omega
    simp only [List.append_assoc]
    rw [escapeUnit, List.cons_append, List.cons_append, readString?]
    simp [readUnit?_hex hhigh, hpair]

/-- What a character is written as is not empty. -/
theorem escapeChar_ne_nil (c : Char) : escapeChar c ≠ [] := by
  unfold escapeChar
  split_ifs <;> simp [escapeUnit]

/-- Between its quotes, a text is read as this text. -/
theorem readString?_escape (cs : List Char) :
    ∀ {fuel : Nat} (done : List Char) (rest : Input), cs.length < fuel →
      readString? fuel done (cs.flatMap escapeChar ++ '"' :: rest) =
        some (.ofList (done.reverse ++ cs), rest) := by
  induction cs with
  | nil =>
    intro fuel done rest hfuel
    obtain ⟨fuel, rfl⟩ := Nat.exists_eq_succ_of_ne_zero (Nat.ne_zero_of_lt hfuel)
    simp [readString?]
  | cons c cs ih =>
    intro fuel done rest hfuel
    obtain ⟨fuel, rfl⟩ := Nat.exists_eq_succ_of_ne_zero (Nat.ne_zero_of_lt hfuel)
    rw [List.flatMap_cons, List.append_assoc, readString?_escapeChar,
      ih (c :: done) rest (by simpa using hfuel)]
    simp

theorem length_le_escape (cs : List Char) : cs.length ≤ (cs.flatMap escapeChar).length := by
  induction cs with
  | nil => simp
  | cons c cs ih =>
    have := List.length_pos_of_ne_nil (escapeChar_ne_nil c)
    simp only [List.flatMap_cons, List.length_append, List.length_cons]
    omega

@[simp] theorem toList_quote (s : String) :
    (quote s).toList = '"' :: (s.toList.flatMap escapeChar ++ ['"']) := by
  simp [quote, escape]

/-- **A quoted text is read as this text**, whatever follows it. -/
theorem readString?_quote (s : String) (rest : Input) :
    readString? ((s.toList.flatMap escapeChar ++ '"' :: rest).length + 1) []
      (s.toList.flatMap escapeChar ++ '"' :: rest) = some (s, rest) := by
  have hlength := length_le_escape s.toList
  rw [readString?_escape s.toList [] rest (by simp only [List.length_append]; omega)]
  simp

/-! ## Whole numbers -/

/-- Text that may follow a value: nothing, or what separates or closes the parts of a list or of a
map. -/
def Ended (rest : Input) : Prop := ∀ c ∈ rest.head?, c = ',' ∨ c = ']' ∨ c = '\x7d'

theorem ended_nil : Ended [] := by simp [Ended]

theorem ended_comma (rest : Input) : Ended (',' :: rest) := by simp [Ended]

theorem ended_bracket (rest : Input) : Ended (']' :: rest) := by simp [Ended]

theorem ended_brace (rest : Input) : Ended ('\x7d' :: rest) := by simp [Ended]

theorem natOf_toDigits (n : Nat) : natOf (Nat.toDigits 10 n) = n :=
  (Nat.ofDigitChars_eq_foldl (b := 10)).symm.trans Nat.ofDigitChars_ten_toDigits

/-- Only zero is written with a zero in front. -/
theorem head?_toDigits_ne_zero {n : Nat} (hn : n ≠ 0) : (Nat.toDigits 10 n).head? ≠ some '0' := by
  induction n using Nat.strongRecOn with
  | ind n ih =>
    rcases Nat.lt_or_ge n 10 with hlt | hge
    · rw [Nat.toDigits_of_lt_base hlt]
      interval_cases n <;> first | exact absurd rfl hn | decide
    · have hne : n / 10 ≠ 0 := by omega
      rw [Nat.toDigits_of_base_le (by decide) hge,
        List.head?_append_of_ne_nil _ Nat.toDigits_ne_nil]
      exact ih (n / 10) (by omega) hne

/-- What ends a value is not the start of a fraction or of an exponent. -/
theorem readFraction?_ended {rest : Input} (hr : Ended rest) : readFraction? rest = none := by
  match rest with
  | [] => rfl
  | c :: rest => rcases hr c rfl with rfl | rfl | rfl <;> rfl

theorem readExponent?_ended {rest : Input} (hr : Ended rest) : readExponent? rest = none := by
  match rest with
  | [] => rfl
  | c :: rest => rcases hr c rfl with rfl | rfl | rfl <;> rfl

/-- The digits of a number, up to what ends it. -/
theorem digitsOf_toDigits (n : Nat) {rest : Input} (hr : Ended rest) :
    digitsOf (Nat.toDigits 10 n ++ rest) = (Nat.toDigits 10 n, rest) := by
  have hdigits : ∀ c ∈ Nat.toDigits 10 n, c.isDigit = true := fun c hc =>
    Nat.isDigit_of_mem_toDigits (by decide) (by decide) hc
  have hrest : rest.takeWhile Char.isDigit = [] ∧ rest.dropWhile Char.isDigit = rest := by
    match rest with
    | [] => exact ⟨rfl, rfl⟩
    | c :: rest => rcases hr c rfl with rfl | rfl | rfl <;> exact ⟨rfl, rfl⟩
  rw [digitsOf, List.takeWhile_append_of_pos hdigits, List.dropWhile_append_of_pos hdigits,
    hrest.1, hrest.2, List.append_nil]

/-- **A whole number is read back**, up to what ends it. -/
theorem readNumber?_natural (negative : Bool) (n : Nat) {rest : Input} (hr : Ended rest) :
    readNumber? negative (Nat.toDigits 10 n ++ rest) =
      some (.int (if negative then -(n : Int) else n), rest) := by
  rcases eq_or_ne n 0 with rfl | hn
  · change readNumber? negative ('0' :: rest) = _
    rw [readNumber?]
    simp only [readFraction?_ended hr, readExponent?_ended hr]
    rfl
  · have hne : (Nat.toDigits 10 n).isEmpty = false := by simp [Nat.toDigits_ne_nil]
    rw [readNumber?]
    · simp only [digitsOf_toDigits n hr, hne, readFraction?_ended hr, readExponent?_ended hr,
        natOf_toDigits]
      rfl
    · intro more heq
      obtain ⟨c, cs, hcs⟩ := List.exists_cons_of_ne_nil (Nat.toDigits_ne_nil (n := n) (b := 10))
      have hzero := head?_toDigits_ne_zero hn
      rw [hcs, List.cons_append] at heq
      rw [hcs, (List.cons.inj heq).1] at hzero
      exact hzero rfl

end Lifeline.Json
