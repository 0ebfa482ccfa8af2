import Lifeline.Proofs.Name.Letters

/-!
# Words

Splitting a text into words keeps every ASCII letter and digit in its place, in lower case, and
nothing else (`Name.flatten_wordsIn`): breaks are put between characters, and a run of letters and
digits is cut nowhere else (`Text.flatten_runs`). A name in snake case is split into the words that
it was made of (`Name.wordsIn_snake`), so it is its own name in snake case.

The two kinds of breaks do not meet, so it is the same to put in first the ones behind lower-case
letters and digits and then the ones inside of a run of capitals (`Name.spaced_eq_twice`).
-/

set_option autoImplicit false

namespace Lifeline

/-! ## Runs of characters -/

namespace Text

variable {p : Char → Bool}

theorem runs_ne_nil {c : Char} (hc : p c = true) (cs : List Char) : runs p (c :: cs) ≠ [] := by
  intro hnil
  unfold runs at hnil
  rw [if_pos hc] at hnil
  split at hnil
  · cases hnil
  · split at hnil
    · split at hnil <;> cases hnil
    · cases hnil

/-- A run goes on where the next character belongs to it too. -/
theorem runs_cons_of_pos {c : Char} (hc : p c = true) (cs : List Char) : runs p (c :: cs) =
    if cs.head?.any p then (c :: (runs p cs).headD []) :: (runs p cs).tail
    else [c] :: runs p cs := by
  cases cs with
  | nil => simp [runs, hc]
  | cons d cs =>
    rw [runs, if_pos hc]
    by_cases hd : p d = true
    · obtain ⟨run, rest, hr⟩ := List.exists_cons_of_ne_nil (runs_ne_nil hd cs)
      simp [hr, hd]
    · cases hr : runs p (d :: cs) <;> simp [hd]

theorem runs_cons_of_neg {c : Char} (hc : p c = false) (cs : List Char) :
    runs p (c :: cs) = runs p cs := by
  cases cs <;> simp [runs, hc]

/-- **Runs keep all characters of their class**, in order, and no others. -/
theorem flatten_runs (p : Char → Bool) : ∀ cs : List Char, (runs p cs).flatten = cs.filter p
  | [] => rfl
  | c :: cs => by
    have ih : (runs p cs).flatten = cs.filter p := flatten_runs p cs
    by_cases hc : p c = true
    · rw [runs_cons_of_pos hc, List.filter_cons_of_pos hc, ← ih]
      split
      · cases runs p cs <;> rfl
      · rfl
    · rw [runs_cons_of_neg (by simpa using hc), List.filter_cons_of_neg hc, ih]

theorem ne_nil_of_mem_runs : ∀ {cs run : List Char}, run ∈ runs p cs → run ≠ []
  | [], _, h => by cases h
  | c :: cs, run, h => by
    by_cases hc : p c = true
    · rw [runs_cons_of_pos hc] at h
      split at h
      · rcases List.mem_cons.1 h with rfl | h
        · simp
        · exact ne_nil_of_mem_runs (List.mem_of_mem_tail h)
      · rcases List.mem_cons.1 h with rfl | h
        · simp
        · exact ne_nil_of_mem_runs h
    · rw [runs_cons_of_neg (by simpa using hc)] at h
      exact ne_nil_of_mem_runs h

theorem runs_self {w : List Char} (hne : w ≠ []) (hw : ∀ c ∈ w, p c = true) : runs p w = [w] := by
  induction w with
  | nil => exact absurd rfl hne
  | cons c w ih =>
    rw [runs_cons_of_pos (hw c (.head _))]
    cases w with
    | nil => rfl
    | cons d w => rw [ih (by simp) fun x hx => hw x (.tail _ hx)]; simp [hw d (by simp)]

/-- Runs with a separator between them that belongs to none are found again. -/
theorem runs_join {sep : Char} (hs : p sep = false) : ∀ {ws : List (List Char)},
    (∀ w ∈ ws, w ≠ [] ∧ ∀ c ∈ w, p c = true) → runs p (join [sep] ws) = ws
  | [], _ => rfl
  | [w], h => by
    obtain ⟨hne, hw⟩ := h w (.head _)
    exact runs_self hne hw
  | w :: w' :: ws, h => by
    obtain ⟨⟨hne, hw⟩, hrest⟩ := List.forall_mem_cons.1 h
    rw [join, List.append_assoc, List.singleton_append, runs_word hs _ hne hw, runs_join hs hrest]
    simp

end Text

namespace Name

/-! ## Letters of words -/

/-- A lower-case letter or a digit. -/
def IsSmall (c : Char) : Prop := ('a' ≤ c ∧ c ≤ 'z') ∨ ('0' ≤ c ∧ c ≤ '9')

instance (c : Char) : Decidable (IsSmall c) := inferInstanceAs (Decidable (_ ∨ _))

theorem isSmall_toLower {c : Char} (h : Text.isAsciiAlnum c = true) : IsSmall c.toLower := by
  have hall : ∀ n < 128, Text.isAsciiAlnum (Char.ofNat n) = true →
      IsSmall (Char.ofNat n).toLower := by
    decide
  have hc := hall c.toNat (Text.toNat_lt_of_isAsciiAlnum h)
  rw [Char.ofNat_toNat] at hc
  exact hc h

/-- Letters and digits in lower case are no capitals, and stay as they are. -/
theorem IsSmall.plain {c : Char} (h : IsSmall c) :
    c.isUpper = false ∧ Text.isAsciiAlnum c = true ∧ c.toLower = c := by
  have hall : ∀ n < 128, IsSmall (Char.ofNat n) → (Char.ofNat n).isUpper = false ∧
      Text.isAsciiAlnum (Char.ofNat n) = true ∧ (Char.ofNat n).toLower = Char.ofNat n := by
    decide
  have hlt : c.toNat < 128 := by
    have hz : 'z'.toNat = 122 := rfl
    have hnine : '9'.toNat = 57 := rfl
    rcases h with ⟨-, h⟩ | ⟨-, h⟩
    · have hle : c.toNat ≤ 'z'.toNat := h
      omega
    · have hle : c.toNat ≤ '9'.toNat := h
      omega
  have hc := hall c.toNat hlt
  rw [Char.ofNat_toNat] at hc
  exact hc h

theorem not_small_of_isUpper {c : Char} (h : c.isUpper = true) :
    c.isLower = false ∧ c.isDigit = false := by
  have hall : ∀ n < 128, (Char.ofNat n).isUpper = true →
      (Char.ofNat n).isLower = false ∧ (Char.ofNat n).isDigit = false := by
    decide
  have hlt : c.toNat < 128 := Text.toNat_lt_of_isAsciiAlnum (by simp [Text.isAsciiAlnum, h])
  have hc := hall c.toNat hlt
  rw [Char.ofNat_toNat] at hc
  exact hc h

/-! ## Breaks -/

/-- A word begins behind a lower-case letter or a digit. -/
def breaksBehindSmall (before : Option Char) (c : Char) (_ : Option Char) : Bool :=
  c.isUpper && before.any fun b => b.isLower || b.isDigit

/-- A word begins at the last of several capitals, where a lower-case letter follows. -/
def breaksInCapitals (before : Option Char) (c : Char) (after : Option Char) : Bool :=
  c.isUpper && before.any (·.isUpper) && after.any (·.isLower)

/-- The text with a space at every place that a rule picks. -/
def spacedBy (rule : Option Char → Char → Option Char → Bool) (before : Option Char) :
    List Char → List Char
  | [] => []
  | c :: cs =>
    if rule before c cs.head? then ' ' :: c :: spacedBy rule (some c) cs
    else c :: spacedBy rule (some c) cs

/-- Behind a capital there is no break of the first kind. -/
theorem head?_spacedBy {c : Char} (hc : c.isUpper = true) (cs : List Char) :
    (spacedBy breaksBehindSmall (some c) cs).head? = cs.head? := by
  cases cs with
  | nil => rfl
  | cons d cs =>
    obtain ⟨hlower, hdigit⟩ := not_small_of_isUpper hc
    rw [spacedBy, if_neg (by simp [breaksBehindSmall, hlower, hdigit])]
    rfl

/-- **Both kinds of breaks**, put in one after the other. -/
theorem spaced_eq_twice (before : Option Char) (cs : List Char) : spaced before cs =
    spacedBy breaksInCapitals before (spacedBy breaksBehindSmall before cs) := by
  induction cs generalizing before with
  | nil => rfl
  | cons c cs ih =>
    have hspace : Char.isUpper ' ' = false := by decide
    rw [spaced, spacedBy, ih (some c)]
    by_cases hfirst : breaksBehindSmall before c cs.head? = true
    · -- the space in front of `c` keeps it from having a break of the other kind as well
      have hboth : breaksAt before c cs.head? = true := by
        rw [breaksBehindSmall, Bool.and_eq_true] at hfirst
        rw [breaksAt, hfirst.1, hfirst.2]
        rfl
      rw [if_pos hboth, if_pos hfirst, spacedBy, if_neg (by simp [breaksInCapitals, hspace]),
        spacedBy, if_neg (by simp [breaksInCapitals, hspace])]
    · have hsame : breaksAt before c cs.head? = breaksInCapitals before c
          (spacedBy breaksBehindSmall (some c) cs).head? := by
        by_cases hc : c.isUpper = true
        · have hsmall : (before.any fun b => b.isLower || b.isDigit) = false := by
            simpa [breaksBehindSmall, hc] using hfirst
          rw [head?_spacedBy hc, breaksAt, breaksInCapitals, hsmall, Bool.false_or,
            Bool.and_assoc]
        · simp [breaksAt, breaksInCapitals, hc]
      rw [if_neg hfirst, spacedBy, hsame]

/-- Breaks are no letters or digits. -/
theorem filter_spaced : ∀ (before : Option Char) (cs : List Char),
    (spaced before cs).filter Text.isAsciiAlnum = cs.filter Text.isAsciiAlnum
  | _, [] => rfl
  | before, c :: cs => by
    have ih := filter_spaced (some c) cs
    have hspace : Text.isAsciiAlnum ' ' = false := by decide
    rw [spaced]
    split
    · rw [List.filter_cons_of_neg (by simp [hspace]), List.filter_cons, List.filter_cons, ih]
    · rw [List.filter_cons, List.filter_cons, ih]

/-- There are none where there are no capitals. -/
theorem spaced_eq_self {cs : List Char} (h : ∀ c ∈ cs, c.isUpper = false) (before : Option Char) :
    spaced before cs = cs := by
  obtain ⟨before', hs⟩ := spaced_append h [] before
  simpa [spaced] using hs

/-! ## Words -/

/-- A word is never empty, and made of lower-case letters and digits. -/
theorem word_small {cs w : List Char} (h : w ∈ wordsIn cs) : w ≠ [] ∧ ∀ c ∈ w, IsSmall c := by
  obtain ⟨run, hrun, rfl⟩ := List.mem_map.1 h
  constructor
  · intro hnil
    exact Text.ne_nil_of_mem_runs hrun (List.map_eq_nil_iff.1 hnil)
  · intro c hc
    obtain ⟨x, hx, rfl⟩ := List.mem_map.1 hc
    exact isSmall_toLower (Text.of_mem_runs hrun x hx)

/-- **Splitting neither loses nor invents a letter or a digit.** -/
theorem flatten_wordsIn (cs : List Char) :
    (wordsIn cs).flatten = (cs.filter Text.isAsciiAlnum).map Char.toLower := by
  rw [wordsIn, ← List.map_flatten, Text.flatten_runs, filter_spaced]

/-- Words with underscores between them are found again. -/
theorem wordsIn_join {ws : List (List Char)} (h : ∀ w ∈ ws, w ≠ [] ∧ ∀ c ∈ w, IsSmall c) :
    wordsIn (Text.join ['_'] ws) = ws := by
  have hcapital : ∀ c ∈ Text.join ['_'] ws, c.isUpper = false := by
    intro c hc
    rcases Text.of_mem_join hc with hc | ⟨w, hw, hc⟩
    · obtain rfl := List.mem_singleton.1 hc
      decide
    · exact ((h w hw).2 c hc).plain.1
  have hruns : ∀ w ∈ ws, w ≠ [] ∧ ∀ c ∈ w, Text.isAsciiAlnum c = true := by
    intro w hw
    exact ⟨(h w hw).1, fun c hc => ((h w hw).2 c hc).plain.2.1⟩
  have hlower : ∀ w ∈ ws, w.map Char.toLower = w := by
    intro w hw
    conv_rhs => rw [← List.map_id w]
    exact List.map_congr_left fun c hc => ((h w hw).2 c hc).plain.2.2
  rw [wordsIn, spaced_eq_self hcapital, Text.runs_join (by decide) hruns]
  conv_rhs => rw [← List.map_id ws]
  exact List.map_congr_left hlower

theorem wordsIn_snake (cs : List Char) : wordsIn (CaseStyle.snake.write cs) = wordsIn cs :=
  wordsIn_join fun _ => word_small

/-- **Words lose nothing and invent nothing.** Every word is a text of lower-case letters and
digits, and never empty; together the words are the letters and digits of the text in lower case;
and a name in snake case is split into the words of the text, so it is its own name. -/
theorem words_lossless (text : String) :
    (∀ w ∈ words text, w ≠ "" ∧ ∀ c ∈ w.toList, ('a' ≤ c ∧ c ≤ 'z') ∨ ('0' ≤ c ∧ c ≤ '9')) ∧
    String.join (words text) =
      .ofList ((text.toList.filter Text.isAsciiAlnum).map Char.toLower) ∧
    words (snake text) = words text ∧ snake (snake text) = snake text := by
  have hwords : wordsIn (snake text).toList = wordsIn text.toList := by
    rw [snake, String.toList_ofList, wordsIn_snake]
  refine ⟨?_, ?_, ?_, ?_⟩
  · intro w hw
    obtain ⟨cs, hcs, rfl⟩ := List.mem_map.1 hw
    obtain ⟨hne, hsmall⟩ := word_small hcs
    rw [String.toList_ofList]
    refine ⟨fun hempty => hne ?_, hsmall⟩
    simpa using congrArg String.toList hempty
  · apply String.toList_injective
    rw [String.toList_join, words, List.flatMap_map, String.toList_ofList, ← flatten_wordsIn]
    simp [List.flatMap_def]
  · rw [words, words, hwords]
  · show String.ofList (Text.join ['_'] (wordsIn (snake text).toList)) = _
    rw [hwords]
    rfl

example : words "HTTPServer2Go my_Ünit" = ["http", "server2", "go", "my", "nit"] := by decide

end Name

end Lifeline
