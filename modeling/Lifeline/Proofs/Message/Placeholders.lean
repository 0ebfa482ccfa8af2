import Lifeline.Message
import Mathlib.Data.List.TakeWhile

/-!
# Placeholders of a message

A message is cut into its placeholders and the characters around them (`placeholder_cases`). Each
placeholder has a value in its place (`substitute`), and what is left of the braces of the message
belongs to no placeholder.

* `substituteFrom_char`, `substituteFrom_name`, `placeholdersIn_char`, `placeholdersIn_name`: the
  two ways a message goes on.
* `braces_eq`: the braces of a message are two for each placeholder, and those around them.
* `le_count_substituteFrom`: a letter of the values stands in the message once for each placeholder
  and each place in the value.
-/

set_option autoImplicit false

namespace Lifeline.Message

/-! ## Substitution -/

/-- The text with values in place of its placeholders, behind `skipped` characters that belong to a
placeholder. -/
def substituteFrom (σ : List Char → List Char) : (skipped : Nat) → List Char → List Char
  | _, [] => []
  | skipped + 1, _ :: cs => substituteFrom σ skipped cs
  | 0, c :: cs =>
    match if c == '{' then nameBeforeBrace? cs else none with
    | some name => σ name ++ substituteFrom σ (name.length + 1) cs
    | none => c :: substituteFrom σ 0 cs

/-- The template with values in place of its placeholders. -/
def substitute (σ : String → String) (template : String) : String :=
  .ofList (substituteFrom (fun name => (σ (.ofList name)).toList) 0 template.toList)

def isBrace (c : Char) : Bool := c == '{' || c == '}'

/-- A text without braces. -/
def Braceless (cs : List Char) : Prop := ∀ c ∈ cs, isBrace c = false

instance (cs : List Char) : Decidable (Braceless cs) :=
  List.decidableBAll (fun c => isBrace c = false) cs

/-- Every brace of the template belongs to a placeholder: there is none around them. -/
def Plain (template : String) : Prop :=
  Braceless (substituteFrom (fun _ => []) 0 template.toList)

instance (template : String) : Decidable (Plain template) :=
  inferInstanceAs (Decidable (Braceless _))

/-- How many braces a text has. -/
def braces (cs : List Char) : Nat := cs.countP isBrace

/-- The name of a placeholder. -/
def IsName (name : List Char) : Prop :=
  (∃ c ∈ name.head?, c.isDigit = false) ∧ ∀ c ∈ name, nameBeforeBrace?.isPart c = true

/-! ## Names -/

variable {c : Char} {cs name rest : List Char} {σ : List Char → List Char}

theorem isBrace_iff : isBrace c = true ↔ c = '{' ∨ c = '}' := by simp [isBrace]

theorem not_isBrace_iff : isBrace c = false ↔ c ≠ '{' ∧ c ≠ '}' := by simp [isBrace]

/-- No brace is among characters of which the braces are none. -/
theorem not_isBrace_of {p : Char → Bool} (hopen : p '{' = false) (hclose : p '}' = false)
    (h : p c = true) : isBrace c = false := by
  refine not_isBrace_iff.2 ⟨?_, ?_⟩
  · rintro rfl
    simp [hopen] at h
  · rintro rfl
    simp [hclose] at h

theorem isPart_ne (h : nameBeforeBrace?.isPart c = true) :
    isBrace c = false ∧ c ≠ '.' ∧ c ≠ '[' ∧ c ≠ ':' ∧ c ≠ '!' := by
  refine ⟨not_isBrace_of (by decide) (by decide) h, ?_, ?_, ?_, ?_⟩
  all_goals
    rintro rfl
    exact absurd h (by decide)

theorem IsName.braceless (h : IsName name) : Braceless name := fun c hc => (isPart_ne (h.2 c hc)).1

theorem nameBeforeBrace?_iff :
    nameBeforeBrace? cs = some name ↔ IsName name ∧ ∃ rest, cs = name ++ '}' :: rest := by
  unfold nameBeforeBrace?
  constructor
  · intro h
    split at h
    · rename_i c rest rest' htake hdrop
      split at h
      · cases h
      · rename_i hdigit
        obtain rfl := Option.some.inj h
        refine ⟨⟨⟨c, rfl, by simpa using hdigit⟩, fun d hd => ?_⟩, rest', ?_⟩
        · exact List.all_eq_true.1 (List.all_takeWhile (p := nameBeforeBrace?.isPart)) d
            (htake ▸ hd)
        · rw [← htake, ← hdrop, List.takeWhile_append_dropWhile]
    · cases h
  · rintro ⟨⟨⟨c, hc, hdigit⟩, hall⟩, rest, rfl⟩
    obtain ⟨more, rfl⟩ := List.head?_eq_some_iff.1 hc
    have hclose : nameBeforeBrace?.isPart '}' = false := by decide
    have htake : (c :: more ++ '}' :: rest).takeWhile nameBeforeBrace?.isPart = c :: more := by
      rw [List.takeWhile_append_of_pos hall, List.takeWhile_cons_of_neg (by simp [hclose]),
        List.append_nil]
    have hdrop : (c :: more ++ '}' :: rest).dropWhile nameBeforeBrace?.isPart = '}' :: rest := by
      rw [List.dropWhile_append_of_pos hall, List.dropWhile_cons_of_neg (by simp [hclose])]
    rw [htake, hdrop]
    simp [hdigit]

/-! ## Texts without braces -/

@[simp] theorem braceless_nil : Braceless [] := List.forall_mem_nil _

@[simp] theorem braceless_cons : Braceless (c :: cs) ↔ isBrace c = false ∧ Braceless cs :=
  List.forall_mem_cons

@[simp] theorem braceless_append : Braceless (cs ++ rest) ↔ Braceless cs ∧ Braceless rest :=
  List.forall_mem_append

/-! ## The two ways a message goes on -/

/-- No placeholder begins with the character. -/
def BeginsNone (c : Char) (cs : List Char) : Prop := c = '{' → nameBeforeBrace? cs = none

theorem BeginsNone.eq_none (h : BeginsNone c cs) :
    (if c == '{' then nameBeforeBrace? cs else none) = none := by
  split
  · exact h (by simpa using ‹(c == '{') = true›)
  · rfl

theorem substituteFrom_char (h : BeginsNone c cs) :
    substituteFrom σ 0 (c :: cs) = c :: substituteFrom σ 0 cs := by
  rw [substituteFrom, h.eq_none]

theorem placeholdersIn_char (h : BeginsNone c cs) :
    placeholdersIn (c :: cs) = placeholdersIn cs := by
  rw [placeholdersIn, h.eq_none]

theorem eq_name (h : IsName name) (rest : List Char) :
    (if '{' == '{' then nameBeforeBrace? (name ++ '}' :: rest) else none) = some name := by
  rw [if_pos (beq_self_eq_true '{')]
  exact nameBeforeBrace?_iff.2 ⟨h, rest, rfl⟩

theorem substituteFrom_skip : ∀ (skipped cs : List Char),
    substituteFrom σ skipped.length (skipped ++ cs) = substituteFrom σ 0 cs
  | [], _ => rfl
  | _ :: skipped, cs => by
    rw [List.length_cons, List.cons_append, substituteFrom, substituteFrom_skip]

theorem substituteFrom_name (h : IsName name) (rest : List Char) :
    substituteFrom σ 0 ('{' :: (name ++ '}' :: rest)) = σ name ++ substituteFrom σ 0 rest := by
  have hskip := @substituteFrom_skip σ (name ++ ['}']) rest
  rw [List.length_append, List.length_singleton, List.append_assoc, List.singleton_append] at hskip
  rw [substituteFrom, eq_name h]
  exact congrArg (σ name ++ ·) hskip

theorem placeholdersIn_name (h : IsName name) (rest : List Char) :
    placeholdersIn ('{' :: (name ++ '}' :: rest)) = name :: placeholdersIn rest := by
  have hskip : ∀ skipped : List Char, '{' ∉ skipped →
      placeholdersIn (skipped ++ rest) = placeholdersIn rest := by
    intro skipped
    induction skipped with
    | nil => exact fun _ => rfl
    | cons c skipped ih =>
      intro hnot
      rw [List.mem_cons, not_or] at hnot
      rw [List.cons_append, placeholdersIn_char fun hc => absurd hc.symm hnot.1, ih hnot.2]
  have hnot : '{' ∉ name ++ ['}'] := by
    intro hmem
    rcases List.mem_append.1 hmem with hmem | hmem
    · exact absurd (h.braceless _ hmem) (by decide)
    · simp at hmem
  rw [placeholdersIn, eq_name h, List.append_cons, hskip _ hnot]

/-- **A message goes on** with a character that stands for itself or with a placeholder. -/
theorem placeholder_cases {P : List Char → Prop} (nil : P [])
    (char : ∀ c cs, BeginsNone c cs → P cs → P (c :: cs))
    (name : ∀ name rest, IsName name → P rest → P ('{' :: (name ++ '}' :: rest))) :
    ∀ cs, P cs := by
  intro cs
  induction hn : cs.length using Nat.strong_induction_on generalizing cs with
  | _ n ih =>
    subst hn
    match cs with
    | [] => exact nil
    | c :: cs =>
      by_cases hbegins : BeginsNone c cs
      · exact char c cs hbegins (ih cs.length (Nat.lt_succ_self _) cs rfl)
      · obtain ⟨rfl, hname⟩ : c = '{' ∧ nameBeforeBrace? cs ≠ none := Classical.not_imp.1 hbegins
        obtain ⟨x, hsome⟩ := Option.ne_none_iff_exists'.1 hname
        obtain ⟨hx, rest, rfl⟩ := nameBeforeBrace?_iff.1 hsome
        refine name x rest hx (ih rest.length ?_ rest rfl)
        simp only [List.length_cons, List.length_append]
        omega

/-! ## Counting -/

@[simp] theorem braces_nil : braces [] = 0 := rfl

theorem braces_cons (c : Char) (cs : List Char) :
    braces (c :: cs) = braces cs + if isBrace c then 1 else 0 := List.countP_cons

@[simp] theorem braces_append (cs ds : List Char) : braces (cs ++ ds) = braces cs + braces ds :=
  List.countP_append

theorem braces_eq_zero_iff : braces cs = 0 ↔ Braceless cs := by
  simp [braces, Braceless]

/-- The braces of a text are two for each placeholder, and those around them. -/
theorem braces_eq (hσ : ∀ name, braces (σ name) = 0) (cs : List Char) :
    braces cs = 2 * (placeholdersIn cs).length + braces (substituteFrom σ 0 cs) := by
  induction cs using placeholder_cases with
  | nil => rfl
  | char c cs hbegins ih =>
    rw [placeholdersIn_char hbegins, substituteFrom_char hbegins, braces_cons, braces_cons, ih]
    omega
  | name name rest hname ih =>
    have hopen : isBrace '{' = true := rfl
    have hclose : isBrace '}' = true := rfl
    rw [placeholdersIn_name hname, substituteFrom_name hname, braces_cons, braces_append,
      braces_append, braces_cons, hσ, braces_eq_zero_iff.2 hname.braceless, ih, if_pos hopen,
      if_pos hclose, List.length_cons]
    omega

theorem le_count_substituteFrom (c : Char) (K : Nat) (cs : List Char) :
    K * (placeholdersIn cs).length ≤
      (substituteFrom (fun _ => List.replicate K c) 0 cs).count c := by
  induction cs using placeholder_cases with
  | nil => exact Nat.zero_le _
  | char d cs hbegins ih =>
    rw [placeholdersIn_char hbegins, substituteFrom_char hbegins]
    exact Nat.le_trans ih (List.count_le_count_cons)
  | name name rest hname ih =>
    rw [placeholdersIn_name hname, substituteFrom_name hname, List.count_append,
      List.count_replicate_self, List.length_cons, Nat.mul_succ]
    omega

end Lifeline.Message
