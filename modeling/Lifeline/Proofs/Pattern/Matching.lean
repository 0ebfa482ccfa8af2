import Lifeline.Proofs.Pattern.Lasting

/-!
# What a pattern matches

`Pattern.Matches p before cs after`: the pattern matches the stretch `cs` of a text, between the
characters that stand right before and right after it. The pass over a text keeps what is left of
the pattern after each character (`matches_cons`), so it finds a match exactly where there is one
(`occursIn_iff`).

Patterns in a row (`Pattern.row`) match stretches in a row (`matches_row_append`), and a row of
characters matches their text (`matches_row_text`).
-/

set_option autoImplicit false

namespace Lifeline.Pattern

/-- The pattern matches a stretch of text between two characters, of which either may be missing. -/
inductive Matches : Pattern → Option Char → List Char → Option Char → Prop
  | empty {before after : Option Char} : Matches .empty before [] after
  | one {set : CharSet} {c : Char} {before after : Option Char} (has : set.has c = true) :
      Matches (.one set) before [c] after
  | edge {e : Edge} {before after : Option Char} (holds : e.holds before after = true) :
      Matches (.edge e) before [] after
  | seq {p q : Pattern} {xs ys : List Char} {before after : Option Char}
      (first : Matches p before xs (ys.head?.or after))
      (second : Matches q (xs.getLast?.or before) ys after) :
      Matches (.seq p q) before (xs ++ ys) after
  | first {p q : Pattern} {cs : List Char} {before after : Option Char}
      (matched : Matches p before cs after) : Matches (.either p q) before cs after
  | second {p q : Pattern} {cs : List Char} {before after : Option Char}
      (matched : Matches q before cs after) : Matches (.either p q) before cs after
  | stop {p : Pattern} {before after : Option Char} : Matches (.many p) before [] after
  | again {p : Pattern} {xs ys : List Char} {before after : Option Char} (some : xs ≠ [])
      (first : Matches p before xs (ys.head?.or after))
      (others : Matches (.many p) (xs.getLast?.or before) ys after) :
      Matches (.many p) before (xs ++ ys) after

variable {p q : Pattern} {before after : Option Char} {c : Char} {cs : List Char}

/-! ## Patterns that are put together -/

theorem matches_seq : Matches (.seq p q) before cs after ↔ ∃ xs ys, cs = xs ++ ys ∧
    Matches p before xs (ys.head?.or after) ∧ Matches q (xs.getLast?.or before) ys after := by
  constructor
  · rintro (_ | _ | _ | ⟨hp, hq⟩)
    exact ⟨_, _, rfl, hp, hq⟩
  · rintro ⟨xs, ys, rfl, hp, hq⟩
    exact .seq hp hq

theorem matches_either : Matches (.either p q) before cs after ↔
    Matches p before cs after ∨ Matches q before cs after := by
  constructor
  · intro h
    cases h with
    | first hp => exact .inl hp
    | second hq => exact .inr hq
  · exact fun h => h.elim .first .second

/-- Some more of a repetition starts with one more of its pattern. -/
theorem matches_many_cons : Matches (.many p) before (c :: cs) after ↔ ∃ xs ys, cs = xs ++ ys ∧
    Matches p before (c :: xs) (ys.head?.or after) ∧
      Matches (.many p) (xs.getLast?.or (some c)) ys after := by
  constructor
  · intro h
    generalize hcs : c :: cs = text at h
    cases h with
    | stop => cases hcs
    | @again _ xs ys _ _ hne hp hq =>
      obtain ⟨x, xs, rfl⟩ := List.exists_cons_of_ne_nil hne
      obtain ⟨rfl, rfl⟩ := List.cons.inj hcs
      rw [getLast?_cons_or] at hq
      exact ⟨xs, ys, rfl, hp, hq⟩
  · rintro ⟨xs, ys, rfl, hp, hq⟩
    rw [← getLast?_cons_or c xs before] at hq
    exact .again (by simp) hp hq

theorem matches_empty : Matches .empty before cs after ↔ cs = [] := by
  constructor
  · rintro ⟨⟩
    rfl
  · rintro rfl
    exact .empty

theorem matches_andThen :
    Matches (p.andThen q) before cs after ↔ Matches (.seq p q) before cs after := by
  rw [matches_seq]
  unfold Pattern.andThen
  split
  · constructor
    · exact fun h => ⟨[], cs, rfl, .empty, by simpa using h⟩
    · rintro ⟨xs, ys, rfl, ⟨⟩, hq⟩
      simpa using hq
  · constructor
    · exact fun h => ⟨cs, [], by simp, by simpa using h, .empty⟩
    · rintro ⟨xs, ys, rfl, hp, ⟨⟩⟩
      simpa using hp
  · exact matches_seq

/-- A pattern at most once. -/
theorem matches_optional : Matches (p.times 0 (some 1)) before cs after ↔
    cs = [] ∨ Matches p before cs after := by
  rw [show p.times 0 (some 1) = .either (p.andThen .empty) .empty from rfl, matches_either,
    matches_andThen, matches_seq, matches_empty, or_comm]
  refine or_congr_right ?_
  constructor
  · rintro ⟨xs, ys, rfl, hp, ⟨⟩⟩
    simpa using hp
  · exact fun h => ⟨cs, [], by simp, by simpa using h, .empty⟩

/-! ## One character -/

/-- What a pattern matches without a character. -/
theorem matches_nil : Matches p before [] after ↔ p.emptyAt before after = true := by
  induction p generalizing before after with
  | empty => exact iff_of_true .empty rfl
  | one set => exact iff_of_false (fun h => by cases h) Bool.noConfusion
  | edge e =>
    refine ⟨fun h => ?_, .edge⟩
    cases h
    assumption
  | seq p q ihp ihq =>
    rw [matches_seq, emptyAt, Bool.and_eq_true, ← ihp, ← ihq]
    constructor
    · rintro ⟨xs, ys, hnil, hp, hq⟩
      obtain ⟨rfl, rfl⟩ := List.append_eq_nil_iff.1 hnil.symm
      exact ⟨hp, hq⟩
    · rintro ⟨hp, hq⟩
      exact ⟨[], [], rfl, hp, hq⟩
  | either p q ihp ihq => rw [matches_either, emptyAt, Bool.or_eq_true, ihp, ihq]
  | many p => exact iff_of_true .stop rfl

/-- **What is left of a pattern** after a character matches what follows. -/
theorem matches_cons : Matches p before (c :: cs) after ↔
    ∃ q ∈ p.step before c, Matches q (some c) cs after := by
  induction p generalizing cs after with
  | empty => exact iff_of_false (fun h => by cases h) (by simp [step])
  | one set =>
    rw [step]
    constructor
    · rintro (_ | has)
      exact ⟨.empty, by rw [if_pos has]; exact .head _, .empty⟩
    · rintro ⟨q, hq, h⟩
      split at hq
      · rename_i has
        obtain rfl := List.mem_singleton.1 hq
        cases h
        exact .one has
      · cases hq
  | edge e => exact iff_of_false (fun h => by cases h) (by simp [step])
  | seq p q ihp ihq =>
    rw [matches_seq, step]
    constructor
    · rintro ⟨xs, ys, hcs, hp, hq⟩
      cases xs with
      | nil =>
        obtain rfl : ys = c :: cs := hcs.symm
        obtain ⟨r, hr, hm⟩ := ihq.1 hq
        have hempty : p.emptyAt before (some c) = true := matches_nil.1 hp
        exact ⟨r, List.mem_append_right _ (by rwa [if_pos hempty]), hm⟩
      | cons x xs =>
        obtain ⟨rfl, rfl⟩ := List.cons.inj hcs
        obtain ⟨r, hr, hm⟩ := ihp.1 hp
        rw [getLast?_cons_or] at hq
        exact ⟨r.andThen q, List.mem_append_left _ (List.mem_map_of_mem hr),
          matches_andThen.2 (.seq hm hq)⟩
    · rintro ⟨r, hr, hm⟩
      rcases List.mem_append.1 hr with hr | hr
      · obtain ⟨p', hp', rfl⟩ := List.mem_map.1 hr
        obtain ⟨xs, ys, rfl, hp, hq⟩ := matches_seq.1 (matches_andThen.1 hm)
        rw [← getLast?_cons_or c xs before] at hq
        exact ⟨c :: xs, ys, rfl, ihp.2 ⟨p', hp', hp⟩, hq⟩
      · split at hr
        · rename_i hempty
          exact ⟨[], c :: cs, rfl, matches_nil.2 hempty, ihq.2 ⟨r, hr, hm⟩⟩
        · cases hr
  | either p q ihp ihq =>
    rw [matches_either, ihp, ihq, step]
    simp only [List.mem_append, or_and_right, exists_or]
  | many p ih =>
    rw [matches_many_cons, step]
    constructor
    · rintro ⟨xs, ys, rfl, hp, hq⟩
      obtain ⟨r, hr, hm⟩ := ih.1 hp
      exact ⟨r.andThen (.many p), List.mem_map_of_mem hr, matches_andThen.2 (.seq hm hq)⟩
    · rintro ⟨r, hr, hm⟩
      obtain ⟨p', hp', rfl⟩ := List.mem_map.1 hr
      obtain ⟨xs, ys, rfl, hp, hq⟩ := matches_seq.1 (matches_andThen.1 hm)
      exact ⟨xs, ys, rfl, ih.2 ⟨p', hp', hp⟩, hq⟩

/-! ## A text -/

/-- A match that has started, or one that starts later. -/
theorem occursFrom_iff {started : List Pattern} :
    p.occursFrom started before cs = true ↔
      (∃ q ∈ started, ∃ xs ys, cs = xs ++ ys ∧ Matches q before xs ys.head?) ∨
      ∃ ws xs ys, cs = ws ++ (xs ++ ys) ∧ Matches p (ws.getLast?.or before) xs ys.head? := by
  induction cs generalizing started before with
  | nil =>
    simp only [occursFrom, List.any_cons, Bool.or_eq_true, List.any_eq_true, ← matches_nil,
      List.nil_eq, List.append_eq_nil_iff]
    constructor
    · rintro (hp | ⟨q, hq, hm⟩)
      · exact .inr ⟨[], [], [], ⟨rfl, rfl, rfl⟩, hp⟩
      · exact .inl ⟨q, hq, [], [], ⟨rfl, rfl⟩, hm⟩
    · rintro (⟨q, hq, _, _, ⟨rfl, rfl⟩, hm⟩ | ⟨_, _, _, ⟨rfl, rfl, rfl⟩, hp⟩)
      · exact .inr ⟨q, hq, hm⟩
      · exact .inl hp
  | cons c cs ih =>
    rw [occursFrom, Bool.or_eq_true, ih]
    simp only [List.any_eq_true, ← matches_nil, List.mem_eraseDups, List.mem_flatMap]
    constructor
    · rintro (⟨q, hq, hm⟩ | ⟨r, ⟨q, hq, hr⟩, xs, ys, rfl, hm⟩ | ⟨ws, xs, ys, rfl, hm⟩)
      · rcases List.mem_cons.1 hq with rfl | hq
        · exact .inr ⟨[], [], c :: cs, rfl, hm⟩
        · exact .inl ⟨q, hq, [], c :: cs, rfl, hm⟩
      · have hm : Matches q before (c :: xs) ys.head? := matches_cons.2 ⟨r, hr, hm⟩
        rcases List.mem_cons.1 hq with rfl | hq
        · exact .inr ⟨[], c :: xs, ys, rfl, hm⟩
        · exact .inl ⟨q, hq, c :: xs, ys, rfl, hm⟩
      · exact .inr ⟨c :: ws, xs, ys, rfl, by rwa [getLast?_cons_or]⟩
    · have hstart : ∀ {q : Pattern} {xs ys : List Char}, q ∈ p :: started → c :: cs = xs ++ ys →
          Matches q before xs ys.head? →
          (∃ q ∈ p :: started, Matches q before [] (some c)) ∨
            ∃ r, (∃ q ∈ p :: started, r ∈ q.step before c) ∧
              ∃ xs ys, cs = xs ++ ys ∧ Matches r (some c) xs ys.head? := by
        intro q xs ys hq hcs hm
        cases xs with
        | nil =>
          obtain rfl : ys = c :: cs := hcs.symm
          exact .inl ⟨q, hq, hm⟩
        | cons x xs =>
          obtain ⟨rfl, rfl⟩ := List.cons.inj hcs
          obtain ⟨r, hr, hm⟩ := matches_cons.1 hm
          exact .inr ⟨r, ⟨q, hq, hr⟩, xs, ys, rfl, hm⟩
      rintro (⟨q, hq, xs, ys, hcs, hm⟩ | ⟨ws, xs, ys, hcs, hm⟩)
      · exact (hstart (.tail _ hq) hcs hm).imp_right .inl
      · cases ws with
        | nil =>
          rw [List.nil_append] at hcs
          rw [List.getLast?_nil, Option.none_or] at hm
          exact (hstart (.head _) hcs hm).imp_right .inl
        | cons w ws =>
          obtain ⟨rfl, rfl⟩ := List.cons.inj hcs
          rw [getLast?_cons_or] at hm
          exact .inr (.inr ⟨ws, xs, ys, rfl, hm⟩)

/-- **Where a pattern occurs.** The pass over a text finds a match exactly where there is one. -/
theorem occursIn_iff {text : List Char} : p.occursIn text = true ↔
    ∃ ws xs ys, text = ws ++ (xs ++ ys) ∧ Matches p ws.getLast? xs ys.head? := by
  rw [occursIn, occursFrom_iff]
  simp

/-! ## Patterns in a row -/

/-- Patterns one after the other. -/
def row (ps : List Pattern) : Pattern := ps.foldr andThen .empty

theorem matches_row_cons {ps : List Pattern} : Matches (row (p :: ps)) before cs after ↔
    ∃ xs ys, cs = xs ++ ys ∧ Matches p before xs (ys.head?.or after) ∧
      Matches (row ps) (xs.getLast?.or before) ys after := by
  rw [row, List.foldr_cons, matches_andThen, matches_seq]
  rfl

theorem matches_row_nil : Matches (row []) before cs after ↔ cs = [] := matches_empty

theorem head?_append_or (xs ys : List Char) :
    (xs ++ ys).head?.or after = xs.head?.or (ys.head?.or after) := by
  rw [List.head?_append, Option.or_assoc]

theorem getLast?_append_or (xs ys : List Char) :
    (xs ++ ys).getLast?.or before = ys.getLast?.or (xs.getLast?.or before) := by
  rw [List.getLast?_append, Option.or_assoc]

/-- Rows one after the other match stretches one after the other. -/
theorem matches_row_append {ps qs : List Pattern} : Matches (row (ps ++ qs)) before cs after ↔
    ∃ xs ys, cs = xs ++ ys ∧ Matches (row ps) before xs (ys.head?.or after) ∧
      Matches (row qs) (xs.getLast?.or before) ys after := by
  induction ps generalizing cs before with
  | nil =>
    simp only [matches_row_nil]
    constructor
    · exact fun h => ⟨[], cs, rfl, rfl, h⟩
    · rintro ⟨_, ys, rfl, rfl, h⟩
      exact h
  | cons p ps ih =>
    simp only [List.cons_append, matches_row_cons, ih]
    constructor
    · rintro ⟨xs, _, rfl, hp, ys, zs, rfl, hps, hqs⟩
      rw [head?_append_or] at hp
      exact ⟨xs ++ ys, zs, (List.append_assoc ..).symm, ⟨xs, ys, rfl, hp, hps⟩,
        by rwa [getLast?_append_or]⟩
    · rintro ⟨_, zs, rfl, ⟨xs, ys, rfl, hp, hps⟩, hqs⟩
      rw [getLast?_append_or] at hqs
      exact ⟨xs, ys ++ zs, List.append_assoc .., by rwa [head?_append_or], ys, zs, rfl, hps, hqs⟩

theorem lasts_row {ps : List Pattern} (h : ∀ p ∈ ps, p.Lasts) : (row ps).Lasts := by
  induction ps with
  | nil => trivial
  | cons p ps ih =>
    obtain ⟨hp, hps⟩ := List.forall_mem_cons.1 h
    exact hp.andThen (ih hps)

/-! ## Rows of characters -/

theorem has_single {d : Char} : (CharSet.single c).has d = true ↔ d = c := by
  simp only [CharSet.single, CharSet.has, List.any_cons, List.any_nil, Bool.or_false, CharItem.has,
    Bool.bne_false, Bool.and_eq_true, decide_eq_true_eq]
  exact ⟨fun ⟨h, h'⟩ => Char.le_antisymm h' h, fun h => h ▸ ⟨Char.le_refl _, Char.le_refl _⟩⟩

/-- The patterns of the characters of a text. -/
def text (cs : List Char) : List Pattern := cs.map fun c => .one (.single c)

theorem lasts_text : ∀ p ∈ text cs, p.Lasts := fun _ hp => by
  obtain ⟨c, -, rfl⟩ := List.mem_map.1 hp
  trivial

/-- A row of characters matches their text. -/
theorem matches_row_text {written : List Char} :
    Matches (row (text written)) before cs after ↔ cs = written := by
  induction written generalizing cs before with
  | nil => exact matches_row_nil
  | cons c written ih =>
    rw [text, List.map_cons, matches_row_cons]
    constructor
    · rintro ⟨xs, ys, rfl, ⟨⟩ | ⟨has⟩, hrest⟩
      rw [has_single.1 has, ih.1 hrest]
      rfl
    · rintro rfl
      exact ⟨[c], written, rfl, .one (has_single.2 rfl), ih.2 rfl⟩

/-! ## Rows of many characters -/

/-- Characters of a set, as many as there are. -/
theorem matches_many_one {set : CharSet} :
    Matches (.many (.one set)) before cs after ↔ ∀ c ∈ cs, set.has c = true := by
  induction cs generalizing before with
  | nil => exact iff_of_true .stop (by simp)
  | cons c cs ih =>
    rw [matches_many_cons, List.forall_mem_cons]
    constructor
    · rintro ⟨xs, ys, rfl, ⟨⟩ | ⟨has⟩, hrest⟩
      exact ⟨has, ih.1 hrest⟩
    · exact fun ⟨has, hrest⟩ => ⟨[], cs, rfl, .one has, ih.2 hrest⟩

/-- Characters of a set, at least one. -/
theorem matches_some_one {set : CharSet} :
    Matches ((Pattern.one set).times 1 none) before cs after ↔
      cs ≠ [] ∧ ∀ c ∈ cs, set.has c = true := by
  rw [show (Pattern.one set).times 1 none = .seq (.one set) (.many (.one set)) from rfl,
    matches_seq]
  simp only [matches_many_one]
  constructor
  · rintro ⟨xs, ys, rfl, ⟨⟩ | ⟨has⟩, hys⟩
    exact ⟨by simp, List.forall_mem_cons.2 ⟨has, hys⟩⟩
  · rintro ⟨hne, hcs⟩
    obtain ⟨c, cs, rfl⟩ := List.exists_cons_of_ne_nil hne
    obtain ⟨has, hcs⟩ := List.forall_mem_cons.1 hcs
    exact ⟨[c], cs, rfl, .one has, hcs⟩

end Lifeline.Pattern
