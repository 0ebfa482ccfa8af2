import Lifeline.Pattern.Reader
import Lifeline.Proofs.Pattern.Matching

/-!
# What written patterns say

A written pattern is read one token after the other, into the groups that are open (`readInto`).
`Says s cs s'`: the text `cs` turns the groups `s` into `s'`. Characters that stand for themselves,
and a text that is escaped, put the row of their patterns behind what the innermost group has
(`Says.text`, `Says.escape`). A group without alternatives is the row of what it has
(`Group.pattern_eq`), so what a text says is the pattern that it writes (`parse_of_says`).
-/

set_option autoImplicit false

namespace Lifeline.Pattern

/-! ## Groups as rows -/

namespace Group

/-- The patterns in the last branch of a group, in order. -/
def parts (g : Group) : List Pattern := (g.pieces.map (·.pattern)).reverse

/-- A group with the patterns of a text. -/
def pushText (g : Group) (cs : List Char) : Group :=
  cs.foldl (fun g c => g.push (.one (.single c))) g

variable {g : Group}

@[simp] theorem parts_empty : ({} : Group).parts = [] := rfl

@[simp] theorem parts_push (p : Pattern) (repeatable : Bool) :
    (g.push p repeatable).parts = g.parts ++ [p] := by
  simp [parts, push]

@[simp] theorem branches_push (p : Pattern) (repeatable : Bool) :
    (g.push p repeatable).branches = g.branches := rfl

theorem pushText_cons (c : Char) (cs : List Char) :
    g.pushText (c :: cs) = (g.push (.one (.single c))).pushText cs := rfl

@[simp] theorem parts_pushText (cs : List Char) : (g.pushText cs).parts = g.parts ++ text cs := by
  induction cs generalizing g with
  | nil => simp [pushText, text]
  | cons c cs ih => simp [pushText_cons, ih, text]

@[simp] theorem branches_pushText (cs : List Char) : (g.pushText cs).branches = g.branches := by
  induction cs generalizing g with
  | nil => rfl
  | cons c cs ih => rw [pushText_cons, ih, branches_push]

theorem branch_eq : g.branch = row g.parts := by
  rw [branch, row, parts, List.foldr_reverse, List.foldl_map]

/-- A group without alternatives is a row. -/
theorem pattern_eq (h : g.branches = []) : g.pattern = row g.parts := by
  rw [pattern, h, List.foldl_nil, branch_eq]

end Group

/-! ## What a text says -/

/-- The text of a pattern turns the groups that are open into others. -/
def Says (s : Group × List Group) (cs : List Char) (s' : Group × List Group) : Prop :=
  ∃ ts, (∀ fuel, cs.length ≤ fuel → tokens? fuel cs = some ts) ∧ groupNames ts = [] ∧
    ts.foldlM readInto s = some s'

/-- **A written pattern** is what its text says. -/
theorem parse_of_says {written : String} {g : Group} (h : Says ({}, []) written.toList (g, [])) :
    parse? written = some g.pattern := by
  obtain ⟨ts, hts, hnames, hread⟩ := h
  unfold parse?
  rw [hts _ (Nat.le_of_eq String.length_toList), Option.bind_eq_bind, Option.bind_some, hnames,
    hread]
  rfl

variable {s s₁ s' : Group × List Group} {g : Group} {around : List Group} {c : Char}
  {cs rest : List Char} {t : Token}

theorem says_nil : Says s [] s := ⟨[], fun fuel _ => by cases fuel <;> rfl, rfl, rfl⟩

theorem Says.read (hr : Says s₁ rest s') (h : readToken? cs = some (t, rest))
    (hl : rest.length < cs.length) (ht : groupNames [t] = []) (hs : readInto s t = some s₁) :
    Says s cs s' := by
  obtain ⟨ts, hts, hnames, hread⟩ := hr
  refine ⟨t :: ts, fun fuel hf => ?_, ?_, ?_⟩
  · cases cs with
    | nil => cases h
    | cons c cs =>
      obtain ⟨fuel, rfl⟩ : ∃ n, fuel = n + 1 := ⟨fuel - 1, by simp at hf; omega⟩
      rw [List.length_cons] at hl hf
      simp only [tokens?, h, Option.bind_eq_bind, Option.bind_some, hts fuel (by omega),
        Option.pure_def]
  · rw [← List.singleton_append, groupNames, List.filterMap_append, ← groupNames, ← groupNames, ht,
      hnames]
    rfl
  · rw [List.foldlM_cons, hs]
    exact hread

/-- Characters that do not stand for themselves. -/
def isMark (c : Char) : Bool :=
  ['|', '(', ')', '^', '$', '*', '+', '?', '\x7b', '\\', '[', '.'].contains c

/-- Other characters stand for themselves. -/
theorem readToken?_plain (h : isMark c = false) :
    readToken? (c :: cs) = some (.one (.single c), cs) := by
  have hmarks : "\\()|*+?^$".toList.all isMark = true := by decide
  have hnot : ¬ "\\()|*+?^$".toList.contains c = true := fun hc => by
    rw [List.all_eq_true.1 hmarks c (List.contains_iff_mem.1 hc)] at h
    cases h
  have hone : readOne? (c :: cs) = some (.single c, cs) := by
    unfold readOne?
    split
    case h_4 heq =>
      obtain ⟨rfl, rfl⟩ := List.cons.inj heq
      exact if_neg hnot
    case h_5 heq => cases heq
    all_goals
      rename_i heq
      obtain ⟨rfl, -⟩ := List.cons.inj heq
      cases h
  unfold readToken?
  split
  case h_11 => rw [hone]; rfl
  all_goals
    rename_i heq
    obtain ⟨rfl, -⟩ := List.cons.inj heq
    cases h

/-- After a backslash, characters that are neither letters nor digits stand for themselves. -/
theorem readToken?_escaped (hl : Text.isAsciiLetter c = false) (hd : c.isDigit = false) :
    readToken? ('\\' :: c :: cs) = some (.one (.single c), cs) := by
  have hedge : edgeOf? c = none := by
    unfold edgeOf?
    split
    case h_5 => rfl
    all_goals cases hl
  have hclass : classOf? c = none := by
    unfold classOf?
    split
    case h_7 => rfl
    all_goals cases hl
  have hcontrol : controlOf? c = none := by
    unfold controlOf?
    split
    case h_7 => rfl
    all_goals cases hl
  have hescape : readEscape? (c :: cs) = some (c, cs) := by
    unfold readEscape?
    split
    case h_5 heq =>
      obtain ⟨rfl, rfl⟩ := List.cons.inj heq
      simp [hd, hcontrol, hl]
    case h_6 heq => cases heq
    case h_4 heq =>
      obtain ⟨rfl, -⟩ := List.cons.inj heq
      cases hd
    all_goals
      rename_i heq
      obtain ⟨rfl, -⟩ := List.cons.inj heq
      cases hl
  simp [readToken?, readOne?, hedge, hclass, hescape]

/-! ## Texts that last -/

theorem alnum_of_special (h : isSpecial c = true) :
    Text.isAsciiLetter c = false ∧ c.isDigit = false := by
  have hall := List.all_eq_true (p := fun c => !Text.isAsciiLetter c && !c.isDigit) |>.1
    (by decide) c (List.contains_iff_mem.1 h)
  simpa using hall

theorem special_of_mark (h : isMark c = true) : isSpecial c = true :=
  List.all_eq_true (p := isSpecial) |>.1 (by decide) c (List.contains_iff_mem.1 h)

namespace Says

theorem plain (hr : Says (g.push (.one (.single c)), around) rest s') (h : isMark c = false) :
    Says (g, around) (c :: rest) s' :=
  hr.read (readToken?_plain h) (Nat.lt_succ_self _) rfl rfl

/-- Characters that stand for themselves. -/
theorem text : ∀ {written : List Char} {g : Group}, written.any isMark = false →
    Says (g.pushText written, around) rest s' → Says (g, around) (written ++ rest) s'
  | [], _, _, hr => hr
  | c :: written, g, h, hr => by
    obtain ⟨hc, hwritten⟩ := Bool.or_eq_false_iff.1 (List.any_cons ▸ h)
    exact (text hwritten hr).plain hc

/-- **What is escaped** stands for itself. -/
theorem escape : ∀ {name : List Char} {g : Group},
    Says (g.pushText name, around) rest s' → Says (g, around) (Pattern.escape name ++ rest) s'
  | [], _, hr => hr
  | c :: name, g, hr => by
    have hname : Says (g.push (.one (.single c)), around) (Pattern.escape name ++ rest) s' :=
      escape hr
    have hcons : Pattern.escape (c :: name) ++ rest =
        (if isSpecial c then ['\\', c] else [c]) ++ (Pattern.escape name ++ rest) := by
      rw [Pattern.escape, List.flatMap_cons, List.append_assoc, ← Pattern.escape]
    rw [hcons]
    split
    · rename_i hc
      obtain ⟨hl, hd⟩ := alnum_of_special hc
      exact hname.read (readToken?_escaped hl hd)
        (by simp only [List.length_append, List.length_cons]; omega) rfl rfl
    · rename_i hc
      exact hname.plain (by simpa using mt special_of_mark hc)

end Says

/-! ## Repetitions -/

/-- A text that does not go on with a mark that would change a repetition. -/
def Apart (cs : List Char) : Prop := ∀ c ∈ cs.head?, c ≠ '?' ∧ c ≠ '+'

instance : DecidablePred Apart := fun cs =>
  decidable_of_iff (cs.head?.all (fun c => c != '?' && c != '+') = true) <| by
    cases cs <;> simp [Apart]

theorem Apart.append (h : Apart cs) (hne : cs ≠ []) : Apart (cs ++ rest) := by
  cases cs with
  | nil => exact absurd rfl hne
  | cons => exact h

/-- A name that is escaped keeps repetitions apart. -/
theorem Apart.escape (hr : Apart rest) (name : List Char) :
    Apart (Pattern.escape name ++ rest) := by
  cases name with
  | nil => exact hr
  | cons c name =>
    refine Apart.append (fun d hd => ?_) ?_ <;> rw [Pattern.escape, List.flatMap_cons] at *
    · split at hd
      · obtain rfl : '\\' = d := by simpa using hd
        decide
      · rename_i hc
        obtain rfl : c = d := by simpa using hd
        refine ⟨?_, ?_⟩ <;> rintro rfl <;> exact hc (by decide)
    · split <;> simp

theorem readTimes?_apart {least : Nat} {most : Option Nat} (hm : most.any (· < least) = false)
    (hr : Apart rest) : readTimes? least most rest = some (.times least most, rest) := by
  unfold readTimes?
  rw [if_neg (by simp [hm])]
  split
  · exact absurd rfl (hr '?' rfl).1
  · exact absurd rfl (hr '+' rfl).2
  · rfl

namespace Says

variable {p : Pattern}

theorem plus (hr : Says (g.push (p.times 1 none) false, around) rest s') (ha : Apart rest) :
    Says (g.push p, around) ('+' :: rest) s' :=
  hr.read (readTimes?_apart rfl ha) (Nat.lt_succ_self _) rfl rfl

theorem star (hr : Says (g.push (p.times 0 none) false, around) rest s') (ha : Apart rest) :
    Says (g.push p, around) ('*' :: rest) s' :=
  hr.read (readTimes?_apart rfl ha) (Nat.lt_succ_self _) rfl rfl

theorem question (hr : Says (g.push (p.times 0 (some 1)) false, around) rest s') (ha : Apart rest) :
    Says (g.push p, around) ('?' :: rest) s' :=
  hr.read (readTimes?_apart rfl ha) (Nat.lt_succ_self _) rfl rfl

/-- A class of characters. -/
theorem named {item : CharItem} (hr : Says (g.push (.one { items := [item] }), around) rest s')
    (he : edgeOf? c = none) (hc : classOf? c = some item) :
    Says (g, around) ('\\' :: c :: rest) s' := by
  have hset : readToken? ('\\' :: c :: rest) = some (.one { items := [item] }, rest) := by
    simp [readToken?, he, readOne?, hc]
  exact hr.read hset (by simp only [List.length_cons]; omega) rfl rfl

/-- A character behind a backslash, which stands for itself. -/
theorem escaped (hr : Says (g.push (.one (.single c)), around) rest s')
    (hl : Text.isAsciiLetter c = false) (hd : c.isDigit = false) :
    Says (g, around) ('\\' :: c :: rest) s' :=
  hr.read (readToken?_escaped hl hd) (by simp only [List.length_cons]; omega) rfl rfl

/-- Any character of a line. -/
theorem inLine (hr : Says (g.push (.one .inLine), around) rest s') :
    Says (g, around) ('.' :: rest) s' :=
  hr.read rfl (Nat.lt_succ_self _) rfl rfl

theorem lineStart (hr : Says (g.push (.edge .lineStart) false, around) rest s') :
    Says (g, around) ('^' :: rest) s' :=
  hr.read rfl (Nat.lt_succ_self _) rfl rfl

theorem wordEdge (hr : Says (g.push (.edge .word) false, around) rest s') :
    Says (g, around) ('\\' :: 'b' :: rest) s' :=
  hr.read rfl (by simp only [List.length_cons]; omega) rfl rfl

/-- A group opens. -/
theorem opening (hr : Says ({}, g :: around) rest s') :
    Says (g, around) ('(' :: '?' :: ':' :: rest) s' :=
  hr.read rfl (by simp only [List.length_cons]; omega) rfl rfl

/-- The innermost group is closed. -/
theorem closing {outer : Group} (hr : Says (outer.push g.pattern, around) rest s') :
    Says (g, outer :: around) (')' :: rest) s' :=
  hr.read rfl (Nat.lt_succ_self _) rfl rfl

/-- A further branch of the innermost group. -/
theorem bar (hr : Says ({ branches := g.branch :: g.branches }, around) rest s') :
    Says (g, around) ('|' :: rest) s' :=
  hr.read rfl (Nat.lt_succ_self _) rfl rfl

end Says

end Lifeline.Pattern
