import Lifeline.Pattern.Basic

/-!
# Matches that last

A pattern that asks only for the starts of lines and for the edges of words (`Pattern.Lasts`) is
not disturbed by lines around a text: where it occurs in the text, it occurs in every text that has
these lines before and behind (`Pattern.occursIn_within`). A text of whole lines (`Text.Whole`) ends
with a line feed, unless it is empty.

The edges do not tell the start of a text from a line feed, so what was known of a pattern after
each character is known after lines that come before (`occursFrom_behind`); and at the end of whole
lines no word ends, so nothing is lost where more text comes (`occursFrom_ahead`).
-/

set_option autoImplicit false

namespace Lifeline

/-! ## Whole lines -/

/-- A text of whole lines. -/
def Text.Whole (cs : List Char) : Prop := ∀ c ∈ cs.getLast?, c = '\n'

namespace Text

theorem whole_nil : Whole [] := fun _ h => by simp at h

theorem Whole.append {before cs : List Char} (hb : Whole before) (hc : Whole cs) :
    Whole (before ++ cs) := fun c h => by
  rw [List.getLast?_append] at h
  cases hl : cs.getLast? with
  | none =>
    rw [hl, Option.none_or] at h
    exact hb c h
  | some d =>
    rw [hl, Option.some_or] at h
    exact hc c (hl ▸ h)

/-- A text that has whole lines before it in another one, and ends with a line there. -/
def Within (cs whole : List Char) : Prop :=
  ∃ before after, whole = before ++ (cs ++ after) ∧ Whole before ∧
    (Whole cs ∨ ∀ c ∈ after.head?, c = '\n')

theorem isWord_lineFeed : isWord '\n' = false := by decide +kernel

end Text

/-! ## Edges -/

/-- Whether an edge asks for the start of a line or the edge of a word. -/
def Edge.lasts : Edge → Bool
  | .lineStart | .word => true
  | _ => false

namespace Edge

variable {e : Edge} (h : e.lasts = true)
include h

/-- After a line feed an edge holds as it does at the start of the text. -/
theorem holds_lineFeed (next : Option Char) : e.holds (some '\n') next = e.holds none next := by
  cases e with
  | lineStart => rfl
  | word => simp [holds, Text.isWord_lineFeed]
  | textStart | textEnd | lineEnd | insideOrOutside | after | before => cases h

/-- An edge at the end of a text holds where more text comes, unless that goes on with the word. -/
theorem holds_of_end {previous next : Option Char}
    (hw : previous.any Text.isWord = false ∨ next.any Text.isWord = false)
    (hh : e.holds previous none = true) : e.holds previous next = true := by
  cases e with
  | lineStart => exact hh
  | word =>
    have hp : previous.any Text.isWord = true := by simpa [holds] using hh
    have hn : next.any Text.isWord = false := hw.resolve_left (by simp [hp])
    simp [holds, hp, hn]
  | textStart | textEnd | lineEnd | insideOrOutside | after | before => cases h

end Edge

namespace Pattern

/-- A pattern that asks only for the starts of lines and for the edges of words. -/
def Lasts : Pattern → Prop
  | .empty | .one _ => True
  | .edge e => e.lasts = true
  | .seq p q | .either p q => p.Lasts ∧ q.Lasts
  | .many p => p.Lasts

variable {p q : Pattern}

/-! ## Patterns that are put together -/

theorem lasts_one (set : CharSet) : (Pattern.one set).Lasts := trivial

theorem lasts_edge {e : Edge} (h : e.lasts = true) : (Pattern.edge e).Lasts := h

theorem Lasts.andThen (hp : p.Lasts) (hq : q.Lasts) : (p.andThen q).Lasts := by
  unfold Pattern.andThen
  split
  · exact hq
  · exact hp
  · exact ⟨hp, hq⟩

theorem Lasts.copies (hp : p.Lasts) : ∀ n, (p.copies n).Lasts
  | 0 => trivial
  | n + 1 => hp.andThen (hp.copies n)

theorem Lasts.upTo (hp : p.Lasts) : ∀ n, (p.upTo n).Lasts
  | 0 => trivial
  | n + 1 => ⟨hp.andThen (hp.upTo n), trivial⟩

theorem Lasts.times (hp : p.Lasts) (least : Nat) : ∀ most, (p.times least most).Lasts
  | none => (hp.copies least).andThen hp
  | some most => (hp.copies least).andThen (hp.upTo (most - least))

/-! ## One character -/

theorem emptyAt_lineFeed (hp : p.Lasts) (next : Option Char) :
    p.emptyAt (some '\n') next = p.emptyAt none next := by
  induction p with
  | empty | one | many => rfl
  | edge e => exact Edge.holds_lineFeed hp next
  | seq p q ihp ihq | either p q ihp ihq => rw [emptyAt, emptyAt, ihp hp.1, ihq hp.2]

theorem emptyAt_of_end (hp : p.Lasts) {previous next : Option Char}
    (hw : previous.any Text.isWord = false ∨ next.any Text.isWord = false)
    (h : p.emptyAt previous none = true) : p.emptyAt previous next = true := by
  induction p with
  | empty | many => rfl
  | one => cases h
  | edge e => exact Edge.holds_of_end hp hw h
  | seq p q ihp ihq =>
    rw [emptyAt, Bool.and_eq_true] at h ⊢
    exact ⟨ihp hp.1 h.1, ihq hp.2 h.2⟩
  | either p q ihp ihq =>
    rw [emptyAt, Bool.or_eq_true] at h ⊢
    exact h.imp (ihp hp.1) (ihq hp.2)

theorem step_lineFeed (hp : p.Lasts) (c : Char) : p.step (some '\n') c = p.step none c := by
  induction p with
  | empty | one | edge => rfl
  | seq p q ihp ihq => rw [step, step, ihp hp.1, ihq hp.2, emptyAt_lineFeed hp.1]
  | either p q ihp ihq => rw [step, step, ihp hp.1, ihq hp.2]
  | many p ih => rw [step, step, ih hp]

/-- What is left of a pattern asks for no other edges. -/
theorem Lasts.step (hp : p.Lasts) {previous : Option Char} {c : Char} :
    ∀ q ∈ p.step previous c, q.Lasts := by
  induction p with
  | empty | edge => simp [Pattern.step]
  | one set =>
    intro q hq
    rw [Pattern.step] at hq
    split at hq
    · rw [List.mem_singleton.1 hq]
      trivial
    · cases hq
  | seq p r ihp ihr =>
    intro q hq
    rcases List.mem_append.1 hq with hq | hq
    · obtain ⟨s, hs, rfl⟩ := List.mem_map.1 hq
      exact (ihp hp.1 s hs).andThen hp.2
    · split at hq
      · exact ihr hp.2 q hq
      · cases hq
  | either p r ihp ihr =>
    intro q hq
    exact (List.mem_append.1 hq).elim (ihp hp.1 q) (ihr hp.2 q)
  | many p ih =>
    intro q hq
    obtain ⟨s, hs, rfl⟩ := List.mem_map.1 hq
    exact (ih hp s hs).andThen hp

/-! ## A text -/

/-- The character in front of what follows a text. -/
theorem getLast?_cons_or (c : Char) (cs : List Char) (previous : Option Char) :
    (c :: cs).getLast?.or previous = cs.getLast?.or (some c) := by
  rw [List.getLast?_cons]
  cases cs.getLast? <;> rfl

variable {started : List Pattern} {previous : Option Char} {cs : List Char}

/-- The more matches have started, the more of them may end. -/
theorem occursFrom_mono {more : List Pattern} (hs : started ⊆ more)
    (h : p.occursFrom started previous cs = true) : p.occursFrom more previous cs = true := by
  have hcons : p :: started ⊆ p :: more := List.cons_subset_cons p hs
  have hany : ∀ next, (p :: started).any (·.emptyAt previous next) = true →
      (p :: more).any (·.emptyAt previous next) = true := fun next h => by
    obtain ⟨q, hq, he⟩ := List.any_eq_true.1 h
    exact List.any_eq_true.2 ⟨q, hcons hq, he⟩
  induction cs generalizing started more previous with
  | nil => exact hany none h
  | cons c cs ih =>
    rw [occursFrom, Bool.or_eq_true] at h ⊢
    refine h.imp (hany (some c)) fun h => ?_
    have hleft : ((p :: started).flatMap (·.step previous c)).eraseDups ⊆
        ((p :: more).flatMap (·.step previous c)).eraseDups := fun q hq => by
      rw [List.mem_eraseDups, List.mem_flatMap] at hq ⊢
      exact hq.imp fun r hr => hr.imp_left fun hr => hcons hr
    refine ih hleft h (List.cons_subset_cons p hleft) fun next h => ?_
    obtain ⟨q, hq, he⟩ := List.any_eq_true.1 h
    exact List.any_eq_true.2 ⟨q, List.cons_subset_cons p hleft hq, he⟩

/-- A match from the start of a text is one from the start of a line. -/
theorem occursFrom_lineFeed (hp : p.Lasts) (h : p.occursFrom [] none cs = true) :
    p.occursFrom [] (some '\n') cs = true := by
  cases cs with
  | nil => simpa [occursFrom, emptyAt_lineFeed hp] using h
  | cons c cs => simpa [occursFrom, emptyAt_lineFeed hp, step_lineFeed hp] using h

/-- A match in a text is one behind whole lines. -/
theorem occursFrom_behind (hp : p.Lasts) (h : p.occursFrom [] none cs = true) :
    ∀ (before : List Char) (started : List Pattern) (previous : Option Char),
      (∀ c ∈ before.getLast?.or previous, c = '\n') →
        p.occursFrom started previous (before ++ cs) = true
  | [], _, none, _ => occursFrom_mono (List.nil_subset _) h
  | [], _, some c, hl => by
    obtain rfl := hl c rfl
    exact occursFrom_mono (List.nil_subset _) (occursFrom_lineFeed hp h)
  | c :: before, started, previous, hl => by
    rw [List.cons_append, occursFrom, Bool.or_eq_true]
    exact .inr (occursFrom_behind hp h before _ (some c) (getLast?_cons_or c before previous ▸ hl))

/-- A match in a text is one where more text comes, unless that goes on with the last word. -/
theorem occursFrom_ahead (hp : p.Lasts) {after : List Char} (hs : ∀ q ∈ started, q.Lasts)
    (hw : (cs.getLast?.or previous).any Text.isWord = false ∨
      after.head?.any Text.isWord = false)
    (h : p.occursFrom started previous cs = true) :
    p.occursFrom started previous (cs ++ after) = true := by
  have hall : ∀ q ∈ p :: started, q.Lasts := List.forall_mem_cons.2 ⟨hp, hs⟩
  induction cs generalizing started previous with
  | nil =>
    cases after with
    | nil => exact h
    | cons c after =>
      obtain ⟨q, hq, he⟩ := List.any_eq_true.1 h
      rw [List.nil_append, occursFrom, Bool.or_eq_true]
      exact .inl (List.any_eq_true.2 ⟨q, hq, emptyAt_of_end (hall q hq) hw he⟩)
  | cons c cs ih =>
    rw [occursFrom, Bool.or_eq_true] at h
    rw [List.cons_append, occursFrom, Bool.or_eq_true]
    refine h.imp_right fun h => ?_
    have hleft : ∀ q ∈ ((p :: started).flatMap (·.step previous c)).eraseDups, q.Lasts :=
      fun q hq => by
        rw [List.mem_eraseDups, List.mem_flatMap] at hq
        obtain ⟨r, hr, hq⟩ := hq
        exact (hall r hr).step q hq
    rw [getLast?_cons_or] at hw
    exact ih hleft hw h (List.forall_mem_cons.2 ⟨hp, hleft⟩)

/-- **Where a pattern lasts.** A match in a text is one in every text that has whole lines before
it, if it ends with a line there. -/
theorem occursIn_within (hp : p.Lasts) {whole : List Char} (hw : Text.Within cs whole)
    (h : p.occursIn cs = true) : p.occursIn whole = true := by
  obtain ⟨before, after, rfl, hb, ha⟩ := hw
  have hword : ∀ o : Option Char, (∀ c ∈ o, c = '\n') → o.any Text.isWord = false := fun o ho => by
    cases o with
    | none => rfl
    | some c =>
      obtain rfl := ho c rfl
      exact Text.isWord_lineFeed
  have hahead : p.occursFrom [] none (cs ++ after) = true := by
    refine occursFrom_ahead hp (by simp) ?_ h
    rw [Option.or_none]
    exact ha.imp (hword _) (hword _)
  exact occursFrom_behind hp hahead before [] none fun c hc => hb c (by rwa [Option.or_none] at hc)

end Pattern

end Lifeline
