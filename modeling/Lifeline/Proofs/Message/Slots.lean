import Lifeline.Proofs.Message.Placeholders
import Lifeline.Proofs.Outcome
import Lifeline.Template

/-!
# Braces of a template

What each step of filling a template does with the braces it reads.

* `splitLayout_spec`, `splitName_spec`, `readSlot_spec`, `next_spec`: a slot goes from an opening
  brace to a closing one, and the braces of its layout are balanced.
* `readLayout_spec`: a layout whose braces are balanced pads with no brace, and to no more
  characters than the largest number of a template.
-/

set_option autoImplicit false

namespace Lifeline.Template

open Message

variable {c : Char} {cs rest name layout : List Char} {depth : Nat}

/-! ## Reading a slot -/

/-- As many opening braces as closing ones. -/
def Balanced (cs : List Char) : Prop := cs.count '{' = cs.count '}'

theorem balanced_of_braceless (h : Braceless cs) : Balanced cs := by
  have hnot : ∀ c, isBrace c = true → cs.count c = 0 := fun c hc =>
    List.count_eq_zero.2 fun hmem => absurd (h c hmem) (by simp [hc])
  rw [Balanced, hnot '{' rfl, hnot '}' rfl]

theorem Balanced.append (h : Balanced cs) (hrest : Balanced rest) : Balanced (cs ++ rest) := by
  unfold Balanced at h hrest ⊢
  rw [List.count_append, List.count_append, h, hrest]

/-- A character in front of what is read behind it. -/
theorem cons_ok {ε : Type} {x : Except ε (List Char × List Char)}
    (h : (do let (layout, rest) ← x; return (c :: layout, rest)) = .ok (layout, rest)) :
    ∃ inner, x = .ok (inner, rest) ∧ layout = c :: inner := by
  simp only [bind_ok, pure_ok, Prod.exists, Prod.mk.injEq] at h
  obtain ⟨inner, rest', hx, rfl, rfl⟩ := h
  exact ⟨inner, hx, rfl⟩

theorem splitLayout_spec : ∀ {cs : List Char} {depth : Nat} {layout rest : List Char},
    splitLayout depth cs = .ok (layout, rest) →
      cs = layout ++ '}' :: rest ∧ layout.count '}' = layout.count '{' + depth
  | [], _, _, _, h => by cases h
  | c :: cs, depth, layout, rest, h => by
    unfold splitLayout at h
    split at h
    · cases h
    · rename_i heq
      obtain ⟨rfl, rfl⟩ := List.cons.inj heq
      obtain ⟨inner, hsplit, rfl⟩ := cons_ok h
      obtain ⟨rfl, hcount⟩ := splitLayout_spec hsplit
      refine ⟨rfl, ?_⟩
      simp [hcount]
      omega
    · rename_i heq
      obtain ⟨rfl, rfl⟩ := List.cons.inj heq
      split at h
      · obtain ⟨rfl, rfl⟩ := Prod.mk.inj (Except.ok.inj h)
        exact ⟨rfl, rfl⟩
      · obtain ⟨inner, hsplit, rfl⟩ := cons_ok h
        obtain ⟨rfl, hcount⟩ := splitLayout_spec hsplit
        refine ⟨rfl, ?_⟩
        simp [hcount]
        omega
    · rename_i hopen hclose heq
      obtain ⟨rfl, rfl⟩ := List.cons.inj heq
      obtain ⟨inner, hsplit, rfl⟩ := cons_ok h
      obtain ⟨rfl, hcount⟩ := splitLayout_spec hsplit
      refine ⟨rfl, ?_⟩
      rw [List.count_cons_of_ne (fun he => hclose he), List.count_cons_of_ne (fun he => hopen he),
        hcount]

theorem splitName_spec : ∀ {cs : List Char} {inBracket : Bool} {name rest : List Char} {c : Char},
    splitName inBracket cs = .ok (name, c, rest) →
      cs = name ++ c :: rest ∧ (c = '}' ∨ c = ':' ∨ c = '!')
  | [], _, _, _, _, h => by cases h
  | d :: cs, inBracket, name, rest, c, h => by
    unfold splitName at h
    split at h
    · split at h
      · rename_i hsplit
        obtain ⟨rfl, rfl⟩ := Prod.mk.inj (Except.ok.inj h)
        obtain ⟨rfl, hend⟩ := splitName_spec hsplit
        exact ⟨rfl, hend⟩
      · cases h
    split at h
    · cases h
    split at h
    · rename_i hd
      obtain ⟨rfl, hrest⟩ := Prod.mk.inj (Except.ok.inj h)
      obtain ⟨rfl, rfl⟩ := Prod.mk.inj hrest
      exact ⟨rfl, by simpa [or_assoc] using hd⟩
    · split at h
      · rename_i hsplit
        obtain ⟨rfl, rfl⟩ := Prod.mk.inj (Except.ok.inj h)
        obtain ⟨rfl, hend⟩ := splitName_spec hsplit
        exact ⟨rfl, hend⟩
      · cases h

/-- A slot as written: its name, its layout and what stands between them, where only the conversion
may be a brace. -/
theorem readSlot_spec {s : Slot} (h : readSlot cs = .ok (s, rest)) :
    Balanced s.layout ∧ ∃ mark, cs = s.name ++ mark ++ s.layout ++ '}' :: rest ∧
      ∀ c ∈ mark, isBrace c = true → s.conversion = some c := by
  simp only [readSlot, bind_ok] at h
  obtain ⟨⟨name, c, rest'⟩, hname, h⟩ := h
  obtain ⟨rfl, hend⟩ := splitName_spec hname
  split at h
  · rename_i heq
    obtain ⟨rfl, rfl, rfl⟩ := by simpa only [Prod.mk.injEq] using heq
    simp only [pure_ok, Prod.mk.injEq] at h
    obtain ⟨rfl, rfl⟩ := h
    exact ⟨rfl, [], by simp, by simp⟩
  · rename_i heq
    obtain ⟨rfl, rfl, rfl⟩ := by simpa only [Prod.mk.injEq] using heq
    simp only [bind_ok, pure_ok, Prod.exists, Prod.mk.injEq] at h
    obtain ⟨layout, rest'', hlayout, rfl, rfl⟩ := h
    obtain ⟨rfl, hcount⟩ := splitLayout_spec hlayout
    exact ⟨hcount.symm, [':'], by simp, by simp [isBrace]⟩
  · -- a conversion, which may have a layout behind it
    rename_i hclose hcolon heq
    obtain ⟨rfl, rfl, rfl⟩ := by simpa only [Prod.mk.injEq] using heq
    obtain rfl : c = '!' := (hend.resolve_left hclose).resolve_left hcolon
    split at h
    · cases h
    rename_i conversion _
    split at h
    · cases h
    · simp only [pure_ok, Prod.mk.injEq] at h
      obtain ⟨rfl, rfl⟩ := h
      exact ⟨rfl, ['!', conversion], by simp, by simp [isBrace]⟩
    · simp only [bind_ok, pure_ok, Prod.exists, Prod.mk.injEq] at h
      obtain ⟨layout, rest'', hlayout, rfl, rfl⟩ := h
      obtain ⟨rfl, hcount⟩ := splitLayout_spec hlayout
      exact ⟨hcount.symm, ['!', conversion, ':'], by simp, by simp [isBrace]⟩
    · cases h

/-- A piece of a template: a slot behind an opening brace, a doubled brace, or a character that is
no brace. -/
theorem next_spec {piece : Piece} (h : next c cs = .ok (piece, rest)) :
    (∃ s, piece = .slot s ∧ c = '{' ∧ readSlot cs = .ok (s, rest)) ∨
    (piece = .char c ∧ isBrace c = true ∧ cs = c :: rest) ∨
    (piece = .char c ∧ isBrace c = false ∧ cs = rest) := by
  unfold next at h
  split at h
  · obtain ⟨rfl, rfl⟩ := Prod.mk.inj (Except.ok.inj h)
    exact .inr (.inl ⟨rfl, rfl, rfl⟩)
  · cases h
  · obtain ⟨rfl, rfl⟩ := Prod.mk.inj (Except.ok.inj h)
    exact .inr (.inl ⟨rfl, rfl, rfl⟩)
  · cases h
  · simp only [bind_ok, pure_ok, Prod.exists, Prod.mk.injEq] at h
    obtain ⟨s, rest', hslot, rfl, rfl⟩ := h
    exact .inl ⟨s, rfl, rfl, hslot⟩
  · rename_i hclose hopen _ _ _
    obtain ⟨rfl, rfl⟩ := Prod.mk.inj (Except.ok.inj h)
    refine .inr (.inr ⟨rfl, ?_, rfl⟩)
    exact not_isBrace_iff.2 ⟨hopen, hclose⟩

/-! ## Reading a layout -/

theorem readNumber_spec {n : Option Nat} (h : readNumber cs = .ok (n, rest)) :
    n.getD 0 ≤ numberBound ∧ (Braceless rest → Braceless cs) := by
  simp only [readNumber] at h
  split at h
  · cases h
  · rename_i hbound
    obtain ⟨rfl, rfl⟩ := Prod.mk.inj (Except.ok.inj h)
    refine ⟨?_, fun hrest => ?_⟩
    · split
      · exact Nat.zero_le _
      · exact Nat.le_of_not_lt hbound
    · rw [← @List.takeWhile_append_dropWhile _ Text.isDecimal cs]
      refine braceless_append.2 ⟨fun c hc => ?_, hrest⟩
      refine not_isBrace_of (p := Text.isDecimal) (by decide) (by decide) ?_
      exact List.all_eq_true.1 List.all_takeWhile c hc

theorem readSeparator_spec {separator : Option Char}
    (h : readSeparator cs = .ok (separator, rest)) (hrest : Braceless rest) : Braceless cs := by
  unfold readSeparator at h
  split at h
  · cases h
  · cases h
  all_goals
    obtain ⟨rfl, rfl⟩ := Prod.mk.inj (Except.ok.inj h)
    simpa [isBrace] using hrest

theorem readLimit_spec {limit : Option Nat} (h : readLimit cs = .ok (limit, rest))
    (hrest : Braceless rest) : Braceless cs := by
  unfold readLimit at h
  split at h
  · simp only [bind_ok, Prod.exists] at h
    obtain ⟨n, rest', hnumber, h⟩ := h
    split at h
    · cases h
    · rename_i heq
      obtain ⟨rfl, rfl⟩ := by simpa only [Prod.mk.injEq] using heq
      obtain ⟨-, rfl⟩ := Prod.mk.inj (Except.ok.inj h)
      exact braceless_cons.2 ⟨rfl, (readNumber_spec hnumber).2 hrest⟩
  · obtain ⟨rfl, rfl⟩ := Prod.mk.inj (Except.ok.inj h)
    exact hrest

theorem isBrace_of_alignOf? {a : Option Align} (h : alignOf? c = some a) : isBrace c = false := by
  unfold alignOf? at h
  split at h
  all_goals first | rfl | cases h

theorem readAlign_spec {fill : Option Char} {align : Option (Option Align)}
    (h : readAlign cs = (fill, align, rest)) :
    ∃ more, cs = fill.toList ++ more ∧ (Braceless rest → Braceless more) := by
  unfold readAlign at h
  split at h
  · split at h
    · rename_i hd
      simp only [Prod.mk.injEq] at h
      obtain ⟨rfl, rfl, rfl⟩ := h
      exact ⟨_, rfl, fun hrest => braceless_cons.2 ⟨isBrace_of_alignOf? hd, hrest⟩⟩
    · split at h
      · rename_i hc
        simp only [Prod.mk.injEq] at h
        obtain ⟨rfl, rfl, rfl⟩ := h
        exact ⟨_, rfl, fun hrest => braceless_cons.2 ⟨isBrace_of_alignOf? hc, hrest⟩⟩
      · simp only [Prod.mk.injEq] at h
        obtain ⟨rfl, rfl, rfl⟩ := h
        exact ⟨_, rfl, id⟩
  · split at h
    · rename_i hc
      simp only [Prod.mk.injEq] at h
      obtain ⟨rfl, rfl, rfl⟩ := h
      exact ⟨_, rfl, fun hrest => braceless_cons.2 ⟨isBrace_of_alignOf? hc, hrest⟩⟩
    · simp only [Prod.mk.injEq] at h
      obtain ⟨rfl, rfl, rfl⟩ := h
      exact ⟨_, rfl, id⟩
  · simp only [Prod.mk.injEq] at h
    obtain ⟨rfl, rfl, rfl⟩ := h
    exact ⟨_, rfl, id⟩

/-- A layout that is read: what stands behind its fill has no brace. The fill of the layout is the
one that it begins with, where it has one. -/
theorem readLayout_ok {l : Layout} (h : readLayout cs = .ok l) :
    ∃ fill align rest pad, readAlign cs = (fill, align, rest) ∧ Braceless rest ∧
      isBrace pad = false ∧ l.fill = fill.getD pad ∧ l.width ≤ numberBound := by
  unfold readLayout at h
  split at h
  rename_i fill align cs1 halign
  split at h
  rename_i sign cs2 hsign
  split at h
  rename_i zeroSign cs3 hzeroSign
  split at h
  rename_i alternate cs4 halternate
  split at h
  rename_i zeros cs5 hzeros
  rw [bind_ok] at h
  obtain ⟨⟨width, cs6⟩, hwidth, h⟩ := h
  simp only at h
  rw [bind_ok] at h
  obtain ⟨⟨separator, cs7⟩, hseparator, h⟩ := h
  simp only at h
  rw [bind_ok] at h
  obtain ⟨⟨limit, cs8⟩, hlimit, h⟩ := h
  have hkind : cs8 = [] ∨ cs8 = ['s'] := by
    rcases cs8 with _ | ⟨c, _ | _⟩
    · exact .inl rfl
    · by_contra hc
      have hc : (c != 's') = true := by simpa using hc
      simp only [bind, Except.bind, throw, throwThe, MonadExceptOf.throw, hc] at h
      repeat' split at h
      all_goals contradiction
    · cases h
  -- what is left only fails, or gives the layout with the parts that were read
  obtain ⟨pad, hpad, rfl⟩ : ∃ pad, isBrace pad = false ∧ l = {
      fill := fill.getD pad, align := align.join.getD .left, width := width.getD 0, limit } := by
    rcases hkind with rfl | rfl
    all_goals
      simp only [bind, Except.bind, throw, throwThe, MonadExceptOf.throw, pure, Except.pure] at h
      repeat' split at h
      all_goals first
        | exact ⟨_, rfl, (Except.ok.inj h).symm⟩
        | cases h
  have hcs8 : Braceless cs8 := by rcases hkind with rfl | rfl <;> decide
  obtain ⟨hle, hcs6⟩ := readNumber_spec hwidth
  have hcs5 : Braceless cs5 := hcs6 (readSeparator_spec hseparator (readLimit_spec hlimit hcs8))
  refine ⟨fill, align, cs1, pad, halign, ?_, hpad, rfl, hle⟩
  -- each step from here on drops one sign at most
  have hcs4 : Braceless cs4 := by
    split at hzeros
    all_goals
      obtain ⟨rfl, rfl⟩ := Prod.mk.inj hzeros
      simpa [isBrace] using hcs5
  have hcs3 : Braceless cs3 := by
    split at halternate
    all_goals
      obtain ⟨rfl, rfl⟩ := Prod.mk.inj halternate
      simpa [isBrace] using hcs4
  have hcs2 : Braceless cs2 := by
    split at hzeroSign
    all_goals
      obtain ⟨rfl, rfl⟩ := Prod.mk.inj hzeroSign
      simpa [isBrace] using hcs3
  split at hsign
  all_goals
    obtain ⟨rfl, rfl⟩ := Prod.mk.inj hsign
    simpa [isBrace] using hcs2

/-- **A layout whose braces are balanced** pads with no brace. -/
theorem readLayout_spec {l : Layout} (h : readLayout cs = .ok l) (hcs : Balanced cs) :
    isBrace l.fill = false ∧ l.width ≤ numberBound := by
  obtain ⟨fill, align, rest, pad, halign, hrest, hpad, hfill, hwidth⟩ := readLayout_ok h
  refine ⟨?_, hwidth⟩
  cases fill with
  | none => rwa [hfill, Option.getD_none]
  | some c =>
    rw [hfill, Option.getD_some]
    obtain ⟨more, rfl, hmore⟩ := readAlign_spec halign
    have hmore := balanced_of_braceless (hmore hrest)
    cases hc : isBrace c with
    | false => rfl
    | true =>
      -- one brace is not balanced
      unfold Balanced at hcs hmore
      obtain rfl | rfl := isBrace_iff.1 hc
      all_goals simp [hmore] at hcs

end Lifeline.Template
