import Lifeline.Proofs.Name.Patterns
import Lifeline.Proofs.Name.Unique

/-!
# The characters of names

Names in Pascal case are made of ASCII letters and digits (`NamingRules.typeName_word`). A type has
an empty name where there are none in the name of its participant; the name of a group of tests is
never empty (`NamingRules.testGroup_word`).
-/

set_option autoImplicit false

namespace Lifeline

namespace Text

theorem toNat_lt_of_isAsciiAlnum {c : Char} (h : isAsciiAlnum c = true) : c.toNat < 128 := by
  rw [isAsciiAlnum] at h
  delta Char.isUpper Char.isLower Char.isDigit at h
  simp only [Bool.or_eq_true, Bool.and_eq_true, decide_eq_true_eq, ge_iff_le,
    UInt32.le_iff_toNat_le] at h
  have hupper : 'Z'.val.toNat = 90 := rfl
  have hlower : 'z'.val.toNat = 122 := rfl
  have hdigit : '9'.val.toNat = 57 := rfl
  rw [Char.toNat]
  omega

theorem isWord_of_isAsciiAlnum {c : Char} (h : isAsciiAlnum c = true) : isWord c = true := by
  simp [isWord, toNat_lt_of_isAsciiAlnum h, h]

theorem isWord_of_isNameStart {c : Char} (h : isNameStart c = true) : isWord c = true := by
  rw [isNameStart, Bool.or_eq_true, isAsciiLetter] at h
  rcases h with h | h
  · exact isWord_of_isAsciiAlnum (by rw [isAsciiAlnum, h, Bool.true_or])
  · obtain rfl := beq_iff_eq.1 h
    decide

/-- Letters and digits stay such in the other case. -/
theorem isAsciiAlnum_cases {c : Char} (h : isAsciiAlnum c = true) :
    isAsciiAlnum c.toLower = true ∧ isAsciiAlnum c.toUpper = true := by
  have hall : ∀ n < 128, isAsciiAlnum (Char.ofNat n) = true →
      isAsciiAlnum (Char.ofNat n).toLower = true ∧ isAsciiAlnum (Char.ofNat n).toUpper = true := by
    decide
  have hc := hall c.toNat (toNat_lt_of_isAsciiAlnum h)
  rw [Char.ofNat_toNat] at hc
  exact hc h

/-- A run is made of characters of its class. -/
theorem of_mem_runs {p : Char → Bool} : ∀ {cs run : List Char}, run ∈ runs p cs →
    ∀ c ∈ run, p c = true
  | [], _, h => by cases h
  | [c], run, h => by
    rw [runs] at h
    split at h
    · rename_i hc
      obtain rfl := List.mem_singleton.1 h
      simpa using hc
    · cases h
  | c :: d :: cs, run, h => by
    have ih : ∀ run ∈ runs p (d :: cs), ∀ c ∈ run, p c = true := fun _ => of_mem_runs
    rw [runs] at h
    split at h
    · rename_i hc
      have hc' : ∀ {run : List Char}, (∀ x ∈ run, p x = true) → ∀ x ∈ c :: run, p x = true :=
        fun hrun => List.forall_mem_cons.2 ⟨hc, hrun⟩
      split at h
      · rename_i first rest hrest
        rw [hrest] at ih
        split at h
        · rcases List.mem_cons.1 h with rfl | h
          · exact hc' (ih first (.head _))
          · exact ih run (.tail _ h)
        · rcases List.mem_cons.1 h with rfl | h
          · exact hc' (by simp)
          · exact ih run h
      · obtain rfl := List.mem_singleton.1 h
        exact hc' (by simp)
    · exact ih run h

theorem of_mem_join {sep : List Char} {c : Char} : ∀ {pieces : List (List Char)},
    c ∈ join sep pieces → c ∈ sep ∨ ∃ piece ∈ pieces, c ∈ piece
  | [], h => by cases h
  | [piece], h => .inr ⟨piece, .head _, h⟩
  | piece :: next :: rest, h => by
    rw [join, List.mem_append, List.mem_append] at h
    rcases h with (h | h) | h
    · exact .inr ⟨piece, .head _, h⟩
    · exact .inl h
    · refine (of_mem_join h).imp_right ?_
      rintro ⟨piece', hpiece, hc⟩
      exact ⟨piece', .tail _ hpiece, hc⟩
    · simp

end Text

namespace Name

/-- A name all of whose characters belong to words. -/
def IsWord (name : String) : Prop := ∀ c ∈ name.toList, Text.isWord c = true

variable {name : String}

theorem IsWord.head (h : IsWord name) : ∀ c ∈ name.toList.head?, Text.isWord c = true :=
  fun c hc => h c (List.mem_of_mem_head? hc)

theorem IsWord.last (h : IsWord name) (hne : name ≠ "") :
    name.toList.getLast?.any Text.isWord = true := by
  have hlist : name.toList ≠ [] := fun hnil => hne (String.toList_eq_nil_iff.1 hnil)
  obtain ⟨cs, c, hc⟩ := (List.eq_nil_or_concat' name.toList).resolve_left hlist
  rw [hc, List.getLast?_concat]
  exact h c (by simp [hc])

theorem isWord_numbered (h : IsWord name) (k : Nat) : IsWord (numbered name k) := by
  intro c hc
  simp only [numbered, String.toList_append, List.mem_append] at hc
  rcases hc with (hc | hc) | hc
  · exact h c hc
  · obtain rfl : c = '_' := by simpa using hc
    decide
  · have hdigit : c.isDigit = true := by
      refine Nat.isDigit_of_mem_toDigits (b := 10) (n := k) (by decide) (by decide) ?_
      rwa [← Nat.toList_repr]
    exact Text.isWord_of_isAsciiAlnum (by simp [Text.isAsciiAlnum, hdigit])

theorem isWord_firstFree (h : IsWord name) {taken : List String} : ∀ {fuel k : Nat},
    IsWord (firstFree name taken fuel k)
  | 0, k => isWord_numbered h k
  | fuel + 1, k => by
    rw [firstFree]
    split
    · exact isWord_firstFree h
    · exact isWord_numbered h k

theorem isWord_unique (h : IsWord name) (taken : List String) : IsWord (unique name taken) := by
  unfold unique
  split
  · exact isWord_firstFree h
  · exact h

/-- Words are made of letters and digits. -/
theorem of_mem_wordsIn {cs w : List Char} (h : w ∈ wordsIn cs) :
    ∀ c ∈ w, Text.isAsciiAlnum c = true := by
  obtain ⟨run, hrun, rfl⟩ := List.mem_map.1 h
  intro c' hc'
  obtain ⟨c, hc, rfl⟩ := List.mem_map.1 hc'
  exact (Text.isAsciiAlnum_cases (Text.of_mem_runs hrun c hc)).1

/-- So are names in Pascal case. -/
theorem of_mem_pascal {cs : List Char} {c : Char} (h : c ∈ CaseStyle.pascal.write cs) :
    Text.isAsciiAlnum c = true := by
  obtain ⟨w', hw', hc⟩ := List.mem_flatten.1 h
  obtain ⟨w, hw, rfl⟩ := List.mem_map.1 hw'
  have hall := of_mem_wordsIn hw
  cases w with
  | nil => cases hc
  | cons d w =>
    rcases List.mem_cons.1 hc with rfl | hc
    · exact (Text.isAsciiAlnum_cases (hall d (.head _))).2
    · exact hall c (.tail _ hc)

/-- So are names in snake case, but for the underscores. -/
theorem isWord_snake (text : String) : IsWord (snake text) := by
  intro c hc
  rw [snake, String.toList_ofList] at hc
  rcases Text.of_mem_join hc with hc | ⟨w, hw, hc⟩
  · obtain rfl := List.mem_singleton.1 hc
    decide
  · exact Text.isWord_of_isAsciiAlnum (of_mem_wordsIn hw c hc)

end Name

namespace NamingRules

variable {name : String}

/-- The name of a type. -/
theorem typeName_word {participant : String}
    (h : Profile.builtin.naming.typeName participant = .ok name) : Name.IsWord name := by
  have hname : .ok (String.ofList (CaseStyle.pascal.write participant.toList)) =
      Except.ok (ε := NameError) name := h
  obtain rfl := Except.ok.inj hname
  intro c hc
  rw [String.toList_ofList] at hc
  exact Text.isWord_of_isAsciiAlnum (Name.of_mem_pascal hc)

/-- The name of a group of tests begins with `Test`. -/
theorem testGroup_word {method qualifier : String} (h : Profile.builtin.naming.testGroup.apply
    [("method", method), ("qualifier", qualifier)] = .ok name) : Name.IsWord name ∧ name ≠ "" := by
  have hfill : Template.fill Profile.builtin.naming.testGroup.pattern
      [("method", method), ("qualifier", qualifier)] = .ok (.ofList
        (['t', 'e', 's', 't'] ++ ' ' :: (method.toList ++ ' ' :: (qualifier.toList ++ [])))) := by
    with_unfolding_all rfl
  have hname := name_of_apply rfl hfill h
  rw [String.toList_ofList] at hname
  refine ⟨fun c hc => Text.isWord_of_isAsciiAlnum (Name.of_mem_pascal (hname ▸ hc)), ?_⟩
  rintro rfl
  obtain ⟨rest, hwords⟩ := Name.wordsIn_word (w := ['t', 'e', 's', 't']) (by decide)
    (by simp [Text.isAsciiAlnum]) (method.toList ++ ' ' :: (qualifier.toList ++ []))
  rw [CaseStyle.write, hwords] at hname
  cases hname

end NamingRules

end Lifeline
