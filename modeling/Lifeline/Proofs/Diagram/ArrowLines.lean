import Lifeline.Proofs.Diagram.Spelling
import Lifeline.Proofs.Name.Letters

/-!
# Lines that draw an arrow

A line that is made of a source, a glyph, a target, a colon and a label is scanned as that arrow,
unless its source is a word that says that the line has no part in the interaction
(`isReserved`): `title`, `hide` or `activate`, and so on, and the words that start a note. Such a
line says nothing, and what follows it is read as it would be without it (`scan_drawn`).

* `not_mem_lower`: the lower case of a word has none of the signs that ignored lines start with,
  and no blank.
* `isIgnored_iff`, `startsNote_iff`: which sources make a line one that is passed over.
* `readArrow?_drawn`: what the line is read as when it is not passed over.
-/

set_option autoImplicit false

namespace Lifeline

namespace Line

/-! ## Words that are taken -/

/-- The words that ignored lines start with, whatever follows them. -/
def openWords : List String := ["sequencediagram", "autonumber", "skinparam"]

/-- The words that ignored lines start with where a blank follows them. -/
def closedWords : List String :=
  ["title", "hide", "show", "activate", "deactivate", "destroy", "create"]

/-- The signs that ignored lines start with. -/
def signStarts : List String := ["@startuml", "@enduml", "==", "...", "|||"]

/-- Whether a line that starts with the word has no part in the interaction, be it ignored or a
note. -/
def isReserved (word : String) : Bool :=
  (openWords ++ closedWords).contains (toLowerCase word) ||
    noteKeywords.any fun keyword => Text.dropWordAnyCase? keyword.toList word.toList == some []

/-- The word does not go on behind one of the words that nothing has to follow. -/
def StandsAlone (word : String) : Prop :=
  ∀ start ∈ openWords, Text.Packed.startsWith start (toLowerCase word) → toLowerCase word = start

/-- The parts of a line that draws an arrow. -/
structure IsDrawn (source glyph target label : String) : Prop where
  from_word : Name.IsWord source ∧ source ≠ ""
  with_glyph : glyph.toList ∈ glyphs
  to_word : Name.IsWord target ∧ target ≠ ""
  label_ne : label ≠ ""
  label_strip : Text.Packed.strip label = label
  one_line : ∀ c ∈ label.toList, Text.isLineBreak c = false

/-- The line with these parts. -/
def drawn (source glyph target label : String) : String :=
  source ++ " " ++ glyph ++ " " ++ target ++ " : " ++ label

end Line

/-! ## Words in lower case -/

namespace Text

variable {c d : Char} {word rest : List Char}

/-- The image of a character that goes to lower case is past ASCII, or a letter. -/
theorem lower_shift {n m : Nat} (h : Shift.find? Table.toLower n = some m) :
    128 ≤ m ∨ isWord (Char.ofNat m) = true := by
  have hall : ∀ s ∈ Table.toLower.toList, 128 ≤ (s.first : Int) + s.distance ∨
      s.first = s.last ∧ isWord (Char.ofNat ((s.first : Int) + s.distance).toNat) = true := by
    decide +kernel
  obtain ⟨s, hs, rfl⟩ := Option.map_eq_some_iff.1 h
  have hn := Array.find?_some hs
  simp only [Bool.and_eq_true, decide_eq_true_eq] at hn
  obtain hle | ⟨heq, hword⟩ := hall s (Array.mem_toList_iff.2 (Array.mem_of_find?_eq_some hs))
  · left
    omega
  · obtain rfl : n = s.first := by omega
    exact .inr hword

theorem isWord_ofNat {n : Nat} (h : 128 ≤ n ∨ isWord (Char.ofNat n) = true)
    (hpos : 0 < (Char.ofNat n).toNat) (hlt : (Char.ofNat n).toNat < 128) :
    isWord (Char.ofNat n) = true := by
  -- a number that is no character stands for the character zero
  have hn : (Char.ofNat n).toNat = n ∨ (Char.ofNat n).toNat = 0 := by
    by_cases hvalid : n.isValidChar
    · rw [Char.ofNat, dif_pos hvalid]
      exact .inl rfl
    · rw [Char.ofNat, dif_neg hvalid]
      exact .inr rfl
  rcases h with h | h
  · omega
  · exact h

/-- What the lower case of a word character has within ASCII is a word character. -/
theorem isWord_of_mem_lowerChar (hc : isWord c = true) (hd : d ∈ lowerChar c) (hpos : 0 < d.toNat)
    (hlt : d.toNat < 128) : isWord d = true := by
  unfold lowerChar at hd
  dsimp only at hd
  split at hd
  case isTrue hascii =>
    obtain rfl := List.mem_singleton.1 hd
    have hall : ∀ n < 128, isWord (Char.ofNat n) = true →
        isWord (Char.ofNat n).toLower = true := by decide
    have hword := hall c.toNat hascii
    rw [Char.ofNat_toNat] at hword
    exact hword hc
  case isFalse =>
    split at hd
    case h_1 _ n codes hfind =>
      have hall : ∀ x ∈ Table.toLowerMany.toList, ∀ n ∈ x.2,
          128 ≤ n ∨ isWord (Char.ofNat n) = true := by decide +kernel
      obtain ⟨n, hn, rfl⟩ := List.mem_map.1 hd
      have hmem := Array.mem_toList_iff.2 (Array.mem_of_find?_eq_some hfind)
      exact isWord_ofNat (hall _ hmem n hn) hpos hlt
    case h_2 =>
      rw [List.mem_singleton] at hd
      cases hm : Shift.find? Table.toLower c.toNat with
      | none =>
        rw [hm, Option.map_none, Option.getD_none] at hd
        exact hd ▸ hc
      | some m =>
        rw [hm, Option.map_some, Option.getD_some] at hd
        subst hd
        exact isWord_ofNat (lower_shift hm) hpos hlt

/-- A sign of ASCII is in no word in lower case. -/
theorem not_mem_lower (hword : ∀ c ∈ word, isWord c = true) (hd : isWord d = false)
    (hpos : 0 < d.toNat) (hlt : d.toNat < 128) : d ∉ lower word := by
  intro h
  obtain ⟨c, hc, hdc⟩ := List.mem_flatMap.1 h
  exact absurd (isWord_of_mem_lowerChar (hword c hc) hdc hpos hlt) (by simp [hd])

theorem subset_of_dropWordAnyCase? : ∀ {start cs : List Char},
    dropWordAnyCase? start cs = some rest → rest ⊆ cs
  | [], cs, h => by
    obtain rfl := Option.some.inj h
    exact List.Subset.refl _
  | s :: start, [], h => by cases h
  | s :: start, c :: cs, h => by
    rw [dropWordAnyCase?] at h
    split at h
    · exact List.Subset.trans (subset_of_dropWordAnyCase? h) (List.subset_cons_self c cs)
    · cases h

/-- A whole word that nothing but a blank follows. -/
theorem startsWith_blank {start : List Char} (h : ' ' ∉ word) :
    startsWith (start ++ [' ']) (word ++ [' ']) = true ↔ word = start := by
  rw [startsWith, List.isPrefixOf_iff_prefix, List.prefix_concat_iff]
  constructor
  · rintro (heq | hpre)
    · exact (List.append_cancel_right heq).symm
    · exact absurd (hpre.subset (by simp)) h
  · rintro rfl
    exact .inl rfl

theorem readWord?_eq (hword : ∀ c ∈ word, isWord c = true) (hne : word ≠ []) :
    readWord? word = some (word, []) := by
  have htake : word.takeWhile isWord = word := List.takeWhile_eq_self_iff.2 hword
  have hdrop : word.dropWhile isWord = [] := List.dropWhile_eq_nil_iff.2 hword
  unfold readWord?
  rw [htake, hdrop]
  cases word with
  | nil => exact absurd rfl hne
  | cons c word => rfl

end Text

namespace Line

variable {source glyph target label : String} {word rest : List Char}

/-! ## Lines that are passed over -/

theorem mem_ignoredStarts {start : String} : start ∈ ignoredStarts ↔
    start ∈ openWords ∨ (∃ word ∈ closedWords, start = word ++ " ") ∨ start ∈ signStarts := by
  simp only [ignoredStarts, openWords, closedWords, signStarts, List.mem_cons, List.not_mem_nil,
    or_false, exists_eq_or_imp, exists_eq_left]
  tauto

/-- No line that starts with a word starts with a sign. -/
theorem startsWith_sign {start : String} (hword : ∀ c ∈ word, Text.isWord c = true)
    (h : start ∈ signStarts) : Text.startsWith start.toList (Text.lower word ++ [' ']) = false := by
  obtain ⟨c, tail, hstart, hc, hblank, hpos, hlt⟩ : ∃ c tail, start.toList = c :: tail ∧
      Text.isWord c = false ∧ c ≠ ' ' ∧ 0 < c.toNat ∧ c.toNat < 128 := by
    simp only [signStarts, List.mem_cons, List.not_mem_nil, or_false] at h
    obtain rfl | rfl | rfl | rfl | rfl := h <;> exact ⟨_, _, rfl, by decide⟩
  have hnot := Text.not_mem_lower hword hc hpos hlt
  rw [hstart, Text.startsWith]
  cases hlower : Text.lower word with
  | nil => simp [List.isPrefixOf, hblank]
  | cons d rest =>
    have hd : c ≠ d := fun hd => hnot (by simp [hlower, hd])
    simp [List.isPrefixOf, hd]

/-- No line that starts with a word is a comment. -/
theorem startsWith_comment {c : Char} {cs : List Char} (hc : Text.isWord c = true) :
    (commentStarts.any fun s => Text.startsWith s.toList (c :: cs)) = false := by
  have hne : ∀ d, Text.isWord d = false → d ≠ c := by
    rintro d hd rfl
    simp [hd] at hc
  simp [commentStarts, Text.startsWith, List.isPrefixOf, hne '\'' (by decide),
    hne '/' (by decide), hne '%' (by decide)]

/-- Which words make an ignored line of what follows them behind a blank. -/
theorem isIgnored_iff (hword : ∀ c ∈ word, Text.isWord c = true) (hne : word ≠ []) :
    isIgnored (word ++ ' ' :: '-' :: rest) = true ↔
      (∃ start ∈ openWords, Text.startsWith start.toList (Text.lower word) = true) ∨
        ∃ start ∈ closedWords, Text.lower word = start.toList := by
  have hdash : ∀ s ∈ ignoredStarts, '-' ∉ s.toList := by decide
  have hopen : ∀ s ∈ openWords, ' ' ∉ s.toList := by decide
  have hblank : ' ' ∉ Text.lower word :=
    Text.not_mem_lower hword (by decide) (by decide) (by decide)
  have hlower : Text.lower (word ++ [' ']) = Text.lower word ++ [' '] := by
    simp [Text.lower, Text.lowerChar]
  have hcomment : ∀ cs,
      (commentStarts.any fun s => Text.startsWith s.toList (word ++ cs)) = false := by
    obtain ⟨c, rest, rfl⟩ := List.exists_cons_of_ne_nil hne
    exact fun cs => startsWith_comment (hword c (.head _))
  have hempty : (word ++ ' ' :: '-' :: rest).isEmpty = false := by simp
  rw [isIgnored, hcomment, hempty, List.append_cons word, Bool.false_or, Bool.false_or,
    Text.lower_append, any_startsWith_append hdash, hlower, List.any_eq_true]
  constructor
  · rintro ⟨start, hmem, hstart⟩
    rcases mem_ignoredStarts.1 hmem with h | ⟨word', h, rfl⟩ | h
    · rw [Text.startsWith_append (hopen start h)] at hstart
      exact .inl ⟨start, h, hstart⟩
    · rw [String.toList_append] at hstart
      exact .inr ⟨word', h, (Text.startsWith_blank hblank).1 hstart⟩
    · rw [startsWith_sign hword h] at hstart
      cases hstart
  · rintro (⟨start, h, hstart⟩ | ⟨start, h, hstart⟩)
    · refine ⟨start, mem_ignoredStarts.2 (.inl h), ?_⟩
      rwa [Text.startsWith_append (hopen start h)]
    · refine ⟨start ++ " ", mem_ignoredStarts.2 (.inr (.inl ⟨start, h, rfl⟩)), ?_⟩
      rw [String.toList_append]
      exact (Text.startsWith_blank hblank).2 hstart

/-- Which words start a note where a blank follows them. -/
theorem startsNote_iff (hword : ∀ c ∈ word, Text.isWord c = true) :
    startsNote (word ++ ' ' :: rest) = true ↔
      ∃ keyword ∈ noteKeywords, Text.dropWordAnyCase? keyword.toList word = some [] := by
  have hkeyword : ∀ keyword ∈ noteKeywords, ∀ w ∈ keyword.toList,
      Text.sameLetter w ' ' = false := by
    intro keyword h
    refine Text.sameLetter_of_all ?_
    revert keyword
    decide
  rw [startsNote, List.any_eq_true]
  refine exists_congr fun keyword => and_congr_right fun hk => ?_
  rw [Text.dropWordAnyCase?_append (hkeyword keyword hk)]
  cases hdrop : Text.dropWordAnyCase? keyword.toList word with
  | none => simp
  | some after =>
    cases after with
    | nil => simp [show Text.isWord ' ' = false by decide]
    | cons c after =>
      have hc := hword c (Text.subset_of_dropWordAnyCase? hdrop (.head _))
      simp [hc]

/-! ## The arrow of a line -/

theorem sourceOf?_word (hword : ∀ c ∈ word, Text.isWord c = true) (hne : word ≠ []) :
    sourceOf? (word ++ [' ']) = some word := by
  have hread : readSource? (word ++ [' ']) = Text.readWord? (word ++ [' ']) := by
    obtain ⟨c, rest, rfl⟩ := List.exists_cons_of_ne_nil hne
    have hc : c ≠ '[' := by
      rintro rfl
      exact absurd (hword _ (.head _)) (by decide)
    unfold readSource?
    split
    · rename_i h
      exact absurd (List.cons.inj h).1 hc
    · rfl
  rw [sourceOf?, hread, Text.readWord?_append (by decide), Text.readWord?_eq hword hne]
  rfl

theorem readTarget?_word (hword : ∀ c ∈ word, Text.isWord c = true) (hne : word ≠ [])
    (hlabel : Text.strip rest = rest) :
    readTarget? (' ' :: (word ++ ' ' :: ':' :: ' ' :: rest)) =
      some (.ofList word, some (.ofList rest)) := by
  obtain ⟨c, word', hcons⟩ := List.exists_cons_of_ne_nil hne
  have hc : Text.isWord c = true := hword c (hcons ▸ .head _)
  have hblank : Text.isBlank c = false := Text.isBlank_of_isWord hc
  have hstrip : Text.stripLeft (dropActivation (' ' :: (word ++ ' ' :: ':' :: ' ' :: rest))) =
      word ++ ' ' :: ':' :: ' ' :: rest := by
    rw [dropActivation, Text.stripLeft, List.dropWhile_cons_of_pos (by decide), ← Text.stripLeft]
    · exact Text.stripLeft_eq_self (by simp [hcons, hblank])
    all_goals simp
  have hread : readLabel (' ' :: ':' :: ' ' :: rest) = some (some (.ofList rest)) := by
    have hlead : ∀ c ∈ [' '], Text.isBlank c = true := List.forall_mem_singleton.2 (by decide)
    have hgap : Text.strip (' ' :: rest) = rest := (Text.strip_blanks hlead).trans hlabel
    rw [readLabel, Text.stripLeft, List.dropWhile_cons_of_pos (by decide),
      List.dropWhile_cons_of_neg (by decide)]
    exact congrArg (fun label => some (some (String.ofList label))) hgap
  have hclose : c ≠ ']' := by
    rintro rfl
    exact absurd hc (by decide)
  unfold readTarget?
  rw [hstrip]
  split
  · rename_i h
    rw [hcons] at h
    exact absurd (List.cons.inj h).1 hclose
  · rw [Text.readWord?_append (by decide), Text.readWord?_eq hword hne]
    simp [hread]

/-! ## Whole lines -/

theorem toList_drawn : (drawn source glyph target label).toList =
    (source.toList ++ [' ']) ++ glyph.toList ++
      ' ' :: (target.toList ++ ' ' :: ':' :: ' ' :: label.toList) := by
  simp [drawn]

namespace IsDrawn

variable (h : IsDrawn source glyph target label)
include h

theorem from_ne : source.toList ≠ [] := fun hnil => h.from_word.2 (String.toList_eq_nil_iff.1 hnil)

theorem to_ne : target.toList ≠ [] := fun hnil => h.to_word.2 (String.toList_eq_nil_iff.1 hnil)

theorem strip_toList : Text.strip label.toList = label.toList := by
  have hstrip := congrArg String.toList h.label_strip
  rwa [Text.Packed.strip, String.toList_ofList] at hstrip

theorem isLineBreak_drawn : ∀ c ∈ (drawn source glyph target label).toList,
    Text.isLineBreak c = false := by
  have hword : ∀ {c : Char}, Text.isWord c = true → Text.isLineBreak c = false := fun {c} hc => by
    cases hb : Text.isLineBreak c with
    | false => rfl
    | true => simp [Text.isWord_of_isBlank (Text.isBlank_of_isLineBreak hb)] at hc
  have hglyph : ∀ g ∈ glyphs, ∀ c ∈ g, Text.isLineBreak c = false := fun g hg => by
    have hnone : ∀ g ∈ glyphs, g.any Text.isLineBreak = false := by decide
    simpa using hnone g hg
  have hblank : Text.isLineBreak ' ' = false := by decide
  have hcolon : Text.isLineBreak ':' = false := by decide
  rw [toList_drawn]
  intro c hc
  simp only [List.mem_append, List.mem_cons, List.not_mem_nil, or_false] at hc
  obtain ((hc | rfl) | hc) | rfl | hc | rfl | rfl | rfl | hc := hc
  · exact hword (h.from_word.1 c hc)
  · exact hblank
  · exact hglyph _ h.with_glyph c hc
  · exact hblank
  · exact hword (h.to_word.1 c hc)
  · exact hblank
  · exact hcolon
  · exact hblank
  · exact h.one_line c hc

theorem strip_drawn : Text.strip (drawn source glyph target label).toList =
    (drawn source glyph target label).toList := by
  refine Text.strip_eq_self (fun c hc => ?_) (fun c hc => ?_)
  · obtain ⟨d, rest, hd⟩ := List.exists_cons_of_ne_nil h.from_ne
    obtain rfl : d = c := by simpa [toList_drawn, hd] using hc
    exact Text.isBlank_of_isWord (h.from_word.1 d (hd ▸ .head _))
  · have hlabel : label.toList ≠ [] := fun hnil => h.label_ne (String.toList_eq_nil_iff.1 hnil)
    rw [drawn, String.toList_append, List.getLast?_append_of_ne_nil _ hlabel,
      ← h.strip_toList] at hc
    exact Text.isBlank_getLast?_strip hc

/-- The line is passed over if its source is a word that is taken. -/
theorem passed_iff (alone : StandsAlone source) :
    (isIgnored (drawn source glyph target label).toList ||
      startsNote (drawn source glyph target label).toList) = isReserved source := by
  obtain ⟨mid, hmid, -⟩ := glyph_eq h.with_glyph
  have hline : (drawn source glyph target label).toList = source.toList ++ ' ' :: '-' ::
      (mid ++ ['>'] ++ ' ' :: (target.toList ++ ' ' :: ':' :: ' ' :: label.toList)) := by
    rw [toList_drawn, hmid]
    simp
  have hlower : ∀ start : String, Text.lower source.toList = start.toList ↔
      toLowerCase source = start := fun start => by
    rw [toLowerCase, ← String.toList_inj, String.toList_ofList]
  have hstart : ∀ start : String, Text.startsWith start.toList (Text.lower source.toList) =
      Text.Packed.startsWith start (toLowerCase source) := fun start => by
    rw [Text.Packed.startsWith, toLowerCase, String.toList_ofList]
  have hopen : (∃ start ∈ openWords, Text.Packed.startsWith start (toLowerCase source) = true) ↔
      toLowerCase source ∈ openWords := by
    constructor
    · rintro ⟨start, hmem, hpre⟩
      rwa [alone start hmem hpre]
    · intro hmem
      exact ⟨_, hmem, by simp [Text.Packed.startsWith, Text.startsWith]⟩
  rw [Bool.eq_iff_iff, Bool.or_eq_true, hline, isIgnored_iff h.from_word.1 h.from_ne,
    startsNote_iff h.from_word.1, isReserved, Bool.or_eq_true]
  simp only [hstart, hlower, hopen, List.contains_eq_mem, List.mem_append, decide_eq_true_eq,
    exists_eq_right', List.any_eq_true, beq_iff_eq]

theorem classify?_eq : classify? (drawn source glyph target label).toList =
    some (.arrow source glyph target (some label)) := by
  have first : '-' ∉ source.toList ++ [' '] := by
    intro hd
    rcases List.mem_append.1 hd with hd | hd
    · exact absurd (h.from_word.1 _ hd) (by decide)
    · simp at hd
  rw [classify?, toList_drawn, readArrow?_append first (by simp) h.with_glyph,
    sourceOf?_word h.from_word.1 h.from_ne,
    readTarget?_word h.to_word.1 h.to_ne h.strip_toList]
  simp [Option.orElse]

end IsDrawn

/-- A line that is made of a source, a glyph, a target, a colon and a label is scanned as that
arrow, unless its source is a word that is taken; such a line says nothing. -/
theorem scan_drawn (h : IsDrawn source glyph target label) (alone : StandsAlone source) :
    scan (drawn source glyph target label) = .ok
      (if isReserved source then [] else [{
        number := 1
        text := drawn source glyph target label
        statement := .arrow source glyph target (some label) }]) := by
  have hne : (drawn source glyph target label).toList ≠ [] := by
    rw [toList_drawn]
    simp
  rw [scan, Text.lines_eq_singleton h.isLineBreak_drawn hne, scanFrom, h.strip_drawn,
    h.classify?_eq, ← h.passed_iff alone]
  cases isIgnored (drawn source glyph target label).toList with
  | true => simp [scanFrom]
  | false => cases startsNote (drawn source glyph target label).toList <;> simp [scanFrom]

theorem isLineBreak_of_any {label : String} (h : label.toList.any Text.isLineBreak = false) :
    ∀ c ∈ label.toList, Text.isLineBreak c = false := by
  simpa using h

theorem isDrawn_notebook : IsDrawn "Notebook" "-->>" "hide" "title [a -> b]: end note" where
  from_word := ⟨List.all_eq_true.1 (by decide), by decide⟩
  with_glyph := by decide
  to_word := ⟨List.all_eq_true.1 (by decide), by decide⟩
  label_ne := by decide
  label_strip := by decide
  one_line := isLineBreak_of_any (by decide)

theorem isDrawn_title : IsDrawn "Title" "->" "B" "run(x)" where
  from_word := ⟨List.all_eq_true.1 (by decide), by decide⟩
  with_glyph := by decide
  to_word := ⟨List.all_eq_true.1 (by decide), by decide⟩
  label_ne := by decide
  label_strip := by decide
  one_line := isLineBreak_of_any (by decide)

/-- A source that goes on behind the word for a note, and one that is a word for a title. -/
theorem scan_drawn_notebook :
    (IsDrawn "Notebook" "-->>" "hide" "title [a -> b]: end note" ∧ StandsAlone "Notebook" ∧
      scan "Notebook -->> hide : title [a -> b]: end note" = .ok [{
        number := 1
        text := "Notebook -->> hide : title [a -> b]: end note"
        statement := .arrow "Notebook" "-->>" "hide" (some "title [a -> b]: end note") }]) ∧
    IsDrawn "Title" "->" "B" "run(x)" ∧ StandsAlone "Title" ∧
      scan "Title -> B : run(x)" = .ok [] := by
  have hnotebook : StandsAlone "Notebook" := by unfold StandsAlone; decide
  have htitle : StandsAlone "Title" := by unfold StandsAlone; decide
  exact ⟨⟨isDrawn_notebook, hnotebook, scan_drawn isDrawn_notebook hnotebook⟩,
    isDrawn_title, htitle, scan_drawn isDrawn_title htitle⟩

/-- A line that draws an arrow from a participant named like a title states nothing. -/
theorem not_scan_drawn_title : ¬ ∀ source glyph target label : String,
    IsDrawn source glyph target label → scan (drawn source glyph target label) = .ok [{
      number := 1
      text := drawn source glyph target label
      statement := .arrow source glyph target (some label) }] := by
  intro h
  have hscan := h _ _ _ _ isDrawn_title
  have hnone : (scan "Title -> B : run(x)").toOption = some [] := by decide
  rw [show "Title -> B : run(x)" = drawn "Title" "->" "B" "run(x)" from rfl, hscan] at hnone
  cases hnone

end Line

end Lifeline
