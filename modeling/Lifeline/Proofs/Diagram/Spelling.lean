import Lifeline.Diagram.Line
import Lifeline.Proofs.Alike
import Lifeline.Proofs.Text.Blanks

/-!
# How a diagram is spelled

Two texts that differ in what has no part in the interaction (`Line.Respelled`): in lines that say
nothing, which may be put in anywhere, and in the glyphs of arrows from left to right
(`Line.Redrawn`).

* `isIgnored_congr`, `startsNote_congr`, `not_mem_of_endsNote`: what a line has in front of its
  first dash decides whether it says nothing or starts a note, and the end of a note has no dash.
* `readArrow?_append`: an arrow is read as what stands in front of its glyph, the glyph, and what
  stands behind it.
* `exists_redrawn`: every arrow can be drawn with every glyph.
* `scanFrom_respelled`: both texts state the same, up to the numbers of the lines and the glyphs, or
  both are refused for a reason of the same issue.
-/

set_option autoImplicit false

namespace Lifeline

namespace Line

/-! ## Spelling -/

/-- The glyphs of arrows from left to right. -/
def glyphs : List (List Char) :=
  [['-', '>'], ['-', '-', '>'], ['-', '>', '>'], ['-', '-', '>', '>']]

/-- An arrow from left to right, and the same line with another glyph. The glyph of the line starts
with its first dash and ends with the heads. -/
inductive Redrawn : List Char → List Char → Prop
  | glyph {before glyph glyph' after : List Char}
      (arrow : (readArrow? (Text.strip (before ++ glyph ++ after))).isSome)
      (first : '-' ∉ before) (last : after.head? ≠ some '>')
      (old : glyph ∈ glyphs) (new : glyph' ∈ glyphs) :
      Redrawn (before ++ glyph ++ after) (before ++ glyph' ++ after)

/-- The lines of a text, and of one with further lines that say nothing and with other glyphs. -/
inductive Respelled : List (List Char) → List (List Char) → Prop
  | nil : Respelled [] []
  | insert {raw : List Char} {raws raws' : List (List Char)}
      (ignored : isIgnored (Text.strip raw)) (rest : Respelled raws raws') :
      Respelled raws (raw :: raws')
  | keep {raw : List Char} {raws raws' : List (List Char)} (rest : Respelled raws raws') :
      Respelled (raw :: raws) (raw :: raws')
  | redraw {raw raw' : List Char} {raws raws' : List (List Char)} (line : Redrawn raw raw')
      (rest : Respelled raws raws') : Respelled (raw :: raws) (raw' :: raws')

/-- The statement with the plain glyph. -/
def Statement.plain : Statement → Statement
  | .arrow source _ target label => .arrow source "->" target label
  | s => s

/-- The statement of a line, whatever the line looks like and wherever it stands. -/
def plain (l : Line) : Line := { number := 0, text := "", statement := l.statement.plain }

@[simp] theorem number_plain (l : Line) : l.plain.number = 0 := rfl

@[simp] theorem statement_plain (l : Line) : l.plain.statement = l.statement.plain := rfl

/-- Two scans end alike: with the same statements, or with errors of the same issue. -/
abbrev ScanAlike : Except DiagramError (List Line) → Except DiagramError (List Line) → Prop :=
  Alike (fun e => e.fault.issue) fun lines lines' => lines.map plain = lines'.map plain

end Line

/-! ## Texts with a dash -/

namespace Text

variable {before after : List Char}

/-- The blanks that a text starts with. -/
theorem exists_stripLeft (cs : List Char) :
    ∃ lead, cs = lead ++ stripLeft cs ∧ ∀ c ∈ lead, isBlank c = true :=
  ⟨cs.takeWhile isBlank, (List.takeWhile_append_dropWhile ..).symm,
    List.all_eq_true.1 List.all_takeWhile⟩

theorem exists_stripRight (cs : List Char) : ∃ trail, cs = stripRight cs ++ trail := by
  obtain ⟨lead, hlead, -⟩ := exists_stripLeft cs.reverse
  refine ⟨lead.reverse, ?_⟩
  have h := congrArg List.reverse hlead
  rwa [List.reverse_reverse, List.reverse_append] at h

theorem stripLeft_subset (cs : List Char) : stripLeft cs ⊆ cs := (List.dropWhile_sublist _).subset

theorem head?_stripRight {c : Char} (h : after.head? ≠ some c) :
    (stripRight after).head? ≠ some c := by
  obtain ⟨trail, htrail⟩ := exists_stripRight after
  intro hc
  obtain ⟨rest, hrest⟩ := List.head?_eq_some_iff.1 hc
  rw [hrest] at htrail
  rw [htrail] at h
  exact h rfl

variable {d : Char}

/-- A word is checked letter by letter: to decide this for all characters would take too long. -/
theorem sameLetter_of_all {word : List Char} (h : word.all fun w => !sameLetter w d) :
    ∀ w ∈ word, sameLetter w d = false := by
  simpa using h

/-- A word without a character ends in front of it. -/
theorem dropWordAnyCase?_append : ∀ {word before : List Char},
    (∀ w ∈ word, sameLetter w d = false) →
      dropWordAnyCase? word (before ++ d :: after) =
        (dropWordAnyCase? word before).map (· ++ d :: after)
  | [], _, _ => by simp [dropWordAnyCase?]
  | w :: word, [], h => by simp [dropWordAnyCase?, h w (.head _)]
  | w :: word, c :: before, h => by
    simp only [List.cons_append, dropWordAnyCase?]
    split
    · exact dropWordAnyCase?_append fun w hw => h w (.tail _ hw)
    · rfl

/-- A character that a word does not have is left behind it. -/
theorem mem_of_dropWordAnyCase? : ∀ {word cs rest : List Char},
    (∀ w ∈ word, sameLetter w d = false) → dropWordAnyCase? word cs = some rest → d ∈ cs → d ∈ rest
  | [], cs, rest, _, h, hd => by
    obtain rfl := Option.some.inj h
    exact hd
  | w :: word, [], _, _, h, _ => by cases h
  | w :: word, c :: cs, rest, hw, h, hd => by
    rw [dropWordAnyCase?] at h
    split at h
    · rename_i hc
      refine mem_of_dropWordAnyCase? (fun w hw' => hw w (.tail _ hw')) h ?_
      rcases List.mem_cons.1 hd with rfl | hd
      · simp [hw w (.head _)] at hc
      · exact hd
    · cases h

theorem startsWith_append : ∀ {start before : List Char}, d ∉ start →
    startsWith start (before ++ d :: after) = startsWith start before
  | [], _, _ => by simp [startsWith]
  | s :: start, [], h => by
    have hs : s ≠ d := fun hs => h (hs ▸ .head _)
    simp [startsWith, List.isPrefixOf, hs]
  | s :: start, c :: before, h => by
    have ih := @startsWith_append start before fun hd => h (.tail _ hd)
    simp only [startsWith] at ih
    simp [startsWith, List.isPrefixOf, ih]

theorem lower_append : lower (before ++ '-' :: after) = lower before ++ '-' :: lower after := by
  simp only [lower, List.flatMap_append, List.flatMap_cons]
  rfl

theorem readWord?_append (hd : isWord d = false) : readWord? (before ++ d :: after) =
    (readWord? before).map fun (word, rest) => (word, rest ++ d :: after) := by
  have h : (before ++ d :: after).takeWhile isWord = before.takeWhile isWord ∧
      (before ++ d :: after).dropWhile isWord = before.dropWhile isWord ++ d :: after := by
    induction before with
    | nil => simp [hd]
    | cons c before ih =>
      simp only [List.cons_append, List.takeWhile_cons, List.dropWhile_cons]
      split
      · exact ⟨by rw [ih.1], ih.2⟩
      · exact ⟨rfl, rfl⟩
  unfold readWord?
  rw [h.1, h.2]
  split <;> rfl

end Text

namespace Line

variable {before after after' : List Char}

/-! ## Lines that say nothing -/

theorem any_startsWith_append {starts : List String} (h : ∀ s ∈ starts, '-' ∉ s.toList) :
    (starts.any fun s => Text.startsWith s.toList (before ++ '-' :: after)) =
      starts.any fun s => Text.startsWith s.toList before := by
  rw [Bool.eq_iff_iff, List.any_eq_true, List.any_eq_true]
  exact exists_congr fun s => and_congr_right fun hs => by rw [Text.startsWith_append (h s hs)]

/-- Whether a line says nothing shows in front of its first dash. -/
theorem isIgnored_congr :
    isIgnored (before ++ '-' :: after) = isIgnored (before ++ '-' :: after') := by
  have hc : ∀ s ∈ commentStarts, '-' ∉ s.toList := by decide
  have hi : ∀ s ∈ ignoredStarts, '-' ∉ s.toList := by decide
  simp only [isIgnored, Text.lower_append, any_startsWith_append hc, any_startsWith_append hi]
  congr 2
  cases before <;> rfl

theorem noteKeyword_ne {keyword : String} (h : keyword ∈ noteKeywords) :
    ∀ w ∈ keyword.toList, Text.sameLetter w '-' = false := by
  refine Text.sameLetter_of_all ?_
  revert keyword
  decide

/-- Whether a line starts a note shows in front of its first dash. -/
theorem startsNote_congr :
    startsNote (before ++ '-' :: after) = startsNote (before ++ '-' :: after') := by
  rw [startsNote, startsNote, Bool.eq_iff_iff, List.any_eq_true, List.any_eq_true]
  refine exists_congr fun keyword => and_congr_right fun hk => ?_
  rw [Text.dropWordAnyCase?_append (noteKeyword_ne hk),
    Text.dropWordAnyCase?_append (noteKeyword_ne hk)]
  cases Text.dropWordAnyCase? keyword.toList before with
  | none => rfl
  | some rest => cases rest <;> simp

/-- The end of a note has no dash. -/
theorem not_mem_of_endsNote {cs : List Char} (h : endsNote cs) : '-' ∉ cs := by
  intro hd
  have hend : ∀ w ∈ ['e', 'n', 'd'], Text.sameLetter w '-' = false :=
    Text.sameLetter_of_all (by decide)
  unfold endsNote at h
  split at h
  · rename_i rest hrest
    have hd := Text.mem_of_dropWordAnyCase? hend hrest hd
    obtain ⟨keyword, hk, hkeyword⟩ := List.any_eq_true.1 h
    have hd : '-' ∈ Text.stripLeft rest := by
      obtain ⟨pre, post, rfl⟩ := List.append_of_mem hd
      simp [Text.stripLeft_append (c := '-') rfl]
    have hd := Text.mem_of_dropWordAnyCase? (noteKeyword_ne hk) (beq_iff_eq.1 hkeyword) hd
    cases hd
  · cases h

/-- A line that says nothing ends no note. -/
theorem endsNote_of_isIgnored {cs : List Char} (h : isIgnored cs) : endsNote cs = false := by
  match cs with
  | [] => rfl
  | c :: cs =>
    -- the end of a note starts with the letter e, and no line that says nothing does
    cases he : Text.sameLetter 'e' c with
    | false => simp [endsNote, Text.dropWordAnyCase?, he]
    | true =>
      obtain rfl | rfl : c = 'e' ∨ c = 'E' := by simpa [Text.sameLetter] using he
      all_goals
        simp [isIgnored, commentStarts, ignoredStarts, Text.startsWith, Text.lower, Text.lowerChar,
          List.isPrefixOf] at h

/-! ## Arrows -/

/-- The source of an arrow, and what follows it. -/
def readSource? (cs : List Char) : Option (List Char × List Char) :=
  match cs with
  | '[' :: rest => some (['['], rest)
  | _ => Text.readWord? cs

/-- The target and the label of an arrow, behind its glyph. -/
def readTarget? (cs : List Char) : Option (String × Option String) :=
  match Text.stripLeft (dropActivation cs) with
  | ']' :: rest => (readLabel rest).map (outsideTarget, ·)
  | rest => (Text.readWord? rest).bind fun (target, rest) =>
    (readLabel rest).map (.ofList target, ·)

theorem readArrow?_eq (cs : List Char) : readArrow? cs =
    (readSource? cs).bind fun (source, rest) =>
      (readGlyph (Text.stripLeft rest)).bind fun (glyph, rest) =>
        (readTarget? rest).map fun (target, label) =>
          .arrow (.ofList source) (.ofList glyph) target label := by
  unfold readArrow? readSource? readTarget?
  -- source and target are the outside or a word, four cases in all
  split
  · simp only [Option.pure_def, Option.bind_eq_bind, Option.bind_some]
    congr 1
    funext x
    split
    · simp [Option.bind_assoc, Option.map_eq_bind, *]
      rfl
    · simp [Option.bind_assoc, Option.map_eq_bind, *]
  · simp only [Option.pure_def, Option.bind_eq_bind]
    congr 1
    funext x
    congr 1
    funext y
    split
    · simp [Option.bind_assoc, Option.map_eq_bind, *]
      rfl
    · simp [Option.bind_assoc, Option.map_eq_bind, *]

theorem readSource?_append : readSource? (before ++ '-' :: after) =
    (readSource? before).map fun (source, rest) => (source, rest ++ '-' :: after) := by
  match before with
  | [] => rfl
  | c :: before =>
    by_cases hc : c = '['
    · subst hc
      rfl
    · have hword : ∀ cs, readSource? (c :: cs) = Text.readWord? (c :: cs) := by
        intro cs
        unfold readSource?
        split
        · rename_i h
          exact absurd (List.cons.inj h).1 hc
        · rfl
      rw [List.cons_append, hword, hword, ← List.cons_append, Text.readWord?_append rfl]

theorem readSource?_cut {cs source rest : List Char} (h : readSource? cs = some (source, rest)) :
    cs = source ++ rest ∧ '-' ∉ source := by
  unfold readSource? at h
  split at h
  · obtain ⟨rfl, rfl⟩ := Prod.mk.inj (Option.some.inj h)
    exact ⟨rfl, by decide⟩
  · unfold Text.readWord? at h
    split at h
    · cases h
    · obtain ⟨rfl, rfl⟩ := Prod.mk.inj (Option.some.inj h)
      refine ⟨(List.takeWhile_append_dropWhile ..).symm, fun hd => ?_⟩
      exact absurd (List.all_eq_true.1 List.all_takeWhile _ hd) (by decide)

theorem readGlyph_append {glyph : List Char} (hg : glyph ∈ glyphs) (last : after.head? ≠ some '>') :
    readGlyph (glyph ++ after) = some (glyph, after) := by
  have hafter : ∀ c rest, after = c :: rest → c ≠ '>' := by
    rintro c rest rfl rfl
    exact last rfl
  simp only [glyphs, List.mem_cons, List.not_mem_nil, or_false] at hg
  obtain rfl | rfl | rfl | rfl := hg
  all_goals
    cases after with
    | nil => rfl
    | cons c rest => simp [readGlyph, hafter c rest rfl]

theorem readGlyph_cut {cs glyph rest : List Char} (h : readGlyph cs = some (glyph, rest)) :
    cs = glyph ++ rest ∧ glyph ∈ glyphs := by
  unfold readGlyph at h
  split at h
  case h_5 => cases h
  all_goals
    obtain ⟨rfl, rfl⟩ := Prod.mk.inj (Option.some.inj h)
    exact ⟨rfl, by decide⟩

/-- The source in front of a glyph, which nothing but blanks may follow. -/
def sourceOf? (cs : List Char) : Option (List Char) :=
  (readSource? cs).bind fun (source, rest) =>
    if (Text.stripLeft rest).isEmpty then some source else none

theorem glyph_eq {glyph : List Char} (hg : glyph ∈ glyphs) :
    ∃ mid, glyph = '-' :: (mid ++ ['>']) ∧ ':' ∉ mid := by
  simp only [glyphs, List.mem_cons, List.not_mem_nil, or_false] at hg
  obtain rfl | rfl | rfl | rfl := hg
  · exact ⟨[], rfl, by decide⟩
  · exact ⟨['-'], rfl, by decide⟩
  · exact ⟨['>'], rfl, by decide⟩
  · exact ⟨['-', '>'], rfl, by decide⟩

theorem strip_glyph {glyph : List Char} (hg : glyph ∈ glyphs) :
    Text.strip (before ++ glyph ++ after) =
      Text.stripLeft before ++ glyph ++ Text.stripRight after := by
  obtain ⟨mid, rfl, -⟩ := glyph_eq hg
  simp only [List.append_assoc, List.cons_append, List.nil_append]
  rw [Text.strip_append rfl, Text.stripRight_append rfl]

/-- An arrow is read as what stands in front of its glyph, the glyph, and what stands behind it. -/
theorem readArrow?_append {glyph : List Char} (first : '-' ∉ before) (last : after.head? ≠ some '>')
    (hg : glyph ∈ glyphs) : readArrow? (before ++ glyph ++ after) =
      (sourceOf? before).bind fun source => (readTarget? after).map fun (target, label) =>
        .arrow (.ofList source) (.ofList glyph) target label := by
  obtain ⟨more, hmore⟩ : ∃ more, glyph ++ after = '-' :: more := by
    obtain ⟨mid, rfl, -⟩ := glyph_eq hg
    exact ⟨_, rfl⟩
  rw [readArrow?_eq, List.append_assoc, hmore, readSource?_append, sourceOf?]
  cases hsource : readSource? before with
  | none => rfl
  | some x =>
    obtain ⟨source, rest⟩ := x
    simp only [Option.map_some, Option.bind_some, Text.stripLeft_append (c := '-') rfl]
    -- the rest of the text in front of the glyph has no dash either
    have hrest : '-' ∉ Text.stripLeft rest :=
      fun h => first ((readSource?_cut hsource).1 ▸
        List.mem_append_right _ (Text.stripLeft_subset rest h))
    cases hblank : Text.stripLeft rest with
    | nil => simp [← hmore, readGlyph_append hg last]
    | cons c rest =>
      have hc : c ≠ '-' := by
        rintro rfl
        simp [hblank] at hrest
      simp [readGlyph, hc]

/-! ## Redrawn arrows -/

/-- An arrow that is drawn with another glyph has the same ends and the same label. -/
theorem exists_arrow {glyph glyph' : List Char} (first : '-' ∉ before)
    (last : after.head? ≠ some '>') (old : glyph ∈ glyphs) (new : glyph' ∈ glyphs)
    (arrow : (readArrow? (Text.strip (before ++ glyph ++ after))).isSome) :
    ∃ source target label,
      readArrow? (Text.strip (before ++ glyph ++ after)) =
        some (.arrow source (.ofList glyph) target label) ∧
      readArrow? (Text.strip (before ++ glyph' ++ after)) =
        some (.arrow source (.ofList glyph') target label) := by
  replace first : '-' ∉ Text.stripLeft before := fun h => first (Text.stripLeft_subset before h)
  replace last : (Text.stripRight after).head? ≠ some '>' := Text.head?_stripRight last
  rw [strip_glyph old, readArrow?_append first last old] at arrow ⊢
  rw [strip_glyph new, readArrow?_append first last new]
  cases hsource : sourceOf? (Text.stripLeft before) with
  | none => simp [hsource] at arrow
  | some source =>
    cases htarget : readTarget? (Text.stripRight after) with
    | none => simp [hsource, htarget] at arrow
    | some target => exact ⟨_, _, _, rfl, rfl⟩

/-- Every arrow from left to right can be drawn with every glyph. -/
theorem exists_redrawn {raw glyph' : List Char} {source glyph target : String}
    {label : Option String}
    (h : readArrow? (Text.strip raw) = some (.arrow source glyph target label))
    (new : glyph' ∈ glyphs) : ∃ raw', Redrawn raw raw' ∧
      readArrow? (Text.strip raw') = some (.arrow source (.ofList glyph') target label) := by
  have harrow := h
  simp only [readArrow?_eq, Option.bind_eq_some_iff, Option.map_eq_some_iff] at harrow
  obtain ⟨⟨name, rest⟩, hsource, ⟨mark, after⟩, hglyph, ⟨receiver, text⟩, htarget, hsome⟩ := harrow
  obtain ⟨hcs, hname⟩ := readSource?_cut hsource
  obtain ⟨hrest, old⟩ := readGlyph_cut hglyph
  have hblank : ∀ lead : List Char, (∀ c ∈ lead, Text.isBlank c = true) → '-' ∉ lead :=
    fun lead hlead hd => absurd (hlead '-' hd) (by decide)
  obtain ⟨lead, hlead, hlead'⟩ := Text.exists_stripLeft raw
  obtain ⟨trail, htrail⟩ := Text.exists_stripRight (Text.stripLeft raw)
  obtain ⟨gap, hgap, hgap'⟩ := Text.exists_stripLeft rest
  have hraw : raw = (lead ++ name ++ gap) ++ mark ++ (after ++ trail) := by
    rw [hlead, htrail, ← Text.strip, hcs, hgap, hrest]
    simp
  have first : '-' ∉ lead ++ name ++ gap := by
    simp [hblank lead hlead', hblank gap hgap', hname]
  -- a further head would stand where the target does
  have last : (after ++ trail).head? ≠ some '>' := by
    cases after with
    | nil => cases htarget
    | cons c after =>
      intro hc
      obtain rfl := Option.some.inj hc
      cases htarget
  rw [hraw] at h ⊢
  obtain ⟨source', target', label', hread, hread'⟩ :=
    exists_arrow first last old new (Option.isSome_iff_exists.2 ⟨_, h⟩)
  obtain ⟨rfl, -, rfl, rfl⟩ := Statement.arrow.inj (Option.some.inj (h.symm.trans hread))
  exact ⟨_, .glyph (Option.isSome_iff_exists.2 ⟨_, h⟩) first last old new, hread'⟩

/-! ## Lines that say the same -/

/-- Two texts that say the same, where the numbers of lines and the glyphs do not count. -/
structure Akin (cs cs' : List Char) : Prop where
  ignored : isIgnored cs = isIgnored cs'
  starts : startsNote cs = startsNote cs'
  colon : cs.contains ':' = cs'.contains ':'
  ends : endsNote cs = endsNote cs'
  states : (classify? cs).map Statement.plain = (classify? cs').map Statement.plain

theorem Akin.refl (cs : List Char) : Akin cs cs := ⟨rfl, rfl, rfl, rfl, rfl⟩

theorem contains_colon {glyph : List Char} (hg : glyph ∈ glyphs) :
    (before ++ glyph ++ after).contains ':' = (before ++ after).contains ':' := by
  obtain ⟨mid, rfl, hmid⟩ := glyph_eq hg
  simp [List.contains_eq_mem, hmid]

theorem endsNote_glyph {glyph : List Char} (hg : glyph ∈ glyphs) :
    endsNote (before ++ glyph ++ after) = false := by
  obtain ⟨mid, rfl, -⟩ := glyph_eq hg
  cases h : endsNote (before ++ '-' :: (mid ++ ['>']) ++ after) with
  | false => rfl
  | true => exact absurd (by simp) (not_mem_of_endsNote h)

/-- A line that is drawn with another glyph says the same. -/
theorem Redrawn.akin {raw raw' : List Char} (h : Redrawn raw raw') :
    Akin (Text.strip raw) (Text.strip raw') := by
  obtain @⟨before, glyph, glyph', after, arrow, first, last, old, new⟩ := h
  obtain ⟨source, target, label, hread, hread'⟩ := exists_arrow first last old new arrow
  rw [strip_glyph old] at hread ⊢
  rw [strip_glyph new] at hread' ⊢
  obtain ⟨mid, hmid, -⟩ := glyph_eq old
  obtain ⟨mid', hmid', -⟩ := glyph_eq new
  exact {
    ignored := by
      rw [List.append_assoc, List.append_assoc, hmid, hmid']
      exact isIgnored_congr
    starts := by
      rw [List.append_assoc, List.append_assoc, hmid, hmid']
      exact startsNote_congr
    colon := by rw [contains_colon old, contains_colon new]
    ends := by rw [endsNote_glyph old, endsNote_glyph new]
    states := by
      simp only [classify?, hread, hread']
      rfl }

/-! ## Scanning -/

theorem scanFrom_ignored {raw : List Char} (h : isIgnored (Text.strip raw)) (n : Nat)
    (inNote : Bool) (raws : List (List Char)) :
    scanFrom n inNote (raw :: raws) = scanFrom (n + 1) inNote raws := by
  rw [scanFrom]
  cases inNote with
  | true => simp [endsNote_of_isIgnored h]
  | false => simp [h]

/-- What two texts state, from their first lines. -/
theorem Akin.scan {raw raw' : List Char} (h : Akin (Text.strip raw) (Text.strip raw'))
    {raws raws' : List (List Char)}
    (hrest : ∀ (n n' : Nat) (inNote : Bool),
      ScanAlike (scanFrom n inNote raws) (scanFrom n' inNote raws'))
    (n n' : Nat) (inNote : Bool) :
    ScanAlike (scanFrom n inNote (raw :: raws)) (scanFrom n' inNote (raw' :: raws')) := by
  rw [scanFrom, scanFrom]
  simp only [← h.ignored, ← h.starts, ← h.colon, ← h.ends]
  split
  · exact hrest _ _ _
  split
  · exact hrest _ _ _
  split
  · exact hrest _ _ _
  have hstates := h.states
  cases hs : classify? (Text.strip raw) with
  | none =>
    cases hs' : classify? (Text.strip raw') with
    | none => exact .error rfl
    | some s' => simp [hs, hs'] at hstates
  | some s =>
    cases hs' : classify? (Text.strip raw') with
    | none => simp [hs, hs'] at hstates
    | some s' =>
      rw [hs, hs'] at hstates
      have hstates : s.plain = s'.plain := Option.some.inj hstates
      have hrest := hrest (n + 1) (n' + 1) false
      revert hrest
      generalize scanFrom (n + 1) false raws = x
      generalize scanFrom (n' + 1) false raws' = x'
      rintro (hrest | hrest)
      · exact .ok (by simp [plain, hstates, hrest])
      · exact .error hrest

/-- Both texts state the same, or both are refused for the same reason. -/
theorem scanFrom_respelled {raws raws' : List (List Char)} (h : Respelled raws raws') :
    ∀ (n n' : Nat) (inNote : Bool),
      ScanAlike (scanFrom n inNote raws) (scanFrom n' inNote raws') := by
  induction h with
  | nil => exact fun _ _ _ => .ok rfl
  | insert ignored _ ih =>
    intro n n' inNote
    rw [scanFrom_ignored ignored]
    exact ih n (n' + 1) inNote
  | keep _ ih => exact (Akin.refl _).scan ih
  | redraw line _ ih => exact line.akin.scan ih

end Line

end Lifeline
