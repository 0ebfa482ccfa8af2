import Lifeline.Proofs.Plan.Declared
import Lifeline.Proofs.Text.Blanks

/-!
# What the built-in patterns find

A declaration is found where the text has what the pattern has in front of the name, the name, and
what the pattern has behind it (`found_iff`). `Stands` is the line that a template writes. For most
kinds it is found whatever the name is (`Stands.found`). The patterns of types and of imports ask
for the edge of a word behind the name instead, so what they find depends on where the name ends
(`Stands.found_iff`).
-/

set_option autoImplicit false

namespace Lifeline

/-! ## Texts -/

namespace Text

/-- Some blanks. -/
def Blanks (cs : List Char) : Prop := cs ≠ [] ∧ ∀ c ∈ cs, isBlank c = true

/-- Some characters without blanks. -/
def Solid (cs : List Char) : Prop := cs ≠ [] ∧ ∀ c ∈ cs, isBlank c = false

/-- What stands in front of an import: the module that it is from. -/
def Origin (cs : List Char) : Prop := ∃ bs module bs',
  cs = "from".toList ++ (bs ++ (module ++ bs')) ∧ Blanks bs ∧ Solid module ∧ Blanks bs'

/-- A line that imports something, up to a place among the names. -/
def Imports (cs : List Char) : Prop := ∃ origin bs names,
  cs = origin ++ ("import".toList ++ (bs ++ names)) ∧ (origin = [] ∨ Origin origin) ∧ Blanks bs ∧
    '\n' ∉ names

end Text

namespace Pattern

variable {before after : Option Char} {cs : List Char} {ps : List Pattern}

theorem matches_edge {e : Edge} : Matches (.edge e) before cs after ↔
    cs = [] ∧ e.holds before after = true := by
  constructor
  · rintro ⟨⟩
    rename_i hholds
    exact ⟨rfl, hholds⟩
  · rintro ⟨rfl, hholds⟩
    exact .edge hholds

theorem matches_row_edge {e : Edge} : Matches (row (.edge e :: ps)) before cs after ↔
    e.holds before (cs.head?.or after) = true ∧ Matches (row ps) before cs after := by
  simp only [matches_row_cons, matches_edge]
  constructor
  · rintro ⟨_, ys, rfl, ⟨rfl, hholds⟩, hrest⟩
    exact ⟨hholds, hrest⟩
  · exact fun ⟨hholds, hrest⟩ => ⟨[], cs, rfl, ⟨rfl, hholds⟩, hrest⟩

theorem holds_lineStart {next : Option Char} :
    Edge.lineStart.holds before next = true ↔ ∀ c ∈ before, c = '\n' := by
  cases before <;> simp [Edge.holds]

theorem matches_blanks : Matches blanks before cs after ↔ Text.Blanks cs := by
  rw [blanks, matches_some_one]
  simp [Text.Blanks, CharSet.has, CharItem.has, CharClass.has]

theorem matches_nonBlanks : Matches nonBlanks before cs after ↔ Text.Solid cs := by
  rw [nonBlanks, matches_some_one]
  simp [Text.Solid, CharSet.has, CharItem.has, CharClass.has]

theorem matches_origin : Matches origin before cs after ↔ Text.Origin cs := by
  rw [origin, matches_row_append]
  simp only [matches_row_text, matches_row_cons, matches_row_nil, matches_blanks,
    matches_nonBlanks]
  constructor
  · rintro ⟨_, _, rfl, rfl, bs, _, rfl, hbs, module, _, rfl, hmodule, bs', _, rfl, hbs', rfl⟩
    exact ⟨bs, module, bs', by simp, hbs, hmodule, hbs'⟩
  · rintro ⟨bs, module, bs', rfl, hbs, hmodule, hbs'⟩
    exact ⟨_, _, rfl, rfl, bs, _, rfl, hbs, module, _, rfl, hmodule, bs', [], by simp, hbs', rfl⟩

theorem matches_inLine : Matches ((Pattern.one .inLine).times 0 none) before cs after ↔
    '\n' ∉ cs := by
  have hset : ∀ c, CharSet.inLine.has c = true ↔ c ≠ '\n' := fun c => by
    have hsingle : CharSet.inLine.has c = !(CharSet.single '\n').has c := by
      simp [CharSet.has, CharSet.inLine, CharSet.single]
    rw [hsingle, Bool.not_eq_true', ← Bool.not_eq_true, has_single]
  rw [show (Pattern.one CharSet.inLine).times 0 none = .many (.one .inLine) from rfl,
    matches_many_one]
  simp only [hset]
  exact ⟨fun h hc => h _ hc rfl, fun h c hc he => h (he ▸ hc)⟩

end Pattern

/-! ## Lines that declare -/

namespace DeclarationKind

/-- What a generated line has in front of the name that it declares, except for imports. -/
def lead : DeclarationKind → List Char
  | .importLine => []
  | .mock => "def ".toList
  | .constant => "    ".toList
  | .method | .predicate | .loopSource | .interfaceMethod | .scaffoldMethod => "    def ".toList
  | .decision => "def test_".toList
  | .group | .classType | .exception | .interface | .scaffold | .abstractType | .concreteType =>
    "class ".toList

/-- What a generated line has behind the name. -/
def follow : DeclarationKind → List Char
  | .importLine => ['\n']
  | .constant => " =".toList
  | .mock | .method | .predicate | .loopSource | .interfaceMethod | .scaffoldMethod | .decision
  | .exception => ['(']
  | .interface | .abstractType => '(' :: "ABC)".toList
  | .group | .classType | .scaffold | .concreteType => [':']

/-- Whether the built-in pattern of a kind asks for the edge of a word behind the name. -/
def endsWord : DeclarationKind → Bool
  | .importLine | .group | .classType | .exception | .interface | .scaffold | .concreteType => true
  | _ => false

open Pattern

variable {kind : DeclarationKind} {before after : Option Char} {cs : List Char}

theorem matches_front (hk : kind ≠ .importLine) (hb : ∀ c ∈ before, c = '\n') :
    Matches (row kind.front) before kind.lead after := by
  have hblanks : Text.Blanks "    ".toList := ⟨by decide, List.all_eq_true.1 (by decide)⟩
  cases kind with
  | importLine => exact absurd rfl hk
  | mock | decision | group | classType | exception | interface | scaffold | abstractType
  | concreteType =>
    exact matches_row_edge.2 ⟨holds_lineStart.2 hb, matches_row_text.2 rfl⟩
  | constant =>
    exact matches_row_edge.2 ⟨holds_lineStart.2 hb, matches_row_cons.2
      ⟨_, [], (List.append_nil _).symm, matches_blanks.2 hblanks, matches_row_nil.2 rfl⟩⟩
  | method | predicate | loopSource | interfaceMethod | scaffoldMethod =>
    exact matches_row_edge.2 ⟨holds_lineStart.2 hb, matches_row_cons.2
      ⟨"    ".toList, "def ".toList, by decide, matches_blanks.2 hblanks,
        matches_row_text.2 rfl⟩⟩

theorem matches_back (hk : kind.endsWord = false) :
    Matches (row kind.back) before kind.follow after := by
  cases kind with
  | importLine | group | classType | exception | interface | scaffold | concreteType => cases hk
  | constant =>
    exact matches_row_cons.2 ⟨[' '], ['='], by decide,
      matches_many_one.2 (List.forall_mem_singleton.2 (by decide)), matches_row_text.2 rfl⟩
  | mock | method | predicate | loopSource | interfaceMethod | scaffoldMethod | decision =>
    exact matches_row_text.2 rfl
  | abstractType =>
    refine matches_row_append.2 ⟨['('], "ABC)".toList, by decide, matches_row_text.2 rfl,
      matches_row_cons.2 ⟨"ABC".toList, [')'], by decide, ?_, matches_row_text.2 rfl⟩⟩
    exact matches_either.2 (.inl (matches_row_text.2 rfl))

/-- The front of a type is the word for it, at the start of a line. -/
theorem matches_front_type (hk : kind ≠ .importLine) (hw : kind.endsWord = true) :
    Matches (row kind.front) before cs after ↔
      (∀ c ∈ before, c = '\n') ∧ cs = "class ".toList := by
  cases kind with
  | importLine => exact absurd rfl hk
  | group | classType | exception | interface | scaffold | concreteType =>
    rw [front, matches_row_edge, holds_lineStart, matches_row_text]
  | _ => cases hw

/-- The front of an import is a line that imports something, up to the edge of a word. -/
theorem matches_front_import : Matches (row importLine.front) before cs after ↔
    (∀ c ∈ before, c = '\n') ∧ Text.Imports cs ∧
      (cs.getLast?.or before).any Text.isWord ≠ after.any Text.isWord := by
  rw [front, matches_row_edge, holds_lineStart, matches_row_cons]
  simp only [matches_optional, matches_origin, matches_row_append, matches_row_text,
    matches_row_cons, matches_blanks, matches_inLine, matches_edge, matches_row_nil]
  refine and_congr_right fun _ => ?_
  constructor
  · rintro ⟨origin, _, rfl, horigin, _, _, rfl, rfl, bs, _, rfl, hbs, names, _, rfl, hnames, _, _,
      rfl, ⟨rfl, hedge⟩, rfl⟩
    rw [Edge.holds, bne_iff_ne, ← getLast?_append_or, ← getLast?_append_or,
      ← getLast?_append_or] at hedge
    rw [List.append_nil, List.append_nil]
    exact ⟨⟨origin, bs, names, rfl, horigin, hbs, hnames⟩, hedge⟩
  · rintro ⟨⟨origin, bs, names, rfl, horigin, hbs, hnames⟩, hedge⟩
    refine ⟨origin, _, rfl, horigin, _, _, rfl, rfl, bs, _, rfl, hbs, names, [], by simp, hnames, [],
      [], rfl, ⟨rfl, ?_⟩, rfl⟩
    rwa [Edge.holds, bne_iff_ne, ← getLast?_append_or, ← getLast?_append_or, ← getLast?_append_or]

end DeclarationKind

/-! ## What is found -/

namespace Plan

open Pattern (Matches row text)

variable {kind : DeclarationKind} {name text : String}

/-- A declaration is found where all parts of its pattern are. -/
theorem found_iff : Found kind name text ↔ ∃ ws xs zs ys : List Char,
    text.toList = ws ++ (xs ++ (name.toList ++ (zs ++ ys))) ∧
      Matches (row kind.front) ws.getLast? xs (name.toList ++ (zs ++ ys)).head? ∧
      Matches (row kind.back) (ws ++ (xs ++ name.toList)).getLast? zs ys.head? := by
  have hfound : Found kind name text ↔
      (row (kind.front ++ (Pattern.text name.toList ++ kind.back))).occursIn text.toList = true := by
    simp [Found, patternFor_builtin]
  rw [hfound, Pattern.occursIn_iff]
  simp only [Pattern.matches_row_append, Pattern.matches_row_text]
  constructor
  · rintro ⟨ws, _, ys, ht, xs, _, rfl, hfront, _, zs, rfl, rfl, hback⟩
    refine ⟨ws, xs, zs, ys, by simpa using ht, ?_, ?_⟩
    · rwa [← List.append_assoc, List.head?_append]
    · rwa [List.getLast?_append, List.getLast?_append, Option.or_assoc]
  · rintro ⟨ws, xs, zs, ys, ht, hfront, hback⟩
    refine ⟨ws, xs ++ (name.toList ++ zs), ys, by simpa using ht, xs, _, rfl, ?_, _, zs, rfl, rfl,
      ?_⟩
    · rwa [← List.head?_append, List.append_assoc]
    · rwa [← Pattern.getLast?_append_or, ← List.getLast?_append]

/-- A declaration whose pattern asks for the edge of a word behind the name. -/
theorem found_word_iff (hw : kind.endsWord = true) : Found kind name text ↔ ∃ ws xs ys : List Char,
    text.toList = ws ++ (xs ++ (name.toList ++ ys)) ∧
      Matches (row kind.front) ws.getLast? xs (name.toList ++ ys).head? ∧
      (ws ++ (xs ++ name.toList)).getLast?.any Text.isWord ≠ ys.head?.any Text.isWord := by
  have hback : kind.back = [.edge .word] := by
    cases kind <;> first | rfl | cases hw
  rw [found_iff, hback]
  simp only [Pattern.matches_row_edge, Pattern.matches_row_nil]
  constructor
  · rintro ⟨ws, xs, _, ys, ht, hfront, hedge, rfl⟩
    exact ⟨ws, xs, ys, ht, hfront, by simpa [Edge.holds] using hedge⟩
  · rintro ⟨ws, xs, ys, ht, hfront, hedge⟩
    exact ⟨ws, xs, [], ys, ht, hfront, by simpa [Edge.holds] using hedge, rfl⟩

/-! ## The line of a declaration -/

/-- What a generated line has in front of the name that it declares. -/
inductive Leads : DeclarationKind → List Char → Prop
  | plain {kind : DeclarationKind} (h : kind ≠ .importLine) : Leads kind kind.lead
  | origin {module : List Char} (solid : Text.Solid module) :
      Leads .importLine ("from ".toList ++ (module ++ " import ".toList))

/-- The line that declares a name stands in a text. -/
def Stands (kind : DeclarationKind) (name text : String) : Prop := ∃ ws xs ys : List Char,
  text.toList = ws ++ (xs ++ (name.toList ++ (kind.follow ++ ys))) ∧ Text.Whole ws ∧ Leads kind xs

theorem Stands.within {whole : String} (h : Stands kind name text)
    (hw : Text.Within text.toList whole.toList) : Stands kind name whole := by
  obtain ⟨ws, xs, ys, ht, hws, hxs⟩ := h
  obtain ⟨before, after, hwhole, hbefore, -⟩ := hw
  exact ⟨before ++ ws, xs, ys ++ after, by rw [hwhole, ht]; simp, hbefore.append hws, hxs⟩

theorem Stands.append (h : Stands kind name text) (more : String) :
    Stands kind name (text ++ more) := by
  obtain ⟨ws, xs, ys, ht, hws, hxs⟩ := h
  exact ⟨ws, xs, ys ++ more.toList, by rw [String.toList_append, ht]; simp, hws, hxs⟩

/-- An interface is declared as an abstract type. -/
theorem Stands.abstractType (h : Stands .interface name text) : Stands .abstractType name text := by
  obtain ⟨ws, _, ys, ht, hws, ⟨-⟩⟩ := h
  exact ⟨ws, DeclarationKind.abstractType.lead, ys, ht, hws, .plain DeclarationKind.noConfusion⟩

/-- **A line is found** whatever name it declares, where the pattern asks for no edge of a word. -/
theorem Stands.found (h : Stands kind name text) (hw : kind.endsWord = false) :
    Found kind name text := by
  obtain ⟨ws, xs, ys, ht, hws, hxs⟩ := h
  cases hxs with
  | origin => cases hw
  | plain hk =>
    exact found_iff.2 ⟨ws, kind.lead, kind.follow, ys, ht, kind.matches_front hk hws,
      kind.matches_back hw⟩

/-- What a line has in front of a name where it declares a type, or imports. -/
def Begins : DeclarationKind → List Char → Prop
  | .importLine, xs => Text.Imports xs ∧ xs.getLast?.any Text.isWord = false
  | .group, xs | .classType, xs | .exception, xs | .interface, xs | .scaffold, xs
  | .concreteType, xs => xs = "class ".toList
  | _, _ => False

/-- A line of the text declares a type, or imports something, whose name goes on with a letter
behind the given one. -/
def GoesOn (kind : DeclarationKind) (name text : String) : Prop := ∃ (ws xs : List Char) (c : Char)
    (ys : List Char), text.toList = ws ++ (xs ++ (name.toList ++ c :: ys)) ∧ Text.Whole ws ∧
      Begins kind xs ∧ Text.isWord c = true

/-! ## Names that go on -/

variable {ws xs : List Char} {after : Option Char}

/-- A line does not begin with a word that the name could go on. -/
theorem Begins.apart (h : Begins kind xs) : (ws ++ xs).getLast?.any Text.isWord = false := by
  have hxs : xs ≠ [] ∧ xs.getLast?.any Text.isWord = false := by
    cases kind with
    | importLine =>
      obtain ⟨⟨origin, bs, names, rfl, -⟩, hlast⟩ := h
      exact ⟨by simp, hlast⟩
    | group | classType | exception | interface | scaffold | concreteType =>
      obtain rfl : xs = "class ".toList := h
      decide
    | _ => exact h.elim
  obtain ⟨xs, c, rfl⟩ := (List.eq_nil_or_concat' xs).resolve_left hxs.1
  simpa using hxs.2

/-- In front of a word, the front of a pattern is the beginning of a line. -/
theorem begins_iff (hw : kind.endsWord = true) (ha : after.any Text.isWord = true) :
    Matches (row kind.front) ws.getLast? xs after ↔ Text.Whole ws ∧ Begins kind xs := by
  cases kind with
  | importLine =>
    rw [DeclarationKind.matches_front_import, ha]
    refine and_congr_right fun _ => and_congr_right fun himports => ?_
    obtain ⟨origin, bs, names, rfl, -⟩ := himports
    have hlast : ((origin ++ ("import".toList ++ (bs ++ names))).getLast?.or ws.getLast?) =
        (origin ++ ("import".toList ++ (bs ++ names))).getLast? :=
      Option.or_of_isSome (by simp)
    rw [hlast, ne_eq, Bool.not_eq_true]
  | group | classType | exception | interface | scaffold | concreteType =>
    exact DeclarationKind.matches_front_type (by simp) rfl
  | _ => cases hw

/-- A text that ends with a word has a place where the word starts. -/
theorem exists_word_start : ∀ {cs : List Char}, cs.getLast?.any Text.isWord = true →
    ∃ before c rest, cs = before ++ c :: rest ∧ Text.isWord c = true ∧
      before.getLast?.any Text.isWord = false
  | [], h => by cases h
  | [c], h => ⟨[], c, [], rfl, h, rfl⟩
  | a :: b :: cs, h => by
    have hrest : ∃ before c rest, b :: cs = before ++ c :: rest ∧ Text.isWord c = true ∧
        before.getLast?.any Text.isWord = false := exists_word_start h
    obtain ⟨before, c, rest, hcs, hc, hb⟩ := hrest
    rw [hcs]
    cases before with
    | cons d before => exact ⟨a :: d :: before, c, rest, rfl, hc, hb⟩
    | nil =>
      by_cases ha : Text.isWord a = true
      · exact ⟨[], a, c :: rest, rfl, ha, rfl⟩
      · exact ⟨[a], c, rest, rfl, hc, by simpa using ha⟩

/-- An import up to the end of a word has a place where the word starts. -/
theorem exists_imports (h : Text.Imports xs) (hlast : xs.getLast?.any Text.isWord = true) :
    ∃ lead c rest, xs = lead ++ c :: rest ∧ Text.isWord c = true ∧ Begins .importLine lead := by
  obtain ⟨origin, bs, names, rfl, horigin, hbs, hnames⟩ := h
  obtain ⟨bs', b, rfl⟩ := (List.eq_nil_or_concat' bs).resolve_left hbs.1
  have hsplit : origin ++ ("import".toList ++ (bs' ++ [b] ++ names)) =
      origin ++ ("import".toList ++ bs') ++ (b :: names) := by simp
  rw [hsplit, List.getLast?_append_of_ne_nil _ (List.cons_ne_nil _ _)] at hlast
  obtain ⟨before, c, rest, hnames', hc, hbefore⟩ := exists_word_start hlast
  -- the blank is no part of the word
  cases before with
  | nil =>
    obtain ⟨rfl, rfl⟩ := List.cons.inj hnames'
    rw [Text.isWord_of_isBlank (hbs.2 b (by simp))] at hc
    cases hc
  | cons b' before =>
    obtain ⟨rfl, rfl⟩ := List.cons.inj hnames'
    refine ⟨origin ++ ("import".toList ++ (bs' ++ [b] ++ before)), c, rest, by simp, hc,
      ⟨origin, _, before, rfl, horigin, hbs, fun h => hnames (List.mem_append_left _ h)⟩, ?_⟩
    have hlead : origin ++ ("import".toList ++ (bs' ++ [b] ++ before)) =
        origin ++ ("import".toList ++ bs') ++ (b :: before) := by simp
    rwa [hlead, List.getLast?_append_of_ne_nil _ (List.cons_ne_nil _ _)]

/-- Its line begins a declaration. -/
theorem Leads.begins (h : Leads kind xs) (hw : kind.endsWord = true) : Begins kind xs := by
  cases h with
  | plain hk =>
    cases kind with
    | importLine => exact absurd rfl hk
    | group | classType | exception | interface | scaffold | concreteType => rfl
    | _ => cases hw
  | @origin module hsolid =>
    have hblanks : Text.Blanks [' '] := by simp [Text.Blanks, Text.isBlank]
    refine ⟨⟨"from ".toList ++ (module ++ [' ']), [' '], [], by simp, .inr ?_, hblanks, by simp⟩,
      ?_⟩
    · exact ⟨[' '], module, [' '], by simp, hblanks, hsolid, hblanks⟩
    · rw [← List.append_assoc, List.getLast?_append_of_ne_nil _ (by simp)]
      decide

theorem follow_apart (hw : kind.endsWord = true) (ys : List Char) :
    (kind.follow ++ ys).head?.any Text.isWord = false := by
  obtain ⟨c, rest, hfollow, hc⟩ : ∃ c rest, kind.follow = c :: rest ∧ Text.isWord c = false := by
    cases kind with
    | importLine | group | classType | exception | interface | scaffold | concreteType =>
      refine ⟨_, _, rfl, ?_⟩
      decide
    | _ => cases hw
  rw [hfollow]
  exact hc

section

variable {name ys : List Char}

theorem head_word (hn : ∀ c ∈ name.head?, Text.isWord c = true)
    (hy : name = [] → ys.head?.any Text.isWord = true) :
    (name ++ ys).head?.any Text.isWord = true := by
  cases name with
  | nil => exact hy rfl
  | cons c name => exact hn c rfl

theorem last_name (hne : name ≠ []) : (ws ++ (xs ++ name)).getLast? = name.getLast? := by
  rw [← List.append_assoc, List.getLast?_append_of_ne_nil _ hne]

end

/-- **Where a declaration is found** in a text that has its line: wherever the name ends with a word
or the pattern does not care, and else where a line goes on behind the name. -/
theorem Stands.found_iff (h : Stands kind name text)
    (hn : kind.endsWord = true → ∀ c ∈ name.toList.head?, Text.isWord c = true) :
    Found kind name text ↔
      (kind.endsWord = true → name.toList.getLast?.any Text.isWord = true) ∨
        GoesOn kind name text := by
  by_cases hw : kind.endsWord = true
  swap
  · exact iff_of_true (h.found (by simpa using hw)) (.inl fun hw' => absurd hw' hw)
  by_cases hlast : name.toList.getLast?.any Text.isWord = true
  · refine iff_of_true ?_ (.inl fun _ => hlast)
    obtain ⟨ws, xs, ys, ht, hws, hxs⟩ := h
    have hne : name.toList ≠ [] := fun hnil => by
      rw [hnil] at hlast
      cases hlast
    refine (found_word_iff hw).2 ⟨ws, xs, _, ht,
      (begins_iff hw (head_word (hn hw) fun hnil => absurd hnil hne)).2 ⟨hws, hxs.begins hw⟩, ?_⟩
    rw [last_name hne, hlast, follow_apart hw]
    exact Bool.noConfusion
  rw [found_word_iff hw, or_iff_right fun h => hlast (h hw)]
  constructor
  · rintro ⟨ws, xs, ys, ht, hfront, hedge⟩
    by_cases hy : ys.head?.any Text.isWord = true
    · obtain ⟨hws, hbegins⟩ := (begins_iff hw (head_word (hn hw) fun _ => hy)).1 hfront
      cases ys with
      | nil => cases hy
      | cons c ys => exact ⟨ws, xs, c, ys, ht, hws, hbegins, hy⟩
    · have hword : (ws ++ (xs ++ name.toList)).getLast?.any Text.isWord = true := by
        rw [Bool.not_eq_true] at hy
        rwa [hy, ne_eq, Bool.not_eq_false] at hedge
      -- what ends there is a word of the line, so the name is empty and the line imports
      have hnil : name.toList = [] := by
        by_contra hne
        rw [last_name hne] at hword
        exact hlast hword
      rw [hnil, List.append_nil] at hword
      have himport : kind = .importLine := by
        by_contra hk
        obtain ⟨-, rfl⟩ := (DeclarationKind.matches_front_type hk hw).1 hfront
        rw [List.getLast?_append_of_ne_nil _ (by decide)] at hword
        revert hword
        decide
      subst himport
      obtain ⟨hws, himports, -⟩ := DeclarationKind.matches_front_import.1 hfront
      have hxs : xs ≠ [] := by
        obtain ⟨origin, bs, names, rfl, -⟩ := himports
        simp
      rw [List.getLast?_append_of_ne_nil _ hxs] at hword
      obtain ⟨lead, c, rest, rfl, hc, hbegins⟩ := exists_imports himports hword
      exact ⟨ws, lead, c, rest ++ ys, by rw [ht, hnil]; simp, hws, hbegins, hc⟩
  · rintro ⟨ws, xs, c, ys, ht, hws, hbegins, hc⟩
    have hhead : (name.toList ++ c :: ys).head?.any Text.isWord = true :=
      head_word (hn hw) fun _ => hc
    refine ⟨ws, xs, c :: ys, ht, (begins_iff hw hhead).2 ⟨hws, hbegins⟩, ?_⟩
    have hend : (ws ++ (xs ++ name.toList)).getLast?.any Text.isWord = false := by
      by_cases hne : name.toList = []
      · rw [hne, List.append_nil]
        exact hbegins.apart
      · rw [last_name hne]
        simpa using hlast
    rw [hend]
    simpa using hc.symm

end Plan

end Lifeline
