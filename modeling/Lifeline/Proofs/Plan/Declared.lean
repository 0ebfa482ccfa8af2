import Lifeline.Plan.Reconcile
import Lifeline.Proofs.Outcome
import Lifeline.Proofs.Pattern.Written

/-!
# Declarations that stay declared

The built-in declaration patterns ask for no other edges than the starts of lines and the edges of
words, whatever name they look for (`lasts_of_patternFor`). So a block that is declared in a text is
declared in every text that has whole lines around it (`isDeclared_within`).
-/

set_option autoImplicit false

namespace Lifeline

/-! ## A slot that is filled once -/

namespace Text

theorem drop?_append : ∀ old rest : List Char, drop? old (old ++ rest) = some rest
  | [], _ => rfl
  | c :: old, rest => by simpa [drop?] using drop?_append old rest

theorem drop?_of_ne {o c : Char} {os cs : List Char} (h : o ≠ c) :
    drop? (o :: os) (c :: cs) = none := by
  rw [drop?, if_neg (by simpa using h)]

variable {o : Char} {os new : List Char}

theorem replaceGo_skip : ∀ {before : List Char} (_ : o ∉ before) (n : Nat) (rest : List Char),
    replace.go new (o :: os) (before.length + n) (before ++ rest) =
      before ++ replace.go new (o :: os) n rest
  | [], _, n, rest => by simp
  | c :: before, h, n, rest => by
    obtain ⟨hc, hb⟩ := not_or.1 (List.mem_cons.not.1 h)
    rw [List.length_cons, Nat.add_right_comm, List.cons_append, replace.go, drop?_of_ne hc,
      replaceGo_skip hb]
    rfl

/-- Where the replaced text occurs once, and its first character nowhere else. -/
theorem replace_once {before after : List Char} (hb : o ∉ before) (ha : o ∉ after) :
    replace (o :: os) new (before ++ (o :: os ++ after)) = before ++ (new ++ after) := by
  have hend : replace.go new (o :: os) os.length [] = [] := by
    cases os <;> rfl
  have hafter : replace.go new (o :: os) (after.length + os.length) after = after := by
    have hskip : replace.go new (o :: os) (after.length + os.length) (after ++ []) =
      after ++ replace.go new (o :: os) os.length [] := replaceGo_skip ha os.length []
    simpa [hend] using hskip
  have hlength : (before ++ (o :: os ++ after)).length =
      before.length + (after.length + os.length + 1) := by
    simp only [List.length_append, List.length_cons]
    omega
  rw [replace, hlength, replaceGo_skip hb, List.cons_append, replace.go, ← List.cons_append,
    drop?_append]
  exact congrArg _ (congrArg _ hafter)

end Text

/-! ## The built-in patterns -/

namespace DeclarationKind

/-- What stands in front of the name in the built-in pattern of a kind. -/
def opening : DeclarationKind → List Char
  | .importLine =>
    '^' :: '(' :: '?' :: ':' :: ("from".toList ++ '\\' :: 's' :: '+' :: '\\' :: 'S' :: '+' ::
      '\\' :: 's' :: '+' :: ')' :: '?' :: ("import".toList ++ '\\' :: 's' :: '+' :: '.' :: '*' ::
        ['\\', 'b']))
  | .mock => '^' :: "def ".toList
  | .constant => ['^', '\\', 's', '+']
  | .method | .predicate | .loopSource | .interfaceMethod | .scaffoldMethod =>
    '^' :: '\\' :: 's' :: '+' :: "def ".toList
  | .decision => '^' :: "def test_".toList
  | .group | .classType | .exception | .interface | .scaffold | .abstractType | .concreteType =>
    '^' :: "class ".toList

/-- What stands behind the name in the built-in pattern of a kind. -/
def closing : DeclarationKind → List Char
  | .constant => ['\\', 's', '*', '=']
  | .mock | .method | .predicate | .loopSource | .interfaceMethod | .scaffoldMethod | .decision =>
    ['\\', '(']
  | .abstractType => '\\' :: '(' :: '(' :: '?' :: ':' :: ("ABC".toList ++ '|' ::
      ("Protocol".toList ++ [')', '\\', ')']))
  | .importLine | .group | .classType | .exception | .interface | .scaffold | .concreteType =>
    ['\\', 'b']

theorem builtin_toList (kind : DeclarationKind) :
    kind.builtin.toList = kind.opening ++ ((Template.slotText "name").toList ++ kind.closing) := by
  cases kind <;> decide

/-- The built-in pattern of a kind with a text for the name. -/
theorem replace_builtin (kind : DeclarationKind) (name : String) :
    (Text.Packed.replace (Template.slotText "name") name kind.builtin).toList =
      kind.opening ++ (name.toList ++ kind.closing) := by
  have hslot : (Template.slotText "name").toList = '\x7b' :: "name\x7d".toList := by
    decide
  have hopening : '\x7b' ∉ kind.opening := by cases kind <;> decide
  have hclosing : '\x7b' ∉ kind.closing := by cases kind <;> decide
  rw [Text.Packed.replace, String.toList_ofList, builtin_toList, hslot]
  exact Text.replace_once hopening hclosing

end DeclarationKind

/-! ## What the built-in patterns say -/

namespace Pattern

/-- Blanks, at least one. -/
def blanks : Pattern := (Pattern.one { items := [.named .blank false] }).times 1 none

/-- Characters that are no blanks, at least one. -/
def nonBlanks : Pattern := (Pattern.one { items := [.named .blank true] }).times 1 none

/-- The origin of an import, with the blanks behind it. -/
def origin : Pattern := row (text "from".toList ++ [blanks, nonBlanks, blanks])

variable {g : Group} {around : List Group} {rest : List Char} {s' : Group × List Group}

theorem Says.blanks (hr : Says (g.push blanks false, around) rest s') (ha : Apart rest) :
    Says (g, around) ('\\' :: 's' :: '+' :: rest) s' :=
  (hr.plus ha).named rfl rfl

theorem Says.nonBlanks (hr : Says (g.push nonBlanks false, around) rest s') (ha : Apart rest) :
    Says (g, around) ('\\' :: 'S' :: '+' :: rest) s' :=
  (hr.plus ha).named rfl rfl

end Pattern

namespace DeclarationKind

open Pattern

/-- The patterns in front of the name in the built-in pattern of a kind. -/
def front : DeclarationKind → List Pattern
  | .importLine => .edge .lineStart :: origin.times 0 (some 1) ::
      (text "import".toList ++ [blanks, (Pattern.one .inLine).times 0 none, .edge .word])
  | .mock => .edge .lineStart :: text "def ".toList
  | .constant => [.edge .lineStart, blanks]
  | .method | .predicate | .loopSource | .interfaceMethod | .scaffoldMethod =>
    .edge .lineStart :: blanks :: text "def ".toList
  | .decision => .edge .lineStart :: text "def test_".toList
  | .group | .classType | .exception | .interface | .scaffold | .abstractType | .concreteType =>
    .edge .lineStart :: text "class ".toList

/-- The patterns behind the name in the built-in pattern of a kind. -/
def back : DeclarationKind → List Pattern
  | .constant =>
    (Pattern.one { items := [.named .blank false] }).times 0 none :: text ['=']
  | .mock | .method | .predicate | .loopSource | .interfaceMethod | .scaffoldMethod | .decision =>
    text ['(']
  | .abstractType =>
    text ['('] ++ .either (row (text "ABC".toList)) (row (text "Protocol".toList)) :: text [')']
  | .importLine | .group | .classType | .exception | .interface | .scaffold | .concreteType =>
    [.edge .word]

variable (g : Group) (around : List Group)

/-- The built-in pattern of a kind up to the name. -/
theorem says_opening (kind : DeclarationKind) : ∃ g' : Group, g'.branches = g.branches ∧
    g'.parts = g.parts ++ kind.front ∧ ∀ (rest : List Char) (s' : Group × List Group), Apart rest →
      Says (g', around) rest s' → Says (g, around) (kind.opening ++ rest) s' := by
  cases kind with
  | mock | decision | group | classType | exception | interface | scaffold | abstractType
  | concreteType =>
    refine ⟨_, ?_, ?_, fun rest s' _ hr => .lineStart (.text (by decide) hr)⟩
    · simp
    · simp [front]
  | constant =>
    refine ⟨_, ?_, ?_, fun rest s' ha hr => .lineStart (.blanks hr ha)⟩
    · simp
    · simp [front]
  | method | predicate | loopSource | interfaceMethod | scaffoldMethod =>
    refine ⟨_, ?_, ?_, fun rest s' _ hr => .lineStart (.blanks (.text (by decide) hr) ?_)⟩
    · simp
    · simp [front]
    · refine .append ?_ ?_ <;> decide
  | importLine =>
    have horigin : Group.pattern ((((Group.pushText {} "from".toList).push blanks false).push
        nonBlanks false).push blanks false) = origin := by
      rw [Group.pattern_eq (by simp)]
      simp [origin]
    refine ⟨((((((g.push (.edge .lineStart) false).push (origin.times 0 (some 1)) false).pushText
      "import".toList).push blanks false).push ((Pattern.one .inLine).times 0 none) false)).push
        (.edge .word) false, ?_, ?_, fun rest s' _ hr => ?_⟩
    · simp
    · simp [front]
    · simp only [opening, List.cons_append, List.append_assoc, List.nil_append]
      refine .lineStart (.opening (.text (by decide) (.blanks (.nonBlanks (.blanks
        (.closing ?_) ?_) ?_) ?_)))
      · rw [horigin]
        refine .question (.text (by decide) (.blanks (.inLine (.star (.wordEdge hr) ?_))
          ?_)) ?_
        · simp [Apart]
        · simp [Apart]
        · refine .append ?_ ?_ <;> decide
      all_goals simp [Apart]

/-- The built-in pattern of a kind behind the name. -/
theorem says_closing (kind : DeclarationKind) : ∃ g' : Group, g'.branches = g.branches ∧
    g'.parts = g.parts ++ kind.back ∧ Says (g, around) kind.closing (g', around) := by
  cases kind with
  | constant =>
    refine ⟨_, ?_, ?_, .named (.star (says_nil.plain (by decide)) ?_) rfl rfl⟩
    · simp
    · simp [back, text]
    · simp [Apart]
  | mock | method | predicate | loopSource | interfaceMethod | scaffoldMethod | decision =>
    refine ⟨_, ?_, ?_, .escaped says_nil (by decide) (by decide)⟩
    · simp
    · simp [back, text]
  | importLine | group | classType | exception | interface | scaffold | concreteType =>
    refine ⟨_, ?_, ?_, .wordEdge says_nil⟩
    · simp
    · simp [back]
  | abstractType =>
    have hother : Group.pattern (Group.pushText { branches :=
        [(Group.pushText {} "ABC".toList).branch] } "Protocol".toList) =
          .either (row (text "ABC".toList)) (row (text "Protocol".toList)) := by
      decide
    refine ⟨_, ?_, ?_, .escaped (.opening (.text (by decide) (.bar (.text (by decide)
      (.closing (.escaped says_nil (by decide) (by decide))))))) (by decide) (by decide)⟩
    · simp
    · rw [Group.parts_push, Group.parts_push, Group.parts_push]
      refine (congrArg (fun p => g.parts ++ [_] ++ [p] ++ [_]) hother).trans ?_
      simp [back, text]

theorem lasts_front (kind : DeclarationKind) : ∀ p ∈ kind.front, p.Lasts := by
  have hblanks : blanks.Lasts := (lasts_one _).times 1 none
  have horigin : origin.Lasts := lasts_row <| List.forall_mem_append.2 ⟨lasts_text,
    List.forall_mem_cons.2 ⟨hblanks, List.forall_mem_cons.2 ⟨(lasts_one _).times 1 none,
      List.forall_mem_singleton.2 hblanks⟩⟩⟩
  cases kind with
  | mock | decision | group | classType | exception | interface | scaffold | abstractType
  | concreteType => exact List.forall_mem_cons.2 ⟨lasts_edge rfl, lasts_text⟩
  | constant =>
    exact List.forall_mem_cons.2 ⟨lasts_edge rfl, List.forall_mem_singleton.2 hblanks⟩
  | method | predicate | loopSource | interfaceMethod | scaffoldMethod =>
    exact List.forall_mem_cons.2 ⟨lasts_edge rfl, List.forall_mem_cons.2 ⟨hblanks, lasts_text⟩⟩
  | importLine =>
    refine List.forall_mem_cons.2 ⟨lasts_edge rfl, List.forall_mem_cons.2 ⟨horigin.times 0 _,
      List.forall_mem_append.2 ⟨lasts_text, List.forall_mem_cons.2 ⟨hblanks,
        List.forall_mem_cons.2 ⟨(lasts_one _).times 0 none, ?_⟩⟩⟩⟩⟩
    exact List.forall_mem_singleton.2 (lasts_edge rfl)

theorem lasts_back (kind : DeclarationKind) : ∀ p ∈ kind.back, p.Lasts := by
  cases kind with
  | constant => exact List.forall_mem_cons.2 ⟨(lasts_one _).times 0 none, lasts_text⟩
  | mock | method | predicate | loopSource | interfaceMethod | scaffoldMethod | decision =>
    exact lasts_text
  | abstractType =>
    exact List.forall_mem_append.2 ⟨lasts_text, List.forall_mem_cons.2
      ⟨⟨lasts_row lasts_text, lasts_row lasts_text⟩, lasts_text⟩⟩
  | importLine | group | classType | exception | interface | scaffold | concreteType =>
    exact List.forall_mem_singleton.2 (lasts_edge rfl)

theorem apart_closing (kind : DeclarationKind) : Apart kind.closing := by
  cases kind <;> decide

end DeclarationKind

/-! ## Declarations in a text -/

namespace Plan

open Pattern (row text)
open Source (Block)

/-- The built-in pattern of a kind for a name. -/
theorem patternFor_builtin (kind : DeclarationKind) (name : String) :
    patternFor {} kind name = .ok (row (kind.front ++ (text name.toList ++ kind.back))) := by
  obtain ⟨g, hbranches, hparts, hsays⟩ : ∃ g : Pattern.Group, g.branches = [] ∧
      g.parts = kind.front ++ (text name.toList ++ kind.back) ∧ Pattern.Says ({}, [])
        (kind.opening ++ (Pattern.escape name.toList ++ kind.closing)) (g, []) := by
    obtain ⟨g₁, hbranches₁, hparts₁, hopening⟩ := kind.says_opening {} []
    obtain ⟨g₂, hbranches₂, hparts₂, hclosing⟩ :=
      kind.says_closing (g₁.pushText name.toList) []
    refine ⟨g₂, ?_, ?_, hopening _ _ (kind.apart_closing.escape _) hclosing.escape⟩
    · rw [hbranches₂, Pattern.Group.branches_pushText, hbranches₁]
    · rw [hparts₂, Pattern.Group.parts_pushText, hparts₁]
      simp
  unfold patternFor
  dsimp only
  rw [show ({} : Declarations).get kind = kind.builtin from rfl, Pattern.parse_of_says (g := g),
    Pattern.Group.pattern_eq hbranches, hparts]
  rwa [DeclarationKind.replace_builtin, String.toList_ofList]

/-- **The built-in patterns last**, whatever name they look for. -/
theorem lasts_of_patternFor {kind : DeclarationKind} {name : String} {p : Pattern}
    (h : patternFor {} kind name = .ok p) : p.Lasts := by
  obtain rfl := Except.ok.inj (h.symm.trans (patternFor_builtin kind name))
  exact Pattern.lasts_row <| List.forall_mem_append.2 ⟨kind.lasts_front,
    List.forall_mem_append.2 ⟨Pattern.lasts_text, kind.lasts_back⟩⟩

/-- A declaration that the built-in pattern of its kind finds in a text. -/
def Found (kind : DeclarationKind) (name text : String) : Prop :=
  ∃ p, patternFor {} kind name = .ok p ∧ p.occursIn text.toList = true

instance (kind : DeclarationKind) (name text : String) : Decidable (Found kind name text) :=
  match h : patternFor {} kind name with
  | .ok p => decidable_of_iff (p.occursIn text.toList = true) (by simp [Found, h])
  | .error _ => .isFalse fun ⟨_, hp, _⟩ => by
    rw [h] at hp
    cases hp

variable {kind : DeclarationKind} {name text whole : String}

theorem Found.within (h : Found kind name text) (hw : Text.Within text.toList whole.toList) :
    Found kind name whole := by
  obtain ⟨p, hp, ht⟩ := h
  exact ⟨p, hp, Pattern.occursIn_within (lasts_of_patternFor hp) hw ht⟩

variable {b : Block}

theorem isDeclared_iff_found (hk : b.kind = .declaration kind) :
    isDeclared {} b text = .ok true ↔ Found kind b.name text := by
  rw [isDeclared, hk]
  simp [Found]

theorem occursIn_iff_infix {piece : List Char} : ∀ {cs : List Char},
    Text.occursIn piece cs = true ↔ piece <:+: cs
  | [] => by simp [Text.occursIn]
  | c :: cs => by
    rw [Text.occursIn, Bool.or_eq_true, List.isPrefixOf_iff_prefix, occursIn_iff_infix,
      List.infix_cons_iff]

/-- **What is declared stays declared** where whole lines are put around the text. -/
theorem isDeclared_within (h : isDeclared {} b text = .ok true)
    (hw : Text.Within text.toList whole.toList) : isDeclared {} b whole = .ok true := by
  have hpiece : Text.Packed.occursIn b.text text = true →
      Text.Packed.occursIn b.text whole = true := fun h => by
    obtain ⟨before, after, hwhole, -, -⟩ := hw
    rw [Text.Packed.occursIn, occursIn_iff_infix] at h ⊢
    exact hwhole ▸ h.trans (List.infix_append' before text.toList after)
  cases hk : b.kind with
  | declaration kind =>
    rw [isDeclared_iff_found hk] at h ⊢
    exact h.within hw
  | header | preamble | other =>
    simp only [isDeclared, hk, Except.ok.injEq] at h ⊢
    exact hpiece h

end Plan

end Lifeline
