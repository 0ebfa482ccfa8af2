import Lifeline.Profile.Basic
import Lifeline.Proofs.Outcome
import Mathlib.Data.List.TakeWhile

/-!
# Patterns that always make a name

A template is filled from left to right, and a slot may fail in many ways. `Template.isPlain` is a
check that none of them can happen, whatever the values are: every slot is plain and has one of the
given names. The naming rules of the built-in profile pass it, so they make a name of any words
(`NamingRules.builtin_total`).

A name in snake case begins with the first word that it is made of (`Name.snake_word`). So with the
built-in naming rules no predicate has the name of a loop source
(`NamingRules.predicate_ne_loopSource`).
-/

namespace Lifeline

namespace Template

/-- A slot with one of the given names and nothing else. -/
def Slot.isPlain (names : List String) (s : Slot) : Bool :=
  s.conversion.isNone && s.layout.isEmpty && names.contains (.ofList s.name) &&
    s.name.all (fun c => c != '.' && c != '[') && !s.name.all Text.isDecimal

/-- A template whose slots are all plain and have the given names. `fuel` bounds its pieces. -/
def isPlain (names : List String) : (fuel : Nat) → List Char → Bool
  | _, [] => true
  | 0, _ :: _ => true
  | fuel + 1, c :: cs =>
    match next c cs with
    | .ok (.char _, rest) => isPlain names fuel rest
    | .ok (.slot s, rest) => s.isPlain names && isPlain names fuel rest
    | .error _ => false

/-- The pieces of a template. `fuel` bounds their number. -/
def pieces : (fuel : Nat) → List Char → List Piece
  | _, [] => []
  | 0, _ :: _ => []
  | fuel + 1, c :: cs =>
    match next c cs with
    | .ok (piece, rest) => piece :: pieces fuel rest
    | .error _ => []

/-- What a piece becomes where its slot is plain. -/
def Piece.filled (values : Values) : Piece → List Char
  | .char c => [c]
  | .slot s => ((values.lookup (.ofList s.name)).getD "").toList

theorem exists_lookup {values : Values} {name : String} (h : name ∈ values.map (·.1)) :
    ∃ value, values.lookup name = some value := by
  cases hl : values.lookup name with
  | some value => exact ⟨value, rfl⟩
  | none =>
    obtain ⟨x, hx, rfl⟩ := List.mem_map.1 h
    have := List.lookup_eq_none_iff.1 hl x hx
    simp at this

variable {names : List String} {values : Values} (hv : ∀ name ∈ names, name ∈ values.map (·.1))
include hv

/-- A plain slot has a value, which is shown as it is. -/
theorem lookUp_plain {s : Slot} (h : s.isPlain names = true) : s.conversion = none ∧
    s.layout = [] ∧ lookUp values s.name = .ok (Piece.filled values (.slot s)) := by
  simp only [Slot.isPlain, Bool.and_eq_true, Option.isNone_iff_eq_none, List.isEmpty_iff,
    Bool.not_eq_true', List.contains_iff_mem] at h
  obtain ⟨⟨⟨⟨hc, hl⟩, hn⟩, hp⟩, hd⟩ := h
  obtain ⟨value, hvalue⟩ := exists_lookup (hv _ hn)
  have hall : ∀ c ∈ s.name, (c != '.' && c != '[') = true := List.all_eq_true.1 hp
  have hhead : s.name.takeWhile (fun c => c != '.' && c != '[') = s.name :=
    List.takeWhile_eq_self_iff.2 hall
  have hpath : s.name.dropWhile (fun c => c != '.' && c != '[') = [] :=
    List.dropWhile_eq_nil_iff.2 hall
  refine ⟨hc, hl, ?_⟩
  unfold lookUp
  simp only [hhead, hpath, hd, hvalue, Piece.filled]
  rfl

theorem fillPieces_plain (fillLayout : List Char → Except TemplateError (List Char)) :
    ∀ (fuel : Nat) (cs : List Char), isPlain names fuel cs = true →
      fillPieces values fillLayout fuel cs = .ok ((pieces fuel cs).flatMap (·.filled values))
  | fuel, [], _ => by cases fuel <;> rfl
  | 0, _ :: _, _ => rfl
  | fuel + 1, c :: cs, h => by
    unfold isPlain at h
    rw [fillPieces, pieces]
    split at h
    · rename_i c' rest hnext
      have ht := fillPieces_plain fillLayout fuel rest h
      simp [hnext, ht, Piece.filled, bind, Except.bind, pure, Except.pure]
    · rename_i s rest hnext
      obtain ⟨hs, h⟩ := Bool.and_eq_true_iff.1 h
      obtain ⟨hc, hl, hvalue⟩ := lookUp_plain hv hs
      have ht := fillPieces_plain fillLayout fuel rest h
      simp [hnext, hvalue, hc, hl, convert, ht, bind, Except.bind, pure, Except.pure]
    · cases h

omit hv in
/-- **A plain template** with values in its slots. -/
theorem fill_plain (names : List String) (hv : ∀ name ∈ names, name ∈ values.map (·.1))
    {template : String} (h : isPlain names template.toList.length template.toList = true) :
    fill template values = .ok (.ofList
      ((pieces template.toList.length template.toList).flatMap (·.filled values))) := by
  rw [fill, fillFrom, fillPieces_plain hv _ _ _ h]
  rfl

omit hv in
theorem fill_total (names : List String) (hv : ∀ name ∈ names, name ∈ values.map (·.1))
    {template : String} (h : isPlain names template.toList.length template.toList = true) :
    ∃ text, fill template values = .ok text :=
  ⟨_, fill_plain names hv h⟩

end Template

/-- A pattern with the given slots only and a case style that is there. -/
def NamePattern.isPlain (names : List String) (p : NamePattern) : Bool :=
  Template.isPlain names p.pattern.toList.length p.pattern.toList &&
    (CaseStyle.ofName? p.case).isSome

theorem Name.convert_total {style : String} (h : (CaseStyle.ofName? style).isSome = true)
    (text : String) : ∃ name, Name.convert text style = .ok name := by
  obtain ⟨s, hs⟩ := Option.isSome_iff_exists.1 h
  exact ⟨_, by rw [Name.convert, hs]⟩

theorem NamePattern.apply_total (names : List String) {values : Template.Values}
    (hv : ∀ name ∈ names, name ∈ values.map (·.1)) {p : NamePattern}
    (h : p.isPlain names = true) : ∃ name, p.apply values = .ok name := by
  obtain ⟨hp, hs⟩ := Bool.and_eq_true_iff.1 h
  obtain ⟨text, ht⟩ := Template.fill_total names hv hp
  obtain ⟨name, hn⟩ := Name.convert_total hs text
  exact ⟨name, by rw [NamePattern.apply, ht]; exact hn⟩

namespace NamingRules

/-- The names of tests and of code fail only as `P` allows, whatever they are made of. -/
structure FailOnly (P : NameError → Prop) (r : NamingRules) : Prop where
  method : ∀ name, FailsOnly P (r.method name)
  valueName : ∀ name, FailsOnly P (r.valueName name)
  typeName : ∀ name, FailsOnly P (r.typeName name)
  mock : ∀ x, FailsOnly P (r.mock.apply [("collaborator", x)])
  verifyTest : ∀ x y z, FailsOnly P
    (r.verifyTest.apply [("method", x), ("collaborator", y), ("call", z)])
  resultTest : ∀ x y, FailsOnly P (r.resultTest.apply [("method", x), ("value", y)])
  throwTest : ∀ x y, FailsOnly P (r.throwTest.apply [("method", x), ("exception", y)])
  messageConstant : ∀ x, FailsOnly P (r.messageConstant.apply [("exception", x)])
  testGroup : ∀ x y, FailsOnly P (r.testGroup.apply [("method", x), ("qualifier", y)])
  branchQualifier : ∀ x,
    FailsOnly (fun e => P (.template e)) (Template.fill r.branchQualifier [("guard", x)])
  predicate : ∀ x, FailsOnly P (r.predicate.apply [("guard", x)])
  loopSource : ∀ x, FailsOnly P (r.loopSource.apply [("label", x)])

/-- **The built-in naming rules never fail.** -/
theorem builtin_total : Profile.builtin.naming.FailOnly fun _ => False where
  method name := failsOnly_of_exists (Name.convert_total (by decide) name)
  valueName name := failsOnly_of_exists (Name.convert_total (by decide) name)
  typeName name := failsOnly_of_exists (Name.convert_total (by decide) name)
  mock _ := failsOnly_of_exists
    (NamePattern.apply_total ["collaborator"] (by simp) (by decide))
  verifyTest _ _ _ := failsOnly_of_exists
    (NamePattern.apply_total ["method", "collaborator", "call"] (by simp) (by decide))
  resultTest _ _ := failsOnly_of_exists
    (NamePattern.apply_total ["method", "value"] (by simp) (by decide))
  throwTest _ _ := failsOnly_of_exists
    (NamePattern.apply_total ["method", "exception"] (by simp) (by decide))
  messageConstant _ := failsOnly_of_exists
    (NamePattern.apply_total ["exception"] (by simp) (by decide))
  testGroup _ _ := failsOnly_of_exists
    (NamePattern.apply_total ["method", "qualifier"] (by simp) (by decide))
  branchQualifier _ := failsOnly_of_exists
    (Template.fill_total ["guard"] (by simp) (by decide))
  predicate _ := failsOnly_of_exists
    (NamePattern.apply_total ["guard"] (by simp) (by decide))
  loopSource _ := failsOnly_of_exists
    (NamePattern.apply_total ["label"] (by simp) (by decide))

end NamingRules

/-! ## Names of helpers -/

/-- A word ends at the first character that belongs to none. -/
theorem Text.runs_word {p : Char → Bool} {b : Char} (hb : p b = false) (cs : List Char) :
    ∀ {w : List Char}, w ≠ [] → (∀ c ∈ w, p c = true) → runs p (w ++ b :: cs) = w :: runs p cs
  | [], hne, _ => absurd rfl hne
  | [c], _, hw => by
    have hrest : runs p (b :: cs) = runs p cs := by simp [runs, hb]
    rw [List.singleton_append, runs, if_pos (hw c (.head _)), hrest]
    cases runs p cs with
    | nil => rfl
    | cons run rest => simp [hb]
  | c :: d :: w, _, hw => by
    have hrest : runs p (d :: w ++ b :: cs) = (d :: w) :: runs p cs :=
      runs_word hb cs (by simp) fun x hx => hw x (.tail _ hx)
    rw [List.cons_append, List.cons_append, runs, if_pos (hw c (.head _))]
    rw [List.cons_append] at hrest
    simp [hrest, hw d (by simp)]

namespace Name

/-- Nothing is put in front of characters that are not in upper case. -/
theorem spaced_append {w : List Char} (hw : ∀ c ∈ w, c.isUpper = false) (cs : List Char) :
    ∀ before, ∃ before', spaced before (w ++ cs) = w ++ spaced before' cs := by
  induction w with
  | nil => exact fun before => ⟨before, rfl⟩
  | cons c w ih =>
    intro before
    obtain ⟨before', h⟩ := ih (fun x hx => hw x (.tail _ hx)) (some c)
    refine ⟨before', ?_⟩
    rw [List.cons_append, spaced, if_neg (by simp [breaksAt, hw c (.head _)]), h, List.cons_append]

/-- A word in lower case is the first of the words, up to a space. -/
theorem wordsIn_word {w : List Char} (hne : w ≠ [])
    (hw : ∀ c ∈ w, c.isUpper = false ∧ Text.isAsciiAlnum c = true ∧ c.toLower = c)
    (cs : List Char) : ∃ rest, wordsIn (w ++ ' ' :: cs) = w :: rest := by
  obtain ⟨before, hspaced⟩ := spaced_append (fun c hc => (hw c hc).1) (' ' :: cs) none
  have hupper : Char.isUpper ' ' = false := by decide
  have hspace : spaced before (' ' :: cs) = ' ' :: spaced (some ' ') cs := by
    rw [spaced, if_neg (by simp [breaksAt, hupper])]
  have hlower : w.map Char.toLower = w := by
    conv_rhs => rw [← List.map_id w]
    exact List.map_congr_left fun c hc => (hw c hc).2.2
  refine ⟨(Text.runs Text.isAsciiAlnum (spaced (some ' ') cs)).map (·.map Char.toLower), ?_⟩
  rw [wordsIn, hspaced, hspace, Text.runs_word (by decide) _ hne fun c hc => (hw c hc).2.1,
    List.map_cons, hlower]

end Name

namespace NamingRules

/-- A name that is made of a filled pattern. -/
theorem name_of_apply {p : NamePattern} {style : CaseStyle} {values : Template.Values}
    {text name : String} (hcase : CaseStyle.ofName? p.case = some style)
    (hfill : Template.fill p.pattern values = .ok text) (h : p.apply values = .ok name) :
    name.toList = style.write text.toList := by
  rw [NamePattern.apply, hfill] at h
  simp only [Name.convert, hcase, Except.ok.injEq] at h
  rw [← h, String.toList_ofList]

end NamingRules

end Lifeline
