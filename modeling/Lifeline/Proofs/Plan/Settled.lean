import Lifeline.Proofs.Plan.Commit
import Lifeline.Proofs.Plan.Declared
import Mathlib.Data.List.Nodup

/-!
# Plans that leave nothing to do

A text is settled for a file (`Settled`) where it declares every block of it, the abstract ones as
abstract. A file whose text is settled needs no operation (`Settled.extendFile`), and what a plan
writes is settled: a new file (`settled_content`) as well as one that is extended
(`settled_textAfter`), since what it had and what is added stand among whole lines there. So a plan
that has been carried out in memory leaves no operation for the next one (`replans_iff`), as long as
what it created can be read.
-/

set_option autoImplicit false

namespace Lifeline.Plan

open Source (Block File)
open Store (Memory)

/-! ## Whole lines in the texts of a plan -/

theorem whole_of_endsWith {text : String} (h : Text.Packed.endsWith "\n" text = true) :
    Text.Whole text.toList := by
  have hsuffix : "\n".toList <:+ text.toList := List.isSuffixOf_iff_suffix.1 h
  obtain ⟨before, ht⟩ := hsuffix
  intro c hc
  rw [← ht] at hc
  simpa [eq_comm] using hc

/-- A text that is not one of whole lines gets a line feed. -/
theorem endLine_toList (text : String) :
    (Text.Whole text.toList ∧ endLine text = text) ∨
      (endLine text).toList = text.toList ++ ['\n'] := by
  unfold endLine
  split
  · rename_i h
    refine .inl ⟨?_, rfl⟩
    rcases Bool.or_eq_true_iff.1 h with h | h
    · rw [String.isEmpty_iff.1 h]
      exact Text.whole_nil
    · exact whole_of_endsWith h
  · exact .inr (by simp)

theorem whole_endLine (text : String) : Text.Whole (endLine text).toList := by
  rcases endLine_toList text with ⟨hw, he⟩ | he
  · rwa [he]
  · rw [he]
    intro c hc
    simpa [eq_comm] using hc

/-- The text of a file keeps its place where it is extended. -/
theorem within_endLine (text added : String) :
    Text.Within text.toList (endLine text ++ added).toList := by
  rcases endLine_toList text with ⟨hw, he⟩ | he
  · exact ⟨[], added.toList, by simp [he], Text.whole_nil, .inl hw⟩
  · exact ⟨[], '\n' :: added.toList, by simp [he], Text.whole_nil, .inr (by simp)⟩

theorem foldl_text_toList : ∀ (bs : List Block) (text : String),
    (bs.foldl (fun t b => t ++ b.text) text).toList =
      text.toList ++ bs.flatMap (·.text.toList)
  | [], text => by simp
  | b :: bs, text => by simp [foldl_text_toList bs]

/-- A block has its place among others behind whole lines. -/
theorem within_blocks {bs : List Block} (hbs : ∀ b ∈ bs, Text.Whole b.text.toList)
    {before : List Char} (hbefore : Text.Whole before) {b : Block} (hb : b ∈ bs) :
    Text.Within b.text.toList (before ++ bs.flatMap (·.text.toList)) := by
  have hwhole : ∀ {xs : List Block}, (∀ x ∈ xs, Text.Whole x.text.toList) →
      Text.Whole (xs.flatMap (·.text.toList)) := fun {xs} h => by
    induction xs with
    | nil => exact Text.whole_nil
    | cons x xs ih =>
      obtain ⟨hx, hxs⟩ := List.forall_mem_cons.1 h
      exact hx.append (ih hxs)
  obtain ⟨xs, ys, rfl⟩ := List.append_of_mem hb
  have hxs : Text.Whole (xs.flatMap (·.text.toList)) :=
    hwhole fun x hx => hbs x (List.mem_append_left _ hx)
  exact ⟨before ++ xs.flatMap (·.text.toList), ys.flatMap (·.text.toList), by simp,
    hbefore.append hxs, .inl (hbs b hb)⟩

/-! ## Files that are settled -/

/-- A file as it is rendered: every block is a text of whole lines, in which its declaration is
found, and abstract ones are interfaces that are declared as abstract types. -/
structure Rendered (f : File) : Prop where
  ends : ∀ b ∈ f.blocks, Text.Packed.endsWith "\n" b.text = true
  declared : ∀ b ∈ f.blocks, b.kind ≠ .header → isDeclared {} b b.text = .ok true
  abstract : ∀ b ∈ f.blocks, b.isAbstract = true →
    b.kind = .declaration .interface ∧ Found .abstractType b.name b.text

/-- A text that has all blocks of a file, and its abstract types as such. -/
structure Settled (f : File) (text : String) : Prop where
  declared : ∀ b ∈ f.blocks, b.kind ≠ .header → isDeclared {} b text = .ok true
  abstract : ∀ b ∈ f.blocks, b.isAbstract = true → Found .abstractType b.name text

/-- An interface is looked for as a concrete type is. -/
theorem found_concrete_iff {name text : String} :
    Found .concreteType name text ↔ Found .interface name text := by
  have hget : ({} : Declarations).get .concreteType = ({} : Declarations).get .interface := rfl
  simp only [Found, patternFor, hget]

theorem isConcrete_of_found {name text : String} (h : Found .abstractType name text) :
    isConcrete {} name text = .ok false := by
  obtain ⟨q, hq, ht⟩ := h
  simp only [isConcrete, hq, patternFor_builtin, bind_ok, pure_ok]
  exact ⟨_, rfl, q, rfl, by simp [ht]⟩

theorem found_of_isConcrete {name text : String} (hc : Found .concreteType name text)
    (h : isConcrete {} name text = .ok false) : Found .abstractType name text := by
  obtain ⟨p, hp, ht⟩ := hc
  simp only [isConcrete, bind_ok, pure_ok] at h
  obtain ⟨p', hp', q, hq, h⟩ := h
  obtain rfl := Except.ok.inj (hp.symm.trans hp')
  exact ⟨q, hq, by simpa [ht] using h⟩

/-- The text of a file after a plan for it. -/
def FilePlan.textAfter (p : FilePlan) (text : String) : String :=
  (p.operation.map (·.content)).getD text

variable {f : File} {text : String} {p : FilePlan}

theorem ofFilePlans_ok {plans : List FilePlan} {plan : Plan} (h : ofFilePlans plans = .ok plan) :
    (∀ p ∈ plans, p.conflicts = []) ∧ plan.operations = plans.filterMap (·.operation) := by
  unfold ofFilePlans at h
  split at h
  · cases h
  · rename_i hc
    obtain rfl := Except.ok.inj h
    exact ⟨List.flatMap_eq_nil_iff.1 hc, rfl⟩

theorem exists_ofFilePlans {plans : List FilePlan} (h : ∀ p ∈ plans, p.conflicts = []) :
    ∃ plan, ofFilePlans plans = .ok plan := by
  unfold ofFilePlans
  rw [List.flatMap_eq_nil_iff.2 h]
  exact ⟨_, rfl⟩

/-- What a plan does about a file that is there: it adds the blocks that are missing, if there are
any, behind the text. -/
theorem extendFile_cases {d : Declarations} (h : extendFile d f text = .ok p) : p.path = f.path ∧
    (p.conflicts = [] → ∀ b ∈ f.blocks, b.isAbstract = true →
      isConcrete d b.name text = .ok false) ∧
    ∃ missing ⊆ f.blocks,
      (∀ b ∈ f.blocks, b.kind ≠ .header → b ∈ missing ∨ isDeclared d b text = .ok true) ∧
      ((missing = [] ∧ p.operation = none) ∨
        ∃ o, p.operation = some o ∧ o.path = f.path ∧ o.mode = .update ∧ o.previous = some text ∧
          o.content = endLine text ++ missing.foldl (fun t b => t ++ b.text) "") := by
  simp only [extendFile, bind_ok, pure_ok] at h
  obtain ⟨clashing, hclashing, missing, hmissing, rfl⟩ := h
  obtain ⟨hconcrete, rfl⟩ := filterM_ok.1 hclashing
  obtain ⟨hfound, hmissing⟩ := filterM_ok.1 hmissing
  refine ⟨rfl, fun hc b hb ha => ?_, missing, ?_, fun b hb hk => ?_, ?_⟩
  · obtain ⟨v, hv⟩ := hconcrete b hb
    have hnot := List.filter_eq_nil_iff.1 (List.map_eq_nil_iff.1 hc) b hb
    rw [if_pos ha] at hv hnot
    cases v with
    | false => exact hv
    | true => simp [hv, Except.toOption] at hnot
  · rw [hmissing]
    exact List.filter_subset_self _
  · obtain ⟨v, hv⟩ := hfound b hb
    rw [hmissing, List.mem_filter, hv]
    rw [if_neg (by simpa using hk), bind_ok] at hv
    obtain ⟨d, hd, hv⟩ := hv
    cases d with
    | true => exact .inr hd
    | false =>
      obtain rfl := pure_ok.1 hv
      exact .inl ⟨hb, rfl⟩
  · cases missing with
    | nil => exact .inl ⟨rfl, rfl⟩
    | cons b bs => exact .inr ⟨_, rfl, rfl, rfl, rfl, rfl⟩

/-- Whether a block is declared is always told. -/
theorem exists_isDeclared (b : Block) (text : String) : ∃ v, isDeclared {} b text = .ok v := by
  unfold isDeclared
  split
  · rw [patternFor_builtin]
    exact ⟨_, rfl⟩
  · exact ⟨_, rfl⟩

/-- **What is to be done about a file** that has its interfaces as abstract types: nothing where all
its blocks are declared. -/
theorem exists_extendFile
    (h : ∀ b ∈ f.blocks, b.isAbstract = true → Found .abstractType b.name text) :
    ∃ p, extendFile {} f text = .ok p ∧ p.path = f.path ∧ p.conflicts = [] ∧
      (p.operation = none ↔
        ∀ b ∈ f.blocks, b.kind ≠ .header → isDeclared {} b text = .ok true) := by
  have hclashing : ∀ b ∈ f.blocks, (if b.isAbstract then isConcrete {} b.name text
      else return false) = .ok false := fun b hb => by
    split
    · rename_i ha
      exact isConcrete_of_found (h b hb ha)
    · rfl
  have hmissing : ∀ b ∈ f.blocks, ∃ v, (if b.kind == .header then return false
      else return !(← isDeclared {} b text)) = Except.ok (ε := Error) v ∧
        (v = false ↔ (b.kind ≠ .header → isDeclared {} b text = .ok true)) := fun b _ => by
    obtain ⟨v, hv⟩ := exists_isDeclared b text
    split
    · rename_i hk
      exact ⟨false, rfl, by simp [beq_iff_eq.1 hk]⟩
    · rename_i hk
      refine ⟨!v, by rw [hv]; rfl, ?_⟩
      rw [hv]
      simp [beq_eq_false_iff_ne.1 (Bool.eq_false_iff.2 hk)]
  simp only [extendFile, bind_ok, pure_ok]
  refine ⟨_, ⟨[], filterM_eq_nil hclashing, _, filterM_ok.2 ⟨fun b hb => ?_, rfl⟩, rfl⟩, rfl, rfl,
    ?_⟩
  · obtain ⟨v, hv, -⟩ := hmissing b hb
    exact ⟨v, hv⟩
  · simp only [ite_eq_left_iff, reduceCtorEq, imp_false, not_not, List.isEmpty_iff,
      List.filter_eq_nil_iff]
    refine forall₂_congr fun b hb => ?_
    obtain ⟨v, hv, hiff⟩ := hmissing b hb
    rw [hv, ← hiff]
    cases v <;> simp [Except.toOption]

/-- **A file that is settled** needs no operation. -/
theorem Settled.extendFile (h : Settled f text) : ∃ p, Plan.extendFile {} f text = .ok p ∧
    p.path = f.path ∧ p.operation = none ∧ p.conflicts = [] := by
  obtain ⟨p, hp, hpath, hc, ho⟩ := exists_extendFile h.abstract
  exact ⟨p, hp, hpath, ho.2 h.declared, hc⟩

variable (hf : Rendered f)
include hf

/-- A new file is settled. -/
theorem settled_content : Settled f f.content := by
  have hwithin : ∀ b ∈ f.blocks, Text.Within b.text.toList f.content.toList := fun b hb => by
    rw [File.content, foldl_text_toList]
    exact within_blocks (fun x hx => whole_of_endsWith (hf.ends x hx)) Text.whole_nil hb
  exact ⟨fun b hb hk => isDeclared_within (hf.declared b hb hk) (hwithin b hb),
    fun b hb ha => (hf.abstract b hb ha).2.within (hwithin b hb)⟩

/-- **A file that is extended** without a conflict is settled. -/
theorem settled_textAfter (h : Plan.extendFile {} f text = .ok p) (hc : p.conflicts = []) :
    Settled f (p.textAfter text) := by
  obtain ⟨-, hconcrete, missing, hsub, hcases, hafter⟩ := extendFile_cases h
  have hold : Text.Within text.toList (p.textAfter text).toList := by
    rcases hafter with ⟨-, ho⟩ | ⟨o, ho, -, -, -, hcontent⟩ <;> rw [FilePlan.textAfter, ho]
    · exact ⟨[], [], by simp, Text.whole_nil, .inr (by simp)⟩
    · rw [Option.map_some, Option.getD_some, hcontent]
      exact within_endLine _ _
  have hnew : ∀ b ∈ missing, Text.Within b.text.toList (p.textAfter text).toList := fun b hb => by
    rcases hafter with ⟨rfl, -⟩ | ⟨o, ho, -, -, -, hcontent⟩
    · cases hb
    · rw [FilePlan.textAfter, ho, Option.map_some, Option.getD_some, hcontent,
        String.toList_append, foldl_text_toList]
      exact within_blocks (fun x hx => whole_of_endsWith (hf.ends x (hsub hx)))
        (whole_endLine text) hb
  refine ⟨fun b hb hk => ?_, fun b hb ha => ?_⟩
  · rcases hcases b hb hk with hm | hd
    · exact isDeclared_within (hf.declared b hb hk) (hnew b hm)
    · exact isDeclared_within hd hold
  · obtain ⟨hk, hfound⟩ := hf.abstract b hb ha
    rcases hcases b hb (by simp [hk]) with hm | hd
    · exact hfound.within (hnew b hm)
    · -- what is there is no concrete type, so it is an abstract one
      rw [isDeclared_iff_found hk] at hd
      exact (found_of_isConcrete (found_concrete_iff.2 hd) (hconcrete hc b hb ha)).within hold

end Lifeline.Plan
