import Lifeline.Diagram.Reader
import Lifeline.Proofs.Name.Letters

/-!
# One line of a diagram

`Reader.Heeds`: the ways in which a participant comes to act, in its innermost open activation or,
as the root, outside all of them. `Reader.Reads`: what a line adds to a reader, one case for each
kind of element.

* `reads_of_step`: every line that is read is one of these cases.
* `exists_of_parse`: what all of them keep holds where the whole diagram has been read.
-/

set_option autoImplicit false

namespace Lifeline

/-- A name that may have points in it, behind its first character. -/
structure Label.Dotted (name : String) : Prop where
  begins : name.toList.head?.any Text.isWord = true
  parts : ∀ c ∈ name.toList, Label.isDotted c = true

theorem Label.Dotted.ne_empty {name : String} (h : Label.Dotted name) : name ≠ "" := by
  rintro rfl
  cases h.begins

/-- What is raised is an exception with such a name. -/
theorem Label.exception_dotted {cs : List Char} {exception : String} {message : Option String}
    (h : Label.readRaise? cs = some (exception, message)) : Label.Dotted exception := by
  simp only [Label.readRaise?, Option.bind_eq_bind, Option.bind_eq_some_iff] at h
  obtain ⟨_, -, _, -, _, -, ⟨type, rest⟩, htype, _, -, hsome⟩ := h
  obtain ⟨rfl, -⟩ := Prod.mk.inj (Option.some.inj hsome)
  unfold Text.readName? at htype
  split at htype
  · split at htype
    · rename_i hstart
      obtain ⟨rfl, -⟩ := Prod.mk.inj (Option.some.inj htype)
      have hfirst := Text.isWord_of_isNameStart hstart
      refine ⟨by rw [String.toList_ofList]; exact hfirst, fun c hc => ?_⟩
      rw [String.toList_ofList] at hc
      rcases List.mem_cons.1 hc with rfl | hc
      · rw [Label.isDotted, hfirst, Bool.true_or]
      · exact List.mem_takeWhile_imp hc
    · cases htype
  · cases htype

namespace Reader

/-- The elements read so far, as a diagram. -/
def diagram (r : Reader) : Diagram := { elements := r.elements }

/-! ## Who acts -/

theorem activationsOf_suffix (p : String) : ∀ as, activationsOf p as <:+ as
  | [] => List.suffix_refl _
  | a :: as => by
    unfold activationsOf
    split
    · exact List.suffix_refl _
    · exact (activationsOf_suffix p as).trans (List.suffix_cons a as)

theorem activationsOf_callee (p : String) : ∀ {as a rest},
    activationsOf p as = a :: rest → a.callee = p
  | [], _, _, h => by simp [activationsOf] at h
  | b :: as, a, rest, h => by
    unfold activationsOf at h
    split at h
    · rename_i hb
      rw [List.cons.injEq] at h
      exact h.1 ▸ beq_iff_eq.1 hb
    · exact activationsOf_callee p h

/-- The reader after `source` has come up and acts, in the activation of the call that is given
last. -/
inductive Heeds (r : Reader) (source : String) : Reader → Option Int → Prop
  | inside {a : Activation} {rest : List Activation}
      (found : activationsOf source r.activations = a :: rest) :
      Heeds r source { r.note source with activations := a :: rest } (some a.call)
  | outside (root : (r.note source).root = some source) :
      Heeds r source { r.note source with activations := [] } none

variable {r r₁ r' : Reader} {source : String} {parent : Option Int}

theorem heeds_of_activate (h : (r.note source).activate source = .ok (r₁, parent)) :
    r.Heeds source r₁ parent := by
  unfold activate at h
  split at h
  · rename_i a rest found
    simp only [Except.ok.injEq, Prod.mk.injEq] at h
    obtain ⟨rfl, rfl⟩ := h
    exact .inside found
  · split at h
    · rename_i root
      simp only [Except.ok.injEq, Prod.mk.injEq] at h
      obtain ⟨rfl, rfl⟩ := h
      exact .outside (beq_iff_eq.1 root)
    · cases h

section

variable (h : r.Heeds source r₁ parent)
include h

theorem Heeds.elements : r₁.elements = r.elements := by
  cases h <;> rfl

theorem Heeds.blocks : r₁.blocks = r.blocks := by
  cases h <;> rfl

theorem Heeds.calls : r₁.calls = r.calls := by
  cases h <;> rfl

theorem Heeds.root : r₁.root = r.root.or (some source) := by
  cases h <;> rfl

/-- Outside all activations the root acts. -/
theorem Heeds.root_of_none (hp : parent = none) : r₁.root = some source := by
  cases h with
  | inside found => cases hp
  | outside root => exact root

/-- Who acts closes the activations inside its own. -/
theorem Heeds.activations : r₁.activations <:+ r.activations := by
  cases h with
  | inside found => exact found ▸ activationsOf_suffix source r.activations
  | outside root => exact List.nil_suffix

/-- Who acts was called in its activation. -/
theorem Heeds.callee {k : Int} (hk : parent = some k) :
    ∃ a ∈ r.activations, (a.call : Int) = k ∧ a.callee = source := by
  cases h with
  | @inside a rest found =>
    refine ⟨a, (activationsOf_suffix source _).subset (found ▸ .head _), Option.some.inj hk, ?_⟩
    exact activationsOf_callee source found
  | outside root => cases hk

end

/-! ## What is read -/

/-- The reader after one more line, with the number `n`. -/
inductive Reads (r : Reader) (n : Nat) : Reader → Prop
  | participant (name : String) : Reads r n ((r.note name).push (.participant n name))
  | entry (x : Entry) (line : x.line = n) (first : r.hasCall = false) :
      Reads r n ({ r with root := some x.target }.push (.entry x))
  | call {r₁ : Reader} (c : Call) (line : c.line = n) (id : c.id = r₁.calls)
      (acts : r.Heeds c.source r₁ c.parent) :
      Reads r n ({ r₁ with
        calls := r₁.calls + 1
        activations := { call := r₁.calls, caller := c.source, callee := c.target } ::
          r₁.activations }.push (.call c))
  | reply {r₁ : Reader} {parent : Option Int} {a : Activation} {rest : List Activation} (x : Reply)
      (line : x.line = n) (acts : r.Heeds x.source r₁ parent)
      (innermost : r₁.activations = a :: rest) (call : x.call = a.call)
      (source : x.source = a.callee) (target : x.target = a.caller) :
      Reads r n ({ r₁ with activations := rest }.push (.reply x))
  | raise {r₁ : Reader} (t : Raise) (line : t.line = n) (acts : r.Heeds t.participant r₁ t.parent)
      (named : Label.Dotted t.exception) : Reads r n (r₁.push (.raise t))
  | result {r₁ : Reader} (x : Result) (line : x.line = n) (acts : r.Heeds x.source r₁ x.parent) :
      Reads r n (r₁.push (.result x))
  | loop (label : String) :
      Reads r n ({ r with blocks := ⟨.loop, n⟩ :: r.blocks }.push (.loop n label))
  | alt (guard : Option String) :
      Reads r n ({ r with blocks := ⟨.alt, n⟩ :: r.blocks }.push (.alt n guard))
  | orElse {line : Nat} {rest : List OpenBlock} (guard : Option String)
      (innermost : r.blocks = ⟨.alt, line⟩ :: rest) : Reads r n (r.push (.orElse n guard))
  | close {b : OpenBlock} {rest : List OpenBlock} (innermost : r.blocks = b :: rest) :
      Reads r n ({ r with blocks := rest }.push (.close n))

variable {n : Nat} {target glyph label : String}

theorem reads_of_readEntry (hr : r.readEntry n target label = .ok r') : r.Reads n r' := by
  unfold readEntry at hr
  split at hr
  · cases hr
  · rename_i first
    split at hr
    · simp only [bind_ok, pure_ok] at hr
      obtain ⟨args, -, rfl⟩ := hr
      exact .entry _ rfl (by simpa using first)
    · cases hr

section

variable (h : r.Heeds source r₁ parent)
include h

theorem reads_of_readResult (hr : r₁.readResult n parent source label = .ok r') :
    r.Reads n r' := by
  unfold readResult at hr
  split at hr
  · cases hr
    exact .result _ rfl h
  · cases hr

theorem reads_of_readRaise (hr : r₁.readRaise n parent source target label = .ok r') :
    r.Reads n r' := by
  unfold readRaise at hr
  split at hr
  · cases hr
  · rename_i hread
    split at hr
    · cases hr
    · cases hr
      exact .raise _ rfl h (Label.exception_dotted hread)

theorem reads_of_readCall (hr : r₁.readCall n parent source glyph target label = .ok r') :
    r.Reads n r' := by
  unfold readCall at hr
  split at hr
  · cases hr
  · cases hr
  · rename_i method _ _
    simp only [bind_ok, pure_ok] at hr
    obtain ⟨args, -, rfl⟩ := hr
    exact .call ⟨n, r₁.calls, parent, source, target, method, args, glyph⟩ rfl rfl h

theorem reads_of_readReply (hr : r₁.readReply n source glyph target label = .ok r') :
    r.Reads n r' := by
  unfold readReply at hr
  split at hr
  · rename_i a rest _ innermost
    split at hr
    · rename_i hends
      cases hr
      simp only [Bool.and_eq_true, beq_iff_eq] at hends
      exact .reply _ rfl h innermost rfl hends.1.symm hends.2.symm
    · cases hr
  · cases hr

end

theorem reads_of_readArrow {label : Option String}
    (hr : r.readArrow n source glyph target label = .ok r') : r.Reads n r' := by
  unfold readArrow at hr
  split at hr
  · exact reads_of_readEntry hr
  · simp only [bind_ok] at hr
    obtain ⟨⟨r₁, parent⟩, hactivate, hr⟩ := hr
    have h := heeds_of_activate hactivate
    split at hr
    · exact reads_of_readResult h hr
    split at hr
    · cases hr
    split at hr
    · exact reads_of_readRaise h hr
    split at hr
    · exact reads_of_readCall h hr
    · exact reads_of_readReply h hr

theorem reads_of_readFragment {keyword : String} (hr : r.readFragment n keyword label = .ok r') :
    r.Reads n r' := by
  unfold readFragment at hr
  split at hr
  · cases hr
    exact .loop _
  split at hr
  · cases hr
    exact .alt _
  · cases hr

theorem reads_of_readElse (hr : r.readElse n label = .ok r') : r.Reads n r' := by
  unfold readElse at hr
  split at hr
  · rename_i innermost
    cases hr
    exact .orElse _ innermost
  · cases hr

theorem reads_of_readEnd (hr : r.readEnd n = .ok r') : r.Reads n r' := by
  unfold readEnd at hr
  split at hr
  · rename_i innermost
    cases hr
    exact .close innermost
  · cases hr

/-- Every line that is read adds one element. -/
theorem reads_of_step {l : Line} (hr : r.step l = .ok r') : r.Reads l.number r' := by
  unfold step at hr
  split at hr
  · rename_i r₁ h₁
    cases hr
    unfold readStatement at h₁
    split at h₁
    · cases h₁
      exact .participant _
    · exact reads_of_readArrow h₁
    · exact reads_of_readFragment h₁
    · exact reads_of_readElse h₁
    · exact reads_of_readEnd h₁
  · cases hr

end Reader

/-! ## The whole text -/

namespace Diagram

variable {source : String} {d : Diagram}

/-- A diagram that was read consists of what its lines add. -/
theorem exists_run_of_parse (h : parse source = .ok d) :
    ∃ lines r, Line.scan source = .ok lines ∧ lines.foldlM Reader.step {} = .ok r ∧
      r.diagram = d := by
  simp only [parse, ofLines, bind_ok] at h
  obtain ⟨lines, hlines, r, hr, hd⟩ := h
  unfold Reader.finish at hd
  split at hd
  · cases hd
    exact ⟨lines, r, hlines, hr, rfl⟩
  · cases hd

/-- What every line keeps holds where the whole diagram has been read. -/
theorem exists_of_parse {P : Reader → Prop} (h : parse source = .ok d) (hstart : P {})
    (hstep : ∀ {r n r'}, P r → r.Reads n r' → P r') : ∃ r, P r ∧ r.diagram = d := by
  obtain ⟨lines, r, -, hr, hd⟩ := exists_run_of_parse h
  exact ⟨r, foldlM_inv P hr (fun _ _ _ hp _ hs => hstep hp (Reader.reads_of_step hs)) hstart, hd⟩

end Diagram

end Lifeline
