import Lifeline.Proofs.Diagram.Origins
import Lifeline.Proofs.Model.Building
import Lifeline.Proofs.Model.Steps

/-!
# Who acts in the root method

A walk puts the participant that the diagram starts from in front, as far as it looks at
declarations, calls, raises and the entry message (`Walk.head?_of_run`). So the component under test
of a model makes the calls and raises of the root method (`Model.Owned`) if and only if the results
and the raises in front of the entry message agree on it (`owned_iff_of_parse`).
-/

set_option autoImplicit false

namespace Lifeline.Model

/-- Every message belongs to a method of the participant that sends it: to the root method of the
component under test, or to the method that an earlier call of the participant runs. -/
structure Owned (m : Model) : Prop where
  root : ∀ i ∈ m.interactions, i.method = none → m.componentUnderTest? = some i.source
  raised : ∀ t ∈ m.throws, t.method = none → m.componentUnderTest? = some t.participant
  called : ∀ i ∈ m.interactions, ∀ k, i.method = some k →
    k < i.index ∧ ∃ j, m.interaction? k = some j ∧ j.index = k ∧ j.target = i.source

/-! ## The first participant of a walk -/

namespace Walk

variable {w w' : Walk} {n : Nat} {e : Element}

theorem head?_note (w : Walk) (name : String) :
    (w.note name).participants.head? = w.participants.head?.or (some name) := by
  unfold note
  split
  · rename_i h
    cases hps : w.participants with
    | nil => simp [hps] at h
    | cons p ps => rfl
  · cases hps : w.participants with
    | nil => rfl
    | cons p ps => rfl

/-- Who acts becomes the first participant where there is none. -/
theorem head?_of_step (hw : w.step n e = .ok w') (he : e.entered? = none) :
    w'.participants.head? = w.participants.head?.or e.acting? := by
  cases e with
  | participant line name =>
    obtain rfl := Except.ok.inj hw
    exact head?_note w name
  | entry x => cases he
  | call c =>
    obtain rfl := Except.ok.inj hw
    show ((w.note c.source).note c.target).participants.head? = _
    rw [head?_note, head?_note, Option.or_assoc]
    rfl
  | raise t =>
    obtain rfl := Except.ok.inj hw
    exact head?_note w t.participant
  | orElse line guard =>
    obtain ⟨b, rfl⟩ := branch_ok hw
    exact Option.or_none.symm
  | close line =>
    obtain ⟨bs, rfl⟩ := closeBlock_ok hw
    exact Option.or_none.symm
  | _ =>
    obtain rfl := Except.ok.inj hw
    exact Option.or_none.symm

/-- **The first participant** of a walk is the origin of the diagram by those that act. -/
theorem head?_of_run {d : Diagram} (hd : d.Sound) (h : d.Led)
    (hw : Walk.run {} 0 d.elements = .ok w) :
    w.participants.head? = originBy Element.acting? d.elements := by
  refine run_inv hd (fun es w => w.participants.head? = originBy Element.acting? es) rfl
    (fun es e rest u u' hcut _ hu hstep => ?_) hw
  by_cases he : e.entered? = none
  · rw [head?_of_step hstep he, hu, originBy_concat he]
  · obtain ⟨hbefore, -⟩ := h.entered es e rest hcut he
    cases e with
    | entry x =>
      obtain rfl := Except.ok.inj hstep
      rw [originBy_entry hbefore]
      rfl
    | _ => exact absurd rfl he

end Walk

/-! ## The owner of the root method -/

section

variable {d : Diagram} (hd : d.Sound) {w : Walk} (hf : Walk.Follows d.elements w) {m : Model}
  (hm : w.layout.Makes m)
include hd hf hm

/-- Who makes calls in the activation of a call is its target. -/
theorem Layout.Makes.called {i : Interaction} (hi : i ∈ m.interactions) {k : Int}
    (hk : i.method = some k) :
    k < i.index ∧ ∃ j, m.interaction? k = some j ∧ j.index = k ∧ j.target = i.source := by
  obtain ⟨x, hx, hix⟩ := forall₂_right hm.interactions i hi
  have hlt := (hd.called x.1 (hf.hears.mem_calls hx) k (hix.method.symm.trans hk)).1
  obtain ⟨-, j, hj, rfl, htarget⟩ := hm.activation hd hf hi hk
  exact ⟨by rwa [hix.index], j, (itemAt?_of_numbered (hm.numbered hd hf) hj).2, rfl, htarget⟩

/-- The messages of the root method are the calls and raises outside all activations. -/
theorem Layout.Makes.owned_iff (complete : Walk.Complete d.elements w) :
    m.Owned ↔ ∀ e ∈ d.elements, e.parent? = some none → ∀ p, e.acting? = some p →
      m.componentUnderTest? = some p := by
  constructor
  · intro h e he hp p hacting
    obtain ⟨n, hn⟩ := List.getElem?_of_mem he
    cases e with
    | call c =>
      obtain ⟨x, hx, rfl, -⟩ := complete.call n c hn
      obtain ⟨i, hi, hix⟩ := forall₂_left hm.interactions x hx
      rw [h.root i hi (hix.method.trans (Option.some.inj hp)), hix.source]
      exact hacting
    | raise t =>
      obtain ⟨x, hx, rfl, -⟩ := complete.raise n t hn
      obtain ⟨y, hy, hyx⟩ := forall₂_left hm.throws x hx
      have hof := (Layout.throwOf_ok hyx).1
      rw [h.raised y hy (hof.method.trans (Option.some.inj hp)), hof.participant]
      exact hacting
    | _ => first | cases hp | cases hacting
  · refine fun h => ⟨fun i hi hroot => ?_, fun t ht hroot => ?_, fun i hi k hk => ?_⟩
    · obtain ⟨x, hx, hix⟩ := forall₂_right hm.interactions i hi
      have hcall := Diagram.mem_calls.1 (hf.hears.mem_calls hx)
      rw [hix.source]
      exact h _ hcall (congrArg some (hix.method.symm.trans hroot)) _ rfl
    · obtain ⟨x, hx, hxt⟩ := forall₂_right hm.throws t ht
      have hof := (Layout.throwOf_ok hxt).1
      have hraise := List.mem_of_getElem? (hf.hears.raise.placed x hx).1
      rw [hof.participant]
      exact h _ hraise (congrArg some (hof.method.symm.trans hroot)) _ rfl
    · exact hm.called hd hf hi hk

end

/-- **The component under test** makes the calls and raises of the root method if and only if the
diagram has one root. -/
theorem owned_iff_of_parse {source : String} {d : Diagram} {o : Options} {m : Model}
    (hp : Diagram.parse source = .ok d) (hm : d.buildModel o = .ok m) : m.Owned ↔ d.OneRoot := by
  have hd := Diagram.sound_of_parse hp
  have hdisciplined := Diagram.disciplined_of_parse hp
  have hled := Diagram.led_of_parse hp
  rw [Diagram.buildModel, bind_ok] at hm
  obtain ⟨w, hw, hm⟩ := hm
  have hf := Walk.follows_of_run hd hw
  have hmakes := Layout.makes hm
  have hcalls : d.calls ≠ [] := by
    rw [← (show w.calls.map (·.1) = d.calls from hf.hears.calls), Ne, List.map_eq_nil_iff]
    exact hmakes.nonempty
  have horigin : m.componentUnderTest? = originBy Element.acting? d.elements := by
    rw [← Walk.head?_of_run hd hled hw, componentUnderTest?, hmakes.participants, List.head?_map,
      List.head?_zipIdx, Option.map_map, Option.map_map]
    exact Option.map_id_apply
  rw [hmakes.owned_iff hd hf (Walk.complete_of_run hd hdisciplined.once hw), horigin]
  exact hled.origin_iff hdisciplined hcalls

/-- A diagram in which the target of the entry message raises in front of it. -/
def earlyRaise : String :=
  "B -> B : <<throws>> Early\n[-> B : run(x)\nB -> C : load(x)\nC -> D : find(x)\n"

theorem model_earlyRaise : ∃ d ∈ (Diagram.parse earlyRaise).toOption, ∃ m ∈ d.buildModel.toOption,
    (∀ i ∈ m.interactions, i.method = none → m.componentUnderTest? = some i.source) ∧
    (∀ t ∈ m.throws, t.method = none → m.componentUnderTest? = some t.participant) ∧
    ∀ i ∈ m.interactions, ∀ k ∈ i.method, k < i.index ∧ ∃ j ∈ m.interactions,
      m.interaction? k = some j ∧ j.index = k ∧ j.target = i.source := by
  unfold Diagram.parse Line.scan earlyRaise
  rw [String.toList_ofList]
  decide +kernel

theorem owned_iff_earlyRaise : ∃ d m, Diagram.parse earlyRaise = .ok d ∧ d.buildModel = .ok m ∧
    m.Owned ∧ d.OneRoot := by
  obtain ⟨d, hd, m, hm, hroot, hraised, hcalled⟩ := model_earlyRaise
  have hd : Diagram.parse earlyRaise = .ok d := toOption_eq_some.1 hd
  have hm : d.buildModel = .ok m := toOption_eq_some.1 hm
  have howned : m.Owned := ⟨hroot, hraised, fun i hi k hk => by
    obtain ⟨hlt, j, -, hj⟩ := hcalled i hi k hk
    exact ⟨hlt, j, hj⟩⟩
  exact ⟨d, m, hd, hm, howned, (owned_iff_of_parse hd hm).1 howned⟩

/-- The same diagram, but somebody else raises. -/
def strangeRaise : String := "A -> A : <<throws>> Late\n[-> B : run(x)\nB -> C : load(x)\n"

theorem model_strangeRaise : ∃ d ∈ (Diagram.parse strangeRaise).toOption,
    ∃ m ∈ d.buildModel.toOption, ∃ t ∈ m.throws, t.method = none ∧
      m.componentUnderTest? ≠ some t.participant := by
  unfold Diagram.parse Line.scan strangeRaise
  rw [String.toList_ofList]
  decide +kernel

/-- The method of the component under test raises an exception of somebody else. -/
theorem not_owned_strangeRaise : ¬∀ (source : String) (o : Options) (d : Diagram) (m : Model),
    Diagram.parse source = .ok d → d.buildModel o = .ok m → m.Owned := by
  intro h
  obtain ⟨d, hd, m, hm, t, ht, hroot, hne⟩ := model_strangeRaise
  have howned := h _ _ d m (toOption_eq_some.1 hd) (toOption_eq_some.1 hm)
  exact hne (howned.raised t ht hroot)

end Lifeline.Model
