import Lifeline.Proofs.Model.Arguments

/-!
# Elements of loops

The loops around a call are its own ones and those of its callers, and only its own ones are in its
scope. An argument takes the element of any loop around the call whose name it has
(`Supplied.element_iff`). So it keeps to the method that makes the call where each name that it
could take from a loop is the element of an own loop, and nowhere else (`keeps_iff_of_parse`).
-/

set_option autoImplicit false

namespace Lifeline.Model

variable {d : Diagram} {m : Model} {c : Call} {i : Interaction} {a : Argument} {ref : ArgumentRef}

/-- A loop in the scope of a call goes through its collection under the name. -/
def NamesOwn (m : Model) (i : Interaction) (name : String) : Prop :=
  ∃ f ∈ i.scope, ∃ l ∈ m.loops, l.id = f.block ∧ l.element = some name

/-- The value `v` of an argument of the call `i` keeps to the method that makes the call: it is the
element of a loop only if the method has a loop around the call with an element of that name. Where
it has none, the value comes from a reply into the activation that makes the call, or it is a
parameter of the method. -/
structure Keeps (d : Diagram) (m : Model) (c : Call) (i : Interaction) (a : Argument)
    (v : ArgumentSource) : Prop where
  element : v = .loopElement → m.NamesOwn i (Name.root a.name)
  other : a.isLiteral = false → ¬m.NamesOwn i (Name.root a.name) →
    (∃ p r, d.Supplies (Name.root a.name) c i.position p r ∧
      v = .reply r.call (valueId (Name.root a.name) r.call)) ∨
    (∃ x ∈ m.methods, x.call = i.method ∧ Name.root a.name ∈ x.parameters) ∧ v = .input

/-- An argument takes the element of a loop where a loop around the call has that name. -/
theorem Finds.element_iff {q : Nat} {v : ArgumentSource} (h : Finds d m c q a v) :
    v = .loopElement ↔ a.isLiteral = false ∧ NamesElement d m q (Name.root a.name) := by
  cases h with
  | literal hl => simp [hl]
  | loopElement hl hn => exact iff_of_true rfl ⟨hl, hn⟩
  | reply _ _ _ hn | input _ _ hn => simp [hn]

/-- An argument keeps to its method where an own loop has each name that a loop around the call
has. -/
theorem Supplied.keeps_iff (hs : Supplied d m c i) {v : ArgumentSource}
    (h : Finds d m c i.position a v) : Keeps d m c i a v ↔
      (a.isLiteral = false → NamesElement d m i.position (Name.root a.name) →
        m.NamesOwn i (Name.root a.name)) := by
  refine ⟨fun hk hl hn => hk.element (h.element_iff.2 ⟨hl, hn⟩), fun hown => ⟨fun hv => ?_, ?_⟩⟩
  · obtain ⟨hl, hn⟩ := h.element_iff.1 hv
    exact hown hl hn
  · intro hl hnot
    cases h with
    | literal hl' =>
      rw [hl] at hl'
      cases hl'
    | loopElement _ hn => exact absurd (hown hl hn) hnot
    | reply p r _ _ hr => exact .inl ⟨p, r, hr, rfl⟩
    | input x _ _ _ hx hcall hmem => exact .inr ⟨⟨x, hx, hcall.trans hs.method.symm, hmem⟩, rfl⟩

/-- The loops in the scope of a call are the loops around it that belong to the method which makes
it. -/
theorem namesOwn_iff {o : Options} (hd : d.Sound) (hm : d.buildModel o = .ok m)
    (hi : i ∈ m.interactions) {name : String} : m.NamesOwn i name ↔
      ∃ f ∈ framesAt d.elements i.position, ∃ l ∈ m.loops, l.id = f.block ∧ l.method = i.method ∧
        l.element = some name := by
  rw [Diagram.buildModel, bind_ok] at hm
  obtain ⟨w, hw, hm⟩ := hm
  have hf := Walk.follows_of_run hd hw
  have hmakes := Layout.makes hm
  obtain ⟨x, hx, hix⟩ := forall₂_right hmakes.interactions i hi
  have hscope : i.scope = Walk.scopeAt d.elements w i.position i.method := by
    rw [hix.scope, hf.tracks.scopeIn_eq (hf.hears.call.placed x hx).2, ← hix.position, ← hix.method]
  have howner : ∀ f : Frame, ∀ l ∈ m.loops, l.id = f.block → l.method = w.layout.ownerOf f.block := by
    intro f l hl hid
    rw [hmakes.loops] at hl
    obtain ⟨id, g, -, -, rfl⟩ := Layout.mem_loops.1 hl
    exact congrArg w.layout.ownerOf hid
  simp only [NamesOwn, hscope, Walk.scopeAt, List.mem_filter, beq_iff_eq]
  constructor
  · rintro ⟨f, ⟨hf, hmethod⟩, l, hl, hid, hname⟩
    exact ⟨f, hf, l, hl, hid, (howner f l hl hid).trans hmethod, hname⟩
  · rintro ⟨f, hf, l, hl, hid, hmethod, hname⟩
    exact ⟨f, ⟨hf, (howner f l hl hid).symm.trans hmethod⟩, l, hl, hid, hname⟩

/-- **Where loop elements come from**: an argument takes the element of a loop exactly where it is
no literal and some loop around the call has its name. It keeps to the method that makes the call
exactly where one of those loops is in the scope of the call, that is, belongs to that method. -/
theorem keeps_iff_of_parse {source : String} {d : Diagram} {o : Options} {m : Model}
    (hp : Diagram.parse source = .ok d) (hm : d.buildModel o = .ok m) :
    (∀ i ∈ m.interactions, ∀ name, m.NamesOwn i name ↔
      ∃ f ∈ framesAt d.elements i.position, ∃ l ∈ m.loops, l.id = f.block ∧
        l.method = i.method ∧ l.element = some name) ∧
    List.Forall₂ (fun c i => List.Forall₂ (fun a ref => ref.name = a.name ∧
      (ref.source = .loopElement ↔
        a.isLiteral = false ∧ NamesElement d m i.position (Name.root a.name)) ∧
      (Keeps d m c i a ref.source ↔
        (a.isLiteral = false → NamesElement d m i.position (Name.root a.name) →
          m.NamesOwn i (Name.root a.name)))) c.arguments i.arguments)
      d.calls m.interactions := by
  have hd := Diagram.sound_of_parse hp
  have hcalls := supplied_of_build hd (Diagram.disciplined_of_parse hp) hm
  refine ⟨fun i hi name => namesOwn_iff hd hm hi, List.Forall₂.imp ?_ hcalls⟩
  intro c i hs
  refine List.Forall₂.imp ?_ hs.arguments
  rintro a ref ⟨hname, hfinds⟩
  exact ⟨hname, hfinds.element_iff, hs.keeps_iff hfinds⟩

/-- A diagram in which a service gives on a value of its own, which has the name of the element of
the loop that its caller is in. -/
def lentElement : String :=
  "[-> A : run(xs)\nloop for each x in xs\nA -> BService : check(xs)\n" ++
    "BService -> CRepository : load(xs)\nCRepository --> BService : x\n" ++
    "BService -> DClient : send(x)\nend\n"

theorem model_lentElement : ∃ d ∈ (Diagram.parse lentElement).toOption,
    ∃ m ∈ d.buildModel.toOption, ∃ i ∈ m.interactions, i.method = some 0 ∧ i.scope = [] ∧
      i.arguments = [⟨"x", .loopElement⟩] := by
  unfold Diagram.parse Line.scan lentElement
  rw [String.toList_append, String.toList_append, String.toList_ofList, String.toList_ofList,
    String.toList_ofList]
  decide +kernel

theorem keeps_iff_lentElement : ∃ d m, Diagram.parse lentElement = .ok d ∧
    d.buildModel = .ok m ∧ ∃ c ∈ d.calls, ∃ i ∈ m.interactions, i.method = some 0 ∧
      i.arguments = [⟨"x", .loopElement⟩] ∧ List.Forall₂ (fun a ref => ref.name = a.name ∧
        (ref.source = .loopElement ↔
          a.isLiteral = false ∧ NamesElement d m i.position (Name.root a.name)) ∧
        (Keeps d m c i a ref.source ↔
          (a.isLiteral = false → NamesElement d m i.position (Name.root a.name) →
            m.NamesOwn i (Name.root a.name)))) c.arguments i.arguments := by
  obtain ⟨d, hd, m, hm, i, hi, hmethod, -, harguments⟩ := model_lentElement
  have hd : Diagram.parse lentElement = .ok d := toOption_eq_some.1 hd
  have hm : d.buildModel = .ok m := toOption_eq_some.1 hm
  obtain ⟨c, hc, hall⟩ := forall₂_right (keeps_iff_of_parse hd hm).2 i hi
  exact ⟨d, m, hd, hm, c, hc, i, hi, hmethod, harguments, hall⟩

/-- The service is given the element of a loop, but is in no loop of its own. -/
theorem not_keeps_lentElement : ¬∀ (source : String) (o : Options) (d : Diagram) (m : Model),
    Diagram.parse source = .ok d → d.buildModel o = .ok m →
      ∀ i ∈ m.interactions, ∀ ref ∈ i.arguments, ref.source = .loopElement →
        m.NamesOwn i (Name.root ref.name) := by
  intro h
  obtain ⟨d, hd, m, hm, i, hi, -, hscope, harguments⟩ := model_lentElement
  have href : (⟨"x", .loopElement⟩ : ArgumentRef) ∈ i.arguments := by simp [harguments]
  obtain ⟨f, hf, -⟩ := h _ {} d m (toOption_eq_some.1 hd) (toOption_eq_some.1 hm) i hi _ href rfl
  rw [hscope] at hf
  cases hf

end Lifeline.Model
