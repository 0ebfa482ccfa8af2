import Lifeline.Proofs.Diagram.Activations
import Lifeline.Proofs.Model.Building
import Lifeline.Proofs.Model.Steps

/-!
# Where arguments come from

A reply binds a name for a call (`Diagram.Supplies`) if it stands before the call, returns into the
activation that the call is made in, and is in no branch that the call is not in. The value of an
argument is that of the last such reply, or the argument is a parameter of the method that makes the
call (`Model.Finds`). `supplied_of_parse` says so of every argument of a model, and that its pipes
are the arguments with a value from a reply. They run forwards.
-/

set_option autoImplicit false

namespace Lifeline

/-- The reply `r` at the position `p` binds a name for the call `c` at the position `q`. -/
structure Diagram.Supplies (d : Diagram) (name : String) (c : Call) (q p : Nat) (r : Reply) :
    Prop where
  reply : d.elements[p]? = some (.reply r)
  binds : r.value = name
  before : p < q
  activation : ∃ c' ∈ d.calls, c'.id = r.call ∧ c'.parent = c.parent
  visible : ∀ f ∈ Model.framesAt d.elements p, f.kind = .alt → f ∈ Model.framesAt d.elements q

/-- A reply that binds a name for a call answers an earlier one. -/
theorem Diagram.Supplies.lt {d : Diagram} (hd : d.Disciplined) (hs : d.Sound) {name : String}
    {c : Call} {q p : Nat} {r : Reply} (h : d.Supplies name c q p r)
    (hq : d.elements[q]? = some (.call c)) : r.call < c.id := by
  obtain ⟨c', hc', hid, -⟩ := hd.answered _ r _ (cut_of_getElem? h.reply)
  obtain ⟨n, hn, hc'⟩ := Diagram.exists_of_take hc'
  rw [← hid]
  exact hs.id_lt hc' hq (hn.trans h.before)

namespace Model

/-- A loop around the position `q` goes through its collection under the name. -/
def NamesElement (d : Diagram) (m : Model) (q : Nat) (name : String) : Prop :=
  ∃ f ∈ framesAt d.elements q, ∃ l ∈ m.loops, l.id = f.block ∧ l.element = some name

/-- Where an argument of the call `c` at the position `q` finds its value: in a loop around the
call, in the last reply that binds its root, or in a parameter of the method that makes the call. -/
inductive Finds (d : Diagram) (m : Model) (c : Call) (q : Nat) (a : Argument) :
    ArgumentSource → Prop
  | literal : a.isLiteral = true → Finds d m c q a .literal
  | loopElement : a.isLiteral = false → NamesElement d m q (Name.root a.name) →
      Finds d m c q a .loopElement
  | reply (p : Nat) (r : Reply) : a.isLiteral = false → ¬NamesElement d m q (Name.root a.name) →
      d.Supplies (Name.root a.name) c q p r →
      (∀ p' r', d.Supplies (Name.root a.name) c q p' r' → p' ≤ p) →
      Finds d m c q a (.reply r.call (valueId (Name.root a.name) r.call))
  | input (x : Method) : a.isLiteral = false → ¬NamesElement d m q (Name.root a.name) →
      (∀ p r, ¬d.Supplies (Name.root a.name) c q p r) →
      x ∈ m.methods → x.call = c.parent → Name.root a.name ∈ x.parameters →
      Finds d m c q a .input

/-- The interaction of a call, with the values of its arguments. -/
structure Supplied (d : Diagram) (m : Model) (c : Call) (i : Interaction) : Prop where
  index : i.index = c.id
  method : i.method = c.parent
  call : d.elements[i.position]? = some (.call c)
  arguments : List.Forall₂ (fun a ref => ref.name = a.name ∧ Finds d m c i.position a ref.source)
    c.arguments i.arguments

/-- Whether a value comes from a reply. -/
def ArgumentSource.isReply : ArgumentSource → Bool
  | .reply .. => true
  | _ => false

/-- The arguments with a value from a reply, in the order of the calls and of their arguments. -/
def repliedArguments (m : Model) : List (Int × ArgumentRef) :=
  (m.interactions.flatMap fun i => i.arguments.map (i.index, ·)).filter (·.2.source.isReply)

theorem Layout.pipesOf_eq (is : List Interaction) :
    (pipesOf is).map (fun q => (q.consumer,
      (⟨q.argument, .reply q.producer q.valueId⟩ : ArgumentRef))) =
      (is.flatMap fun i => i.arguments.map (i.index, ·)).filter (·.2.source.isReply) := by
  rw [pipesOf, List.map_flatMap, List.filter_flatMap]
  refine congrArg List.flatten (List.map_congr_left fun i _ => ?_)
  induction i.arguments with
  | nil => rfl
  | cons a rest ih =>
    obtain ⟨name, source⟩ := a
    cases source <;> simp_all [ArgumentSource.isReply]

namespace Walk

variable {d : Diagram} {w : Walk} {m : Model}

section

variable (ht : Tracks d.elements w) {q : Nat} {enclosing : List Enclosure}
  (he : enclosing = (framesAt d.elements q).map Frame.enclosure)
include ht he

omit he in
/-- A frame has the kind of the block that it names. -/
theorem Tracks.kind_of_mem {n : Nat} {f : Frame} (hf : f ∈ framesAt d.elements n) :
    ∃ g, w.fragments[f.block]? = some g ∧ g.kind = f.kind := by
  obtain ⟨pre, suf, hcut⟩ := List.append_of_mem hf
  obtain ⟨g, hg, -, hk, -⟩ := ht.fragment_at hcut
  exact ⟨g, hg, hk⟩

theorem Tracks.mem_enclosing_iff {p : Nat} {f : Frame} (hf : f ∈ framesAt d.elements p) :
    f.enclosure ∈ enclosing ↔ f ∈ framesAt d.elements q := by
  rw [he, List.mem_map]
  refine ⟨?_, fun hq => ⟨f, hq, rfl⟩⟩
  rintro ⟨f', hf', heq⟩
  obtain ⟨hblock, hbranch⟩ := Enclosure.mk.inj heq
  obtain ⟨g, hg, hk⟩ := ht.kind_of_mem hf
  obtain ⟨g', hg', hk'⟩ := ht.kind_of_mem hf'
  rw [hblock] at hg'
  obtain rfl := Option.some.inj (hg.symm.trans hg')
  have hsame : f' = f := by
    cases f
    cases f'
    simp_all
  exact hsame ▸ hf'

/-- What a layout sees of the branches around a reply. -/
theorem Tracks.visible_iff {p : Nat} {enclosing' : List Enclosure}
    (he' : enclosing' = (framesAt d.elements p).map Frame.enclosure) :
    w.layout.visible enclosing' enclosing = true ↔
      ∀ f ∈ framesAt d.elements p, f.kind = .alt → f ∈ framesAt d.elements q := by
  rw [Layout.visible, he', List.all_map, List.all_eq_true]
  refine forall₂_congr fun f hf => ?_
  obtain ⟨g, hg, hk⟩ := ht.kind_of_mem hf
  have halt : w.layout.isAlt f.block = true ↔ f.kind = .alt := by
    rw [Layout.isAlt, show w.layout.walk.fragments[f.block]? = some g from hg, ← hk]
    simp
  rw [← ht.mem_enclosing_iff he hf, ← halt]
  simp only [Function.comp_apply, Bool.or_eq_true, Bool.not_eq_true', List.contains_iff_mem,
    Frame.enclosure]
  cases w.layout.isAlt f.block <;> simp

theorem Tracks.isLoopElement_iff (hloops : m.loops = w.layout.loops) {place : Place}
    (hp : place.enclosing = enclosing) (name : String) :
    w.layout.isLoopElement name place = true ↔ NamesElement d m q name := by
  rw [Layout.isLoopElement, hp, he, List.any_map, List.any_eq_true, NamesElement, hloops]
  refine exists_congr fun f => and_congr_right fun hf => ?_
  obtain ⟨g, hg, hk⟩ := ht.kind_of_mem hf
  simp only [Function.comp_apply, Frame.enclosure,
    show w.layout.walk.fragments[f.block]? = some g from hg]
  constructor
  · intro hany
    obtain ⟨x, hx, hname⟩ := (Option.any_eq_true _ _).1 hany
    have hloop : g.kind = .loop := by
      by_contra hne
      rw [Fragment.loopNames?, if_neg (by simpa using hne)] at hx
      cases hx
    refine ⟨_, Layout.mem_loops.2 ⟨f.block, g, hg, hloop, rfl⟩, rfl, ?_⟩
    rw [← beq_iff_eq.1 hname]
    exact congrArg (Option.map (·.1)) hx
  · rintro ⟨l, hl, hid, hname⟩
    obtain ⟨id, g', hg', -, rfl⟩ := Layout.mem_loops.1 hl
    subst hid
    obtain rfl := Option.some.inj (hg.symm.trans hg')
    obtain ⟨x, hx, rfl⟩ := Option.map_eq_some_iff.1 hname
    exact (Option.any_eq_true _ _).2 ⟨x, hx, beq_self_eq_true _⟩

end

section

variable (hd : d.Sound) (hf : Follows d.elements w) (hc : Complete d.elements w)
  {x : Call × Place} (hx : x ∈ w.calls)
include hf hx

/-- A binding that a layout finds for a call is a reply that binds the name for it. -/
theorem Follows.supplies {name : String} {y : Reply × Place}
    (hy : y ∈ w.layout.bindingsOf name x.2) :
    d.Supplies name x.1 x.2.position y.2.position y.1 := by
  obtain ⟨hy, hseen⟩ := List.mem_filter.1 hy
  simp only [Bool.and_eq_true, beq_iff_eq, decide_eq_true_eq] at hseen
  obtain ⟨⟨⟨hvalue, hmethod⟩, hbefore⟩, hvisible⟩ := hseen
  have hplaced := hf.hears.reply.placed y hy
  obtain ⟨c, hcall, hid, hparent⟩ := hf.hears.replyOf y hy
  refine ⟨hplaced.1, hvalue, hbefore, ⟨c, hcall, hid, ?_⟩, ?_⟩
  · rw [hparent, hmethod, hf.hears.callOf x hx]
  · exact (hf.tracks.visible_iff (hf.hears.call.placed x hx).2 hplaced.2).1 hvisible

include hd hc

/-- A layout finds every reply that binds the name for a call. -/
theorem Complete.mem_bindings {name : String} {p : Nat} {r : Reply}
    (h : d.Supplies name x.1 x.2.position p r) :
    ∃ y ∈ w.layout.bindingsOf name x.2, y.1 = r ∧ y.2.position = p := by
  obtain ⟨y, hy, rfl, rfl⟩ := hc.reply p r h.reply
  refine ⟨y, List.mem_filter.2 ⟨hy, ?_⟩, rfl, rfl⟩
  obtain ⟨c, hcall, hid, hparent⟩ := h.activation
  obtain ⟨c', hcall', hid', hparent'⟩ := hf.hears.replyOf y hy
  obtain rfl := hd.eq_of_id hcall hcall' (hid.trans hid'.symm)
  have hmethod : y.2.method = x.2.method := by
    rw [← hparent', hparent, hf.hears.callOf x hx]
  have hvisible := (hf.tracks.visible_iff (hf.hears.call.placed x hx).2
    (hf.hears.reply.placed y hy).2).2 h.visible
  simp only [Bool.and_eq_true, beq_iff_eq, decide_eq_true_eq]
  exact ⟨⟨⟨h.binds, hmethod⟩, h.before⟩, hvisible⟩

/-- Where a layout resolves an argument to, the argument finds its value. -/
theorem Complete.finds (hm : w.layout.Makes m) {callees : List (Int × List String)}
    {inputs : List String} (hr : w.layout.Resolved m callees inputs) {a : Argument}
    {v : ArgumentSource} (h : w.layout.Resolves callees inputs x.2 a v) :
    Finds d m x.1 x.2.position a v := by
  have hplaced := hf.hears.call.placed x hx
  have hloop := hf.tracks.isLoopElement_iff hplaced.2 hm.loops rfl (Name.root a.name)
  have hnot : w.layout.isLoopElement (Name.root a.name) x.2 = false →
      ¬NamesElement d m x.2.position (Name.root a.name) := fun hfalse hin => by
    rw [hloop.2 hin] at hfalse
    cases hfalse
  cases h with
  | literal hl => exact .literal hl
  | loopElement hl he => exact .loopElement hl (hloop.1 he)
  | reply y hl he hy =>
    refine .reply _ _ hl (hnot he) (hf.supplies hx (List.mem_of_getLast? hy)) fun p' r' hs => ?_
    obtain ⟨z, hz, rfl, rfl⟩ := hc.mem_bindings hd hf hx hs
    rcases le_getLast? (hf.hears.reply.filter _).ordered hy hz with rfl | hlt
    · exact Nat.le_refl _
    · exact hlt.le
  | input known hl he hnone hknown hmem =>
    have hmethod := hf.hears.callOf x hx
    obtain ⟨z, hz, hcall, hparameters⟩ := forall₂_left hr.methods x.1.parent
      (Layout.mem_methodIds.2 (.inr ⟨x, hx, rfl⟩))
    refine .input z hl (hnot he) (fun p r hs => ?_) hz hcall ?_
    · obtain ⟨y, hy, -⟩ := hc.mem_bindings hd hf hx hs
      rw [hnone] at hy
      cases hy
    · rw [hmethod, hparameters] at hknown
      rwa [Except.ok.inj hknown]

end

end Walk

/-- The calls of a diagram, each with its interaction in the model. -/
theorem supplied_of_build {d : Diagram} {o : Options} {m : Model} (hd : d.Sound)
    (hdisciplined : d.Disciplined) (hm : d.buildModel o = .ok m) :
    List.Forall₂ (Supplied d m) d.calls m.interactions := by
  rw [Diagram.buildModel, bind_ok] at hm
  obtain ⟨w, hw, hm⟩ := hm
  have hf := Walk.follows_of_run hd hw
  have hcomplete := Walk.complete_of_run hd hdisciplined.once hw
  have hmakes := Layout.makes hm
  obtain ⟨callees, inputs, hr⟩ := Layout.resolved_of_model hm
  rw [← (show w.calls.map (·.1) = d.calls from hf.hears.calls), List.forall₂_map_left_iff]
  refine List.Forall₂.imp ?_ ((List.forall₂_and_left (p := (· ∈ w.calls)) _ _).2
    ⟨fun _ hx => hx, forall₂_and hmakes.interactions hr.arguments⟩)
  rintro x i ⟨hx, hix, hall⟩
  have hplaced := hf.hears.call.placed x hx
  refine ⟨hix.index, hix.method, hix.position ▸ hplaced.1, List.Forall₂.imp ?_ hall⟩
  rintro a ref ⟨hname, hv⟩
  exact ⟨hname, hix.position ▸ hcomplete.finds hd hf hx hmakes hr hv⟩

/-- **Every argument** of a model has the value of the last reply that binds its root for the call,
or it is a parameter of the method that makes the call. The pipes are the arguments with a value
from a reply, and lead from a call to a later one. -/
theorem supplied_of_parse {source : String} {d : Diagram} {o : Options} {m : Model}
    (hp : Diagram.parse source = .ok d) (hm : d.buildModel o = .ok m) :
    List.Forall₂ (Supplied d m) d.calls m.interactions ∧
      m.pipes.map (fun q => (q.consumer, ⟨q.argument, .reply q.producer q.valueId⟩)) =
        m.repliedArguments ∧
      ∀ q ∈ m.pipes, q.producer < q.consumer := by
  have hd := Diagram.sound_of_parse hp
  have hdisciplined := Diagram.disciplined_of_parse hp
  have hcalls := supplied_of_build hd hdisciplined hm
  rw [Diagram.buildModel, bind_ok] at hm
  obtain ⟨w, hw, hm⟩ := hm
  have hmakes := Layout.makes hm
  refine ⟨hcalls, by rw [hmakes.pipes]; exact Layout.pipesOf_eq _, ?_⟩
  rintro ⟨producer, consumer, argument, v⟩ hq
  rw [hmakes.pipes] at hq
  obtain ⟨i, hi, ref, href, hsource, rfl, -⟩ := Layout.mem_pipesOf.1 hq
  obtain ⟨c, -, hci⟩ := forall₂_right hcalls i hi
  obtain ⟨a, -, -, hfinds⟩ := forall₂_right hci.arguments ref href
  rw [hsource] at hfinds
  cases hfinds with
  | reply p r _ _ hs =>
    rw [hci.index]
    exact hs.lt hdisciplined hd hci.call

/-- A diagram in which both branches of an alternative bind a name and pass it on. -/
def siblingValues : String :=
  "[-> A : run(x)\nalt [x.ready]\nA -> BRepository : load(x)\nBRepository --> A : v\n" ++
    "A -> CClient : send(v.id, x)\nelse\nA -> DRepository : find(x)\nDRepository --> A : v\n" ++
    "A -> CClient : push(v)\nend\n"

theorem model_siblingValues : ∃ d ∈ (Diagram.parse siblingValues).toOption,
    ∃ m ∈ d.buildModel.toOption,
      m.pipes = [⟨0, 1, "v.id", "v@0"⟩, ⟨2, 3, "v", "v@2"⟩] := by
  unfold Diagram.parse Line.scan siblingValues
  rw [String.toList_append, String.toList_append, String.toList_ofList, String.toList_ofList,
    String.toList_ofList]
  decide +kernel

theorem supplied_siblingValues : ∃ d m, Diagram.parse siblingValues = .ok d ∧
    d.buildModel = .ok m ∧ m.pipes = [⟨0, 1, "v.id", "v@0"⟩, ⟨2, 3, "v", "v@2"⟩] ∧
      List.Forall₂ (Supplied d m) d.calls m.interactions ∧
      m.pipes.map (fun q => (q.consumer, ⟨q.argument, .reply q.producer q.valueId⟩)) =
        m.repliedArguments ∧
      ∀ q ∈ m.pipes, q.producer < q.consumer := by
  obtain ⟨d, hd, m, hm, hpipes⟩ := model_siblingValues
  have hd : Diagram.parse siblingValues = .ok d := toOption_eq_some.1 hd
  have hm : d.buildModel = .ok m := toOption_eq_some.1 hm
  exact ⟨d, m, hd, hm, hpipes, supplied_of_parse hd hm⟩

end Model

end Lifeline
