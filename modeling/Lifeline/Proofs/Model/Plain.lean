import Lifeline.Model.Build
import Lifeline.Proofs.Diagram.Plain

/-!
# Plain models

A model without the lines of its diagram (`Model.plain`). The walk over a plain diagram, and what is
built from it, are the plain forms of what the diagram gives: no line and no glyph decides anything
on the way.

* `Walk.plain_run`, `Layout.plain_model`: the walk and the model, from one lemma for each step.
* `Diagram.buildModel_plain`: the model of a plain diagram.
-/

set_option autoImplicit false

namespace Lifeline

/-- The kind of a refusal; elements that are inconsistent in themselves are of no kind. -/
def BuildError.kind? : BuildError → Option String
  | .refused e => some e.kind
  | .noOpenBlock | .unknownParent _ | .unknownCall _ | .noParticipant | .endlessThrow _ => none

namespace Model

def Fragment.plain (f : Fragment) : Fragment := { f with line := 0 }

@[simp] theorem Fragment.kind_plain (f : Fragment) : f.plain.kind = f.kind := rfl

namespace Walk

/-- The walk without the lines and the glyphs of what it has found. -/
def plain (w : Walk) : Walk where
  participants := w.participants
  entry := w.entry.map Entry.plain
  fragments := w.fragments.map Fragment.plain
  openBlocks := w.openBlocks
  calls := w.calls.map (Prod.map Call.plain id)
  replies := w.replies.map (Prod.map Reply.plain id)
  raises := w.raises.map (Prod.map Raise.plain id)
  results := w.results.map (Prod.map Result.plain id)

variable (w : Walk)

@[simp] theorem participants_plain : w.plain.participants = w.participants := rfl

@[simp] theorem entry_plain : w.plain.entry = w.entry.map Entry.plain := rfl

@[simp] theorem fragments_plain : w.plain.fragments = w.fragments.map Fragment.plain := rfl

@[simp] theorem openBlocks_plain : w.plain.openBlocks = w.openBlocks := rfl

@[simp] theorem calls_plain : w.plain.calls = w.calls.map (Prod.map Call.plain id) := rfl

@[simp] theorem replies_plain : w.plain.replies = w.replies.map (Prod.map Reply.plain id) := rfl

@[simp] theorem raises_plain : w.plain.raises = w.raises.map (Prod.map Raise.plain id) := rfl

@[simp] theorem results_plain : w.plain.results = w.results.map (Prod.map Result.plain id) := rfl

@[simp] theorem plain_note (name : String) : (w.note name).plain = w.plain.note name := by
  unfold note
  rw [participants_plain]
  split <;> rfl

@[simp] theorem enclosing_plain : w.plain.enclosing = w.enclosing := by
  unfold enclosing plain
  simp only [List.getElem?_map, Option.map_map]
  rfl

@[simp] theorem placeOf_plain (position : Nat) (method : MethodId) :
    w.plain.placeOf position method = w.placeOf position method := by
  simp [placeOf]

@[simp] theorem plain_own (method : MethodId) : (w.own method).plain = w.plain.own method := by
  have h : ∀ (f : Fragment) (block : Nat),
      (if w.openBlocks.contains block then { f with owner := f.owner.or (some method) }
        else f).plain =
      if w.openBlocks.contains block then { f.plain with owner := f.plain.owner.or (some method) }
        else f.plain := by
    intro f block
    split <;> rfl
  simp only [own, plain, List.zipIdx_map, List.map_map]
  congr 1
  exact List.map_congr_left fun x _ => h x.1 x.2

theorem plain_openBlock (f : Fragment) : (w.openBlock f).plain = w.plain.openBlock f.plain := by
  simp only [openBlock, enclosing_plain]
  simp [plain, Fragment.plain]

theorem plain_branch (position : Nat) (guard : Option String) :
    Mirrors BuildError.kind? plain (w.branch position guard) (w.plain.branch position guard) := by
  unfold branch
  rw [openBlocks_plain]
  split
  · exact .error rfl
  · refine .ok ?_
    simp only [plain]
    congr 1
    refine List.ext_getElem? fun n => ?_
    simp only [List.getElem?_map, List.getElem?_modify]
    cases w.fragments[n]? with
    | none => rfl
    | some f =>
      simp only [Option.map_some, Option.map_eq_map]
      split <;> rfl

theorem plain_closeBlock :
    Mirrors BuildError.kind? plain w.closeBlock w.plain.closeBlock := by
  unfold closeBlock
  rw [openBlocks_plain]
  split
  · exact .error rfl
  · exact .ok rfl

@[simp] theorem callerOf_plain (call : Int) : w.plain.callerOf call = w.callerOf call := by
  unfold callerOf plain
  have hfind : (w.calls.map (Prod.map Call.plain id)).reverse.find? (·.1.id == call) =
      (w.calls.reverse.find? (·.1.id == call)).map (Prod.map Call.plain id) := by
    rw [← List.map_reverse]
    exact List.find?_map ..
  rw [hfind]
  cases w.calls.reverse.find? (·.1.id == call) <;> rfl

/-! ### Messages -/

section

variable (position : Nat) (method : MethodId)

theorem plain_heard_call (c : Call) :
    { w.own method with calls := w.calls ++ [(c, w.placeOf position method)] }.plain =
      { w.plain.own method with
        calls := w.plain.calls ++ [(c.plain, w.plain.placeOf position method)] } := by
  rw [← plain_own, placeOf_plain]
  simp [plain, own]

theorem plain_heard_reply (r : Reply) :
    { w.own method with
      replies := w.replies.filter (fun x : Reply × Place => x.1.call != r.call) ++
        [(r, w.placeOf position method)] }.plain =
      { w.plain.own method with
        replies := w.plain.replies.filter (fun x : Reply × Place => x.1.call != r.plain.call) ++
          [(r.plain, w.plain.placeOf position method)] } := by
  rw [← plain_own, placeOf_plain]
  simp only [plain, own, List.map_append, List.filter_map]
  rfl

theorem plain_heard_raise (t : Raise) :
    { w.own method with raises := w.raises ++ [(t, w.placeOf position method)] }.plain =
      { w.plain.own method with
        raises := w.plain.raises ++ [(t.plain, w.plain.placeOf position method)] } := by
  rw [← plain_own, placeOf_plain]
  simp [plain, own]

theorem plain_heard_result (r : Result) :
    { w.own method with results := w.results ++ [(r, w.placeOf position method)] }.plain =
      { w.plain.own method with
        results := w.plain.results ++ [(r.plain, w.plain.placeOf position method)] } := by
  rw [← plain_own, placeOf_plain]
  simp [plain, own]

end

/-- The plain walk takes the plain element as the walk takes the element. -/
theorem plain_step (position : Nat) (e : Element) :
    Mirrors BuildError.kind? plain (w.step position e) (w.plain.step position e.plain) := by
  cases e with
  | participant line name => exact .ok (plain_note w name).symm
  | entry e => exact .ok rfl
  | call c =>
    refine .ok ?_
    rw [plain_heard_call, plain_note, plain_note]
    rfl
  | reply r =>
    have hcaller : w.plain.callerOf r.plain.call = w.callerOf r.call := callerOf_plain w r.call
    refine .ok ?_
    rw [plain_heard_reply, hcaller]
  | raise t =>
    refine .ok ?_
    rw [plain_heard_raise, plain_note]
    rfl
  | result r =>
    refine .ok ?_
    rw [plain_heard_result]
    rfl
  | loop line label =>
    refine .ok ?_
    rw [plain_openBlock]
    rfl
  | alt line guard =>
    refine .ok ?_
    rw [plain_openBlock]
    rfl
  | orElse line guard => exact plain_branch w position guard
  | close line => exact plain_closeBlock w

theorem plain_run : ∀ (es : List Element) (w : Walk) (position : Nat),
    Mirrors BuildError.kind? plain (w.run position es)
      (w.plain.run position (es.map Element.plain))
  | [], _, _ => .ok rfl
  | e :: es, w, position => (plain_step w position e).bind fun w => plain_run es w (position + 1)

@[simp] theorem owners_plain : w.plain.owners = w.owners := by
  simp only [owners, plain, List.foldl_map]
  rfl

end Walk

/-! ## What is built -/

def Binding.plain (b : Binding) : Binding := { b with line := 0 }

def Interaction.plain (i : Interaction) : Interaction :=
  { i with line := 0, reply := i.reply.map Binding.plain }

def Loop.plain (l : Loop) : Loop := { l with line := 0 }

def Alternative.plain (b : Alternative) : Alternative := { b with line := 0 }

def Throw.plain (t : Throw) : Throw := { t with line := 0 }

def Finding.plain : Finding → Finding
  | .ambiguousBinding name lines => .ambiguousBinding name (lines.map fun _ => 0)
  | .inferredInput name => .inferredInput name
  | .deepNesting depth => .deepNesting depth

def Warning.plain (w : Warning) : Warning := { finding := w.finding.plain, line := 0 }

/-- The outcome of a step without lines: its value as `f` gives it. -/
def Noted.plain {α β : Type} (f : α → β) (n : Noted α) : Noted β :=
  { value := f n.value, warnings := n.warnings.map Warning.plain }

/-- The model without lines. -/
def plain (m : Model) : Model :=
  { m with
    interactions := m.interactions.map Interaction.plain
    loops := m.loops.map Loop.plain
    alternatives := m.alternatives.map Alternative.plain
    throws := m.throws.map Throw.plain
    warnings := m.warnings.map Warning.plain }

section

variable (m : Model)

@[simp] theorem interactions_plain :
    m.plain.interactions = m.interactions.map Interaction.plain := rfl

@[simp] theorem loops_plain : m.plain.loops = m.loops.map Loop.plain := rfl

@[simp] theorem alternatives_plain :
    m.plain.alternatives = m.alternatives.map Alternative.plain := rfl

@[simp] theorem throws_plain : m.plain.throws = m.throws.map Throw.plain := rfl

end

@[simp] theorem itemAt?_map {α β : Type} (f : α → β) (items : List α) (index : Int) :
    itemAt? (items.map f) index = (itemAt? items index).map f := by
  unfold itemAt?
  split
  · simp
  · simp only [List.length_map, List.getElem?_map]
    split <;> rfl

namespace Layout

def plain (l : Layout) : Layout := { walk := l.walk.plain, owners := l.owners }

@[simp] theorem walk_plain (l : Layout) : l.plain.walk = l.walk.plain := rfl

theorem layout_plain (w : Walk) : w.plain.layout = w.layout.plain := by
  simp [Walk.layout, plain]

variable (l : Layout)

/-! ### Blocks and scopes -/

@[simp] theorem fragment?_plain (block : Nat) :
    l.plain.walk.fragments[block]? = (l.walk.fragments[block]?).map Fragment.plain :=
  List.getElem?_map

@[simp] theorem ownerOf_plain (block : Nat) : l.plain.ownerOf block = l.ownerOf block := rfl

@[simp] theorem isAlt_plain (block : Nat) : l.plain.isAlt block = l.isAlt block := by
  unfold isAlt
  rw [fragment?_plain, Option.any_map]
  rfl

@[simp] theorem scopeIn_plain (enclosing : List Enclosure) (method : MethodId) :
    l.plain.scopeIn enclosing method = l.scopeIn enclosing method := by
  unfold scopeIn
  congr 1
  funext e
  rw [fragment?_plain]
  cases l.walk.fragments[e.block]? <;> rfl

@[simp] theorem depthOf_plain (block : Nat) (f : Fragment) :
    l.plain.depthOf block f.plain = l.depthOf block f := by
  simp only [depthOf, isAlt_plain, ownerOf_plain]
  rfl

@[simp] theorem visible_plain (producer consumer : List Enclosure) :
    l.plain.visible producer consumer = l.visible producer consumer := by
  simp [visible]

@[simp] theorem checkCycles_plain : l.plain.checkCycles = l.checkCycles := by
  have h : l.plain.callGraph = l.callGraph := by
    simp only [callGraph, plain, Walk.plain, List.foldl_map]
    rfl
  rw [checkCycles, h, checkCycles]

theorem plain_checkNesting (o : Options) :
    Mirrors ModelError.kind (List.map Warning.plain) (l.checkNesting o)
      (l.plain.checkNesting o) := by
  unfold checkNesting
  rw [walk_plain, Walk.fragments_plain, List.zipIdx_map]
  refine mirrors_foldlM ?_ _ _
  rintro warnings ⟨f, block⟩
  simp only [Prod.map, id, depthOf_plain]
  rw [Fragment.kind_plain]
  split
  · exact .ok rfl
  · split
    · exact .ok (by simp [Warning.plain, Finding.plain, Fragment.plain])
    · exact .error rfl

/-! ### Values -/

@[simp] theorem bindingsOf_plain (name : String) (place : Place) :
    l.plain.bindingsOf name place = (l.bindingsOf name place).map (Prod.map Reply.plain id) := by
  simp only [bindingsOf, visible_plain]
  exact List.filter_map

@[simp] theorem latestBinding_plain (name : String) (place : Place) :
    l.plain.latestBinding name place = l.latestBinding name place := by
  simp only [latestBinding, bindingsOf_plain, List.getLast?_map, Option.map_map]
  rfl

theorem plain_argumentBinding (o : Options) (name : String) (place : Place) (line : Int) :
    Mirrors ModelError.kind (Noted.plain id) (l.argumentBinding o name place line)
      (l.plain.argumentBinding o name place 0) := by
  unfold argumentBinding
  simp only [bindingsOf_plain, List.length_map, List.getLast?_map, Option.map_map]
  split
  · exact .ok rfl
  · split
    · exact .error rfl
    · refine .ok ?_
      simp [Noted.plain, Warning.plain, Finding.plain, Function.comp_def, Reply.plain]

@[simp] theorem isLoopElement_plain (name : String) (place : Place) :
    l.plain.isLoopElement name place = l.isLoopElement name place := by
  unfold isLoopElement
  congr 1
  funext e
  rw [fragment?_plain]
  cases l.walk.fragments[e.block]? <;> rfl

/-! ### Parameters -/

@[simp] theorem givenParameters_plain (o : Options) :
    l.plain.givenParameters o = l.givenParameters o := by
  unfold givenParameters
  rw [walk_plain, Walk.entry_plain]
  cases o.externalInputs with
  | some inputs => rfl
  | none => cases l.walk.entry <;> rfl

@[simp] theorem infersParameters_plain (o : Options) :
    l.plain.infersParameters o = l.infersParameters o := by
  unfold infersParameters
  rw [walk_plain, Walk.entry_plain, Option.isNone_map]

@[simp] theorem methodIds_plain : l.plain.methodIds = l.methodIds := by
  simp only [methodIds, plain, Walk.plain, List.filterMap_map]
  rfl

theorem call?_plain (call : Int) : l.plain.walk.calls.find? (·.1.id == call) =
    (l.walk.calls.find? (·.1.id == call)).map (Prod.map Call.plain id) :=
  List.find?_map ..

@[simp] theorem parametersOfCall_plain (call : Int) :
    l.plain.parametersOfCall call = l.parametersOfCall call := by
  unfold parametersOfCall
  rw [call?_plain]
  cases l.walk.calls.find? (·.1.id == call) <;> rfl

/-! ### Interactions -/

theorem mirrors_refuse {α β : Type} {f : α → β} {x : Except ModelError α} {y : Except ModelError β}
    (h : Mirrors ModelError.kind f x y) : Mirrors BuildError.kind? f (refuse x) (refuse y) := by
  cases h with
  | ok h => exact .ok h
  | error h => exact .error (congrArg some h)

variable (o : Options) (callees : List (Int × List String))

theorem plain_resolveArgument (inputs : List String) (c : Call) (place : Place) (a : Argument) :
    Mirrors BuildError.kind? (Noted.plain id) (l.resolveArgument o callees inputs c place a)
      (l.plain.resolveArgument o callees inputs c.plain place a) := by
  unfold resolveArgument
  simp only [isLoopElement_plain, infersParameters_plain]
  split
  · exact .ok rfl
  split
  · exact .ok rfl
  refine (mirrors_refuse (plain_argumentBinding l o _ place c.line)).bind fun found => ?_
  rw [show (Noted.plain id found).value = found.value from rfl]
  split
  · exact .ok rfl
  · refine (mirrors_self (parametersOf inputs callees place.method)).bind fun known => ?_
    rw [id]
    split
    · exact .ok rfl
    split
    · exact .ok (by simp [Noted.plain, Warning.plain, Finding.plain, Call.plain])
    · exact .error rfl

theorem plain_resolveArguments (c : Call) (place : Place) : ∀ (arguments : List Argument)
    (inputs : List String), Mirrors BuildError.kind? (Noted.plain id)
      (l.resolveArguments o callees c place inputs arguments)
      (l.plain.resolveArguments o callees c.plain place inputs arguments)
  | [], _ => .ok rfl
  | a :: arguments, inputs => by
    unfold resolveArguments
    refine (plain_resolveArgument l o callees inputs c place a).bind fun first => ?_
    refine (plain_resolveArguments c place arguments _).bind fun others => ?_
    exact .ok (by simp [Noted.plain])

theorem reply?_plain (call : Int) : l.plain.walk.replies.find? (·.1.call == call) =
    (l.walk.replies.find? (·.1.call == call)).map (Prod.map Reply.plain id) :=
  List.find?_map ..

@[simp] theorem bindingOfCall_plain (call : Int) :
    l.plain.bindingOfCall call = (l.bindingOfCall call).map Binding.plain := by
  unfold bindingOfCall
  rw [reply?_plain]
  cases l.walk.replies.find? (·.1.call == call) <;> rfl

theorem plain_interactions : ∀ (calls : List (Call × Place)) (inputs : List String),
    Mirrors BuildError.kind? (Noted.plain (Prod.map (List.map Interaction.plain) id))
      (l.interactions o callees inputs calls)
      (l.plain.interactions o callees inputs (calls.map (Prod.map Call.plain id)))
  | [], _ => .ok rfl
  | (c, place) :: calls, inputs => by
    unfold interactions
    refine (plain_resolveArguments l o callees c place c.arguments inputs).bind fun resolved => ?_
    refine (plain_interactions calls _).bind fun others => ?_
    refine .ok ?_
    simp only [scopeIn_plain, bindingOfCall_plain]
    simp [Noted.plain, Interaction.plain, Call.plain]

@[simp] theorem pipesOf_plain (is : List Interaction) :
    pipesOf (is.map Interaction.plain) = pipesOf is := by
  unfold pipesOf
  rw [List.flatMap_map]
  rfl

/-! ### Blocks -/

theorem loops_plain : l.plain.loops = l.loops.map Loop.plain := by
  unfold loops
  rw [walk_plain, Walk.fragments_plain, List.zipIdx_map,
    List.filterMap_map, List.map_filterMap]
  congr 1
  funext ⟨f, block⟩
  simp only [Function.comp, Prod.map, id, latestBinding_plain, scopeIn_plain, ownerOf_plain]
  rw [Fragment.kind_plain]
  split <;> rfl

theorem alternatives_plain : l.plain.alternatives = l.alternatives.map Alternative.plain := by
  unfold alternatives
  rw [walk_plain, Walk.fragments_plain, List.zipIdx_map,
    List.filterMap_map, List.map_filterMap]
  congr 1
  funext ⟨f, block⟩
  simp only [Function.comp, Prod.map, id, depthOf_plain, scopeIn_plain, ownerOf_plain]
  rw [Fragment.kind_plain]
  split <;> rfl

/-! ### Results -/

variable (is : List Interaction) (method : MethodId)

@[simp] theorem impliedResults_plain :
    l.plain.impliedResults (is.map Interaction.plain) method = l.impliedResults is method := by
  unfold impliedResults
  rw [walk_plain, Walk.replies_plain, List.foldlM_map]
  congr 1
  funext results ⟨r, place⟩
  simp only [Prod.map, id, itemAt?_map, scopeIn_plain]
  rw [show r.plain.call = r.call from rfl, show r.plain.value = r.value from rfl]
  split
  · rfl
  · cases itemAt? is r.call with
    | none => rfl
    | some i => cases hi : i.reply <;> simp [Interaction.plain, hi, Binding.plain]

@[simp] theorem isSuperseded_plain (alternatives : List Alternative) (r : MethodResult) :
    isSuperseded (alternatives.map Alternative.plain) method r =
      isSuperseded alternatives method r := by
  unfold isSuperseded
  rw [List.any_map]
  rfl

theorem plain_statedResult (parameters : List String) (r : Result) (place : Place) :
    Mirrors BuildError.kind? id (l.statedResult is parameters method r place)
      (l.plain.statedResult (is.map Interaction.plain) parameters method r.plain place) := by
  unfold statedResult
  rw [show r.plain.value = r.value from rfl, show r.plain.type = r.type from rfl,
    latestBinding_plain, scopeIn_plain]
  generalize l.latestBinding r.value place = binding
  simp only [itemAt?_map]
  split
  · exact .error rfl
  cases r.type with
  | some type => exact .ok rfl
  | none =>
    cases binding with
    | none => exact .ok rfl
    | some call =>
      simp only
      cases itemAt? is call with
      | none => exact .error rfl
      | some i =>
        refine .ok ?_
        cases hi : i.reply <;> simp [Interaction.plain, Binding.plain, hi]

theorem plain_results (alternatives : List Alternative) (parameters : List String) :
    Mirrors BuildError.kind? id (l.results is alternatives parameters method)
      (l.plain.results (is.map Interaction.plain) (alternatives.map Alternative.plain) parameters
        method) := by
  unfold results
  simp only [impliedResults_plain, isSuperseded_plain]
  refine (mirrors_self (l.impliedResults is method)).bind fun implied => ?_
  rw [walk_plain, Walk.results_plain]
  refine Mirrors.bind (mirrors_foldlM ?_ _ _) fun all => .ok rfl
  rintro rs ⟨r, place⟩
  simp only [Prod.map, id]
  split
  · exact .ok rfl
  · exact (plain_statedResult l is method parameters r place).bind fun stated => .ok rfl

/-! ### Methods and raises -/

theorem plain_method (alternatives : List Alternative) (parameters : List String) :
    Mirrors BuildError.kind? id (l.method o is alternatives method parameters)
      (l.plain.method o (is.map Interaction.plain) (alternatives.map Alternative.plain) method
        parameters) := by
  have hresults := plain_results l is method alternatives parameters
  unfold Layout.method
  rw [walk_plain, Walk.participants_plain, Walk.entry_plain, Option.map_map]
  simp only [infersParameters_plain, itemAt?_map]
  cases method with
  | none =>
    cases l.walk.participants.head? with
    | none => exact .error rfl
    | some first => exact hresults.bind fun results => .ok rfl
  | some call =>
    simp only
    cases itemAt? is call with
    | none => exact .error rfl
    | some i => exact hresults.bind fun results => .ok rfl

@[simp] theorem propagation_plain : ∀ (fuel : Nat) (method : MethodId),
    propagation (is.map Interaction.plain) fuel method = propagation is fuel method
  | _, none => by simp [propagation]
  | 0, some call => rfl
  | fuel + 1, some call => by
    have ih := propagation_plain fuel
    simp only [propagation, itemAt?_map]
    cases itemAt? is call with
    | none => rfl
    | some i =>
      simp only [Option.map_some, ih]
      rfl

theorem plain_throwOf (t : Raise) (place : Place) :
    Mirrors BuildError.kind? Throw.plain (l.throwOf is t place)
      (l.plain.throwOf (is.map Interaction.plain) t.plain place) := by
  unfold throwOf
  simp only [scopeIn_plain, methodIds_plain, propagation_plain, List.length_map]
  rw [show t.plain.parent = t.parent from rfl]
  split
  · exact .ok rfl
  · exact (mirrors_self (propagation is (is.length + 1) t.parent)).bind fun through => .ok rfl

/-! ### The model -/

theorem plain_model :
    Mirrors BuildError.kind? Model.plain (l.model o) (l.plain.model o) := by
  unfold model
  rw [checkCycles_plain, givenParameters_plain, loops_plain, alternatives_plain, methodIds_plain,
    walk_plain, Walk.calls_plain, Walk.participants_plain, Walk.raises_plain, List.isEmpty_map]
  split
  · exact .error rfl
  refine (mirrors_self (refuse l.checkCycles)).bind fun _ => ?_
  refine (mirrors_refuse (plain_checkNesting l o)).bind fun nesting => ?_
  simp only [parametersOfCall_plain]
  refine (mirrors_self _).bind fun callees => ?_
  refine (plain_interactions l o callees l.walk.calls _).bind fun built => ?_
  refine Mirrors.bind (mirrors_mapM_id (fun m => (mirrors_self _).bind fun parameters =>
    plain_method l o built.value.1 m l.alternatives parameters) l.methodIds) fun methods => ?_
  refine Mirrors.bind (mirrors_mapM (g := Prod.map Raise.plain id)
    (fun x => plain_throwOf l built.value.1 x.1 x.2) l.walk.raises) fun throws => ?_
  exact .ok (by simp [Noted.plain, Model.plain])

end Layout

end Model

/-- The model of a plain diagram is the plain model of the diagram, or both have none for reasons of
one kind. -/
theorem Diagram.buildModel_plain (d : Diagram) (o : Model.Options) :
    Mirrors BuildError.kind? Model.plain (d.buildModel o) (d.plain.buildModel o) := by
  unfold buildModel
  refine (Model.Walk.plain_run d.elements {} 0).bind fun w => ?_
  rw [Model.Layout.layout_plain]
  exact Model.Layout.plain_model w.layout o

end Lifeline
