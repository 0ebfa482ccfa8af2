import Lifeline.Proofs.Model.Building

/-!
# Models that are refused

The look-ups of a build go by the numbers of calls: the parameters of the method that a message
belongs to, the call that a reply answers, the call that an exception leaves. In a sound diagram all
of these calls are there.

**`buildModel_failsOnly`**: a sound diagram has a model, or it is refused for what it says.
-/

namespace Lifeline.Model

/-- The diagram is refused for what it says. -/
def Refused (e : BuildError) : Prop := ∃ r, e = .refused r

namespace Layout

variable {l : Layout} {o : Options}

theorem failsOnly_refuse {α : Type} (x : Except ModelError α) : FailsOnly Refused (refuse x) := by
  cases x with
  | ok a => exact failsOnly_ok a
  | error e => exact failsOnly_error ⟨e, rfl⟩

/-! ## Parameters -/

/-- The parameters of every method of the layout are there. -/
def Knows (l : Layout) (callees : List (Int × List String)) : Prop :=
  ∀ id ∈ l.methodIds, ∀ inputs, ∃ names, parametersOf inputs callees id = .ok names

theorem lookup_of_forall₂ {calls : List Int} {callees : List (Int × List String)}
    (h : List.Forall₂ (fun call y => y.1 = call) calls callees) {call : Int}
    (hc : call ∈ calls) : ∃ names, callees.lookup call = some names := by
  induction h with
  | nil => cases hc
  | @cons c y calls callees hy _ ih =>
    obtain ⟨id, names⟩ := y
    subst hy
    by_cases he : call = id
    · exact ⟨names, by simp [he]⟩
    · obtain ⟨names', hn⟩ := ih ((List.mem_cons.1 hc).resolve_left he)
      refine ⟨names', ?_⟩
      rw [List.lookup_cons, beq_eq_false_iff_ne.2 he]
      exact hn

theorem knows_of_mapM {callees : List (Int × List String)}
    (h : ((l.methodIds.filterMap id).mapM fun call => do
      return (call, ← l.parametersOfCall call)) = .ok callees) : l.Knows callees := by
  have hf : List.Forall₂ (fun call y => y.1 = call) (l.methodIds.filterMap id) callees := by
    refine (mapM_ok.1 h).imp fun call y hy => ?_
    simp only [bind_ok, pure_ok] at hy
    obtain ⟨names, -, rfl⟩ := hy
    rfl
  intro x hid inputs
  cases x with
  | none => exact ⟨inputs, rfl⟩
  | some call =>
    have hc : call ∈ l.methodIds.filterMap id := List.mem_filterMap.2 ⟨_, hid, rfl⟩
    obtain ⟨names, hn⟩ := lookup_of_forall₂ hf hc
    exact ⟨names, by rw [parametersOf, hn]⟩

/-! ## Interactions -/

section

variable {callees : List (Int × List String)} (hk : l.Knows callees) {c : Call} {place : Place}
  (hp : place.method ∈ l.methodIds)
include hk hp

theorem resolveArgument_failsOnly (inputs : List String) (a : Argument) :
    FailsOnly Refused (l.resolveArgument o callees inputs c place a) := by
  unfold resolveArgument
  split
  · exact failsOnly_ok _
  · dsimp only
    split
    · exact failsOnly_ok _
    · refine (failsOnly_refuse _).bind fun found _ => ?_
      split
      · exact failsOnly_ok _
      · obtain ⟨names, hn⟩ := hk _ hp inputs
        rw [hn]
        refine (failsOnly_ok names).bind fun known _ => ?_
        split
        · exact failsOnly_ok _
        · split
          · exact failsOnly_ok _
          · exact failsOnly_error ⟨_, rfl⟩

theorem resolveArguments_failsOnly : ∀ (inputs : List String) (arguments : List Argument),
    FailsOnly Refused (l.resolveArguments o callees c place inputs arguments)
  | _, [] => failsOnly_ok _
  | inputs, a :: rest => by
    rw [resolveArguments]
    refine (resolveArgument_failsOnly hk hp inputs a).bind fun first _ => ?_
    refine (resolveArguments_failsOnly _ rest).bind fun others _ => ?_
    exact failsOnly_ok _

end

theorem interactions_failsOnly {callees : List (Int × List String)} (hk : l.Knows callees) :
    ∀ {xs : List (Call × Place)} (inputs : List String),
      (∀ x ∈ xs, x.2.method ∈ l.methodIds) → FailsOnly Refused (l.interactions o callees inputs xs)
  | [], _, _ => failsOnly_ok _
  | (c, place) :: rest, inputs, hp => by
    rw [interactions]
    refine (resolveArguments_failsOnly hk (hp _ (.head _)) inputs _).bind fun resolved _ => ?_
    refine (interactions_failsOnly hk _ fun x hx => hp x (.tail _ hx)).bind fun others _ => ?_
    exact failsOnly_ok _

/-! ## Results and methods -/

/-- Every call that a reply answers is there. -/
def Answers (l : Layout) (is : List Interaction) : Prop :=
  ∀ x ∈ l.walk.replies, ∃ i, itemAt? is x.1.call = some i

section

variable {is : List Interaction} (ha : l.Answers is) (method : MethodId)
include ha

theorem impliedResults_failsOnly : FailsOnly Refused (l.impliedResults is method) := by
  refine failsOnly_foldlM fun results (r, place) hx => ?_
  dsimp only
  split
  · exact failsOnly_ok _
  · obtain ⟨i, hi⟩ := ha _ hx
    rw [hi]
    exact failsOnly_ok _

theorem latestBinding_answered {name : String} {place : Place} {call : Int}
    (h : l.latestBinding name place = some call) : ∃ i, itemAt? is call = some i := by
  rw [latestBinding, Option.map_eq_some_iff] at h
  obtain ⟨x, hx, rfl⟩ := h
  exact ha x (List.mem_filter.1 (List.mem_of_getLast? hx)).1

theorem statedResult_failsOnly (parameters : List String) (r : Result) (place : Place) :
    FailsOnly Refused (l.statedResult is parameters method r place) := by
  unfold statedResult
  dsimp only
  split
  · exact failsOnly_error ⟨_, rfl⟩
  · cases hb : l.latestBinding r.value place with
    | none => cases r.type <;> exact failsOnly_ok _
    | some call =>
      obtain ⟨i, hi⟩ := latestBinding_answered ha hb
      cases r.type with
      | some type => exact failsOnly_ok _
      | none =>
        dsimp only
        rw [hi]
        exact failsOnly_ok _

theorem results_failsOnly (alternatives : List Alternative) (parameters : List String) :
    FailsOnly Refused (l.results is alternatives parameters method) := by
  unfold results
  refine (impliedResults_failsOnly ha method).bind fun implied _ => ?_
  refine FailsOnly.bind ?_ fun all _ => failsOnly_ok _
  refine failsOnly_foldlM fun results (r, place) _ => ?_
  dsimp only
  split
  · exact failsOnly_ok _
  · exact (statedResult_failsOnly ha method parameters r place).bind fun _ _ => failsOnly_ok _

theorem method_failsOnly (alternatives : List Alternative) {id : MethodId}
    (parameters : List String) (hroot : l.walk.participants ≠ [])
    (hcall : ∀ call, id = some call → ∃ i, itemAt? is call = some i) :
    FailsOnly Refused (l.method o is alternatives id parameters) := by
  have hrest : ∀ owner name, FailsOnly Refused (do
      return Method.mk id owner name parameters (id.isNone && l.infersParameters o)
        (← l.results is alternatives parameters id)) := fun owner name =>
    (results_failsOnly ha id alternatives parameters).bind fun _ _ => failsOnly_ok _
  unfold Layout.method
  cases id with
  | none =>
    cases hps : l.walk.participants with
    | nil => exact absurd hps hroot
    | cons first rest => exact hrest _ _
  | some call =>
    obtain ⟨i, hi⟩ := hcall call rfl
    dsimp only
    rw [hi]
    exact hrest _ _

end

/-! ## Throws -/

/-- An exception leaves fewer calls than there are numbers up to that of the first one. -/
theorem propagation_failsOnly {is : List Interaction}
    (hcall : ∀ i ∈ is, ∀ p, i.method = some p → 0 ≤ p ∧ p < i.index ∧ ∃ j, itemAt? is p = some j)
    (hindex : ∀ call j, 0 ≤ call → itemAt? is call = some j → j ∈ is ∧ j.index = call) :
    ∀ (fuel : Nat) (id : MethodId),
      (∀ call, id = some call → 0 ≤ call ∧ call < fuel ∧ ∃ j, itemAt? is call = some j) →
        FailsOnly Refused (propagation is fuel id)
  | fuel, none, _ => by
    unfold propagation
    exact failsOnly_ok _
  | 0, some call, h => by
    obtain ⟨h0, hlt, -⟩ := h call rfl
    omega
  | fuel + 1, some call, h => by
    obtain ⟨h0, hlt, j, hj⟩ := h call rfl
    obtain ⟨hmem, hidx⟩ := hindex call j h0 hj
    rw [propagation, hj]
    dsimp only
    split
    · exact failsOnly_ok _
    · refine FailsOnly.bind ?_ fun _ _ => failsOnly_ok _
      refine propagation_failsOnly hcall hindex fuel j.method fun p hp => ?_
      obtain ⟨hp0, hpi, hpj⟩ := hcall j hmem p hp
      exact ⟨hp0, by omega, hpj⟩

end Layout

/-! ## The model -/

section

variable {d : Diagram} (hd : d.Sound) {w : Walk} (hf : Walk.Follows d.elements w)
include hd hf

/-- A method under test runs a call of the diagram, or it is the root method. -/
theorem Layout.call_of_methodId {call : Int} (h : some call ∈ w.layout.methodIds) :
    ∃ c ∈ d.calls, c.id = call := by
  obtain h0 | ⟨y, hy, hpar⟩ := Layout.mem_methodIds.1 h
  · cases h0
  · obtain ⟨-, c, hc, hid, -⟩ := hd.called y.1 (hf.hears.mem_calls hy) call hpar
    exact ⟨c, hc, hid⟩

theorem Layout.parametersOfCall_failsOnly {call : Int} (h : some call ∈ w.layout.methodIds) :
    FailsOnly Refused (w.layout.parametersOfCall call) := by
  obtain ⟨c, hc, hid⟩ := Layout.call_of_methodId hd hf h
  obtain ⟨y, hy, rfl⟩ := hf.hears.exists_call hc
  unfold Layout.parametersOfCall
  cases hfind : w.layout.walk.calls.find? (·.1.id == call) with
  | none =>
    have := List.find?_eq_none.1 hfind y hy
    simp [hid] at this
  | some z => exact failsOnly_ok _

section

variable {is : List Interaction}
  (his : List.Forall₂ (Layout.InteractionOf w.layout) w.calls is)
include his

theorem Layout.answers_of_interactions : w.layout.Answers is := by
  intro x hx
  obtain ⟨c, hc, hid, -⟩ := hf.hears.replyOf x hx
  obtain ⟨i, -, hi, -⟩ := Layout.itemAt?_of_call hd hf his hc
  exact ⟨i, hid ▸ hi⟩

theorem Layout.throwOf_failsOnly {x : Raise × Place} (hx : x ∈ w.raises) :
    FailsOnly Refused (w.layout.throwOf is x.1 x.2) := by
  have hlen : is.length = d.calls.length := by
    have := congrArg List.length (Layout.calls_of_interactions hf his fun _ _ h => h.index)
    simpa using this
  have hraise : .raise x.1 ∈ d.elements := List.mem_of_getElem? (hf.hears.raise.placed x hx).1
  have hcalled : ∀ {call}, (∃ c ∈ d.calls, c.id = call) →
      0 ≤ call ∧ call < is.length ∧ ∃ j, itemAt? is call = some j := by
    rintro _ ⟨c, hc, rfl⟩
    obtain ⟨j, -, hj, -⟩ := Layout.itemAt?_of_call hd hf his hc
    obtain ⟨n, hn, hcn⟩ := hd.call_id hc
    exact ⟨by omega, by omega, j, hj⟩
  have hparent : ∀ i ∈ is, ∀ p, i.method = some p →
      0 ≤ p ∧ p < i.index ∧ ∃ j, itemAt? is p = some j := by
    intro i hi p hp
    obtain ⟨y, hy, hiy⟩ := forall₂_right his i hi
    obtain ⟨hlt, c, hc, hid, -⟩ :=
      hd.called y.1 (hf.hears.mem_calls hy) p (by rw [← hiy.method, hp])
    obtain ⟨h0, -, hj⟩ := hcalled ⟨c, hc, hid⟩
    exact ⟨h0, by rw [hiy.index]; exact hlt, hj⟩
  unfold Layout.throwOf
  dsimp only
  split
  · exact failsOnly_ok _
  · refine FailsOnly.bind ?_ fun _ _ => failsOnly_ok _
    refine Layout.propagation_failsOnly hparent (fun call j h0 hj => ?_) _ _ fun call hcall => ?_
    · exact ⟨itemAt?_mem hj,
        itemAt?_numbered (Layout.numbered_of_interactions hd hf his) h0 hj⟩
    · obtain ⟨h0, hlt, hj⟩ := hcalled (hd.raised x.1 hraise call hcall)
      exact ⟨h0, by omega, hj⟩

end

theorem Layout.model_failsOnly (o : Options) : FailsOnly Refused (w.layout.model o) := by
  have hmethods : ∀ x ∈ w.calls, x.2.method ∈ w.layout.methodIds := fun x hx =>
    Layout.mem_methodIds.2 (.inr ⟨x, hx, (hf.hears.callOf x hx).symm⟩)
  unfold Layout.model
  split
  · exact failsOnly_error ⟨_, rfl⟩
  rename_i hne
  have hroot : w.participants ≠ [] := by
    intro hnil
    obtain ⟨y, hy⟩ := List.exists_mem_of_ne_nil w.calls (by simpa [Walk.layout] using hne)
    have hmem := (hf.hears.ends y.1 (hf.hears.mem_calls hy)).1
    simp [hnil] at hmem
  refine (Layout.failsOnly_refuse _).bind fun _ _ => ?_
  refine (Layout.failsOnly_refuse _).bind fun nesting _ => ?_
  refine FailsOnly.bind ?_ fun callees hcallees => ?_
  · refine failsOnly_mapM fun call hcall => ?_
    have hid : some call ∈ w.layout.methodIds := by simpa using hcall
    exact (Layout.parametersOfCall_failsOnly hd hf hid).bind fun _ _ => failsOnly_ok _
  have hk := Layout.knows_of_mapM hcallees
  refine (Layout.interactions_failsOnly hk _ hmethods).bind fun built hbuilt => ?_
  have his : List.Forall₂ (Layout.InteractionOf w.layout) w.calls built.value.1 :=
    Layout.interactions_ok hbuilt
  refine FailsOnly.bind ?_ fun methods _ => ?_
  · refine failsOnly_mapM fun id hid => ?_
    obtain ⟨names, hn⟩ := hk id hid built.value.2
    rw [hn]
    refine (failsOnly_ok names).bind fun parameters _ => ?_
    refine Layout.method_failsOnly (Layout.answers_of_interactions hd hf his) _ _ hroot ?_
    rintro call rfl
    obtain ⟨c, hc, rfl⟩ := Layout.call_of_methodId hd hf hid
    obtain ⟨i, -, hi, -⟩ := Layout.itemAt?_of_call hd hf his hc
    exact ⟨i, hi⟩
  · refine FailsOnly.bind ?_ fun throws _ => failsOnly_ok _
    exact failsOnly_mapM fun x hx => Layout.throwOf_failsOnly hd hf his hx

end

/-- **A sound diagram** has a model, or it is refused for what it says. -/
theorem buildModel_failsOnly {d : Diagram} (hd : d.Sound) (o : Options) :
    FailsOnly Refused (d.buildModel o) := by
  obtain ⟨w, hw, hf⟩ := Walk.exists_run hd
  rw [Diagram.buildModel, hw]
  exact Layout.model_failsOnly hd hf o

end Lifeline.Model
