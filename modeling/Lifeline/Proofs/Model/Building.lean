import Lifeline.Proofs.Model.Resolving
import Lifeline.Proofs.Sorting

/-!
# Models that were built

**`Model.sound_of_build`**: the model of a sound diagram is sound. The walk gives the places
(`Walk.follows_of_run`) and the layout the scopes (`Walk.scopeAt`); here are the parts that are made
from them: interactions (`Layout.InteractionOf`) with the values of their arguments
(`Layout.Binds`), results (`Results.Kept`), methods and throws.

Beside what `Model.Sound` says, the positions around which a block lies are an interval
(`Timeline.Unbroken`), and the throws stand at different positions, in order (`Model.Linear`,
`linear_of_build`).
-/

namespace Lifeline.Model

namespace Layout

variable {l : Layout} {o : Options}

/-! ## Arguments -/

/-- Where the argument has a value from a reply, that reply can be seen from the place and binds
the name of the argument. -/
def Binds (l : Layout) (place : Place) (a : ArgumentRef) : Prop :=
  ∀ p v, a.source = .reply p v → v = valueId (Name.root a.name) p ∧
    ∃ y ∈ l.bindingsOf (Name.root a.name) place, y.1.call = p

variable {callees : List (Int × List String)}

theorem Resolves.binds {inputs : List String} {place : Place} {a : Argument} {ref : ArgumentRef}
    (hn : ref.name = a.name) (h : l.Resolves callees inputs place a ref.source) :
    l.Binds place ref := by
  intro p v hs
  rw [hs] at h
  cases h with
  | reply x _ _ hx =>
    rw [hn]
    exact ⟨rfl, x, List.mem_of_getLast? hx, rfl⟩

theorem binds_of_arguments {c : Call} {place : Place} {args : List Argument}
    {inputs : List String} {out : Noted (List ArgumentRef × List String)}
    (h : l.resolveArguments o callees c place inputs args = .ok out) :
    ∀ a ∈ out.value.1, l.Binds place a := by
  intro ref href
  obtain ⟨a, -, hname, hr⟩ := forall₂_right (resolves_of_arguments h).1 ref href
  exact hr.binds hname

/-! ## Interactions -/

/-- The interaction of a call. -/
structure InteractionOf (l : Layout) (x : Call × Place) (i : Interaction) :
    Prop where
  index : i.index = x.1.id
  position : i.position = x.2.position
  method : i.method = x.1.parent
  source : i.source = x.1.source
  target : i.target = x.1.target
  scope : i.scope = l.scopeIn x.2.enclosing x.1.parent
  reply : i.reply = l.bindingOfCall x.1.id
  arguments : ∀ a ∈ i.arguments, l.Binds x.2 a

theorem interactions_ok :
    ∀ {xs : List (Call × Place)} {inputs : List String}
      {out : Noted (List Interaction × List String)},
      l.interactions o callees inputs xs = .ok out →
        List.Forall₂ (InteractionOf l) xs out.value.1
  | [], _, _, h => by
    obtain rfl := Except.ok.inj h
    exact .nil
  | (c, place) :: rest, inputs, out, h => by
    simp only [interactions, bind_ok, pure_ok] at h
    obtain ⟨resolved, hresolved, others, ho, rfl⟩ := h
    exact .cons ⟨rfl, rfl, rfl, rfl, rfl, rfl, rfl, binds_of_arguments hresolved⟩
      (interactions_ok ho)

theorem bindingOfCall_some {call : Int} {b : Binding} (h : l.bindingOfCall call = some b) :
    b.valueId = valueId b.value call := by
  obtain ⟨y, -, rfl⟩ := Option.map_eq_some_iff.1 h
  rfl

theorem mem_pipesOf {is : List Interaction} {q : Pipe} : q ∈ pipesOf is ↔ ∃ i ∈ is,
    ∃ a ∈ i.arguments, a.source = .reply q.producer q.valueId ∧ i.index = q.consumer ∧
      a.name = q.argument := by
  unfold pipesOf
  rw [List.mem_flatMap]
  refine exists_congr fun i => and_congr_right fun _ => ?_
  rw [List.mem_filterMap]
  refine exists_congr fun a => and_congr_right fun _ => ?_
  cases a.source with
  | reply p v =>
    obtain ⟨producer, consumer, argument, v'⟩ := q
    simp only [Option.some.injEq, Pipe.mk.injEq, ArgumentSource.reply.injEq]
    tauto
  | _ => simp

/-! ## Results -/

/-- A result that a message of the method gives at a place. -/
def Given (l : Layout) (method : MethodId) (r : MethodResult) : Prop :=
  ∃ place : Place, ((∃ x, (x, place) ∈ l.walk.replies) ∨ ∃ x, (x, place) ∈ l.walk.results) ∧
    place.method = method ∧ r.position = place.position ∧
    r.scope = l.scopeIn place.enclosing method

/-- Results that are kept by their paths. -/
structure Kept (l : Layout) (method : MethodId) (rs : Results) : Prop where
  distinct : (rs.map (·.1)).Nodup
  path : ∀ x ∈ rs, x.1 = x.2.scope.path
  given : ∀ x ∈ rs, l.Given method x.2

variable {method : MethodId}

theorem kept_nil : l.Kept method [] := ⟨.nil, by simp, by simp⟩

theorem Kept.sublist {rs rs' : Results} (h : l.Kept method rs) (hs : rs'.Sublist rs) :
    l.Kept method rs' :=
  ⟨h.distinct.sublist (hs.map _), fun x hx => h.path x (hs.subset hx),
    fun x hx => h.given x (hs.subset hx)⟩

theorem Kept.put {rs : Results} (h : l.Kept method rs) {r : MethodResult}
    (hr : l.Given method r) : l.Kept method (putResult rs r) := by
  have hf := h.sublist (List.filter_sublist (p := fun x => x.1 != r.scope.path))
  unfold putResult
  refine ⟨?_, fun x hx => ?_, fun x hx => ?_⟩
  · rw [List.map_append, List.nodup_append]
    refine ⟨hf.distinct, List.nodup_singleton _, fun a ha b hb => ?_⟩
    obtain ⟨x, hx, rfl⟩ := List.mem_map.1 ha
    rw [List.mem_singleton.1 hb]
    simpa using (List.mem_filter.1 hx).2
  · rcases List.mem_append.1 hx with hx | hx
    · exact hf.path x hx
    · rw [List.mem_singleton.1 hx]
  · rcases List.mem_append.1 hx with hx | hx
    · exact hf.given x hx
    · rw [List.mem_singleton.1 hx]
      exact hr

theorem impliedResults_kept {interactions : List Interaction} {rs : Results}
    (h : l.impliedResults interactions method = .ok rs) : l.Kept method rs := by
  refine foldlM_inv (l.Kept method) h (fun rs' (r, place) hx hk rs'' hs => ?_) kept_nil
  dsimp only at hs
  split at hs
  · exact (Except.ok.inj hs) ▸ hk
  · rename_i hm
    split at hs
    · cases hs
    · obtain rfl := Except.ok.inj hs
      exact hk.put ⟨place, .inl ⟨r, hx⟩, by simpa using hm, rfl, rfl⟩

theorem statedResult_given {interactions : List Interaction} {parameters : List String}
    {r : Result} {place : Place} {out : MethodResult} (hx : (r, place) ∈ l.walk.results)
    (hm : place.method = method)
    (h : l.statedResult interactions parameters method r place = .ok out) :
    l.Given method out := by
  suffices ho : out.position = place.position ∧ out.scope = l.scopeIn place.enclosing method from
    ⟨place, .inr ⟨r, hx⟩, hm, ho⟩
  unfold statedResult at h
  dsimp only at h
  split at h
  · simp at h
  · split at h
    · exact (Except.ok.inj h) ▸ ⟨rfl, rfl⟩
    · exact (Except.ok.inj h) ▸ ⟨rfl, rfl⟩
    · split at h
      · cases h
      · exact (Except.ok.inj h) ▸ ⟨rfl, rfl⟩

/-- The results of a method have different paths, and messages of the method give them. -/
theorem results_ok {interactions : List Interaction} {alternatives : List Alternative}
    {parameters : List String} {rs : List MethodResult}
    (h : l.results interactions alternatives parameters method = .ok rs) :
    (rs.map (·.scope.path)).Nodup ∧ ∀ r ∈ rs, l.Given method r := by
  simp only [results, bind_ok, pure_ok] at h
  obtain ⟨implied, hi, all, ha, rfl⟩ := h
  have hk : l.Kept method all := by
    refine foldlM_inv (l.Kept method) ha (fun rs' x hx hk rs'' hs => ?_)
      ((impliedResults_kept hi).sublist List.filter_sublist)
    obtain ⟨r, place⟩ := x
    dsimp only at hs
    split at hs
    · exact (Except.ok.inj hs) ▸ hk
    · rename_i hm
      simp only [bind_ok, pure_ok] at hs
      obtain ⟨stated, hst, rfl⟩ := hs
      exact hk.put (statedResult_given hx (by simpa using hm) hst)
  refine ⟨?_, fun r hr => ?_⟩
  · have hp : (sortBy (fun a b => decide (a.position ≤ b.position)) (all.map (·.2))).map
        (·.scope.path) |>.Perm (all.map (·.1)) := by
      refine ((sortBy_perm _).map _).trans ?_
      rw [List.map_map]
      exact .of_eq (List.map_congr_left fun x hx => (hk.path x hx).symm)
    exact hp.nodup_iff.2 hk.distinct
  · obtain ⟨x, hx, rfl⟩ := List.mem_map.1 (mem_sortBy.1 hr)
    exact hk.given x hx

/-! ## Methods and throws -/

/-- The methods under test: the root method, and each call that makes calls. -/
theorem mem_methodIds {id : MethodId} :
    id ∈ l.methodIds ↔ id = none ∨ ∃ x ∈ l.walk.calls, x.1.parent = id := by
  simp only [methodIds, List.mem_cons, List.mem_map, mem_sortBy, List.mem_eraseDups,
    List.mem_filterMap]
  constructor
  · rintro (rfl | ⟨p, ⟨x, hx, hp⟩, rfl⟩)
    · exact .inl rfl
    · exact .inr ⟨x, hx, hp⟩
  · rintro (rfl | ⟨x, hx, rfl⟩)
    · exact .inl rfl
    · cases hp : x.1.parent with
      | none => exact .inl rfl
      | some p => exact .inr ⟨p, ⟨x, hx, hp⟩, rfl⟩

theorem nodup_methodIds (l : Layout) : l.methodIds.Nodup := by
  refine List.nodup_cons.2 ⟨by simp, ?_⟩
  exact (nodup_sortBy.2 (nodup_eraseDups _)).map fun _ _ => Option.some.inj

/-- What is known of a method under test. -/
structure MethodOf (l : Layout) (interactions : List Interaction) (id : MethodId) (x : Method) :
    Prop where
  call : x.call = id
  root : id = none → l.walk.participants.head? = some x.owner
  callee : ∀ call, id = some call → ∃ i, itemAt? interactions call = some i ∧ x.owner = i.target
  paths : (x.results.map (·.scope.path)).Nodup
  given : ∀ r ∈ x.results, l.Given id r

theorem method_ok {interactions : List Interaction} {alternatives : List Alternative}
    {id : MethodId} {parameters : List String} {x : Method}
    (h : l.method o interactions alternatives id parameters = .ok x) :
    MethodOf l interactions id x := by
  cases id with
  | none =>
    rw [Layout.method] at h
    dsimp only at h
    split at h
    · rename_i first hfirst
      simp only [bind_ok, pure_ok, Except.ok.injEq, exists_eq_left'] at h
      obtain ⟨rs, hrs, rfl⟩ := h
      obtain ⟨hp, hg⟩ := results_ok hrs
      exact ⟨rfl, fun _ => hfirst, by simp, hp, hg⟩
    · simp at h
  | some call =>
    rw [Layout.method] at h
    dsimp only at h
    split at h
    · rename_i i hi
      simp only [bind_ok, pure_ok, Except.ok.injEq, exists_eq_left'] at h
      obtain ⟨rs, hrs, rfl⟩ := h
      obtain ⟨hp, hg⟩ := results_ok hrs
      refine ⟨rfl, by simp, fun c hc => ?_, hp, hg⟩
      obtain rfl := Option.some.inj hc
      exact ⟨i, hi, rfl⟩
    · simp at h

/-- An exception passes through calls that were made. -/
theorem propagation_ok {interactions : List Interaction}
    (hn : interactions.map (·.index) = (List.range interactions.length).map Int.ofNat)
    (hp : ∀ i ∈ interactions, ∀ p, i.method = some p → 0 ≤ p) :
    ∀ {fuel : Nat} {id : MethodId} {out : List Int}, (∀ p, id = some p → 0 ≤ p) →
      propagation interactions fuel id = .ok out →
        ∀ call ∈ out, ∃ i ∈ interactions, i.index = call
  | _, none, out, _, h => by
    obtain rfl : [] = out := by cases ‹Nat› <;> exact Except.ok.inj h
    simp
  | 0, some _, _, _, h => by cases h
  | fuel + 1, some call, out, h0, h => by
    rw [propagation] at h
    split at h
    · cases h
    · rename_i i hi
      have hmem := itemAt?_mem hi
      have hcall : i.index = call := itemAt?_numbered hn (h0 _ rfl) hi
      dsimp only at h
      split at h
      · simp only [bind_ok, pure_ok, Except.ok.injEq, exists_eq_left'] at h
        rw [← h]
        simpa using ⟨i, hmem, hcall⟩
      · simp only [bind_ok, pure_ok] at h
        obtain ⟨further, hf, rfl⟩ := h
        intro c hc
        rcases List.mem_cons.1 hc with rfl | hc
        · exact ⟨i, hmem, hcall⟩
        · exact propagation_ok hn hp (hp i hmem) hf c hc

/-- What is known of a throw. -/
structure ThrowOf (l : Layout) (x : Raise × Place) (t : Throw) : Prop where
  participant : t.participant = x.1.participant
  exception : t.exception = x.1.exception
  message : t.message = x.1.message
  method : t.method = x.1.parent
  position : t.position = x.2.position
  scope : t.scope = l.scopeIn x.2.enclosing x.1.parent

theorem throwOf_ok {interactions : List Interaction} {x : Raise × Place} {t : Throw}
    (h : l.throwOf interactions x.1 x.2 = .ok t) : ThrowOf l x t ∧
      (t.through = [] ∨
        propagation interactions (interactions.length + 1) x.1.parent = .ok t.through) := by
  unfold throwOf at h
  dsimp only at h
  split at h
  · simp only [bind_ok, pure_ok, Except.ok.injEq, exists_eq_left'] at h
    rw [← h]
    exact ⟨⟨rfl, rfl, rfl, rfl, rfl, rfl⟩, .inl rfl⟩
  · simp only [bind_ok, pure_ok] at h
    obtain ⟨through, hp, rfl⟩ := h
    exact ⟨⟨rfl, rfl, rfl, rfl, rfl, rfl⟩, .inr hp⟩

end Layout

namespace Walk

/-! ## The timeline -/

/-- The method that sends the reply or the result at a position. -/
def sender (w : Walk) (n : Nat) : MethodId :=
  ((w.replies.map (·.2) ++ w.results.map (·.2)).find? (·.position == n)).bind (·.method)

/-- What happens at a position of a walk over the elements `es`. -/
def happens (es : List Element) (w : Walk) (n : Nat) : Option Happening :=
  match es[n]? with
  | some (.call _) => some .call
  | some (.raise _) => some .throw
  | some (.alt ..) | some (.orElse ..) => some .branch
  | some (.reply _) | some (.result _) => some (.value (w.sender n))
  | _ => none

/-- The timeline of a walk. -/
def timeline (es : List Element) (w : Walk) : Timeline where
  happens := happens es w
  scopeAt := scopeAt es w

variable {es : List Element} {w : Walk} (h : Follows es w)
include h

theorem Follows.sender_eq {place : Place}
    (hp : (∃ x, (x, place) ∈ w.replies) ∨ ∃ x, (x, place) ∈ w.results) :
    w.sender place.position = place.method ∧ ((∃ x, Placed es place (.reply x)) ∨
      ∃ x, Placed es place (.result x)) := by
  have hreply := h.hears.reply
  have hresult := h.hears.result
  have hn : ((w.replies.map (·.2) ++ w.results.map (·.2)).map (·.position)).Nodup := by
    rw [List.map_append, List.map_map, List.map_map, List.nodup_append]
    refine ⟨List.Pairwise.map _ (fun _ _ hlt => Nat.ne_of_lt hlt) hreply.ordered,
      List.Pairwise.map _ (fun _ _ hlt => Nat.ne_of_lt hlt) hresult.ordered,
      fun a ha b hb hab => ?_⟩
    obtain ⟨x, hx, rfl⟩ := List.mem_map.1 ha
    obtain ⟨y, hy, rfl⟩ := List.mem_map.1 hb
    have hx' := (hreply.placed x hx).1
    have hy' := (hresult.placed y hy).1
    simp only [Function.comp_apply] at hab
    rw [hab, hy'] at hx'
    cases hx'
  have hmem : place ∈ w.replies.map (·.2) ++ w.results.map (·.2) := by
    rcases hp with ⟨x, hx⟩ | ⟨x, hx⟩
    · exact List.mem_append_left _ (List.mem_map.2 ⟨_, hx, rfl⟩)
    · exact List.mem_append_right _ (List.mem_map.2 ⟨_, hx, rfl⟩)
  refine ⟨by rw [sender, find?_key hn hmem]; rfl, ?_⟩
  rcases hp with ⟨x, hx⟩ | ⟨x, hx⟩
  · exact .inl ⟨x, hreply.placed _ hx⟩
  · exact .inr ⟨x, hresult.placed _ hx⟩

/-- A result that a message gives has its scope from the timeline. -/
theorem Follows.given {method : MethodId} {r : MethodResult} (hg : w.layout.Given method r) :
    happens es w r.position = some (.value method) ∧ r.scope = scopeAt es w r.position method := by
  obtain ⟨place, hp, hm, hpos, hs⟩ := hg
  obtain ⟨hsend, hplaced⟩ := h.sender_eq hp
  rw [hpos, hs]
  rcases hplaced with ⟨x, hx⟩ | ⟨x, hx⟩
  · exact ⟨by simp [happens, hx.1, hsend, hm], h.tracks.scopeIn_eq hx.2 method⟩
  · exact ⟨by simp [happens, hx.1, hsend, hm], h.tracks.scopeIn_eq hx.2 method⟩

end Walk

/-! ## The model -/

/-- The parts of a model, as the layout makes them. -/
structure Layout.Makes (l : Layout) (m : Model) : Prop where
  nonempty : l.walk.calls ≠ []
  participants : m.participants =
    l.walk.participants.zipIdx.map fun x => { name := x.1, ordinal := x.2 }
  interactions : List.Forall₂ (Layout.InteractionOf l) l.walk.calls m.interactions
  alternatives : m.alternatives = l.alternatives
  loops : m.loops = l.loops
  pipes : m.pipes = Layout.pipesOf m.interactions
  methods : List.Forall₂ (Layout.MethodOf l m.interactions) l.methodIds m.methods
  throws : List.Forall₂ (fun x t => l.throwOf m.interactions x.1 x.2 = .ok t)
    l.walk.raises m.throws

theorem Layout.makes {l : Layout} {o : Options} {m : Model} (h : l.model o = .ok m) :
    l.Makes m := by
  unfold Layout.model at h
  split at h
  · simp at h
  · rename_i hne
    simp only [bind_ok, pure_ok, refuse_ok] at h
    obtain ⟨-, -, nesting, -, callees, -, built, hb, methods, hms, throws, hts, rfl⟩ := h
    refine ⟨by simpa using hne, rfl, interactions_ok hb, rfl, rfl, rfl, ?_, mapM_ok.1 hts⟩
    refine (mapM_ok.1 hms).imp fun id x hx => ?_
    obtain ⟨parameters, -, hx⟩ := bind_ok.1 hx
    exact method_ok hx

/-- A layout that becomes a model passed the checks before it. -/
theorem Layout.passed_of_model {l : Layout} {o : Options} {m : Model} (h : l.model o = .ok m) :
    l.callGraph.findCycle = none ∧ ∃ ws, l.checkNesting o = .ok ws := by
  unfold Layout.model at h
  split at h
  · simp at h
  · simp only [bind_ok, refuse_ok] at h
    obtain ⟨_, hcycles, nesting, hnesting, -⟩ := h
    refine ⟨?_, nesting, hnesting⟩
    unfold Layout.checkCycles at hcycles
    split at hcycles
    · cases hcycles
    · assumption

section

variable {d : Diagram} (hd : d.Sound) {w : Walk} (hf : Walk.Follows d.elements w) {m : Model}
  (hm : w.layout.Makes m)

include hm in
theorem Layout.Makes.participant {name : String} (hn : name ∈ w.participants) :
    ∃ p ∈ m.participants, p.name = name := by
  obtain ⟨i, hi⟩ := List.getElem?_of_mem hn
  rw [hm.participants]
  exact ⟨⟨name, i⟩, List.mem_map.2 ⟨(name, i), List.mk_mem_zipIdx_iff_getElem?.2 hi, rfl⟩, rfl⟩

section

variable {is : List Interaction}
  (his : List.Forall₂ (Layout.InteractionOf w.layout) w.calls is)
include hf his

/-- The interactions are those of the calls, in order. -/
theorem Layout.calls_of_interactions {κ : Type} {f : Interaction → κ} {g : Call → κ}
    (hfg : ∀ x i, Layout.InteractionOf w.layout x i → f i = g x.1) : is.map f = d.calls.map g := by
  have hc : w.calls.map (·.1) = d.calls := hf.hears.calls
  rw [← hc, List.map_map]
  exact (forall₂_map his fun x i h => (hfg x i h).symm).symm

include hd

theorem Layout.numbered_of_interactions :
    is.map (·.index) = (List.range is.length).map Int.ofNat := by
  have hlen := congrArg List.length (Layout.calls_of_interactions hf his fun _ _ h => h.index)
  rw [List.length_map, List.length_map] at hlen
  rw [Layout.calls_of_interactions hf his (g := (·.id)) fun _ _ h => h.index, hd.numbered, hlen]

/-- The interaction of a call stands at the number of the call. -/
theorem Layout.itemAt?_of_call {c : Call} (hc : c ∈ d.calls) :
    ∃ i ∈ is, itemAt? is c.id = some i ∧ i.index = c.id ∧ i.method = c.parent := by
  obtain ⟨y, hy, rfl⟩ := hf.hears.exists_call hc
  obtain ⟨i, hi, hiy⟩ := forall₂_left his y hy
  have hat := (itemAt?_of_numbered (Layout.numbered_of_interactions hd hf his) hi).2
  rw [hiy.index] at hat
  exact ⟨i, hi, hat, hiy.index, hiy.method⟩

end

include hf hm in
theorem Layout.Makes.calls {κ : Type} {f : Interaction → κ} {g : Call → κ}
    (hfg : ∀ x i, Layout.InteractionOf w.layout x i → f i = g x.1) :
    m.interactions.map f = d.calls.map g :=
  Layout.calls_of_interactions hf hm.interactions hfg

include hd hf hm in
theorem Layout.Makes.numbered :
    m.interactions.map (·.index) = (List.range m.interactions.length).map Int.ofNat :=
  Layout.numbered_of_interactions hd hf hm.interactions

include hd hf hm in
/-- What is called in the activation of a call is called by its target. -/
theorem Layout.Makes.activation {i : Interaction} (hi : i ∈ m.interactions) {p : Int}
    (hp : i.method = some p) : 0 ≤ p ∧ ∃ j ∈ m.interactions, j.index = p ∧ j.target = i.source := by
  have hcalls : m.interactions.map (fun i => (i.index, i.method, i.source, i.target)) =
      d.calls.map fun c => (c.id, c.parent, c.source, c.target) :=
    hm.calls hf fun _ _ h => by rw [h.index, h.method, h.source, h.target]
  have hi' := List.mem_map_of_mem (f := fun i : Interaction =>
    (i.index, i.method, i.source, i.target)) hi
  rw [hcalls] at hi'
  obtain ⟨c, hc, he⟩ := List.mem_map.1 hi'
  simp only [Prod.mk.injEq] at he
  obtain ⟨-, c', hc', hid, ht⟩ := hd.called c hc p (by rw [he.2.1, hp])
  have hc'' := List.mem_map_of_mem (f := fun c : Call => (c.id, c.parent, c.source, c.target)) hc'
  rw [← hcalls] at hc''
  obtain ⟨j, hj, hje⟩ := List.mem_map.1 hc''
  simp only [Prod.mk.injEq] at hje
  obtain ⟨n, -, hn⟩ := hd.call_id hc'
  exact ⟨by omega, j, hj, by omega, by rw [hje.2.2.2, ht, he.2.2.1]⟩

include hd hf hm in
theorem Layout.Makes.owned {x : Method} (hx : x ∈ m.methods) :
    ∃ p ∈ m.participants, p.name = x.owner ∧
      (p.underTest = true ∨ ∃ i ∈ m.interactions, i.source = p.name) := by
  obtain ⟨id, hid, hx⟩ := forall₂_right hm.methods x hx
  have hends : ∀ y ∈ w.calls, y.1.source ∈ w.participants := fun y hy =>
    (hf.hears.ends y.1 (hf.hears.mem_calls hy)).1
  cases id with
  | none =>
    obtain ⟨y, hy⟩ := List.exists_mem_of_ne_nil _ hm.nonempty
    cases hps : w.participants with
    | nil => exact absurd (hends y hy) (by simp [hps])
    | cons name rest =>
      have ho : x.owner = name := by
        have hroot := hx.root rfl
        rw [show w.layout.walk.participants = name :: rest from hps] at hroot
        exact (Option.some.inj hroot).symm
      refine ⟨⟨name, 0⟩, ?_, ho.symm, .inl rfl⟩
      rw [hm.participants, show w.layout.walk.participants = name :: rest from hps]
      simp
  | some call =>
    obtain ⟨i, hi, ho⟩ := hx.callee call rfl
    obtain h0 | ⟨y, hy, hpar⟩ := Layout.mem_methodIds.1 hid
    · cases h0
    obtain ⟨k, hk, hky⟩ := forall₂_left hm.interactions y hy
    obtain ⟨h0, j, hj, hjp, hjt⟩ := hm.activation hd hf hk (hky.method.trans hpar)
    have hij : i = j := by
      have := (itemAt?_of_numbered (hm.numbered hd hf) hj).2
      rw [hjp] at this
      exact Option.some.inj (hi.symm.trans this)
    obtain ⟨p, hp, hpn⟩ := hm.participant (hends y hy)
    have hps : p.name = k.source := by rw [hpn, hky.source]
    exact ⟨p, hp, by rw [hps, ho, hij, hjt], .inr ⟨k, hk, hps.symm⟩⟩

include hd hf hm in
/-- An argument has its value from the reply to a call of the same method. -/
theorem Layout.Makes.replied {i : Interaction} (hi : i ∈ m.interactions) {a : ArgumentRef}
    (ha : a ∈ i.arguments) {p : Int} {v : String} (hs : a.source = .reply p v) :
    ∃ j ∈ m.interactions, j.index = p ∧ j.method = i.method ∧ ∃ b, j.reply = some b ∧
      b.valueId = v := by
  obtain ⟨x, hx, hix⟩ := forall₂_right hm.interactions i hi
  obtain ⟨rfl, y, hy, rfl⟩ := hix.arguments a ha p v hs
  obtain ⟨hy, hseen⟩ := List.mem_filter.1 hy
  simp only [Bool.and_eq_true, beq_iff_eq] at hseen
  obtain ⟨⟨⟨hvalue, hmethod⟩, -⟩, -⟩ := hseen
  obtain ⟨c, hc, hid, hparent⟩ := hf.hears.replyOf y hy
  obtain ⟨j, hj, -, hindex, hjm⟩ := Layout.itemAt?_of_call hd hf hm.interactions hc
  obtain ⟨z, hz, hjz⟩ := forall₂_right hm.interactions j hj
  have hanswer : w.layout.walk.replies.find? (·.1.call == z.1.id) = some y := by
    rw [← hjz.index, hindex, hid]
    exact find?_key hf.hears.replyOnce hy
  refine ⟨j, hj, hindex.trans hid, ?_, ?_⟩
  · rw [hjm, hparent, hmethod, hf.hears.callOf x hx, hix.method]
  · rw [hjz.reply, Layout.bindingOfCall, hanswer, ← hjz.index, hindex, hid]
    exact ⟨_, rfl, by simp [hvalue]⟩

include hf hm in
theorem Layout.Makes.fits : (Walk.timeline d.elements w).Fits m where
  between := hf.tracks.between
  sorted n μ := (framesAt_sorted d.elements n).sublist List.filter_sublist
  turns hij hf hg hb := framesAt_turns hij (List.filter_subset_self _ hf)
    (List.filter_subset_self _ hg) hb
  alt hs hk := by
    rw [hm.alternatives]
    exact hf.tracks.alt_scope hs hk
  loop hs hk := by
    rw [hm.loops]
    exact hf.tracks.loop_scope hs hk
  interaction i hi := by
    obtain ⟨x, hx, h⟩ := forall₂_right hm.interactions i hi
    have hp := hf.hears.call.placed x hx
    rw [h.position, h.scope, h.method]
    exact ⟨by simp [Walk.timeline, Walk.happens, hp.1], hf.tracks.scopeIn_eq hp.2 _⟩
  result x hx r hr := by
    obtain ⟨id, -, h⟩ := forall₂_right hm.methods x hx
    rw [h.call]
    exact hf.given (h.given r hr)
  throw t ht := by
    obtain ⟨x, hx, h⟩ := forall₂_right hm.throws t ht
    obtain ⟨h, -⟩ := Layout.throwOf_ok h
    have hp := hf.hears.raise.placed x hx
    rw [h.position, h.scope, h.method]
    exact ⟨by simp [Walk.timeline, Walk.happens, hp.1], hf.tracks.scopeIn_eq hp.2 _⟩
  branch b hb := by
    rw [hm.alternatives] at hb
    obtain ⟨hs, -, hbr⟩ := hf.tracks.alternative hb
    refine ⟨hs, fun br hm => ?_⟩
    obtain ⟨hle, ⟨line, hline⟩, hscope⟩ := hbr br hm
    refine ⟨?_, hle, hscope⟩
    rcases hline with hl | hl <;> simp [Walk.timeline, Walk.happens, hl]

include hd hf hm in
theorem Layout.Makes.sound : m.Sound where
  timeline := ⟨_, hm.fits hf⟩
  numbered := hm.numbered hd hf
  ordered := by
    have hp : m.interactions.map (·.position) = w.calls.map (·.2.position) :=
      (forall₂_map hm.interactions fun _ _ h => h.position.symm).symm
    have ho : (w.calls.map (·.2.position)).Pairwise (· < ·) :=
      List.pairwise_map.2 hf.hears.call.ordered
    rw [← hp] at ho
    exact List.pairwise_map.1 ho
  methods := by
    have hc : m.methods.map (·.call) = w.layout.methodIds.map id :=
      (forall₂_map hm.methods fun _ _ h => h.call.symm).symm
    rw [hc, List.map_id]
    exact w.layout.nodup_methodIds
  root := by
    obtain ⟨x, hx, h⟩ := forall₂_left hm.methods none (Layout.mem_methodIds.2 (.inl rfl))
    exact ⟨x, hx, h.call⟩
  called i hi := by
    obtain ⟨x, hx, h⟩ := forall₂_right hm.interactions i hi
    have hid : x.1.parent ∈ w.layout.methodIds := Layout.mem_methodIds.2 (.inr ⟨x, hx, rfl⟩)
    obtain ⟨y, hy, hyx⟩ := forall₂_left hm.methods _ hid
    exact ⟨y, hy, hyx.call.trans h.method.symm⟩
  owned x hx := hm.owned hd hf hx
  participants := by
    rw [hm.participants, List.map_map]
    have hn : (w.participants.zipIdx.map Prod.fst).Nodup := by
      rw [List.zipIdx_map_fst]
      exact hf.hears.distinct
    exact hn
  targets i hi := by
    obtain ⟨x, hx, h⟩ := forall₂_right hm.interactions i hi
    rw [h.target]
    exact hm.participant (hf.hears.ends x.1 (hf.hears.mem_calls hx)).2
  replied i hi a ha p v hs := hm.replied hd hf hi ha hs
  valued i hi b hb := by
    obtain ⟨x, -, h⟩ := forall₂_right hm.interactions i hi
    rw [h.reply] at hb
    rw [h.index]
    exact Layout.bindingOfCall_some hb
  pipes q := by
    rw [hm.pipes]
    exact Layout.mem_pipesOf
  ascending := by
    rw [hm.alternatives]
    exact w.layout.pairwise_alternatives
  loops := by
    rw [hm.loops]
    exact w.layout.nodup_loops
  kinds b hb l hl := by
    rw [hm.alternatives] at hb
    rw [hm.loops] at hl
    exact Layout.alternative_ne_loop hb hl
  branches b hb := by
    rw [hm.alternatives] at hb
    exact (hf.tracks.alternative hb).2.1
  paths x hx := by
    obtain ⟨id, -, h⟩ := forall₂_right hm.methods x hx
    exact h.paths
  through t ht := by
    obtain ⟨x, hx, h⟩ := forall₂_right hm.throws t ht
    obtain ⟨-, hnil | hp⟩ := Layout.throwOf_ok h
    · simp [hnil]
    · refine Layout.propagation_ok (hm.numbered hd hf)
        (fun i hi p hp => (hm.activation hd hf hi hp).1) (fun p hp => ?_) hp
      have hraise : .raise x.1 ∈ d.elements :=
        List.mem_of_getElem? (hf.hears.raise.placed x hx).1
      obtain ⟨c, hc, rfl⟩ := hd.raised x.1 hraise p hp
      obtain ⟨n, -, hn⟩ := hd.call_id hc
      omega

end

/-- **The model of a sound diagram** is sound. -/
theorem sound_of_build {d : Diagram} (hd : d.Sound) {o : Options} {m : Model}
    (h : d.buildModel o = .ok m) : m.Sound := by
  rw [Diagram.buildModel, bind_ok] at h
  obtain ⟨w, hw, h⟩ := h
  exact (Layout.makes h).sound hd (Walk.follows_of_run hd hw)

/-! ## Blocks and throws along a diagram -/

/-- A block of a method around two positions is around every position between them. -/
def Timeline.Unbroken (tl : Timeline) : Prop :=
  ∀ ⦃μ i j k f g⦄, i ≤ j → j ≤ k → f ∈ tl.scopeAt i μ → g ∈ tl.scopeAt k μ → f.block = g.block →
    ∃ f' ∈ tl.scopeAt j μ, f'.block = f.block

/-- The blocks of a model are unbroken, and its throws come in the order of their positions. -/
structure Linear (m : Model) : Prop where
  timeline : ∃ tl : Timeline, tl.Fits m ∧ tl.Unbroken
  throws : m.throws.Pairwise fun t t' => t.position < t'.position

theorem Walk.unbroken_timeline (es : List Element) (w : Walk) : (Walk.timeline es w).Unbroken := by
  intro μ i j k f g hij hjk hf hg hb
  obtain ⟨hf, hown⟩ := List.mem_filter.1 hf
  obtain ⟨f', hf', he⟩ := framesAt_unbroken hij hjk hf (List.mem_filter.1 hg).1 hb
  exact ⟨f', List.mem_filter.2 ⟨hf', by rwa [he]⟩, he⟩

theorem linear_of_build {d : Diagram} (hd : d.Sound) {o : Options} {m : Model}
    (h : d.buildModel o = .ok m) : m.Linear := by
  rw [Diagram.buildModel, bind_ok] at h
  obtain ⟨w, hw, h⟩ := h
  have hf := Walk.follows_of_run hd hw
  have hm := Layout.makes h
  refine ⟨⟨_, hm.fits hf, Walk.unbroken_timeline _ _⟩, ?_⟩
  refine forall₂_pairwise hm.throws hf.hears.raise.ordered fun x x' t t' hlt ht ht' => ?_
  rw [(Layout.throwOf_ok ht).1.position, (Layout.throwOf_ok ht').1.position]
  exact hlt

end Lifeline.Model
