import Lifeline.Model.Basic
import Mathlib.Data.List.Infix
import Mathlib.Data.List.Nodup
import Std.Data.String.ToNat

/-!
# Sound models

What the parts of a model agree on, whatever diagram it was built from. A `Timeline` says what
happens at each position and which blocks of a method are around it; a model that fits one has its
scopes from there (`Timeline.Fits`). `Model.Sound` adds the numbers of calls and blocks, the methods
with their owners, the participants, and the replies that the values of arguments come from.
-/

namespace Lifeline.Model

/-! ## Items by their number -/

theorem itemAt?_mem {α : Type} {items : List α} {index : Int} {a : α}
    (h : itemAt? items index = some a) : a ∈ items := by
  unfold itemAt? at h
  split at h
  · exact List.mem_of_getElem? h
  · split at h
    · exact List.mem_of_getElem? h
    · cases h

/-- Where items are numbered from zero on, an item stands at its number. -/
theorem itemAt?_numbered {α : Type} {items : List α} {number : α → Int}
    (hn : items.map number = (List.range items.length).map Int.ofNat) {index : Int}
    (hi : 0 ≤ index) {a : α} (h : itemAt? items index = some a) : number a = index := by
  rw [itemAt?, if_pos hi] at h
  have hm : (items.map number)[index.toNat]? = some (number a) := by
    rw [List.getElem?_map, h, Option.map_some]
  rw [hn, List.getElem?_map, List.getElem?_range (List.getElem?_eq_some_iff.1 h).1,
    Option.map_some, Option.some.injEq] at hm
  rw [← hm]
  exact Int.toNat_of_nonneg hi

theorem itemAt?_of_numbered {α : Type} {items : List α} {number : α → Int}
    (hn : items.map number = (List.range items.length).map Int.ofNat) {a : α} (ha : a ∈ items) :
    0 ≤ number a ∧ itemAt? items (number a) = some a := by
  obtain ⟨n, hlt, rfl⟩ := List.getElem_of_mem ha
  have hm : (items.map number)[n]? = some (number items[n]) := by
    rw [List.getElem?_map, List.getElem?_eq_getElem hlt, Option.map_some]
  rw [hn, List.getElem?_map, List.getElem?_range hlt, Option.map_some, Option.some.injEq] at hm
  have h0 : (0 : Int) ≤ Int.ofNat n := Int.natCast_nonneg n
  rw [← hm]
  refine ⟨h0, ?_⟩
  rw [itemAt?, if_pos h0]
  exact List.getElem?_eq_getElem hlt

/-! ## Values -/

/-- The identity of a value tells the call that binds it. -/
theorem call_of_valueId {name name' : String} {n n' : Nat}
    (h : valueId name n = valueId name' n') : n = n' := by
  have hdigits : ∀ k : Nat, '@' ∉ (toString k).toList := by
    intro k hk
    rw [Nat.toString_eq_repr, Nat.toList_repr] at hk
    exact absurd (Nat.isDigit_of_mem_toDigits (by decide) (by decide) hk) (by decide)
  have hlist : name.toList ++ '@' :: (toString n).toList =
      name'.toList ++ '@' :: (toString n').toList := by
    have hl := congrArg String.toList h
    simp only [valueId, String.toList_append, List.append_assoc] at hl
    exact hl
  have hsame : (toString n).toList = (toString n').toList := by
    rcases List.append_eq_append_iff.1 hlist with ⟨as, -, has⟩ | ⟨as, -, has⟩
    · cases as with
      | nil => exact (List.cons.inj has).2
      | cons a as =>
        refine absurd ?_ (hdigits n)
        rw [(List.cons.inj has).2]
        simp
    · cases as with
      | nil => exact (List.cons.inj has).2.symm
      | cons a as =>
        refine absurd ?_ (hdigits n')
        rw [(List.cons.inj has).2]
        simp
  exact Nat.repr_injective (String.toList_injective hsame)

/-! ## Timelines -/

/-- What happens at a position of a diagram. -/
inductive Happening where
  | call | throw | branch
  /-- A reply or a result, with the method that sends it. -/
  | value (method : MethodId)
deriving DecidableEq

/-- What happens at each position, and the blocks of each method around it, outermost first. -/
structure Timeline where
  happens : Nat → Option Happening
  scopeAt : Nat → MethodId → Scope

/-- The parts of a model stand where the timeline has them. -/
structure Timeline.Fits (tl : Timeline) (m : Model) : Prop where
  between : ∀ {μ P i j k}, i ≤ j → j ≤ k → P <+: tl.scopeAt i μ → P <+: tl.scopeAt k μ →
    P <+: tl.scopeAt j μ
  sorted : ∀ n μ, (tl.scopeAt n μ).Pairwise fun f g => f.block < g.block
  turns : ∀ {μ i j f g}, i ≤ j → f ∈ tl.scopeAt i μ → g ∈ tl.scopeAt j μ → f.block = g.block →
    f.branch ≤ g.branch
  alt : ∀ {n μ S f T}, tl.scopeAt n μ = S ++ f :: T → f.kind = .alt →
    ∃ b ∈ m.alternatives, b.id = f.block ∧ b.method = μ ∧ b.scope = S ∧
      ∃ br ∈ b.branches, br.index = f.branch ∧ br.position < n
  loop : ∀ {n μ S f T}, tl.scopeAt n μ = S ++ f :: T → f.kind = .loop →
    f.branch = 0 ∧ ∃ l ∈ m.loops, l.id = f.block ∧ l.method = μ ∧ l.scope = S
  interaction : ∀ i ∈ m.interactions, tl.happens i.position = some .call ∧
    i.scope = tl.scopeAt i.position i.method
  result : ∀ x ∈ m.methods, ∀ r ∈ x.results, tl.happens r.position = some (.value x.call) ∧
    r.scope = tl.scopeAt r.position x.call
  throw : ∀ t ∈ m.throws, tl.happens t.position = some .throw ∧
    t.scope = tl.scopeAt t.position t.method
  branch : ∀ b ∈ m.alternatives, b.scope = tl.scopeAt b.position b.method ∧
    ∀ br ∈ b.branches, tl.happens br.position = some .branch ∧ b.position ≤ br.position ∧
      tl.scopeAt (br.position + 1) b.method = b.scope ++ [⟨.alt, b.id, br.index⟩]

end Lifeline.Model

namespace Lifeline

/-! ## Sound models -/

/-- What the parts of a model agree on. -/
structure Model.Sound (m : Model) : Prop where
  timeline : ∃ tl : Model.Timeline, tl.Fits m
  numbered : m.interactions.map (·.index) = (List.range m.interactions.length).map Int.ofNat
  ordered : m.interactions.Pairwise fun i j => i.position < j.position
  methods : (m.methods.map (·.call)).Nodup
  root : ∃ x ∈ m.methods, x.call = none
  called : ∀ i ∈ m.interactions, ∃ x ∈ m.methods, x.call = i.method
  owned : ∀ x ∈ m.methods, ∃ p ∈ m.participants, p.name = x.owner ∧
    (p.underTest = true ∨ ∃ i ∈ m.interactions, i.source = p.name)
  participants : (m.participants.map (·.name)).Nodup
  targets : ∀ i ∈ m.interactions, ∃ p ∈ m.participants, p.name = i.target
  replied : ∀ i ∈ m.interactions, ∀ a ∈ i.arguments, ∀ p v, a.source = .reply p v →
    ∃ j ∈ m.interactions, j.index = p ∧ j.method = i.method ∧ ∃ b, j.reply = some b ∧ b.valueId = v
  valued : ∀ i ∈ m.interactions, ∀ b, i.reply = some b → b.valueId = Model.valueId b.value i.index
  pipes : ∀ q, q ∈ m.pipes ↔ ∃ i ∈ m.interactions, ∃ a ∈ i.arguments,
    a.source = .reply q.producer q.valueId ∧ i.index = q.consumer ∧ a.name = q.argument
  ascending : (m.alternatives.map (·.id)).Pairwise (· < ·)
  loops : (m.loops.map (·.id)).Nodup
  kinds : ∀ b ∈ m.alternatives, ∀ l ∈ m.loops, b.id ≠ l.id
  branches : ∀ b ∈ m.alternatives, b.branches ≠ [] ∧
    b.branches.map (·.index) = List.range b.branches.length
  paths : ∀ x ∈ m.methods, (x.results.map (·.scope.path)).Nodup
  through : ∀ t ∈ m.throws, ∀ call ∈ t.through, ∃ i ∈ m.interactions, i.index = call

namespace Model.Sound

variable {m : Model} (h : m.Sound)
include h

/-- The numbers of the calls are distinct. -/
theorem nodup_indexes : (m.interactions.map (·.index)).Nodup := by
  rw [h.numbered]
  exact List.nodup_range.map fun _ _ => Int.ofNat.inj

/-- The numbers of the alternatives are distinct. -/
theorem blocks : (m.alternatives.map (·.id)).Nodup := h.ascending.imp Nat.ne_of_lt

/-- Different calls bind different values. -/
theorem eq_of_valueId {i j : Interaction} (hi : i ∈ m.interactions) (hj : j ∈ m.interactions)
    {b b' : Binding} (hb : i.reply = some b) (hb' : j.reply = some b')
    (hv : b.valueId = b'.valueId) : i = j := by
  have hnat : ∀ k ∈ m.interactions, ∃ n : Nat, k.index = n := by
    intro k hk
    have hmem := List.mem_map_of_mem (f := (·.index)) hk
    rw [h.numbered] at hmem
    obtain ⟨n, -, hn⟩ := List.mem_map.1 hmem
    exact ⟨n, hn.symm⟩
  obtain ⟨n, hn⟩ := hnat i hi
  obtain ⟨n', hn'⟩ := hnat j hj
  rw [h.valued i hi b hb, h.valued j hj b' hb', hn, hn'] at hv
  obtain rfl := call_of_valueId hv
  exact List.inj_on_of_nodup_map h.nodup_indexes hi hj (hn.trans hn'.symm)

/-- A call is found by its number. -/
theorem interaction?_index {i : Interaction} (hi : i ∈ m.interactions) :
    m.interaction? i.index = some i :=
  (itemAt?_of_numbered h.numbered hi).2

end Model.Sound

end Lifeline
