import Lifeline.Proofs.Tests.Groups

/-!
# Where exceptions leave a method

`SiteOf c x s`: the site `s` is a raise of the method `x` or a call of it that passes an exception
on. The sites of a method stand in order, so a group ends at the first one that it reaches
(`Context.firstSite_le`); a stub raises where its call is a site (`Context.raisedAt_isSome`).
-/

namespace Lifeline.Tests

open Model

/-- A place where an exception leaves a method. -/
inductive SiteOf (c : Context) (x : Method) : RaiseSite → Prop
  | own {t : Throw} (ht : t ∈ c.model.throws) (hm : t.method = x.call) :
      SiteOf c x { throw := t, scope := t.scope, sequence := t.position, raisedBy := none }
  | passed {t : Throw} {i : Interaction} (hi : i ∈ c.model.interactionsOf x.call) :
      SiteOf c x { throw := t, scope := i.scope, sequence := i.position, raisedBy := some i.index }

namespace SiteOf

variable {c : Context} {x : Method} {tl : Timeline} (ht : tl.Fits c.model) {s : RaiseSite}
  (h : SiteOf c x s)
include ht h

theorem scope_eq : s.scope = tl.scopeAt s.sequence x.call := by
  cases h with
  | own hthrow hm => exact hm ▸ (ht.throw _ hthrow).2
  | passed hi =>
    obtain ⟨hi, hm⟩ := List.mem_filter.1 hi
    rw [beq_iff_eq] at hm
    exact hm ▸ (ht.interaction _ hi).2

theorem happens_own (hnone : s.raisedBy = none) : tl.happens s.sequence = some .throw := by
  cases h with
  | own hthrow _ => exact (ht.throw _ hthrow).1
  | passed => cases hnone

end SiteOf

namespace Context

variable {c : Context} {x : Method}

theorem siteOf_mem (hs : c.model.Sound) {s : RaiseSite} (h : s ∈ c.raiseSites x) :
    SiteOf c x s := by
  simp only [raiseSites, mem_sortBy, List.mem_flatMap, List.mem_append] at h
  obtain ⟨t, ht, h | h⟩ := h
  · split at h
    · rename_i hm
      rw [Bool.and_eq_true, beq_iff_eq] at hm
      obtain rfl := List.mem_singleton.1 h
      exact .own ht hm.1
    · simp at h
  · obtain ⟨call, hcall, h⟩ := List.mem_filterMap.1 h
    obtain ⟨i, hi, rfl⟩ := hs.through t ht call hcall
    rw [hs.interaction?_index hi] at h
    dsimp only at h
    split at h
    · rename_i hm
      obtain rfl := Option.some.inj h
      exact .passed (List.mem_filter.2 ⟨hi, hm⟩)
    · cases h

/-- What leaves a method at a site is one of the throws. -/
theorem throw_of_site {s : RaiseSite} (h : s ∈ c.raiseSites x) : s.throw ∈ c.model.throws := by
  simp only [raiseSites, mem_sortBy, List.mem_flatMap, List.mem_append] at h
  obtain ⟨t, ht, h | h⟩ := h
  · split at h
    · obtain rfl := List.mem_singleton.1 h
      exact ht
    · cases h
  · obtain ⟨call, -, h⟩ := List.mem_filterMap.1 h
    split at h
    · split at h
      · obtain rfl := Option.some.inj h
        exact ht
      · cases h
    · cases h

/-- No site that a group reaches stands before the one it ends at. -/
theorem firstSite_le {P : Path} {s s' : RaiseSite} (h : c.firstSite x P = some s)
    (hs' : s' ∈ c.raiseSites x) (hr : runs s'.scope (c.chosen x P) = true) :
    s.sequence ≤ s'.sequence := by
  obtain ⟨-, A, B, hAB, hA⟩ := List.find?_eq_some_iff_append.1 h
  have hsorted : (c.raiseSites x).Pairwise fun a b => a.sequence ≤ b.sequence :=
    sortBy_key_pairwise RaiseSite.sequence (by simp) _
  rw [hAB] at hs' hsorted
  rcases List.mem_append.1 hs' with hs' | hs'
  · have := hA s' hs'
    rw [hr] at this
    cases this
  · rcases List.mem_cons.1 hs' with rfl | hs'
    · exact Nat.le_refl _
    · exact (List.pairwise_cons.1 (List.pairwise_append.1 hsorted).2.1).1 s' hs'

/-- A group that reaches a site ends at one. -/
theorem exists_firstSite {P : Path} {s : RaiseSite} (hs : s ∈ c.raiseSites x)
    (hr : runs s.scope (c.chosen x P) = true) :
    ∃ first, c.firstSite x P = some first ∧ first.sequence ≤ s.sequence := by
  obtain ⟨first, hfirst⟩ := Option.isSome_iff_exists.1
    (List.find?_isSome (p := fun s : RaiseSite => runs s.scope (c.chosen x P)).2 ⟨s, hs, hr⟩)
  exact ⟨first, hfirst, firstSite_le hfirst hs hr⟩

theorem raisedAt_isSome {sites : List RaiseSite} {call : Int} :
    (raisedAt sites call).isSome = true ↔ ∃ s ∈ sites, s.raisedBy = some call := by
  simp [raisedAt, Option.isSome_map, List.find?_isSome]

/-- A call passes on the exception of a throw. -/
theorem throw_of_raisedAt {call : Int} {e : String}
    (h : raisedAt (c.raiseSites x) call = some e) : ∃ t ∈ c.model.throws, t.exception = e := by
  obtain ⟨s, hs, rfl⟩ := Option.map_eq_some_iff.1 h
  exact ⟨s.throw, throw_of_site (List.mem_reverse.1 (List.mem_of_find?_eq_some hs)), rfl⟩

end Context

end Lifeline.Tests
