import Lifeline.Name.Unique
import Mathlib.Data.Finset.Preimage
import Mathlib.Data.Finset.Range
import Mathlib.Data.List.Nodup
import Mathlib.Data.List.Perm.Subperm
import Mathlib.Logic.Relation
import Mathlib.Order.RelClasses
import Std.Data.String.ToNat

/-!
# Distinct names

**`unique_not_mem`**: a name that was made distinct is not among the names taken. The numbered
forms of a name are all different (`numbered_injective`), so that more of them than there are names
taken cannot all be taken.

A search for a free name goes from candidate to candidate (`Search.Round`). It ends whatever set of
names is taken (`Search.wellFounded_round`), since the numbered forms of a name run out of a finite
set. Where it ends is the name itself or the one with the smallest free number (`Gets`), and this is
what `unique` gives (`finds_iff`).

**`names_kept_apart`**: names that are asked for in turn over one set of names taken (`Serves`) are
those of `uniqueAll`.
-/

set_option autoImplicit false

namespace Lifeline.Name

open Relation (ReflTransGen)

/-! ## The name that is given -/

theorem numbered_injective (name : String) : Function.Injective (numbered name) := by
  intro j k h
  have hs : toString j = toString k := by
    rw [numbered, numbered, String.append_assoc, String.append_assoc] at h
    exact String.append_right_inj _ |>.1 (String.append_right_inj _ |>.1 h)
  exact Nat.repr_injective hs

/-- The candidates that are passed over are taken. One that is reached before the fuel runs out is
free. -/
theorem exists_firstFree (name : String) (taken : List String) : ∀ fuel k : Nat,
    ∃ j ≤ fuel, firstFree name taken fuel k = numbered name (k + j) ∧
      (∀ i < j, numbered name (k + i) ∈ taken) ∧ (j < fuel → numbered name (k + j) ∉ taken)
  | 0, k => ⟨0, Nat.le_refl 0, rfl, by simp, by simp⟩
  | fuel + 1, k => by
    rw [firstFree]
    split
    · rename_i hk
      obtain ⟨j, hj, heq, hbefore, hfree⟩ := exists_firstFree name taken fuel (k + 1)
      rw [show k + 1 + j = k + (j + 1) by omega] at heq hfree
      refine ⟨j + 1, by omega, heq, fun i hi => ?_, fun hlt => hfree (by omega)⟩
      cases i with
      | zero => simpa using hk
      | succ i =>
        rw [show k + (i + 1) = k + 1 + i by omega]
        exact hbefore i (by omega)
    · rename_i hk
      exact ⟨0, Nat.zero_le _, rfl, by simp, fun _ => by simpa using hk⟩

theorem firstFree_not_mem (name : String) (taken : List String) (k : Nat) :
    firstFree name taken (taken.length + 1) k ∉ taken := by
  obtain ⟨j, hj, heq, hbefore, hfree⟩ := exists_firstFree name taken (taken.length + 1) k
  rw [heq]
  refine hfree (Nat.lt_of_not_le fun hle => ?_)
  let passed := (List.range j).map fun i => numbered name (k + i)
  have hn : passed.Nodup :=
    List.Nodup.map (fun i i' hi => Nat.add_left_cancel (numbered_injective name hi))
      List.nodup_range
  have hsub : passed ⊆ taken := fun s hs => by
    obtain ⟨i, hi, rfl⟩ := List.mem_map.1 hs
    exact hbefore i (List.mem_range.1 hi)
  have hlength := (hn.subperm hsub).length_le
  simp only [passed, List.length_map, List.length_range] at hlength
  omega

theorem unique_not_mem (name : String) (taken : List String) : unique name taken ∉ taken := by
  unfold unique
  split
  · exact firstFree_not_mem name taken 2
  · rename_i h
    simpa using h

/-- Names stay distinct with one more that was made distinct from them. -/
theorem nodup_unique {taken : List String} (h : taken.Nodup) (name : String) :
    (taken ++ [unique name taken]).Nodup :=
  List.nodup_append.2 ⟨h, List.nodup_singleton _, fun s hs t ht => by
    rw [List.mem_singleton.1 ht]
    exact fun he => unique_not_mem name taken (he ▸ hs)⟩

theorem numbered_ne_empty {name : String} (h : name ≠ "") (k : Nat) : numbered name k ≠ "" := by
  simp [numbered, h]

/-- A name that is made distinct is not lost. -/
theorem unique_ne_empty {name : String} (h : name ≠ "") (taken : List String) :
    unique name taken ≠ "" := by
  unfold unique
  split
  · obtain ⟨j, -, heq, -⟩ := exists_firstFree name taken (taken.length + 1) 2
    rw [heq]
    exact numbered_ne_empty h _
  · exact h

/-! ## The search for a free name -/

/-- A search for a free name: the candidate that it is at, and the number of the next one. -/
structure Search where
  candidate : String
  next : Nat

namespace Search

/-- One round of a search: the candidate is taken and gives way to the next one. -/
inductive Round (name : String) (taken : Finset String) : Search → Search → Prop
  | again (s : Search) : s.candidate ∈ taken →
      Round name taken s ⟨numbered name s.next, s.next + 1⟩

variable {name : String} {taken : Finset String}

theorem rightUnique_round : Relator.RightUnique (Round name taken) := by
  rintro s t t' ⟨-⟩ ⟨-⟩
  rfl

/-- From some number on, every candidate is free. -/
theorem exists_free (name : String) (taken : Finset String) :
    ∃ bound, ∀ k, numbered name k ∈ taken → k < bound := by
  obtain ⟨bound, hbound⟩ :=
    (taken.preimage (numbered name) (numbered_injective name).injOn).exists_nat_subset_range
  refine ⟨bound, fun k hk => ?_⟩
  exact Finset.mem_range.1 (hbound (Finset.mem_preimage.2 hk))

/-- **Every search ends**, wherever it stands. -/
theorem wellFounded_round (name : String) (taken : Finset String) :
    WellFounded fun s' s => Round name taken s s' := by
  obtain ⟨bound, hbound⟩ := exists_free name taken
  -- the rounds that are left, at most: none at a free candidate
  let left (s : Search) : Nat := if s.candidate ∈ taken then bound - s.next + 1 else 0
  refine Subrelation.wf (r := fun s' s => left s' < left s) ?_ (measure left).wf
  rintro _ s ⟨hs⟩
  by_cases hnext : numbered name s.next ∈ taken
  · have := hbound _ hnext
    simp only [left, hs, hnext, ↓reduceIte]
    omega
  · simp [left, hs, hnext]

end Search

/-- The search for a free name for `name` ends with `fresh`. -/
def Finds (taken : Finset String) (name fresh : String) : Prop :=
  ∃ k, ReflTransGen (Search.Round name taken) ⟨name, 2⟩ ⟨fresh, k⟩ ∧ fresh ∉ taken

/-- The name that `name` gets: itself where it is free, else the one with the smallest free number
from two on. -/
inductive Gets (taken : Finset String) (name : String) : String → Prop
  | itself : name ∉ taken → Gets taken name name
  | numbered (k : Nat) : name ∈ taken → 2 ≤ k → numbered name k ∉ taken →
      (∀ j, 2 ≤ j → j < k → numbered name j ∈ taken) → Gets taken name (numbered name k)

variable {taken : Finset String} {name fresh fresh' : String}

theorem Finds.unique (h : Finds taken name fresh) (h' : Finds taken name fresh') :
    fresh = fresh' := by
  have stays : ∀ {s s' : Search}, s.candidate ∉ taken →
      ReflTransGen (Search.Round name taken) s s' → s = s' := by
    intro s s' hfree hrun
    rcases hrun.cases_head with rfl | ⟨_, ⟨hs⟩, -⟩
    · rfl
    · exact absurd hs hfree
  obtain ⟨k, hrun, hfree⟩ := h
  obtain ⟨k', hrun', hfree'⟩ := h'
  rcases ReflTransGen.total_of_right_unique Search.rightUnique_round hrun hrun' with h | h
  · exact congrArg Search.candidate (stays hfree h)
  · exact congrArg Search.candidate (stays hfree' h).symm

/-- A search passes the candidates that are taken. -/
theorem Gets.finds (h : Gets taken name fresh) : Finds taken name fresh := by
  cases h with
  | itself hfree => exact ⟨2, .refl, hfree⟩
  | numbered k htaken hk hfree hbefore =>
    have hruns : ∀ j, 2 ≤ j → j ≤ k → ReflTransGen (Search.Round name taken) ⟨name, 2⟩
        ⟨Name.numbered name j, j + 1⟩ := by
      intro j h2 hj
      induction j, h2 using Nat.le_induction with
      | base => exact .single (.again ⟨name, 2⟩ htaken)
      | succ j h2 ih => exact (ih (by omega)).tail (.again _ (hbefore j h2 (by omega)))
    exact ⟨k + 1, hruns k hk (Nat.le_refl k), hfree⟩

theorem gets_unique (name : String) (taken : List String) :
    Gets taken.toFinset name (unique name taken) := by
  unfold unique
  split
  · rename_i htaken
    have hfree := firstFree_not_mem name taken 2
    obtain ⟨j, -, heq, hbefore, -⟩ := exists_firstFree name taken (taken.length + 1) 2
    rw [heq] at hfree ⊢
    refine .numbered (2 + j) (by simpa using htaken) (by omega) (by simpa using hfree) ?_
    intro i h2 hi
    rw [List.mem_toFinset, show i = 2 + (i - 2) by omega]
    exact hbefore _ (by omega)
  · rename_i hfree
    exact .itself (by simpa using hfree)

/-- The fuel of `unique` never runs out: it gives the name that the search ends with. -/
theorem finds_iff {taken : List String} :
    Finds taken.toFinset name fresh ↔ fresh = unique name taken :=
  ⟨fun h => h.unique (gets_unique name taken).finds, fun h => h ▸ (gets_unique name taken).finds⟩

/-! ## Names in turn -/

/-- Names are asked for in turn over one set of names taken. Each name that is given is taken from
then on. -/
inductive Serves : Finset String → List String → List String → Finset String → Prop
  | done (taken : Finset String) : Serves taken [] [] taken
  | next {taken final : Finset String} {name fresh : String} {names given : List String} :
      Finds taken name fresh → Serves (insert fresh taken) names given final →
      Serves taken (name :: names) (fresh :: given) final

theorem toFinset_concat (taken : List String) (fresh : String) :
    (taken ++ [fresh]).toFinset = insert fresh taken.toFinset := by
  ext s
  simp

/-- **The names given in turn** are those of `uniqueAll`, and in the end they are taken too. -/
theorem serves_iff {names : List String} : ∀ {taken given : List String} {final : Finset String},
    Serves taken.toFinset names given final ↔
      given = uniqueAll names taken ∧
        final = taken.toFinset ∪ (uniqueAll names taken).toFinset := by
  induction names with
  | nil =>
    intro taken given final
    constructor
    · rintro ⟨⟩
      simp [uniqueAll]
    · rintro ⟨rfl, rfl⟩
      simpa [uniqueAll] using Serves.done taken.toFinset
  | cons name names ih =>
    intro taken given final
    have hset : insert (unique name taken) taken.toFinset =
        (taken ++ [unique name taken]).toFinset := (toFinset_concat _ _).symm
    have hfinal : (taken ++ [unique name taken]).toFinset ∪
        (uniqueAll names (taken ++ [unique name taken])).toFinset =
        taken.toFinset ∪ (uniqueAll (name :: names) taken).toFinset := by
      ext s
      simp [uniqueAll]
    constructor
    · rintro (_ | ⟨hfinds, hrest⟩)
      obtain rfl := finds_iff.1 hfinds
      rw [hset] at hrest
      obtain ⟨rfl, rfl⟩ := ih.1 hrest
      exact ⟨rfl, hfinal⟩
    · rintro ⟨rfl, rfl⟩
      refine .next (finds_iff.2 rfl) ?_
      rw [hset, ← hfinal]
      exact ih.2 ⟨rfl, rfl⟩

/-- The names `given` for `names` in turn are kept apart from each other and from those taken. Each
is the name that its turn gets where the names given before it are taken too. -/
structure Apart (taken : Finset String) (names given : List String) : Prop where
  length : given.length = names.length
  distinct : given.Nodup
  new : ∀ s ∈ given, s ∉ taken
  turn : ∀ i name fresh, names[i]? = some name → given[i]? = some fresh →
    Gets (taken ∪ (given.take i).toFinset) name fresh

theorem Apart.next {names given : List String} (hfresh : Gets taken name fresh)
    (hnew : fresh ∉ taken) (h : Apart (insert fresh taken) names given) :
    Apart taken (name :: names) (fresh :: given) where
  length := congrArg (· + 1) h.length
  distinct := by
    refine List.nodup_cons.2 ⟨fun hmem => h.new fresh hmem (Finset.mem_insert_self ..), h.distinct⟩
  new := List.forall_mem_cons.2 ⟨hnew, fun s hs hmem => h.new s hs (Finset.mem_insert_of_mem hmem)⟩
  turn := by
    intro i name' fresh' hname hgiven
    cases i with
    | zero =>
      obtain rfl := Option.some.inj hname
      obtain rfl := Option.some.inj hgiven
      simpa using hfresh
    | succ i =>
      have hset : taken ∪ ((fresh :: given).take (i + 1)).toFinset =
          insert fresh taken ∪ (given.take i).toFinset := by
        ext s
        simp
      rw [hset]
      exact h.turn i name' fresh' hname hgiven

theorem apart_uniqueAll : ∀ (names taken : List String),
    Apart taken.toFinset names (uniqueAll names taken)
  | [], _ => ⟨rfl, .nil, by simp [uniqueAll], by simp⟩
  | name :: names, taken => by
    have hrest := apart_uniqueAll names (taken ++ [unique name taken])
    rw [toFinset_concat] at hrest
    refine .next (gets_unique name taken) ?_ hrest
    rw [List.mem_toFinset]
    exact unique_not_mem name taken

/-- **Names are kept apart**: no search for a free name goes on for ever, the names asked for in
turn are given in exactly one way, and the names given are distinct and new. In the end the names
taken are those of the start and those given. -/
theorem names_kept_apart (taken names : List String) :
    (∀ (name : String) (set : Finset String),
      WellFounded fun s' s => Search.Round name set s s') ∧
    (∀ given final, Serves taken.toFinset names given final ↔ given = uniqueAll names taken ∧
      final = taken.toFinset ∪ (uniqueAll names taken).toFinset) ∧
    Apart taken.toFinset names (uniqueAll names taken) :=
  ⟨Search.wellFounded_round, fun _ _ => serves_iff, apart_uniqueAll names taken⟩

example : uniqueAll ["x", "x", "x_2", "y"] ["x_3"] = ["x", "x_2", "x_2_2", "y"] := by
  decide +kernel

end Lifeline.Name
