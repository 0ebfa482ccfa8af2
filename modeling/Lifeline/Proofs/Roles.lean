import Lifeline.Proofs.Lists
import Lifeline.Roles

/-!
# Roles of participants

`Model.HasRole` says which role a participant should have: the component under test and every
participant that makes calls is an orchestrator, and a suffix of its name that no longer one beats
(`LeafSuffixes.Decides`) settles the kind of a leaf. There is only one such suffix, since two
suffixes of one name that are equally long are equal (`Decides.eq`). So it does not matter where,
and how often, a table lists it. Main theorem: `Model.classify_partition`.
-/

set_option autoImplicit false

namespace Lifeline

/-! ## The suffix that counts -/

namespace LeafSuffixes

variable {s s' : LeafSuffixes} {name suffix other : String} {kind : LeafKind}

/-- A suffix that a table lists and that a name ends with. -/
structure Matches (s : LeafSuffixes) (name suffix : String) : Prop where
  listed : suffix ∈ s.computational ∨ suffix ∈ s.ioBoundary
  ends : suffix.toList <:+ name.toList

/-- The longest one. -/
structure Decides (s : LeafSuffixes) (name suffix : String) : Prop extends
    Matches s name suffix where
  longest : ∀ other, s.Matches name other → other.length ≤ suffix.length

/-- Two tables list the same suffixes for each kind, in whatever order and however often. -/
structure SameSuffixes (s s' : LeafSuffixes) : Prop where
  computational : ∀ suffix, suffix ∈ s.computational ↔ suffix ∈ s'.computational
  ioBoundary : ∀ suffix, suffix ∈ s.ioBoundary ↔ suffix ∈ s'.ioBoundary

theorem eq_of_suffix {cs : List Char} (h : suffix.toList <:+ cs) (h' : other.toList <:+ cs)
    (hl : suffix.length = other.length) : suffix = other := by
  apply String.toList_injective
  have hlength : suffix.toList.length = other.toList.length := by
    rw [String.length_toList, String.length_toList, hl]
  exact (List.suffix_of_suffix_length_le h h' (by omega)).eq_of_length hlength

/-- **The longest suffix is the only one of its length.** -/
theorem Decides.eq (h : s.Decides name suffix) (h' : s.Decides name other) : suffix = other := by
  have hle := h.longest other h'.toMatches
  have hge := h'.longest suffix h.toMatches
  exact eq_of_suffix h.ends h'.ends (by omega)

theorem SameSuffixes.matches_iff (h : SameSuffixes s s') :
    s.Matches name suffix ↔ s'.Matches name suffix := by
  constructor
  · intro hm
    exact ⟨hm.listed.imp (h.computational _).1 (h.ioBoundary _).1, hm.ends⟩
  · intro hm
    exact ⟨hm.listed.imp (h.computational _).2 (h.ioBoundary _).2, hm.ends⟩

theorem SameSuffixes.decides_iff (h : SameSuffixes s s') :
    s.Decides name suffix ↔ s'.Decides name suffix := by
  constructor
  · intro hd
    exact ⟨h.matches_iff.1 hd.toMatches, fun other ho => hd.longest other (h.matches_iff.2 ho)⟩
  · intro hd
    exact ⟨h.matches_iff.2 hd.toMatches, fun other ho => hd.longest other (h.matches_iff.1 ho)⟩

/-! ## Looking for it in a table -/

theorem endsWith_iff : Text.Packed.endsWith suffix name = true ↔ suffix.toList <:+ name.toList :=
  List.isSuffixOf_iff_suffix

/-- What is found is the length of an entry that matches. -/
theorem exists_of_longest {n : Nat} : ∀ {table : List (String × LeafKind)} {kind : LeafKind},
    longest name table = some (n, kind) →
      ∃ e ∈ table, e.1.toList <:+ name.toList ∧ e.1.length = n
  | [], _, h => by cases h
  | (suffix, k) :: rest, _, h => by
    have ih : ∀ k', longest name rest = some (n, k') →
        ∃ e ∈ (suffix, k) :: rest, e.1.toList <:+ name.toList ∧ e.1.length = n := by
      intro k' hk
      obtain ⟨e, he, hends, hlength⟩ := exists_of_longest hk
      exact ⟨e, .tail _ he, hends, hlength⟩
    unfold longest at h
    dsimp only at h
    split at h
    · rename_i hends
      have hhead : suffix.toList <:+ name.toList := endsWith_iff.1 hends
      split at h
      · rename_i length k' hrest
        split at h
        · obtain ⟨rfl, rfl⟩ := Prod.mk.inj (Option.some.inj h)
          exact ih _ hrest
        · obtain ⟨rfl, rfl⟩ := Prod.mk.inj (Option.some.inj h)
          exact ⟨_, .head _, hhead, rfl⟩
      · obtain ⟨rfl, rfl⟩ := Prod.mk.inj (Option.some.inj h)
        exact ⟨_, .head _, hhead, rfl⟩
    · exact ih _ h

/-- Of the entries that match, the first one for the longest suffix is found. -/
theorem longest_eq_find? (hends : suffix.toList <:+ name.toList) :
    ∀ {table : List (String × LeafKind)},
      (∀ e ∈ table, e.1.toList <:+ name.toList → e.1.length ≤ suffix.length) →
        suffix ∈ table.map (·.1) → longest name table =
          (table.find? (·.1 == suffix)).map fun e => (suffix.length, e.2)
  | [], _, hmem => by cases hmem
  | (other, k) :: rest, hmax, hmem => by
    obtain ⟨hhead, hrest⟩ := List.forall_mem_cons.1 hmax
    unfold longest
    dsimp only
    by_cases hsame : other = suffix
    · subst hsame
      rw [if_pos (endsWith_iff.2 hends), List.find?_cons_of_pos (by simp)]
      cases hr : longest name rest with
      | none => rfl
      | some found =>
        obtain ⟨length, k'⟩ := found
        obtain ⟨e, he, heends, hlength⟩ := exists_of_longest hr
        have hle := hrest e he heends
        dsimp only
        rw [if_neg (by omega)]
        rfl
    · have hmem' : suffix ∈ rest.map (·.1) := by
        rcases List.mem_cons.1 hmem with he | he
        · exact absurd he.symm hsame
        · exact he
      have ih := longest_eq_find? hends hrest hmem'
      rw [List.find?_cons_of_neg (by simpa using hsame)]
      split
      · rename_i hmatch
        have hother : other.toList <:+ name.toList := endsWith_iff.1 hmatch
        have hle : other.length ≤ suffix.length := hhead hother
        have hne : other.length ≠ suffix.length := fun hl =>
          hsame (eq_of_suffix hother hends hl)
        obtain ⟨e, he⟩ : ∃ e, rest.find? (·.1 == suffix) = some e := by
          obtain ⟨x, hx, hxs⟩ := List.mem_map.1 hmem'
          exact Option.isSome_iff_exists.1 (List.find?_isSome.2 ⟨x, hx, by simpa using hxs⟩)
        rw [ih, he, Option.map_some]
        dsimp only
        rw [if_pos (by omega)]
      · exact ih

theorem mem_table : suffix ∈ s.table.map (·.1) ↔
    suffix ∈ s.computational ∨ suffix ∈ s.ioBoundary := by
  simp [table]

/-- A suffix that is listed for both kinds counts for computations. -/
theorem find?_table (h : suffix ∈ s.computational ∨ suffix ∈ s.ioBoundary) :
    s.table.find? (·.1 == suffix) = some
      (suffix, if suffix ∈ s.computational then .computational else .ioBoundary) := by
  have hfind : ∀ (k : LeafKind) (listed : List String),
      (listed.map (·, k)).find? (·.1 == suffix) =
        if suffix ∈ listed then some (suffix, k) else none := by
    intro k listed
    induction listed with
    | nil => rfl
    | cons x listed ih =>
      by_cases hx : x = suffix
      · subst hx
        simp
      · rw [List.map_cons, List.find?_cons_of_neg (by simpa using hx), ih]
        simp [Ne.symm hx]
  rw [table, List.find?_append, hfind, hfind]
  by_cases hc : suffix ∈ s.computational
  · simp [hc]
  · simp [hc, h.resolve_left hc]

/-- **The kind of a leaf** is the one that the longest matching suffix is listed for. -/
theorem Decides.kindOf? (h : s.Decides name suffix) : s.kindOf? name =
    some (if suffix ∈ s.computational then .computational else .ioBoundary) := by
  have hmax : ∀ e ∈ s.table, e.1.toList <:+ name.toList → e.1.length ≤ suffix.length := by
    intro e he hends
    exact h.longest e.1 ⟨mem_table.1 (List.mem_map_of_mem he), hends⟩
  rw [LeafSuffixes.kindOf?, longest_eq_find? h.ends hmax (mem_table.2 h.listed),
    find?_table h.listed]
  rfl

/-- Where a suffix matches, there is a longest one. -/
theorem exists_decides (suffix : String) (h : s.Matches name suffix) :
    ∃ other, s.Decides name other := by
  by_cases hd : ∀ other, s.Matches name other → other.length ≤ suffix.length
  · exact ⟨suffix, h, hd⟩
  · -- no suffix of a name is longer than the name, so longer ones come to an end
    push Not at hd
    obtain ⟨other, hother, hlonger⟩ := hd
    have hbound : other.length ≤ name.length := by
      rw [← String.length_toList, ← String.length_toList]
      exact hother.ends.length_le
    exact exists_decides other hother
termination_by name.length - suffix.length

theorem kindOf?_eq_none_iff : s.kindOf? name = none ↔ ∀ suffix, ¬ s.Matches name suffix := by
  constructor
  · intro hnone suffix hm
    obtain ⟨other, hd⟩ := exists_decides _ hm
    rw [hd.kindOf?] at hnone
    cases hnone
  · intro h
    cases hl : longest name s.table with
    | none => rw [kindOf?, hl, Option.map_none]
    | some found =>
      obtain ⟨e, he, hends, -⟩ := exists_of_longest hl
      exact absurd ⟨mem_table.1 (List.mem_map_of_mem he), hends⟩ (h e.1)

/-- Neither the order of the suffixes nor their number matters. -/
theorem SameSuffixes.kindOf?_eq (h : SameSuffixes s s') (name : String) :
    s.kindOf? name = s'.kindOf? name := by
  by_cases hm : ∃ suffix, s.Matches name suffix
  · obtain ⟨_, hm⟩ := hm
    obtain ⟨suffix, hd⟩ := exists_decides _ hm
    rw [hd.kindOf?, (h.decides_iff.1 hd).kindOf?]
    simp only [h.computational]
  · push Not at hm
    rw [kindOf?_eq_none_iff.2 hm, kindOf?_eq_none_iff.2 fun suffix hs =>
      hm suffix (h.matches_iff.2 hs)]

end LeafSuffixes

/-! ## Roles -/

namespace Model

variable {m : Model} {s s' : LeafSuffixes} {p : Participant} {role : Role}

/-- The component under test, or a participant that makes calls. -/
def Orchestrates (m : Model) (p : Participant) : Prop :=
  p.underTest = true ∨ ∃ i ∈ m.interactions, i.source = p.name

/-- The role that a participant should have. -/
inductive HasRole (m : Model) (s : LeafSuffixes) (p : Participant) : Role → Prop
  | orchestrator : m.Orchestrates p → HasRole m s p .orchestrator
  | computational {suffix : String} : ¬ m.Orchestrates p → s.Decides p.name suffix →
      suffix ∈ s.computational → HasRole m s p (.leaf .computational)
  | ioBoundary {suffix : String} : ¬ m.Orchestrates p → s.Decides p.name suffix →
      suffix ∉ s.computational → HasRole m s p (.leaf .ioBoundary)
  | unmatched : ¬ m.Orchestrates p → (∀ suffix, ¬ s.Matches p.name suffix) →
      HasRole m s p (.leaf .computational)

/-- A leaf that no suffix matches. -/
def Unmatched (m : Model) (s : LeafSuffixes) (p : Participant) : Prop :=
  ¬ m.Orchestrates p ∧ ∀ suffix, ¬ s.Matches p.name suffix

theorem orchestrates_iff : m.Orchestrates p ↔
    (p.underTest || m.interactions.any (·.source == p.name)) = true := by
  simp [Orchestrates]

theorem roleOf_orchestrates (h : m.Orchestrates p) :
    Classification.roleOf m s p = .orchestrator := by
  rw [Classification.roleOf, if_pos (orchestrates_iff.1 h)]

theorem roleOf_leaf (h : ¬ m.Orchestrates p) :
    Classification.roleOf m s p = .leaf ((s.kindOf? p.name).getD .computational) := by
  rw [Classification.roleOf, if_neg fun he => h (orchestrates_iff.2 he)]

/-- **Every participant has exactly one role.** -/
theorem hasRole_iff : m.HasRole s p role ↔ Classification.roleOf m s p = role := by
  constructor
  · intro h
    cases h with
    | orchestrator ho => exact roleOf_orchestrates ho
    | computational ho hd hc => rw [roleOf_leaf ho, hd.kindOf?, if_pos hc, Option.getD_some]
    | ioBoundary ho hd hc => rw [roleOf_leaf ho, hd.kindOf?, if_neg hc, Option.getD_some]
    | unmatched ho hn =>
      rw [roleOf_leaf ho, LeafSuffixes.kindOf?_eq_none_iff.2 hn, Option.getD_none]
  · intro h
    subst h
    by_cases ho : m.Orchestrates p
    · rw [roleOf_orchestrates ho]
      exact .orchestrator ho
    · rw [roleOf_leaf ho]
      by_cases hm : ∃ suffix, s.Matches p.name suffix
      · obtain ⟨_, hm⟩ := hm
        obtain ⟨suffix, hd⟩ := LeafSuffixes.exists_decides _ hm
        rw [hd.kindOf?, Option.getD_some]
        by_cases hc : suffix ∈ s.computational
        · rw [if_pos hc]
          exact .computational ho hd hc
        · rw [if_neg hc]
          exact .ioBoundary ho hd hc
      · push Not at hm
        rw [LeafSuffixes.kindOf?_eq_none_iff.2 hm, Option.getD_none]
        exact .unmatched ho hm

theorem isUnmatched_iff : Classification.isUnmatched m s p = true ↔ m.Unmatched s p := by
  rw [Classification.isUnmatched, Bool.and_eq_true, bne_iff_ne, Option.isNone_iff_eq_none,
    LeafSuffixes.kindOf?_eq_none_iff, Unmatched]
  apply and_congr_left
  intro _
  by_cases ho : m.Orchestrates p
  · simp [roleOf_orchestrates ho, ho]
  · simp [roleOf_leaf ho, ho]

/-- Tables with the same suffixes give the same roles. -/
theorem classify_congr (h : LeafSuffixes.SameSuffixes s s') : m.classify s = m.classify s' := by
  have hrole : Classification.roleOf m s = Classification.roleOf m s' := by
    funext p
    rw [Classification.roleOf, Classification.roleOf, h.kindOf?_eq]
  have hunmatched : Classification.isUnmatched m s = Classification.isUnmatched m s' := by
    funext p
    rw [Classification.isUnmatched, Classification.isUnmatched, hrole, h.kindOf?_eq]
  rw [classify, classify, hrole, hunmatched]

/-- Roles that are a partition of the participants of a model. -/
structure Partition (m : Model) (s : LeafSuffixes) (c : Classification) : Prop where
  once : (c.participants.map (·.name)).Nodup
  inOrder : List.Forall₂ (fun p x => x.name = p.name ∧ x.underTest = p.underTest ∧
    ∀ role, x.role = role ↔ m.HasRole s p role) m.participants c.participants
  warnedOnce : c.unmatched.Nodup
  warned : ∀ name, name ∈ c.unmatched ↔ ∃ p ∈ m.participants, p.name = name ∧ m.Unmatched s p

/-- **Roles are a partition.** Where participants are told apart by their names, each is there once
and in its place with the one role that it should have; the leaves that no suffix matches are warned
about once each, and nothing else is. Of a table only matters which suffixes are in it. -/
theorem classify_partition (hn : (m.participants.map (·.name)).Nodup) (s : LeafSuffixes) :
    Partition m s (m.classify s) ∧
      ∀ s', LeafSuffixes.SameSuffixes s s' → m.classify s' = m.classify s := by
  refine ⟨⟨?_, ?_, ?_, ?_⟩, ?_⟩
  · show ((m.participants.map fun p => _).map fun x : Classified => x.name).Nodup
    rw [List.map_map]
    exact hn
  · show List.Forall₂ _ m.participants (m.participants.map fun p => _)
    rw [List.forall₂_map_right_iff, List.forall₂_same]
    intro p _
    refine ⟨rfl, rfl, fun role => ?_⟩
    exact hasRole_iff.symm
  · show ((m.participants.filter _).map _).Nodup
    exact hn.sublist (List.filter_sublist.map _)
  · intro name
    show name ∈ (m.participants.filter _).map _ ↔ _
    simp only [List.mem_map, List.mem_filter, isUnmatched_iff]
    constructor
    · intro ⟨p, ⟨hp, hu⟩, hname⟩
      exact ⟨p, hp, hname, hu⟩
    · intro ⟨p, hp, hname, hu⟩
      exact ⟨p, ⟨hp, hu⟩, hname⟩
  · intro s' h
    exact (classify_congr h).symm

/-- A shop with a client that both kinds have a suffix for, and a ledger that none matches. -/
def shop : Model where
  participants := [⟨"Shop", 0⟩, ⟨"StockClient", 1⟩, ⟨"Ledger", 2⟩]
  interactions := [
    { index := 0, position := 0, method := none, source := "Shop", target := "StockClient"
      operation := "take", arguments := [], line := 1, reply := none, scope := [] },
    { index := 1, position := 1, method := none, source := "Shop", target := "Ledger"
      operation := "note", arguments := [], line := 2, reply := none, scope := [] }]
  pipes := []
  loops := []
  alternatives := []
  throws := []
  methods := []
  warnings := []

theorem classify_partition_shop :
    let s : LeafSuffixes := { computational := ["t", "nt"], ioBoundary := ["Client", "nt"] }
    let s' : LeafSuffixes := { computational := ["nt", "t", "nt"], ioBoundary := ["nt", "Client"] }
    (shop.participants.map (·.name)).Nodup ∧ LeafSuffixes.SameSuffixes s s' ∧
      (shop.classify s).participants.map (·.role) =
        [.orchestrator, .leaf .ioBoundary, .leaf .computational] ∧
      Partition shop s (shop.classify s) ∧ shop.classify s' = shop.classify s := by
  intro s s'
  have hn : (shop.participants.map (·.name)).Nodup := by decide
  have hs : LeafSuffixes.SameSuffixes s s' := by
    constructor
    · intro suffix
      simp [s, s', or_comm]
    · intro suffix
      simp [s, s', or_comm]
  obtain ⟨hpartition, hsame⟩ := classify_partition hn s
  exact ⟨hn, hs, by decide, hpartition, hsame s' hs⟩

end Model

end Lifeline
