import Lifeline.Proofs.Diagram.Reading
import Lifeline.Proofs.Gate.Parity
import Lifeline.Proofs.Model.Building
import Lifeline.Proofs.Sorting
import Lifeline.Proofs.Stages
import Lifeline.Proofs.Tests.Raises
import Lifeline.Proofs.Tests.Trees

/-!
# Exceptions that calls pass on

Several throws can pass through one call (`Model.passing`). The sites of the call stand together in
the order of the throws (`Context.raiseSites_filter`), so a group that ends at the call checks for
the exception of the first of them (`Context.firstSite_passed`), and the stub of the call raises
that of the last (`Context.raisedAt_passed`).

**`stub_raises_iff_of_synthesis`**: the stub raises what the check asks for exactly where the first
and the last throw through the call name one exception.
-/

set_option autoImplicit false

namespace Lifeline.Model

/-- The throws that pass through a call, in the order of the diagram. -/
def passing (m : Model) (call : Int) : List Throw := m.throws.filter (·.through.contains call)

theorem passing_eq {m : Model} {call : Int} :
    m.passing call = m.throws.filter fun t => t.through.count call ≠ 0 := by
  refine List.filter_congr fun t _ => ?_
  rw [List.contains_eq_mem, decide_eq_decide, ne_eq, List.count_eq_zero, not_not]

end Lifeline.Model

namespace Lifeline.Tests

open Model

/-- The site at which a call passes a throw on. -/
def passedAt (i : Interaction) (t : Throw) : RaiseSite :=
  { throw := t, scope := i.scope, sequence := i.position, raisedBy := some i.index }

namespace Context

/-- The sites of one throw. -/
def sitesOf (c : Context) (x : Method) (t : Throw) : List RaiseSite :=
  (if t.method == x.call && t.participant == x.owner then
    [{ throw := t, scope := t.scope, sequence := t.position, raisedBy := none }] else []) ++
  t.through.filterMap fun call =>
    match c.model.interaction? call with
    | some i =>
      if i.method == x.call then
        some { throw := t, scope := i.scope, sequence := i.position, raisedBy := some call }
      else none
    | none => none

variable {c : Context} {x : Method}

theorem raiseSites_eq : c.raiseSites x =
    sortBy (fun a b => a.sequence ≤ b.sequence) (c.model.throws.flatMap (c.sitesOf x)) := rfl

variable (hs : c.model.Sound) {i : Interaction} (hi : i ∈ c.model.interactionsOf x.call)
include hs hi

/-- The sites of a throw at a call: one for each time that the throw passes through it. -/
theorem sitesOf_filter {t : Throw} (ht : t ∈ c.model.throws) :
    (c.sitesOf x t).filter (·.raisedBy == some i.index) =
      List.replicate (t.through.count i.index) (passedAt i t) := by
  obtain ⟨him, hix⟩ := List.mem_filter.1 hi
  have hown : (if t.method == x.call && t.participant == x.owner then
      [({ throw := t, scope := t.scope, sequence := t.position, raisedBy := none } : RaiseSite)]
      else []).filter (·.raisedBy == some i.index) = [] := by
    split <;> rfl
  have hthrough := hs.through t ht
  rw [sitesOf, List.filter_append, hown, List.nil_append]
  generalize t.through = calls at hthrough
  induction calls with
  | nil => rfl
  | cons call calls ih =>
    have ih := ih fun k hk => hthrough k (.tail _ hk)
    obtain ⟨j, hj, rfl⟩ := hthrough call (.head _)
    rw [List.filterMap_cons, hs.interaction?_index hj]
    by_cases hji : j.index = i.index
    · obtain rfl := List.inj_on_of_nodup_map hs.nodup_indexes hj him hji
      dsimp only
      rw [if_pos hix, List.filter_cons_of_pos (by simp), ih, List.count_cons_self,
        List.replicate_succ]
      rfl
    · rw [List.count_cons_of_ne hji, ← ih]
      dsimp only
      split
      · rfl
      · rename_i s hsite
        split at hsite
        · obtain rfl := Option.some.inj hsite
          rw [List.filter_cons_of_neg (by simpa using hji)]
        · cases hsite

/-- The sites of a call stand in the order of the throws. -/
theorem raiseSites_filter : (c.raiseSites x).filter (·.raisedBy == some i.index) =
    c.model.throws.flatMap fun t => List.replicate (t.through.count i.index) (passedAt i t) := by
  have hflat : (c.model.throws.flatMap (c.sitesOf x)).filter (·.raisedBy == some i.index) =
      c.model.throws.flatMap fun t => List.replicate (t.through.count i.index) (passedAt i t) := by
    rw [List.filter_flatMap]
    exact List.flatMap_congr fun t ht => sitesOf_filter hs hi ht
  -- All of them have the position of the call.
  have hpos : ∀ s ∈ c.model.throws.flatMap (c.sitesOf x), (s.raisedBy == some i.index) = true →
      s.sequence = i.position := by
    intro s hsite hcall
    have hmem : s ∈ (c.model.throws.flatMap (c.sitesOf x)).filter (·.raisedBy == some i.index) :=
      List.mem_filter.2 ⟨hsite, hcall⟩
    rw [hflat] at hmem
    obtain ⟨t, -, hst⟩ := List.mem_flatMap.1 hmem
    rw [(List.mem_replicate.1 hst).2, passedAt]
  rw [raiseSites_eq, filter_sortBy fun s hsite s' hsite' hcall hcall' => ?_, hflat]
  simp [hpos s hsite hcall, hpos s' hsite' hcall']

/-- The first site of a call passes on the first throw through it. -/
theorem firstSite_passed {P : Path} {s : RaiseSite} (h : c.firstSite x P = some s)
    (hcall : s.raisedBy = some i.index) :
    (c.model.passing i.index).head?.map (passedAt i) = some s := by
  obtain ⟨hruns, A, B, hAB, hA⟩ := List.find?_eq_some_iff_append.1 h
  have hscope : ∀ s' ∈ c.raiseSites x, s'.raisedBy = some i.index → s'.scope = i.scope := by
    intro s' hs' hcall'
    have hmem : s' ∈ (c.raiseSites x).filter (·.raisedBy == some i.index) :=
      List.mem_filter.2 ⟨hs', by simpa using hcall'⟩
    rw [raiseSites_filter hs hi] at hmem
    obtain ⟨t, -, hst⟩ := List.mem_flatMap.1 hmem
    rw [(List.mem_replicate.1 hst).2, passedAt]
  -- The group reaches all sites of the call or none, so none of them stands before `s`.
  have hnone : A.filter (·.raisedBy == some i.index) = [] := by
    refine List.filter_eq_nil_iff.2 fun s' hs' hcall' => ?_
    have hmem' : s' ∈ c.raiseSites x := by simp [hAB, hs']
    have hmem : s ∈ c.raiseSites x := by simp [hAB]
    have hnot := hA s' hs'
    rw [hscope s' hmem' (by simpa using hcall'), ← hscope s hmem hcall, hruns] at hnot
    cases hnot
  have hhead := congrArg List.head? (raiseSites_filter hs hi)
  rw [hAB, List.filter_append, hnone, List.nil_append,
    List.filter_cons_of_pos (by simpa using hcall), List.head?_cons,
    head?_flatMap_replicate] at hhead
  rw [passing_eq, hhead]

/-- The stub of a call raises what the last throw through it names. -/
theorem raisedAt_passed : raisedAt (c.raiseSites x) i.index =
    (c.model.passing i.index).getLast?.map (·.exception) := by
  rw [raisedAt, ← List.head?_filter, List.filter_reverse, ← List.getLast?_eq_head?_reverse,
    raiseSites_filter hs hi, getLast?_flatMap_replicate, passing_eq, Option.map_map]
  rfl

end Context

namespace TreeOf

variable {c : Context} {t : Tree} (h : TreeOf c t)
include h

/-- A group that ends at a call has one stub for the call, and the stub raises. -/
theorem exists_raising {x : Method} {P : Path} {g : Group} (hg : GroupOf c x P g) {i : Interaction}
    (hi : i ∈ c.model.interactionsOf x.call) (hr : runs i.scope (c.chosen x P) = true) {e : String}
    (he : Context.raisedAt (c.raiseSites x) i.index = some e) :
    ∃ stub, g.stubs.filter (·.call == i.index) = [stub] ∧ stub.raises = some e := by
  have ha : answers c x i = true := by simp [answers, he]
  obtain ⟨stub, hstub, his⟩ := forall₂_left hg.stubs i
    (List.mem_filter.2 ⟨List.mem_filter.2 ⟨hi, hr⟩, ha⟩)
  have hone : (g.stubs.filter (·.call == i.index)).length = 1 := by
    have hcount := List.count_eq_one_of_mem (h.nodup_stubs hg)
      (List.mem_map_of_mem (f := (·.call)) hstub)
    rwa [his.call, List.count_eq_countP, List.countP_map, List.countP_eq_length_filter] at hcount
  obtain ⟨stub', hfilter⟩ := List.length_eq_one_iff.1 hone
  have hmem : stub ∈ g.stubs.filter (·.call == i.index) :=
    List.mem_filter.2 ⟨hstub, by simpa using his.call⟩
  rw [hfilter, List.mem_singleton] at hmem
  exact ⟨stub, hmem ▸ hfilter, his.raises.trans he⟩

/-- What a check of a propagated exception and the stub behind it say. -/
theorem propagation {g : Group} (hg : g ∈ t.groups) {a : RaiseCheck} (ha : a ∈ g.raiseChecks)
    (hp : a.propagated = true) :
    ∃ call stub first last, a.raisedBy = some call ∧
      g.stubs.filter (·.call == call) = [stub] ∧
      (c.model.passing call).head? = some first ∧ (c.model.passing call).getLast? = some last ∧
      a.exception = first.exception ∧ stub.raises = some last.exception := by
  obtain ⟨x, -, P, -, hgx⟩ := h.group_of_mem hg
  obtain ⟨s, hfirst, hsa⟩ := hgx.raise_of_mem ha
  have hsite : SiteOf c x s := Context.siteOf_mem h.sound (List.mem_of_find?_eq_some hfirst)
  cases hsite with
  | own => simp [hsa.propagated] at hp
  | @passed thrown i hi =>
    obtain ⟨first, hhead, hsame⟩ :=
      Option.map_eq_some_iff.1 (Context.firstSite_passed h.sound hi hfirst rfl)
    obtain rfl : first = thrown := congrArg RaiseSite.throw hsame
    obtain ⟨last, hlast⟩ : ∃ last, (c.model.passing i.index).getLast? = some last := by
      rw [← Option.isSome_iff_exists, List.getLast?_isSome]
      exact List.ne_nil_of_mem (List.mem_of_mem_head? hhead)
    have hraised : Context.raisedAt (c.raiseSites x) i.index = some last.exception := by
      rw [Context.raisedAt_passed h.sound hi, hlast, Option.map_some]
    have hreached : runs i.scope (c.chosen x P) = true :=
      (List.find?_eq_some_iff_append.1 hfirst).1
    obtain ⟨stub, hstub, hraises⟩ := h.exists_raising hgx hi hreached hraised
    exact ⟨i.index, stub, first, last, hsa.raisedBy, hstub, hhead, hlast, hsa.exception, hraises⟩

end TreeOf

variable {source : String} {d : Diagram} {o : Options} {m : Model} {s : LeafSuffixes}
  {p : Profile} {t : Tree}

/-- **The stub behind a propagated exception.** Where a group checks for one, it has exactly one
stub for the call that passes it on, and that stub raises. It raises the exception that the check
asks for exactly where the first and the last throw through the call name the same one. -/
theorem stub_raises_iff_of_synthesis (hd : Diagram.parse source = .ok d)
    (hm : d.buildModel o = .ok m) (ht : m.synthesizeTests (m.classify s) p = .ok t) {g : Group}
    (hg : g ∈ t.groups) {a : RaiseCheck} (ha : a ∈ g.raiseChecks) (hp : a.propagated = true) :
    ∃ call stub, a.raisedBy = some call ∧ g.stubs.filter (·.call == call) = [stub] ∧
      stub.raises.isSome = true ∧
      (stub.raises = some a.exception ↔
        (m.passing call).head?.map (·.exception) = (m.passing call).getLast?.map (·.exception)) := by
  have hs : m.Sound := sound_of_build (Diagram.sound_of_parse hd) hm
  obtain ⟨call, stub, first, last, hcall, hstub, hfirst, hlast, hexception, hraises⟩ :=
    (treeOf_synthesis hs ht).propagation hg ha hp
  refine ⟨call, stub, hcall, hstub, by rw [hraises]; rfl, ?_⟩
  dsimp only at hfirst hlast
  rw [hraises, hexception, hfirst, hlast, Option.map_some, Option.map_some, eq_comm]

/-- A diagram with a leaf that raises one of two exceptions. -/
def eitherRaise : String :=
  "[-> A : run(x)\nA -> BRepository : load(x)\n" ++
    "alt [x]\nBRepository -> BRepository : <<throws>> Missing\n" ++
    "else\nBRepository -> BRepository : <<throws>> Locked\nend\n"

/-- The check asks for the first exception, and the stub raises the second. -/
theorem raises_eitherRaise : ∃ y ∈ Stages.of? eitherRaise, ∃ g ∈ y.tests.groups,
    ∃ a ∈ g.raiseChecks, a.propagated = true ∧ a.raisedBy = some 0 ∧ a.exception = "Missing" ∧
      g.stubs.map (fun s => (s.call, s.raises)) = [(0, some "Locked")] := by
  unfold eitherRaise
  rw [Stages.of?_toList, String.toList_append, String.toList_append, String.toList_ofList,
    String.toList_ofList, String.toList_ofList]
  decide +kernel

theorem stub_raises_iff_eitherRaise : ∃ d m t, Diagram.parse eitherRaise = .ok d ∧
    d.buildModel = .ok m ∧ m.synthesizeTests m.classify = .ok t ∧
      ∃ g ∈ t.groups, ∃ a ∈ g.raiseChecks, a.propagated = true ∧
        ∃ call stub, a.raisedBy = some call ∧ g.stubs.filter (·.call == call) = [stub] ∧
          stub.raises.isSome = true ∧
          (stub.raises = some a.exception ↔ (m.passing call).head?.map (·.exception) =
            (m.passing call).getLast?.map (·.exception)) := by
  obtain ⟨y, hy, g, hg, a, ha, hp, -⟩ := raises_eitherRaise
  obtain ⟨d, hd, hm, ht, -⟩ := Stages.of?_eq_some hy
  exact ⟨d, y.model, y.tests, hd, hm, ht, g, hg, a, ha, hp,
    stub_raises_iff_of_synthesis hd hm ht hg ha hp⟩

/-- Not every stub raises what is checked for. -/
theorem not_stub_raises_eitherRaise : ¬ ∀ (source : String) (o : Options) (d : Diagram) (m : Model)
    (t : Tree), Diagram.parse source = .ok d → d.buildModel o = .ok m →
      m.synthesizeTests m.classify = .ok t → ∀ g ∈ t.groups, ∀ a ∈ g.raiseChecks,
        a.propagated = true → ∃ stub, g.stubs.filter (fun s => some s.call == a.raisedBy) = [stub] ∧
          stub.raises = some a.exception := by
  intro h
  obtain ⟨y, hy, g, hg, a, ha, hp, hcall, hexception, hstubs⟩ := raises_eitherRaise
  obtain ⟨d, hd, hm, ht, -⟩ := Stages.of?_eq_some hy
  obtain ⟨stub, hstub, hraises⟩ := h eitherRaise {} d y.model y.tests hd hm ht g hg a ha hp
  have hmem : stub ∈ g.stubs := List.mem_of_mem_filter (hstub ▸ List.mem_singleton_self stub)
  have hpair := List.mem_map_of_mem (f := fun s => (s.call, s.raises)) hmem
  rw [hstubs, hraises, hexception] at hpair
  simp at hpair

end Lifeline.Tests
