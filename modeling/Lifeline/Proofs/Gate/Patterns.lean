import Lifeline.Proofs.Gate.Parity

/-!
# Pattern rules of synthesized trees

**`patternRules_of_synthesis`**: the tree of the tests of a diagram never fails the pattern rules.
The setup of a group reaches no raise of its method, since a group that reaches one ends in it
(`TreeOf.setupFailures_nil`); every branch of a method has one group (`TreeOf.ends_perm`); and the
computational leaves with mocks are those with decision tables (`TreeOf.tableFailures_nil`).
-/

namespace Lifeline.Tests

open Model

/-- The branch that a path ends in, as references have it. -/
def endOf (P : Path) : List (Int × Int) :=
  (P.getLast?.map fun x => ((x.1 : Int), (x.2 : Int))).toList

namespace TreeOf

variable {c : Context} {t : Tree}

/-! ## Setups -/

/-- The setup of a group reaches no raise that is checked for its method. -/
theorem setupFailures_nil {x : Method} {mt : MethodTests} (hm : MethodOf c x mt) :
    Gate.setupFailures mt = [] := by
  unfold Gate.setupFailures
  rw [List.filterMap_eq_nil_iff]
  intro g hg
  obtain ⟨P, hP, hgx⟩ := forall₂_right hm.groups g hg
  split
  · rfl
  · rename_i hmode
    have hnone : c.firstSite x P = none := by
      rw [hgx.mode] at hmode
      cases hs : c.firstSite x P with
      | none => rfl
      | some s => simp [hs] at hmode
    dsimp only
    rw [Option.map_eq_none_iff, List.find?_eq_none]
    intro a ha
    obtain ⟨g', hg', ha⟩ := List.mem_flatMap.1 ha
    obtain ⟨P', -, hgx'⟩ := forall₂_right hm.groups g' hg'
    obtain ⟨s, hs, has⟩ := forall₂_right hgx'.raises a ha
    have hmem : s ∈ c.raiseSites x := List.mem_of_find?_eq_some (Option.mem_toList.1 hs)
    intro hall
    refine List.find?_eq_none.1 hnone s hmem (hgx.runs_of_taken has.scope fun r hr hk => ?_)
    have := List.all_eq_true.1 hall r (List.mem_filter.2 ⟨hr, by simp [hk]⟩)
    simpa using this

theorem suiteFailures_nil {p : Classified} {s : Suite} (hs : SuiteOf c p s) :
    Gate.suiteFailures s = [] := by
  have hmock : s.mocks.map (·.collaborator) =
      (((methodsOf c p).flatMap fun x => c.model.interactionsOf x.call).map
        (·.target)).eraseDups := by
    rw [← forall₂_map (f := id) hs.mocks fun target k hk => hk.1.symm, List.map_id]
  unfold Gate.suiteFailures
  dsimp only
  rw [List.append_eq_nil_iff, List.append_eq_nil_iff, List.filterMap_eq_nil_iff,
    List.flatMap_eq_nil_iff, List.flatMap_eq_nil_iff, hmock]
  refine ⟨⟨fun y hy => ?_, fun g hg => List.filterMap_eq_nil_iff.2 fun a ha => if_pos ?_⟩,
    fun mt hmt => ?_⟩
  · rw [if_pos (by simpa using Gate.tally_of_nodup (nodup_eraseDups _) y hy)]
  · obtain ⟨mt, hmt, hg⟩ := List.mem_flatMap.1 hg
    obtain ⟨x, hx, hmx⟩ := forall₂_right hs.methods mt hmt
    obtain ⟨P, -, hgx⟩ := forall₂_right hmx.groups g hg
    obtain ⟨i, hi, hia⟩ := forall₂_right hgx.calls a ha
    rw [List.contains_iff_mem, List.mem_eraseDups, hia.collaborator]
    exact List.mem_map.2 ⟨i, List.mem_flatMap.2 ⟨x, hx, (List.mem_filter.1 hi).1⟩, rfl⟩
  · obtain ⟨x, -, hmx⟩ := forall₂_right hs.methods mt hmt
    exact setupFailures_nil hmx

/-! ## Groups -/

theorem raiseFailures_nil {x : Method} {P : Path} {g : Group} (hg : GroupOf c x P g) :
    Gate.raiseFailures g = [] := by
  unfold Gate.raiseFailures
  dsimp only
  rw [List.append_eq_nil_iff, List.filterMap_eq_nil_iff]
  refine ⟨fun y hy => ?_, ?_⟩
  · rw [if_pos (by simpa using (Gate.tally_of_nodup hg.names y hy).le)]
  · have hinv := hg.invokes
    have hraises := hg.raises
    have hresults := hg.results
    rw [hg.mode]
    cases hs : c.firstSite x P with
    | none =>
      rw [hs] at hinv hraises
      have hnil : g.raiseChecks = [] := by simpa using hraises
      rw [if_neg (by simp)]
      dsimp only
      rw [if_pos]
      simp only [hnil, List.isEmpty_nil, Bool.true_and, Bool.not_eq_true', List.any_eq_false]
      exact fun k hk => by simp [hinv k hk]
    | some site =>
      rw [hs] at hinv hraises hresults
      have hl : g.raiseChecks.length = 1 := by simpa using hraises.length_eq.symm
      have hr : g.resultChecks = [] := by simpa using hresults
      rw [if_pos (by simp)]
      dsimp only
      rw [if_pos (by simpa using hl), if_pos (by simp [hr]), if_pos]
      · rfl
      · rw [List.all_eq_true]
        exact fun k hk => by simp [hinv k hk]

variable (h : TreeOf c t)
include h

theorem shapeFailures_nil {x : Method} {P : Path} {g : Group} (hg : GroupOf c x P g) :
    Gate.shapeFailures c.model g = [] := by
  unfold Gate.shapeFailures
  dsimp only
  rw [raiseFailures_nil hg, List.append_nil, List.append_eq_nil_iff, List.filterMap_eq_nil_iff,
    List.filterMap_eq_nil_iff]
  refine ⟨fun l hl => if_pos (by simp [hg.sizes l hl]), fun s hs => if_neg ?_⟩
  obtain ⟨i, hi, -, -, -, his⟩ := hg.stub_of_mem hs
  simp only [Bool.and_eq_true, List.any_eq_true, beq_iff_eq, Bool.not_eq_true', not_and,
    Bool.not_eq_false]
  rintro ⟨j, hj, hjs, hloop⟩
  obtain rfl : j = i :=
    List.inj_on_of_nodup_map h.sound.nodup_indexes hj hi (hjs.trans his.call)
  simp [his.single, hloop]

/-! ## Branches -/

/-- The alternatives of the methods, method by method. -/
theorem blocks_perm : (c.model.methods.flatMap c.blocksOf).Perm
    (c.model.alternatives.filter fun b => c.model.methods.any (·.call == b.method)) := by
  have howned : ∀ b ∈ c.model.alternatives.filter fun b =>
      c.model.methods.any (·.call == b.method), b.method ∈ c.model.methods.map (·.call) := by
    intro b hb
    obtain ⟨x, hx, he⟩ := List.any_eq_true.1 (List.mem_filter.1 hb).2
    exact List.mem_map.2 ⟨x, hx, by simpa using he⟩
  have hp := flatMap_filter_perm (fun b : Alternative => b.method) h.sound.methods howned
  rw [List.flatMap_map] at hp
  refine .trans (.of_eq ?_) hp
  refine List.flatMap_congr fun x hx => ?_
  rw [List.filter_filter, Context.blocksOf]
  refine List.filter_congr fun b _ => ?_
  by_cases hm : b.method = x.call
  · have : c.model.methods.any (·.call == b.method) = true :=
      List.any_eq_true.2 ⟨x, hx, by simp [hm]⟩
    simp [this]
  · simp [hm]

/-- **The ends of the groups** are the branches of the methods, each once. -/
theorem ends_perm : (t.groups.filterMap fun g => g.path.getLast?.map (·.choice)).Perm
    ((c.model.alternatives.filter fun b => c.model.methods.any (·.call == b.method)).flatMap
      fun b => b.branches.map fun br => ((b.id : Int), (br.index : Int))) := by
  have hp := h.groups_perm (f := fun g => (g.path.getLast?.map (·.choice)).toList)
    (F := fun _ P => endOf P) fun x P g hg => by
      rw [hg.path, List.getLast?_map, Option.map_map]
      rfl
  rw [List.filterMap_eq_flatMap_toList]
  refine hp.trans (List.Perm.trans ?_ (h.blocks_perm.flatMap_right _))
  rw [List.flatMap_assoc]
  refine List.Perm.flatMap_left _ fun x _ => ?_
  have hs : (c.paths x).Perm ((c.starts x).map (·.1)) := (sortBy_perm _).map _
  refine (hs.flatMap_right _).trans (.of_eq ?_)
  rw [Context.starts, List.flatMap_map, List.flatMap_append, List.flatMap_assoc]
  have hmain : ((if c.hasMainPath x then [([], 0)] else []) : List (Path × Nat)).flatMap
      (fun y => endOf y.1) = [] := by
    split <;> rfl
  rw [hmain, List.nil_append]
  refine List.flatMap_congr fun b _ => ?_
  rw [List.flatMap_map, List.map_eq_flatMap]
  simp [endOf]

theorem branchFailures_nil : Gate.branchFailures t c.model = [] := by
  unfold Gate.branchFailures
  dsimp only
  rw [List.flatMap_eq_nil_iff]
  refine fun b hb => List.filterMap_eq_nil_iff.2 fun br hbr => if_pos ?_
  rw [beq_iff_eq, h.ends_perm.count_eq]
  refine List.count_eq_one_of_mem ?_
    (List.mem_flatMap.2 ⟨b, hb, List.mem_map.2 ⟨br, hbr, rfl⟩⟩)
  rw [List.nodup_flatMap]
  refine ⟨fun b hb => ?_, ?_⟩
  · have hi : (b.branches.map (·.index)).Nodup := by
      rw [(h.sound.branches b (List.mem_filter.1 hb).1).2]
      exact List.nodup_range
    refine List.Nodup.of_map (fun y : Int × Int => y.2.toNat) ?_
    rw [List.map_map]
    exact hi
  · refine (List.pairwise_map.1 (h.sound.blocks.sublist
      (List.filter_sublist.map _))).imp fun {b b'} hne => ?_
    simp only [Function.onFun, List.disjoint_left, List.mem_map]
    rintro y ⟨br, -, rfl⟩ ⟨br', -, he⟩
    simp only [Prod.mk.injEq] at he
    exact hne (by omega)

/-! ## Tables -/

theorem leaf_of_mock {leaf : String} (hl : leaf ∈ Gate.computationalLeaves t) :
    ∃ p ∈ c.roles.computational, p.name = leaf ∧
      c.model.interactions.any (·.target == p.name) = true := by
  obtain ⟨s, hs⟩ := h.roles
  simp only [Gate.computationalLeaves, mem_sortBy, List.mem_eraseDups, List.mem_map,
    List.mem_flatMap, List.mem_filter, beq_iff_eq] at hl
  obtain ⟨k, ⟨suite, hsuite, hk, hkind⟩, rfl⟩ := hl
  obtain ⟨p, -, hsp⟩ := forall₂_right h.suites suite hsuite
  obtain ⟨target, ht, hkt, hkk⟩ := forall₂_right hsp.mocks k hk
  obtain ⟨i, hi, rfl⟩ := List.mem_map.1 (List.mem_eraseDups.1 ht)
  obtain ⟨x, -, hi⟩ := List.mem_flatMap.1 hi
  obtain ⟨q, hq, hqn⟩ := h.sound.targets i (List.mem_filter.1 hi).1
  have hnames := h.sound.nodup_classified s
  rw [← hs] at hnames
  obtain ⟨r, hr, hrn⟩ : ∃ r ∈ c.roles.participants, r.name = i.target := by
    rw [hs]
    exact ⟨_, List.mem_map.2 ⟨q, hq, rfl⟩, hqn⟩
  have hfind : c.roles.find? i.target = some r := by
    rw [← hrn]
    exact find?_key hnames hr
  refine ⟨r, List.mem_filter.2 ⟨hr, ?_⟩, by rw [hrn, hkt], ?_⟩
  · rw [hkind, Context.mockKind, hfind] at hkk
    obtain ⟨name, role, underTest⟩ := r
    rcases role with _ | kind
    · cases hkk
    · cases kind
      · rfl
      · cases hkk
  · exact List.any_eq_true.2 ⟨i, (List.mem_filter.1 hi).1, by simp [hrn]⟩

theorem tableFailures_nil : Gate.tableFailures t = [] := by
  obtain ⟨s, hs⟩ := h.roles
  unfold Gate.tableFailures
  dsimp only
  rw [List.append_eq_nil_iff, List.filterMap_eq_nil_iff, List.filterMap_eq_nil_iff]
  refine ⟨fun leaf hl => if_pos ?_, fun d hd => ?_⟩
  · obtain ⟨p, hp, rfl, hcalled⟩ := h.leaf_of_mock hl
    have hnames : ((c.roles.computational.filter fun leaf =>
        c.model.interactions.any (·.target == leaf.name)).map (·.name)).Nodup := by
      refine (h.sound.nodup_classified s).sublist ?_
      rw [← hs]
      exact (List.filter_sublist.trans List.filter_sublist).map _
    have htables := forall₂_map h.tables fun leaf d hd => hd.participant.symm
    have hc := List.count_eq_one_of_mem hnames
      (List.mem_map_of_mem (List.mem_filter.2 ⟨hp, hcalled⟩))
    rw [htables, List.count_eq_countP, List.countP_map] at hc
    exact beq_iff_eq.2 hc
  · obtain ⟨leaf, -, hleaf⟩ := forall₂_right h.tables d hd
    obtain ⟨k, hk, row, hrow, hp⟩ := hleaf.placeholder
    have hany : d.methods.any (fun k => k.rows.any (·.placeholder)) = true :=
      List.any_eq_true.2 ⟨k, hk, List.any_eq_true.2 ⟨row, hrow, hp⟩⟩
    rw [hleaf.status]
    simp [hany]

theorem patternRules_nil : Gate.patternRules t c.model = [] := by
  rw [Gate.patternRules, h.branchFailures_nil, h.tableFailures_nil, List.append_nil,
    List.append_nil, List.append_eq_nil_iff, List.flatMap_eq_nil_iff, List.flatMap_eq_nil_iff]
  refine ⟨fun s hs => ?_, fun g hg => ?_⟩
  · obtain ⟨p, -, hsp⟩ := forall₂_right h.suites s hs
    exact suiteFailures_nil hsp
  · obtain ⟨x, -, P, -, hgx⟩ := h.group_of_mem hg
    exact h.shapeFailures_nil hgx

end TreeOf

end Lifeline.Tests

namespace Lifeline.Gate

/-- **Pattern rules.** The tree that is synthesized for the model of a diagram passes the check:
mocks, groups, loops, raises, setups and decision tables follow their patterns. -/
theorem patternRules_of_synthesis {source : String} {d : Diagram} {o : Model.Options} {m : Model}
    {s : LeafSuffixes} {p : Profile} {t : Tests.Tree} (hd : Diagram.parse source = .ok d)
    (hm : d.buildModel o = .ok m) (ht : m.synthesizeTests (m.classify s) p = .ok t) :
    patternRules t m = [] :=
  (Tests.treeOf_synthesis (Model.sound_of_build (Diagram.sound_of_parse hd) hm) ht).patternRules_nil

theorem patternRules_earlyResult : ∃ d m t, Diagram.parse Stages.earlyResult = .ok d ∧
    d.buildModel = .ok m ∧ m.synthesizeTests m.classify = .ok t ∧ patternRules t m = [] := by
  obtain ⟨x, hx, -⟩ := Stages.of?_earlyResult
  obtain ⟨d, hd, hm, ht, -⟩ := Stages.of?_eq_some hx
  exact ⟨d, x.model, x.tests, hd, hm, ht, patternRules_of_synthesis hd hm ht⟩

end Lifeline.Gate
