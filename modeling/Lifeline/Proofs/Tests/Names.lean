import Lifeline.Proofs.Tests.Holders

/-!
# The names in a group

The setup of a group gives a meaning to the reserved names, to the mocks of the suite, to the
parameters of the method and to the variables of the stubs (`Suite.namesIn`). The variables are made
distinct, from each other and from the other names, except that of the mocks only those count whose
collaborator the group reaches (`Context.stubs_apart`). So the names are distinct where the names
that do not depend on stubs are, and no variable is the name of a mock that the group leaves idle
(`namesIn_nodup_iff`).
-/

set_option autoImplicit false

namespace Lifeline.Tests

open Model (Interaction Method Path)

/-- The variables of the stubs of a group. -/
def Group.variables (g : Group) : List String := g.stubs.filterMap (·.holder)

/-- The names that the setup of a group gives a meaning to. -/
def Suite.namesIn (s : Suite) (mt : MethodTests) (g : Group) : List String :=
  ["subject", "result"] ++ s.mocks.map (·.name) ++ mt.parameters ++ g.variables

/-- The names that every group of a method has: the reserved ones, the collaborators of the suite
and the parameters of the method. -/
def Suite.fixedNames (s : Suite) (x : Method) : List String :=
  ["subject", "result"] ++ s.mocks.map (fun k => Name.snake k.collaborator) ++
    x.parameters.map Name.snake

/-- The group reaches no call to the collaborator of the mock. -/
def Mock.IdleIn (k : Mock) (m : Model) (x : Method) (g : Group) : Prop :=
  ∀ i ∈ m.interactionsOf x.call, g.reaches i.scope = true → i.target ≠ k.collaborator

/-! ## The variables of stubs -/

namespace Context

variable {c : Context} {x : Method} {P : Path} {g : Group}

/-- The variables of stubs are distinct and new. -/
theorem variables_of_stubsFrom {sites : List RaiseSite} {guards : List String} :
    ∀ {taken : List String} {is : List Interaction} {stubs : List Stub},
      c.stubsFrom x sites guards taken is = .ok stubs →
        (stubs.filterMap (·.holder)).Nodup ∧ ∀ name ∈ stubs.filterMap (·.holder), name ∉ taken
  | _, [], stubs, h => by
    obtain rfl := Except.ok.inj h
    simp
  | taken, i :: is, stubs, h => by
    unfold stubsFrom at h
    dsimp only at h
    split at h
    · exact variables_of_stubsFrom h
    · simp only [bind_ok] at h
      obtain ⟨mock, -, name, -, h⟩ := h
      obtain ⟨s, rest, hnew, hrest, rfl⟩ : ∃ s rest, (∀ n, s.holder = some n → n ∉ taken) ∧
          c.stubsFrom x sites guards (taken ++ s.holder.toList) is = .ok rest ∧
            s :: rest = stubs := by
        split at h
        · split at h
          · simp only [bind_ok, pure_ok, Except.ok.injEq, exists_eq_left'] at h
            obtain ⟨rest, hrest, rfl⟩ := h
            exact ⟨_, rest, by simp, hrest, rfl⟩
          · simp only [bind_ok, map_ok, pure_ok] at h
            obtain ⟨_, ⟨base, -, rfl⟩, rest, hrest, rfl⟩ := h
            refine ⟨_, rest, fun n hn => ?_, hrest, rfl⟩
            rw [← Option.some.inj hn]
            exact Name.unique_not_mem base taken
        · simp only [bind_ok, pure_ok, Except.ok.injEq, exists_eq_left'] at h
          obtain ⟨rest, hrest, rfl⟩ := h
          exact ⟨_, rest, by simp, hrest, rfl⟩
      obtain ⟨hnodup, hfresh⟩ := variables_of_stubsFrom hrest
      cases hholder : s.holder with
      | none =>
        rw [List.filterMap_cons_none hholder]
        exact ⟨hnodup, fun n hn ht => hfresh n hn (List.mem_append_left _ ht)⟩
      | some n =>
        rw [List.filterMap_cons_some hholder, List.nodup_cons, List.forall_mem_cons]
        rw [hholder] at hfresh
        refine ⟨⟨fun hn => hfresh n hn (by simp), hnodup⟩, hnew n hholder, ?_⟩
        exact fun n' hn' ht => hfresh n' hn' (List.mem_append_left _ ht)

/-- The variables of the stubs of a group are distinct, and apart from the names that are taken: the
mocks that the group reaches, the reserved names and the parameters of the method. -/
structure Apart (c : Context) (x : Method) (P : Path) (g : Group) : Prop where
  nodup : g.variables.Nodup
  reserved : "subject" ∉ g.variables ∧ "result" ∉ g.variables
  parameters : ∀ p ∈ x.parameters, ∀ name, c.naming.valueName p = .ok name → name ∉ g.variables
  mocks : ∀ i ∈ c.model.interactionsOf x.call, runs i.scope (c.chosen x P) = true →
    ∀ name, c.mockName i.target = .ok name → name ∉ g.variables

theorem apart_of_group {taken : List String} (h : c.group x taken P = .ok g) : Apart c x P g := by
  unfold group at h
  dsimp only at h
  simp only [bind_ok, lift_ok] at h
  obtain ⟨pathRefs, -, steeringRefs, -, stubs, hstubs, calls, -, h⟩ := h
  obtain rfl : g.stubs = stubs := by
    split at h
    · simp only [bind_ok, pure_ok, lift_ok, Except.ok.injEq, exists_eq_left'] at h
      obtain ⟨name, -, check, -, qualifiers, -, gname, -, loops, -, rfl⟩ := h
      rfl
    · simp only [bind_ok, pure_ok, lift_ok] at h
      obtain ⟨last, -, qualifiers, -, gname, -, loops, -, rfl⟩ := h
      rfl
  simp only [Context.stubs, bind_ok] at hstubs
  obtain ⟨mocks, hmocks, parameters, hparameters, hstubs⟩ := hstubs
  obtain ⟨hnodup, hnew⟩ := variables_of_stubsFrom hstubs
  have htaken : ∀ name ∈ mocks ++ ["subject", "result"] ++ parameters, name ∉ g.variables :=
    fun name ht hn => hnew name hn ht
  refine ⟨hnodup, ⟨htaken _ (by simp), htaken _ (by simp)⟩, fun p hp name hname => ?_,
    fun i hi hruns name hname => ?_⟩
  · obtain ⟨name', hname', hp⟩ := forall₂_left (mapM_ok.1 hparameters) p hp
    obtain rfl := Except.ok.inj (hp.symm.trans hname)
    exact htaken _ (List.mem_append_right _ hname')
  · obtain ⟨name', hname', hi⟩ := forall₂_left (mapM_ok.1 hmocks) i
      (List.mem_filter.2 ⟨hi, hruns⟩)
    obtain rfl := Except.ok.inj (hi.symm.trans hname)
    exact htaken _ (List.mem_append_left _ (List.mem_append_left _ hname'))

theorem apart_of_groups : ∀ {taken : List String} {Ps : List Path} {gs : List Group},
    c.groups x taken Ps = .ok gs → List.Forall₂ (Apart c x) Ps gs
  | _, [], gs, h => by
    obtain rfl := Except.ok.inj h
    exact .nil
  | taken, P :: Ps, gs, h => by
    simp only [groups, bind_ok, pure_ok] at h
    obtain ⟨g, hg, rest, hrest, rfl⟩ := h
    exact .cons (apart_of_group hg) (apart_of_groups hrest)

theorem apart_of_methodTests : ∀ {taken : List String} {xs : List Method}
    {ms : List MethodTests}, c.methodTests taken xs = .ok ms →
      List.Forall₂ (fun x mt => List.Forall₂ (Apart c x) (c.paths x) mt.groups) xs ms
  | _, [], ms, h => by
    obtain rfl := Except.ok.inj h
    exact .nil
  | taken, x :: xs, ms, h => by
    simp only [methodTests, bind_ok, pure_ok, lift_ok] at h
    obtain ⟨-, -, groups, hgroups, name, -, parameters, -, others, hothers, rfl⟩ := h
    exact .cons (apart_of_groups hgroups) (apart_of_methodTests hothers)

/-- In the suites of a tree, the mocks have their names from the collaborators, and the variables
of every group are apart. -/
theorem apart_of_tree {t : Tree} (h : c.tree = .ok t) : ∀ s ∈ t.suites,
    (∀ k ∈ s.mocks, c.mockName k.collaborator = .ok k.name) ∧
      List.Forall₂ (fun x mt => List.Forall₂ (Apart c x) (c.paths x) mt.groups)
        (c.model.methods.filter (·.owner == s.subject)) s.methods := by
  intro s hs
  obtain ⟨p, -, hsuite⟩ := forall₂_right (tree_parts h).1 s hs
  rw [(suite_ok hsuite).subject]
  simp only [suite, bind_ok, pure_ok] at hsuite
  obtain ⟨mocks, hmocks, methods, hmethods, rfl⟩ := hsuite
  refine ⟨fun k hk => ?_, apart_of_methodTests hmethods⟩
  obtain ⟨collaborator, -, hmade⟩ := forall₂_right (mapM_ok.1 hmocks) k hk
  simp only [bind_ok, pure_ok, lift_ok] at hmade
  obtain ⟨declared, -, name, hname, kind, -, rfl⟩ := hmade
  exact hname

end Context

/-! ## Distinct names -/

/-- A mock has the name of its collaborator in snake case, where the profile is the built-in one. -/
theorem mock_builtin (collaborator : String) :
    Profile.builtin.naming.mock.apply [("collaborator", collaborator)] =
      .ok (Name.snake collaborator) := by
  have hfill : Template.fill Profile.builtin.naming.mock.pattern [("collaborator", collaborator)] =
      .ok (.ofList (collaborator.toList ++ [])) := by
    with_unfolding_all rfl
  rw [NamePattern.apply, hfill, List.append_nil, String.ofList_toList]
  rfl

/-- **The names in a group** are distinct exactly where the fixed ones are, and no variable of a
stub is the name of a mock that the group leaves idle. -/
theorem namesIn_nodup_iff {m : Model} {roles : Classification} {x : Method} {P : Path} {s : Suite}
    {mt : MethodTests} {g : Group} (hg : GroupOf ⟨m, roles, Profile.builtin.naming⟩ x P g)
    (hapart : Context.Apart ⟨m, roles, Profile.builtin.naming⟩ x P g)
    (hmocks : s.mocks.map (·.name) = s.mocks.map fun k => Name.snake k.collaborator)
    (hparameters : mt.parameters = x.parameters.map Name.snake) :
    (s.namesIn mt g).Nodup ↔ (s.fixedNames x).Nodup ∧
      ∀ k ∈ s.mocks, k.IdleIn m x g → k.name ∉ g.variables := by
  rw [Suite.namesIn, hmocks, hparameters, ← Suite.fixedNames, List.nodup_append']
  have hname : ∀ k ∈ s.mocks, k.name = Name.snake k.collaborator := List.map_inj_left.1 hmocks
  refine and_congr_right fun _ => ⟨fun h k hk _ hv => ?_, fun h => ⟨hapart.nodup, ?_⟩⟩
  · refine h.2 ?_ hv
    rw [hname k hk, Suite.fixedNames]
    exact List.mem_append_left _ (List.mem_append_right _ (List.mem_map_of_mem hk))
  · intro name hfixed hv
    simp only [Suite.fixedNames, List.mem_append, List.mem_map] at hfixed
    rcases hfixed with (hreserved | ⟨k, hk, rfl⟩) | ⟨p, hp, rfl⟩
    · simp only [List.mem_cons, List.not_mem_nil, or_false] at hreserved
      rcases hreserved with rfl | rfl
      · exact hapart.reserved.1 hv
      · exact hapart.reserved.2 hv
    · refine h k hk (fun i hi hreached htarget => ?_) (hname k hk ▸ hv)
      refine hapart.mocks i hi ((hg.reaches_eq _).symm.trans hreached) _ ?_ hv
      rw [← htarget]
      exact mock_builtin _
    · exact hapart.parameters p hp _ (valueName_builtin p) hv

/-- **Where the names in a group are distinct**: the suite of a subject has a method under test for
each method that the subject owns. The names in each of its groups are distinct exactly where the
reserved names, the collaborators of the suite and the parameters of the method are distinct in
snake case, and no stub has the variable of a mock whose collaborator the group does not reach. -/
theorem distinct_iff_of_synthesis {source : String} {d : Diagram} {o : Model.Options} {m : Model}
    {s : LeafSuffixes} {t : Tree} (hd : Diagram.parse source = .ok d) (hm : d.buildModel o = .ok m)
    (ht : m.synthesizeTests (m.classify s) = .ok t) {suite : Suite} (hs : suite ∈ t.suites) :
    List.Forall₂ (fun x mt => ∀ g ∈ mt.groups,
        suite.namesIn mt g = suite.fixedNames x ++ g.variables ∧
        ((suite.namesIn mt g).Nodup ↔ (suite.fixedNames x).Nodup ∧
          ∀ k ∈ suite.mocks, k.IdleIn m x g → k.name ∉ g.variables))
      (m.methods.filter (·.owner == suite.subject)) suite.methods := by
  have htree := treeOf_synthesis (Model.sound_of_build (Diagram.sound_of_parse hd) hm) ht
  obtain ⟨hnames, hapart⟩ := Context.apart_of_tree ht suite hs
  have hmocks : suite.mocks.map (·.name) =
      suite.mocks.map fun k => Name.snake k.collaborator :=
    List.map_congr_left fun k hk =>
      Except.ok.inj ((hnames k hk).symm.trans (mock_builtin k.collaborator))
  refine List.forall₂_iff_zip.2 ⟨hapart.length_eq, fun {x mt} hz g hg => ?_⟩
  have hmt := testsOf_of_zip hs hz
  have hparameters := hmt.parameters ht
  obtain ⟨P, -, hof, hga⟩ := forall₂_right (forall₂_and (hmt.methodOf htree).groups
    ((List.forall₂_iff_zip.1 hapart).2 hz)) g hg
  refine ⟨?_, namesIn_nodup_iff hof hga hmocks hparameters⟩
  rw [Suite.namesIn, hmocks, hparameters, Suite.fixedNames]

/-- A diagram in which one branch binds a value with the name of a collaborator that only the other
branch calls. -/
def lentName : String :=
  "[-> A : run(x)\nalt [x.a]\nA -> BRepository : load(x)\nBRepository --> A : cClient\nelse\n" ++
    "A -> CClient : send(x)\nCClient --> A : v\nend\n"

/-- In the first group a variable has the name of a mock, in the second one all names are
distinct. -/
theorem of?_lentName : ∃ x ∈ Stages.of? lentName, ∃ suite ∈ x.tests.suites,
    ∃ z ∈ (x.model.methods.filter (·.owner == suite.subject)).zip suite.methods,
      (suite.fixedNames z.1).Nodup ∧
      (∃ g ∈ z.2.groups, g.variables = ["c_client"] ∧ ¬(suite.namesIn z.2 g).Nodup) ∧
      ∃ g ∈ z.2.groups, g.variables = ["v"] ∧ (suite.namesIn z.2 g).Nodup := by
  unfold lentName
  rw [Stages.of?_toList, String.toList_append, String.toList_ofList, String.toList_ofList]
  decide +kernel

theorem distinct_iff_lentName : ∃ d m t, Diagram.parse lentName = .ok d ∧ d.buildModel = .ok m ∧
    m.synthesizeTests m.classify = .ok t ∧ ∃ suite ∈ t.suites, ∃ x ∈ m.methods,
      ∃ mt ∈ suite.methods,
        (∃ g ∈ mt.groups, ∃ k ∈ suite.mocks, k.IdleIn m x g ∧ k.name ∈ g.variables) ∧
        ∃ g ∈ mt.groups, g.variables = ["v"] ∧
          ∀ k ∈ suite.mocks, k.IdleIn m x g → k.name ∉ g.variables := by
  obtain ⟨y, hy, suite, hs, ⟨x, mt⟩, hz, hfixed, ⟨g, hg, -, hnot⟩, g', hg', hv, hnodup⟩ :=
    of?_lentName
  obtain ⟨d, hd, hm, ht, -⟩ := Stages.of?_eq_some hy
  have hiff := (List.forall₂_iff_zip.1 (distinct_iff_of_synthesis hd hm ht hs)).2 hz
  obtain ⟨hx, hmt⟩ := List.of_mem_zip hz
  refine ⟨d, y.model, y.tests, hd, hm, ht, suite, hs, x, List.mem_of_mem_filter hx, mt, hmt,
    ⟨g, hg, ?_⟩, g', hg', hv, ((hiff g' hg').2.1 hnodup).2⟩
  by_contra hnone
  exact hnot ((hiff g hg).2.2 ⟨hfixed, fun k hk hidle hin => hnone ⟨k, hk, hidle, hin⟩⟩)

/-- The names in a group are not always distinct. -/
theorem not_distinct_lentName : ¬∀ (source : String) (d : Diagram) (o : Model.Options) (m : Model)
    (s : LeafSuffixes) (t : Tree), Diagram.parse source = .ok d → d.buildModel o = .ok m →
      m.synthesizeTests (m.classify s) = .ok t → ∀ suite ∈ t.suites, ∀ mt ∈ suite.methods,
        ∀ g ∈ mt.groups, (suite.namesIn mt g).Nodup := by
  intro hall
  obtain ⟨y, hy, suite, hs, z, hz, -, ⟨g, hg, -, hnot⟩, -⟩ := of?_lentName
  obtain ⟨d, hd, hm, ht, -⟩ := Stages.of?_eq_some hy
  exact hnot (hall _ d _ _ _ _ hd hm ht suite hs z.2 (List.of_mem_zip hz).2 g hg)

end Lifeline.Tests
