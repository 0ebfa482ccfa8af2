import Lifeline.Proofs.Model.Building
import Lifeline.Proofs.Stages
import Lifeline.Proofs.Tests.Failures
import Lifeline.Proofs.Tests.Trees

/-!
# Parameters of the methods under test

The method that a call runs has the roots of the arguments as its parameters, each of them once
(`Model.parameters_of_build`), and the tests write them in the style of the profile. So the method
under test takes as many arguments as the call passes, under different names, if and only if the
names of the arguments are different in that style (`accepts_iff_of_parse`).
-/

set_option autoImplicit false

namespace Lifeline

/-! ## Lists without duplicates -/

section

variable {α β : Type} [BEq α] [LawfulBEq α] {xs : List α}

theorem eraseDups_of_nodup : ∀ {xs : List α}, xs.Nodup → xs.eraseDups = xs
  | [], _ => List.eraseDups_nil
  | x :: xs, h => by
    obtain ⟨hx, hxs⟩ := List.nodup_cons.1 h
    rw [List.eraseDups_cons, List.filter_eq_self.2 fun y hy => ?_, eraseDups_of_nodup hxs]
    simpa using fun he : y = x => hx (he ▸ hy)

/-- Where erasing duplicates leaves as many items, there were none. -/
theorem nodup_of_length_eraseDups (h : xs.eraseDups.length = xs.length) : xs.Nodup := by
  have hsub : xs.eraseDups.Subperm xs :=
    (nodup_eraseDups xs).subperm fun x hx => List.mem_eraseDups.1 hx
  exact (hsub.perm_of_length_le h.ge).nodup_iff.1 (nodup_eraseDups xs)

/-- Each item is mapped to something of its own. -/
theorem nodup_map_eraseDups_iff {f : α → β} :
    ((xs.eraseDups.map f).length = xs.length ∧ (xs.eraseDups.map f).Nodup) ↔ (xs.map f).Nodup := by
  rw [List.length_map]
  constructor
  · rintro ⟨hlength, hnodup⟩
    rwa [eraseDups_of_nodup (nodup_of_length_eraseDups hlength)] at hnodup
  · intro h
    rw [eraseDups_of_nodup h.of_map]
    exact ⟨rfl, h⟩

end

/-! ## The parameters of a model -/

namespace Model

/-- The names of the arguments of a call in the method that it runs. A literal is numbered by its
place. -/
def Interaction.argumentNames (i : Interaction) : List String :=
  i.arguments.zipIdx.map fun (a, n) =>
    if a.source = .literal then "arg" ++ toString n else Name.root a.name

namespace Layout

theorem Resolves.literal_iff {l : Layout} {callees : List (Int × List String)}
    {inputs : List String} {place : Place} {a : Argument} {v : ArgumentSource}
    (h : l.Resolves callees inputs place a v) : v = .literal ↔ a.isLiteral = true := by
  cases h <;> simp_all

theorem parameterNames_eq {l : Layout} {callees : List (Int × List String)} {inputs : List String}
    {x : Call × Place} {i : Interaction} (h : l.ResolvesAll callees inputs x i) :
    parameterNames x.1.arguments = i.argumentNames.eraseDups := by
  have hnames : ∀ {args : List Argument} {refs : List ArgumentRef} (n : Nat),
      List.Forall₂ (fun a ref => ref.name = a.name ∧ l.Resolves callees inputs x.2 a ref.source)
        args refs →
      ((args.zipIdx n).map fun p =>
        if p.1.isLiteral then "arg" ++ toString p.2 else Name.root p.1.name) =
      (refs.zipIdx n).map fun p =>
        if p.1.source = .literal then "arg" ++ toString p.2 else Name.root p.1.name := by
    intro args refs n h
    induction h generalizing n with
    | nil => rfl
    | @cons a ref args refs hr _ ih =>
      have hliteral := hr.2.literal_iff
      simp only [List.zipIdx_cons, List.map_cons, hliteral, hr.1, ih (n + 1)]
  exact congrArg List.eraseDups (hnames 0 h)

end Layout

/-- The parameters of the method that a call runs are the names of its arguments. -/
theorem parameters_of_build {d : Diagram} (hd : d.Sound) {o : Options} {m : Model}
    (hm : d.buildModel o = .ok m) {x : Method} (hx : x ∈ m.methods) {k : Int}
    (hk : x.call = some k) : ∃ i, m.interaction? k = some i ∧ i.index = k ∧
      x.parameters = i.argumentNames.eraseDups := by
  rw [Diagram.buildModel, bind_ok] at hm
  obtain ⟨w, hw, hm⟩ := hm
  have hf := Walk.follows_of_run hd hw
  have hmakes := Layout.makes hm
  obtain ⟨callees, inputs, hr⟩ := Layout.resolved_of_model hm
  obtain ⟨id, -, hcall, hparameters⟩ := forall₂_right hr.methods x hx
  obtain rfl : id = some k := hcall.symm.trans hk
  rw [Layout.parametersOf] at hparameters
  split at hparameters
  · rename_i names hlookup
    obtain rfl := Except.ok.inj hparameters
    obtain ⟨before, after, hcallees, -⟩ := List.lookup_eq_some_iff.1 hlookup
    have hknown := hr.callees (k, x.parameters) (by simp [hcallees])
    rw [Layout.parametersOfCall] at hknown
    split at hknown
    · rename_i c place hfind
      obtain hid : c.id = k := by simpa using List.find?_some hfind
      obtain ⟨i, hi, hix, hall⟩ := forall₂_left (forall₂_and hmakes.interactions hr.arguments)
        (c, place) (List.mem_of_find?_eq_some hfind)
      have hindex : i.index = k := hix.index.trans hid
      refine ⟨i, ?_, hindex, ?_⟩
      · rw [← hindex]
        exact (itemAt?_of_numbered (hmakes.numbered hd hf) hi).2
      · exact (Except.ok.inj hknown).symm.trans (Layout.parameterNames_eq hall)
    · cases hknown
  · cases hparameters

end Model

/-! ## The parameters of the tests -/

namespace Tests

/-- The tests of a method stand in the suite of its owner, at its place among the methods of the
owner. -/
def Tree.TestsOf (t : Tree) (m : Model) (x : Model.Method) (mt : MethodTests) : Prop :=
  ∃ s ∈ t.suites, s.subject = x.owner ∧
    (x, mt) ∈ (m.methods.filter (·.owner == x.owner)).zip s.methods

/-- The method under test has a parameter of its own for each argument that the call passes. -/
def MethodTests.Accepts (mt : MethodTests) (i : Model.Interaction) : Prop :=
  mt.parameters.length = i.arguments.length ∧ mt.parameters.Nodup

namespace Context

variable {c : Context}

theorem parameters_of_methodTests : ∀ {taken : List String} {xs : List Model.Method}
    {ms : List MethodTests}, c.methodTests taken xs = .ok ms →
      List.Forall₂ (fun x mt => x.parameters.mapM c.naming.valueName = .ok mt.parameters) xs ms
  | _, [], ms, h => by
    obtain rfl := Except.ok.inj h
    exact .nil
  | taken, x :: xs, ms, h => by
    simp only [methodTests, bind_ok, pure_ok, lift_ok] at h
    obtain ⟨-, -, groups, -, name, -, parameters, hp, others, ho, rfl⟩ := h
    exact .cons hp (parameters_of_methodTests ho)

/-- The suites have the tests of the methods of their subjects, in order. -/
theorem suites_of_tree {t : Tree} (h : c.tree = .ok t) : ∀ s ∈ t.suites,
    List.Forall₂ (fun x mt => x.parameters.mapM c.naming.valueName = .ok mt.parameters)
      (c.model.methods.filter (·.owner == s.subject)) s.methods := by
  intro s hs
  obtain ⟨p, -, hsuite⟩ := forall₂_right (tree_parts h).1 s hs
  rw [(suite_ok hsuite).subject]
  simp only [suite, bind_ok, pure_ok] at hsuite
  obtain ⟨mocks, -, methods, hmethods, rfl⟩ := hsuite
  exact parameters_of_methodTests hmethods

end Context

theorem valueName_builtin (name : String) :
    Profile.builtin.naming.valueName name = .ok (Name.snake name) := rfl

/-- The tests of a method have its parameters in snake case, where the profile is the built-in
one. -/
theorem Tree.TestsOf.parameters {m : Model} {roles : Classification} {t : Tree}
    (h : m.synthesizeTests roles = .ok t) {x : Model.Method} {mt : MethodTests}
    (hmt : t.TestsOf m x mt) : mt.parameters = x.parameters.map Name.snake := by
  obtain ⟨s, hs, hsubject, hzip⟩ := hmt
  have hall := Context.suites_of_tree h s hs
  rw [hsubject] at hall
  have hnames := mapM_ok.1 ((List.forall₂_iff_zip.1 hall).2 hzip)
  have hmap : x.parameters.map Name.snake = mt.parameters.map id :=
    forall₂_map hnames fun name _ hn => Except.ok.inj ((valueName_builtin name).symm.trans hn)
  rw [hmap, List.map_id]

/-- Every method has its tests. -/
theorem exists_testsOf {m : Model} (hs : m.Sound) {s : LeafSuffixes} {p : Profile} {t : Tree}
    (h : m.synthesizeTests (m.classify s) p = .ok t) {x : Model.Method} (hx : x ∈ m.methods) :
    ∃ mt, t.TestsOf m x mt := by
  obtain ⟨suite, hsuite, hsubject, -⟩ := (treeOf_synthesis hs h).exists_suite hx
  have hall := Context.suites_of_tree h suite hsuite
  rw [hsubject] at hall
  have hmem : x ∈ m.methods.filter (·.owner == x.owner) := List.mem_filter.2 ⟨hx, by simp⟩
  obtain ⟨n, hn⟩ := List.getElem?_of_mem hmem
  obtain ⟨mt, hmt, -⟩ := forall₂_getElem? hall.flip hn
  exact ⟨mt, suite, hsuite, hsubject,
    List.mem_of_getElem? (List.getElem?_zip_eq_some.2 ⟨hn, hmt⟩)⟩

theorem testsOf_of_zip {m : Model} {t : Tree} {s : Suite} (hs : s ∈ t.suites) {x : Model.Method}
    {mt : MethodTests} (h : (x, mt) ∈ (m.methods.filter (·.owner == s.subject)).zip s.methods) :
    t.TestsOf m x mt := by
  have howner : x.owner = s.subject := by
    simpa using (List.mem_filter.1 (List.of_mem_zip h).1).2
  exact ⟨s, hs, howner.symm, howner ▸ h⟩

/-- The methods of a suite are made for the methods of its subject, in order. -/
theorem TreeOf.methods_of_suite {c : Context} {t : Tree} (h : TreeOf c t) {s : Suite}
    (hs : s ∈ t.suites) : List.Forall₂ (MethodOf c)
      (c.model.methods.filter (·.owner == s.subject)) s.methods := by
  obtain ⟨p, -, hsp⟩ := forall₂_right h.suites s hs
  rw [hsp.subject]
  exact hsp.methods

/-- The tests of a method are made for it. -/
theorem Tree.TestsOf.methodOf {c : Context} {t : Tree} (h : TreeOf c t) {x : Model.Method}
    {mt : MethodTests} (hmt : t.TestsOf c.model x mt) : MethodOf c x mt := by
  obtain ⟨s, hs, hsubject, hzip⟩ := hmt
  exact (List.forall₂_iff_zip.1 (hsubject ▸ h.methods_of_suite hs)).2 hzip

/-- The tests in a suite are those of a method. -/
theorem TreeOf.exists_testsOf {c : Context} {t : Tree} (h : TreeOf c t) {s : Suite}
    (hs : s ∈ t.suites) {mt : MethodTests} (hmt : mt ∈ s.methods) :
    ∃ x ∈ c.model.methods, t.TestsOf c.model x mt := by
  obtain ⟨n, hn⟩ := List.getElem?_of_mem hmt
  obtain ⟨x, hx, -⟩ := forall₂_getElem? (h.methods_of_suite hs) hn
  exact ⟨x, (List.mem_filter.1 (List.mem_of_getElem? hx)).1, testsOf_of_zip hs
    (List.mem_of_getElem? (List.getElem?_zip_eq_some.2 ⟨hx, hn⟩))⟩

/-- **The method that a call runs** takes as many arguments as the call passes, under different
names, if and only if the names of the arguments are different in snake case. -/
theorem accepts_iff_of_parse {source : String} {d : Diagram} {o : Model.Options} {m : Model}
    (hp : Diagram.parse source = .ok d) (hm : d.buildModel o = .ok m) (s : LeafSuffixes)
    {x : Model.Method} (hx : x ∈ m.methods) {k : Int} (hk : x.call = some k) :
    ∃ t i, m.synthesizeTests (m.classify s) = .ok t ∧ m.interaction? k = some i ∧ i.index = k ∧
      (∃ mt, t.TestsOf m x mt) ∧ ∀ mt, t.TestsOf m x mt →
        (mt.Accepts i ↔ (i.argumentNames.map Name.snake).Nodup) := by
  have hd := Diagram.sound_of_parse hp
  have hs := Model.sound_of_build hd hm
  obtain ⟨t, ht⟩ := exists_tests hs s
  obtain ⟨i, hi, hindex, hparameters⟩ := Model.parameters_of_build hd hm hx hk
  refine ⟨t, i, ht, hi, hindex, exists_testsOf hs ht hx, fun mt hmt => ?_⟩
  have hlength : i.argumentNames.length = i.arguments.length := by
    rw [Model.Interaction.argumentNames, List.length_map, List.length_zipIdx]
  rw [MethodTests.Accepts, hmt.parameters ht, hparameters, ← hlength]
  exact nodup_map_eraseDups_iff

/-- A diagram in which a service gets two values with names of their own and a literal. -/
def ownNames : String :=
  "[-> A : run(x, y)\nA -> BService : foo(x.id, y, 3)\nBService -> CClient : get(x)\n"

theorem of?_ownNames : ∃ x ∈ Stages.of? ownNames, ∃ y ∈ x.model.methods, y.call = some 0 ∧
    ∃ i ∈ x.model.interactions, x.model.interaction? 0 = some i ∧
      (i.argumentNames.map Name.snake).Nodup := by
  unfold ownNames
  rw [Stages.of?_toList, String.toList_ofList]
  decide +kernel

theorem accepts_ownNames : ∃ d m t, Diagram.parse ownNames = .ok d ∧ d.buildModel = .ok m ∧
    m.synthesizeTests m.classify = .ok t ∧ ∃ x ∈ m.methods, x.call = some 0 ∧
      ∃ i mt, m.interaction? 0 = some i ∧ t.TestsOf m x mt ∧ mt.Accepts i := by
  obtain ⟨x, hx, y, hy, hcall, i, -, hi, hnames⟩ := of?_ownNames
  obtain ⟨d, hd, hm, -⟩ := Stages.of?_eq_some hx
  obtain ⟨t, i', ht, hi', -, ⟨mt, hmt⟩, haccepts⟩ := accepts_iff_of_parse hd hm {} hy hcall
  obtain rfl := Option.some.inj (hi.symm.trans hi')
  exact ⟨d, x.model, t, hd, hm, ht, y, hy, hcall, i, mt, hi, hmt, (haccepts mt hmt).2 hnames⟩

/-- A diagram in which a service gets two parts of one value. -/
def sharedRoot : String :=
  "[-> A : run(x)\nA -> BService : foo(x.id, x.total)\nBService -> CClient : get(x)\n"

theorem of?_sharedRoot : ∃ x ∈ Stages.of? sharedRoot, ∃ y ∈ x.model.methods, y.call = some 0 ∧
    ∃ i ∈ x.model.interactions, x.model.interaction? 0 = some i ∧
      ∃ s ∈ x.tests.suites, s.subject = y.owner ∧
        ∃ z ∈ (x.model.methods.filter (·.owner == y.owner)).zip s.methods, z.1 = y ∧
          z.2.parameters.length ≠ i.arguments.length := by
  unfold sharedRoot
  rw [Stages.of?_toList, String.toList_ofList]
  decide +kernel

/-- The method of the service has one parameter, and is called with two arguments. -/
theorem not_accepts_sharedRoot : ¬∀ (source : String) (o : Model.Options) (d : Diagram) (m : Model)
    (s : LeafSuffixes) (t : Tree), Diagram.parse source = .ok d → d.buildModel o = .ok m →
      m.synthesizeTests (m.classify s) = .ok t → ∀ x ∈ m.methods, ∀ k i mt, x.call = some k →
        m.interaction? k = some i → t.TestsOf m x mt → mt.Accepts i := by
  intro h
  obtain ⟨x, hx, y, hy, hcall, i, -, hi, s, hs, hsubject, z, hz, rfl, hne⟩ := of?_sharedRoot
  obtain ⟨d, hd, hm, ht, -⟩ := Stages.of?_eq_some hx
  exact hne (h _ _ d _ _ _ hd hm ht z.1 hy 0 i z.2 hcall hi ⟨s, hs, hsubject, hz⟩).1

end Tests

end Lifeline
