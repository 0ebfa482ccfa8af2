import Lifeline.Proofs.Model.Plain
import Lifeline.Proofs.Model.Refusals
import Lifeline.Proofs.Sorting
import Lifeline.Proofs.Tests.Failures
import Lifeline.Tests.Synthesis

/-!
# The tests of plain models

Synthesis reads no line of a model: from the plain model it makes the same tree, by one lemma for
each function that reads the model.

* `Model.synthesizeTests_plain`: the tests of a plain model.
* `Diagram.tests_of_respelled`: the tests of two texts that differ in spelling.
-/

set_option autoImplicit false

namespace Lifeline.Tests

open Model

def RaiseSite.plain (s : RaiseSite) : RaiseSite := { s with throw := s.throw.plain }

/-! ## Steering -/

section

variable (blocks : List Alternative) (sites : List RaiseSite)

@[simp] theorem avoidsRaises_plain : ∀ (fuel : Nat) (branch : Nat × Nat),
    avoidsRaises (blocks.map Alternative.plain) (sites.map RaiseSite.plain) fuel branch =
      avoidsRaises blocks sites fuel branch
  | 0, _ => rfl
  | fuel + 1, branch => by
    have ih := avoidsRaises_plain fuel
    simp only [avoidsRaises, List.any_map, List.filter_map, List.all_map, ih]
    rfl

@[simp] theorem preferredBranch_plain (b : Alternative) :
    preferredBranch (blocks.map Alternative.plain) (sites.map RaiseSite.plain) b.plain =
      preferredBranch blocks sites b := by
  simp only [preferredBranch, avoidsRaises_plain, List.length_map]
  rfl

theorem steerFrom_plain : ∀ (rest : List Alternative) (chosen : Path),
    steerFrom (blocks.map Alternative.plain) (sites.map RaiseSite.plain) chosen
        (rest.map Alternative.plain) =
      steerFrom blocks sites chosen rest
  | [], _ => rfl
  | b :: rest, chosen => by
    simp only [List.map_cons, steerFrom, preferredBranch_plain, steerFrom_plain rest]
    rfl

@[simp] theorem steer_plain (path : Path) :
    steer path (blocks.map Alternative.plain) (sites.map RaiseSite.plain) =
      steer path blocks sites :=
  steerFrom_plain blocks sites blocks path

end

namespace Context

/-- The context without the lines of its model. -/
def plain (c : Context) : Context := { c with model := c.model.plain }

variable (c : Context)

@[simp] theorem model_plain : c.plain.model = c.model.plain := rfl

/-! ## References -/

@[simp] theorem mockName_plain (collaborator : String) :
    c.plain.mockName collaborator = c.mockName collaborator := rfl

theorem reply_plain (i : Interaction) : i.plain.reply = i.reply.map Binding.plain := rfl

theorem alternative?_plain (block : Nat) :
    c.plain.model.alternatives.find? (·.id == block) =
      (c.model.alternatives.find? (·.id == block)).map Alternative.plain := by
  rw [model_plain, Model.alternatives_plain]
  exact List.find?_map ..

theorem loop?_plain (block : Nat) : c.plain.model.loops.find? (·.id == block) =
    (c.model.loops.find? (·.id == block)).map Loop.plain :=
  List.find?_map ..

@[simp] theorem branchRef_plain (choice : Nat × Nat) :
    c.plain.branchRef choice = c.branchRef choice := by
  simp only [branchRef, alternative?_plain]
  cases c.model.alternatives.find? (·.id == choice.1) <;> rfl

@[simp] theorem knownBranch_plain (choice : Nat × Nat) :
    c.plain.knownBranch choice = c.knownBranch choice := by
  simp only [knownBranch, alternative?_plain, branchRef_plain]
  cases c.model.alternatives.find? (·.id == choice.1) <;> rfl

@[simp] theorem scopeRefs_plain (scope : Scope) : c.plain.scopeRefs scope = c.scopeRefs scope := by
  unfold scopeRefs
  congr 1
  funext f
  rw [loop?_plain]
  cases f.kind with
  | loop => cases c.model.loops.find? (·.id == f.block) <;> rfl
  | alt => exact knownBranch_plain c _

@[simp] theorem namedValue_plain (method : Method) (stubs : List Stub) (name : String)
    (valueId : Option String) :
    c.plain.namedValue method stubs name valueId = c.namedValue method stubs name valueId := by
  unfold namedValue
  rw [show (c.plain.model.loops.any fun l => l.method == method.call && l.element == some name) =
    c.model.loops.any fun l => l.method == method.call && l.element == some name from
      List.any_map ..]
  rfl

/-! ## Mocks -/

theorem parameterNamesFrom_plain : ∀ (arguments : List (ArgumentRef × Nat)) (names : List String),
    c.plain.parameterNamesFrom names arguments = c.parameterNamesFrom names arguments
  | [], _ => rfl
  | (a, i) :: rest, names => by
    simp only [parameterNamesFrom, parameterNamesFrom_plain rest]
    rfl

@[simp] theorem parameterNames_plain (arguments : List ArgumentRef) :
    c.plain.parameterNames arguments = c.parameterNames arguments :=
  parameterNamesFrom_plain c _ _

@[simp] theorem mockedMethods_plain (calls : List Interaction) :
    c.plain.mockedMethods (calls.map Interaction.plain) = c.mockedMethods calls := by
  unfold mockedMethods
  rw [List.foldlM_map]
  congr 1
  funext methods i
  simp only [parameterNames_plain, reply_plain, Option.map_map]
  rfl

@[simp] theorem mocks_plain (calls : List Interaction) :
    c.plain.mocks (calls.map Interaction.plain) = c.mocks calls := by
  have htargets : (calls.map Interaction.plain).map (·.target) = calls.map (·.target) :=
    List.map_map ..
  have hcalls : ∀ collaborator, (calls.map Interaction.plain).filter (·.target == collaborator) =
      (calls.filter (·.target == collaborator)).map Interaction.plain := fun _ => List.filter_map
  simp only [mocks, htargets, hcalls, mockedMethods_plain]
  rfl

/-! ## Paths -/

@[simp] theorem interaction?_plain (call : Int) :
    c.plain.model.interaction? call = (c.model.interaction? call).map Interaction.plain :=
  itemAt?_map ..

@[simp] theorem interactionsOf_plain (method : MethodId) :
    c.plain.model.interactionsOf method =
      (c.model.interactionsOf method).map Interaction.plain :=
  List.filter_map

@[simp] theorem raiseSites_plain (method : Method) :
    c.plain.raiseSites method = (c.raiseSites method).map RaiseSite.plain := by
  have hsort : ∀ sites : List RaiseSite,
      sortBy (fun a b => a.sequence ≤ b.sequence) (sites.map RaiseSite.plain) =
        (sortBy (fun a b => a.sequence ≤ b.sequence) sites).map RaiseSite.plain :=
    fun sites => sortBy_map RaiseSite.plain sites
  simp only [raiseSites, ← hsort, interaction?_plain]
  rw [model_plain, Model.throws_plain, List.flatMap_map,
    List.map_flatMap]
  congr 2
  funext t
  rw [List.map_append, List.map_filterMap]
  congr 1
  · rw [show t.plain.method = t.method from rfl, show t.plain.participant = t.participant from rfl]
    split <;> rfl
  · congr 1
    funext call
    cases c.model.interaction? call with
    | none => rfl
    | some i =>
      simp only [Option.map_some]
      rw [show i.plain.method = i.method from rfl]
      split <;> rfl

@[simp] theorem checkThrows_plain : c.plain.checkThrows = c.checkThrows := by
  simp only [checkThrows, interaction?_plain, Option.isSome_map]
  rw [model_plain, Model.throws_plain, List.flatMap_map]
  rfl

@[simp] theorem blocksOf_plain (method : Method) :
    c.plain.blocksOf method = (c.blocksOf method).map Alternative.plain :=
  List.filter_map

@[simp] theorem hasMainPath_plain (method : Method) :
    c.plain.hasMainPath method = c.hasMainPath method := by
  simp only [hasMainPath, blocksOf_plain, interactionsOf_plain, raiseSites_plain, List.isEmpty_map,
    List.any_map]
  rfl

@[simp] theorem paths_plain (method : Method) : c.plain.paths method = c.paths method := by
  simp only [paths, hasMainPath_plain, blocksOf_plain, List.flatMap_map]
  rfl

/-! ## Stubs and fixtures -/

@[simp] theorem raisedAt_plain (sites : List RaiseSite) (call : Int) :
    raisedAt (sites.map RaiseSite.plain) call = raisedAt sites call := by
  unfold raisedAt
  have hfind : (sites.map RaiseSite.plain).reverse.find? (·.raisedBy == some call) =
      (sites.reverse.find? (·.raisedBy == some call)).map RaiseSite.plain := by
    rw [← List.map_reverse]
    exact List.find?_map ..
  rw [hfind]
  cases sites.reverse.find? (·.raisedBy == some call) <;> rfl

@[simp] theorem givesCollection_plain (method : Method) (call : Int) :
    c.plain.givesCollection method call = c.givesCollection method call :=
  List.any_map ..

@[simp] theorem stubsFrom_plain (method : Method) (sites : List RaiseSite) (guards : List String) :
    ∀ (calls : List Interaction) (taken : List String),
      c.plain.stubsFrom method (sites.map RaiseSite.plain) guards taken
          (calls.map Interaction.plain) =
        c.stubsFrom method sites guards taken calls
  | [], _ => rfl
  | i :: calls, taken => by
    simp only [List.map_cons, stubsFrom, stubsFrom_plain method sites guards calls, raisedAt_plain,
      givesCollection_plain, mockName_plain, reply_plain, Option.map_map, Option.isNone_map]
    rfl

@[simp] theorem stubs_plain (method : Method) (reached : List Interaction)
    (sites : List RaiseSite) (driven : List ScopeRef) :
    c.plain.stubs method (reached.map Interaction.plain) (sites.map RaiseSite.plain) driven =
      c.stubs method reached sites driven := by
  simp only [stubs, stubsFrom_plain, List.mapM_map]
  rfl

@[simp] theorem loopFixtures_plain (method : Method) (chosen : Path) :
    c.plain.loopFixtures method chosen = c.loopFixtures method chosen := by
  unfold loopFixtures
  rw [model_plain, Model.loops_plain, List.filter_map,
    List.mapM_map]
  rfl

/-! ## Checks -/

@[simp] theorem callCheck_plain (i : Interaction) (repeated : Bool) :
    c.plain.callCheck i.plain repeated = c.callCheck i repeated := by
  simp only [callCheck, scopeRefs_plain]
  rfl

@[simp] theorem resultCheck_plain (method : Method) (stubs : List Stub) (r : MethodResult) :
    c.plain.resultCheck method stubs r = c.resultCheck method stubs r := by
  simp only [resultCheck, namedValue_plain, scopeRefs_plain]

@[simp] theorem raiseMessage_plain (method : Method) (stubs : List Stub) (site : RaiseSite) :
    c.plain.raiseMessage method stubs site.plain = c.raiseMessage method stubs site := by
  simp only [raiseMessage, namedValue_plain]
  rfl

@[simp] theorem raiseCheck_plain (method : Method) (stubs : List Stub) (site : RaiseSite) :
    c.plain.raiseCheck method stubs site.plain = c.raiseCheck method stubs site := by
  simp only [raiseCheck, raiseMessage_plain, scopeRefs_plain]
  rfl

@[simp] theorem callCases_plain (method : Method) (reached : List Interaction) (invokes : Bool) :
    ∀ (calls : List Interaction) (taken : List String),
      c.plain.callCases method (reached.map Interaction.plain) invokes taken
          (calls.map Interaction.plain) =
        c.callCases method reached invokes taken calls
  | [], _ => rfl
  | i :: calls, taken => by
    simp only [List.map_cons, callCases, callCases_plain method reached invokes calls,
      callCheck_plain, List.countP_map]
    rfl

@[simp] theorem resultCases_plain (method : Method) (stubs : List Stub) :
    ∀ (results : List MethodResult) (taken : List String),
      c.plain.resultCases method stubs taken results = c.resultCases method stubs taken results
  | [], _ => rfl
  | r :: results, taken => by
    simp only [resultCases, resultCases_plain method stubs results, resultCheck_plain]
    rfl

/-! ## Groups -/

@[simp] theorem group_plain (method : Method) (taken : List String) (path : Path) :
    c.plain.group method taken path = c.group method taken path := by
  have hreached : ∀ (is : List Interaction) (chosen : Path),
      (is.map Interaction.plain).filter (fun i => runs i.scope chosen) =
        (is.filter fun i => runs i.scope chosen).map Interaction.plain :=
    fun _ _ => List.filter_map
  have hcalls : ∀ is : List Interaction,
      (is.map Interaction.plain).filter (fun i => i.scope.path == path) =
        (is.filter fun i => i.scope.path == path).map Interaction.plain :=
    fun _ => List.filter_map
  have hsite : ∀ (sites : List RaiseSite) (chosen : Path),
      (sites.map RaiseSite.plain).find? (fun s => runs s.scope chosen) =
        (sites.find? fun s => runs s.scope chosen).map RaiseSite.plain :=
    fun _ _ => List.find?_map ..
  have hbranch : c.plain.knownBranch = c.knownBranch := funext (knownBranch_plain c)
  simp only [group, interactionsOf_plain, raiseSites_plain, blocksOf_plain, steer_plain, hreached,
    hcalls, hsite, hbranch, stubs_plain, callCases_plain, loopFixtures_plain, resultCases_plain,
    Option.isSome_map]
  cases (c.raiseSites method).find? _ with
  | none => rfl
  | some site =>
    simp only [Option.map_some, raiseCheck_plain]
    rfl

theorem groups_plain (method : Method) : ∀ (paths : List Path) (taken : List String),
    c.plain.groups method taken paths = c.groups method taken paths
  | [], _ => rfl
  | path :: paths, taken => by
    simp only [groups, group_plain, groups_plain method paths]

theorem methodTests_plain : ∀ (methods : List Method) (taken : List String),
    c.plain.methodTests taken methods = c.methodTests taken methods
  | [], _ => rfl
  | m :: methods, taken => by
    simp only [methodTests, checkThrows_plain, paths_plain, groups_plain, methodTests_plain methods]
    rfl

/-! ## Suites and tables -/

@[simp] theorem suite_plain (p : Classified) (methods : List Method) :
    c.plain.suite p methods = c.suite p methods := by
  have hcalls : (methods.flatMap fun m => c.plain.model.interactionsOf m.call) =
      (methods.flatMap fun m => c.model.interactionsOf m.call).map Interaction.plain := by
    simp only [interactionsOf_plain, List.map_flatMap]
  simp only [suite, hcalls, mocks_plain, methodTests_plain]

@[simp] theorem decisionTable_plain (leaf : Classified) (calls : List Interaction) :
    c.plain.decisionTable leaf (calls.map Interaction.plain) = c.decisionTable leaf calls := by
  unfold decisionTable
  rw [List.foldlM_map]
  congr 1
  congr 1
  funext methods i
  simp only [parameterNames_plain, reply_plain, Option.map_map]
  rfl

theorem tree_plain : c.plain.tree = c.tree := by
  unfold tree
  simp only [suite_plain]
  congr 1
  funext suites
  congr 1
  refine congrArg (List.filterMapM · c.roles.computational) (funext fun leaf => ?_)
  rw [show c.plain.model.interactions.filter (·.target == leaf.name) =
    (c.model.interactions.filter (·.target == leaf.name)).map Interaction.plain from
      List.filter_map]
  cases c.model.interactions.filter (·.target == leaf.name) with
  | nil => rfl
  | cons i is =>
    have h := decisionTable_plain c leaf (i :: is)
    rw [List.map_cons] at h ⊢
    simp only [h]

end Context

end Lifeline.Tests

namespace Lifeline

namespace Model

/-- The plain model has the same tests. -/
theorem synthesizeTests_plain (m : Model) (roles : Classification) (profile : Profile) :
    m.plain.synthesizeTests roles profile = m.synthesizeTests roles profile :=
  Tests.Context.tree_plain { model := m, roles, naming := profile.naming }

/-- The participants of the plain model have the same roles. -/
theorem classify_plain (m : Model) (s : LeafSuffixes) : m.plain.classify s = m.classify s := by
  have hrole : Classification.roleOf m.plain s = Classification.roleOf m s := by
    funext p
    unfold Classification.roleOf
    rw [interactions_plain, List.any_map]
    rfl
  have hunmatched : Classification.isUnmatched m.plain s = Classification.isUnmatched m s := by
    funext p
    simp only [Classification.isUnmatched, hrole]
  simp only [classify, hrole, hunmatched]
  rfl

end Model

/-! ## Two spellings -/

namespace Diagram

/-- A diagram that was read and the same diagram in another spelling are both refused a model for
reasons of one kind, or both have one. -/
theorem buildModel_alike {source source' : String} {d d' : Diagram} (hd : parse source = .ok d)
    (hd' : parse source' = .ok d') (h : d.plain = d'.plain) (o : Model.Options) :
    (∃ e e', d.buildModel o = .error (.refused e) ∧ d'.buildModel o = .error (.refused e') ∧
      e.kind = e'.kind) ∨
    ∃ m m', d.buildModel o = .ok m ∧ d'.buildModel o = .ok m' ∧ m.plain = m'.plain := by
  have hplain := buildModel_plain d' o
  rw [← h] at hplain
  obtain ⟨e, e', he, he', hkind⟩ | hmodels := ((buildModel_plain d o).alike hplain).cases
  · obtain ⟨e, rfl⟩ := Model.buildModel_failsOnly (sound_of_parse hd) o e he
    obtain ⟨e', rfl⟩ := Model.buildModel_failsOnly (sound_of_parse hd') o e' he'
    exact .inl ⟨e, e', he, he', Option.some.inj hkind⟩
  · exact .inr hmodels

/-- **Spelling does not matter.** Where lines that say nothing are put into a text anywhere, and
arrows from left to right get other glyphs, the text is refused as before, for a reason of the same
issue, or it is read as before up to lines and glyphs. What is read then has no model as before, for
a reason of the same kind, or it has one with the same roles and the same tests. -/
theorem tests_of_respelled {source source' : String}
    (h : Line.Respelled (Text.lines source.toList) (Text.lines source'.toList)) :
    (∃ e e', parse source = .error e ∧ parse source' = .error e' ∧
      e.fault.issue = e'.fault.issue) ∨
    ∃ d d', parse source = .ok d ∧ parse source' = .ok d' ∧
      d.elements.map Element.plain = d'.elements.map Element.plain ∧ ∀ o : Model.Options,
        (∃ e e', d.buildModel o = .error (.refused e) ∧ d'.buildModel o = .error (.refused e') ∧
          e.kind = e'.kind) ∨
        ∃ m m', d.buildModel o = .ok m ∧ d'.buildModel o = .ok m' ∧
          (∀ roles profile, m.synthesizeTests roles profile = m'.synthesizeTests roles profile) ∧
          ∀ s, m.classify s = m'.classify s ∧ ∃ t, m.synthesizeTests (m.classify s) = .ok t ∧
            m'.synthesizeTests (m'.classify s) = .ok t := by
  obtain hrefused | ⟨d, d', hd, hd', hplain⟩ := (parse_respelled h).cases
  · exact .inl hrefused
  refine .inr ⟨d, d', hd, hd', congrArg elements hplain, fun o => ?_⟩
  obtain hrefused | ⟨m, m', hm, hm', hmodels⟩ := buildModel_alike hd hd' hplain o
  · exact .inl hrefused
  have htests : ∀ roles profile,
      m.synthesizeTests roles profile = m'.synthesizeTests roles profile := by
    intro roles profile
    rw [← m.synthesizeTests_plain, hmodels, m'.synthesizeTests_plain]
  refine .inr ⟨m, m', hm, hm', htests, fun s => ?_⟩
  have hroles : m.classify s = m'.classify s := by
    rw [← m.classify_plain, hmodels, m'.classify_plain]
  obtain ⟨t, ht⟩ := Tests.exists_tests (Model.sound_of_build (sound_of_parse hd) hm) s
  exact ⟨hroles, t, ht, by rw [← hroles, ← htests, ht]⟩

/-- A short diagram. -/
def terse : String := "[-> A : run(x)\nA -> B : load(x)\nB --> A : y\n"

/-- The same diagram in a frame, with a comment, a blank line, an activation and other glyphs. -/
def wordy : String :=
  "@startuml\n[->> A : run(x)\n' first\nA -->> B : load(x)\n\nactivate B\nB -> A : y\n@enduml\n"

theorem respelled_wordy : Line.Respelled (Text.lines terse.toList) (Text.lines wordy.toList) := by
  have hterse : Text.lines terse.toList =
      ["[".toList ++ "->".toList ++ " A : run(x)".toList,
        "A ".toList ++ "->".toList ++ " B : load(x)".toList,
        "B ".toList ++ "-->".toList ++ " A : y".toList] := by
    decide +kernel
  have hwordy : Text.lines wordy.toList =
      ["@startuml".toList, "[".toList ++ "->>".toList ++ " A : run(x)".toList, "' first".toList,
        "A ".toList ++ "-->>".toList ++ " B : load(x)".toList, [], "activate B".toList,
        "B ".toList ++ "->".toList ++ " A : y".toList, "@enduml".toList] := by
    decide +kernel
  rw [hterse, hwordy]
  refine .insert (by decide +kernel) (.redraw (.glyph ?_ ?_ ?_ ?_ ?_) ?_)
  iterate 5 decide +kernel
  refine .insert (by decide +kernel) (.redraw (.glyph ?_ ?_ ?_ ?_ ?_) ?_)
  iterate 5 decide +kernel
  refine .insert (by decide +kernel) (.insert (by decide +kernel)
    (.redraw (.glyph ?_ ?_ ?_ ?_ ?_) ?_))
  iterate 5 decide +kernel
  exact .insert (by decide +kernel) .nil

theorem parse_terse : ∃ d ∈ (parse terse).toOption, (d.buildModel {}).toOption.isSome := by
  unfold parse Line.scan terse
  rw [String.toList_ofList]
  decide +kernel

/-- Both have the same tests. -/
theorem tests_wordy : Line.Respelled (Text.lines terse.toList) (Text.lines wordy.toList) ∧
    ∃ d d' m m' t, parse terse = .ok d ∧ parse wordy = .ok d' ∧ d.buildModel = .ok m ∧
      d'.buildModel = .ok m' ∧ m.synthesizeTests m.classify = .ok t ∧
      m'.synthesizeTests m'.classify = .ok t := by
  refine ⟨respelled_wordy, ?_⟩
  obtain ⟨d, hd, hm⟩ := parse_terse
  rw [Option.mem_def, toOption_eq_some] at hd
  obtain ⟨m, hm⟩ := Option.isSome_iff_exists.1 hm
  rw [toOption_eq_some] at hm
  obtain ⟨e, e', he, -⟩ | ⟨_, d', hd₁, hd', -, hmodels⟩ := tests_of_respelled respelled_wordy
  · rw [hd] at he
    cases he
  rw [hd] at hd₁
  obtain rfl := Except.ok.inj hd₁
  obtain ⟨e, e', he, -⟩ | ⟨_, m', hm₁, hm', -, hroles⟩ := hmodels {}
  · rw [hm] at he
    cases he
  rw [hm] at hm₁
  obtain rfl := Except.ok.inj hm₁
  obtain ⟨-, t, ht, ht'⟩ := hroles {}
  exact ⟨d, d', m, m', t, hd, hd', hm, hm', ht, ht'⟩

end Diagram

end Lifeline
