import Lifeline.Proofs.Name.Patterns
import Lifeline.Proofs.Tests.Raises
import Lifeline.Proofs.Tests.Steering

/-!
# Tests that cannot be made

Synthesis looks up the blocks of scopes, the branches that a group takes, the calls that exceptions
pass through and the roles of collaborators. In a sound model all of them are there, so it fails
only where a name cannot be made (`synthesizeTests_failsOnly`), and with the built-in naming rules
it does not fail at all.

**`exists_tests`**: a sound model has a tree of tests.
-/

set_option autoImplicit false

namespace Lifeline.Tests

open Model

/-- A name cannot be made, for a reason that `P` allows. -/
def Unnamed (P : NameError → Prop) (e : SynthesisError) : Prop := ∃ n, e = .naming n ∧ P n

theorem failsOnly_lift {α : Type} {P : NameError → Prop} {x : Naming α} (h : FailsOnly P x) :
    FailsOnly (Unnamed P) (liftM x : Synthesis α) := by
  cases x with
  | ok a => exact failsOnly_ok a
  | error e => exact failsOnly_error ⟨e, rfl, h e rfl⟩

namespace Context

variable {c : Context} {P : NameError → Prop}

/-! ## Names -/

section

variable (hn : c.naming.FailOnly P)
include hn

theorem mockName_failsOnly (collaborator : String) : FailsOnly P (c.mockName collaborator) :=
  hn.mock collaborator

theorem valuePath_failsOnly (text : String) : FailsOnly P (c.valuePath text) := by
  unfold valuePath
  exact (hn.valueName _).bind fun _ _ => failsOnly_ok _

theorem elementName_failsOnly (element : Option String) : FailsOnly P (c.elementName element) := by
  unfold elementName
  split
  · split
    · exact failsOnly_ok _
    · exact (hn.valueName _).map _
  · exact failsOnly_ok _

theorem collectionPath_failsOnly (collection : Option String) :
    FailsOnly P (c.collectionPath collection) := by
  unfold collectionPath
  split
  · split
    · exact failsOnly_ok _
    · exact (valuePath_failsOnly hn _).map _
  · exact failsOnly_ok _

theorem loopRef_failsOnly (l : Loop) : FailsOnly P (c.loopRef l) := by
  unfold loopRef
  refine (elementName_failsOnly hn _).bind fun element _ => ?_
  exact (collectionPath_failsOnly hn _).bind fun collection _ => failsOnly_ok _

theorem argumentRef_failsOnly (a : ArgumentRef) : FailsOnly P (c.argumentRef a) := by
  unfold argumentRef
  dsimp only
  split
  · exact failsOnly_ok _
  all_goals exact (hn.valueName _).bind fun _ _ => failsOnly_ok _

theorem namedValue_failsOnly (x : Method) (stubs : List Stub) (name : String)
    (valueId : Option String) : FailsOnly P (c.namedValue x stubs name valueId) := by
  unfold namedValue
  refine (hn.valueName _).bind fun valueName _ => ?_
  repeat' split
  all_goals exact failsOnly_ok _

theorem parameterNamesFrom_failsOnly : ∀ (names : List String) (xs : List (ArgumentRef × Nat)),
    FailsOnly P (c.parameterNamesFrom names xs)
  | _, [] => failsOnly_ok _
  | names, (a, i) :: rest => by
    rw [parameterNamesFrom]
    have hrest : ∀ name : String,
        FailsOnly P (c.parameterNamesFrom (names ++ [Name.unique name names]) rest) := fun _ =>
      parameterNamesFrom_failsOnly _ rest
    cases a.source with
    | literal => exact (failsOnly_ok _).bind fun _ _ => hrest _
    | _ => exact (hn.valueName _).bind fun _ _ => hrest _

theorem mockedMethods_failsOnly (calls : List Interaction) :
    FailsOnly P (c.mockedMethods calls) := by
  refine failsOnly_foldlM fun methods i _ => ?_
  refine (hn.method _).bind fun name _ => ?_
  split
  · exact failsOnly_ok _
  · exact (parameterNamesFrom_failsOnly hn _ _).bind fun _ _ => failsOnly_ok _

theorem stubsFrom_failsOnly (x : Method) (sites : List RaiseSite) (guards : List String) :
    ∀ (taken : List String) (is : List Interaction),
      FailsOnly P (c.stubsFrom x sites guards taken is)
  | _, [] => failsOnly_ok _
  | taken, i :: rest => by
    unfold stubsFrom
    dsimp only
    split
    · exact stubsFrom_failsOnly x sites guards taken rest
    · refine (mockName_failsOnly hn _).bind fun mock _ => ?_
      refine (hn.method _).bind fun name _ => ?_
      have hrest : ∀ taken, FailsOnly P (c.stubsFrom x sites guards taken rest) := fun _ =>
        stubsFrom_failsOnly x sites guards _ rest
      split
      · split
        · exact (hrest _).bind fun _ _ => failsOnly_ok _
        · exact ((hn.valueName _).map _).bind fun _ _ => (hrest _).bind fun _ _ => failsOnly_ok _
      · exact (hrest _).bind fun _ _ => failsOnly_ok _

theorem stubs_failsOnly (x : Method) (reached : List Interaction) (sites : List RaiseSite)
    (driven : List ScopeRef) : FailsOnly P (c.stubs x reached sites driven) := by
  unfold Context.stubs
  refine (failsOnly_mapM fun i _ => mockName_failsOnly hn _).bind fun mocks _ => ?_
  refine (failsOnly_mapM fun name _ => hn.valueName name).bind fun parameters _ => ?_
  exact stubsFrom_failsOnly hn x sites _ _ reached

theorem loopFixtures_failsOnly (x : Method) (chosen : Path) :
    FailsOnly P (c.loopFixtures x chosen) := by
  refine failsOnly_mapM fun l _ => ?_
  refine (elementName_failsOnly hn _).bind fun element _ => ?_
  exact (collectionPath_failsOnly hn _).bind fun collection _ => failsOnly_ok _

theorem raiseMessage_failsOnly (x : Method) (stubs : List Stub) (s : RaiseSite) :
    FailsOnly P (c.raiseMessage x stubs s) := by
  unfold raiseMessage
  split
  · split
    · exact failsOnly_ok _
    · refine (hn.messageConstant _).bind fun constant _ => ?_
      refine FailsOnly.bind ?_ fun arguments _ => failsOnly_ok _
      refine failsOnly_mapM fun name _ => ?_
      exact (namedValue_failsOnly hn x stubs name none).bind fun _ _ => failsOnly_ok _
  · exact failsOnly_ok _

theorem qualifier_failsOnly (r : ScopeRef) : FailsOnly P (c.qualifier r) := by
  unfold qualifier
  split
  · rename_i guard _
    split
    · exact failsOnly_ok _
    · rename_i e he
      exact failsOnly_error (hn.branchQualifier guard e he)
  · exact failsOnly_ok _

theorem decisionTable_failsOnly (leaf : Classified) (calls : List Interaction) :
    FailsOnly P (c.decisionTable leaf calls) := by
  unfold decisionTable
  refine FailsOnly.bind (failsOnly_foldlM fun methods i _ => ?_) fun methods _ => failsOnly_ok _
  refine (hn.method _).bind fun name _ => ?_
  split
  · exact failsOnly_ok _
  · exact (parameterNamesFrom_failsOnly hn _ _).bind fun _ _ => failsOnly_ok _

end

/-! ## Blocks -/

section

variable (hs : c.model.Sound) {tl : Timeline} (ht : tl.Fits c.model)

include hs in
/-- The branches of the alternatives are known. -/
theorem knownBranch_of_mem {b : Alternative} (hb : b ∈ c.model.alternatives) {br : Branch}
    (hbr : br ∈ b.branches) :
    c.knownBranch (b.id, br.index) = .ok (c.branchRef (b.id, br.index)) := by
  obtain ⟨n, hlt, rfl⟩ := List.getElem_of_mem hbr
  have hindex : b.branches[n].index = n := by
    have h := congrArg (·[n]?) (hs.branches b hb).2
    simpa [hlt] using h
  have hfind : c.model.alternatives.find? (·.id == b.id) = some b := find?_key hs.blocks hb
  unfold knownBranch
  rw [hfind]
  simp [hindex, hlt]

include hs ht in
/-- The branches around a position are known. -/
theorem knownBranch_of_frame {n : Nat} {μ : MethodId} {f : Frame} (hf : f ∈ tl.scopeAt n μ)
    (hk : f.kind = .alt) :
    c.knownBranch (f.block, f.branch) = .ok (c.branchRef (f.block, f.branch)) := by
  obtain ⟨S, T, hS⟩ := List.append_of_mem hf
  obtain ⟨b, hb, hid, -, -, br, hbr, hi, -⟩ := ht.alt hS hk
  rw [← hid, ← hi]
  exact knownBranch_of_mem hs hb hbr

include hs ht in
theorem knownBranch_of_path {n : Nat} {μ : MethodId} {y : Nat × Nat}
    (hy : y ∈ (tl.scopeAt n μ).path) : c.knownBranch y = .ok (c.branchRef y) := by
  obtain ⟨f, hf, hk, rfl⟩ := Scope.mem_path.1 hy
  exact knownBranch_of_frame hs ht hf hk

include hs ht in
/-- The branches that a group takes are known. -/
theorem knownBranch_of_chosen {x : Method} {K : Path} (hK : K ∈ c.paths x) {y : Nat × Nat}
    (hy : y ∈ c.chosen x K) : c.knownBranch y = .ok (c.branchRef y) := by
  rcases List.mem_append.1 hy with hy | hy
  · rcases mem_paths.1 hK with ⟨rfl, -⟩ | ⟨b, hb, br, hbr, rfl⟩
    · cases hy
    · have hmem := (mem_blocksOf.1 hb).1
      rcases List.mem_append.1 hy with hy | hy
      · rw [(ht.branch b hmem).1] at hy
        exact knownBranch_of_path hs ht hy
      · rw [List.mem_singleton.1 hy]
        exact knownBranch_of_mem hs hmem hbr
  · obtain ⟨b, hb, rfl⟩ := mem_steerFrom hy
    have hmem := (mem_blocksOf.1 hb).1
    obtain ⟨br, hbr, hi⟩ := preferredBranch_mem _ _ (hs.branches b hmem).1
    rw [← hi]
    exact knownBranch_of_mem hs hmem hbr

include hs ht in
theorem scopeRefs_failsOnly (hn : c.naming.FailOnly P) (n : Nat) (μ : MethodId) :
    FailsOnly (Unnamed P) (c.scopeRefs (tl.scopeAt n μ)) := by
  refine failsOnly_mapM fun f hf => ?_
  split
  · exact failsOnly_lift (loopRef_failsOnly hn _)
  · rename_i hk hnone
    obtain ⟨S, T, hS⟩ := List.append_of_mem hf
    obtain ⟨-, l, hl, hid, -⟩ := ht.loop hS hk
    have := List.find?_eq_none.1 hnone l hl
    simp [hid] at this
  · rename_i hk
    rw [knownBranch_of_frame hs ht hf hk]
    exact failsOnly_ok _

end

/-! ## Groups -/

section

variable (hn : c.naming.FailOnly P) (hs : c.model.Sound)
include hn hs

theorem callCases_failsOnly (x : Method) (reached : List Interaction) (invokes : Bool) :
    ∀ (taken : List String) {is : List Interaction}, is ⊆ c.model.interactions →
      FailsOnly (Unnamed P) (c.callCases x reached invokes taken is)
  | _, [], _ => failsOnly_ok _
  | taken, i :: rest, hi => by
    obtain ⟨tl, ht⟩ := hs.timeline
    have hcheck : ∀ repeated, FailsOnly (Unnamed P) (c.callCheck i repeated) := by
      intro repeated
      unfold callCheck
      refine (failsOnly_lift (mockName_failsOnly hn _)).bind fun mock _ => ?_
      refine (failsOnly_lift (hn.method _)).bind fun method _ => ?_
      refine (failsOnly_lift (failsOnly_mapM fun a _ => argumentRef_failsOnly hn a)).bind
        fun arguments _ => ?_
      rw [(ht.interaction i (hi (.head _))).2]
      exact (scopeRefs_failsOnly hs ht hn _ _).bind fun scope _ => failsOnly_ok _
    rw [callCases]
    refine (failsOnly_lift (hn.verifyTest _ _ _)).bind fun name _ => ?_
    refine (hcheck _).bind fun check _ => ?_
    refine (callCases_failsOnly x reached invokes _ fun j hj => hi (.tail _ hj)).bind
      fun others _ => ?_
    exact failsOnly_ok _

theorem resultCases_failsOnly {x : Method} (hx : x ∈ c.model.methods) (stubs : List Stub) :
    ∀ (taken : List String) {rs : List MethodResult}, rs ⊆ x.results →
      FailsOnly (Unnamed P) (c.resultCases x stubs taken rs)
  | _, [], _ => failsOnly_ok _
  | taken, r :: rest, hr => by
    obtain ⟨tl, ht⟩ := hs.timeline
    have hcheck : FailsOnly (Unnamed P) (c.resultCheck x stubs r) := by
      unfold resultCheck
      refine (failsOnly_lift (namedValue_failsOnly hn _ _ _ _)).bind fun expected _ => ?_
      rw [(ht.result x hx r (hr (.head _))).2]
      exact (scopeRefs_failsOnly hs ht hn _ _).bind fun scope _ => failsOnly_ok _
    rw [resultCases]
    refine (failsOnly_lift (hn.resultTest _ _)).bind fun name _ => ?_
    refine hcheck.bind fun check _ => ?_
    refine (resultCases_failsOnly hx stubs _ fun j hj => hr (.tail _ hj)).bind fun others _ => ?_
    exact failsOnly_ok _

theorem raiseCheck_failsOnly {x : Method} {s : RaiseSite} (hsite : s ∈ c.raiseSites x)
    (stubs : List Stub) : FailsOnly (Unnamed P) (c.raiseCheck x stubs s) := by
  obtain ⟨tl, ht⟩ := hs.timeline
  unfold raiseCheck
  refine (failsOnly_lift (raiseMessage_failsOnly hn x stubs s)).bind fun message _ => ?_
  rw [(siteOf_mem hs hsite).scope_eq ht]
  exact (scopeRefs_failsOnly hs ht hn _ _).bind fun scope _ => failsOnly_ok _

theorem group_failsOnly {x : Method} (hx : x ∈ c.model.methods) (taken : List String) {K : Path}
    (hK : K ∈ c.paths x) : FailsOnly (Unnamed P) (c.group x taken K) := by
  obtain ⟨tl, ht⟩ := hs.timeline
  have hknown : ∀ y ∈ c.chosen x K, FailsOnly (Unnamed P) (c.knownBranch y) := fun y hy => by
    rw [knownBranch_of_chosen hs ht hK hy]
    exact failsOnly_ok _
  have hcalls : ∀ q : Interaction → Bool,
      (c.model.interactionsOf x.call).filter q ⊆ c.model.interactions := fun q i hi =>
    (List.mem_filter.1 (List.mem_filter.1 hi).1).1
  unfold group
  dsimp only
  refine (failsOnly_mapM fun y hy => hknown y (List.mem_append_left _ hy)).bind
    fun pathRefs _ => ?_
  refine (failsOnly_mapM fun y hy => hknown y (List.mem_append_right _ hy)).bind
    fun steeringRefs _ => ?_
  refine (failsOnly_lift (stubs_failsOnly hn _ _ _ _)).bind fun stubs _ => ?_
  refine (callCases_failsOnly hn hs _ _ _ _ (hcalls _)).bind fun calls _ => ?_
  have hlast : ∀ {last : Synthesis (List Case)} {f : List Case → List String → String →
      List LoopFixture → Group}, FailsOnly (Unnamed P) last → FailsOnly (Unnamed P) (do
        let last ← last
        let qualifiers ← (pathRefs.mapM c.qualifier : Naming (List String))
        let name ← c.naming.testGroup.apply
          [("method", x.name), ("qualifier", Text.Packed.join " " qualifiers)]
        let loops ← c.loopFixtures x (K ++ steer K (c.blocksOf x) (c.raiseSites x))
        return f last qualifiers name loops) := by
    intro last f h
    refine h.bind fun cases _ => ?_
    refine (failsOnly_lift (failsOnly_mapM fun r _ => qualifier_failsOnly hn r)).bind
      fun qualifiers _ => ?_
    refine (failsOnly_lift (hn.testGroup _ _)).bind fun name _ => ?_
    exact (failsOnly_lift (loopFixtures_failsOnly hn _ _)).bind fun loops _ => failsOnly_ok _
  split
  · rename_i site hsite
    refine (failsOnly_lift (hn.throwTest _ _)).bind fun name _ => ?_
    refine (raiseCheck_failsOnly hn hs (List.mem_of_find?_eq_some hsite) _).bind fun check _ => ?_
    exact hlast (failsOnly_ok _)
  · exact hlast (resultCases_failsOnly hn hs hx _ _ fun r hr => (List.mem_filter.1 hr).1)

theorem groups_failsOnly {x : Method} (hx : x ∈ c.model.methods) :
    ∀ (taken : List String) {Ks : List Path}, Ks ⊆ c.paths x →
      FailsOnly (Unnamed P) (c.groups x taken Ks)
  | _, [], _ => failsOnly_ok _
  | taken, K :: Ks, hK => by
    rw [groups]
    refine (group_failsOnly hn hs hx taken (hK (.head _))).bind fun g _ => ?_
    exact (groups_failsOnly hx _ fun j hj => hK (.tail _ hj)).bind fun rest _ => failsOnly_ok _

/-! ## The tree -/

theorem methodTests_failsOnly : ∀ (taken : List String) {xs : List Method},
    xs ⊆ c.model.methods → FailsOnly (Unnamed P) (c.methodTests taken xs)
  | _, [], _ => failsOnly_ok _
  | taken, x :: xs, hx => by
    have hthrows : FailsOnly (Unnamed P) c.checkThrows := by
      refine failsOnly_forM fun call hcall => ?_
      obtain ⟨t, ht, hcall⟩ := List.mem_flatMap.1 hcall
      obtain ⟨i, hi, rfl⟩ := hs.through t ht call hcall
      rw [if_pos (by rw [hs.interaction?_index hi]; rfl)]
      exact failsOnly_ok _
    rw [methodTests]
    refine hthrows.bind fun _ _ => ?_
    refine (groups_failsOnly hn hs (hx (.head _)) _ (List.Subset.refl _)).bind fun groups _ => ?_
    refine (failsOnly_lift (hn.method _)).bind fun name _ => ?_
    refine (failsOnly_lift (failsOnly_mapM fun p _ => hn.valueName p)).bind fun parameters _ => ?_
    exact (methodTests_failsOnly _ fun j hj => hx (.tail _ hj)).bind fun others _ => failsOnly_ok _

variable (hroles : ∀ i ∈ c.model.interactions, (c.roles.find? i.target).isSome = true)
include hroles

omit hs in
theorem mocks_failsOnly {calls : List Interaction} (hc : calls ⊆ c.model.interactions) :
    FailsOnly (Unnamed P) (c.mocks calls) := by
  refine failsOnly_mapM fun target htarget => ?_
  refine (failsOnly_lift (mockedMethods_failsOnly hn _)).bind fun methods _ => ?_
  refine (failsOnly_lift (mockName_failsOnly hn _)).bind fun name _ => ?_
  refine FailsOnly.bind ?_ fun kind _ => failsOnly_ok _
  obtain ⟨i, hi, rfl⟩ := List.mem_map.1 (List.mem_eraseDups.1 htarget)
  obtain ⟨p, hp⟩ := Option.isSome_iff_exists.1 (hroles i (hc hi))
  unfold mockKind
  rw [hp]
  split
  · exact failsOnly_ok _
  · exact failsOnly_ok _
  · exact failsOnly_ok _
  · rename_i h
    cases h

/-- Synthesis fails only where a name cannot be made. -/
theorem tree_failsOnly : FailsOnly (Unnamed P) c.tree := by
  have hsuite : ∀ p, ∀ xs ⊆ c.model.methods, FailsOnly (Unnamed P) (c.suite p xs) := by
    intro p xs hxs
    unfold suite
    refine (mocks_failsOnly hn hroles fun i hi => ?_).bind fun mocks _ => ?_
    · obtain ⟨x, -, hi⟩ := List.mem_flatMap.1 hi
      exact (List.mem_filter.1 hi).1
    · exact (methodTests_failsOnly hn hs _ hxs).bind fun methods _ => failsOnly_ok _
  unfold tree
  refine FailsOnly.bind (failsOnly_filterMapM fun p _ => ?_) fun suites _ => ?_
  · split
    · exact failsOnly_ok _
    · exact (hsuite p _ (List.filter_subset_self _)).map _
  refine FailsOnly.bind (failsOnly_filterMapM fun leaf _ => ?_) fun tables _ => ?_
  · split
    · exact failsOnly_ok _
    · exact (failsOnly_lift (decisionTable_failsOnly hn leaf _)).map _
  · obtain ⟨x, hx, -⟩ := hs.root
    obtain ⟨p, hp, -⟩ := hs.owned x hx
    split
    · exact failsOnly_ok _
    · rename_i hnone
      rw [Model.componentUnderTest?, Option.map_eq_none_iff, List.head?_eq_none_iff] at hnone
      simp [hnone] at hp

end

end Context

/-- Every participant of a model is classified. -/
theorem find?_classify {m : Model} (s : LeafSuffixes) {p : Participant}
    (hp : p ∈ m.participants) : ((m.classify s).find? p.name).isSome = true := by
  rw [Classification.find?, List.find?_isSome]
  exact ⟨_, List.mem_map.2 ⟨p, hp, rfl⟩, by simp⟩

/-- The tests of a sound model can be made, unless a name cannot. -/
theorem synthesizeTests_failsOnly {m : Model} (hs : m.Sound) (s : LeafSuffixes) {p : Profile}
    {P : NameError → Prop} (hn : p.naming.FailOnly P) :
    FailsOnly (Unnamed P) (m.synthesizeTests (m.classify s) p) := by
  refine Context.tree_failsOnly hn hs fun i hi => ?_
  obtain ⟨participant, hmem, hname⟩ := hs.targets i hi
  show ((m.classify s).find? i.target).isSome = true
  rw [← hname]
  exact find?_classify s hmem

/-- **The tests of a sound model** can be made with the built-in profile. -/
theorem exists_tests {m : Model} (hs : m.Sound) (s : LeafSuffixes) :
    ∃ t, m.synthesizeTests (m.classify s) = .ok t := by
  have hfails := synthesizeTests_failsOnly hs s NamingRules.builtin_total
  apply exists_ok
  intro e he
  obtain ⟨n, -, hn⟩ := hfails e he
  exact hn

end Lifeline.Tests
