import Lifeline.Proofs.Name.Patterns
import Lifeline.Source.Render

/-!
# Files that are always written

Writing fails only where a template or a name of the profile does. The built-in templates have no
slots but those that files fill (`isPlain_builtin`), so with the built-in profile every tree of
tests and every tree of code becomes files (`exists_render`). There is one lemma for each function that
writes: what it writes fails only as its parts do.
-/

set_option autoImplicit false

namespace Lifeline

/-- The slots that files fill in a template. -/
def TemplateKey.slots : TemplateKey → List String
  | .testHeader => ["subject"]
  | .importLine => ["module", "name"]
  | .mockDeclaration | .setupMock => ["mock"]
  | .groupHeader => ["group", "description", "fixtures"]
  | .fixtureValue | .valueRef => ["name"]
  | .fixtureCollection => ["collection", "element"]
  | .stub => ["mock", "method", "value"]
  | .stubRaises => ["mock", "method", "exception"]
  | .stubSequence => ["mock", "method", "values"]
  | .stubGuardNote => ["guard"]
  | .guardFixture => ["target", "value"]
  | .subjectConstruction => ["subject", "arguments"]
  | .helperStub | .keywordArgument => ["name", "value"]
  | .setupInvoke => ["method", "arguments"]
  | .literalTrue | .literalFalse | .literalNull | .verifyOnce | .verifyAny => []
  | .verifyTest => ["test", "invoke", "mock", "method", "check", "arguments"]
  | .invokeSuppressed => ["exception", "method", "arguments"]
  | .resultTest => ["test", "expected"]
  | .throwTest => ["test", "exception", "method", "arguments", "message_check"]
  | .throwMessageCheck => ["subject", "constant", "arguments"]
  | .decisionHeader => ["participant", "module", "pending"]
  | .decisionMethod => ["participant", "method", "argnames", "rows", "arguments"]
  | .decisionRow => ["values"]
  | .implHeader => ["subject", "errors_module"]
  | .classHeader => ["subject", "description", "parameters", "assignments"]
  | .assignment | .binding | .iterationSource => ["name"]
  | .constant => ["constant", "literal"]
  | .methodSignature | .interfaceMethod => ["method", "parameters"]
  | .callStatement => ["indent", "binding", "mock", "method", "arguments"]
  | .returnStatement => ["indent", "value"]
  | .raiseStatement => ["indent", "exception", "message"]
  | .raiseMessage => ["constant", "arguments"]
  | .exceptionRef | .exceptionClass => ["exception"]
  | .conditionalIf | .conditionalElif => ["indent", "condition"]
  | .conditionalElse | .emptyBody => ["indent"]
  | .predicateCondition => ["predicate"]
  | .predicate => ["predicate", "guard"]
  | .iteration => ["indent", "element", "collection"]
  | .iterationSourceMethod => ["name", "label"]
  | .interfaceHeader | .scaffoldHeader | .scaffoldClass => ["name"]
  | .interfaceClass => ["name", "users"]
  | .scaffoldMethod => ["name", "method", "parameters", "status"]
  | .indent | .errorsHeader => []

/-- All rules that make paths and modules. -/
def PathRules.all (rules : PathRules) : List String :=
  [rules.testFile, rules.implementationFile, rules.interfaceFile, rules.scaffoldFile,
   rules.decisionTableFile, rules.errorsFile, rules.module, rules.errorsModule]

/-- The built-in templates have no other slots than those that are filled. -/
theorem isPlain_builtin (key : TemplateKey) :
    Template.isPlain key.slots key.builtin.toList.length key.builtin.toList = true := by
  cases key
  all_goals
    dsimp only [TemplateKey.builtin, Template.slotText]
    -- The kernel is slow to decode a text, so it gets the characters.
    repeat rw [String.toList_append]
    repeat rw [String.toList_ofList]
    decide +kernel

/-- The built-in path rules have no other slots than those that are filled. -/
theorem isPlain_paths : ∀ rule ∈ Profile.builtin.paths.all, Template.isPlain
    ["base", "base_path", "subject", "subject_snake"] rule.toList.length rule.toList = true := by
  decide +kernel

namespace Source

namespace Renderer

open Code (BranchHead LoopHead Statement)
open Tests (Case Group Stub Suite ValueRef)

variable {P : NameError → Prop} {r : Renderer} (hr : r.profile = .builtin)
include hr

/-! ## Templates and values -/

/-- A built-in template with a value for each of its slots. -/
theorem fill_failsOnly {key : TemplateKey} {values : Template.Values}
    (hv : values.map (·.1) = key.slots) : FailsOnly P (r.fill key values) := by
  have hkey : r.profile.templates.get key = key.builtin := by rw [hr]; rfl
  obtain ⟨text, ht⟩ := Template.fill_total key.slots (fun _ h => hv ▸ h) (isPlain_builtin key)
  rw [fill, hkey, ht]
  exact failsOnly_ok text

theorem fill1_failsOnly {key : TemplateKey} {name value : String} (h : [name] = key.slots) :
    FailsOnly P (r.fill1 key name value) :=
  fill_failsOnly hr h

theorem path_failsOnly {rule subject : String} (h : rule ∈ r.profile.paths.all) :
    FailsOnly P (r.path rule subject) := by
  unfold path
  obtain ⟨text, ht⟩ : ∃ text, Template.fill rule [("base", r.base),
      ("base_path", Text.Packed.replace "." "/" r.base), ("subject", subject),
      ("subject_snake", Name.snake subject)] = .ok text :=
    Template.fill_total _ (by simp) (isPlain_paths rule (hr ▸ h))
  rw [ht]
  exact failsOnly_ok text

theorem moduleOf_failsOnly (subject : String) : FailsOnly P (r.moduleOf subject) :=
  path_failsOnly hr (by simp [PathRules.all])

theorem typeName_failsOnly (name : String) : FailsOnly P (r.typeName name) := by
  rw [typeName, hr]
  exact (NamingRules.builtin_total.typeName name).mono fun _ h => h.elim

theorem literal_failsOnly (ref : ValueRef) : FailsOnly P (r.literal ref) := by
  unfold literal
  split
  · rename_i key hkey
    unfold literalTemplate? at hkey
    split at hkey <;> cases hkey <;> exact fill_failsOnly hr rfl
  · exact failsOnly_ok _

theorem truth_failsOnly (b : Bool) : FailsOnly P (r.truth b) := by
  cases b <;> exact fill_failsOnly hr rfl

theorem codeValue_failsOnly (ref : ValueRef) : FailsOnly P (r.codeValue ref) := by
  unfold codeValue
  split
  · exact literal_failsOnly hr ref
  · exact failsOnly_ok _

theorem held_failsOnly (name : String) : FailsOnly P (r.held name) :=
  fill1_failsOnly hr rfl

theorem testValue_failsOnly (g : Group) (ref : ValueRef) : FailsOnly P (r.testValue g ref) := by
  unfold testValue
  split
  · exact literal_failsOnly hr ref
  · exact (held_failsOnly hr _).bind fun _ _ => failsOnly_ok _

omit hr in
theorem messageArguments_failsOnly {value : ValueRef → Writing String}
    (h : ∀ ref, FailsOnly P (value ref)) (arguments : List Tests.MessageArgument) :
    FailsOnly P (messageArguments value arguments) := by
  unfold messageArguments
  refine (failsOnly_mapM fun a _ => ?_).bind fun _ _ => failsOnly_ok _
  exact (h a.value).bind fun _ _ => failsOnly_ok _

/-! ## Statements -/

theorem orEmptyBody_failsOnly (level : Nat) (text : String) :
    FailsOnly P (r.orEmptyBody level text) := by
  unfold orEmptyBody
  split
  · exact fill1_failsOnly hr rfl
  · exact failsOnly_ok _

theorem branchHead_failsOnly (level : Nat) (first : Bool) (head : BranchHead) :
    FailsOnly P (r.branchHead level first head) := by
  have hdecide : ∀ condition, FailsOnly P
      (r.fill (if first then .conditionalIf else .conditionalElif)
        [("indent", r.indent level), ("condition", condition)]) := fun condition => by
    cases first <;> exact fill_failsOnly hr rfl
  unfold branchHead
  dsimp only
  split
  · exact fill1_failsOnly hr rfl
  · split
    · exact (fill1_failsOnly hr rfl).bind fun _ _ => hdecide _
    · exact hdecide _
  · exact (fill1_failsOnly hr rfl).bind fun _ _ => hdecide _

theorem loopHead_failsOnly (level : Nat) (head : LoopHead) :
    FailsOnly P (r.loopHead level head) := by
  unfold loopHead
  dsimp only
  split
  · exact (failsOnly_ok _).bind fun _ _ => fill_failsOnly hr rfl
  · exact (fill1_failsOnly hr rfl).bind fun _ _ => fill_failsOnly hr rfl

theorem callText_failsOnly (level : Nat) (s : Code.CallStatement) :
    FailsOnly P (r.callText level s) := by
  have harguments : FailsOnly P (s.arguments.mapM r.codeValue) :=
    failsOnly_mapM fun ref _ => codeValue_failsOnly hr ref
  unfold callText
  dsimp only
  split
  · refine (fill1_failsOnly hr rfl).bind fun _ _ => ?_
    exact harguments.bind fun _ _ => fill_failsOnly hr rfl
  · exact (failsOnly_ok _).bind fun _ _ => harguments.bind fun _ _ => fill_failsOnly hr rfl

theorem raiseText_failsOnly (level : Nat) (s : Code.RaiseStatement) :
    FailsOnly P (r.raiseText level s) := by
  have hexception : FailsOnly P (r.fill1 .exceptionRef "exception" s.exception) :=
    fill1_failsOnly hr rfl
  unfold raiseText
  dsimp only
  split
  · refine (messageArguments_failsOnly (codeValue_failsOnly hr) _).bind fun _ _ => ?_
    refine (fill_failsOnly hr rfl).bind fun _ _ => ?_
    exact hexception.bind fun _ _ => fill_failsOnly hr rfl
  · exact (failsOnly_ok _).bind fun _ _ => hexception.bind fun _ _ => fill_failsOnly hr rfl

omit hr

mutual

theorem statementText_failsOnly (hr : r.profile = .builtin) (level : Nat) : ∀ s : Statement,
    FailsOnly P (statementText r level s)
  | .call s => by
    rw [statementText]
    exact callText_failsOnly hr level s
  | .return s => by
    rw [statementText]
    refine (codeValue_failsOnly hr s.value).bind fun _ _ => ?_
    exact fill_failsOnly hr rfl
  | .raise s => by
    rw [statementText]
    exact raiseText_failsOnly hr level s
  | .conditional _ branches _ => by
    rw [statementText]
    exact branchesText_failsOnly hr level true branches
  | .iteration head body => by
    rw [statementText]
    refine (loopHead_failsOnly hr level head).bind fun _ _ => ?_
    refine (bodyText_failsOnly hr (level + 1) body).bind fun _ _ => ?_
    exact (orEmptyBody_failsOnly hr _ _).bind fun _ _ => failsOnly_ok _

theorem bodyText_failsOnly (hr : r.profile = .builtin) (level : Nat) : ∀ body : List Statement,
    FailsOnly P (bodyText r level body)
  | [] => by
    rw [bodyText]
    exact failsOnly_ok _
  | s :: rest => by
    rw [bodyText]
    refine (statementText_failsOnly hr level s).bind fun _ _ => ?_
    exact (bodyText_failsOnly hr level rest).bind fun _ _ => failsOnly_ok _

theorem branchesText_failsOnly (hr : r.profile = .builtin) (level : Nat) (first : Bool) :
    ∀ branches : List (BranchHead × List Statement),
      FailsOnly P (branchesText r level first branches)
  | [] => by
    rw [branchesText]
    exact failsOnly_ok _
  | (head, body) :: rest => by
    rw [branchesText]
    refine (branchHead_failsOnly hr level first head).bind fun _ _ => ?_
    refine (bodyText_failsOnly hr (level + 1) body).bind fun _ _ => ?_
    refine (orEmptyBody_failsOnly hr _ _).bind fun _ _ => ?_
    exact (branchesText_failsOnly hr level false rest).bind fun _ _ => failsOnly_ok _

end

/-! ## Code files -/

include hr

theorem errorsModule_failsOnly : FailsOnly P (r.path r.profile.paths.errorsModule) :=
  path_failsOnly hr (by simp [PathRules.all])

theorem methodBlock_failsOnly (m : Code.Method) : FailsOnly P (r.methodBlock m) := by
  unfold methodBlock
  refine (bodyText_failsOnly hr methodLevel m.body).bind fun _ _ => ?_
  refine (orEmptyBody_failsOnly hr methodLevel _).bind fun _ _ => ?_
  exact (fill_failsOnly hr rfl).bind fun _ _ => failsOnly_ok _

theorem helperBlock_failsOnly (h : Code.Helper) : FailsOnly P (r.helperBlock h) := by
  unfold helperBlock
  dsimp only
  split
  · exact (fill_failsOnly hr rfl).bind fun _ _ => failsOnly_ok _
  · exact (fill_failsOnly hr rfl).bind fun _ _ => failsOnly_ok _

theorem classFile_failsOnly (c : Code.Class) : FailsOnly P (r.classFile c) := by
  unfold classFile
  refine (typeName_failsOnly hr c.subject).bind fun subject _ => ?_
  dsimp only
  split
  case' isTrue => refine (fill1_failsOnly hr rfl).bind fun _ _ => ?_
  case' isFalse =>
    refine (failsOnly_mapM fun _ _ => fill1_failsOnly hr rfl).bind fun _ _ => ?_
  -- With or without collaborators, what follows the assignments is the same.
  all_goals
    refine (errorsModule_failsOnly hr).bind fun _ _ => ?_
    refine (fill_failsOnly hr rfl).bind fun _ _ => ?_
    refine (fill_failsOnly hr rfl).bind fun _ _ => ?_
    refine (failsOnly_mapM fun k _ => ?_).bind fun _ _ => ?_
    · exact (fill_failsOnly hr rfl).bind fun _ _ => failsOnly_ok _
    refine (failsOnly_mapM fun m _ => methodBlock_failsOnly hr m).bind fun _ _ => ?_
    refine (failsOnly_mapM fun h _ => helperBlock_failsOnly hr h).bind fun _ _ => ?_
    exact (path_failsOnly hr (by simp [PathRules.all])).bind fun _ _ => failsOnly_ok _

theorem interfaceFile_failsOnly (i : Code.Interface) : FailsOnly P (r.interfaceFile i) := by
  unfold interfaceFile
  refine (typeName_failsOnly hr i.name).bind fun _ _ => ?_
  refine (fill1_failsOnly hr rfl).bind fun _ _ => ?_
  refine (failsOnly_mapM fun user _ => typeName_failsOnly hr user).bind fun _ _ => ?_
  refine (fill_failsOnly hr rfl).bind fun _ _ => ?_
  refine (failsOnly_mapM fun m _ => ?_).bind fun _ _ => ?_
  · exact (fill_failsOnly hr rfl).bind fun _ _ => failsOnly_ok _
  exact (path_failsOnly hr (by simp [PathRules.all])).bind fun _ _ => failsOnly_ok _

theorem scaffoldFile_failsOnly (s : Code.Scaffold) : FailsOnly P (r.scaffoldFile s) := by
  unfold scaffoldFile
  refine (typeName_failsOnly hr s.name).bind fun _ _ => ?_
  refine (fill1_failsOnly hr rfl).bind fun _ _ => ?_
  refine (fill1_failsOnly hr rfl).bind fun _ _ => ?_
  refine (failsOnly_mapM fun m _ => ?_).bind fun _ _ => ?_
  · exact (fill_failsOnly hr rfl).bind fun _ _ => failsOnly_ok _
  exact (path_failsOnly hr (by simp [PathRules.all])).bind fun _ _ => failsOnly_ok _

theorem errorsFile_failsOnly (exceptions : List String) :
    FailsOnly P (r.errorsFile exceptions) := by
  unfold errorsFile
  refine (fill_failsOnly hr rfl).bind fun _ _ => ?_
  refine (failsOnly_mapM fun e _ => ?_).bind fun _ _ => ?_
  · exact (fill1_failsOnly hr rfl).bind fun _ _ => failsOnly_ok _
  exact (path_failsOnly hr (by simp [PathRules.all])).bind fun _ _ => failsOnly_ok _

/-! ## What the setup of a group writes -/

theorem fixtures_failsOnly (defined names : List String) :
    FailsOnly P (r.fixtures defined names) := by
  induction names generalizing defined with
  | nil => exact failsOnly_ok _
  | cons name rest ih =>
    rw [fixtures]
    split
    · exact ih defined
    · refine (fill1_failsOnly hr rfl).bind fun _ _ => ?_
      exact (ih _).bind fun _ _ => failsOnly_ok _

theorem loopFixtures_failsOnly (g : Group) (defined : List String)
    (loops : List Tests.LoopFixture) : FailsOnly P (r.loopFixtures g defined loops) := by
  induction loops generalizing defined with
  | nil => exact failsOnly_ok _
  | cons l rest ih =>
    rw [loopFixtures]
    split
    · refine (fixtures_failsOnly hr _ _).bind fun _ _ => ?_
      refine (fill_failsOnly hr rfl).bind fun _ _ => ?_
      exact (ih _).bind fun _ _ => failsOnly_ok _
    · exact ih defined

theorem guardFixture_failsOnly (g : Group) (elements parameters : List String)
    (branch : BranchHead) (taken : Int) :
    FailsOnly P (r.guardFixture g elements parameters branch taken) := by
  unfold guardFixture
  dsimp only
  split
  · exact failsOnly_ok _
  split
  · exact failsOnly_ok _
  refine (truth_failsOnly hr _).bind fun _ _ => ?_
  exact fill_failsOnly hr rfl

theorem guardFixtures_failsOnly (g : Group) (parameters : List String) :
    FailsOnly P (r.guardFixtures g parameters) := by
  unfold guardFixtures
  refine (failsOnly_mapM fun b _ => ?_).bind fun _ _ => failsOnly_ok _
  exact guardFixture_failsOnly hr g _ _ b.1 b.2

theorem stubLines_failsOnly (g : Group) (sequenced : List (String × String)) (stubs : List Stub) :
    FailsOnly P (r.stubLines g sequenced stubs) := by
  induction stubs generalizing sequenced with
  | nil => exact failsOnly_ok _
  | cons s rest ih =>
    have hrest : ∀ before sequenced, FailsOnly P (do
        return before ++ (← r.stubLines g sequenced rest)) := fun _ _ =>
      (ih _).bind fun _ _ => failsOnly_ok _
    rw [stubLines]
    dsimp only
    split
    case' h_1 => refine (fill1_failsOnly hr rfl).bind fun _ _ => ?_
    case' h_2 => refine (failsOnly_ok _).bind fun _ _ => ?_
    -- With or without a note, what follows it is the same.
    all_goals
      split
      · exact (fill_failsOnly hr rfl).bind fun _ _ => hrest _ _
      · exact hrest _ _
      · split
        · exact (fill_failsOnly hr rfl).bind fun _ _ => hrest _ _
        · split
          · exact hrest _ _
          · refine (failsOnly_mapM fun name _ => held_failsOnly hr name).bind fun _ _ => ?_
            exact (fill_failsOnly hr rfl).bind fun _ _ => hrest _ _

theorem helperStubs_failsOnly (g : Group) : FailsOnly P (r.helperStubs g) := by
  unfold helperStubs
  refine (failsOnly_mapM fun b _ => ?_).bind fun _ _ => ?_
  · obtain ⟨branch, taken⟩ := b
    dsimp only
    split
    · split
      · exact failsOnly_ok _
      · exact (truth_failsOnly hr _).bind fun _ _ => fill_failsOnly hr rfl
    · exact failsOnly_ok _
  refine (failsOnly_mapM fun l _ => ?_).bind fun _ _ => failsOnly_ok _
  exact (held_failsOnly hr _).bind fun _ _ => fill_failsOnly hr rfl

/-! ## Test files -/

theorem testCase_failsOnly (s : Suite) (method arguments : String) (g : Group) (c : Case) :
    FailsOnly P (r.testCase s method arguments g c) := by
  unfold testCase
  split
  · dsimp only
    split
    case' isTrue =>
      refine (fill_failsOnly hr rfl).bind fun _ _ => ?_
    case' isFalse => refine (failsOnly_ok _).bind fun _ _ => ?_
    all_goals
      refine FailsOnly.bind ?_ fun _ _ => ?_
      · split <;> exact fill_failsOnly hr rfl
      refine (failsOnly_mapM fun ref _ => testValue_failsOnly hr g ref).bind fun _ _ => ?_
      exact fill_failsOnly hr rfl
  · refine (testValue_failsOnly hr g _).bind fun _ _ => ?_
    exact fill_failsOnly hr rfl
  · dsimp only
    split
    · refine (typeName_failsOnly hr _).bind fun _ _ => ?_
      refine (messageArguments_failsOnly (testValue_failsOnly hr g) _).bind fun _ _ => ?_
      exact (fill_failsOnly hr rfl).bind fun _ _ => fill_failsOnly hr rfl
    · exact (failsOnly_ok _).bind fun _ _ => fill_failsOnly hr rfl

theorem groupText_failsOnly (s : Suite) (method : String) (parameters : List String) (g : Group) :
    FailsOnly P (r.groupText s method parameters g) := by
  have hcases : ∀ arguments, FailsOnly P (g.cases.mapM (r.testCase s method arguments g)) :=
    fun arguments => failsOnly_mapM fun c _ => testCase_failsOnly hr s method arguments g c
  unfold groupText
  refine (fill_failsOnly hr rfl).bind fun _ _ => ?_
  refine (failsOnly_mapM fun _ _ => fill1_failsOnly hr rfl).bind fun _ _ => ?_
  refine (fixtures_failsOnly hr _ _).bind fun _ _ => ?_
  refine (fixtures_failsOnly hr _ _).bind fun _ _ => ?_
  refine (loopFixtures_failsOnly hr g _ _).bind fun _ _ => ?_
  refine (fixtures_failsOnly hr _ _).bind fun _ _ => ?_
  refine (guardFixtures_failsOnly hr g _).bind fun _ _ => ?_
  refine (stubLines_failsOnly hr g _ _).bind fun _ _ => ?_
  refine (typeName_failsOnly hr _).bind fun _ _ => ?_
  refine (failsOnly_mapM fun name _ => ?_).bind fun _ _ => ?_
  · refine (held_failsOnly hr name).bind fun _ _ => ?_
    exact fill_failsOnly hr rfl
  refine (fill_failsOnly hr rfl).bind fun _ _ => ?_
  refine (helperStubs_failsOnly hr g).bind fun _ _ => ?_
  refine (failsOnly_mapM fun name _ => held_failsOnly hr name).bind fun _ _ => ?_
  dsimp only
  split
  · refine (fill_failsOnly hr rfl).bind fun _ _ => ?_
    exact (hcases _).bind fun _ _ => failsOnly_ok _
  · exact (failsOnly_ok _).bind fun _ _ => (hcases _).bind fun _ _ => failsOnly_ok _

theorem importBlock_failsOnly (module name : String) : FailsOnly P (r.importBlock module name) :=
  (fill_failsOnly hr rfl).bind fun _ _ => failsOnly_ok _

theorem testFile_failsOnly (s : Suite) : FailsOnly P (r.testFile s) := by
  unfold testFile
  refine (typeName_failsOnly hr _).bind fun _ _ => ?_
  refine (fill1_failsOnly hr rfl).bind fun _ _ => ?_
  refine (moduleOf_failsOnly hr _).bind fun _ _ => ?_
  refine (importBlock_failsOnly hr _ _).bind fun _ _ => ?_
  refine (errorsModule_failsOnly hr).bind fun module _ => ?_
  refine (failsOnly_mapM fun e _ => importBlock_failsOnly hr module e).bind fun _ _ => ?_
  refine (failsOnly_mapM fun m _ => ?_).bind fun _ _ => ?_
  · exact (fill1_failsOnly hr rfl).bind fun _ _ => failsOnly_ok _
  refine (failsOnly_mapM fun m _ => failsOnly_mapM fun g _ => ?_).bind fun _ _ => ?_
  · exact (groupText_failsOnly hr s _ _ g).bind fun _ _ => failsOnly_ok _
  exact (path_failsOnly hr (by simp [PathRules.all])).bind fun _ _ => failsOnly_ok _

theorem decisionBlock_failsOnly (participant : String) (m : Tests.DecisionMethod) :
    FailsOnly P (r.decisionBlock participant m) := by
  unfold decisionBlock
  refine (failsOnly_mapM fun _ _ => fill1_failsOnly hr rfl).bind fun _ _ => ?_
  exact (fill_failsOnly hr rfl).bind fun _ _ => failsOnly_ok _

theorem decisionFile_failsOnly (t : Tests.DecisionTable) : FailsOnly P (r.decisionFile t) := by
  unfold decisionFile
  refine (typeName_failsOnly hr _).bind fun participant _ => ?_
  refine (truth_failsOnly hr _).bind fun _ _ => ?_
  refine (moduleOf_failsOnly hr _).bind fun _ _ => ?_
  refine (fill_failsOnly hr rfl).bind fun _ _ => ?_
  refine (failsOnly_mapM fun m _ => decisionBlock_failsOnly hr participant m).bind fun _ _ => ?_
  exact (path_failsOnly hr (by simp [PathRules.all])).bind fun _ _ => failsOnly_ok _

end Renderer

/-! ## All files -/

open Renderer in
/-- With the built-in profile every tree of tests and every tree of code becomes files. -/
theorem exists_render (tests : Tests.Tree) (code : Code.Tree) (base : String) :
    ∃ files, render tests code .builtin base = .ok files := by
  refine exists_ok ?_
  unfold render
  dsimp only
  refine (failsOnly_mapM fun s _ => testFile_failsOnly rfl s).bind fun _ _ => ?_
  refine (failsOnly_mapM fun t _ => decisionFile_failsOnly rfl t).bind fun _ _ => ?_
  refine (failsOnly_mapM fun c _ => classFile_failsOnly rfl c).bind fun _ _ => ?_
  refine (failsOnly_mapM fun i _ => interfaceFile_failsOnly rfl i).bind fun _ _ => ?_
  refine (failsOnly_mapM fun s _ => scaffoldFile_failsOnly rfl s).bind fun _ _ => ?_
  exact (errorsFile_failsOnly rfl _).bind fun _ _ => failsOnly_ok _

end Source

end Lifeline
