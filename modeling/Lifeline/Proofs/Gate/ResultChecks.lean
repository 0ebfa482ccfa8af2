import Lifeline.Proofs.Gate.Accepted
import Lifeline.Proofs.Model.Building
import Lifeline.Proofs.Stages
import Lifeline.Proofs.Tests.Trees

/-!
# Which results a passing tree checks

The gate finds the check of a result by its position alone, and lets a result go unchecked where
some group of the tree that is about the same path ends in an exception, whatever method that group
belongs to. So a tree that passes settles a result (`Tests.Tree.Settles`) exactly where no check asks
for another value and the result does not lean on the groups of another method
(`settles_iff_of_passed`). A branch has one group, so there only the place of that group matters; the
main path is one that all methods share.
-/

set_option autoImplicit false

namespace Lifeline.Tests

open Model (Method MethodResult Path)

/-- The groups of the method of a name of an orchestrator. -/
def Tree.groupsOf (t : Tree) (subject name : String) : List Group :=
  ((t.suites.filter (·.subject == subject)).flatMap (·.methods)).flatMap fun mt =>
    if mt.name == name then mt.groups else []

/-- A group is about a path. -/
def Group.About (g : Group) (P : Path) : Prop :=
  g.path.map (·.choice) = P.map fun (b, i) => ((b : Int), (i : Int))
deriving Decidable

/-- Some group among these is about a path that ends in an exception. -/
def Throws (gs : List Group) (P : Path) : Prop :=
  ∃ g ∈ gs, g.mode = .exceptionTriggered ∧ g.About P
deriving Decidable

/-- Exactly one check stands at the position of a result, and it expects the value of the result. -/
def Tree.Checks (t : Tree) (r : MethodResult) : Prop :=
  (t.resultChecksAt r.position).map (·.expected.valueId) = [r.valueId]
deriving Decidable

/-- A result of the method of a name has its check, or the method's own tests say that its path
ends in an exception. -/
def Tree.Settles (t : Tree) (x : Method) (name : String) (r : MethodResult) : Prop :=
  t.Checks r ∨ Throws (t.groupsOf x.owner name) r.scope.path
deriving Decidable

/-- What the gate does not look at: which value the check of a result expects, and whose exception
it is that excuses a result without a check. -/
structure Tree.Unmixed (t : Tree) (x : Method) (name : String) (r : MethodResult) : Prop where
  value : ∀ a ∈ t.resultChecksAt r.position, a.expected.valueId = r.valueId ∨
    Throws (t.groupsOf x.owner name) r.scope.path
  main : t.resultChecksAt r.position = [] → r.scope.path = [] →
    Throws (t.groupsOf x.owner name) []
  branch : t.resultChecksAt r.position = [] → ∀ b i : Nat, r.scope.path.getLast? = some (b, i) →
    ∀ g ∈ t.groups, g.path.getLast?.map (·.choice) = some ((b : Int), (i : Int)) →
      g ∈ t.groupsOf x.owner name

/-- A tree in which the methods of an orchestrator have lost the checks of their results. -/
def Tree.withoutResults (t : Tree) (subject : String) : Tree :=
  { t with suites := t.suites.map fun s =>
      if s.subject == subject then { s with methods := s.methods.map fun mt =>
        { mt with groups := mt.groups.map fun g =>
          { g with cases := g.cases.filter (·.result?.isNone) } } }
      else s }

theorem Tree.mem_of_groupsOf {t : Tree} {subject name : String} {g : Group}
    (hg : g ∈ t.groupsOf subject name) : g ∈ t.groups := by
  simp only [groupsOf, List.mem_flatMap, List.mem_filter] at hg
  obtain ⟨mt, ⟨s, ⟨hs, -⟩, hmt⟩, hg⟩ := hg
  split at hg
  · exact Tree.mem_groups.2 ⟨s, hs, mt, hmt, hg⟩
  · cases hg

end Lifeline.Tests

namespace Lifeline.Gate

open Model (Method MethodResult Path)
open Tests (Group Throws Tree)

theorem throwsOn_iff {t : Tree} {P : Path} : throwsOn t P = true ↔ Throws t.groups P := by
  simp [throwsOn, Throws, Group.About, List.any_eq_true]

/-- A group about a path that ends in a branch is a group of that branch. -/
theorem ends_of_about {g : Group} {P : Path} {b i : Nat} (hg : g.About P)
    (hP : P.getLast? = some (b, i)) :
    g.path.getLast?.map (·.choice) = some ((b : Int), (i : Int)) := by
  rw [← List.getLast?_map, hg, List.getLast?_map, hP]
  rfl

/-- Where one branch counts once among the ends of groups, one group ends in it. -/
theorem eq_of_ends {t : Tree} {e : Int × Int} (hone : t.ends.count e = 1) {g g' : Group}
    (hg : g ∈ t.groups) (hg' : g' ∈ t.groups) (he : g.path.getLast?.map (·.choice) = some e)
    (he' : g'.path.getLast?.map (·.choice) = some e) : g = g' := by
  by_contra hne
  obtain ⟨before, after, hsplit⟩ := List.append_of_mem hg
  have hother : g' ∈ before ++ after := by
    rw [hsplit] at hg'
    simpa [Ne.symm hne] using hg'
  have hcount : 1 ≤ ((before ++ after).filterMap fun g =>
      g.path.getLast?.map (·.choice)).count e :=
    List.count_pos_iff.2 (List.mem_filterMap.2 ⟨g', hother, he'⟩)
  rw [Tree.ends, hsplit] at hone
  simp only [List.filterMap_append, List.filterMap_cons, he, List.count_append,
    List.count_cons_self] at hone hcount
  omega

section
variable {t : Tree} {m : Model} {x : Method} {r : MethodResult}

/-- The branch that a result is in has one group. -/
theorem count_of_result (hm : m.Sound) (h : Accepted t m) (hx : x ∈ m.methods)
    (hr : r ∈ x.results) {b i : Nat} (hlast : r.scope.path.getLast? = some (b, i)) :
    t.ends.count ((b : Int), (i : Int)) = 1 := by
  let c : Tests.Context := { model := m, roles := m.classify, naming := Profile.builtin.naming }
  have hpath : r.scope.path ∈ c.paths x := Tests.Context.result_path (c := c) hm hx hr
  rcases Tests.Context.mem_paths.1 hpath with ⟨hnil, -⟩ | ⟨alt, halt, br, hbr, hP⟩
  · rw [hnil] at hlast
    cases hlast
  · rw [hP, List.getLast?_append, List.getLast?_singleton, Option.some_or, Option.some.injEq,
      Prod.mk.injEq] at hlast
    obtain ⟨rfl, rfl⟩ := hlast
    obtain ⟨halt, howner⟩ := Tests.Context.mem_blocksOf.1 halt
    exact h.branches alt halt ⟨x, hx, howner.symm⟩ br hbr

/-- **Results of a tree that passes.** A result of a method has one check that expects its value, or
its path ends in an exception by a group of the method itself, if and only if every check at its
position expects its value and, where none stands there, the group that excuses it is one of the
method. -/
theorem settles_iff_of_passed {source : String} {d : Diagram} {o : Model.Options}
    (hd : Diagram.parse source = .ok d) (hm : d.buildModel o = .ok m)
    (h : (run t m).passed = true) (hx : x ∈ m.methods) (hr : r ∈ x.results) (name : String) :
    t.Settles x name r ↔ t.Unmixed x name r := by
  have hsound := Model.sound_of_build (Diagram.sound_of_parse hd) hm
  have haccepted := accepted_of_passed h
  constructor
  · rintro (hchecks | hown)
    · obtain ⟨a, ha, hvalue⟩ := List.map_eq_singleton_iff.1 hchecks
      have hsome : t.resultChecksAt r.position ≠ [] := by simp [ha]
      refine ⟨fun a' ha' => .inl ?_, fun hnone => absurd hnone hsome,
        fun hnone => absurd hnone hsome⟩
      rw [ha, List.mem_singleton] at ha'
      rw [ha', hvalue]
    · refine ⟨fun _ _ => .inr hown, fun _ hnil => hnil ▸ hown, fun _ b i hlast g hg hends => ?_⟩
      obtain ⟨g', hg', -, habout⟩ := hown
      have hone := count_of_result hsound haccepted hx hr hlast
      rwa [eq_of_ends hone hg (Tests.Tree.mem_of_groupsOf hg') hends (ends_of_about habout hlast)]
  · rintro ⟨hvalue, hmain, hbranch⟩
    rcases haccepted.results x hx r hr with hone | ⟨hnone, hthrows⟩
    · obtain ⟨a, ha⟩ := List.length_eq_one_iff.1 hone
      refine (hvalue a (by simp [ha])).imp (fun hv => ?_) id
      rw [Tree.Checks, ha, List.map_singleton, hv]
    · refine .inr ?_
      cases hlast : r.scope.path.getLast? with
      | none =>
        have hnil := List.getLast?_eq_none_iff.1 hlast
        rw [hnil]
        exact hmain hnone hnil
      | some e =>
        obtain ⟨g, hg, hmode, habout⟩ := throwsOn_iff.1 hthrows
        exact ⟨g, hbranch hnone e.1 e.2 hlast g hg (ends_of_about habout hlast), hmode, habout⟩

end

/-- A diagram in which the method under test raises on its main path, and a service that it calls
has a result on its own. -/
def sharedPath : String :=
  "[-> A : run(x)\nA -> BService : foo(x)\nBService -> CClient : get(x)\n" ++
    "CClient --> BService : v\nBService --> A : w\nA -> A : <<throws>> Late\n"

/-- The tests pass, and so they do without the check of the result of the service. -/
theorem of?_sharedPath : ∃ x ∈ Stages.of? sharedPath,
    ((run x.tests x.model).passed = true ∧
      ∃ y ∈ x.model.methods, ∃ r ∈ y.results, x.tests.Settles y y.name r) ∧
    (run (x.tests.withoutResults "BService") x.model).passed = true ∧
      ∃ y ∈ x.model.methods, ∃ r ∈ y.results,
        ¬ (x.tests.withoutResults "BService").Settles y y.name r := by
  unfold sharedPath
  rw [Stages.of?_toList, String.toList_append, String.toList_ofList, String.toList_ofList]
  decide +kernel

theorem settles_iff_sharedPath : ∃ d m t, Diagram.parse sharedPath = .ok d ∧
    d.buildModel = .ok m ∧ (run t m).passed = true ∧ ∃ x ∈ m.methods, ∃ r ∈ x.results,
      t.Settles x x.name r ∧ t.Unmixed x x.name r := by
  obtain ⟨x, hx, ⟨hpassed, y, hy, r, hr, hsettles⟩, -⟩ := of?_sharedPath
  obtain ⟨d, hd, hm, -⟩ := Stages.of?_eq_some hx
  exact ⟨d, x.model, x.tests, hd, hm, hpassed, y, hy, r, hr, hsettles,
    (settles_iff_of_passed hd hm hpassed hy hr y.name).1 hsettles⟩

/-- Without the check of its result the service passes all the same: the exception of its caller
stands on the main path, which is the path of that result too. -/
theorem not_settles_sharedPath : ∃ x ∈ Stages.of? sharedPath,
    (run (x.tests.withoutResults "BService") x.model).passed = true ∧
      ∃ y ∈ x.model.methods, ∃ r ∈ y.results,
        ¬ (x.tests.withoutResults "BService").Settles y y.name r := by
  obtain ⟨x, hx, -, hrest⟩ := of?_sharedPath
  exact ⟨x, hx, hrest⟩

end Lifeline.Gate
