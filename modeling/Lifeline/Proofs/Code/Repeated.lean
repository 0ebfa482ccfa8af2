import Lifeline.Proofs.Code.Calls
import Lifeline.Proofs.Code.Declared

/-!
# Methods that are reached several times

Every activation of a participant has tests of its own, under the name of the method that it
activates, but a class implements a name once, from the first tests of the name. As no two checked
calls of a diagram stand at one position (`TreeOf.nodup_sequences`), what later tests of the name
check is in no method of the class.

**`calls_iff_first_of_synthesis`**: a class makes a checked call exactly where no earlier tests of
its suite have the name of the method that checks it. So not every checked call is made
(`not_calls_secondActivation`).
-/

set_option autoImplicit false

namespace Lifeline.Code

open Model (sound_of_build)
open Tests (CallCheck MethodTests Suite TreeOf)

/-- A class makes a call that is checked, somewhere in one of its methods. -/
def Class.Calls (cls : Class) (a : CallCheck) : Prop :=
  ∃ made ∈ cls.methods, ∃ y ∈ callsIn [] made.body,
    y.2.mock = a.mock ∧ y.2.method = a.method ∧ y.2.sequence = a.sequence

instance (cls : Class) (a : CallCheck) : Decidable (cls.Calls a) :=
  inferInstanceAs (Decidable (∃ made ∈ cls.methods, ∃ y ∈ callsIn [] made.body,
    y.2.mock = a.mock ∧ y.2.method = a.method ∧ y.2.sequence = a.sequence))

/-- The checked calls of a suite, method by method. -/
theorem nodup_suite {c : Tests.Context} {t : Tests.Tree} (h : TreeOf c t) {suite : Suite}
    (hs : suite ∈ t.suites) : ((suite.methods.flatMap fun mt =>
      mt.groups.flatMap (·.callChecks)).map (·.sequence)).Nodup := by
  have hn := h.nodup_sequences
  rw [Tests.Tree.groups, List.flatMap_assoc, List.map_flatMap] at hn
  have hsuite := (List.nodup_flatMap.1 hn).1 suite hs
  rwa [Suite.groups, List.flatMap_assoc] at hsuite

/-- What checks the position of a check of a method is that method, and no method before it. -/
theorem eq_of_sequence {c : Tests.Context} {t : Tests.Tree} (h : TreeOf c t) {suite : Suite}
    (hs : suite ∈ t.suites) {before after : List MethodTests} {mt mt' : MethodTests}
    (hmt : suite.methods = before ++ mt :: after) (hmt' : mt' ∈ suite.methods) {a a' : CallCheck}
    (ha : a ∈ mt.groups.flatMap (·.callChecks)) (ha' : a' ∈ mt'.groups.flatMap (·.callChecks))
    (hsequence : a'.sequence = a.sequence) : mt' = mt ∧ mt' ∉ before := by
  have hn := nodup_suite h hs
  rw [hmt, List.flatMap_append, List.map_append, List.flatMap_cons, List.map_append] at hn
  obtain ⟨-, hn, hbefore⟩ := List.nodup_append.1 hn
  obtain ⟨-, -, hafter⟩ := List.nodup_append.1 hn
  have hmem := List.mem_map_of_mem (f := (·.sequence)) ha
  have hmem' : ∀ {xs : List MethodTests}, mt' ∈ xs → a'.sequence ∈
      (xs.flatMap fun mt => mt.groups.flatMap (·.callChecks)).map (·.sequence) :=
    fun hx => List.mem_map_of_mem (List.mem_flatMap.2 ⟨mt', hx, ha'⟩)
  have hnot : mt' ∉ before := fun hx =>
    hbefore _ (hmem' hx) _ (List.mem_append_left _ hmem) hsequence
  refine ⟨?_, hnot⟩
  rw [hmt, List.mem_append, List.mem_cons] at hmt'
  rcases hmt' with hx | rfl | hx
  · exact absurd hx hnot
  · rfl
  · exact absurd hsequence.symm (hafter _ hmem _ (hmem' hx))

section

variable {source : String} {d : Diagram} {o : Model.Options} {m : Model} {s : LeafSuffixes}
  {p : Profile} {t : Tests.Tree} {code : Tree}
  (hd : Diagram.parse source = .ok d) (hm : d.buildModel o = .ok m)
  (ht : m.synthesizeTests (m.classify s) p = .ok t) (hc : t.synthesizeCode p = .ok code)
  {suite : Suite} (hs : suite ∈ t.suites)
include hd hm ht hc hs

/-- The calls of a method of a class are those that the first tests of its name check. -/
theorem checks_of_made {cls : Class} (hcls : cls ∈ code.classes)
    (hsubject : cls.subject = suite.subject) {made : Method} (hmade : made ∈ cls.methods)
    {mt : MethodTests} (hfirst : suite.methods.find? (·.name == mt.name) = some mt)
    (hname : made.name = mt.name) :
    (∀ a ∈ mt.groups.flatMap (·.callChecks), ∃ y ∈ callsIn [] made.body, y.2.meets a = true) ∧
      ∀ y ∈ callsIn [] made.body, ∃ a ∈ mt.groups.flatMap (·.callChecks), y.2.meets a = true := by
  have htree := Tests.treeOf_synthesis (sound_of_build (Diagram.sound_of_parse hd) hm) ht
  obtain ⟨body, hbody, c, x, tl, events, k, -, htold, hmx, hx, hy⟩ :=
    exists_first_body hd hm ht hc hs hfirst
  obtain rfl : made.body = body := by
    have h := body?_of_mem htree hc hcls hmade
    rw [hsubject, hname] at h
    exact Option.some.inj (h.symm.trans hbody)
  obtain ⟨checks, hperm, -, hall⟩ := htold.calls_body hmx hx hy
  constructor
  · intro a ha
    obtain ⟨y, hy, -, hmeets⟩ := forall₂_left hall a (hperm.mem_iff.2 ha)
    exact ⟨y, hy, hmeets⟩
  · intro y hy
    obtain ⟨a, ha, -, hmeets⟩ := forall₂_right hall y hy
    exact ⟨a, hperm.mem_iff.1 ha, hmeets⟩

/-- **A call is made from the first activation only**: the class of a suite makes a call that the
suite checks exactly where no earlier tests of the suite have the name of the method that checks
it. -/
theorem calls_iff_first_of_synthesis {before after : List MethodTests} {mt : MethodTests}
    (hmt : suite.methods = before ++ mt :: after) {a : CallCheck}
    (ha : a ∈ mt.groups.flatMap (·.callChecks)) :
    ∃ cls, code.classes.find? (·.subject == suite.subject) = some cls ∧
      (cls.Calls a ↔ ∀ x ∈ before, x.name ≠ mt.name) := by
  have htree := Tests.treeOf_synthesis (sound_of_build (Diagram.sound_of_parse hd) hm) ht
  obtain ⟨cls, hcls, hof⟩ := forall₂_left (code_parts hc).1 suite hs
  have hsubject := classOf_subject hof
  refine ⟨cls, hsubject ▸ find?_key (sorted_of_tree htree hc).subjects hcls, ?_, fun hnew => ?_⟩
  · -- The method that makes the call is made from the first tests of its name, which check it.
    rintro ⟨made, hmade, y, hy, -, -, hsequence⟩ x hx hname
    rcases classOf_made hof hmade with ⟨mt', hfirst, _, _, hmethod⟩ | ⟨-, hempty⟩
    · have hmt' := (method_ok hmethod).1
      rw [hmt'] at hfirst
      obtain ⟨a', ha', hmeets⟩ :=
        (checks_of_made hd hm ht hc hs hcls hsubject hmade hfirst hmt').2 y hy
      have hsame : a'.sequence = a.sequence :=
        (CallStatement.sequence_of_meets hmeets).symm.trans hsequence
      obtain ⟨rfl, hnot⟩ := eq_of_sequence htree hs hmt (List.mem_of_find?_eq_some hfirst) ha ha'
        hsame
      obtain ⟨z, hz⟩ : ∃ z, before.find? (·.name == mt'.name) = some z :=
        Option.isSome_iff_exists.1 (List.find?_isSome.2 ⟨x, hx, beq_iff_eq.2 hname⟩)
      rw [hmt, List.find?_append, hz, Option.some_or] at hfirst
      obtain rfl := Option.some.inj hfirst
      exact hnot (List.mem_of_find?_eq_some hz)
    · rw [hempty] at hy
      cases hy
  · have hfirst : suite.methods.find? (·.name == mt.name) = some mt := by
      rw [hmt, List.find?_append, List.find?_eq_none.2 (by simpa using hnew)]
      simp
    obtain ⟨_, _, made, hmethod, hfind⟩ := classOf_methods hof hfirst
    have hmade := List.mem_of_find?_eq_some hfind
    obtain ⟨y, hy, hmeets⟩ :=
      (checks_of_made hd hm ht hc hs hcls hsubject hmade hfirst (method_ok hmethod).1).1 a ha
    simp only [CallStatement.meets, Bool.and_eq_true, beq_iff_eq] at hmeets
    exact ⟨made, hmade, y, hy, hmeets.1.1.2, hmeets.1.2, hmeets.1.1.1⟩

end

/-- A diagram in which a method calls one thing when it is first reached, and another thing when it
is reached again. -/
def secondActivation : String :=
  "[-> A : run(x)\nA -> BService : foo(x)\nBService -> CClient : get(x)\n" ++
    "A -> BService : foo(x)\nBService -> CClient : put(x)\n"

theorem of?_secondActivation : ∃ x ∈ Stages.of? secondActivation, ∃ suite ∈ x.tests.suites,
    (∃ mt ∈ suite.methods[0]?, ∃ mt' ∈ suite.methods[1]?, mt.name = mt'.name ∧
      suite.methods.length = 2 ∧ ∃ a ∈ mt'.groups.flatMap (·.callChecks),
        ∀ cls ∈ x.code.classes, cls.subject = suite.subject → ¬ cls.Calls a) := by
  unfold secondActivation
  rw [Stages.of?_toList, String.toList_append, String.toList_ofList, String.toList_ofList]
  decide +kernel

theorem calls_iff_secondActivation : ∃ d m t code,
    Diagram.parse secondActivation = .ok d ∧ d.buildModel = .ok m ∧
      m.synthesizeTests m.classify = .ok t ∧ t.synthesizeCode = .ok code ∧
        ∃ suite ∈ t.suites, ∃ mt mt', suite.methods = [mt] ++ mt' :: [] ∧ mt.name = mt'.name ∧
          ∃ a ∈ mt'.groups.flatMap (·.callChecks),
            ∃ cls, code.classes.find? (·.subject == suite.subject) = some cls ∧
              (cls.Calls a ↔ ∀ x ∈ [mt], x.name ≠ mt'.name) := by
  obtain ⟨x, hx, suite, hs, mt, hmt, mt', hmt', hname, hlength, a, ha, -⟩ := of?_secondActivation
  obtain ⟨d, hd, hm, ht, hc⟩ := Stages.of?_eq_some hx
  have hmethods : suite.methods = [mt] ++ mt' :: [] := by
    match hs : suite.methods, hlength with
    | [first, second], _ => simp_all
  exact ⟨d, x.model, x.tests, x.code, hd, hm, ht, hc, suite, hs, mt, mt', hmethods, hname, a, ha,
    calls_iff_first_of_synthesis hd hm ht hc hs hmethods ha⟩

/-- The second activation's call is verified, and in no method of the class. -/
theorem not_calls_secondActivation : ∃ d m t code,
    Diagram.parse secondActivation = .ok d ∧ d.buildModel = .ok m ∧
      m.synthesizeTests m.classify = .ok t ∧ t.synthesizeCode = .ok code ∧
        ∃ suite ∈ t.suites, ∃ mt ∈ suite.methods, ∃ a ∈ mt.groups.flatMap (·.callChecks),
          ∀ cls ∈ code.classes, cls.subject = suite.subject → ¬ cls.Calls a := by
  obtain ⟨x, hx, suite, hs, -, -, mt, hmt, -, -, a, ha, hnot⟩ := of?_secondActivation
  obtain ⟨d, hd, hm, ht, hc⟩ := Stages.of?_eq_some hx
  exact ⟨d, x.model, x.tests, x.code, hd, hm, ht, hc, suite, hs, mt, List.mem_of_getElem? hmt, a,
    ha, hnot⟩

end Lifeline.Code
