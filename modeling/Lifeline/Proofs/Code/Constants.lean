import Lifeline.Proofs.Code.Declared

/-!
# Message constants

The constants of a class are those that the raises of its methods name, each name once, and with the
message of a raise that names it. A class implements each name once, so the raises that count are
those that the first tests of a name check (`Suite.Throws`).

**`constants_of_synthesis`**: a class declares the constant of each of these raises, with its
message where the raises that name the constant agree on it. The constant of a raise in a later
activation of a method may be missing (`not_constants_laterActivation`).
-/

set_option autoImplicit false

namespace Lifeline

/-- A raise that is implemented for a suite: the first tests of a name check it, and the method
raises the exception itself. -/
def Tests.Suite.Throws (s : Tests.Suite) (a : Tests.RaiseCheck) : Prop :=
  ∃ mt, s.methods.find? (·.name == mt.name) = some mt ∧ ∃ g ∈ mt.groups,
    a ∈ g.raiseChecks ∧ a.propagated = false

namespace Code

open Model (sound_of_build)
open Tests (MethodTests MockedMethod RaiseCheck Suite)

/-! ## Constants of a draft -/

theorem mem_constantsOf {mt : MethodTests} {k : Constant} : k ∈ constantsOf mt ↔
    ∃ g ∈ mt.groups, ∃ a ∈ g.raiseChecks, a.propagated = false ∧ a.constant = some k.name ∧
      a.message = some k.template := by
  simp only [constantsOf, List.mem_filterMap, List.mem_flatMap]
  constructor
  · rintro ⟨a, ⟨g, hg, ha⟩, h⟩
    split at h
    · rename_i name template hname htemplate
      split at h
      · cases h
      · rename_i hown
        obtain rfl := Option.some.inj h
        exact ⟨g, hg, a, ha, by simpa using hown, hname, htemplate⟩
    · cases h
  · rintro ⟨g, hg, a, ha, hown, hname, htemplate⟩
    refine ⟨a, ⟨g, hg, ha⟩, ?_⟩
    simp [hname, htemplate, hown]

section

variable {naming : NamingRules}

/-- A draft gets the constants of the tests whose method it gets. -/
theorem Draft.constants_implement {d d' : Draft} {mt : MethodTests}
    (h : d.implement naming mt = .ok d') (hnew : mt.name ∉ d.methods.map (·.name)) :
    d'.constants = addConstants d.constants (constantsOf mt) := by
  unfold Draft.implement at h
  split at h
  · rename_i hany
    obtain ⟨k, hk, hkn⟩ := List.any_eq_true.1 hany
    exact absurd (List.mem_map.2 ⟨k, hk, by simpa using hkn⟩) hnew
  · simp only [bind_ok, pure_ok] at h
    obtain ⟨_, -, rfl⟩ := h
    rfl

/-- The constants of a draft are those that were there, and those of the first tests of a new
name. -/
theorem mem_constants_implementAll : ∀ {mts : List MethodTests} {d d' : Draft},
    mts.foldlM (Draft.implement naming) d = .ok d' → ∀ k ∈ d'.constants, k ∈ d.constants ∨
      ∃ mt, mt.name ∉ d.methods.map (·.name) ∧ mts.find? (·.name == mt.name) = some mt ∧
        k ∈ constantsOf mt
  | [], d, d', h, k, hk => by
    obtain rfl := Except.ok.inj h
    exact .inl hk
  | m :: mts, d, d', h, k, hk => by
    rw [List.foldlM_cons, bind_ok] at h
    obtain ⟨d1, h1, h2⟩ := h
    by_cases hm : m.name ∈ d.methods.map (·.name)
    · obtain rfl := Except.ok.inj ((Draft.implement_old hm).symm.trans h1)
      refine (mem_constants_implementAll h2 k hk).imp_right fun ⟨mt, hnew, hfirst, hkm⟩ => ?_
      refine ⟨mt, hnew, ?_, hkm⟩
      rwa [List.find?_cons_of_neg]
      exact fun he => hnew (beq_iff_eq.1 he ▸ hm)
    · obtain ⟨_, _, made, hmade, hd1⟩ := Draft.implement_new h1 hm
      rcases mem_constants_implementAll h2 k hk with hk | ⟨mt, hnew, hfirst, hkm⟩
      · rw [Draft.constants_implement h1 hm] at hk
        exact (mem_foldl_new hk).imp_right fun hk => ⟨m, hm, by simp, hk⟩
      · rw [hd1, List.map_append, List.mem_append, not_or, List.map_singleton, List.mem_singleton,
          (method_ok hmade).1] at hnew
        refine .inr ⟨mt, hnew.1, ?_, hkm⟩
        rwa [List.find?_cons_of_neg]
        exact fun he => hnew.2 (beq_iff_eq.1 he).symm

/-- The names of constants that are in a draft stay there. -/
theorem Draft.constants_kept {d d' : Draft} {mt : MethodTests}
    (h : d.implement naming mt = .ok d') {name : String} (hn : name ∈ d.constants.map (·.name)) :
    name ∈ d'.constants.map (·.name) := by
  by_cases hm : mt.name ∈ d.methods.map (·.name)
  · obtain rfl := Except.ok.inj ((Draft.implement_old hm).symm.trans h)
    exact hn
  · rw [Draft.constants_implement h hm]
    obtain ⟨k, hk, rfl⟩ := List.mem_map.1 hn
    exact key_mem_foldl_new (.inl hk)

/-- The constants that the first tests of a new name name are there in the end. -/
theorem named_implementAll {mt : MethodTests} {k : Constant} (hk : k ∈ constantsOf mt) :
    ∀ {mts : List MethodTests} {d d' : Draft}, mts.foldlM (Draft.implement naming) d = .ok d' →
      mt.name ∉ d.methods.map (·.name) → mts.find? (·.name == mt.name) = some mt →
        k.name ∈ d'.constants.map (·.name)
  | [], _, _, _, _, hfirst => by simp at hfirst
  | m :: mts, d, d', h, hnew, hfirst => by
    rw [List.foldlM_cons, bind_ok] at h
    obtain ⟨d1, h1, h2⟩ := h
    by_cases hm : m.name = mt.name
    · rw [List.find?_cons_of_pos (by simpa using hm)] at hfirst
      obtain rfl := Option.some.inj hfirst
      refine foldlM_inv (fun d => k.name ∈ d.constants.map (·.name)) h2
        (fun d _ _ hd _ hd' => Draft.constants_kept hd' hd) ?_
      rw [Draft.constants_implement h1 hnew]
      exact key_mem_foldl_new (.inr hk)
    · rw [List.find?_cons_of_neg (by simpa using hm)] at hfirst
      refine named_implementAll hk h2 (fun hn => ?_) hfirst
      rcases Draft.mem_names_implement h1 hn with hn | hn
      · exact hnew hn
      · exact hm hn.symm

/-! ## Constants of a class -/

/-- The constants of a class are those that the first tests of each name name, each name once. -/
theorem classOf_constants {called : List MockedMethod} {s : Suite} {cls : Class}
    (h : classOf naming called s = .ok cls) :
    (cls.constants.map (·.name)).Nodup ∧
    (∀ k ∈ cls.constants, ∃ a, s.Throws a ∧ a.constant = some k.name ∧
      a.message = some k.template) ∧
    ∀ a, s.Throws a → ∀ name template, a.constant = some name → a.message = some template →
      name ∈ cls.constants.map (·.name) := by
  simp only [classOf, bind_ok, pure_ok] at h
  obtain ⟨draft, hdraft, rfl⟩ := h
  have hallow : ∀ (ks : List MockedMethod) (d : Draft),
      (ks.foldl Draft.allow d).constants = d.constants := by
    intro ks
    induction ks with
    | nil => exact fun _ => rfl
    | cons k ks ih =>
      intro d
      rw [List.foldl_cons, ih, Draft.allow]
      split <;> rfl
  dsimp only
  rw [hallow]
  refine ⟨?_, fun k hk => ?_, ?_⟩
  · refine foldlM_inv (fun d => (d.constants.map (·.name)).Nodup) hdraft
      (fun d mt _ hd d' hd' => ?_) .nil
    by_cases hm : mt.name ∈ d.methods.map (·.name)
    · obtain rfl := Except.ok.inj ((Draft.implement_old hm).symm.trans hd')
      exact hd
    · rw [Draft.constants_implement hd' hm]
      exact nodup_foldl_new _ hd
  · obtain ⟨mt, -, hfirst, hk⟩ :=
      (mem_constants_implementAll hdraft k hk).resolve_left List.not_mem_nil
    obtain ⟨g, hg, a, ha, hown, hname, htemplate⟩ := mem_constantsOf.1 hk
    exact ⟨a, ⟨mt, hfirst, g, hg, ha, hown⟩, hname, htemplate⟩
  · rintro a ⟨mt, hfirst, g, hg, ha, hown⟩ name template hname htemplate
    have hk : { name, template } ∈ constantsOf mt :=
      mem_constantsOf.2 ⟨g, hg, a, ha, hown, hname, htemplate⟩
    exact named_implementAll hk hdraft (by simp) hfirst

end

/-- A check of a raise that names a constant has a message. -/
theorem message_of_constant {c : Tests.Context} {t : Tests.Tree} (h : Tests.TreeOf c t)
    {suite : Suite} (hs : suite ∈ t.suites) {a : RaiseCheck} (ha : suite.Throws a) {name : String}
    (hname : a.constant = some name) : ∃ template, a.message = some template := by
  obtain ⟨mt, hfirst, g, hg, ha, -⟩ := ha
  obtain ⟨x, -, hmx⟩ := h.tests_of_mem hs (List.mem_of_find?_eq_some hfirst)
  obtain ⟨P, -, hgx⟩ := forall₂_right hmx.groups g hg
  obtain ⟨site, -, hsa⟩ := hgx.raise_of_mem ha
  rw [hsa.message]
  exact Option.isSome_iff_exists.1 (hsa.constant (by rw [hname]; rfl))

/-- **A class declares its message constants**: each constant that a raise of an implemented method
names is declared once, with the message of that raise where the raises that name it agree on it.
Every constant is that of such a raise. -/
theorem constants_of_synthesis {source : String} {d : Diagram} {o : Model.Options} {m : Model}
    {s : LeafSuffixes} {p : Profile} {t : Tests.Tree} {code : Tree}
    (hd : Diagram.parse source = .ok d) (hm : d.buildModel o = .ok m)
    (ht : m.synthesizeTests (m.classify s) p = .ok t) (hc : t.synthesizeCode p = .ok code)
    {suite : Suite} (hs : suite ∈ t.suites) :
    ∃ cls, code.classes.find? (·.subject == suite.subject) = some cls ∧
      (cls.constants.map (·.name)).Nodup ∧
      (∀ k ∈ cls.constants, ∃ a, suite.Throws a ∧ a.constant = some k.name ∧
        a.message = some k.template) ∧
      ∀ a, suite.Throws a → ∀ name, a.constant = some name →
        ∃ template, a.message = some template ∧ name ∈ cls.constants.map (·.name) ∧
          ((∀ b, suite.Throws b → b.constant = some name → b.message = some template) →
            { name, template } ∈ cls.constants) := by
  have htree := Tests.treeOf_synthesis (sound_of_build (Diagram.sound_of_parse hd) hm) ht
  obtain ⟨cls, hcls, hof⟩ := forall₂_left (code_parts hc).1 suite hs
  obtain ⟨hnodup, hfrom, hnamed⟩ := classOf_constants hof
  refine ⟨cls, classOf_subject hof ▸ find?_key (sorted_of_tree htree hc).subjects hcls, hnodup,
    hfrom, fun a ha name hname => ?_⟩
  obtain ⟨template, hmessage⟩ := message_of_constant htree hs ha hname
  have hmem := hnamed a ha name template hname hmessage
  refine ⟨template, hmessage, hmem, fun hagree => ?_⟩
  obtain ⟨k, hk, rfl⟩ := List.mem_map.1 hmem
  obtain ⟨b, hb, hbname, hbmessage⟩ := hfrom k hk
  obtain rfl : k.template = template :=
    Option.some.inj (hbmessage.symm.trans (hagree b hb hbname))
  exact hk

/-- A diagram in which a method raises one exception when it is first reached, and another one when
it is reached again. -/
def laterActivation : String :=
  "[-> A : run(x)\nA -> BService : foo(x)\nBService -> CClient : get(x)\nalt [x.early]\n" ++
    "BService -> BService : <<throws>> Early(\"early\")\nend\nA -> BService : foo(x)\n" ++
    "BService -> CClient : put(x)\nBService -> BService : <<throws>> Late(\"late\")\n"

/-- The class has the constant of the first exception, but not that of the other one. -/
theorem of?_laterActivation : ∃ x ∈ Stages.of? laterActivation, ∃ suite ∈ x.tests.suites,
    (∃ mt ∈ suite.methods.head?, ∃ a ∈ mt.groups.flatMap (·.raiseChecks), a.propagated = false ∧
      a.constant = some "EARLY_MESSAGE") ∧
    (∀ a ∈ suite.groups.flatMap (·.raiseChecks), a.constant = some "EARLY_MESSAGE" →
      a.message = some "early") ∧
    (∃ a ∈ suite.groups.flatMap (·.raiseChecks), a.propagated = false ∧
      a.constant = some "LATE_MESSAGE") ∧
    ∀ k ∈ x.code.classes.flatMap (·.constants), k.name ≠ "LATE_MESSAGE" := by
  unfold laterActivation
  rw [Stages.of?_toList, String.toList_append, String.toList_append, String.toList_ofList,
    String.toList_ofList, String.toList_ofList]
  decide +kernel

theorem constants_laterActivation : ∃ d m t code, Diagram.parse laterActivation = .ok d ∧
    d.buildModel = .ok m ∧ m.synthesizeTests m.classify = .ok t ∧ t.synthesizeCode = .ok code ∧
      ∃ suite ∈ t.suites, ∃ cls, code.classes.find? (·.subject == suite.subject) = some cls ∧
        ∃ a, suite.Throws a ∧ a.constant = some "EARLY_MESSAGE" ∧
          ⟨"EARLY_MESSAGE", "early"⟩ ∈ cls.constants := by
  obtain ⟨x, hx, suite, hs, ⟨mt, hhead, a, ha, hown, hname⟩, hagree, -⟩ := of?_laterActivation
  obtain ⟨d, hd, hm, ht, hc⟩ := Stages.of?_eq_some hx
  obtain ⟨cls, hcls, -, -, hall⟩ := constants_of_synthesis hd hm ht hc hs
  have hfirst : suite.methods.find? (·.name == mt.name) = some mt := by
    obtain ⟨later, hmethods⟩ := List.head?_eq_some_iff.1 hhead
    simp [hmethods]
  obtain ⟨g, hg, ha⟩ := List.mem_flatMap.1 ha
  have hthrows : suite.Throws a := ⟨mt, hfirst, g, hg, ha, hown⟩
  have hearly : ∀ b, suite.Throws b → b.constant = some "EARLY_MESSAGE" →
      b.message = some "early" := by
    rintro b ⟨mt, hfirst, g, hg, hb, -⟩ hbname
    refine hagree b (List.mem_flatMap.2 ⟨g, ?_, hb⟩) hbname
    exact List.mem_flatMap.2 ⟨mt, List.mem_of_find?_eq_some hfirst, hg⟩
  obtain ⟨template, hmessage, -, hdeclared⟩ := hall a hthrows _ hname
  obtain rfl : template = "early" :=
    Option.some.inj (hmessage.symm.trans (hearly a hthrows hname))
  exact ⟨d, x.model, x.tests, x.code, hd, hm, ht, hc, suite, hs, cls, hcls, a, hthrows, hname,
    hdeclared hearly⟩

/-- The constants of raises are not always declared: a method is implemented from its first
activation. -/
theorem not_constants_laterActivation : ¬ ∀ (source : String) (d : Diagram) (o : Model.Options)
    (m : Model) (t : Tests.Tree) (code : Tree), Diagram.parse source = .ok d →
      d.buildModel o = .ok m → m.synthesizeTests m.classify = .ok t →
        t.synthesizeCode = .ok code → ∀ suite ∈ t.suites, ∀ mt ∈ suite.methods, ∀ g ∈ mt.groups,
          ∀ a ∈ g.raiseChecks, a.propagated = false → ∀ name, a.constant = some name →
            ∃ cls ∈ code.classes, cls.subject = suite.subject ∧
              ∃ k ∈ cls.constants, k.name = name ∧ some k.template = a.message := by
  intro hall
  obtain ⟨x, hx, suite, hs, -, -, ⟨a, ha, hown, hname⟩, hnot⟩ := of?_laterActivation
  obtain ⟨d, hd, hm, ht, hc⟩ := Stages.of?_eq_some hx
  obtain ⟨g, hg, ha⟩ := List.mem_flatMap.1 ha
  obtain ⟨mt, hmt, hg⟩ := List.mem_flatMap.1 hg
  obtain ⟨cls, hcls, -, k, hk, hkname, -⟩ :=
    hall _ d _ _ _ _ hd hm ht hc suite hs mt hmt g hg a ha hown _ hname
  exact hnot k (List.mem_flatMap.2 ⟨cls, hcls, hk⟩) hkname

end Code

end Lifeline
