import Lifeline.Proofs.Code.Leaves
import Lifeline.Proofs.Model.Owners
import Lifeline.Proofs.Stages
import Lifeline.Proofs.Tests.Mocks
import Lifeline.Proofs.Tests.Propagation

/-!
# What generated code refers to

Whatever the tests call is declared once, as a class, an interface or a scaffold, with the method
that is called, and whatever is raised is one of the exceptions (`declared_of_synthesis`). A class
declares what its own suite implements and what other suites call on it; the mocks of the suites
give an interface its methods, and a decision table gives them to a scaffold. Which of the three it
is goes by the role of the participant, of which there is one (`Roled.filter_eq_nil`).
-/

set_option autoImplicit false

namespace Lifeline.Code

open Model (Interaction)
open Tests (CallCheck Context Group MethodTests MockKind MockedMethod Suite TreeOf)

/-- What code declares under a name: the names of the methods, for each class, interface and
scaffold of that name. -/
def Tree.declarations (t : Tree) (name : String) : List (List String) :=
  (t.classes.filter (·.subject == name)).map (·.methods.map (·.name)) ++
    (t.interfaces.filter (·.name == name)).map (·.methods.map (·.name)) ++
      (t.scaffolds.filter (·.name == name)).map (·.methods.map (·.name))

/-- The tests or the code raise an exception. -/
inductive Raised (tests : Tests.Tree) (code : Tree) (e : String) : Prop
  | statement {cls : Class} {f : Method} {s : RaiseStatement} (hcls : cls ∈ code.classes)
      (hf : f ∈ cls.methods) (hs : .raise s ∈ leavesIn f.body) (he : s.exception = e)
  | check {g : Group} {a : Tests.RaiseCheck} (hg : g ∈ tests.groups) (ha : a ∈ g.raiseChecks)
      (he : a.exception = e)
  | stub {g : Group} {s : Tests.Stub} (hg : g ∈ tests.groups) (hs : s ∈ g.stubs)
      (he : s.raises = some e)

/-! ## Methods of each name -/

theorem mem_distinctMethods {ms : List MockedMethod} {m : MockedMethod} (h : m ∈ ms) :
    m.name ∈ (distinctMethods ms).map (·.name) :=
  key_mem_foldl_new (.inr h)

/-- The class of a suite declares what other suites call on it. -/
theorem mem_classOf {naming : NamingRules} {called : List MockedMethod} {s : Suite} {cls : Class}
    (h : classOf naming called s = .ok cls) {m : MockedMethod} (hm : m ∈ called) :
    m.name ∈ cls.methods.map (·.name) := by
  simp only [classOf, bind_ok, pure_ok] at h
  obtain ⟨draft, -, rfl⟩ := h
  refine foldl_collects (P := fun (m : MockedMethod) (d : Draft) =>
    m.name ∈ d.methods.map (·.name)) (fun d m => ?_) (fun d m x hm => ?_) draft m hm
  · unfold Draft.allow
    split
    · rename_i hany
      obtain ⟨x, hx, hn⟩ := List.any_eq_true.1 hany
      exact List.mem_map.2 ⟨x, hx, beq_iff_eq.1 hn⟩
    · simp
  · unfold Draft.allow
    split
    · exact hm
    · rw [List.map_append]
      exact List.mem_append_left _ hm

/-- What the mocks of suites declare under a name is called on the orchestrator of that name. -/
theorem mem_calledOn {suites : List Suite} {s : Suite} (hs : s ∈ suites) {k : Tests.Mock}
    (hk : k ∈ s.mocks) (hkind : k.kind = .orchestrator) {f : String}
    (hf : f ∈ k.methods.map (·.name)) : f ∈ (calledOn suites k.collaborator).map (·.name) := by
  obtain ⟨m, hm, rfl⟩ := List.mem_map.1 hf
  refine mem_distinctMethods (List.mem_flatMap.2 ⟨(s.subject, k), ?_, hm⟩)
  simp only [mocksOf, List.mem_filter, List.mem_flatMap, List.mem_map]
  exact ⟨⟨s, hs, k, ⟨hk, by simp [hkind]⟩, rfl⟩, by simp⟩

/-- The interface of a collaborator declares what the mocks of suites declare under its name. -/
theorem mem_interfaces {suites : List Suite} {s : Suite} (hs : s ∈ suites) {k : Tests.Mock}
    (hk : k ∈ s.mocks) (hkind : k.kind = .ioBoundary) {f : String}
    (hf : f ∈ k.methods.map (·.name)) :
    ∃ x ∈ interfaces suites, x.name = k.collaborator ∧ f ∈ x.methods.map (·.name) := by
  obtain ⟨m, hm, rfl⟩ := List.mem_map.1 hf
  have hmock : (s.subject, k) ∈ mocksOf suites .ioBoundary := by
    simp only [mocksOf, List.mem_filter, List.mem_flatMap, List.mem_map]
    exact ⟨s, hs, k, ⟨hk, by simp [hkind]⟩, rfl⟩
  refine ⟨_, List.mem_map.2 ⟨k.collaborator, List.mem_eraseDups.2 (List.mem_map.2 ⟨_, hmock, rfl⟩),
    rfl⟩, rfl, ?_⟩
  rw [List.map_map]
  exact mem_distinctMethods (List.mem_flatMap.2
    ⟨(s.subject, k), List.mem_filter.2 ⟨hmock, by simp⟩, hm⟩)

theorem nodup_interfaces (suites : List Suite) : ((interfaces suites).map (·.name)).Nodup := by
  rw [interfaces, List.map_map]
  simpa [Function.comp_def] using nodup_eraseDups _

/-! ## Roles -/

/-- Each of some declarations has the name of a participant in a role. -/
def Roled (c : Context) (names : List String) (role : Role) : Prop :=
  ∀ n ∈ names, ∃ r ∈ c.roles.participants, r.name = n ∧ r.role = role

/-- Declarations in another role have other names. -/
theorem Roled.filter_eq_nil {c : Context} (hc : (c.roles.participants.map (·.name)).Nodup)
    {α : Type} {key : α → String} {xs : List α} {role : Role} (h : Roled c (xs.map key) role)
    {r : Classified} (hr : r ∈ c.roles.participants) (hne : r.role ≠ role) :
    (xs.filter fun x => key x == r.name) = [] := by
  refine List.filter_eq_nil_iff.2 fun x hx he => hne ?_
  obtain ⟨r', hr', hname, hrole⟩ := h (key x) (List.mem_map_of_mem hx)
  rw [← hrole, List.inj_on_of_nodup_map hc hr hr' (hname.trans (beq_iff_eq.1 he)).symm]

section
variable {c : Context} {t : Tests.Tree} (h : TreeOf c t)
include h

theorem nodup_roles : (c.roles.participants.map (·.name)).Nodup := by
  obtain ⟨s, hs⟩ := h.roles
  rw [hs]
  exact h.sound.nodup_classified s

theorem roled_subjects : Roled c (t.suites.map (·.subject)) .orchestrator := by
  intro n hn
  obtain ⟨s, hs, rfl⟩ := List.mem_map.1 hn
  obtain ⟨p, hp, hsp⟩ := forall₂_right h.suites s hs
  obtain ⟨hp, hrole⟩ := List.mem_filter.1 (List.mem_filter.1 hp).1
  exact ⟨p, hp, hsp.subject.symm, by simpa using hrole⟩

theorem roled_tables : Roled c (t.tables.map (·.participant)) (.leaf .computational) := by
  intro n hn
  obtain ⟨d, hd, rfl⟩ := List.mem_map.1 hn
  obtain ⟨leaf, hleaf, hdl⟩ := forall₂_right h.tables d hd
  obtain ⟨hleaf, hrole⟩ := List.mem_filter.1 (List.mem_filter.1 hleaf).1
  exact ⟨leaf, hleaf, hdl.participant.symm, by simpa using hrole⟩

theorem nodup_tables : (t.tables.map (·.participant)).Nodup := by
  rw [← forall₂_map (f := fun leaf => leaf.name) h.tables fun leaf d hd => hd.participant.symm]
  exact (nodup_roles h).sublist ((List.filter_sublist.trans List.filter_sublist).map _)

theorem roled_interfaces : Roled c ((interfaces t.suites).map (·.name)) (.leaf .ioBoundary) := by
  intro n hn
  rw [interfaces, List.map_map] at hn
  obtain ⟨name, hname, rfl⟩ := List.mem_map.1 hn
  obtain ⟨⟨subject, k⟩, hk, rfl⟩ := List.mem_map.1 (List.mem_eraseDups.1 hname)
  simp only [mocksOf, List.mem_filter, List.mem_flatMap, List.mem_map, Prod.mk.injEq] at hk
  obtain ⟨s, hs, k, ⟨hk, hkind⟩, rfl, rfl⟩ := hk
  obtain ⟨p, -, hsp⟩ := forall₂_right h.suites s hs
  obtain ⟨target, -, htarget, hmock⟩ := forall₂_right hsp.mocks k hk
  obtain ⟨r, hr, hrname, hrole⟩ := Context.mockKind_ok hmock
  exact ⟨r, hr, hrname.trans htarget.symm, by rw [hrole, beq_iff_eq.1 hkind]; rfl⟩

end

/-! ## The code of a tree -/

theorem code_parts {p : Profile} {t : Tests.Tree} {code : Tree}
    (h : t.synthesizeCode p = .ok code) :
    List.Forall₂ (fun s cls => classOf p.naming (calledOn t.suites s.subject) s = .ok cls)
        t.suites code.classes ∧ code.interfaces = interfaces t.suites ∧
      code.scaffolds = t.tables.map scaffold ∧ code.exceptions = exceptions t.groups := by
  simp only [Tests.Tree.synthesizeCode, bind_ok, pure_ok] at h
  obtain ⟨classes, hclasses, rfl⟩ := h
  exact ⟨mapM_ok.1 hclasses, rfl, rfl, rfl⟩

/-- Classes, interfaces and scaffolds have different names, as their participants have different
roles. -/
structure Sorted (c : Context) (code : Tree) : Prop where
  roles : (c.roles.participants.map (·.name)).Nodup
  classes : Roled c (code.classes.map (·.subject)) .orchestrator
  interfaces : Roled c (code.interfaces.map (·.name)) (.leaf .ioBoundary)
  scaffolds : Roled c (code.scaffolds.map (·.name)) (.leaf .computational)
  subjects : (code.classes.map (·.subject)).Nodup
  boundaries : (code.interfaces.map (·.name)).Nodup
  tables : (code.scaffolds.map (·.name)).Nodup

theorem sorted_of_tree {c : Context} {t : Tests.Tree} (h : TreeOf c t) {p : Profile} {code : Tree}
    (hc : t.synthesizeCode p = .ok code) : Sorted c code := by
  obtain ⟨hclasses, hinterfaces, hscaffolds, -⟩ := code_parts hc
  have hsubjects : t.suites.map (·.subject) = code.classes.map (·.subject) :=
    forall₂_map hclasses fun _ _ hmade => (classOf_subject hmade).symm
  have htables : t.tables.map (·.participant) = code.scaffolds.map (·.name) := by
    rw [hscaffolds, List.map_map]
    rfl
  exact {
    roles := nodup_roles h
    classes := hsubjects ▸ roled_subjects h
    interfaces := hinterfaces ▸ roled_interfaces h
    scaffolds := htables ▸ roled_tables h
    subjects := hsubjects ▸ h.nodup_subjects
    boundaries := hinterfaces ▸ nodup_interfaces t.suites
    tables := htables ▸ nodup_tables h }

/-- A method of a class is found under the names of the class and the method. -/
theorem body?_of_mem {c : Context} {t : Tests.Tree} (h : TreeOf c t) {p : Profile} {code : Tree}
    (hc : t.synthesizeCode p = .ok code) {cls : Class} (hcls : cls ∈ code.classes) {made : Method}
    (hmade : made ∈ cls.methods) : code.body? cls.subject made.name = some made.body := by
  have hclass := find?_key (sorted_of_tree h hc).subjects hcls
  obtain ⟨suite, -, hof⟩ := forall₂_right (code_parts hc).1 cls hcls
  have hmethod := find?_key (classOf_nodup hof) hmade
  simp [Tree.body?, hclass, hmethod]

namespace Sorted

variable {c : Context} {code : Tree} (h : Sorted c code)
include h

/-- A class is all that is declared under its name. -/
theorem declarations_class {cls : Class} (hcls : cls ∈ code.classes) :
    code.declarations cls.subject = [cls.methods.map (·.name)] := by
  obtain ⟨r, hr, hname, hrole⟩ := h.classes _ (List.mem_map_of_mem hcls)
  have hinterface := h.interfaces.filter_eq_nil h.roles hr (by simp [hrole])
  have hscaffold := h.scaffolds.filter_eq_nil h.roles hr (by simp [hrole])
  rw [hname] at hinterface hscaffold
  rw [Tree.declarations, filter_key h.subjects hcls, hinterface, hscaffold]
  rfl

/-- An interface is all that is declared under its name. -/
theorem declarations_interface {x : Interface} (hx : x ∈ code.interfaces) :
    code.declarations x.name = [x.methods.map (·.name)] := by
  obtain ⟨r, hr, hname, hrole⟩ := h.interfaces _ (List.mem_map_of_mem hx)
  have hclass := h.classes.filter_eq_nil h.roles hr (by simp [hrole])
  have hscaffold := h.scaffolds.filter_eq_nil h.roles hr (by simp [hrole])
  rw [hname] at hclass hscaffold
  rw [Tree.declarations, filter_key h.boundaries hx, hclass, hscaffold]
  rfl

/-- A scaffold is all that is declared under its name. -/
theorem declarations_scaffold {x : Scaffold} (hx : x ∈ code.scaffolds) :
    code.declarations x.name = [x.methods.map (·.name)] := by
  obtain ⟨r, hr, hname, hrole⟩ := h.scaffolds _ (List.mem_map_of_mem hx)
  have hclass := h.classes.filter_eq_nil h.roles hr (by simp [hrole])
  have hinterface := h.interfaces.filter_eq_nil h.roles hr (by simp [hrole])
  rw [hname] at hclass hinterface
  rw [Tree.declarations, filter_key h.tables hx, hclass, hinterface]
  rfl

end Sorted

/-! ## From a text to its code -/

section
variable {source : String} {d : Diagram} {o : Model.Options} {m : Model} {s : LeafSuffixes}
  {p : Profile} {t : Tests.Tree} {code : Tree} (hd : Diagram.parse source = .ok d)
  (hm : d.buildModel o = .ok m) (ht : m.synthesizeTests (m.classify s) p = .ok t)
  (hc : t.synthesizeCode p = .ok code)
include hd hm ht

/-- Every orchestrator that is called has a suite. -/
theorem exists_suite_of_called {i : Interaction} (hi : i ∈ m.interactions) {r : Classified}
    (hr : r ∈ (m.classify s).participants) (hname : r.name = i.target)
    (hrole : r.role = .orchestrator) : ∃ suite ∈ t.suites, suite.subject = i.target := by
  have hsound := Diagram.sound_of_parse hd
  have htree := Tests.treeOf_synthesis (Model.sound_of_build hsound hm) ht
  obtain ⟨q, hq, rfl⟩ := List.mem_map.1 hr
  have horchestrates : q.underTest = true ∨ ∃ j ∈ m.interactions, j.source = q.name := by
    change Classification.roleOf m s q = _ at hrole
    unfold Classification.roleOf at hrole
    split at hrole
    · rename_i hmade
      simpa [List.any_eq_true] using hmade
    · cases hrole
  obtain ⟨x, hx, howner⟩ := Model.exists_method_of_build hsound hm (Diagram.rooted_of_parse hd)
    hi hq hname horchestrates
  obtain ⟨suite, hsuite, hsubject, -⟩ := htree.exists_suite hx
  exact ⟨suite, hsuite, hsubject.trans (howner.trans hname)⟩

include hc

/-- Everything that a check calls is declared once, with the method. -/
theorem declarations_of_call {g : Group} (hg : g ∈ t.groups) {a : CallCheck}
    (ha : a ∈ g.callChecks) :
    ∃ methods, code.declarations a.collaborator = [methods] ∧ a.method ∈ methods := by
  have htree := Tests.treeOf_synthesis (Model.sound_of_build (Diagram.sound_of_parse hd) hm) ht
  have hsorted := sorted_of_tree htree hc
  obtain ⟨hclasses, hinterfaces, hscaffolds, -⟩ := code_parts hc
  obtain ⟨suite, hsuite, mt, hmt, hgm⟩ := Tests.Tree.mem_groups.1 hg
  obtain ⟨i, hi, htarget, hoperation, k, hk, hcollaborator, hkind, hdeclared⟩ :=
    Context.exists_mock ht hsuite (List.mem_flatMap.2 ⟨mt, hmt, hgm⟩) ha
  obtain ⟨r, hr, hname, hrole⟩ := Context.mockKind_ok hkind
  rw [← htarget] at hname
  cases hkey : k.kind with
  | orchestrator =>
    rw [hkey] at hrole
    obtain ⟨owner, howner, hsubject⟩ := exists_suite_of_called hd hm ht hi hr hname hrole
    obtain ⟨cls, hcls, hmade⟩ := forall₂_left hclasses owner howner
    obtain ⟨f, hf, hfname⟩ := List.mem_map.1 (mem_calledOn hsuite hk hkey hdeclared)
    have hcalled : k.collaborator = owner.subject := hcollaborator.trans (htarget ▸ hsubject.symm)
    rw [hcalled] at hf
    rw [← hcollaborator, hcalled, ← classOf_subject hmade]
    exact ⟨_, hsorted.declarations_class hcls, hfname ▸ mem_classOf hmade hf⟩
  | ioBoundary =>
    obtain ⟨x, hx, hxname, hf⟩ := mem_interfaces hsuite hk hkey hdeclared
    rw [← hcollaborator, ← hxname]
    exact ⟨_, hsorted.declarations_interface (hinterfaces ▸ hx), hf⟩
  | computational =>
    rw [hkey] at hrole
    have hleaf : r ∈ (m.classify s).computational :=
      List.mem_filter.2 ⟨hr, by rw [hrole]; rfl⟩
    obtain ⟨table, htable, hparticipant, hf⟩ := Context.exists_table ht hi hleaf hname hoperation
    have hx : scaffold table ∈ code.scaffolds := hscaffolds ▸ List.mem_map_of_mem htable
    rw [← htarget, ← hparticipant]
    refine ⟨_, hsorted.declarations_scaffold hx, ?_⟩
    simpa [scaffold, Function.comp_def] using hf

/-- A method of a class is made of what the tests of a method tell, unless its body is empty. -/
theorem exists_told_method {cls : Class} (hcls : cls ∈ code.classes) {f : Method}
    (hf : f ∈ cls.methods) (hbody : f.body ≠ []) :
    ∃ suite ∈ t.suites, ∃ mt ∈ suite.methods, ∃ (c : Context) (x : Model.Method)
      (tl : Model.Timeline) (events : List Event) (k : Knowledge), Told c x mt tl events ∧
        Yields (fold k (events.map (Event.settled events))) f.body := by
  have hsound := Model.sound_of_build (Diagram.sound_of_parse hd) hm
  obtain ⟨suite, hsuite, hmade⟩ := forall₂_right (code_parts hc).1 cls hcls
  obtain ⟨mt, hfirst, helpers, helpers', hmethod⟩ | ⟨-, hempty⟩ := classOf_made hmade hf
  · have hmt : mt ∈ suite.methods := List.mem_of_find?_eq_some hfirst
    obtain ⟨-, -, es, names, hes, -, hyields⟩ := method_ok hmethod
    obtain ⟨x, hx, hmx⟩ := (Tests.treeOf_synthesis hsound ht).tests_of_mem hsuite hmt
    obtain ⟨tl, htl⟩ := hsound.timeline
    obtain ⟨events, htold, rfl⟩ := told_of_eventsOf hsound htl hx hmx hes
    exact ⟨suite, hsuite, mt, hmt, _, x, tl, events, _, htold, hyields⟩
  · exact absurd hempty hbody

/-- A raise in the code is one that some group checks. -/
theorem check_of_raise {cls : Class} (hcls : cls ∈ code.classes) {f : Method} (hf : f ∈ cls.methods)
    {r : RaiseStatement} (hr : .raise r ∈ leavesIn f.body) :
    ∃ g ∈ t.groups, ∃ a ∈ g.raiseChecks, a.exception = r.exception := by
  have hbody : f.body ≠ [] := fun hnil => by
    rw [hnil] at hr
    cases hr
  obtain ⟨suite, hsuite, mt, hmt, c, x, tl, events, k, htold, hyields⟩ :=
    exists_told_method hd hm ht hc hcls hf hbody
  have hleaf : ∀ e ∈ events, ∀ s, e.statement = some s → s.IsLeaf := by
    intro e he s hs
    rcases htold.told e he with ⟨-, hnone⟩ | ⟨a, -, hof⟩
    · rw [hnone] at hs
      cases hs
    · cases hof <;> (obtain rfl := Option.some.inj hs; rfl)
  have hplaced : ∀ {q : Placed}, q ∈ placed events → ∃ e ∈ events,
      q.event.statement = e.statement := by
    intro q hq
    obtain ⟨e, he, rfl⟩ := mem_placed.1 hq
    exact ⟨e, he, Event.settled_statement events e⟩
  obtain ⟨q, hq, hstatement⟩ := statement_of_leaf hyields (fun q hq s hs => by
    obtain ⟨e, he, hqe⟩ := hplaced hq
    exact hleaf e he s (hqe ▸ hs)) hr
  obtain ⟨e, he, hqe⟩ := hplaced hq
  rw [hqe] at hstatement
  rcases htold.told e he with ⟨-, hnone⟩ | ⟨a, hasserts, hof⟩
  · rw [hnone] at hstatement
    cases hstatement
  · cases hof with
    | call => cases hstatement
    | result => cases hstatement
    | raise a hown =>
      obtain rfl := Statement.raise.inj (Option.some.inj hstatement)
      obtain ⟨g, hg, ha⟩ := Tests.asserts_raise.1 hasserts
      exact ⟨g, Tests.Tree.mem_groups.2 ⟨suite, hsuite, mt, hmt, hg⟩, a, ha, rfl⟩

omit hc in
/-- What a group raises are exceptions of the model, so they have names. -/
theorem dotted_of_raisedIn {g : Group} (hg : g ∈ t.groups) {e : String}
    (he : (∃ k ∈ g.stubs, k.raises = some e) ∨ ∃ a ∈ g.raiseChecks, a.exception = e) :
    Label.Dotted e := by
  have hsound := Model.sound_of_build (Diagram.sound_of_parse hd) hm
  obtain ⟨x, -, P, -, hgx⟩ := (Tests.treeOf_synthesis hsound ht).group_of_mem hg
  suffices hthrow : ∃ throw ∈ m.throws, throw.exception = e by
    obtain ⟨throw, hthrow, rfl⟩ := hthrow
    exact Model.named_of_build (Diagram.sound_of_parse hd) hm (Diagram.rooted_of_parse hd) hthrow
  rcases he with ⟨k, hk, he⟩ | ⟨a, ha, rfl⟩
  · obtain ⟨i, -, -, -, -, hik⟩ := hgx.stub_of_mem hk
    exact Context.throw_of_raisedAt (hik.raises.symm.trans he)
  · obtain ⟨s, hs, hsa⟩ := hgx.raise_of_mem ha
    exact ⟨s.throw, Context.throw_of_site (List.mem_of_find?_eq_some hs), hsa.exception.symm⟩

omit hc in
/-- **All exceptions have names.** -/
theorem dotted_of_synthesis : ∀ e ∈ exceptions t.groups, Label.Dotted e := by
  intro e he
  obtain ⟨g, hg, he⟩ := List.mem_flatMap.1 (List.mem_eraseDups.1 he)
  refine dotted_of_raisedIn hd hm ht hg ?_
  rcases List.mem_append.1 he with he | he
  · obtain ⟨k, hk, he⟩ := List.mem_filterMap.1 he
    exact .inl ⟨k, hk, Option.mem_filter_iff.1 he |>.1⟩
  · exact .inr (List.mem_map.1 he)

/-- The exceptions that are raised are those of the code, each once. -/
theorem count_exceptions {e : String} (he : Raised t code e) : code.exceptions.count e = 1 := by
  have hcheck : ∀ {g a}, g ∈ t.groups → a ∈ g.raiseChecks →
      a.exception ∈ t.groups.flatMap raisedIn :=
    fun hg ha => List.mem_flatMap.2 ⟨_, hg, List.mem_append_right _ (List.mem_map_of_mem ha)⟩
  rw [(code_parts hc).2.2.2, exceptions]
  refine List.count_eq_one_of_mem (nodup_eraseDups _) (List.mem_eraseDups.2 ?_)
  cases he with
  | statement hcls hf hs he =>
    obtain ⟨g, hg, a, ha, hea⟩ := check_of_raise hd hm ht hc hcls hf hs
    exact (hea.trans he) ▸ hcheck hg ha
  | check hg ha he => exact he ▸ hcheck hg ha
  | @stub g k hg hk he =>
    have hnamed := (dotted_of_raisedIn hd hm ht hg (.inl ⟨k, hk, he⟩)).ne_empty
    refine List.mem_flatMap.2 ⟨g, hg, List.mem_append_left _ (List.mem_filterMap.2 ⟨k, hk, ?_⟩)⟩
    simp [he, hnamed]

/-- **Everything that the code refers to is declared.** What a check calls is declared once, as a
class, an interface or a scaffold, and has the method; and an exception that is raised is one of the
code's, once. -/
theorem declared_of_synthesis :
    (∀ g ∈ t.groups, ∀ a ∈ g.callChecks,
      ∃ methods, code.declarations a.collaborator = [methods] ∧ a.method ∈ methods) ∧
    ∀ e, Raised t code e → code.exceptions.count e = 1 :=
  ⟨fun _ hg _ ha => declarations_of_call hd hm ht hc hg ha,
    fun _ he => count_exceptions hd hm ht hc he⟩

end

/-- A diagram that calls an orchestrator and a leaf of each kind, one of which raises. -/
def eachRole : String :=
  "[-> A : run(x)\nA -> BService : foo(x)\nBService -> CMapper : map(x)\nCMapper --> BService : v\n" ++
    "BService --> A : w\nA -> DRepository : load(w)\n" ++
    "DRepository -> DRepository : <<throws>> Missing\n"

theorem declared_eachRole : ∃ d m t code, Diagram.parse eachRole = .ok d ∧ d.buildModel = .ok m ∧
    m.synthesizeTests m.classify = .ok t ∧ t.synthesizeCode = .ok code ∧
      code.classes.map (·.subject) = ["A", "BService"] ∧
      code.interfaces.map (·.name) = ["DRepository"] ∧ code.scaffolds.map (·.name) = ["CMapper"] ∧
      code.exceptions = ["Missing"] ∧
      (∀ g ∈ t.groups, ∀ a ∈ g.callChecks,
        ∃ methods, code.declarations a.collaborator = [methods] ∧ a.method ∈ methods) ∧
      ∀ e, Raised t code e → code.exceptions.count e = 1 := by
  have hrun : ∃ x ∈ Stages.of? eachRole, x.code.classes.map (·.subject) = ["A", "BService"] ∧
      x.code.interfaces.map (·.name) = ["DRepository"] ∧
      x.code.scaffolds.map (·.name) = ["CMapper"] ∧ x.code.exceptions = ["Missing"] := by
    unfold eachRole
    rw [Stages.of?_toList, String.toList_append, String.toList_append, String.toList_ofList,
      String.toList_ofList, String.toList_ofList]
    decide +kernel
  obtain ⟨x, hx, hclasses, hinterfaces, hscaffolds, hexceptions⟩ := hrun
  obtain ⟨d, hd, hm, ht, hc⟩ := Stages.of?_eq_some hx
  exact ⟨d, x.model, x.tests, x.code, hd, hm, ht, hc, hclasses, hinterfaces, hscaffolds,
    hexceptions, declared_of_synthesis hd hm ht hc⟩

end Lifeline.Code
