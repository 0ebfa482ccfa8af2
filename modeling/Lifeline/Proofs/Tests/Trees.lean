import Lifeline.Proofs.Tests.Groups

/-!
# The tree of a sound model

`TreeOf c t`: the tree `t` was made for the model and the roles of `c`. Every method under test has
its tests in it, every path its group (`TreeOf.exists_group`), and every group is that of a path
(`TreeOf.group_of_mem`). What the groups hold together is what the paths of all methods give, up to
the order (`TreeOf.groups_perm`); so the checked calls are the calls of the model
(`TreeOf.calls_perm`).
-/

namespace Lifeline.Model

/-- The results of all methods stand at different positions. -/
theorem Sound.nodup_positions {m : Model} (h : m.Sound) :
    (m.methods.flatMap fun x => x.results.map (·.position)).Nodup := by
  obtain ⟨tl, ht⟩ := h.timeline
  rw [List.nodup_flatMap]
  refine ⟨fun x hx => ?_, ?_⟩
  · have hp := List.pairwise_map.1 (h.paths x hx)
    refine List.pairwise_map.2 (hp.imp_of_mem fun {r r'} hr hr' hne he => hne ?_)
    rw [(ht.result x hx r hr).2, (ht.result x hx r' hr').2, he]
  · refine (List.pairwise_map.1 h.methods).imp_of_mem fun {x y} hx hy hne => ?_
    simp only [Function.onFun, List.disjoint_left, List.mem_map]
    rintro n ⟨r, hr, rfl⟩ ⟨r', hr', he⟩
    have h1 := (ht.result x hx r hr).1
    rw [← he, (ht.result y hy r' hr').1] at h1
    exact hne (by simpa using h1.symm)

/-- The calls of the methods, method by method, are all calls. -/
theorem Sound.interactions_perm {m : Model} (h : m.Sound) :
    (m.methods.flatMap fun x => m.interactionsOf x.call).Perm m.interactions := by
  have hp := flatMap_filter_perm (fun i : Interaction => i.method) h.methods fun i hi => by
    obtain ⟨x, hx, hc⟩ := h.called i hi
    exact List.mem_map.2 ⟨x, hx, hc⟩
  rw [List.flatMap_map] at hp
  exact hp

/-- Every owner of a method is an orchestrator. -/
theorem Sound.orchestrator {m : Model} (h : m.Sound) (s : LeafSuffixes) {x : Method}
    (hx : x ∈ m.methods) : ∃ p ∈ (m.classify s).orchestrators, p.name = x.owner := by
  obtain ⟨p, hp, hn, hrole⟩ := h.owned x hx
  refine ⟨_, List.mem_filter.2 ⟨List.mem_map.2 ⟨p, hp, rfl⟩, ?_⟩, hn⟩
  have : (p.underTest || m.interactions.any (·.source == p.name)) = true := by
    rcases hrole with hu | ⟨i, hi, hs⟩
    · simp [hu]
    · simp only [Bool.or_eq_true, List.any_eq_true]
      exact .inr ⟨i, hi, by simpa using hs⟩
  simp [Classification.roleOf, this]

theorem Sound.nodup_classified {m : Model} (h : m.Sound) (s : LeafSuffixes) :
    ((m.classify s).participants.map (·.name)).Nodup := by
  simpa [Model.classify, Function.comp_def] using h.participants

end Lifeline.Model

namespace Lifeline.Tests

open Model

/-- The tree was made for the model and the roles. -/
structure TreeOf (c : Context) (t : Tree) : Prop where
  sound : c.model.Sound
  roles : ∃ s, c.roles = c.model.classify s
  suites : List.Forall₂ (SuiteOf c)
    (c.roles.orchestrators.filter fun p => !(methodsOf c p).isEmpty) t.suites
  tables : List.Forall₂ TableOf (c.roles.computational.filter fun leaf =>
    c.model.interactions.any (·.target == leaf.name)) t.tables

theorem treeOf_synthesis {m : Model} (hm : m.Sound) {s : LeafSuffixes} {p : Profile} {t : Tree}
    (h : m.synthesizeTests (m.classify s) p = .ok t) :
    TreeOf { model := m, roles := m.classify s, naming := p.naming } t :=
  ⟨hm, ⟨s, rfl⟩, (Context.tree_ok h).1, (Context.tree_ok h).2⟩

/-- The calls that the groups of a method check stand at different positions. -/
theorem MethodOf.nodup_sequences {c : Context} {x : Method} {mt : MethodTests}
    (h : MethodOf c x mt) (hs : c.model.Sound) :
    ((mt.groups.flatMap (·.callChecks)).map (·.sequence)).Nodup := by
  have hmap := forall₂_flatMap (f := fun P => ((c.model.interactionsOf x.call).filter fun i =>
      i.scope.path == P).map fun i => (i.position : Int))
    (g := fun g => g.callChecks.map (·.sequence)) h.groups
    fun P g hg => forall₂_map hg.calls fun i a ha => ha.sequence.symm
  rw [List.map_flatMap, ← hmap, ← List.map_flatMap]
  have hperm := flatMap_filter_perm (fun i : Interaction => i.scope.path)
    (Context.nodup_paths (x := x) hs) fun i hi => Context.interaction_path hs hi
  have hlt : (c.model.interactionsOf x.call).Pairwise fun i j => i.position < j.position :=
    hs.ordered.sublist List.filter_sublist
  rw [(hperm.map _).nodup_iff]
  exact List.pairwise_map.2 (hlt.imp fun h => by omega)

theorem Tree.mem_groups {t : Tree} {g : Group} :
    g ∈ t.groups ↔ ∃ s ∈ t.suites, ∃ mt ∈ s.methods, g ∈ mt.groups := by
  simp [Tree.groups, Suite.groups]

namespace TreeOf

variable {c : Context} {t : Tree} (h : TreeOf c t)
include h

/-- The methods of the suites are all methods. -/
theorem methods_perm : ((c.roles.orchestrators.filter fun p => !(methodsOf c p).isEmpty).flatMap
    (methodsOf c)).Perm c.model.methods := by
  obtain ⟨s, hs⟩ := h.roles
  have hn : ((c.roles.orchestrators.filter fun p =>
      !(methodsOf c p).isEmpty).map (·.name)).Nodup := by
    refine (h.sound.nodup_classified s).sublist ?_
    rw [← hs]
    exact (List.filter_sublist.trans List.filter_sublist).map _
  have hp := flatMap_filter_perm (fun x : Method => x.owner) hn
    fun x (hx : x ∈ c.model.methods) => by
      obtain ⟨p, hp, hpn⟩ := h.sound.orchestrator s hx
      rw [← hs] at hp
      refine List.mem_map.2 ⟨p, List.mem_filter.2 ⟨hp, ?_⟩, hpn⟩
      have hmem : x ∈ methodsOf c p := List.mem_filter.2 ⟨hx, by simpa using hpn.symm⟩
      cases hm : methodsOf c p with
      | nil => simp [hm] at hmem
      | cons => rfl
  rwa [List.flatMap_map] at hp

theorem nodup_subjects : (t.suites.map (·.subject)).Nodup := by
  obtain ⟨s, hs⟩ := h.roles
  rw [← forall₂_map (f := fun p => p.name) h.suites fun p s hsp => hsp.subject.symm]
  refine (h.sound.nodup_classified s).sublist ?_
  rw [← hs]
  exact (List.filter_sublist.trans List.filter_sublist).map _

/-- The suite of the owner of a method has its tests. -/
theorem exists_suite {x : Method} (hx : x ∈ c.model.methods) :
    ∃ s ∈ t.suites, s.subject = x.owner ∧ ∃ mt ∈ s.methods, MethodOf c x mt := by
  obtain ⟨p, hp, hxp⟩ := List.mem_flatMap.1 (h.methods_perm.mem_iff.2 hx)
  obtain ⟨s, hs, hsp⟩ := forall₂_left h.suites p hp
  obtain ⟨mt, hmt, hmx⟩ := forall₂_left hsp.methods x hxp
  have howner : x.owner = p.name := by simpa using (List.mem_filter.1 hxp).2
  exact ⟨s, hs, hsp.subject.trans howner.symm, mt, hmt, hmx⟩

/-- The tests of a suite are those of a method of its subject. -/
theorem owned_of_mem {s : Suite} (hs : s ∈ t.suites) {mt : MethodTests} (hmt : mt ∈ s.methods) :
    ∃ x ∈ c.model.methods, x.owner = s.subject ∧ MethodOf c x mt := by
  obtain ⟨p, -, hsp⟩ := forall₂_right h.suites s hs
  obtain ⟨x, hx, hmx⟩ := forall₂_right hsp.methods mt hmt
  obtain ⟨hx, howner⟩ := List.mem_filter.1 hx
  exact ⟨x, hx, (beq_iff_eq.1 howner).trans hsp.subject.symm, hmx⟩

theorem tests_of_mem {s : Suite} (hs : s ∈ t.suites) {mt : MethodTests} (hmt : mt ∈ s.methods) :
    ∃ x ∈ c.model.methods, MethodOf c x mt := by
  obtain ⟨x, hx, -, hmx⟩ := h.owned_of_mem hs hmt
  exact ⟨x, hx, hmx⟩

theorem exists_group {x : Method} (hx : x ∈ c.model.methods) {P : Path} (hP : P ∈ c.paths x) :
    ∃ g ∈ t.groups, GroupOf c x P g := by
  obtain ⟨s, hs, -, mt, hmt, hmx⟩ := h.exists_suite hx
  obtain ⟨g, hg, hgx⟩ := forall₂_left hmx.groups P hP
  exact ⟨g, Tree.mem_groups.2 ⟨s, hs, mt, hmt, hg⟩, hgx⟩

theorem group_of_mem {g : Group} (hg : g ∈ t.groups) :
    ∃ x ∈ c.model.methods, ∃ P ∈ c.paths x, GroupOf c x P g := by
  obtain ⟨s, hs, mt, hmt, hg⟩ := Tree.mem_groups.1 hg
  obtain ⟨x, hx, hmx⟩ := h.tests_of_mem hs hmt
  obtain ⟨P, hP, hgx⟩ := forall₂_right hmx.groups g hg
  exact ⟨x, hx, P, hP, hgx⟩

/-- **What the groups hold** is what the paths of the methods give. -/
theorem groups_perm {κ : Type} {f : Group → List κ} {F : Method → Path → List κ}
    (hf : ∀ x P g, GroupOf c x P g → F x P = f g) :
    (t.groups.flatMap f).Perm (c.model.methods.flatMap fun x => (c.paths x).flatMap (F x)) := by
  have hs : t.groups.flatMap f = (c.roles.orchestrators.filter fun p =>
      !(methodsOf c p).isEmpty).flatMap fun p =>
        (methodsOf c p).flatMap fun x => (c.paths x).flatMap (F x) := by
    rw [Tree.groups, List.flatMap_assoc]
    refine (forall₂_flatMap h.suites fun p s hsp => ?_).symm
    rw [Suite.groups, List.flatMap_assoc]
    exact forall₂_flatMap hsp.methods fun x mt hmx => forall₂_flatMap hmx.groups (hf x)
  rw [hs, ← List.flatMap_assoc]
  exact h.methods_perm.flatMap_right _

/-- The parts of a method that lie on its paths, path by path. -/
theorem paths_perm {α : Type} (x : Method) (scope : α → Scope) {xs : List α}
    (hxs : ∀ a ∈ xs, (scope a).path ∈ c.paths x) :
    ((c.paths x).flatMap fun P => xs.filter fun a => (scope a).path == P).Perm xs :=
  flatMap_filter_perm (fun a => (scope a).path) (Context.nodup_paths h.sound) hxs

/-- **The checked calls** are the calls of the model, each once: what its check has of a call is
found on the checks as often as on the calls. -/
theorem callChecks_perm {κ : Type} {f : CallCheck → κ} {F : Interaction → κ}
    (hf : ∀ i a, CallCheckOf c i a → F i = f a) :
    ((t.groups.flatMap (·.callChecks)).map f).Perm (c.model.interactions.map F) := by
  have hp := h.groups_perm (f := fun g => g.callChecks.map f) (F := fun x P =>
    ((c.model.interactionsOf x.call).filter (·.scope.path == P)).map F)
    fun x P g hg => forall₂_map hg.calls hf
  rw [List.map_flatMap]
  refine hp.trans ?_
  simp only [← List.map_flatMap]
  refine List.Perm.map _ (List.Perm.trans ?_ h.sound.interactions_perm)
  exact List.Perm.flatMap_left _ fun x _ =>
    h.paths_perm x (·.scope) fun i hi => Context.interaction_path h.sound hi

theorem calls_perm : ((t.groups.flatMap (·.callChecks)).map (·.call)).Perm
    (c.model.interactions.map (·.index)) :=
  h.callChecks_perm fun _ _ ha => ha.call.symm

/-- All checked calls stand at different positions, also those of different methods. -/
theorem nodup_sequences : ((t.groups.flatMap (·.callChecks)).map (·.sequence)).Nodup := by
  rw [(h.callChecks_perm (F := fun i => (i.position : Int))
    fun _ _ ha => ha.sequence.symm).nodup_iff]
  exact List.pairwise_map.2 (h.sound.ordered.imp fun hlt => by omega)

end TreeOf

end Lifeline.Tests
