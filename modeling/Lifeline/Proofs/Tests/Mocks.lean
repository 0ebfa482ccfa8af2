import Lifeline.Proofs.Tests.Trees

/-!
# What the mocks and the tables of a tree declare

Every call that a suite checks goes to a mock of the suite that declares its method
(`Context.exists_mock`). A mock has the kind that the role of its collaborator asks for
(`Context.mockKind_ok`), and a computational leaf that is called has a decision table, which declares
the methods of all calls to it (`Context.exists_table`).
-/

set_option autoImplicit false

namespace Lifeline.Tests

open Model

/-- The role of a participant that a mock of the kind stands for. -/
def MockKind.role : MockKind → Role
  | .orchestrator => .orchestrator
  | .computational => .leaf .computational
  | .ioBoundary => .leaf .ioBoundary

namespace Context

variable {c : Context}

/-- Declarations that are made for calls, one for each name: each call has one of its name. -/
theorem mem_declarations {α : Type} (key : α → String)
    (make : Interaction → String → List String → α) (hkey : ∀ i name ps, key (make i name ps) = name)
    {calls : List Interaction} {ms : List α}
    (h : calls.foldlM (fun ms i => do
      let name ← c.naming.method i.operation
      if ms.any (key · == name) then return ms
      else
        let parameters ← c.parameterNames i.arguments
        return ms ++ [make i name parameters]) [] = (.ok ms : Naming _))
    {i : Interaction} (hi : i ∈ calls) :
    ∃ k ∈ ms, c.naming.method i.operation = .ok (key k) := by
  refine (foldlM_collects (P := fun _ => True)
    (Q := fun (i : Interaction) ms => ∃ k ∈ ms, c.naming.method i.operation = .ok (key k))
    (fun _ _ _ hsub ⟨k, hk, hn⟩ => ⟨k, hsub hk, hn⟩) h trivial ?_).2.2 i hi
  intro i _ ms ms' hstep _
  simp only [bind_ok] at hstep
  obtain ⟨name, hname, hstep⟩ := hstep
  split at hstep
  · rename_i hany
    obtain rfl := pure_ok.1 hstep
    obtain ⟨k, hk, hkn⟩ := List.any_eq_true.1 hany
    exact ⟨trivial, List.Subset.refl _, k, hk, by rw [beq_iff_eq.1 hkn, hname]⟩
  · simp only [bind_ok, pure_ok] at hstep
    obtain ⟨parameters, -, rfl⟩ := hstep
    refine ⟨trivial, List.subset_append_left _ _, _, List.mem_append_right _ (.head _), ?_⟩
    rw [hkey, hname]

/-- The mock of a collaborator declares the methods of all calls to it. -/
theorem mem_mockedMethods {calls : List Interaction} {ms : List MockedMethod}
    (h : c.mockedMethods calls = .ok ms) {i : Interaction} (hi : i ∈ calls) :
    ∃ k ∈ ms, c.naming.method i.operation = .ok k.name :=
  mem_declarations MockedMethod.name
    (fun i name parameters => { name, parameters, returns := i.reply.map (·.type) })
    (fun _ _ _ => rfl) h hi

/-- The decision table of a leaf declares the methods of all calls to it. -/
theorem mem_decisionTable {leaf : Classified} {calls : List Interaction} {d : DecisionTable}
    (h : c.decisionTable leaf calls = .ok d) {i : Interaction} (hi : i ∈ calls) :
    ∃ k ∈ d.methods, c.naming.method i.operation = .ok k.name := by
  simp only [decisionTable, bind_ok, pure_ok] at h
  obtain ⟨methods, hm, rfl⟩ := h
  exact mem_declarations DecisionMethod.name
    (fun i name parameters => { name, parameters, returns := i.reply.map (·.type), rows := [
      { inputs := parameters.map fun _ => "None", expected := "None", placeholder := true }] })
    (fun _ _ _ => rfl) hm hi

/-- A mock has the kind that the role of its collaborator asks for. -/
theorem mockKind_ok {collaborator : String} {kind : MockKind}
    (h : c.mockKind collaborator = .ok kind) :
    ∃ r ∈ c.roles.participants, r.name = collaborator ∧ r.role = kind.role := by
  have hfind : ∀ {r : Classified}, c.roles.find? collaborator = some r →
      r ∈ c.roles.participants ∧ r.name = collaborator := fun hr =>
    ⟨List.mem_of_find?_eq_some hr, by simpa using List.find?_some hr⟩
  unfold mockKind at h
  split at h
  · rename_i hr
    obtain rfl := Except.ok.inj h
    exact ⟨_, (hfind hr).1, (hfind hr).2, rfl⟩
  · rename_i hr
    obtain rfl := Except.ok.inj h
    exact ⟨_, (hfind hr).1, (hfind hr).2, rfl⟩
  · rename_i hr
    obtain rfl := Except.ok.inj h
    exact ⟨_, (hfind hr).1, (hfind hr).2, rfl⟩
  · cases h

/-- A suite has a mock for each call, which declares the method that is called. -/
theorem mock_of_suite {p : Classified} {xs : List Method} {s : Suite}
    (h : c.suite p xs = .ok s) {x : Method} (hx : x ∈ xs) {i : Interaction}
    (hi : i ∈ c.model.interactionsOf x.call) :
    ∃ k ∈ s.mocks, k.collaborator = i.target ∧ c.mockKind i.target = .ok k.kind ∧
      ∃ f ∈ k.methods, c.naming.method i.operation = .ok f.name := by
  simp only [suite, bind_ok, pure_ok] at h
  obtain ⟨mocks, hm, methods, -, rfl⟩ := h
  have hcall : i ∈ xs.flatMap fun x => c.model.interactionsOf x.call :=
    List.mem_flatMap.2 ⟨x, hx, hi⟩
  obtain ⟨k, hk, hmade⟩ := forall₂_left (mapM_ok.1 hm) i.target
    (List.mem_eraseDups.2 (List.mem_map_of_mem hcall))
  simp only [bind_ok, pure_ok, lift_ok] at hmade
  obtain ⟨declared, hdeclared, name, -, kind, hkind, rfl⟩ := hmade
  exact ⟨_, hk, rfl, hkind, mem_mockedMethods hdeclared (List.mem_filter.2 ⟨hcall, by simp⟩)⟩

variable {t : Tree} (h : c.tree = .ok t)
include h

/-- The call of a check goes to a mock of the same suite, which declares its method. -/
theorem exists_mock {s : Suite} (hs : s ∈ t.suites) {g : Group} (hg : g ∈ s.groups) {a : CallCheck}
    (ha : a ∈ g.callChecks) :
    ∃ i ∈ c.model.interactions, i.target = a.collaborator ∧
      c.naming.method i.operation = .ok a.method ∧
      ∃ k ∈ s.mocks, k.collaborator = a.collaborator ∧ c.mockKind a.collaborator = .ok k.kind ∧
        a.method ∈ k.methods.map (·.name) := by
  obtain ⟨p, -, hsuite⟩ := forall₂_right (tree_parts h).1 s hs
  obtain ⟨mt, hmt, hg⟩ := List.mem_flatMap.1 hg
  obtain ⟨x, hx, hmx⟩ := forall₂_right (suite_ok hsuite).methods mt hmt
  obtain ⟨P, -, hgx⟩ := forall₂_right hmx.groups g hg
  obtain ⟨i, hi, -, hia⟩ := hgx.call_of_mem ha
  obtain ⟨k, hk, hcollaborator, hkind, f, hf, hname⟩ := mock_of_suite hsuite hx hi
  rw [← hia.collaborator] at hcollaborator hkind
  refine ⟨i, (List.mem_filter.1 hi).1, hia.collaborator.symm, hia.method, k, hk, hcollaborator,
    hkind, List.mem_map.2 ⟨f, hf, ?_⟩⟩
  exact Except.ok.inj (hname.symm.trans hia.method)

/-- A computational leaf has a table, which declares the methods of all calls to it. -/
theorem exists_table {i : Interaction} (hi : i ∈ c.model.interactions) {leaf : Classified}
    (hleaf : leaf ∈ c.roles.computational) (hname : leaf.name = i.target) {f : String}
    (hf : c.naming.method i.operation = .ok f) :
    ∃ d ∈ t.tables, d.participant = i.target ∧ f ∈ d.methods.map (·.name) := by
  obtain ⟨d, hd, hne, htable⟩ := forall₂_left (tree_parts h).2 leaf
    (List.mem_filter.2 ⟨hleaf, List.any_eq_true.2 ⟨i, hi, by simp [hname]⟩⟩)
  obtain ⟨k, hk, hkn⟩ := mem_decisionTable htable (List.mem_filter.2 ⟨hi, by simp [hname]⟩)
  refine ⟨d, hd, (decisionTable_ok hne htable).participant.trans hname, List.mem_map.2 ⟨k, hk, ?_⟩⟩
  exact Except.ok.inj (hkn.symm.trans hf)

end Context

end Lifeline.Tests
