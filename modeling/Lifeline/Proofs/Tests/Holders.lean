import Lifeline.Proofs.Gate.Parity
import Lifeline.Proofs.Name.Unique
import Lifeline.Proofs.Tests.Parameters
import Lifeline.Source.TestFile

/-!
# What the calls of a group give

A group has a stub for each call that it reaches and that replies or raises, and the stub of a reply
holds it under a name of the group (`Group.holder?`). The names that hold what a method of a mock
gives are those of the calls to it, in order, where the calls have one (`holders_eq`): a call
without a reply has none (`holder?_of_void`), and a reply has one unless its value has no letter or
digit that a name could be made of (`holder?_of_reply`).
-/

set_option autoImplicit false

namespace Lifeline

/-- The name that holds what a call gives in a group, where the call has a stub with a name. -/
def Tests.Group.holder? (g : Tests.Group) (call : Int) : Option String :=
  (g.stubs.find? (·.call == call)).bind fun s => s.holder.filter (!·.isEmpty)

/-- The group takes every branch around a place, on its path or by steering. -/
def Tests.Group.reaches (g : Tests.Group) (scope : Model.Scope) : Bool :=
  scope.path.all fun y => (g.driven.map (·.choice)).contains ((y.1 : Int), (y.2 : Int))

/-- The calls to a method of a mock that a method makes where a group reaches, in order. -/
def Model.callsOn (m : Model) (naming : NamingRules) (x : Model.Method) (g : Tests.Group)
    (mock method : String) : List Model.Interaction :=
  (m.interactionsOf x.call).filter fun i => g.reaches i.scope &&
    ((naming.mock.apply [("collaborator", i.target)]).toOption == some mock &&
      (naming.method i.operation).toOption == some method)

/-- Names line up with calls: there are as many of them, and each is the one that holds what its
call gives. -/
def Tests.Group.LinedUp (g : Tests.Group) (calls : List Model.Interaction)
    (holders : List String) : Prop :=
  calls.map (g.holder? ·.index) = holders.map some

instance (g : Tests.Group) (calls : List Model.Interaction) (holders : List String) :
    Decidable (g.LinedUp calls holders) := inferInstanceAs (Decidable (_ = _))

namespace Tests

open Model (Interaction Method Scope)
open Source.Renderer (holdersOf)

section

variable {c : Context} {t : Tree} {x : Method} {P : Model.Path} {g : Group}

theorem mem_callsOn {mock method : String} {i : Interaction} :
    i ∈ c.model.callsOn c.naming x g mock method ↔ i ∈ c.model.interactionsOf x.call ∧
      g.reaches i.scope = true ∧ c.mockName i.target = .ok mock ∧
        c.naming.method i.operation = .ok method := by
  simp only [Model.callsOn, List.mem_filter, Bool.and_eq_true, beq_iff_eq, toOption_eq_some]
  rfl

/-- A group reaches what the branches that were chosen for it run. -/
theorem GroupOf.reaches_eq (h : GroupOf c x P g) (scope : Scope) :
    g.reaches scope = runs scope (c.chosen x P) := by
  have hchoices : g.driven.map (·.choice) =
      (c.chosen x P).map fun z => ((z.1 : Int), (z.2 : Int)) := by
    rw [h.driven, List.map_map]
    rfl
  unfold Group.reaches runs
  refine congrArg (List.all _) (funext fun y => Bool.eq_iff_iff.2 ?_)
  rw [hchoices, List.contains_iff_mem, List.contains_iff_mem, List.mem_map]
  constructor
  · rintro ⟨z, hz, he⟩
    obtain ⟨hblock, hbranch⟩ := Prod.mk.inj he
    obtain rfl : z = y := Prod.ext (Int.ofNat.inj hblock) (Int.ofNat.inj hbranch)
    exact hz
  · exact fun hy => ⟨y, hy, rfl⟩

namespace TreeOf

variable (h : TreeOf c t) (hg : GroupOf c x P g)
include h hg

/-- The stub of a call is found by the call. -/
theorem holder?_of_stub {i : Interaction} {s : Stub} (hs : s ∈ g.stubs) (his : StubOf c x i s) :
    g.holder? i.index = s.holder.filter (!·.isEmpty) := by
  rw [Group.holder?, ← his.call, find?_key (h.nodup_stubs hg) hs, Option.bind_some]

/-- A call that has a name for what it gives has a stub. -/
theorem exists_stub {i : Interaction} (hi : i ∈ c.model.interactions) {name : String}
    (hname : g.holder? i.index = some name) :
    answers c x i = true ∧ ∃ s ∈ g.stubs, StubOf c x i s ∧ s.holder = some name := by
  obtain ⟨s, hs, hholder⟩ := Option.bind_eq_some_iff.1 hname
  have hmem := List.mem_of_find?_eq_some hs
  obtain ⟨j, hj, -, -, hanswers, hjs⟩ := hg.stub_of_mem hmem
  obtain rfl : j = i := by
    refine List.inj_on_of_nodup_map h.sound.nodup_indexes hj hi ?_
    exact hjs.call.symm.trans (by simpa using List.find?_some hs)
  exact ⟨hanswers, s, hmem, hjs, (Option.filter_eq_some_iff.1 hholder).1⟩

/-- **The names that hold** what a method of a mock gives are those of the calls to it, in order. -/
theorem holders_eq (s : Stub) : holdersOf g s =
    (c.model.callsOn c.naming x g s.mock s.method).filterMap (g.holder? ·.index) := by
  let asked : Interaction → Bool := fun i => (c.mockName i.target).toOption == some s.mock &&
    (c.naming.method i.operation).toOption == some s.method
  let given : Interaction → Option String := fun i => if asked i then g.holder? i.index else none
  let reached := (c.model.interactionsOf x.call).filter fun i => runs i.scope (c.chosen x P)
  have hunanswered : ∀ i ∈ reached, answers c x i = false → given i = none := by
    intro i hi hno
    have hi := (List.mem_filter.1 (List.mem_filter.1 hi).1).1
    simp only [given]
    split
    · by_contra hne
      obtain ⟨name, hname⟩ := Option.ne_none_iff_exists'.1 hne
      exact Bool.false_ne_true (hno.symm.trans (h.exists_stub hg hi hname).1)
    · rfl
  calc holdersOf g s
      = (reached.filter (answers c x)).filterMap given := by
        refine (forall₂_filterMap hg.stubs fun i t ht hit => ?_).symm
        simp only [given, asked, hit.mock, hit.method, h.holder?_of_stub hg ht hit,
          Except.toOption, Option.some_beq_some]
    _ = reached.filterMap given := filterMap_filter_of hunanswered
    _ = (c.model.callsOn c.naming x g s.mock s.method).filterMap (g.holder? ·.index) := by
        simp only [reached, Model.callsOn, List.filterMap_filter, hg.reaches_eq]
        refine List.filterMap_congr fun i _ => ?_
        simp only [given, asked, Context.mockName]
        split <;> simp_all

/-- The names line up with the calls exactly where each call has one. -/
theorem linedUp_iff (s : Stub) :
    g.LinedUp (c.model.callsOn c.naming x g s.mock s.method) (holdersOf g s) ↔
      ∀ i ∈ c.model.callsOn c.naming x g s.mock s.method, (g.holder? i.index).isSome = true := by
  rw [Group.LinedUp, h.holders_eq hg]
  exact map_eq_filterMap_some_iff

/-- A call that replies nothing has no name for it. -/
theorem holder?_of_void {i : Interaction} (hi : i ∈ c.model.interactions) (hvoid : i.reply = none) :
    g.holder? i.index = none := by
  by_contra hne
  obtain ⟨name, hname⟩ := Option.ne_none_iff_exists'.1 hne
  obtain ⟨-, s, -, his, hholder⟩ := h.exists_stub hg hi hname
  obtain ⟨b, hb, -⟩ := his.holder name hholder
  cases hvoid.symm.trans hb

/-- What a call replies has a name, where one can be made of the value. -/
theorem holder?_of_reply {i : Interaction} (hi : i ∈ c.model.interactionsOf x.call)
    (hreached : g.reaches i.scope = true) {b : Model.Binding} (hb : i.reply = some b)
    {base : String} (hbase : c.naming.valueName b.value = .ok base) (hne : base ≠ "")
    (hvalue : b.value ≠ "") : (g.holder? i.index).isSome = true := by
  have hanswers : answers c x i = true := by simp [answers, hb]
  obtain ⟨s, hs, his⟩ := forall₂_left hg.stubs i (List.mem_filter.2
    ⟨List.mem_filter.2 ⟨hi, (hg.reaches_eq _).symm.trans hreached⟩, hanswers⟩)
  obtain ⟨name, hname⟩ := Option.isSome_iff_exists.1 (his.held b hb hvalue)
  obtain ⟨b', hb', base', taken, hbase', rfl⟩ := his.holder name hname
  obtain rfl := Option.some.inj (hb.symm.trans hb')
  obtain rfl := Except.ok.inj (hbase.symm.trans hbase')
  have hnamed := Name.unique_ne_empty hne taken
  simp [h.holder?_of_stub hg hs his, hname, Option.filter, hnamed]

end TreeOf

end

end Tests

end Lifeline
