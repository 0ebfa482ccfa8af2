import Lifeline.Proofs.Data.Schema
import Lifeline.Tests.Codec

/-!
# Trees are read back as they were written

The decoder of each record of a tree restores what is written for it, from the scopes and values
up to the tree (`Tree.restores`), so a tree that is written and read again is the same tree
(`Tree.deserialize_serialize`).
-/

namespace Lifeline.Tests

open Schema
open Json (Lossless)

/-! ## Values -/

theorem ScopeRef.restores : Restores ScopeRef.toData ScopeRef.ofData where
  lossless r := .record (by simp) (by simp)
  reads r := by
    have hkind : oneOf .notLiteral [("loop", .loop), ("branch", .alt)] (.text (kindName r.kind)) =
        .ok r.kind := by
      cases r.kind <;> rfl
    simp [ScopeRef.toData, ScopeRef.ofData, optionalText, hkind]

theorem ValueRef.restores : Restores ValueRef.toData ValueRef.ofData where
  lossless v := .record (by simp) (by simp)
  reads v := by
    have hsource : oneOf .notLiteral [("input", .input), ("stub", .stub), ("literal", .literal),
        ("loop-element", .loopElement)] (.text (sourceName v.source)) = .ok v.source := by
      cases v.source <;> rfl
    simp [ValueRef.toData, ValueRef.ofData, optionalText, hsource]

theorem Stub.restores : Restores Stub.toData Stub.ofData where
  lossless s := .record (by simp) (by simp)
  reads s := by simp [Stub.toData, Stub.ofData, optionalText]

theorem MessageArgument.restores : Restores MessageArgument.toData MessageArgument.ofData where
  lossless a := .record (by simp) (by simp [(ValueRef.restores).lossless])
  reads a := by
    simp [MessageArgument.toData, MessageArgument.ofData, (ValueRef.restores).reads]

@[simp] theorem lossless_scopeData (scope : List ScopeRef) : Lossless (scopeData scope) :=
  (ScopeRef.restores).list.lossless scope

@[simp] theorem list_scopeData (scope : List ScopeRef) :
    list ScopeRef.ofData (scopeData scope) = .ok scope :=
  (ScopeRef.restores).list.reads scope

/-! ## Cases -/

/-- An assertion is restored, whichever of the three kinds it is of. -/
theorem Assertion.restores : Restores Assertion.toData Assertion.ofData where
  lossless
    | .call c => .record (by simp) (by simp [(ValueRef.restores).list.lossless])
    | .result r => .record (by simp) (by simp [(ValueRef.restores).lossless])
    | .raise t => .record (by simp) (by simp [(MessageArgument.restores).list.lossless])
  reads
    | .call c => by
      rw [Assertion.toData, Assertion.ofData, tagged_record rfl]
      simp [CallCheck.ofEntries, scopeField, (ValueRef.restores).list.reads]
    | .result r => by
      rw [Assertion.toData, Assertion.ofData, tagged_record rfl]
      simp [ResultCheck.ofEntries, scopeField, (ValueRef.restores).reads]
    | .raise t => by
      rw [Assertion.toData, Assertion.ofData, tagged_record rfl]
      simp [RaiseCheck.ofEntries, scopeField, optionalText, (MessageArgument.restores).list.reads]

theorem Case.restores : Restores Case.toData Case.ofData where
  lossless c := .record (by simp) (by simp [(Assertion.restores).lossless])
  reads c := by simp [Case.toData, Case.ofData, (Assertion.restores).reads]

theorem LoopFixture.restores : Restores LoopFixture.toData LoopFixture.ofData where
  lossless l := .record (by simp) (by simp)
  reads l := by simp [LoopFixture.toData, LoopFixture.ofData, optionalText]

theorem Group.restores : Restores Group.toData Group.ofData where
  lossless g := .record (by simp) (by
    simp [(Stub.restores).list.lossless, (LoopFixture.restores).list.lossless,
      (Case.restores).list.lossless])
  reads g := by
    have hmode : oneOf .notInEnum [("no-exception", .noException),
        ("exception-triggered", .exceptionTriggered)] (.text (modeName g.mode)) = .ok g.mode := by
      cases g.mode <;> rfl
    simp [Group.toData, Group.ofData, scopeField, hmode, (Stub.restores).list.reads,
      (LoopFixture.restores).list.reads, (Case.restores).list.reads]

/-! ## Suites -/

theorem MethodTests.restores : Restores MethodTests.toData MethodTests.ofData where
  lossless m := .record (by simp) (by simp [(Group.restores).list.lossless])
  reads m := by
    simp [MethodTests.toData, MethodTests.ofData, textList, (Group.restores).list.reads]

theorem MockedMethod.restores : Restores MockedMethod.toData MockedMethod.ofData where
  lossless m := .record (by simp) (by simp)
  reads m := by simp [MockedMethod.toData, MockedMethod.ofData, textList, optionalText]

theorem Mock.restores : Restores Mock.toData Mock.ofData where
  lossless m := .record (by simp) (by simp [(MockedMethod.restores).list.lossless])
  reads m := by
    have hkind : oneOf .notLiteral [("orchestrator", .orchestrator),
        ("computational", .computational), ("io-boundary", .ioBoundary)]
        (.text (mockKindName m.kind)) = .ok m.kind := by
      cases m.kind <;> rfl
    simp [Mock.toData, Mock.ofData, hkind, (MockedMethod.restores).list.reads]

theorem Suite.restores : Restores Suite.toData Suite.ofData where
  lossless s := .record (by simp) (by
    simp [(Mock.restores).list.lossless, (MethodTests.restores).list.lossless])
  reads s := by
    simp [Suite.toData, Suite.ofData, (Mock.restores).list.reads, (MethodTests.restores).list.reads]

/-! ## Decision tables -/

theorem DecisionRow.restores : Restores DecisionRow.toData DecisionRow.ofData where
  lossless r := .record (by simp) (by simp)
  reads r := by simp [DecisionRow.toData, DecisionRow.ofData, textList]

theorem DecisionMethod.restores : Restores DecisionMethod.toData DecisionMethod.ofData where
  lossless m := .record (by simp) (by simp [(DecisionRow.restores).list.lossless])
  reads m := by
    simp [DecisionMethod.toData, DecisionMethod.ofData, textList, optionalText,
      (DecisionRow.restores).list.reads]

theorem DecisionTable.restores : Restores DecisionTable.toData DecisionTable.ofData where
  lossless t := .record (by simp) (by simp [(DecisionMethod.restores).list.lossless])
  reads t := by
    have hstatus : oneOf .notInEnum [("pending", .pending), ("complete", .complete)]
        (.text t.status.name) = .ok t.status := by
      cases t.status <;> rfl
    simp [DecisionTable.toData, DecisionTable.ofData, hstatus,
      (DecisionMethod.restores).list.reads]

/-! ## Trees -/

theorem Tree.restores : Restores Tree.toData Tree.ofData where
  lossless t := .record (by simp) (by
    simp [(Suite.restores).list.lossless, (DecisionTable.restores).list.lossless])
  reads t := by
    simp [Tree.toData, Tree.ofData, (Suite.restores).list.reads,
      (DecisionTable.restores).list.reads]

end Lifeline.Tests
