import Lifeline.Data.Schema
import Lifeline.Json.Parser
import Lifeline.Json.Printer
import Lifeline.Tests.Tree

/-!
# Trees of tests as data

The data form of a tree, in both directions, and its text: a versioned JSON document on one line
(`Tree.serialize`, `Tree.deserialize`). Keys that mean nothing are passed over.
-/

namespace Lifeline.Tests

open Schema

/-! ## Writing -/

def kindName : FragmentKind → String
  | .loop => "loop"
  | .alt => "branch"

def sourceName : ValueSource → String
  | .input => "input"
  | .stub => "stub"
  | .literal => "literal"
  | .loopElement => "loop-element"

def modeName : Mode → String
  | .noException => "no-exception"
  | .exceptionTriggered => "exception-triggered"

def mockKindName : MockKind → String
  | .orchestrator => "orchestrator"
  | .computational => "computational"
  | .ioBoundary => "io-boundary"

def TableStatus.name : TableStatus → String
  | .pending => "pending"
  | .complete => "complete"

def ScopeRef.toData (r : ScopeRef) : Data := .record [
  ("kind", .text (kindName r.kind)), ("block", .int r.block), ("branch", .int r.branch),
  ("guard", .optional r.guard), ("label", .text r.label), ("element", .optional r.element),
  ("collection", .optional r.collection), ("position", .int r.position)]

def scopeData (scope : List ScopeRef) : Data := .list (scope.map (·.toData))

def ValueRef.toData (r : ValueRef) : Data := .record [
  ("text", .text r.text), ("source", .text (sourceName r.source)), ("variable", .text r.name),
  ("attribute", .text r.path), ("value_id", .optional r.valueId)]

def Stub.toData (s : Stub) : Data := .record [
  ("call_id", .int s.call), ("mock", .text s.mock), ("method", .text s.method),
  ("value", .optional s.value), ("variable", .optional s.holder),
  ("value_id", .optional s.valueId), ("type_name", .optional s.type),
  ("sequence", .int s.sequence), ("single_element", .bool s.singleElement),
  ("guard", .optional s.guard), ("raises", .optional s.raises)]

def MessageArgument.toData (a : MessageArgument) : Data := .record [
  ("placeholder", .text a.placeholder), ("value", a.value.toData)]

def Assertion.toData : Assertion → Data
  | .call c => .record [
      ("kind", .text "verify"), ("call_id", .int c.call), ("sequence", .int c.sequence),
      ("collaborator", .text c.collaborator), ("mock", .text c.mock), ("method", .text c.method),
      ("arguments", .list (c.arguments.map (·.toData))), ("scope", scopeData c.scope),
      ("repeated", .bool c.repeated)]
  | .result r => .record [
      ("kind", .text "result"), ("expected", r.expected.toData), ("type_name", .text r.type),
      ("sequence", .int r.sequence), ("scope", scopeData r.scope)]
  | .raise t => .record [
      ("kind", .text "throw"), ("exception_type", .text t.exception),
      ("message_template", .optional t.message), ("constant", .optional t.constant),
      ("arguments", .list (t.arguments.map (·.toData))), ("propagated", .bool t.propagated),
      ("raised_by", .optionalInt t.raisedBy), ("sequence", .int t.sequence),
      ("scope", scopeData t.scope)]

def Case.toData (c : Case) : Data := .record [
  ("name", .text c.name), ("assertion", c.assertion.toData), ("invokes", .bool c.invokes)]

def LoopFixture.toData (l : LoopFixture) : Data := .record [
  ("block", .int l.block), ("label", .text l.label), ("element", .optional l.element),
  ("collection", .optional l.collection), ("producer", .optionalInt l.producer),
  ("size", .int l.size)]

def Group.toData (g : Group) : Data := .record [
  ("name", .text g.name), ("description", .text g.description), ("path", scopeData g.path),
  ("steering", scopeData g.steering), ("mode", .text (modeName g.mode)),
  ("stubs", .list (g.stubs.map (·.toData))), ("loops", .list (g.loops.map (·.toData))),
  ("cases", .list (g.cases.map (·.toData)))]

def MethodTests.toData (m : MethodTests) : Data := .record [
  ("name", .text m.name), ("parameters", .texts m.parameters),
  ("groups", .list (m.groups.map (·.toData)))]

def MockedMethod.toData (m : MockedMethod) : Data := .record [
  ("name", .text m.name), ("parameters", .texts m.parameters), ("returns", .optional m.returns)]

def Mock.toData (m : Mock) : Data := .record [
  ("collaborator", .text m.collaborator), ("name", .text m.name),
  ("kind", .text (mockKindName m.kind)), ("methods", .list (m.methods.map (·.toData)))]

def Suite.toData (s : Suite) : Data := .record [
  ("subject", .text s.subject), ("is_component_under_test", .bool s.underTest),
  ("mocks", .list (s.mocks.map (·.toData))), ("methods", .list (s.methods.map (·.toData)))]

def DecisionRow.toData (r : DecisionRow) : Data := .record [
  ("inputs", .texts r.inputs), ("expected", .text r.expected),
  ("placeholder", .bool r.placeholder)]

def DecisionMethod.toData (m : DecisionMethod) : Data := .record [
  ("name", .text m.name), ("parameters", .texts m.parameters), ("returns", .optional m.returns),
  ("rows", .list (m.rows.map (·.toData)))]

def DecisionTable.toData (t : DecisionTable) : Data := .record [
  ("participant", .text t.participant), ("methods", .list (t.methods.map (·.toData))),
  ("status", .text t.status.name)]

def Tree.toData (t : Tree) : Data := .record [
  ("component_under_test", .text t.componentUnderTest),
  ("suites", .list (t.suites.map (·.toData))),
  ("decision_tables", .list (t.tables.map (·.toData)))]

/-! ## Reading -/

/-- Text that may be missing or null. -/
def optionalText (es : Data.Entries) (name : String) : Checked (Option String) :=
  field es name none (optional text)

/-- Texts that may be missing. -/
def textList (es : Data.Entries) (name : String) : Checked (List String) :=
  field es name [] (list text)

def ScopeRef.ofData : Decoder ScopeRef := record fun es =>
  ScopeRef.mk <$> required es "kind" (oneOf .notLiteral [("loop", .loop), ("branch", .alt)]) <*>
    required es "block" int <*> field es "branch" 0 int <*> optionalText es "guard" <*>
    field es "label" "" text <*> optionalText es "element" <*> optionalText es "collection" <*>
    required es "position" int

/-- A scope that may be missing. -/
def scopeField (es : Data.Entries) (name : String) : Checked (List ScopeRef) :=
  field es name [] (list ScopeRef.ofData)

def ValueRef.ofData : Decoder ValueRef := record fun es =>
  ValueRef.mk <$> required es "text" Schema.text <*>
    required es "source" (oneOf .notLiteral [("input", .input), ("stub", .stub),
      ("literal", .literal), ("loop-element", .loopElement)]) <*>
    required es "variable" Schema.text <*> field es "attribute" "" Schema.text <*>
    optionalText es "value_id"

def Stub.ofData : Decoder Stub := record fun es =>
  Stub.mk <$> required es "call_id" int <*> required es "mock" text <*>
    required es "method" text <*> optionalText es "value" <*> optionalText es "variable" <*>
    optionalText es "value_id" <*> optionalText es "type_name" <*> required es "sequence" int <*>
    field es "single_element" false bool <*> optionalText es "guard" <*>
    optionalText es "raises"

def MessageArgument.ofData : Decoder MessageArgument := record fun es =>
  MessageArgument.mk <$> required es "placeholder" text <*> required es "value" ValueRef.ofData

def CallCheck.ofEntries (es : Data.Entries) : Checked CallCheck :=
  CallCheck.mk <$> required es "call_id" int <*> required es "sequence" int <*>
    required es "collaborator" text <*> required es "mock" text <*> required es "method" text <*>
    field es "arguments" [] (list ValueRef.ofData) <*> scopeField es "scope" <*>
    field es "repeated" false bool

def ResultCheck.ofEntries (es : Data.Entries) : Checked ResultCheck :=
  ResultCheck.mk <$> required es "expected" ValueRef.ofData <*> required es "type_name" text <*>
    required es "sequence" int <*> scopeField es "scope"

def RaiseCheck.ofEntries (es : Data.Entries) : Checked RaiseCheck :=
  RaiseCheck.mk <$> required es "exception_type" text <*> optionalText es "message_template" <*>
    optionalText es "constant" <*> field es "arguments" [] (list MessageArgument.ofData) <*>
    field es "propagated" false bool <*> field es "raised_by" none (optional int) <*>
    required es "sequence" int <*> scopeField es "scope"

def Assertion.ofData : Decoder Assertion := tagged [
  ("verify", fun es => Assertion.call <$> CallCheck.ofEntries es),
  ("result", fun es => Assertion.result <$> ResultCheck.ofEntries es),
  ("throw", fun es => Assertion.raise <$> RaiseCheck.ofEntries es)]

def Case.ofData : Decoder Case := record fun es =>
  Case.mk <$> required es "name" text <*> required es "assertion" Assertion.ofData <*>
    field es "invokes" false bool

def LoopFixture.ofData : Decoder LoopFixture := record fun es =>
  LoopFixture.mk <$> required es "block" int <*> required es "label" text <*>
    optionalText es "element" <*> optionalText es "collection" <*>
    field es "producer" none (optional int) <*> field es "size" 1 int

def Group.ofData : Decoder Group := record fun es =>
  Group.mk <$> required es "name" text <*> field es "description" "" text <*>
    scopeField es "path" <*> scopeField es "steering" <*>
    field es "mode" .noException (oneOf .notInEnum [("no-exception", .noException),
      ("exception-triggered", .exceptionTriggered)]) <*>
    field es "stubs" [] (list Stub.ofData) <*> field es "loops" [] (list LoopFixture.ofData) <*>
    field es "cases" [] (list Case.ofData)

def MethodTests.ofData : Decoder MethodTests := record fun es =>
  MethodTests.mk <$> required es "name" text <*> textList es "parameters" <*>
    field es "groups" [] (list Group.ofData)

def MockedMethod.ofData : Decoder MockedMethod := record fun es =>
  MockedMethod.mk <$> required es "name" text <*> textList es "parameters" <*>
    optionalText es "returns"

def Mock.ofData : Decoder Mock := record fun es =>
  Mock.mk <$> required es "collaborator" text <*> required es "name" text <*>
    required es "kind" (oneOf .notLiteral [("orchestrator", .orchestrator),
      ("computational", .computational), ("io-boundary", .ioBoundary)]) <*>
    field es "methods" [] (list MockedMethod.ofData)

def Suite.ofData : Decoder Suite := record fun es =>
  Suite.mk <$> required es "subject" text <*> field es "is_component_under_test" false bool <*>
    field es "mocks" [] (list Mock.ofData) <*> field es "methods" [] (list MethodTests.ofData)

def DecisionRow.ofData : Decoder DecisionRow := record fun es =>
  DecisionRow.mk <$> textList es "inputs" <*> field es "expected" "None" text <*>
    field es "placeholder" false bool

def DecisionMethod.ofData : Decoder DecisionMethod := record fun es =>
  DecisionMethod.mk <$> required es "name" text <*> textList es "parameters" <*>
    optionalText es "returns" <*> field es "rows" [] (list DecisionRow.ofData)

def DecisionTable.ofData : Decoder DecisionTable := record fun es =>
  DecisionTable.mk <$> required es "participant" text <*>
    field es "methods" [] (list DecisionMethod.ofData) <*>
    field es "status" .pending (oneOf .notInEnum [("pending", .pending), ("complete", .complete)])

def Tree.ofData : Decoder Tree := record fun es =>
  Tree.mk <$> required es "component_under_test" text <*>
    field es "suites" [] (list Suite.ofData) <*>
    field es "decision_tables" [] (list DecisionTable.ofData)

/-! ## Documents -/

/-- The version of the document format. -/
def formatVersion : String := "1"

/-- Why a document is no tree. -/
inductive DocumentError where
  /-- The text is no JSON. -/
  | notJson
  | notAnObject
  | unsupportedVersion (version : Data)
  /-- The tree does not have its form. -/
  | faulty (faults : List Fault)

/-- What is wrong with a document, in words. What a parser or a schema has to say goes without
saying. -/
def DocumentError.message : DocumentError → String
  | .notJson | .faulty _ => "Invalid tree artifact: ..."
  | .notAnObject => "Invalid tree artifact: expected a JSON object"
  | .unsupportedVersion version => "Unsupported tree format version: " ++ version.display

/-- The document that holds a tree. -/
def Tree.toDocument (t : Tree) : Data := .record [("v", .text formatVersion), ("tree", t.toData)]

/-- The tree that a document holds. A missing tree counts as null. -/
def Tree.ofDocument (document : Data) : Except DocumentError Tree :=
  match document with
  | .map entries =>
    match (Data.find? entries "v").getD .null with
    | .text version =>
      if version == formatVersion then
        match Tree.ofData ((Data.find? entries "tree").getD .null) with
        | .ok t => .ok t
        | .faulty faults => .error (.faulty faults)
      else .error (.unsupportedVersion (.text version))
    | version => .error (.unsupportedVersion version)
  | _ => .error .notAnObject

def Tree.serialize (t : Tree) : String := Json.print t.toDocument

def Tree.deserialize (text : String) : Except DocumentError Tree :=
  match Json.parse? text with
  | some document => Tree.ofDocument document
  | none => .error .notJson

end Lifeline.Tests
