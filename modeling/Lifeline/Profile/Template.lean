import Lifeline.Template

/-!
# Code templates of a profile

The places where a profile supplies code (`TemplateKey`), their names in a configuration file, and
the built-in templates, which write tests and classes of the default target language. All text of
generated files comes from these templates.
-/

namespace Lifeline

/-- A place where a profile supplies a piece of generated code. -/
inductive TemplateKey where
  | testHeader | importLine | mockDeclaration | groupHeader | setupMock | fixtureValue
  | fixtureCollection | stub | stubRaises | stubSequence | stubGuardNote | guardFixture
  | subjectConstruction | helperStub | setupInvoke | valueRef | literalTrue | literalFalse
  | literalNull | keywordArgument | verifyTest | verifyOnce | verifyAny | invokeSuppressed
  | resultTest | throwTest | throwMessageCheck | decisionHeader | decisionMethod | decisionRow
  | implHeader | classHeader | assignment | constant | methodSignature | callStatement | binding
  | returnStatement | raiseStatement | raiseMessage | exceptionRef | conditionalIf
  | conditionalElif | conditionalElse | predicateCondition | predicate | iteration | emptyBody
  | iterationSource | iterationSourceMethod | indent | interfaceHeader | interfaceClass
  | interfaceMethod | scaffoldHeader | scaffoldClass | scaffoldMethod | errorsHeader
  | exceptionClass
deriving Repr, DecidableEq

namespace TemplateKey

/-- The name of a template in a configuration file. -/
def name : TemplateKey → String
  | .testHeader => "test-header"
  | .importLine => "import"
  | .mockDeclaration => "mock-declaration"
  | .groupHeader => "group-header"
  | .setupMock => "setup-mock"
  | .fixtureValue => "fixture-value"
  | .fixtureCollection => "fixture-collection"
  | .stub => "stub"
  | .stubRaises => "stub-raises"
  | .stubSequence => "stub-sequence"
  | .stubGuardNote => "stub-guard-note"
  | .guardFixture => "guard-fixture"
  | .subjectConstruction => "subject-construction"
  | .helperStub => "helper-stub"
  | .setupInvoke => "setup-invoke"
  | .valueRef => "value-ref"
  | .literalTrue => "literal-true"
  | .literalFalse => "literal-false"
  | .literalNull => "literal-null"
  | .keywordArgument => "keyword-argument"
  | .verifyTest => "verify-test"
  | .verifyOnce => "verify-once"
  | .verifyAny => "verify-any"
  | .invokeSuppressed => "invoke-suppressed"
  | .resultTest => "result-test"
  | .throwTest => "throw-test"
  | .throwMessageCheck => "throw-message-check"
  | .decisionHeader => "decision-header"
  | .decisionMethod => "decision-method"
  | .decisionRow => "decision-row"
  | .implHeader => "impl-header"
  | .classHeader => "class-header"
  | .assignment => "assignment"
  | .constant => "constant"
  | .methodSignature => "method-signature"
  | .callStatement => "call-statement"
  | .binding => "binding"
  | .returnStatement => "return-statement"
  | .raiseStatement => "raise-statement"
  | .raiseMessage => "raise-message"
  | .exceptionRef => "exception-ref"
  | .conditionalIf => "conditional-if"
  | .conditionalElif => "conditional-elif"
  | .conditionalElse => "conditional-else"
  | .predicateCondition => "predicate-condition"
  | .predicate => "predicate"
  | .iteration => "iteration"
  | .emptyBody => "empty-body"
  | .iterationSource => "iteration-source"
  | .iterationSourceMethod => "iteration-source-method"
  | .indent => "indent"
  | .interfaceHeader => "interface-header"
  | .interfaceClass => "interface-class"
  | .interfaceMethod => "interface-method"
  | .scaffoldHeader => "scaffold-header"
  | .scaffoldClass => "scaffold-class"
  | .scaffoldMethod => "scaffold-method"
  | .errorsHeader => "errors-header"
  | .exceptionClass => "exception-class"

/-- All templates, in the order in which files are made of them. -/
def all : List TemplateKey :=
  [.testHeader, .importLine, .mockDeclaration, .groupHeader, .setupMock, .fixtureValue,
   .fixtureCollection, .stub, .stubRaises, .stubSequence, .stubGuardNote, .guardFixture,
   .subjectConstruction, .helperStub, .setupInvoke, .valueRef, .literalTrue, .literalFalse,
   .literalNull, .keywordArgument, .verifyTest, .verifyOnce, .verifyAny, .invokeSuppressed,
   .resultTest, .throwTest, .throwMessageCheck, .decisionHeader, .decisionMethod, .decisionRow,
   .implHeader, .classHeader, .assignment, .constant, .methodSignature, .callStatement, .binding,
   .returnStatement, .raiseStatement, .raiseMessage, .exceptionRef, .conditionalIf,
   .conditionalElif, .conditionalElse, .predicateCondition, .predicate, .iteration, .emptyBody,
   .iterationSource, .iterationSourceMethod, .indent, .interfaceHeader, .interfaceClass,
   .interfaceMethod, .scaffoldHeader, .scaffoldClass, .scaffoldMethod, .errorsHeader,
   .exceptionClass]

def ofName? (name : String) : Option TemplateKey := all.find? (·.name == name)

/-- A slot of a template. -/
private def slot (name : String) : String := Template.slotText name

def builtin : TemplateKey → String
  | .testHeader =>
    "\"\"\"Interaction tests for " ++ slot "subject" ++
      ".\"\"\"\n\nfrom contextlib import suppress\n" ++
      "from unittest.mock import MagicMock\n\nimport pytest\n\n"
  | .importLine => "from " ++ slot "module" ++ " import " ++ slot "name" ++ "\n"
  | .mockDeclaration =>
    "\n\n@pytest.fixture\ndef " ++ slot "mock" ++ "():\n    return MagicMock(name=\"" ++
      slot "mock" ++ "\")\n"
  | .groupHeader =>
    "\n\nclass " ++ slot "group" ++ ":\n    \"\"\"" ++ slot "description" ++
      "\"\"\"\n\n    @pytest.fixture(autouse=True)\n    def setup(self" ++ slot "fixtures" ++ "):\n"
  | .setupMock => "        self." ++ slot "mock" ++ " = " ++ slot "mock" ++ "\n"
  | .fixtureValue =>
    "        self." ++ slot "name" ++ " = MagicMock(name=\"" ++ slot "name" ++ "\")\n"
  | .fixtureCollection =>
    "        self." ++ slot "collection" ++ " = [self." ++ slot "element" ++ "]\n"
  | .stub =>
    "        self." ++ slot "mock" ++ "." ++ slot "method" ++ ".return_value = self." ++
      slot "value" ++ "\n"
  | .stubRaises =>
    "        self." ++ slot "mock" ++ "." ++ slot "method" ++ ".side_effect = " ++
      slot "exception" ++ "\n"
  | .stubSequence =>
    "        self." ++ slot "mock" ++ "." ++ slot "method" ++ ".side_effect = [" ++
      slot "values" ++ "]\n"
  | .stubGuardNote => "        # drives branch [" ++ slot "guard" ++ "]\n"
  | .guardFixture => "        self." ++ slot "target" ++ " = " ++ slot "value" ++ "\n"
  | .subjectConstruction =>
    "        self.subject = " ++ slot "subject" ++ "(" ++ slot "arguments" ++ ")\n"
  | .helperStub =>
    "        self.subject." ++ slot "name" ++ " = MagicMock(return_value=" ++ slot "value" ++
      ")\n"
  | .setupInvoke =>
    "        self.result = self.subject." ++ slot "method" ++ "(" ++ slot "arguments" ++ ")\n"
  | .valueRef => "self." ++ slot "name"
  | .literalTrue => "True"
  | .literalFalse => "False"
  | .literalNull => "None"
  | .keywordArgument => slot "name" ++ "=" ++ slot "value"
  | .verifyTest =>
    "\n    def " ++ slot "test" ++ "(self):\n" ++ slot "invoke" ++ "        self." ++
      slot "mock" ++ "." ++ slot "method" ++ "." ++ slot "check" ++ "(" ++ slot "arguments" ++ ")\n"
  | .verifyOnce => "assert_called_once_with"
  | .verifyAny => "assert_any_call"
  | .invokeSuppressed =>
    "        with suppress(" ++ slot "exception" ++ "):\n            self.subject." ++
      slot "method" ++ "(" ++ slot "arguments" ++ ")\n"
  | .resultTest =>
    "\n    def " ++ slot "test" ++ "(self):\n        assert self.result == " ++ slot "expected" ++
      "\n"
  | .throwTest =>
    "\n    def " ++ slot "test" ++ "(self):\n        with pytest.raises(" ++ slot "exception" ++
      ") as exc_info:\n            self.subject." ++ slot "method" ++ "(" ++ slot "arguments" ++
      ")\n" ++ slot "message_check"
  | .throwMessageCheck =>
    "        assert str(exc_info.value) == " ++ slot "subject" ++ "." ++ slot "constant" ++
      ".format(" ++ slot "arguments" ++ ")\n"
  | .decisionHeader =>
    "\"\"\"Decision table for " ++ slot "participant" ++
      ". Rows marked PENDING need human input.\"\"\"\n\nimport pytest\n\nfrom " ++ slot "module" ++
      " import " ++ slot "participant" ++ "\n\nPENDING = " ++ slot "pending" ++ "\n"
  | .decisionMethod =>
    "\n\n@pytest.mark.skipif(PENDING, reason=\"decision table pending human input\")\n" ++
      "@pytest.mark.parametrize(\n    \"" ++
      slot "argnames" ++ "\",\n    [\n" ++ slot "rows" ++ "    ],\n)\ndef test_" ++ slot "method" ++
      "(" ++ slot "argnames" ++ "):\n    assert " ++ slot "participant" ++ "()." ++ slot "method" ++
      "(" ++ slot "arguments" ++ ") == expected\n"
  | .decisionRow => "        (" ++ slot "values" ++ "),\n"
  | .implHeader =>
    "\"\"\"" ++ slot "subject" ++ " implementation.\"\"\"\n\nimport " ++ slot "errors_module" ++
      " as errors\n"
  | .classHeader =>
    "\n\nclass " ++ slot "subject" ++ ":\n    \"\"\"" ++ slot "description" ++
      "\"\"\"\n\n    def __init__(self" ++ slot "parameters" ++ "):\n" ++ slot "assignments"
  | .assignment => "        self." ++ slot "name" ++ " = " ++ slot "name" ++ "\n"
  | .constant => "\n    " ++ slot "constant" ++ " = " ++ slot "literal" ++ "\n"
  | .methodSignature => "\n    def " ++ slot "method" ++ "(self" ++ slot "parameters" ++ "):\n"
  | .callStatement =>
    slot "indent" ++ slot "binding" ++ "self." ++ slot "mock" ++ "." ++ slot "method" ++ "(" ++
      slot "arguments" ++ ")\n"
  | .binding => slot "name" ++ " = "
  | .returnStatement => slot "indent" ++ "return " ++ slot "value" ++ "\n"
  | .raiseStatement =>
    slot "indent" ++ "raise " ++ slot "exception" ++ "(" ++ slot "message" ++ ")\n"
  | .raiseMessage => "self." ++ slot "constant" ++ ".format(" ++ slot "arguments" ++ ")"
  | .exceptionRef => "errors." ++ slot "exception"
  | .conditionalIf => slot "indent" ++ "if " ++ slot "condition" ++ ":\n"
  | .conditionalElif => slot "indent" ++ "elif " ++ slot "condition" ++ ":\n"
  | .conditionalElse => slot "indent" ++ "else:\n"
  | .predicateCondition => "self." ++ slot "predicate" ++ "()"
  | .predicate =>
    "\n    def " ++ slot "predicate" ++
      "(self):\n        raise NotImplementedError(\"Decide branch condition: [" ++ slot "guard" ++
      "]\")\n"
  | .iteration =>
    slot "indent" ++ "for " ++ slot "element" ++ " in " ++ slot "collection" ++ ":\n"
  | .emptyBody => slot "indent" ++ "pass\n"
  | .iterationSource => "self." ++ slot "name" ++ "()"
  | .iterationSourceMethod =>
    "\n    def " ++ slot "name" ++
      "(self):\n        raise NotImplementedError(\"Provide the items of loop [" ++ slot "label" ++
      "]\")\n"
  | .indent => "    "
  | .interfaceHeader =>
    "\"\"\"" ++ slot "name" ++ " boundary port.\"\"\"\n\nfrom abc import ABC, abstractmethod\n"
  | .interfaceClass =>
    "\n\nclass " ++ slot "name" ++ "(ABC):\n    \"\"\"Port used by " ++ slot "users" ++
      ".\"\"\"\n"
  | .interfaceMethod =>
    "\n    @abstractmethod\n    def " ++ slot "method" ++ "(self" ++ slot "parameters" ++
      "):\n        ...\n"
  | .scaffoldHeader =>
    "\"\"\"" ++ slot "name" ++ " computation. Behaviour is fixed by its decision table.\"\"\"\n"
  | .scaffoldClass => "\n\nclass " ++ slot "name" ++ ":\n"
  | .scaffoldMethod =>
    "\n    def " ++ slot "method" ++ "(self" ++ slot "parameters" ++
      "):\n        raise NotImplementedError(\"" ++ slot "name" ++ "." ++ slot "method" ++
      " follows its decision table (" ++ slot "status" ++ ")\")\n"
  | .errorsHeader => "\"\"\"Exceptions raised by generated components.\"\"\"\n"
  | .exceptionClass => "\n\nclass " ++ slot "exception" ++ "(Exception):\n    pass\n"

end TemplateKey

/-- The templates of a profile: those that replace a built-in one. -/
structure Templates where
  replaced : List (TemplateKey × String) := []
deriving Repr, DecidableEq

namespace Templates

/-- The template in force for a key. -/
def get (t : Templates) (key : TemplateKey) : String := (t.replaced.lookup key).getD key.builtin

end Templates

end Lifeline
