import Lifeline.Name.Case
import Lifeline.Profile.Declaration
import Lifeline.Profile.Template
import Lifeline.Roles

/-!
# Language profiles

A profile holds everything about the target language: how names are written (`NamingRules`), where
files go (`PathRules`), which suffixes tell leaves apart, the code templates and the patterns that
find declarations. Without changes it is the built-in profile.
-/

namespace Lifeline

/-- How names are written. -/
structure NamingRules where
  methodCase : String := "snake"
  variableCase : String := "snake"
  typeCase : String := "pascal"
  testGroup : NamePattern :=
    { pattern := "test " ++ Template.slotText "method" ++ " " ++ Template.slotText "qualifier"
      case := "pascal" }
  branchQualifier : String := "when " ++ Template.slotText "guard"
  verifyTest : NamePattern :=
    { pattern := "test " ++ Template.slotText "method" ++ " calls " ++
        Template.slotText "collaborator" ++ " " ++ Template.slotText "call" }
  resultTest : NamePattern :=
    { pattern := "test " ++ Template.slotText "method" ++ " returns " ++ Template.slotText "value" }
  throwTest : NamePattern :=
    { pattern :=
        "test " ++ Template.slotText "method" ++ " raises " ++ Template.slotText "exception" }
  messageConstant : NamePattern :=
    { pattern := Template.slotText "exception" ++ " message", case := "upper-snake" }
  mock : NamePattern := { pattern := Template.slotText "collaborator" }
  predicate : NamePattern := { pattern := "is " ++ Template.slotText "guard" }
  loopSource : NamePattern := { pattern := "items for " ++ Template.slotText "label" }
deriving Repr, DecidableEq

namespace NamingRules

def method (r : NamingRules) (name : String) : Except NameError String :=
  Name.convert name r.methodCase

def valueName (r : NamingRules) (name : String) : Except NameError String :=
  Name.convert name r.variableCase

def typeName (r : NamingRules) (name : String) : Except NameError String :=
  Name.convert name r.typeCase

end NamingRules

/-- Where generated files go. Each rule is a template over the base namespace, the same as a
directory, and the subject of the file as it is and in snake case. -/
structure PathRules where
  testFile : String := "tests/test_" ++ Template.slotText "subject_snake" ++ ".py"
  implementationFile : String :=
    "src/" ++ Template.slotText "base_path" ++ "/" ++ Template.slotText "subject_snake" ++ ".py"
  interfaceFile : String :=
    "src/" ++ Template.slotText "base_path" ++ "/" ++ Template.slotText "subject_snake" ++ ".py"
  scaffoldFile : String :=
    "src/" ++ Template.slotText "base_path" ++ "/" ++ Template.slotText "subject_snake" ++ ".py"
  decisionTableFile : String :=
    "tests/test_" ++ Template.slotText "subject_snake" ++ "_decisions.py"
  errorsFile : String := "src/" ++ Template.slotText "base_path" ++ "/errors.py"
  module : String := Template.slotText "base" ++ "." ++ Template.slotText "subject_snake"
  errorsModule : String := Template.slotText "base" ++ ".errors"
deriving Repr, DecidableEq

/-- A language profile. -/
structure Profile where
  name : String := "python-pytest"
  naming : NamingRules := {}
  paths : PathRules := {}
  leafSuffixes : LeafSuffixes := {}
  templates : Templates := {}
  declarations : Declarations := {}
deriving Repr, DecidableEq

namespace Profile

def builtin : Profile := {}

end Profile

end Lifeline
