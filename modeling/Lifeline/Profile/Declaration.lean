import Lifeline.Template

/-!
# Declaration patterns of a profile

The kinds of declaration that generated files hold (`DeclarationKind`), their names in a
configuration file, and the built-in patterns that find a declaration in an existing file.
-/

namespace Lifeline

/-- A kind of declaration in a generated file. The last two tell abstract types from concrete
ones. -/
inductive DeclarationKind where
  | importLine | mock | group | classType | constant | method | predicate | loopSource
  | exception | interface | interfaceMethod | scaffold | scaffoldMethod | decision | abstractType
  | concreteType
deriving Repr, DecidableEq

namespace DeclarationKind

/-- The name of a kind in a configuration file. -/
def name : DeclarationKind → String
  | .importLine => "import"
  | .mock => "mock"
  | .group => "group"
  | .classType => "class"
  | .constant => "constant"
  | .method => "method"
  | .predicate => "predicate"
  | .loopSource => "loop-source"
  | .exception => "exception"
  | .interface => "interface"
  | .interfaceMethod => "interface-method"
  | .scaffold => "scaffold"
  | .scaffoldMethod => "scaffold-method"
  | .decision => "decision"
  | .abstractType => "abstract-type"
  | .concreteType => "concrete-type"

def all : List DeclarationKind :=
  [.importLine, .mock, .group, .classType, .constant, .method, .predicate, .loopSource,
   .exception, .interface, .interfaceMethod, .scaffold, .scaffoldMethod, .decision,
   .abstractType, .concreteType]

def ofName? (name : String) : Option DeclarationKind := all.find? (·.name == name)

/-- Where the name of the declaration goes in a pattern. -/
private def nameHole : String := Template.slotText "name"

def builtin : DeclarationKind → String
  | .importLine => "^(?:from\\s+\\S+\\s+)?import\\s+.*\\b" ++ nameHole ++ "\\b"
  | .mock => "^def " ++ nameHole ++ "\\("
  | .group => "^class " ++ nameHole ++ "\\b"
  | .classType => "^class " ++ nameHole ++ "\\b"
  | .constant => "^\\s+" ++ nameHole ++ "\\s*="
  | .method => "^\\s+def " ++ nameHole ++ "\\("
  | .predicate => "^\\s+def " ++ nameHole ++ "\\("
  | .loopSource => "^\\s+def " ++ nameHole ++ "\\("
  | .exception => "^class " ++ nameHole ++ "\\b"
  | .interface => "^class " ++ nameHole ++ "\\b"
  | .interfaceMethod => "^\\s+def " ++ nameHole ++ "\\("
  | .scaffold => "^class " ++ nameHole ++ "\\b"
  | .scaffoldMethod => "^\\s+def " ++ nameHole ++ "\\("
  | .decision => "^def test_" ++ nameHole ++ "\\("
  | .abstractType => "^class " ++ nameHole ++ "\\((?:ABC|Protocol)\\)"
  | .concreteType => "^class " ++ nameHole ++ "\\b"

end DeclarationKind

/-- The declaration patterns of a profile: those that replace a built-in one. -/
structure Declarations where
  replaced : List (DeclarationKind × String) := []
deriving Repr, DecidableEq

namespace Declarations

/-- The pattern in force for a kind. -/
def get (d : Declarations) (kind : DeclarationKind) : String :=
  (d.replaced.lookup kind).getD kind.builtin

end Declarations

end Lifeline
