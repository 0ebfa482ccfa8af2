import Lifeline.Profile.Declaration

/-!
# Generated files

A generated file is a list of blocks, each of them one declaration that can be looked for in a file
that is already there.
-/

namespace Lifeline.Source

/-- What a block of a file is. -/
inductive BlockKind where
  /-- What a file begins with. It is there where the file is. -/
  | header
  /-- The header of a file that was merged into another one. -/
  | preamble
  | declaration (kind : DeclarationKind)
  /-- A kind that no pattern finds. -/
  | other (name : String)
deriving Repr, DecidableEq

namespace BlockKind

def name : BlockKind → String
  | .header => "header"
  | .preamble => "preamble"
  | .declaration kind => kind.name
  | .other name => name

def ofName : String → BlockKind
  | "header" => .header
  | "preamble" => .preamble
  | name =>
    match DeclarationKind.ofName? name with
    | some kind => .declaration kind
    | none => .other name

end BlockKind

/-- A declaration of a file. An abstract one must not be there as a concrete one. -/
structure Block where
  kind : BlockKind
  name : String
  text : String
  isAbstract : Bool := false
deriving Repr, DecidableEq

/-- What tells a block apart within its file. -/
def Block.key (b : Block) : String := b.kind.name ++ ":" ++ b.name

/-- What a file is for. -/
inductive Role where
  | test | decisionTable | implementation | interface | scaffold | errors
deriving Repr, DecidableEq

def Role.name : Role → String
  | .test => "test"
  | .decisionTable => "decision-table"
  | .implementation => "implementation"
  | .interface => "interface"
  | .scaffold => "scaffold"
  | .errors => "errors"

/-- A file to be generated. -/
structure File where
  path : String
  role : Role
  blocks : List Block
deriving Repr, DecidableEq

def File.content (f : File) : String := f.blocks.foldl (fun text b => text ++ b.text) ""

end Lifeline.Source
