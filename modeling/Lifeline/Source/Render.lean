import Lifeline.Source.CodeFile
import Lifeline.Source.TestFile

/-!
# Rendering

All files of a tree of tests and the code it calls for (`render`). Files with one path become one
file, which keeps the first block of each key.
-/

namespace Lifeline.Source

/-- A block of a file as it goes into another file: its header becomes a preamble. -/
def Block.merged (role : Role) (b : Block) : Block :=
  if b.kind == .header then { kind := .preamble, name := role.name, text := "\n" ++ b.text } else b

/-- Blocks with more of them, unless there is one of the same key. -/
def addBlocks (blocks more : List Block) : List Block :=
  more.foldl (fun bs b => if bs.any (·.key == b.key) then bs else bs ++ [b]) blocks

/-- Files with one more. A file whose path is taken goes into the file that is there. -/
def addFile (files : List File) (f : File) : List File :=
  if files.any (·.path == f.path) then
    files.map fun g =>
      if g.path == f.path then
        { g with blocks := addBlocks g.blocks (f.blocks.map (·.merged f.role)) }
      else g
  else files ++ [f]

/-- Files of which no two have one path. -/
def mergeFiles (files : List File) : List File := files.foldl addFile []

/-- The files of a tree of tests and its code: test files, decision tables, classes, interfaces,
scaffolds and exceptions. -/
def render (tests : Tests.Tree) (code : Code.Tree) (profile : Profile := .builtin)
    (base : String := "app") : Except NameError (List File) := do
  let r : Renderer := { profile, base, blocks := blocksInTree code }
  let suites ← tests.suites.mapM r.testFile
  let tables ← tests.tables.mapM r.decisionFile
  let classes ← code.classes.mapM r.classFile
  let interfaces ← code.interfaces.mapM r.interfaceFile
  let scaffolds ← code.scaffolds.mapM r.scaffoldFile
  let errors ← r.errorsFile code.exceptions
  return mergeFiles (suites ++ tables ++ classes ++ interfaces ++ scaffolds ++ [errors])

end Lifeline.Source
