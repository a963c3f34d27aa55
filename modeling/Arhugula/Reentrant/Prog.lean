import Mathlib.Data.Nat.Basic
import Mathlib.Order.Basic
import Mathlib.Tactic.Common

/-!
# Method bodies that call out

`Prog S Op A ε α` is the body of a method over a shared state `S`. It reads and
writes the state, raises (`ε`), returns (`α`), and calls its environment: a
callback `Op` is answered by an `A`. While a callback is pending the environment
may call methods of its own, so nothing read before it is known to hold after it.
-/

namespace Reentrant

/-- **A method body**: a tree of state accesses and callbacks, every branch finite. -/
inductive Prog (S Op A ε : Type) (α : Type) : Type where
  | ret (a : α)
  | fail (e : ε)
  | get (k : S → Prog S Op A ε α)
  | set (s : S) (k : Prog S Op A ε α)
  | call (op : Op) (k : A → Prog S Op A ε α)

namespace Prog

variable {S Op A ε α β : Type}

/-- Sequencing. A raise skips the rest. -/
def bind : Prog S Op A ε α → (α → Prog S Op A ε β) → Prog S Op A ε β
  | .ret a, f => f a
  | .fail e, _ => .fail e
  | .get k, f => .get fun s => (k s).bind f
  | .set s k, f => .set s (k.bind f)
  | .call op k, f => .call op fun a => (k a).bind f

instance : Monad (Prog S Op A ε) where
  pure := .ret
  bind := bind

/-- Run a body to its end, whether it returns or raises. -/
def attempt : Prog S Op A ε α → Prog S Op A ε (Except ε α)
  | .ret a => .ret (.ok a)
  | .fail e => .ret (.error e)
  | .get k => .get fun s => (k s).attempt
  | .set s k => .set s k.attempt
  | .call op k => .call op fun a => (k a).attempt

/-- Re-raise, or return, an outcome that was caught. -/
def ofExcept : Except ε α → Prog S Op A ε α
  | .ok a => .ret a
  | .error e => .fail e

/-- `try p except e: h e`. -/
def catching (p : Prog S Op A ε α) (h : ε → Prog S Op A ε α) : Prog S Op A ε α :=
  p.attempt.bind fun
    | .ok a => .ret a
    | .error e => h e

/-- `try p finally: c`. -/
def lastly (p : Prog S Op A ε α) (c : Prog S Op A ε Unit) : Prog S Op A ε α :=
  p.attempt.bind fun r => c.bind fun _ => ofExcept r

instance : MonadExceptOf ε (Prog S Op A ε) where
  throw := .fail
  tryCatch := catching

/-- Read from the state. -/
def read (f : S → α) : Prog S Op A ε α := .get fun s => .ret (f s)

/-- Write the state. -/
def write (f : S → S) : Prog S Op A ε Unit := .get fun s => .set (f s) (.ret ())

/-- One callback. -/
def ask (op : Op) : Prog S Op A ε A := .call op .ret

end Prog

end Reentrant
