import Mathlib.Order.Basic
import Mathlib.Tactic.Common

/-!
# Runs of an object

An object has a state, and each call returns an answer and leaves another state. A run is a sequence of calls.
`invariant` is the rule for one object, `simulation` the rule for two that are called alike: as long as their answers
agree, so do their states, and where the answers differ first is where the first call is not one that they agree on.
-/

namespace Durable

namespace Calls

variable {σ τ α β : Type} (f : σ → α → σ × β) (g : τ → α → τ × β) (s : σ) (t : τ) (calls : ℕ → α)

/-- The state after `n` calls. -/
def after : ℕ → σ
  | 0 => s
  | n + 1 => (f (after n) (calls n)).1

/-- What the call after `n` others returns. -/
def answer (n : ℕ) : β := (f (after f s calls n) (calls n)).2

variable {f g s t calls}

theorem invariant {I : σ → Prop} (h0 : I s) (hstep : ∀ s c, I s → I (f s c).1) (n : ℕ) : I (after f s calls n) := by
  induction n with
  | zero => exact h0
  | succ n ih => exact hstep _ _ ih

/-- **Two objects answer alike if and only if every call is one that they agree on**, where each call that they agree
on keeps their states related. -/
theorem simulation (R : σ → τ → Prop) (ok : σ → α → Prop) (h0 : R s t)
    (hanswer : ∀ s t c, R s t → ((f s c).2 = (g t c).2 ↔ ok s c))
    (hstate : ∀ s t c, R s t → ok s c → R (f s c).1 (g t c).1) :
    (∀ n, answer f s calls n = answer g t calls n) ↔ ∀ n, ok (after f s calls n) (calls n) := by
  constructor
  · intro hall
    have hrel : ∀ n, R (after f s calls n) (after g t calls n) := by
      intro n
      induction n with
      | zero => exact h0
      | succ n ih => exact hstate _ _ _ ih ((hanswer _ _ _ ih).1 (hall n))
    exact fun n => (hanswer _ _ _ (hrel n)).1 (hall n)
  · intro hok
    have hrel : ∀ n, R (after f s calls n) (after g t calls n) := by
      intro n
      induction n with
      | zero => exact h0
      | succ n ih => exact hstate _ _ _ ih (hok n)
    exact fun n => (hanswer _ _ _ (hrel n)).2 (hok n)

/-- Two objects that are called alike, as one. -/
def both (f : σ → α → σ × β) (g : τ → α → τ × β) (x : σ × τ) (c : α) : (σ × τ) × β × β :=
  (((f x.1 c).1, (g x.2 c).1), (f x.1 c).2, (g x.2 c).2)

theorem after_both (n : ℕ) : after (both f g) (s, t) calls n = (after f s calls n, after g t calls n) := by
  induction n with
  | zero => rfl
  | succ n ih =>
    rw [after, ih]
    rfl

theorem answer_both (n : ℕ) : answer (both f g) (s, t) calls n = (answer f s calls n, answer g t calls n) := by
  rw [answer, after_both]
  rfl

end Calls

end Durable
