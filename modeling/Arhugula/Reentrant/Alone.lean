import Arhugula.Reentrant.Logic

/-!
# Methods that are called alone

Where no method may be called while a callback is pending, a callback leaves the world as it is, and adds itself and its
answer to the log. A contract is an invariant then (`Contract.alone`), and the rule of a callback is `alone_ask`.
-/

namespace Reentrant

variable {S Op A ε M V α : Type} {m : Machine S Op A ε M V}

/-- **The contract of an invariant**, of methods that are called alone. -/
def Contract.alone (m : Machine S Op A ε M V) (Inv : World S Op A ε M V → Prop) : Contract m where
  Inv := Inv
  Rel ctx a b := ctx ≠ [] → b = a
  refl _ _ _ := rfl
  trans h h' hne := (h' hne).trans (h hne)

variable {Inv : World S Op A ε M V → Prop} {i : ℕ} {ctx : List (ℕ × Op)} {w : World S Op A ε M V} {op : Op}

/-- A callback, and its answer. -/
def World.answered (w : World S Op A ε M V) (i : ℕ) (op : Op) (a : A) : World S Op A ε M V :=
  (w.push i (.call op)).push i (.reply op a)

@[simp] theorem World.answered_st (w : World S Op A ε M V) (i : ℕ) (op : Op) (a : A) : (w.answered i op a).st = w.st := rfl

@[simp] theorem World.answered_log (w : World S Op A ε M V) (i : ℕ) (op : Op) (a : A) :
    (w.answered i op a).log = ⟨i, .reply op a, w.st⟩ :: ⟨i, .call op, w.st⟩ :: w.log := rfl

/-- **The rule of a callback.** -/
theorem alone_ask {Q : Except ε A → World S Op A ε M V → Prop} (hcall : Inv (w.push i (.call op)))
    (hreply : ∀ a, Q (.ok a) (w.answered i op a)) : Holds (.alone m Inv) ctx i (Prog.ask op) Q w := by
  refine (holds_ask op).2 ⟨hcall, fun w' _ _ hrel a _ => ?_⟩
  rw [hrel (List.cons_ne_nil _ _)]
  exact hreply a

/-- **Every method keeps an invariant** where its body does, called alone. -/
theorem Contract.alone_kept (henter : ∀ w ctx meth, m.enter w ctx meth = true → ctx = [])
    (hbody : ∀ meth w, (∀ e ∈ w.log, e.frame < w.next) → Inv w →
      Holds (.alone m Inv) [] w.next (m.body meth) (fun r w' => Inv (w'.push w.next (.ret r))) (w.enter meth))
    (hcrash : ∀ w s, Inv w → m.crash w.st = some s → Inv (w.lose s)) : (Contract.alone m Inv).Kept := by
  constructor
  · intro ctx meth w hm hlog _ hinv
    obtain rfl := henter w ctx meth hm
    exact (hbody meth w hlog hinv).mono fun r w' h => ⟨h, fun hne => absurd rfl hne⟩
  · exact hcrash

end Reentrant
