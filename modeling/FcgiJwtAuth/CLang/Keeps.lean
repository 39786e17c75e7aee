import FcgiJwtAuth.CLang.Exec

/-!
# Invariants of a computation

A computation keeps `I` if it leaves a state with `I` from every state with `I`, however it ends.
There is one rule for each way to build a computation.
-/

namespace CLang

universe u v

namespace Exec

variable {σ : Type v} {α β : Type u} {I : σ → Prop}

/-- Whatever the outcome, `I` still holds. -/
def Keeps (I : σ → Prop) (m : Exec σ α) : Prop := ∀ s, I s → I (m.run s).2

theorem keeps_pure (a : α) : Keeps I (Pure.pure a : Exec σ α) := fun _ h => h

theorem keeps_ofExcept (r : Except Exn α) : Keeps I (ofExcept r : Exec σ α) := by
  cases r with
  | ok a => exact keeps_pure a
  | error e => exact fun _ h => h

/-- The second part of a sequence only runs where the first one returns. -/
theorem Keeps.bind {m : Exec σ α} {f : α → Exec σ β} (hm : Keeps I m) (hf : ∀ a, Keeps I (f a)) :
    Keeps I (m >>= f) := by
  intro s hs
  have hleft := hm s hs
  rw [run_bind]
  rcases hrun : m.run s with ⟨a | e | _, s'⟩
  all_goals rw [hrun] at hleft
  · exact hf a s' hleft
  · exact hleft
  · exact hleft

/-- A handler runs in the state that the exception left. -/
theorem Keeps.catching {m : Exec σ α} {handler : Exn → Option (Exec σ α)} (hm : Keeps I m)
    (hhandler : ∀ e k, handler e = some k → Keeps I k) : Keeps I (m.catching handler) := by
  intro s hs
  have hleft := hm s hs
  rcases hrun : m.run s with ⟨a | e | _, s'⟩
  all_goals rw [hrun] at hleft
  · rwa [catching_ret hrun]
  · rw [catching_throws hrun]
    cases hk : handler e with
    | none => exact hleft
    | some k => exact hhandler e k hk s' hleft
  · rwa [catching_undefined hrun]

end Exec

end CLang
