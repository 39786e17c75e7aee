import FcgiJwtAuth.CLang.Prog

/-!
# Triples

`Triple P m Q U` says of a computation from a state with `P`: it returns with `Q`, or has undefined
behaviour with `U`, and it does not throw. There is one rule for each way to build a computation,
and one for a program whose calls are answered in an invariant.
-/

namespace CLang

universe u v w

namespace Exec

variable {σ : Type v} {α β : Type u} {P P' R : σ → Prop} {Q Q' : α → σ → Prop} {U : σ → Prop}
  {m : Exec σ α}

/-- How a computation may end. -/
def Post (Q : α → σ → Prop) (U : σ → Prop) : Outcome α × σ → Prop
  | (.ret a, s) => Q a s
  | (.throws _, _) => False
  | (.undefined, s) => U s

def Triple (P : σ → Prop) (m : Exec σ α) (Q : α → σ → Prop) (U : σ → Prop) : Prop :=
  ∀ s, P s → Post Q U (m.run s)

/-! ## Reading a triple -/

/-- The computation ends in one of two ways. -/
theorem Triple.ends {s : σ} (h : Triple P m Q U) (hs : P s) :
    (∃ a s', m.run s = (.ret a, s') ∧ Q a s') ∨ ∃ s', m.run s = (.undefined, s') ∧ U s' := by
  have hpost := h s hs
  rcases hrun : m.run s with ⟨a | e | _, s'⟩
  all_goals rw [hrun] at hpost
  · exact Or.inl ⟨a, s', rfl, hpost⟩
  · exact False.elim hpost
  · exact Or.inr ⟨s', rfl, hpost⟩

/-! ## The rules -/

theorem Triple.mono (h : Triple P m Q U) (hP : ∀ s, P' s → P s) (hQ : ∀ a s, Q a s → Q' a s) :
    Triple P' m Q' U := by
  intro s hs
  have hpost := h s (hP s hs)
  rcases hrun : m.run s with ⟨a | e | _, s'⟩
  all_goals rw [hrun] at hpost
  · exact hQ a s' hpost
  · exact hpost
  · exact hpost

theorem triple_pure {a : α} (h : ∀ s, P s → Q a s) : Triple P (Pure.pure a) Q U := h

theorem triple_modify {f : σ → σ} {Q : PUnit → σ → Prop} (h : ∀ s, P s → Q ⟨⟩ (f s)) :
    Triple P (modify f) Q U := h

/-- What the first part leaves, the second one starts from. -/
theorem Triple.bind {f : α → Exec σ β} {Q : β → σ → Prop} {R : α → σ → Prop}
    (hm : Triple P m R U) (hf : ∀ a, Triple (R a) (f a) Q U) : Triple P (m >>= f) Q U := by
  intro s hs
  rcases hm.ends hs with ⟨a, s', hrun, hR⟩ | ⟨s', hrun, hU⟩
  · rw [bind_ret hrun]
    exact hf a s' hR
  · rw [bind_undefined hrun]
    exact hU

end Exec

/-! ## Programs -/

namespace Prog

variable {C : Type w} {A : C → Type u} {α : Type u} {σ : Type v}

/-- No path of the program has undefined behaviour of its own. -/
def Defined : Prog C A α → Prop
  | ret _ => True
  | undefined => False
  | call _ next => ∀ r, Defined (next r)

theorem defined_pure (a : α) : (pure a : Prog C A α).Defined := trivial

theorem Defined.bind {β : Type u} {p : Prog C A α} {f : α → Prog C A β} (hp : Defined p)
    (hf : ∀ a, Defined (f a)) : Defined (p >>= f) := by
  induction p with
  | ret a => exact hf a
  | undefined => exact hp.elim
  | call c next ih => exact fun r => ih r (hp r)

/-- **An invariant of every call** is one of the program. -/
theorem triple_interp {answer : ∀ c, Exec σ (A c)} {I U : σ → Prop} {p : Prog C A α}
    (hp : Defined p) (hcalls : ∀ c, Exec.Triple I (answer c) (fun _ => I) U) :
    Exec.Triple I (p.interp answer) (fun _ => I) U := by
  induction p with
  | ret a => exact Exec.triple_pure fun _ h => h
  | undefined => exact hp.elim
  | call c next ih => exact (hcalls c).bind fun r => ih r (hp r)

end Prog

end CLang
