import FcgiJwtAuth.CLang.Exec

/-!
# Control paths

A program as the calls it makes: it ends, has undefined behaviour, or makes a call and goes on with
the answer. What answers the calls is left open. A control path is a choice of answers; `Makes`
says which call comes behind which answered ones. With an `Exec` for each call a program runs as
one (`interp`).

`wp` says of a program that every call on every path is allowed by the calls in front of it. It is
computed from the program, and sound and complete for `Makes`.
-/

namespace CLang

universe u v w

/-- A program that returns an `α` and makes calls `c : C` with answers in `A c`. -/
inductive Prog (C : Type w) (A : C → Type u) (α : Type u) : Type (max u w)
  | ret (a : α)
  | undefined
  | call (c : C) (next : A c → Prog C A α)

namespace Prog

variable {C : Type w} {A : C → Type u} {α β : Type u}

def bind : Prog C A α → (α → Prog C A β) → Prog C A β
  | ret a, f => f a
  | undefined, _ => undefined
  | call c next, f => call c fun r => (next r).bind f

instance : Monad (Prog C A) where
  pure := ret
  bind := bind

/-- A call alone. -/
def perform (c : C) : Prog C A (A c) := call c ret

/-! ## Running a program -/

section Interp

variable {σ : Type v} (answer : ∀ c, Exec σ (A c))

/-- The program with its calls answered. -/
def interp : Prog C A α → Exec σ α
  | ret a => Pure.pure a
  | undefined => Exec.undefined
  | call c next => answer c >>= fun r => interp (next r)

@[simp] theorem interp_perform (c : C) : interp answer (perform c) = answer c := by
  funext s
  show (answer c >>= Pure.pure).run s = (answer c).run s
  rw [Exec.run_bind]
  rcases (answer c).run s with ⟨_ | _ | _, s'⟩ <;> rfl

/-- Running a sequence runs its parts. -/
@[simp] theorem interp_bind (p : Prog C A α) (f : α → Prog C A β) :
    interp answer (p >>= f) = interp answer p >>= fun a => interp answer (f a) := by
  funext s
  induction p generalizing s with
  | ret a => rfl
  | undefined => rfl
  | call c next ih =>
    show (answer c >>= fun r => interp answer (next r >>= f)).run s =
      ((answer c >>= fun r => interp answer (next r)) >>= fun a => interp answer (f a)).run s
    rw [Exec.run_bind, Exec.run_bind, Exec.run_bind]
    rcases (answer c).run s with ⟨r | _ | _, s'⟩
    · exact ih r s'
    · rfl
    · rfl

end Interp

/-! ## Control paths -/

/-- A call with its answer. -/
abbrev Answered (C : Type w) (A : C → Type u) := Σ c, A c

/-- On some control path the calls are answered as listed, and then `c` is made. -/
inductive Makes : Prog C A α → List (Answered C A) → C → Prop
  | here (c : C) (next : A c → Prog C A α) : Makes (call c next) [] c
  | later {c : C} {next : A c → Prog C A α} {r : A c} {l : List (Answered C A)} {c' : C}
    (h : Makes (next r) l c') : Makes (call c next) (⟨c, r⟩ :: l) c'

/-- Every call is allowed by those in front of it, of which there are `before` already, and what is
returned behind them satisfies `Q`. -/
def wp (allowed : List (Answered C A) → C → Prop) :
    Prog C A α → (List (Answered C A) → α → Prop) → List (Answered C A) → Prop
  | ret a, Q, before => Q before a
  | undefined, _, _ => True
  | call c next, Q, before =>
    allowed before c ∧ ∀ r, wp allowed (next r) Q (before ++ [⟨c, r⟩])

section Wp

variable {allowed : List (Answered C A) → C → Prop} {Q Q' : List (Answered C A) → α → Prop}
  {before : List (Answered C A)}

@[simp] theorem wp_ret (a : α) : wp allowed (ret a) Q before ↔ Q before a := Iff.rfl

@[simp] theorem wp_undefined : wp allowed (undefined : Prog C A α) Q before ↔ True := Iff.rfl

@[simp] theorem wp_perform (c : C) {Q : List (Answered C A) → A c → Prop} :
    wp allowed (perform c) Q before ↔ allowed before c ∧ ∀ r, Q (before ++ [⟨c, r⟩]) r := Iff.rfl

/-- In a sequence, what the first part returns makes the second one safe. -/
@[simp] theorem wp_bind (p : Prog C A α) (f : α → Prog C A β) {Q : List (Answered C A) → β → Prop} :
    wp allowed (p >>= f) Q before ↔ wp allowed p (fun l a => wp allowed (f a) Q l) before := by
  induction p generalizing before with
  | ret a => exact Iff.rfl
  | undefined => exact Iff.rfl
  | call c next ih => exact and_congr_right fun _ => forall_congr' fun r => ih r

theorem wp_mono {p : Prog C A α} (h : wp allowed p Q before) (hQ : ∀ l a, Q l a → Q' l a) :
    wp allowed p Q' before := by
  induction p generalizing before with
  | ret a => exact hQ before a h
  | undefined => trivial
  | call c next ih => exact ⟨h.1, fun r => ih r (h.2 r)⟩

/-- **Every call on every path is allowed.** -/
theorem wp_iff_makes (p : Prog C A α) :
    wp allowed p (fun _ _ => True) before ↔
      ∀ l c, Makes p l c → allowed (before ++ l) c := by
  induction p generalizing before with
  | ret a => exact iff_of_true trivial fun l c h => by cases h
  | undefined => exact iff_of_true trivial fun l c h => by cases h
  | call c next ih =>
    constructor
    · rintro ⟨hc, hnext⟩ l c' hmakes
      cases hmakes with
      | here => rwa [List.append_nil]
      | later hlater =>
        rename_i l r
        have hall := (ih r).mp (hnext r) l c' hlater
        rwa [List.append_assoc] at hall
    · intro h
      have hhere := h [] c (.here c next)
      rw [List.append_nil] at hhere
      refine ⟨hhere, fun r => (ih r).mpr fun l c' hmakes => ?_⟩
      rw [List.append_assoc]
      exact h _ _ (.later hmakes)

end Wp

end Prog

end CLang
