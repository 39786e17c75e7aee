import Mathlib.Logic.Function.Basic

/-!
# Running C++ code on a state

A call ends in one of three ways: it returns, it throws, or it has undefined behaviour, after which
nothing is promised. `Exec σ α` is a computation over a state `σ` with these three outcomes. The
exceptions are told apart only as far as `catch` clauses tell them apart.
-/

namespace CLang

/-- The standard exception classes. Of the ones listed only `systemError` derives from another,
`runtimeError`; all of them derive from `std::exception`. -/
inductive Exn
  | runtimeError
  | systemError
  | invalidArgument
  | outOfRange
  | badCast
deriving DecidableEq

/-- `catch (std::runtime_error &)` takes the exception. -/
def Exn.isRuntimeError : Exn → Bool
  | .runtimeError | .systemError => true
  | _ => false

/-- `catch (std::invalid_argument &)` takes the exception. -/
def Exn.isInvalidArgument : Exn → Bool
  | .invalidArgument => true
  | _ => false

/-- How a call ends. -/
inductive Outcome (α : Type*)
  | ret (a : α)
  | throws (e : Exn)
  | undefined
deriving DecidableEq

/-- A computation over a mutable state. -/
def Exec (σ α : Type*) := σ → Outcome α × σ

namespace Exec

universe u v
variable {σ : Type v} {α β : Type u}

/-- The outcome from a given state, and the state it leaves. -/
def run (m : Exec σ α) (s : σ) : Outcome α × σ := m s

/-! ## The primitive computations -/

def pure (a : α) : Exec σ α := fun s => (.ret a, s)

def bind (m : Exec σ α) (f : α → Exec σ β) : Exec σ β := fun s =>
  match m s with
  | (.ret a, s') => f a s'
  | (.throws e, s') => (.throws e, s')
  | (.undefined, s') => (.undefined, s')

instance : Monad (Exec σ) where
  pure := pure
  bind := bind

/-- `throw`. -/
def throw (e : Exn) : Exec σ α := fun s => (.throws e, s)

/-- Undefined behaviour. -/
def undefined : Exec σ α := fun s => (.undefined, s)

/-- Reads the state. -/
def get : Exec σ σ := fun s => (.ret s, s)

/-- Writes the state. -/
def modify (f : σ → σ) : Exec σ PUnit := fun s => (.ret ⟨⟩, f s)

/-- A call that reads nothing of the state and may throw. -/
def ofExcept (r : Except Exn α) : Exec σ α :=
  match r with
  | .ok a => pure a
  | .error e => throw e

/-- `try { m } catch …`: the handlers see the state as the exception left it, and an exception
that no clause takes goes on. -/
def catching (m : Exec σ α) (handler : Exn → Option (Exec σ α)) : Exec σ α := fun s =>
  match m s with
  | (.throws e, s') =>
    match handler e with
    | some h => h s'
    | none => (.throws e, s')
  | r => r

/-- A call on one part of a larger state. -/
def on {τ : Type*} (get : τ → σ) (set : σ → τ → τ) (m : Exec σ α) : Exec τ α := fun t =>
  ((m (get t)).1, set (m (get t)).2 t)

/-! ## What they do -/

@[simp] theorem run_pure (a : α) (s : σ) : (Pure.pure a : Exec σ α).run s = (.ret a, s) := rfl

theorem run_bind (m : Exec σ α) (f : α → Exec σ β) (s : σ) :
    (m >>= f).run s =
      match m.run s with
      | (.ret a, s') => (f a).run s'
      | (.throws e, s') => (.throws e, s')
      | (.undefined, s') => (.undefined, s') := rfl

@[simp] theorem run_throw (e : Exn) (s : σ) : (throw e : Exec σ α).run s = (.throws e, s) := rfl

@[simp] theorem run_undefined (s : σ) : (undefined : Exec σ α).run s = (.undefined, s) := rfl

@[simp] theorem run_get (s : σ) : (get : Exec σ σ).run s = (.ret s, s) := rfl

@[simp] theorem run_modify (f : σ → σ) (s : σ) : (modify f).run s = (.ret ⟨⟩, f s) := rfl

@[simp] theorem run_on {τ : Type*} (get : τ → σ) (set : σ → τ → τ) (m : Exec σ α) (t : τ) :
    (m.on get set).run t = ((m.run (get t)).1, set (m.run (get t)).2 t) := rfl

/-- A computation whose outcome is known leaves some state. -/
theorem exists_state {m : Exec σ α} {s : σ} {o : Outcome α} (h : (m.run s).1 = o) :
    ∃ s', m.run s = (o, s') := ⟨(m.run s).2, by rw [← h]⟩

/-! ## Sequencing, by the outcome of the first part -/

variable {m : Exec σ α} {f : α → Exec σ β} {s s' : σ} {a : α} {e : Exn}

theorem bind_ret (h : m.run s = (.ret a, s')) : (m >>= f).run s = (f a).run s' := by
  rw [run_bind, h]

theorem bind_throws (h : m.run s = (.throws e, s')) : (m >>= f).run s = (.throws e, s') := by
  rw [run_bind, h]

theorem bind_undefined (h : m.run s = (.undefined, s')) : (m >>= f).run s = (.undefined, s') := by
  rw [run_bind, h]

/-- What is made of the value returned leaves the state alone. -/
theorem run_bind_pure_state (m : Exec σ α) (g : α → β) (s : σ) :
    ((m >>= fun a => Pure.pure (g a)).run s).2 = (m.run s).2 := by
  rw [run_bind]
  rcases m.run s with ⟨_ | _ | _, s'⟩ <;> rfl

@[simp] theorem pure_bind (a : α) (f : α → Exec σ β) : (Pure.pure a >>= f : Exec σ β) = f a := rfl

@[simp] theorem throw_bind (e : Exn) (f : α → Exec σ β) :
    ((throw e : Exec σ α) >>= f) = throw e := rfl

@[simp] theorem undefined_bind (f : α → Exec σ β) :
    ((undefined : Exec σ α) >>= f) = undefined := rfl

@[simp] theorem ofExcept_ok (a : α) : (ofExcept (.ok a) : Exec σ α) = Pure.pure a := rfl

@[simp] theorem ofExcept_error (e : Exn) : (ofExcept (.error e) : Exec σ α) = throw e := rfl

/-! ## Returning -/

/-- The call returns. -/
def Returns (m : Exec σ α) (s : σ) : Prop := ∃ a, (m.run s).1 = .ret a

theorem returns_pure (a : α) (s : σ) : Returns (Pure.pure a : Exec σ α) s := ⟨a, rfl⟩

theorem Returns.exists_run (h : Returns m s) : ∃ a s', m.run s = (.ret a, s') := by
  obtain ⟨a, ha⟩ := h
  exact ⟨a, exists_state ha⟩

theorem returns_of_run (h : m.run s = (.ret a, s')) : Returns m s := ⟨a, by rw [h]⟩

/-- A sequence returns when both parts do. -/
theorem returns_bind_iff :
    Returns (m >>= f) s ↔ ∃ a s', m.run s = (.ret a, s') ∧ Returns (f a) s' := by
  rcases hm : m.run s with ⟨a | e | _, s'⟩
  · rw [Returns, bind_ret hm]
    constructor
    · intro h
      exact ⟨a, s', rfl, h⟩
    · rintro ⟨a', s'', heq, h⟩
      cases heq
      exact h
  · rw [Returns, bind_throws hm]
    simp
  · rw [Returns, bind_undefined hm]
    simp

/-- What a sequence returns, its second part does, where the first one has returned. -/
theorem run_bind_eq_ret_iff {b : β} :
    (m >>= f).run s = (.ret b, s') ↔
      ∃ a s₁, m.run s = (.ret a, s₁) ∧ (f a).run s₁ = (.ret b, s') := by
  rcases hm : m.run s with ⟨a | e | _, s₁⟩
  · rw [bind_ret hm]
    constructor
    · exact fun h => ⟨a, s₁, rfl, h⟩
    · rintro ⟨a', s₂, heq, h⟩
      cases heq
      exact h
  · rw [bind_throws hm]
    simp
  · rw [bind_undefined hm]
    simp

/-- Making a value of what was returned is no obstacle. -/
theorem returns_bind_pure_iff {g : α → β} :
    Returns (m >>= fun a => Pure.pure (g a)) s ↔ Returns m s := by
  rw [returns_bind_iff]
  constructor
  · rintro ⟨a, s', hrun, -⟩
    exact returns_of_run hrun
  · intro h
    obtain ⟨a, s', hrun⟩ := h.exists_run
    exact ⟨a, s', hrun, returns_pure _ _⟩

/-- A call on a part returns when the call does. -/
theorem returns_on_iff {τ : Type*} {get : τ → σ} {set : σ → τ → τ} {t : τ} :
    Returns (m.on get set) t ↔ Returns m (get t) := Iff.rfl

/-! ## Calls as steps -/

/-- A call as a step of a run. After undefined behaviour there is no next state. -/
def step (m : Exec σ α) (s : σ) : Option (Outcome α × σ) :=
  match m.run s with
  | (.undefined, _) => none
  | r => some r

theorem run_of_step {o : Outcome α} (h : m.step s = some (o, s')) :
    m.run s = (o, s') ∧ o ≠ .undefined := by
  unfold step at h
  rcases hrun : m.run s with ⟨r, s₁⟩
  rw [hrun] at h
  cases r with
  | undefined => cases h
  | _ =>
    obtain ⟨rfl, rfl⟩ := Prod.mk.inj (Option.some.inj h)
    exact ⟨rfl, by simp⟩

/-! ## Handlers -/

variable {handler : Exn → Option (Exec σ α)}

theorem catching_ret (h : m.run s = (.ret a, s')) : (m.catching handler).run s = (.ret a, s') := by
  have h' : m s = (.ret a, s') := h
  show (match m s with | (.throws e, s') => _ | r => r) = _
  rw [h']

theorem catching_undefined (h : m.run s = (.undefined, s')) :
    (m.catching handler).run s = (.undefined, s') := by
  have h' : m s = (.undefined, s') := h
  show (match m s with | (.throws e, s') => _ | r => r) = _
  rw [h']

theorem catching_throws (h : m.run s = (.throws e, s')) :
    (m.catching handler).run s =
      match handler e with
      | some k => k.run s'
      | none => (.throws e, s') := by
  have h' : m s = (.throws e, s') := h
  show (match m s with
    | (.throws e, s') => match handler e with | some h => h s' | none => (.throws e, s')
    | r => r) = _
  rw [h']
  rfl

end Exec

/-! ## Calls that may throw and nothing else -/

universe u

/-- A sequence of them returns when both parts do. -/
theorem except_bind_eq_ok_iff {ε : Type*} {α β : Type u} {r : Except ε α} {f : α → Except ε β}
    {b : β} :
    (r >>= f) = .ok b ↔ ∃ a, r = .ok a ∧ f a = .ok b := by
  cases r with
  | error e => simp [bind, Except.bind]
  | ok a => simp [bind, Except.bind]

end CLang
