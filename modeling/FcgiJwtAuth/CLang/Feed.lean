import Mathlib.Algebra.Order.Monoid.Canonical.Defs
import Mathlib.Algebra.Group.Basic
import Mathlib.Algebra.Group.Hom.Defs
import Mathlib.Tactic.Abel

/-!
# Running through a list of inputs

`feed step s inputs` gives a system its inputs one after another and collects the outputs; it stops
with nothing when a step is impossible. `Throughout φ` asks for `φ` before every step of such a run.
A `Ledger` keeps books over the steps: what was gained, what was spent, what is held, and what a
step loses track of. When every step balances, so does a run.
-/

namespace CLang

variable {σ ι ε : Type*}

/-- The outputs of the steps in order, and the last state. -/
def feed (step : σ → ι → Option (ε × σ)) : σ → List ι → Option (List ε × σ)
  | s, [] => some ([], s)
  | s, i :: rest =>
    match step s i with
    | none => none
    | some (e, s') => (feed step s' rest).map fun r => (e :: r.1, r.2)

/-- `φ` holds before every step of the run. -/
def Throughout (step : σ → ι → Option (ε × σ)) (φ : σ → ι → Prop) : σ → List ι → Prop
  | _, [] => True
  | s, i :: rest => φ s i ∧ ∀ e s', step s i = some (e, s') → Throughout step φ s' rest

variable {step : σ → ι → Option (ε × σ)} {φ ψ : σ → ι → Prop} {s s' s'' : σ} {i : ι} {e : ε}
  {is js : List ι} {es fs : List ε}

/-! ## One step after another -/

@[simp] theorem feed_nil : feed step s [] = some ([], s) := rfl

theorem feed_cons (h : step s i = some (e, s')) :
    feed step s (i :: is) = (feed step s' is).map fun r => (e :: r.1, r.2) := by
  rw [feed, h]

theorem feed_cons_of_none (h : step s i = none) : feed step s (i :: is) = none := by
  rw [feed, h]

/-- The runs on a non-empty list, by their first step. -/
theorem feed_cons_eq_some_iff :
    feed step s (i :: is) = some (es, s'') ↔
      ∃ e s' es', step s i = some (e, s') ∧ feed step s' is = some (es', s'') ∧ es = e :: es' := by
  rcases hstep : step s i with _ | ⟨e, s'⟩
  · rw [feed_cons_of_none hstep]
    simp
  · rw [feed_cons hstep, Option.map_eq_some_iff]
    constructor
    · rintro ⟨⟨es', s₁⟩, hrest, heq⟩
      obtain ⟨rfl, rfl⟩ := Prod.mk.inj heq
      exact ⟨e, s', es', rfl, hrest, rfl⟩
    · rintro ⟨e₁, s₁, es', heq, hrest, rfl⟩
      obtain ⟨rfl, rfl⟩ := Prod.mk.inj (Option.some.inj heq)
      exact ⟨(es', s''), hrest, rfl⟩

/-- A run on one list and then on another. -/
theorem feed_append (h : feed step s is = some (es, s')) (h' : feed step s' js = some (fs, s'')) :
    feed step s (is ++ js) = some (es ++ fs, s'') := by
  induction is generalizing s es with
  | nil =>
    obtain ⟨rfl, rfl⟩ := Prod.mk.inj (Option.some.inj h)
    exact h'
  | cons i is ih =>
    obtain ⟨e, s₁, es', hstep, hrest, rfl⟩ := feed_cons_eq_some_iff.mp h
    exact feed_cons_eq_some_iff.mpr ⟨e, s₁, es' ++ fs, hstep, ih hrest, rfl⟩

/-- A run on one list, and none on the other. -/
theorem feed_append_none (h : feed step s is = some (es, s')) (h' : feed step s' js = none) :
    feed step s (is ++ js) = none := by
  induction is generalizing s es with
  | nil =>
    obtain ⟨rfl, rfl⟩ := Prod.mk.inj (Option.some.inj h)
    exact h'
  | cons i is ih =>
    obtain ⟨e, s₁, es', hstep, hrest, rfl⟩ := feed_cons_eq_some_iff.mp h
    rw [List.cons_append, feed_cons hstep, ih hrest]
    rfl

/-- A run goes through when every step can be taken. -/
theorem feed_isSome_iff :
    (feed step s is).isSome ↔ Throughout step (fun s i => (step s i).isSome) s is := by
  induction is generalizing s with
  | nil => simp [Throughout]
  | cons i is ih =>
    rcases hstep : step s i with _ | ⟨e, s'⟩
    · simp [feed_cons_of_none hstep, Throughout, hstep]
    · simp [feed_cons hstep, Throughout, hstep, ih]

theorem throughout_and :
    Throughout step (fun s i => φ s i ∧ ψ s i) s is ↔
      Throughout step φ s is ∧ Throughout step ψ s is := by
  induction is generalizing s with
  | nil => simp [Throughout]
  | cons i is ih =>
    simp only [Throughout, ih]
    constructor
    · rintro ⟨⟨hφ, hψ⟩, hrest⟩
      exact ⟨⟨hφ, fun e s' h => (hrest e s' h).1⟩, hψ, fun e s' h => (hrest e s' h).2⟩
    · rintro ⟨⟨hφ, hrestφ⟩, hψ, hrestψ⟩
      exact ⟨⟨hφ, hψ⟩, fun e s' h => ⟨hrestφ e s' h, hrestψ e s' h⟩⟩

/-! ## A second system in step with the first -/

/-- **The simulation rule**: a second system `step'` takes each input along with the first one, and
`φ` tells from its state whether the first one takes the input well. Then the first one takes all
its inputs well exactly when `φ` holds throughout the run of the second. -/
theorem feed_simulated {τ ε' : Type*} {step' : τ → ι → Option (ε' × τ)} {R : σ → τ → Prop}
    {good : ε → Prop} {φ : τ → ι → Prop} {t : τ}
    (hgood : ∀ {s t i}, R s t → φ t i → ∃ e s' e' t',
      step s i = some (e, s') ∧ good e ∧ step' t i = some (e', t') ∧ R s' t')
    (hbad : ∀ {s t i}, R s t → ¬ φ t i → step s i = none) (h : R s t) :
    (∃ es s', feed step s is = some (es, s') ∧ ∀ e ∈ es, good e) ↔ Throughout step' φ t is := by
  induction is generalizing s t with
  | nil => simp [Throughout]
  | cons i is ih =>
    by_cases hφ : φ t i
    · obtain ⟨e, s₁, e', t₁, htake, he, htake', hR⟩ := hgood h hφ
      constructor
      · rintro ⟨es, s', hrun, hes⟩
        obtain ⟨e₁, s₂, es', htake₁, hrest, rfl⟩ := feed_cons_eq_some_iff.mp hrun
        -- both runs begin with the one step there is
        obtain ⟨rfl, rfl⟩ := Prod.mk.inj (Option.some.inj (htake.symm.trans htake₁))
        refine ⟨hφ, fun e₂ t₂ htake₂ => ?_⟩
        obtain ⟨rfl, rfl⟩ := Prod.mk.inj (Option.some.inj (htake'.symm.trans htake₂))
        exact (ih hR).mp ⟨es', s', hrest, fun f hf => hes f (List.mem_cons_of_mem _ hf)⟩
      · rintro ⟨-, hrest⟩
        obtain ⟨es, s', hrun, hes⟩ := (ih hR).mpr (hrest e' t₁ htake')
        exact ⟨e :: es, s', feed_cons_eq_some_iff.mpr ⟨e, s₁, es, htake, hrun, rfl⟩,
          List.forall_mem_cons.mpr ⟨he, hes⟩⟩
    · rw [Throughout, feed_cons_of_none (hbad h hφ)]
      simp [hφ]

/-! ## Keeping books -/

/-- What a system of steps does with what it owns. -/
structure Ledger (σ ι M : Type*) where
  /-- Everything taken in so far. -/
  gained : σ → M
  /-- Everything given back so far. -/
  spent : σ → M
  /-- What is accounted for now. -/
  held : σ → M
  /-- What a step drops without giving it back. -/
  lost : σ → ι → M

namespace Ledger

variable {M : Type*} [AddCommMonoid M] {L : Ledger σ ι M}

/-- The books balance over a step. -/
def Balances (L : Ledger σ ι M) (s : σ) (i : ι) (s' : σ) : Prop :=
  L.gained s' + (L.spent s + L.held s) = L.gained s + (L.spent s' + L.held s' + L.lost s i)

/-- What the steps of a run drop. -/
def lostOver (L : Ledger σ ι M) (step : σ → ι → Option (ε × σ)) : σ → List ι → M
  | _, [] => 0
  | s, i :: rest =>
    L.lost s i +
      match step s i with
      | none => 0
      | some (_, s') => L.lostOver step s' rest

theorem lostOver_cons (h : step s i = some (e, s')) :
    L.lostOver step s (i :: is) = L.lost s i + L.lostOver step s' is := by
  rw [lostOver, h]

/-- **The books of a run**: when every step balances, what was gained was spent, is held or was
lost on the way. -/
theorem feed_balances {M : Type*} [AddCancelCommMonoid M] {L : Ledger σ ι M} {I : σ → Prop}
    (hstep : ∀ {s i e s'}, I s → step s i = some (e, s') → I s')
    (hbal : ∀ {s i e s'}, I s → step s i = some (e, s') → L.Balances s i s') (hs : I s)
    (h : feed step s is = some (es, s')) :
    L.gained s' + (L.spent s + L.held s) =
      L.gained s + (L.spent s' + L.held s' + L.lostOver step s is) := by
  induction is generalizing s es with
  | nil =>
    obtain ⟨rfl, rfl⟩ := Prod.mk.inj (Option.some.inj h)
    rw [lostOver, add_zero]
  | cons i is ih =>
    obtain ⟨e, s₁, es', htake, hrest, rfl⟩ := feed_cons_eq_some_iff.mp h
    have hfirst := hbal hs htake
    have hlater := ih (hstep hs htake) hrest
    rw [lostOver_cons htake]
    -- what the books say between the two cancels
    apply add_left_cancel (a := L.gained s₁ + (L.spent s₁ + L.held s₁))
    calc L.gained s₁ + (L.spent s₁ + L.held s₁) + (L.gained s' + (L.spent s + L.held s))
      _ = L.gained s₁ + (L.spent s + L.held s) + (L.gained s' + (L.spent s₁ + L.held s₁)) := by
        abel
      _ = L.gained s + (L.spent s₁ + L.held s₁ + L.lost s i) +
          (L.gained s₁ + (L.spent s' + L.held s' + L.lostOver step s₁ is)) := by
        rw [hfirst, hlater]
      _ = L.gained s₁ + (L.spent s₁ + L.held s₁) +
          (L.gained s + (L.spent s' + L.held s' + (L.lost s i + L.lostOver step s₁ is))) := by
        abel

/-- A run loses nothing when no step does. -/
theorem lostOver_eq_zero_iff [PartialOrder M] [CanonicallyOrderedAdd M]
    (h : feed step s is = some (es, s')) :
    L.lostOver step s is = 0 ↔ Throughout step (fun s i => L.lost s i = 0) s is := by
  induction is generalizing s es with
  | nil => simp [lostOver, Throughout]
  | cons i is ih =>
    obtain ⟨e, s₁, es', htake, hrest, rfl⟩ := feed_cons_eq_some_iff.mp h
    rw [lostOver_cons htake, add_eq_zero]
    simp [Throughout, htake, ih hrest]

/-- A part of the resources that every loss shows in: a run that loses none of it loses nothing. -/
theorem lostOver_eq_zero_of_map {N : Type*} [AddCommMonoid N] [PartialOrder N]
    [CanonicallyOrderedAdd N] (g : M →+ N) (hg : ∀ s i, g (L.lost s i) = 0 → L.lost s i = 0)
    (h : feed step s is = some (es, s')) (hzero : g (L.lostOver step s is) = 0) :
    L.lostOver step s is = 0 := by
  induction is generalizing s es with
  | nil => rfl
  | cons i is ih =>
    obtain ⟨e, s₁, es', htake, hrest, rfl⟩ := feed_cons_eq_some_iff.mp h
    rw [lostOver_cons htake, map_add, add_eq_zero] at hzero
    rw [lostOver_cons htake, hg s i hzero.1, ih hrest hzero.2, add_zero]

end Ledger

end CLang
