import Mathlib.Data.List.Basic
import Mathlib.Order.Defs.PartialOrder
import FcgiJwtAuth.CLang.Feed

/-!
# Runs and what holds of all their steps

A system takes one step for each input; a step may be impossible, and then the run ends before it.
A run is recorded as its history: the steps taken, most recent first, each with the state before it,
its input, its output and the state after it. `Everywhere φ` says that `φ` holds of every step,
given the steps before it. `Run.invariant` and `Run.everywhere_congr` are the two induction rules:
an invariant of history and state, and two properties of steps that agree under one.
-/

namespace CLang

variable {σ ι ε : Type*}

/-- One step of a run. -/
structure Step (σ ι ε : Type*) where
  pre : σ
  input : ι
  output : ε
  post : σ

/-- The runs of a step function from `s₀`, by their history and the state they end in. -/
inductive Run (step : σ → ι → Option (ε × σ)) (s₀ : σ) : List (Step σ ι ε) → σ → Prop
  | nil : Run step s₀ [] s₀
  | cons {h : List (Step σ ι ε)} {s s' : σ} {i : ι} {e : ε} :
    Run step s₀ h s → step s i = some (e, s') → Run step s₀ (⟨s, i, e, s'⟩ :: h) s'

/-- `φ earlier st` holds of every step `st` of the history with the steps `earlier` before it. -/
def Everywhere (φ : List (Step σ ι ε) → Step σ ι ε → Prop) : List (Step σ ι ε) → Prop
  | [] => True
  | st :: earlier => φ earlier st ∧ Everywhere φ earlier

variable {step : σ → ι → Option (ε × σ)} {s₀ s s' : σ} {h : List (Step σ ι ε)}
  {is : List ι} {es : List ε} {A φ ψ : List (Step σ ι ε) → Step σ ι ε → Prop}
  {I : List (Step σ ι ε) → σ → Prop}

/-- Inputs that can be fed to a state that was reached are the rest of a run. -/
theorem Run.exists_of_feed (hrun : Run step s₀ h s) (hfeed : feed step s is = some (es, s')) :
    ∃ h', Run step s₀ (h' ++ h) s' ∧ h'.map Step.input = is.reverse := by
  induction is generalizing s h es with
  | nil =>
    obtain ⟨-, rfl⟩ := Prod.mk.inj (Option.some.inj hfeed)
    exact ⟨[], hrun, rfl⟩
  | cons i is ih =>
    obtain ⟨e, s₁, es', hstep, hrest, -⟩ := feed_cons_eq_some_iff.mp hfeed
    obtain ⟨h', hrun', hinputs⟩ := ih (hrun.cons hstep) hrest
    refine ⟨h' ++ [⟨s, i, e, s₁⟩], ?_, ?_⟩
    · rwa [List.append_assoc]
    · rw [List.map_append, hinputs, List.reverse_cons]
      rfl

/-- What holds of every step, whatever came before it. -/
theorem everywhere_of_forall (hall : ∀ earlier st, φ earlier st) (h : List (Step σ ι ε)) :
    Everywhere φ h := by
  induction h with
  | nil => trivial
  | cons st earlier ih => exact ⟨hall earlier st, ih⟩

/-- **The invariant rule**, for runs whose steps are all admissible. -/
theorem Run.invariant (hinit : I [] s₀)
    (hstep : ∀ {earlier s i e s'}, I earlier s → step s i = some (e, s') →
      A earlier ⟨s, i, e, s'⟩ → I (⟨s, i, e, s'⟩ :: earlier) s')
    (hrun : Run step s₀ h s) (hadm : Everywhere A h) : I h s := by
  induction hrun with
  | nil => exact hinit
  | cons _ htake ih => exact hstep (ih hadm.2) htake hadm.1

/-- What follows at each step follows everywhere. -/
theorem Everywhere.imp (himp : ∀ earlier st, φ earlier st → ψ earlier st) (hφ : Everywhere φ h) :
    Everywhere ψ h := by
  induction h with
  | nil => trivial
  | cons st earlier ih => exact ⟨himp earlier st hφ.1, ih hφ.2⟩

/-- **What an invariant gives of each step** holds everywhere, in runs whose steps are all
admissible. -/
theorem Run.everywhere_of_adm (hinit : I [] s₀)
    (hstep : ∀ {earlier s i e s'}, I earlier s → step s i = some (e, s') →
      A earlier ⟨s, i, e, s'⟩ → I (⟨s, i, e, s'⟩ :: earlier) s')
    (hφ : ∀ {earlier s i e s'}, I earlier s → step s i = some (e, s') →
      A earlier ⟨s, i, e, s'⟩ → φ earlier ⟨s, i, e, s'⟩)
    (hrun : Run step s₀ h s) (hadm : Everywhere A h) : Everywhere φ h := by
  induction hrun with
  | nil => trivial
  | cons hearlier htake ih =>
    have hI := hearlier.invariant hinit hstep hadm.2
    exact ⟨hφ hI htake hadm.1, ih hadm.2⟩

/-- And in all runs, if it needs nothing of the steps. -/
theorem Run.everywhere (hinit : I [] s₀)
    (hstep : ∀ {earlier s i e s'}, I earlier s → step s i = some (e, s') →
      I (⟨s, i, e, s'⟩ :: earlier) s')
    (hφ : ∀ {earlier s i e s'}, I earlier s → step s i = some (e, s') → φ earlier ⟨s, i, e, s'⟩)
    (hrun : Run step s₀ h s) : Everywhere φ h :=
  hrun.everywhere_of_adm (A := fun _ _ => True) hinit (fun hI htake _ => hstep hI htake)
    (fun hI htake _ => hφ hI htake) (everywhere_of_forall (fun _ _ => trivial) h)

/-- **Two properties of steps that agree under an invariant** hold everywhere together. -/
theorem Run.everywhere_congr (hinit : I [] s₀)
    (hstep : ∀ {earlier s i e s'}, I earlier s → step s i = some (e, s') →
      A earlier ⟨s, i, e, s'⟩ → I (⟨s, i, e, s'⟩ :: earlier) s')
    (hiff : ∀ {earlier s i e s'}, I earlier s → step s i = some (e, s') →
      A earlier ⟨s, i, e, s'⟩ → (φ earlier ⟨s, i, e, s'⟩ ↔ ψ earlier ⟨s, i, e, s'⟩))
    (hrun : Run step s₀ h s) (hadm : Everywhere A h) : Everywhere φ h ↔ Everywhere ψ h := by
  induction hrun with
  | nil => exact Iff.rfl
  | cons hearlier htake ih =>
    have hI := hearlier.invariant hinit hstep hadm.2
    exact and_congr (hiff hI htake hadm.1) (ih hadm.2)

/-- Two properties that agree of every step that can be taken. -/
theorem Run.everywhere_congr_step
    (hiff : ∀ {earlier s i e s'}, step s i = some (e, s') →
      (φ earlier ⟨s, i, e, s'⟩ ↔ ψ earlier ⟨s, i, e, s'⟩))
    (hrun : Run step s₀ h s) : Everywhere φ h ↔ Everywhere ψ h :=
  Run.everywhere_congr (I := fun _ _ => True) (A := fun _ _ => True) trivial
    (fun _ _ _ => trivial) (fun _ htake _ => hiff htake) hrun
    (everywhere_of_forall (fun _ _ => trivial) h)

/-! ## The most recent step of a kind -/

/-- The most recent step that satisfies `p`. -/
def latest (p : Step σ ι ε → Bool) (h : List (Step σ ι ε)) : Option (Step σ ι ε) := h.find? p

variable {p : Step σ ι ε → Bool} {st f : Step σ ι ε}

@[simp] theorem latest_nil : latest p ([] : List (Step σ ι ε)) = none := rfl

theorem latest_cons_of_pos (hp : p st = true) : latest p (st :: h) = some st :=
  List.find?_cons_of_pos hp

theorem latest_cons_of_neg (hp : p st = false) : latest p (st :: h) = latest p h :=
  List.find?_cons_of_neg (by simp [hp])

theorem mem_of_latest (hf : latest p h = some f) : f ∈ h := List.mem_of_find?_eq_some hf

theorem prop_of_latest (hf : latest p h = some f) : p f = true := List.find?_some hf

/-- Steps that come in order of a clock: no step before the most recent one of a kind is later. -/
theorem le_latest {τ : Type*} [Preorder τ] {time : Step σ ι ε → τ}
    (hclock : Everywhere (fun earlier st => ∀ f ∈ earlier, time f ≤ time st) h)
    (hst : st ∈ h) (hp : p st = true) : ∃ f, latest p h = some f ∧ time st ≤ time f := by
  induction h with
  | nil => simp at hst
  | cons g earlier ih =>
    by_cases hg : p g = true
    · refine ⟨g, latest_cons_of_pos hg, ?_⟩
      rcases List.mem_cons.mp hst with rfl | hmem
      · exact le_refl _
      · exact hclock.1 st hmem
    · have hg' : p g = false := by simpa using hg
      have hmem : st ∈ earlier := by
        rcases List.mem_cons.mp hst with rfl | hmem
        · exact absurd hp hg
        · exact hmem
      obtain ⟨f, hf, hle⟩ := ih hclock.2 hmem
      exact ⟨f, (latest_cons_of_neg hg').trans hf, hle⟩

end CLang
