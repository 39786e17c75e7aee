import FcgiJwtAuth.CLang.Keeps
import FcgiJwtAuth.CLang.Prog

/-!
# Transcripts

A program that runs and returns has gone along one of its control paths. The transcript of the run
is that path: the calls, each made in the state that those in front of it have left. So what holds
of every path, by `wp`, holds of what was really called, and what every call preserves holds
behind it.
-/

namespace CLang

universe u v w

namespace Prog

variable {C : Type w} {A : C → Type u} {α : Type u} {σ : Type v}

/-- With its calls answered as listed the program returns `a`. -/
inductive Ends : Prog C A α → List (Answered C A) → α → Prop
  | ret (a : α) : Ends (ret a) [] a
  | call {c : C} {next : A c → Prog C A α} {r : A c} {l : List (Answered C A)} {a : α}
    (h : Ends (next r) l a) : Ends (call c next) (⟨c, r⟩ :: l) a

/-- Made one after the other from `s`, the calls return what is listed, and leave `s'`. -/
inductive Plays (answer : ∀ c, Exec σ (A c)) : σ → List (Answered C A) → σ → Prop
  | nil (s : σ) : Plays answer s [] s
  | cons {s s₁ s' : σ} {c : C} {r : A c} {l : List (Answered C A)}
    (hcall : (answer c).run s = (.ret r, s₁)) (hrest : Plays answer s₁ l s') :
    Plays answer s (⟨c, r⟩ :: l) s'

variable {answer : ∀ c, Exec σ (A c)} {p : Prog C A α} {a : α} {s s' : σ}
  {l l' : List (Answered C A)} {c : C} {r : A c}

/-- **A run is a transcript**: the program returns exactly when one of its paths can be played. -/
theorem interp_run_iff :
    (p.interp answer).run s = (.ret a, s') ↔ ∃ l, p.Ends l a ∧ Plays answer s l s' := by
  induction p generalizing s with
  | ret b =>
    constructor
    · intro h
      obtain ⟨hret, rfl⟩ := Prod.mk.inj h
      obtain rfl := Outcome.ret.inj hret
      exact ⟨[], .ret b, .nil s⟩
    · rintro ⟨l, hends, hplays⟩
      cases hends
      cases hplays
      rfl
  | undefined =>
    constructor
    · intro h
      cases (Prod.mk.inj h).1
    · rintro ⟨l, hends, -⟩
      cases hends
  | call c next ih =>
    constructor
    · intro h
      have h : (answer c >>= fun r => interp answer (next r)).run s = (.ret a, s') := h
      rcases hcall : (answer c).run s with ⟨r | e | _, s₁⟩
      · rw [Exec.bind_ret hcall] at h
        obtain ⟨l, hends, hplays⟩ := (ih r).mp h
        exact ⟨⟨c, r⟩ :: l, .call hends, .cons hcall hplays⟩
      · rw [Exec.bind_throws hcall] at h
        cases (Prod.mk.inj h).1
      · rw [Exec.bind_undefined hcall] at h
        cases (Prod.mk.inj h).1
    · rintro ⟨l, hends, hplays⟩
      cases hends with
      | call hends =>
        cases hplays with
        | cons hcall hplays =>
          show (answer c >>= fun r => interp answer (next r)).run s = (.ret a, s')
          rw [Exec.bind_ret hcall]
          exact (ih _).mpr ⟨_, hends, hplays⟩

/-- A call on a path is made behind those in front of it. -/
theorem Ends.makes (h : p.Ends (l ++ ⟨c, r⟩ :: l') a) : p.Makes l c := by
  induction p generalizing l with
  | ret b => cases l <;> cases h
  | undefined => cases h
  | call c' next ih =>
    cases l with
    | nil =>
      cases h with
      | call h => exact .here _ _
    | cons first l =>
      cases h with
      | call h => exact .later (ih _ h)

/-! ## Programs that make calls of one kind alone -/

/-- Every call satisfies `φ`. -/
def Calls (φ : C → Prop) : Prog C A α → Prop
  | ret _ => True
  | undefined => True
  | call c next => φ c ∧ ∀ r, Calls φ (next r)

section Calls

variable {φ : C → Prop} {β : Type u}

theorem calls_pure (b : β) : Calls φ (pure b : Prog C A β) := trivial

theorem calls_perform (h : φ c) : Calls φ (perform c : Prog C A (A c)) := ⟨h, fun _ => trivial⟩

theorem Calls.bind {f : α → Prog C A β} (hp : Calls φ p) (hf : ∀ a, Calls φ (f a)) :
    Calls φ (p >>= f) := by
  induction p with
  | ret a => exact hf a
  | undefined => trivial
  | call c next ih => exact ⟨hp.1, fun r => ih r (hp.2 r)⟩

/-- If they are all allowed, so are the paths. -/
theorem Calls.wp {allowed : List (Answered C A) → C → Prop} {before : List (Answered C A)}
    (hp : Calls φ p) (h : ∀ l c, φ c → allowed l c) : p.wp allowed (fun _ _ => True) before := by
  induction p generalizing before with
  | ret a => trivial
  | undefined => trivial
  | call c next ih => exact ⟨h _ c hp.1, fun r => ih r (hp.2 r)⟩

end Calls

/-! ## Transcripts in parts -/

/-- A transcript, cut in two. -/
theorem plays_append_iff :
    Plays answer s (l ++ l') s' ↔ ∃ s₁, Plays answer s l s₁ ∧ Plays answer s₁ l' s' := by
  induction l generalizing s with
  | nil =>
    constructor
    · exact fun h => ⟨s, .nil s, h⟩
    · rintro ⟨s₁, hnil, h⟩
      cases hnil
      exact h
  | cons first l ih =>
    constructor
    · rintro (_ | ⟨hcall, hrest⟩)
      obtain ⟨s₁, hl, hl'⟩ := ih.mp hrest
      exact ⟨s₁, .cons hcall hl, hl'⟩
    · rintro ⟨s₁, _ | ⟨hcall, hrest⟩, hl'⟩
      exact .cons hcall (ih.mpr ⟨s₁, hrest, hl'⟩)

/-- A call of the transcript, and the states around it. -/
theorem Plays.split (h : Plays answer s (l ++ ⟨c, r⟩ :: l') s') :
    ∃ s₁ s₂, Plays answer s l s₁ ∧ (answer c).run s₁ = (.ret r, s₂) ∧ Plays answer s₂ l' s' := by
  obtain ⟨s₁, hl, hrest⟩ := plays_append_iff.mp h
  cases hrest with
  | cons hcall hl' => exact ⟨s₁, _, hl, hcall, hl'⟩

section Invariant

variable {I : List (Answered C A) → σ → Prop}

theorem Plays.invariant_from {before : List (Answered C A)}
    (hstep : ∀ {before s c r s₁}, I before s → (answer c).run s = (.ret r, s₁) →
      I (before ++ [⟨c, r⟩]) s₁)
    (h : Plays answer s l s') (hinit : I before s) : I (before ++ l) s' := by
  induction h generalizing before with
  | nil s => rwa [List.append_nil]
  | cons hcall _ ih =>
    have hrest := ih (hstep hinit hcall)
    rwa [List.append_assoc] at hrest

/-- **What every call preserves**, given the calls in front of it, holds behind a transcript. -/
theorem Plays.invariant
    (hstep : ∀ {before s c r s₁}, I before s → (answer c).run s = (.ret r, s₁) →
      I (before ++ [⟨c, r⟩]) s₁)
    (h : Plays answer s l s') (hinit : I [] s) : I l s' := h.invariant_from hstep hinit

end Invariant

/-- What every call keeps, the transcript keeps. -/
theorem Plays.keeps {I : σ → Prop} (hcalls : ∀ c, (answer c).Keeps I)
    (h : Plays answer s l s') (hinit : I s) : I s' := by
  refine h.invariant (I := fun _ => I) (fun {before s c r s₁} hI hcall => ?_) hinit
  have hkept := hcalls c s hI
  rwa [hcall] at hkept

/-- **What every call keeps, the program keeps**, however it ends. -/
theorem keeps_interp {I : σ → Prop} (hcalls : ∀ c, (answer c).Keeps I) (p : Prog C A α) :
    (p.interp answer).Keeps I := by
  induction p with
  | ret a => exact Exec.keeps_pure a
  | undefined => exact fun _ h => h
  | call c next ih => exact (hcalls c).bind ih

end Prog

end CLang
