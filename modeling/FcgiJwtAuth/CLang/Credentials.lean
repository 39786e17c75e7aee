import Mathlib.Data.List.Basic

/-!
# The identity of a process

Real, effective and saved ids, and the supplementary groups, with the calls that change them. A
process whose effective user is 0 may become anyone. A process that is one user three times over,
and not user 0, stays what it is whatever it calls.
-/

namespace CLang

/-- Who a process runs as. -/
structure Credentials where
  realUser : ℕ
  effectiveUser : ℕ
  savedUser : ℕ
  realGroup : ℕ
  effectiveGroup : ℕ
  savedGroup : ℕ
  groups : List ℕ
  deriving DecidableEq

namespace Credentials

/-- One user and one group, with these supplementary groups. -/
def of (uid gid : ℕ) (groups : List ℕ) : Credentials := ⟨uid, uid, uid, gid, gid, gid, groups⟩

/-- `setuid`; `none` is a refusal. -/
def setuid (c : Credentials) (uid : ℕ) : Option Credentials :=
  if c.effectiveUser = 0 then
    some { c with realUser := uid, effectiveUser := uid, savedUser := uid }
  else if uid = c.realUser ∨ uid = c.savedUser then some { c with effectiveUser := uid }
  else none

/-- `setgid`. -/
def setgid (c : Credentials) (gid : ℕ) : Option Credentials :=
  if c.effectiveUser = 0 then
    some { c with realGroup := gid, effectiveGroup := gid, savedGroup := gid }
  else if gid = c.realGroup ∨ gid = c.savedGroup then some { c with effectiveGroup := gid }
  else none

/-- `setgroups`. -/
def setgroups (c : Credentials) (groups : List ℕ) : Option Credentials :=
  if c.effectiveUser = 0 then some { c with groups := groups } else none

/-- An id is one that the process has. -/
def OwnUser (c : Credentials) (uid : ℕ) : Prop :=
  uid = c.realUser ∨ uid = c.effectiveUser ∨ uid = c.savedUser

def OwnGroup (c : Credentials) (gid : ℕ) : Prop :=
  gid = c.realGroup ∨ gid = c.effectiveGroup ∨ gid = c.savedGroup

instance (c : Credentials) (uid : ℕ) : Decidable (c.OwnUser uid) := by
  unfold OwnUser
  infer_instance

instance (c : Credentials) (gid : ℕ) : Decidable (c.OwnGroup gid) := by
  unfold OwnGroup
  infer_instance

/-- `setresuid`, of which `seteuid` and `setreuid` are cases. -/
def setresuid (c : Credentials) (r e s : ℕ) : Option Credentials :=
  if c.effectiveUser = 0 ∨ c.OwnUser r ∧ c.OwnUser e ∧ c.OwnUser s then
    some { c with realUser := r, effectiveUser := e, savedUser := s }
  else none

/-- `setresgid`. -/
def setresgid (c : Credentials) (r e s : ℕ) : Option Credentials :=
  if c.effectiveUser = 0 ∨ c.OwnGroup r ∧ c.OwnGroup e ∧ c.OwnGroup s then
    some { c with realGroup := r, effectiveGroup := e, savedGroup := s }
  else none

/-- The calls. -/
inductive Call
  | setuid (uid : ℕ)
  | setgid (gid : ℕ)
  | setgroups (groups : List ℕ)
  | setresuid (r e s : ℕ)
  | setresgid (r e s : ℕ)

/-- A call that is refused changes nothing. -/
def call (c : Credentials) : Call → Credentials
  | .setuid uid => (c.setuid uid).getD c
  | .setgid gid => (c.setgid gid).getD c
  | .setgroups groups => (c.setgroups groups).getD c
  | .setresuid r e s => (c.setresuid r e s).getD c
  | .setresgid r e s => (c.setresgid r e s).getD c

/-- Several calls. -/
def perform (c : Credentials) (calls : List Call) : Credentials := calls.foldl call c

variable {c : Credentials} {uid gid : ℕ} {groups : List ℕ}

theorem ownUser_of_iff {u : ℕ} : (of uid gid groups).OwnUser u ↔ u = uid := by
  simp [OwnUser, of]

theorem ownGroup_of_iff {g : ℕ} : (of uid gid groups).OwnGroup g ↔ g = gid := by
  simp [OwnGroup, of]

/-- **One call** of a process that is one user, other than 0. -/
theorem call_of (huid : uid ≠ 0) (k : Call) :
    (of uid gid groups).call k = of uid gid groups := by
  have heffective : (of uid gid groups).effectiveUser ≠ 0 := huid
  cases k with
  | setuid u =>
    rw [call, setuid, if_neg heffective]
    split_ifs with hown
    · obtain rfl : u = uid := hown.elim id id
      rfl
    · rfl
  | setgid g =>
    rw [call, setgid, if_neg heffective]
    split_ifs with hown
    · obtain rfl : g = gid := hown.elim id id
      rfl
    · rfl
  | setgroups gs =>
    rw [call, setgroups, if_neg heffective]
    rfl
  | setresuid r e s =>
    rw [call, setresuid]
    split_ifs with hown
    · obtain ⟨hr, he, hs⟩ := hown.resolve_left heffective
      rw [ownUser_of_iff] at hr he hs
      subst hr he hs
      rfl
    · rfl
  | setresgid r e s =>
    rw [call, setresgid]
    split_ifs with hown
    · obtain ⟨hr, he, hs⟩ := hown.resolve_left heffective
      rw [ownGroup_of_iff] at hr he hs
      subst hr he hs
      rfl
    · rfl

/-- **It never changes again.** -/
theorem perform_of (huid : uid ≠ 0) (calls : List Call) :
    (of uid gid groups).perform calls = of uid gid groups := by
  induction calls with
  | nil => rfl
  | cons k rest ih =>
    have hstep : (of uid gid groups).perform (k :: rest) =
      ((of uid gid groups).call k).perform rest := rfl
    rw [hstep, call_of huid, ih]

/-! ## Becoming someone -/

theorem setgroups_of_root (h : c.effectiveUser = 0) :
    c.setgroups groups = some { c with groups := groups } := if_pos h

theorem setgid_of_root (h : c.effectiveUser = 0) :
    c.setgid gid =
      some { c with realGroup := gid, effectiveGroup := gid, savedGroup := gid } := if_pos h

theorem setuid_of_root (h : c.effectiveUser = 0) :
    c.setuid uid =
      some { c with realUser := uid, effectiveUser := uid, savedUser := uid } := if_pos h

end Credentials

end CLang
