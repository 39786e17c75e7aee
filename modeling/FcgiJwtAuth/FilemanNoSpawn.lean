import FcgiJwtAuth.CLang.CString
import FcgiJwtAuth.CLang.Credentials
import FcgiJwtAuth.CLang.Run

/-!
# The file manager's daemon

`main` of `filemannospawn` opens its socket as root, gives up its privileges, installs its signal
handlers and serves requests until a signal comes or accepting fails. It is a machine that takes one
system call after the other, any of which may fail, while a signal may arrive in front of each.
-/

namespace FcgiJwtAuth

open CLang

namespace FilemanNoSpawn

/-! ## The command line -/

/-- A result of `getopt_long`. -/
inductive GetoptResult
  | user (optarg : CStr)
  | group (optarg : CStr)
  | noDrop
  | unknown

/-- The variables that the loop over the options sets. -/
structure Options where
  username : Option CStr := none
  groupname : Option CStr := none
  dropPrivileges : Bool := true

/-- The loop; `none` is the way out for an option that is not known. -/
def readOptions (o : Options) : List GetoptResult → Option Options
  | [] => some o
  | .user optarg :: rest => readOptions { o with username := some optarg } rest
  | .group optarg :: rest => readOptions { o with groupname := some optarg } rest
  | .noDrop :: rest => readOptions { o with dropPrivileges := false } rest
  | .unknown :: _ => none

/-- The user and group databases. -/
structure Accounts where
  /-- `getpwnam(name)->pw_uid`. -/
  uidOf : Bytes → Option ℕ
  /-- `getgrnam(name)->gr_gid`. -/
  gidOf : Bytes → Option ℕ
  /-- The groups that `initgroups(user, group)` sets. -/
  groupsOf : Bytes → ℕ → List ℕ

/-- Whom the process is to become. -/
structure Account where
  uid : ℕ
  gid : ℕ
  groups : List ℕ

def Account.credentials (a : Account) : Credentials := .of a.uid a.gid a.groups

/-- What the command line asks for. -/
structure Target where
  socketPath : CStr
  /-- `none` with `-N`. -/
  account : Option Account

/-- The account that the options name. -/
def lookUp (A : Accounts) (o : Options) : Option Account := do
  let username ← o.username
  let groupname ← o.groupname
  let uid ← A.uidOf username.val
  let gid ← A.gidOf groupname.val
  some ⟨uid, gid, A.groupsOf username.val gid⟩

/-- `main` up to `FCGX_Init`; `none` is a return with `EXIT_FAILURE`. -/
def target (A : Accounts) (c : Credentials) (options : List GetoptResult) (operands : List CStr) :
    Option Target := do
  let o ← readOptions {} options
  let socketPath ← operands.head?
  if o.dropPrivileges then
    if c.effectiveUser = 0 then (lookUp A o).map fun a => ⟨socketPath, some a⟩ else none
  else some ⟨socketPath, none⟩

/-! ## The machine -/

/-- The call that comes next. -/
inductive Stage
  | fcgxInit
  | openSocket
  | chmod
  | chown
  | initgroups
  | setgid
  | setuid
  /-- `geteuid` and `getegid`. -/
  | checkIds
  /-- `application_database_init` and `fileman_init`. -/
  | initialise
  | sigint
  | sigterm
  | initRequest
  /-- The condition of the loop. -/
  | check
  | accept
  | serve
  /-- The `close` behind the loop. -/
  | leave
  | ended
  deriving DecidableEq

/-- The socket in the file system. -/
structure SocketFile where
  owner : ℕ
  group : ℕ
  /-- `none` as it was made. -/
  mode : Option ℕ

inductive Signal
  | int
  | term

/-- The process. -/
structure Process where
  creds : Credentials
  stage : Stage := .fcgxInit
  socket : Option SocketFile := none
  /-- The handlers are installed. -/
  catchesInt : Bool := false
  catchesTerm : Bool := false
  shutdownRequested : Bool := false
  /-- How often `sock_fd` was closed. -/
  closes : ℕ := 0

def Process.catches (p : Process) : Signal → Bool
  | .int => p.catchesInt
  | .term => p.catchesTerm

/-- What happens next. -/
inductive Event
  /-- The call returns, without an error or with one. -/
  | returns (ok : Bool)
  /-- `FCGX_Accept_r` returns. -/
  | accepted (rc : ℤ)
  /-- `fileman_process_request` has made these calls, and returns or throws. -/
  | handled (returned : Bool) (calls : List Credentials.Call)
  | signal (s : Signal)

/-- `return EXIT_FAILURE`, or the end by an exception. -/
def Process.fails (p : Process) : Process := { p with stage := .ended }

/-- `close(sock_fd)`, and `return EXIT_FAILURE`. -/
def Process.closesAndFails (p : Process) : Process :=
  { p with stage := .ended, closes := p.closes + 1 }

def Process.goto (p : Process) (stage : Stage) : Process := { p with stage := stage }

/-- `handle_shutdown`, or the end of the process if the signal has no handler. -/
def Process.receive (p : Process) (s : Signal) : Process :=
  if p.catches s then { p with shutdownRequested := true, closes := p.closes + 1 }
  else { p with stage := .ended }

/-- The call `result` is made of the process; it may fail although it is allowed. -/
def Process.become (p : Process) (ok : Bool) (result : Option Credentials) (next : Stage) :
    Process :=
  match ok, result with
  | true, some c => { p with creds := c, stage := next }
  | _, _ => p.closesAndFails

/-- The system calls of `main`, in order. -/
def call (T : Target) (p : Process) (ok : Bool) : Option Process :=
  match p.stage, T.account with
  | .fcgxInit, _ => some (if ok then p.goto .openSocket else p.fails)
  | .openSocket, _ =>
    some (if ok then
      { p with
        stage := .chmod
        socket := some ⟨p.creds.effectiveUser, p.creds.effectiveGroup, none⟩ }
      else p.fails)
  | .chmod, account =>
    -- the descriptor is left open on the way out
    some (if ok then
      { p with
        stage := if account.isSome then .chown else .initialise
        socket := p.socket.map fun file => { file with mode := some 0o777 } }
      else p.fails)
  | .chown, some a =>
    some (if ok then
      { p with
        stage := .initgroups
        socket := p.socket.map fun file => { file with owner := a.uid, group := a.gid } }
      else p.closesAndFails)
  | .initgroups, some a => some (p.become ok (p.creds.setgroups a.groups) .setgid)
  | .setgid, some a => some (p.become ok (p.creds.setgid a.gid) .setuid)
  | .setuid, some a => some (p.become ok (p.creds.setuid a.uid) .checkIds)
  | .checkIds, some a =>
    some (if p.creds.effectiveUser = a.uid ∧ p.creds.effectiveGroup = a.gid then
      p.goto .initialise else p.closesAndFails)
  -- nobody catches what the constructors of the database throw
  | .initialise, _ => some (if ok then p.goto .sigint else p.fails)
  | .sigint, _ =>
    some (if ok then { p with stage := .sigterm, catchesInt := true } else p.closesAndFails)
  | .sigterm, _ =>
    some (if ok then { p with stage := .initRequest, catchesTerm := true } else p.closesAndFails)
  | .initRequest, _ => some (if ok then p.goto .check else p.closesAndFails)
  | .check, _ => some (p.goto (if p.shutdownRequested then .leave else .accept))
  | .leave, _ => some p.closesAndFails
  | _, _ => none

/-- One step; `none` where the event cannot happen. -/
def step (T : Target) (p : Process) (e : Event) : Option (Unit × Process) :=
  Option.map (fun p' => ((), p')) <|
    match e, p.stage with
    | .returns ok, _ => call T p ok
    | .accepted rc, .accept => some (p.goto (if rc < 0 then .leave else .serve))
    | .handled returned calls, .serve =>
      some { p with
        creds := p.creds.perform calls
        stage := if returned then .check else .ended }
    | .signal s, stage => if stage = .ended then none else some (p.receive s)
    | _, _ => none

abbrev History := List (Step Process Event Unit)

def Event.isHandled : Event → Bool
  | .handled _ _ => true
  | _ => false

/-- The step serves a request. -/
def serves (st : Step Process Event Unit) : Bool := st.input.isHandled

/-! ## What a step does -/

section

variable {T : Target} {p p' : Process} {e : Event} {u : Unit} {a : Account} {ok : Bool}

/-- A step is a system call of `main`, the end of `FCGX_Accept_r` or of a request, or a signal. -/
theorem step_cases (h : step T p e = some (u, p')) :
    (∃ ok, e = .returns ok ∧ call T p ok = some p') ∨
      (∃ rc, e = .accepted rc ∧ p.stage = .accept ∧
        p' = p.goto (if rc < 0 then .leave else .serve)) ∨
      (∃ returned calls, e = .handled returned calls ∧ p.stage = .serve ∧
        p' = { p with
          creds := p.creds.perform calls
          stage := if returned then .check else .ended }) ∨
      (∃ s, e = .signal s ∧ p.stage ≠ .ended ∧ p' = p.receive s) := by
  obtain ⟨p'', hstep, hpair⟩ := Option.map_eq_some_iff.mp h
  obtain rfl := (Prod.mk.inj hpair).2
  cases e with
  | returns ok => exact Or.inl ⟨ok, rfl, hstep⟩
  | accepted rc =>
    cases hstage : p.stage with
    | accept =>
      rw [hstage] at hstep
      exact Or.inr (Or.inl ⟨rc, rfl, rfl, (Option.some.inj hstep).symm⟩)
    | _ =>
      rw [hstage] at hstep
      cases hstep
  | handled returned calls =>
    cases hstage : p.stage with
    | serve =>
      rw [hstage] at hstep
      exact Or.inr (Or.inr (Or.inl ⟨returned, calls, rfl, rfl, (Option.some.inj hstep).symm⟩))
    | _ =>
      rw [hstage] at hstep
      cases hstep
  | signal s =>
    simp only at hstep
    split_ifs at hstep with hended
    exact Or.inr (Or.inr (Or.inr ⟨s, rfl, hended, (Option.some.inj hstep).symm⟩))

/-- A signal leaves the ids and the socket, and the process where it is or ended. -/
theorem receive_cases (p : Process) (s : Signal) :
    p.catches s = true ∧
        p.receive s = { p with shutdownRequested := true, closes := p.closes + 1 } ∨
      p.catches s = false ∧ p.receive s = { p with stage := .ended } := by
  unfold Process.receive
  cases hcatches : p.catches s <;> simp

/-! ## Privileges -/

/-- The ids with which a call is made. -/
def ExpectedIds (a : Account) (c : Credentials) : Stage → Prop
  | .fcgxInit | .openSocket | .chmod | .chown | .initgroups => c.effectiveUser = 0
  | .setgid => c.effectiveUser = 0 ∧ c.groups = a.groups
  | .setuid => c.effectiveUser = 0 ∧ c.groups = a.groups ∧ c.realGroup = a.gid ∧
      c.effectiveGroup = a.gid ∧ c.savedGroup = a.gid
  | .ended => True
  | _ => c = a.credentials

/-- The socket, at that call. -/
def ExpectedSocket (a : Account) (socket : Option SocketFile) : Stage → Prop
  | .fcgxInit | .openSocket | .ended => True
  | .chmod => ∃ file, socket = some file
  | .chown => ∃ file, socket = some file ∧ file.mode = some 0o777
  | _ => socket = some ⟨a.uid, a.gid, some 0o777⟩

/-- The handlers, at that call. -/
def ExpectedHandlers (p : Process) : Stage → Prop
  | .sigterm => p.catchesInt = true
  | .initRequest | .check | .accept | .serve | .leave =>
    p.catchesInt = true ∧ p.catchesTerm = true
  | _ => True

/-- **The invariant of the daemon**, for an account that it is to become. -/
structure Drops (a : Account) (p : Process) : Prop where
  ids : ExpectedIds a p.creds p.stage
  socket : ExpectedSocket a p.socket p.stage
  handlers : ExpectedHandlers p p.stage

theorem drops_ended (h : p.stage = .ended) : Drops a p := by
  refine ⟨?_, ?_, ?_⟩ <;> rw [h] <;> trivial

theorem drops_closesAndFails (p : Process) : Drops a p.closesAndFails := drops_ended rfl

theorem drops_become {c : Credentials} {next : Stage}
    (h : Drops a { p with creds := c, stage := next }) : Drops a (p.become ok (some c) next) := by
  cases ok with
  | true => exact h
  | false => exact drops_closesAndFails p

/-- A system call keeps it. -/
theorem Drops.call (hI : Drops a p) (hT : T.account = some a) (h : call T p ok = some p') :
    Drops a p' := by
  obtain ⟨hids, hsocket, hhandlers⟩ := hI
  unfold FilemanNoSpawn.call at h
  rw [hT] at h
  cases hstage : p.stage
  all_goals rw [hstage] at h hids hsocket hhandlers
  case accept | serve | ended => cases h
  all_goals obtain rfl := Option.some.inj h
  case fcgxInit =>
    cases ok with
    | true => exact ⟨hids, trivial, trivial⟩
    | false => exact drops_ended rfl
  case openSocket =>
    cases ok with
    | true => exact ⟨hids, ⟨_, rfl⟩, trivial⟩
    | false => exact drops_ended rfl
  case chmod =>
    obtain ⟨file, hfile⟩ := hsocket
    cases ok with
    | true => exact ⟨hids, ⟨_, by rw [hfile]; rfl, rfl⟩, trivial⟩
    | false => exact drops_ended rfl
  case chown =>
    obtain ⟨⟨owner, group, mode⟩, hfile, hmode⟩ := hsocket
    obtain rfl : mode = some 0o777 := hmode
    cases ok with
    | true => exact ⟨hids, by rw [hfile]; rfl, trivial⟩
    | false => exact drops_closesAndFails p
  case initgroups =>
    rw [Credentials.setgroups_of_root hids]
    exact drops_become ⟨⟨hids, rfl⟩, hsocket, trivial⟩
  case setgid =>
    rw [Credentials.setgid_of_root hids.1]
    exact drops_become ⟨⟨hids.1, hids.2, rfl, rfl, rfl⟩, hsocket, trivial⟩
  case setuid =>
    obtain ⟨hroot, hgroups, hreal, heffective, hsaved⟩ := hids
    rw [Credentials.setuid_of_root hroot]
    refine drops_become ⟨?_, hsocket, trivial⟩
    show ({ p.creds with realUser := a.uid, effectiveUser := a.uid, savedUser := a.uid } :
      Credentials) = a.credentials
    simp only [Account.credentials, Credentials.of, hgroups, hreal, heffective, hsaved]
  case checkIds =>
    split_ifs
    · exact ⟨hids, hsocket, trivial⟩
    · exact drops_closesAndFails p
  case initialise =>
    cases ok with
    | true => exact ⟨hids, hsocket, trivial⟩
    | false => exact drops_ended rfl
  case sigint =>
    cases ok with
    | true => exact ⟨hids, hsocket, rfl⟩
    | false => exact drops_closesAndFails p
  case sigterm =>
    cases ok with
    | true => exact ⟨hids, hsocket, hhandlers, rfl⟩
    | false => exact drops_closesAndFails p
  case initRequest =>
    cases ok with
    | true => exact ⟨hids, hsocket, hhandlers⟩
    | false => exact drops_closesAndFails p
  case check => cases hshut : p.shutdownRequested <;> exact ⟨hids, hsocket, hhandlers⟩
  case leave => exact drops_closesAndFails p

/-- The calls of a handler leave the ids of the account. -/
theorem Drops.perform (huid : a.uid ≠ 0) (hI : Drops a p) (hstage : p.stage = .serve)
    (calls : List Credentials.Call) : p.creds.perform calls = a.credentials := by
  have hids := hI.ids
  rw [hstage] at hids
  rw [show p.creds = a.credentials from hids]
  exact Credentials.perform_of huid calls

/-- **Every step keeps it**, signals and the calls of the handlers included. -/
theorem Drops.step (huid : a.uid ≠ 0) (hI : Drops a p) (hT : T.account = some a)
    (h : step T p e = some (u, p')) : Drops a p' := by
  rcases step_cases h with ⟨ok, -, hcall⟩ | ⟨rc, -, hstage, rfl⟩ |
    ⟨returned, calls, -, hstage, rfl⟩ | ⟨s, -, -, rfl⟩
  · exact hI.call hT hcall
  · obtain ⟨hids, hsocket, hhandlers⟩ := hI
    rw [hstage] at hids hsocket hhandlers
    split_ifs <;> exact ⟨hids, hsocket, hhandlers⟩
  · have hids := hI.perform huid hstage calls
    obtain ⟨-, hsocket, hhandlers⟩ := hI
    rw [hstage] at hsocket hhandlers
    cases returned with
    | true => exact ⟨hids, hsocket, hhandlers⟩
    | false => exact drops_ended rfl
  · rcases receive_cases p s with ⟨-, hp⟩ | ⟨-, hp⟩
    · rw [hp]
      exact ⟨hI.ids, hI.socket, hI.handlers⟩
    · rw [hp]
      exact drops_ended rfl

/-- The command line of a process that drops its privileges asks for an account of the databases,
and the process is root. -/
theorem target_account {A : Accounts} {c : Credentials} {options : List GetoptResult}
    {operands : List CStr} (h : target A c options operands = some T) (hT : T.account = some a) :
    c.effectiveUser = 0 ∧ ∃ username groupname, A.uidOf username = some a.uid ∧
      A.gidOf groupname = some a.gid ∧ a.groups = A.groupsOf username a.gid := by
  simp only [target, Option.bind_eq_bind, Option.bind_eq_some_iff] at h
  obtain ⟨o, -, socketPath, -, h⟩ := h
  split_ifs at h with hdrop hroot
  · obtain ⟨a', haccount, rfl⟩ := Option.map_eq_some_iff.mp h
    obtain rfl := Option.some.inj hT
    simp only [lookUp, Option.bind_eq_bind, Option.bind_eq_some_iff] at haccount
    obtain ⟨username, -, groupname, -, uid, huid, gid, hgid, ha⟩ := haccount
    obtain rfl := Option.some.inj ha
    exact ⟨hroot, _, _, huid, hgid, rfl⟩
  · obtain rfl := Option.some.inj h
    cases hT

/-- A process that has been started. -/
def started (c : Credentials) : Process := { creds := c }

/-- What holds of the process while it serves a request. -/
structure ServedAs (a : Account) (st : Step Process Event Unit) : Prop where
  before : st.pre.creds = a.credentials
  after : st.post.creds = a.credentials
  socket : st.pre.socket = some ⟨a.uid, a.gid, some 0o777⟩
  handlers : st.pre.catchesInt = true ∧ st.pre.catchesTerm = true

/-- **Requests are served without privileges.** Whatever the command line, whichever calls fail,
whenever signals come, and whatever the handlers of the requests do: with `-U` and `-G` a request is
served, start to end, under the three user and group ids and the groups of the account that they
name, behind a socket that was handed over to it and with both signal handlers installed. -/
theorem served_dropped_run {A : Accounts} {c : Credentials} {options : List GetoptResult}
    {operands : List CStr} (htarget : target A c options operands = some T)
    (hT : T.account = some a) (huid : a.uid ≠ 0) {h : History}
    (hrun : Run (step T) (started c) h p) :
    (∃ username groupname, A.uidOf username = some a.uid ∧ A.gidOf groupname = some a.gid ∧
        a.groups = A.groupsOf username a.gid) ∧
      Everywhere (fun _ st => serves st = true → ServedAs a st) h := by
  obtain ⟨hroot, haccount⟩ := target_account htarget hT
  have hstart : Drops a (started c) := ⟨hroot, trivial, trivial⟩
  refine ⟨haccount, hrun.everywhere (I := fun _ p => Drops a p) hstart
    (fun hI htake => hI.step huid hT htake) ?_⟩
  intro _ p e u p' hI htake hserves
  rcases step_cases htake with ⟨ok, rfl, -⟩ | ⟨rc, rfl, -⟩ | ⟨returned, calls, rfl, hstage, rfl⟩ |
    ⟨s, rfl, -⟩
  · cases hserves
  · cases hserves
  · have hafter := hI.perform huid hstage calls
    obtain ⟨hids, hsocket, hhandlers⟩ := hI
    rw [hstage] at hids hsocket hhandlers
    exact ⟨hids, hafter, hsocket, hhandlers⟩
  · cases hserves

/-! ## Shutting down -/

/-- The step is a signal with a handler. -/
def caught (st : Step Process Event Unit) : Bool :=
  match st.input with
  | .signal s => st.pre.catches s
  | _ => false

/-- It serves a request although a shutdown was requested. -/
def servesLate (st : Step Process Event Unit) : Bool := serves st && st.pre.shutdownRequested

/-- It is the `close` behind the loop. -/
def leaves (st : Step Process Event Unit) : Bool :=
  match st.input with
  | .returns _ => st.pre.stage = .leave
  | _ => false

/-- Behind a late request there is the way out alone. -/
def OnWayOut (p : Process) : Prop :=
  p.shutdownRequested = true ∧ (p.stage = .check ∨ p.stage = .leave ∨ p.stage = .ended)

/-- What is counted. -/
structure Counted (h : History) (p : Process) : Prop where
  late : h.countP servesLate = 0 ∨ h.countP servesLate = 1 ∧ OnWayOut p
  running : p.stage ≠ .ended → h.any leaves = false ∧ p.closes = h.countP caught
  left : h.any leaves = true → p.closes = h.countP caught + 1

theorem OnWayOut.not_at (h : OnWayOut p)
    (hstage : p.stage ≠ .check ∧ p.stage ≠ .leave ∧ p.stage ≠ .ended) : False := by
  obtain ⟨-, hcheck | hleave | hended⟩ := h
  · exact hstage.1 hcheck
  · exact hstage.2.1 hleave
  · exact hstage.2.2 hended

/-- A system call on the way out stays there. -/
theorem OnWayOut.call (hout : OnWayOut p) (h : call T p ok = some p') : OnWayOut p' := by
  obtain ⟨hshut, hcheck | hleave | hended⟩ := hout
  · rw [FilemanNoSpawn.call, hcheck] at h
    obtain rfl := Option.some.inj h
    rw [hshut]
    exact ⟨hshut, Or.inr (Or.inl rfl)⟩
  · rw [FilemanNoSpawn.call, hleave] at h
    obtain rfl := Option.some.inj h
    exact ⟨hshut, Or.inr (Or.inr rfl)⟩
  · rw [FilemanNoSpawn.call, hended] at h
    cases h

theorem OnWayOut.receive (hout : OnWayOut p) (s : Signal) : OnWayOut (p.receive s) := by
  obtain ⟨hshut, hstage⟩ := hout
  rcases receive_cases p s with ⟨-, hp⟩ | ⟨-, hp⟩
  · rw [hp]
    exact ⟨rfl, hstage⟩
  · rw [hp]
    exact ⟨hshut, Or.inr (Or.inr rfl)⟩

theorem become_closes {c : Option Credentials} {next : Stage}
    (h : (p.become ok c next).stage ≠ .ended) : (p.become ok c next).closes = p.closes := by
  unfold Process.become at h ⊢
  split at h
  · rfl
  · exact absurd rfl h

/-- A system call closes the descriptor on the ways out alone. -/
theorem call_closes (h : call T p ok = some p') (hgoes : p'.stage ≠ .ended) :
    p'.closes = p.closes := by
  unfold FilemanNoSpawn.call at h
  split at h
  case h_5 | h_6 | h_7 =>
    obtain rfl := Option.some.inj h
    exact become_closes hgoes
  case h_8 =>
    obtain rfl := Option.some.inj h
    split_ifs at hgoes ⊢
    · rfl
    · exact absurd rfl hgoes
  case h_13 =>
    obtain rfl := Option.some.inj h
    rfl
  case h_14 =>
    obtain rfl := Option.some.inj h
    exact absurd rfl hgoes
  case h_15 => cases h
  all_goals
    obtain rfl := Option.some.inj h
    cases ok with
    | true => rfl
    | false => exact absurd rfl hgoes

/-- The `close` behind the loop is one call. -/
theorem call_of_leave (hstage : p.stage = .leave) (h : call T p ok = some p') :
    p' = p.closesAndFails := by
  rw [FilemanNoSpawn.call, hstage] at h
  exact (Option.some.inj h).symm

theorem call_of_ended (hstage : p.stage = .ended) : call T p ok = none := by
  rw [FilemanNoSpawn.call, hstage]

/-- **Every step keeps the count.** -/
theorem Counted.step {h : History} (hI : Counted h p) (htake : step T p e = some (u, p')) :
    Counted (⟨p, e, u, p'⟩ :: h) p' := by
  obtain ⟨hlate, hrunning, hleft⟩ := hI
  rcases step_cases htake with ⟨ok, rfl, hcall⟩ | ⟨rc, rfl, hstage, rfl⟩ |
    ⟨returned, calls, rfl, hstage, rfl⟩ | ⟨s, rfl, hstage, rfl⟩
  · -- a system call
    have hgoing : p.stage ≠ .ended := fun hended => by
      rw [call_of_ended hended] at hcall
      cases hcall
    obtain ⟨hany, hcloses⟩ := hrunning hgoing
    refine ⟨hlate.imp_right fun ⟨hone, hout⟩ => ⟨hone, hout.call hcall⟩, fun hgoes => ?_,
      fun hleaves => ?_⟩
    · have hstay : p.stage ≠ .leave := fun hleave => by
        rw [call_of_leave hleave hcall] at hgoes
        exact hgoes rfl
      exact ⟨by simp [leaves, hstay, hany], (call_closes hcall hgoes).trans hcloses⟩
    · have hleave : p.stage = .leave := by simpa [leaves, hany] using hleaves
      rw [call_of_leave hleave hcall]
      exact congrArg (· + 1) hcloses
  · -- `FCGX_Accept_r`
    obtain ⟨hany, hcloses⟩ := hrunning (by rw [hstage]; decide)
    have hnone := hlate.resolve_right fun hout => hout.2.not_at (by rw [hstage]; decide)
    exact ⟨Or.inl hnone, fun _ => ⟨hany, hcloses⟩,
      fun hleaves => absurd (hany ▸ hleaves) (by decide)⟩
  · -- a request
    obtain ⟨hany, hcloses⟩ := hrunning (by rw [hstage]; decide)
    have hnone := hlate.resolve_right fun hout => hout.2.not_at (by rw [hstage]; decide)
    refine ⟨?_, fun _ => ⟨hany, hcloses⟩, fun hleaves => absurd (hany ▸ hleaves) (by decide)⟩
    cases hshut : p.shutdownRequested with
    | true =>
      refine Or.inr ⟨?_, rfl, by cases returned <;> simp⟩
      rw [List.countP_cons_of_pos (by simp [servesLate, serves, Event.isHandled, hshut]), hnone]
    | false =>
      refine Or.inl ?_
      rw [List.countP_cons_of_neg (by simp [servesLate, serves, Event.isHandled, hshut]), hnone]
  · -- a signal
    obtain ⟨hany, hcloses⟩ := hrunning hstage
    refine ⟨hlate.imp_right fun ⟨hone, hout⟩ => ⟨hone, hout.receive s⟩, fun hgoes => ⟨hany, ?_⟩,
      fun hleaves => absurd (hany ▸ hleaves) (by decide)⟩
    rcases receive_cases p s with ⟨hcaught, hp⟩ | ⟨-, hp⟩
    · rw [List.countP_cons_of_pos (by simpa [caught] using hcaught), ← hcloses, hp]
    · rw [hp] at hgoes
      exact absurd rfl hgoes

/-- **A shutdown.** Behind a signal that was caught at most one more request is served; and when the
loop has been left, the descriptor of the socket was closed once for each signal and once more. -/
theorem shutdown_run {c : Credentials} {h : History} (hrun : Run (step T) (started c) h p) :
    h.countP servesLate ≤ 1 ∧ (h.any leaves = true → p.closes = h.countP caught + 1) := by
  have hcounted : Counted h p := by
    refine hrun.invariant (A := fun _ _ => True) (I := Counted) ?_
      (fun hI htake _ => hI.step htake) (everywhere_of_forall (fun _ _ => trivial) h)
    exact ⟨Or.inl rfl, fun _ => ⟨rfl, rfl⟩, fun h => by cases h⟩
  refine ⟨?_, hcounted.left⟩
  rcases hcounted.late with hnone | ⟨hone, -⟩ <;> omega

end

/-! ## A daemon that serves a request -/

/-- `-U www-data -G www-data /run/fileman_fastcgi.sock`. -/
def wwwOptions : List GetoptResult := [.user (CStr.lit "www-data"), .group (CStr.lit "www-data")]

def wwwData : Account := ⟨33, 33, [33]⟩

def wwwAccounts : Accounts where
  uidOf _ := some 33
  gidOf _ := some 33
  groupsOf _ gid := [gid]

def root : Credentials := .of 0 0 [0]

def wwwTarget : Target := ⟨CStr.lit "/run/fileman_fastcgi.sock", some wwwData⟩

/-- Every call returns; the handler of the request asks for user 0. -/
def oneRequest : List Event :=
  List.replicate 13 (.returns true) ++ [.accepted 0, .handled true [.setuid 0, .setgroups [0]]]

theorem exists_run_oneRequest :
    ∃ h p, Run (step wwwTarget) (started root) h p ∧ h.any serves = true := by
  have hfeed : ∃ us p, feed (step wwwTarget) (started root) oneRequest = some (us, p) :=
    ⟨_, _, rfl⟩
  obtain ⟨us, p, hfeed⟩ := hfeed
  obtain ⟨h, hrun, hinputs⟩ := Run.nil.exists_of_feed hfeed
  rw [List.append_nil] at hrun
  refine ⟨h, p, hrun, ?_⟩
  have hmap : h.any serves = (h.map Step.input).any Event.isHandled := by
    rw [List.any_map]
    rfl
  rw [hmap, hinputs]
  rfl

theorem served_dropped_run_oneRequest :
    ∃ h p, Run (step wwwTarget) (started root) h p ∧ h.any serves = true ∧
      (∃ username groupname, wwwAccounts.uidOf username = some wwwData.uid ∧
        wwwAccounts.gidOf groupname = some wwwData.gid ∧
        wwwData.groups = wwwAccounts.groupsOf username wwwData.gid) ∧
      Everywhere (fun _ st => serves st = true → ServedAs wwwData st) h := by
  obtain ⟨h, p, hrun, hserves⟩ := exists_run_oneRequest
  have htarget : target wwwAccounts root wwwOptions [CStr.lit "/run/fileman_fastcgi.sock"] =
      some wwwTarget := rfl
  exact ⟨h, p, hrun, hserves, served_dropped_run htarget rfl (by decide) hrun⟩

/-- `SIGTERM` comes while the request is served. -/
def oneShutdown : List Event :=
  List.replicate 13 (.returns true) ++
    [.accepted 0, .signal .term, .handled true [], .returns true, .returns true]

theorem shutdown_run_oneShutdown :
    ∃ h p, Run (step wwwTarget) (started root) h p ∧ p.stage = .ended ∧ p.closes = 2 ∧
      h.countP servesLate ≤ 1 ∧ (h.any leaves = true → p.closes = h.countP caught + 1) := by
  have hfeed : ∃ us p, feed (step wwwTarget) (started root) oneShutdown = some (us, p) ∧
      p.stage = .ended ∧ p.closes = 2 := ⟨_, _, rfl, rfl, rfl⟩
  obtain ⟨us, p, hfeed, hended, hcloses⟩ := hfeed
  obtain ⟨h, hrun, -⟩ := Run.nil.exists_of_feed hfeed
  rw [List.append_nil] at hrun
  exact ⟨h, p, hrun, hended, hcloses, shutdown_run hrun⟩

end FilemanNoSpawn

end FcgiJwtAuth
