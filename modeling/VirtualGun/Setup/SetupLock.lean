import VirtualGun.Program.Sections
import VirtualGun.Setup.Runs

/-!
# The setup lock

`setup/setup_lock.h` and `setup/main.cpp`: one install or uninstall at a time, machine-wide.
-/

open VirtualGun.Program

namespace VirtualGun.Setup

abbrev SetupFlow := ProcFlow Call Call.Resp

abbrev kernel (c : ProcCall Call) : SetupFlow (c.Resp Call.Resp) := Prog.perform c

/-- `SETUP_LOCK_WAIT_MS`. -/
def setupLockWaitMs : ℕ := 5 * 60 * 1000

/-- `EXIT_SETUP_BUSY`: ERROR_INSTALL_ALREADY_RUNNING. -/
def exitSetupBusy : ℕ := 1618

inductive LockResult where
  /-- This run owns the lock. -/
  | held
  /-- Another run still holds it. -/
  | busy
  /-- The lock could not be created; the run goes ahead without it. -/
  | unavailable
  deriving DecidableEq, Repr

structure SetupLock where
  /-- Whether there is a handle. -/
  handle : Bool
  owned : Bool

namespace SetupLock

def create (self : ℕ) : SetupFlow SetupLock := do
  let handle ← kernel (.createMutex self)
  return ⟨handle, false⟩

/-- A lock left by a run that died holding it is taken over. -/
def acquire (self : ℕ) (lock : SetupLock) (timeoutMs : ℕ) : SetupFlow (LockResult × SetupLock) := do
  if !lock.handle then return (.unavailable, lock)
  else
    let r ← kernel (.waitForSingleObject self timeoutMs)
    let lock := { lock with owned := r.owns }
    if lock.owned then return (.held, lock)
    else return (if r = .timeout then .busy else .unavailable, lock)

/-- `~SetupLock`. -/
def destroy (self : ℕ) (lock : SetupLock) : SetupFlow Unit := do
  if lock.owned then kernel (.releaseMutex self)
  if lock.handle then kernel (.closeHandle self)

end SetupLock

/-- Runs one install or uninstall with the machine-wide setup lock held. -/
def locked (self : ℕ) (run : Flow ℕ) : SetupFlow ℕ := do
  let lock ← SetupLock.create self
  let (got, lock) ← lock.acquire self 0
  let (got, lock) ←
    if got = .busy then lock.acquire self setupLockWaitMs else pure (got, lock)
  if got = .busy then
    lock.destroy self
    return exitSetupBusy
  else
    let code ← run.work self
    lock.destroy self
    return code

/-- `argv` is what follows the name of the program. -/
def wmain (exeDir version : WString) (self : ℕ) (argv : List WString) : SetupFlow ℕ :=
  match argv with
  | command :: rest =>
    if sameName command (wide "install") then
      locked self (runInstall (rest.headD exeDir) version)
    else if sameName command (wide "uninstall") then locked self runUninstall
    else return 2
  | [] => return 2

def program (exeDir version : WString) (self : ℕ) (argv : List WString) : SetupFlow Unit := do
  let code ← wmain exeDir version self argv
  kernel (.exitProcess self code)

/-- What the machine sees of a process that gets the lock. -/
def eventOf (exeDir version : WString) : List WString → Event
  | command :: rest =>
    if sameName command (wide "install") then .install (rest.headD exeDir) version else .uninstall
  | [] => .uninstall

def otherPrograms (machine : Machine) (w : World) : Option World := some { w with machine := machine }

/-- Setup processes started at any time; other programs change the machine while none of them has
the lock. -/
def setups (exeDir version : WString) (ok : Call → Outcome → Bool) :
    System (ProcEvent (List WString) Machine) (ProcCall Call) (ProcCall.Resp Call.Resp)
      (ProcOutcome Outcome) (Shared Call World) Unit :=
  processes (exec.only ok) (program exeDir version) otherPrograms

abbrev SetupPool :=
  Pool (ProcEvent (List WString) Machine) (ProcCall Call) (ProcCall.Resp Call.Resp)
    (Shared Call World)

/-! ## One run at a time -/

section
variable {exeDir version : WString} {ok : Call → Outcome → Bool} {w₀ : World} {self : ℕ} {l : Event}

abbrev Sections (exeDir version : WString) (ok : Call → Outcome → Bool) (w₀ : World) :
    Views (ProcEvent (List WString) Machine) (ProcCall Call) (ProcCall.Resp Call.Resp)
      (Shared Call World) (Place Call Call.Resp Event ℕ) :=
  sections (setup.only ok) w₀ (eventOf exeDir version)

/-- What came of trying to get the lock. -/
inductive Got (self : ℕ) (l : Event) : LockResult × SetupLock → Place Call Call.Resp Event ℕ → Prop
  | held : Got self l (.held, ⟨true, true⟩) (.inside self l (handler l))
  | busy : Got self l (.busy, ⟨true, false⟩) (.outside self l)

theorem acquire_follows (timeoutMs : ℕ) :
    (Sections exeDir version ok w₀).Follows (Got self l) (SetupLock.acquire self ⟨true, false⟩ timeoutMs)
      (.outside self l) := by
  simp only [SetupLock.acquire, kernel, Bool.not_true, Bool.false_eq_true, if_false, Prog.perform_bind]
  refine ⟨⟨rfl, fun b => nofun, nofun⟩, fun r v hv => ?_⟩
  rcases hv with ⟨howns, rfl⟩ | ⟨rfl, rfl⟩
  · beta_reduce
    rw [if_pos howns, howns]
    exact .held
  · exact .busy

theorem destroy_held_follows {code : ℕ} :
    (Sections exeDir version ok w₀).Follows (fun _ v => v = .after self)
      (SetupLock.destroy self ⟨true, true⟩) (.inside self l (.ret code)) := by
  refine ⟨.inl ⟨rfl, rfl⟩, ?_⟩
  rintro r v rfl
  refine ⟨.inl rfl, ?_⟩
  rintro r v rfl
  rfl

theorem destroy_busy_follows :
    (Sections exeDir version ok w₀).Follows (fun _ v => v = .outside self l)
      (SetupLock.destroy self ⟨true, false⟩) (.outside self l) := by
  refine ⟨⟨rfl, fun b => nofun, nofun⟩, ?_⟩
  rintro r v rfl
  rfl

theorem worked_follows :
    (Sections exeDir version ok w₀).Follows (fun _ v => v = .after self)
      ((handler l).work self >>= fun code => SetupLock.destroy self ⟨true, true⟩ >>= fun _ => .ret code)
      (.inside self l (handler l)) :=
  work_follows fun _ => Views.follows_bind destroy_held_follows fun _ _ hv => hv

theorem locked_follows :
    (Sections exeDir version ok w₀).Follows
      (fun code v => v = .after self ∨ code = exitSetupBusy ∧ v = .outside self l)
      (locked self (handler l)) (.outside self l) := by
  simp only [locked, SetupLock.create, kernel, Prog.perform_bind, Prog.call_bind, Prog.pure_def,
    Prog.ret_bind]
  refine ⟨⟨rfl, fun b => nofun, nofun⟩, ?_⟩
  rintro r v ⟨rfl, rfl⟩
  refine Views.follows_bind (acquire_follows 0) fun x v hx => ?_
  cases hx with
  | held => exact Views.follows_mono (fun _ _ hv => .inl hv) worked_follows
  | busy =>
    refine Views.follows_bind (acquire_follows setupLockWaitMs) fun x v hx => ?_
    cases hx with
    | held => exact Views.follows_mono (fun _ _ hv => .inl hv) worked_follows
    | busy => exact Views.follows_bind destroy_busy_follows fun _ _ hv => .inr ⟨rfl, hv⟩

theorem program_follows (argv : List WString) :
    (Sections exeDir version ok w₀).Follows (fun _ v => v.done) (program exeDir version self argv)
      (.outside self (eventOf exeDir version argv)) := by
  have hexit (l : Event) (code : ℕ) (v : Place Call Call.Resp Event ℕ)
      (hv : v = .after self ∨ v = .outside self l) :
      (Sections exeDir version ok w₀).Follows (fun _ v => v.done) (kernel (.exitProcess self code)) v := by
    rcases hv with rfl | rfl
    · refine ⟨.inr ⟨code, rfl⟩, ?_⟩
      rintro r v rfl
      trivial
    · refine ⟨⟨rfl, fun b => nofun, nofun⟩, ?_⟩
      rintro r v rfl
      trivial
  have hlocked (l : Event) :
      (Sections exeDir version ok w₀).Follows (fun _ v => v.done)
        (locked self (handler l) >>= fun code => kernel (.exitProcess self code)) (.outside self l) := by
    refine Views.follows_bind locked_follows fun code v hv => hexit l code v ?_
    rcases hv with hv | ⟨-, hv⟩
    · exact .inl hv
    · exact .inr hv
  unfold program wmain
  cases argv with
  | nil => exact hexit _ 2 _ (.inr rfl)
  | cons command rest =>
    by_cases hinstall : sameName command (wide "install")
    · simp only [eventOf, hinstall, if_true]
      exact hlocked (.install (rest.headD exeDir) version)
    · by_cases huninstall : sameName command (wide "uninstall")
      · simp only [eventOf, hinstall, huninstall, Bool.false_eq_true, if_false, if_true]
        exact hlocked .uninstall
      · simp only [eventOf, hinstall, huninstall, Bool.false_eq_true, if_false]
        exact hexit _ 2 _ (.inr rfl)

theorem setups_agree {P : SetupPool}
    (hP : Reach ((setups exeDir version ok).only mutexWorks) (fun _ _ => True) ⟨[], .init w₀⟩ P) :
    ∃ vs, (Sections exeDir version ok w₀).Agree P vs := by
  refine Reach.serial hP ?_ ?_ ?_
  · intro argv u
    cases argv with
    | nil => rfl
    | cons command rest =>
      simp only [eventOf]
      split <;> rfl
  · intro m u u' hu hact
    exact hu.finish (l := .meanwhile m) hact .refl trivial
  · intro self argv
    exact program_follows argv

/-- Whatever setup processes are started and killed, and whenever, the machine is one that a history
of single runs passes through. -/
theorem setups_serialized {P : SetupPool}
    (hP : Reach ((setups exeDir version ok).only mutexWorks) (fun _ _ => True) ⟨[], .init w₀⟩ P) :
    Instant (setup.only ok) Always Always w₀ P.world.base := by
  obtain ⟨vs, hvs⟩ := setups_agree hP
  cases howner : P.world.owner with
  | none => exact ⟨_, _, .meanwhile P.world.base.machine, _, hvs.inv.free howner, rfl, .refl⟩
  | some self =>
    obtain ⟨-, l, q, u, v, -, hu, hv, hs⟩ := hvs.inv.held self howner
    exact ⟨u, v, l, q, hu, hv, hs⟩

/-- Where the mutex works, no two setup processes are at work at a time, and the lock is never left to one
that is gone. -/
theorem setups_exclusive {P : SetupPool}
    (hP : Reach ((setups exeDir version ok).only mutexWorks) (fun _ _ => True) ⟨[], .init w₀⟩ P) :
    (P.threads.Pairwise fun t u => ¬ (t.Works P.world ∧ u.Works P.world)) ∧
      ∀ self, P.world.owner = some self → self ∈ P.world.alive ∧
        ∃ t ∈ P.threads, ∃ argv, t.label = .start self argv ∧ t.prog.isRet = false := by
  obtain ⟨vs, hvs⟩ := setups_agree hP
  exact ⟨hvs.exclusive, fun self howner => hvs.owner howner⟩

end

/-- The process that has the lock is killed at work, and another takes the lock over. -/
def takeover : List (Move (ProcEvent (List WString) Machine) (ProcOutcome Outcome)) :=
  [.arrive (.start 0 [wide "INSTALL"]), .arrive (.start 1 [wide "uninstall"]), .step 0 .ok, .step 0 .ok,
    .step 1 .ok, .step 1 .timeout, .step 0 (.work .ok), .arrive (.kill 0), .step 1 .abandoned]

def afterTakeover : Option SetupPool :=
  Pool.replay ((setups [] [] fun _ _ => true).only mutexWorks) (fun _ _ => true) takeover ⟨[], .init newPc⟩

theorem afterTakeover_reached : ∃ P : SetupPool,
    Reach ((setups [] [] fun _ _ => true).only mutexWorks) (fun _ _ => True) ⟨[], .init newPc⟩ P ∧
      P.world.owner = some 1 ∧ P.world.alive = [1] ∧ P.world.log.length = 1 := by
  have hlook : afterTakeover.map (fun P => (P.world.owner, P.world.alive, P.world.log.length)) =
      some (some 1, [1], 1) := rfl
  obtain ⟨P, hP, hfacts⟩ := Option.map_eq_some_iff.mp hlook
  simp only [Prod.mk.injEq] at hfacts
  exact ⟨P, (Reach.replay .init hP).mono fun _ _ _ => trivial, hfacts⟩

theorem setups_serialized_takeover : ∃ P : SetupPool, P.world.log.length = 1 ∧
    Instant (setup.only fun _ _ => true) Always Always newPc P.world.base := by
  obtain ⟨P, hP, -, -, hlog⟩ := afterTakeover_reached
  exact ⟨P, hlog, setups_serialized hP⟩

theorem setups_exclusive_takeover : ∃ P : SetupPool, P.world.owner = some 1 ∧
    (P.threads.Pairwise fun t u => ¬ (t.Works P.world ∧ u.Works P.world)) ∧ 1 ∈ P.world.alive := by
  obtain ⟨P, hP, howner, -⟩ := afterTakeover_reached
  obtain ⟨hpairs, hheld⟩ := setups_exclusive hP
  exact ⟨P, howner, hpairs, (hheld 1 howner).1⟩

/-! ## Exit codes -/

/-- The codes of `install_flow.h`. -/
def RunCode (code : ℕ) : Prop := code = 0 ∨ code = 1 ∨ code = 3010

/-- The codes of a process that leaves the machine alone. -/
def RefusalCode (code : ℕ) : Prop := code = exitSetupBusy ∨ code = 2

section
variable {can : (c : Call) → c.Resp → Prop}

theorem finishWithPins_code {installCode : ℕ} (h : RunCode installCode) :
    (finishWithPins installCode).Ends RunCode can := by
  refine Prog.ends_bind (Prog.ends_true _) fun pins _ => ?_
  change RunCode (pinExitCode installCode pins)
  unfold pinExitCode
  split
  · split
    · exact .inr (.inr rfl)
    · exact .inr (.inl rfl)
  · split
    · exact .inr (.inl rfl)
    · exact h

theorem pinned_code (reboot : Bool) :
    (finishWithPins (if reboot then 3010 else 0)).Ends RunCode can := by
  apply finishWithPins_code
  cases reboot
  · exact .inl rfl
  · exact .inr (.inr rfl)

theorem runUninstall_code : runUninstall.Ends RunCode can :=
  Prog.ends_bind (Prog.ends_true _) fun _ _ => Prog.ends_bind (Prog.ends_true _) fun _ _ =>
    Prog.ends_bind (Prog.ends_true _) fun _ _ => Prog.ends_bind (Prog.ends_true _) fun _ _ => .inl rfl

theorem failInstall_code : failInstall.Ends RunCode can :=
  Prog.ends_bind (Prog.ends_true _) fun _ _ => .inr (.inl rfl)

theorem failUpdate_code (old : InstallState) (cert inf : WString) :
    (failUpdate old cert inf).Ends RunCode can :=
  Prog.ends_bind (Prog.ends_true _) fun _ _ => Prog.ends_bind (Prog.ends_true _) fun _ _ =>
    Prog.ends_bind (Prog.ends_true _) fun _ _ =>
      Prog.ends_bind (Prog.ends_true _) fun _ _ => .inr (.inl rfl)

theorem keepPackage_code (cert : SigningCert) (version : WString) (reboot : Bool) :
    (keepPackage cert version reboot).Ends RunCode can := by
  refine Prog.ends_bind (Prog.ends_true _) fun _ _ => Prog.ends_bind (Prog.ends_true _) fun _ _ => ?_
  refine Prog.ends_bind (Prog.ends_true _) fun _ _ => Prog.ends_bind (Prog.ends_true _) fun _ _ => ?_
  exact Prog.ends_ite (fun _ => pinned_code reboot) fun _ => .inr (.inl rfl)

theorem promote_code (old : InstallState) (cert : SigningCert) (published version : WString)
    (reboot : Bool) : (promote old cert published version reboot).Ends RunCode can := by
  refine Prog.ends_bind (Prog.ends_true _) fun _ _ => Prog.ends_ite (fun _ => ?_) fun _ => .inr (.inl rfl)
  refine Prog.ends_bind (Prog.ends_true _) fun _ _ => Prog.ends_bind (Prog.ends_true _) fun _ _ => ?_
  refine Prog.ends_bind (Prog.ends_true _) fun _ _ => Prog.ends_bind (Prog.ends_true _) fun _ _ => ?_
  refine Prog.ends_bind (Prog.ends_true _) fun _ _ => ?_
  exact Prog.ends_ite (fun _ => pinned_code reboot) fun _ => .inr (.inl rfl)

theorem swapPackage_code (old : InstallState) (cert : SigningCert) (driverDir version : WString) :
    (swapPackage old cert driverDir version).Ends RunCode can := by
  refine Prog.ends_bind (Prog.ends_true _) fun published _ => ?_
  cases published with
  | none => exact failUpdate_code old _ _
  | some published =>
    refine Prog.ends_bind (Prog.ends_true _) fun _ _ =>
      Prog.ends_ite (fun _ => ?_) fun _ => failUpdate_code old _ _
    refine Prog.ends_bind (Prog.ends_true _) fun reboot _ => ?_
    cases reboot with
    | none => exact failUpdate_code old _ _
    | some reboot =>
      exact Prog.ends_ite (fun _ => keepPackage_code cert version reboot)
        fun _ => promote_code old cert published version reboot

theorem runUpdate_code (old : InstallState) (payloadDir version : WString) :
    (runUpdate old payloadDir version).Ends RunCode can := by
  refine Prog.ends_bind (Prog.ends_true _) fun _ _ =>
    Prog.ends_ite (fun _ => ?_) fun _ => failUpdate_code old _ _
  refine Prog.ends_bind (Prog.ends_true _) fun cert _ => ?_
  cases cert with
  | none => exact failUpdate_code old _ _
  | some cert =>
    refine Prog.ends_bind (Prog.ends_true _) fun _ _ =>
      Prog.ends_ite (fun _ => ?_) fun _ => failUpdate_code old _ _
    refine Prog.ends_bind (Prog.ends_true _) fun _ _ =>
      Prog.ends_ite (fun _ => ?_) fun _ => failUpdate_code old _ _
    exact swapPackage_code old cert _ version

theorem installNode_code (driverDir version : WString) :
    (installNode driverDir version).Ends RunCode can := by
  refine Prog.ends_bind (Prog.ends_true _) fun installed _ => ?_
  rcases installed with _ | ⟨published, reboot⟩
  · exact failInstall_code
  · refine Prog.ends_bind (Prog.ends_true _) fun _ _ => Prog.ends_ite (fun _ => ?_) fun _ => ?_
    · exact Prog.ends_bind (Prog.ends_true _) fun _ _ =>
        Prog.ends_ite (fun _ => pinned_code reboot) fun _ => failInstall_code
    · exact Prog.ends_bind (Prog.ends_true _) fun _ _ => failInstall_code

theorem installFresh_code (payloadDir dir version : WString) :
    (installFresh payloadDir dir version).Ends RunCode can := by
  refine Prog.ends_bind (Prog.ends_true _) fun _ _ => Prog.ends_ite (fun _ => ?_) fun _ => failInstall_code
  refine Prog.ends_bind (Prog.ends_true _) fun _ _ => Prog.ends_ite (fun _ => ?_) fun _ => failInstall_code
  refine Prog.ends_bind (Prog.ends_true _) fun cert _ => ?_
  cases cert with
  | none => exact failInstall_code
  | some cert =>
    refine Prog.ends_bind (Prog.ends_true _) fun _ _ => Prog.ends_ite (fun _ => ?_) fun _ => failInstall_code
    exact Prog.ends_bind (Prog.ends_true _) fun _ _ =>
      Prog.ends_ite (fun _ => installNode_code _ version) fun _ => failInstall_code

theorem runInstall_code (payloadDir version : WString) :
    (runInstall payloadDir version).Ends RunCode can := by
  refine Prog.ends_bind (Prog.ends_true _) fun state _ => ?_
  refine Prog.ends_bind (Prog.ends_true _) fun dir _ => ?_
  refine Prog.ends_bind (Prog.ends_true _) fun mode _ => ?_
  cases mode with
  | fresh => exact installFresh_code payloadDir dir version
  | reinstall =>
    exact Prog.ends_bind (Prog.ends_true _) fun _ _ => installFresh_code payloadDir dir version
  | update =>
    cases state with
    | none => exact installFresh_code payloadDir dir version
    | some old => exact runUpdate_code old payloadDir version

end

abbrev SetupErrands : Views (ProcEvent (List WString) Machine) (ProcCall Call)
    (ProcCall.Resp Call.Resp) (Shared Call World) Errand :=
  errands RunCode RefusalCode

section
variable {exeDir version : WString} {self : ℕ} {v : Errand}

theorem acquire_errand (hself : v.self? = some self) (lock : SetupLock) (timeoutMs : ℕ) :
    SetupErrands.Follows (fun _ v' => v' = v) (SetupLock.acquire self lock timeoutMs) v := by
  apply errand_stays hself
  unfold SetupLock.acquire
  refine Prog.calls_ite (fun _ => trivial) fun _ => ?_
  refine ⟨⟨rfl, fun _ _ => nofun, fun _ _ => nofun⟩, fun r _ => ?_⟩
  exact Prog.calls_ite (fun _ => trivial) fun _ => trivial

theorem destroy_errand (hself : v.self? = some self) (lock : SetupLock) :
    SetupErrands.Follows (fun _ v' => v' = v) (SetupLock.destroy self lock) v := by
  apply errand_stays hself
  obtain ⟨handle, owned⟩ := lock
  have hclose : (SetupLock.destroy self ⟨handle, false⟩).Calls (fun c => c.self = self ∧
      (∀ s b, c ≠ .work s b) ∧ ∀ s code, c ≠ .exitProcess s code) fun _ _ => True := by
    cases handle
    · trivial
    · exact ⟨⟨rfl, fun _ _ => nofun, fun _ _ => nofun⟩, fun _ _ => trivial⟩
  cases owned
  · exact hclose
  · exact ⟨⟨rfl, fun _ _ => nofun, fun _ _ => nofun⟩, fun _ _ => hclose⟩

theorem locked_errand {run : Flow ℕ} (hrun : run.Ends RunCode fun _ _ => True) :
    SetupErrands.Follows
      (fun code v => v.self? = some self ∧ (RunCode code ∨ RefusalCode code ∧ v = .fresh self))
      (locked self run) (.fresh self) := by
  have hwork (lock : SetupLock) : SetupErrands.Follows
      (fun code v => v.self? = some self ∧ (RunCode code ∨ RefusalCode code ∧ v = .fresh self))
      (run.work self >>= fun code => SetupLock.destroy self lock >>= fun _ => .ret code) (.fresh self) := by
    refine Views.follows_bind (errand_works rfl hrun) fun code v hv => ?_
    refine Views.follows_bind (destroy_errand hv.2 lock) fun _ v' hv' => ?_
    rw [hv']
    exact ⟨hv.2, .inl hv.1⟩
  have hrefused (lock : SetupLock) : SetupErrands.Follows
      (fun code v => v.self? = some self ∧ (RunCode code ∨ RefusalCode code ∧ v = .fresh self))
      (SetupLock.destroy self lock >>= fun _ => .ret exitSetupBusy) (.fresh self) := by
    refine Views.follows_bind (destroy_errand rfl lock) fun _ v' hv' => ?_
    rw [hv']
    exact ⟨rfl, .inr ⟨.inl rfl, rfl⟩⟩
  simp only [locked, SetupLock.create, kernel, Prog.perform_bind, Prog.call_bind, Prog.pure_def,
    Prog.ret_bind]
  refine ⟨⟨rfl, fun _ => nofun⟩, ?_⟩
  rintro r v rfl
  refine Views.follows_bind (acquire_errand rfl _ 0) fun x v hv => ?_
  rw [hv]
  refine Views.follows_ite (fun _ => ?_) fun _ => Views.follows_ite (fun _ => hrefused _) fun _ => hwork _
  refine Views.follows_bind (acquire_errand rfl _ setupLockWaitMs) fun x v hv => ?_
  rw [hv]
  exact Views.follows_ite (fun _ => hrefused _) fun _ => hwork _

theorem program_errand (exeDir version : WString) (argv : List WString) :
    SetupErrands.Follows (fun _ _ => True) (program exeDir version self argv) (.fresh self) := by
  have hrun {run : Flow ℕ} (hrun : run.Ends RunCode fun _ _ => True) :
      SetupErrands.Follows (fun _ _ => True)
        (locked self run >>= fun code => kernel (.exitProcess self code)) (.fresh self) :=
    Views.follows_bind (locked_errand hrun) fun _ _ hv => errand_exits hv.1 hv.2
  have husage : SetupErrands.Follows (fun _ _ => True) (kernel (.exitProcess self 2)) (.fresh self) :=
    errand_exits rfl (.inr ⟨.inr rfl, rfl⟩)
  unfold program wmain
  cases argv with
  | nil => exact husage
  | cons command rest =>
    by_cases hinstall : sameName command (wide "install")
    · simp only [hinstall, if_true]
      exact hrun (runInstall_code _ _)
    · by_cases huninstall : sameName command (wide "uninstall")
      · simp only [hinstall, huninstall, Bool.false_eq_true, if_false, if_true]
        exact hrun runUninstall_code
      · simp only [hinstall, huninstall, Bool.false_eq_true, if_false]
        exact husage

end

/-- A process exits with a code of its run, or with 1618 or 2 without having touched the machine,
also where the lock is unavailable. -/
theorem setups_exit_code {exeDir version : WString} {ok : Call → Outcome → Bool} {w₀ : World}
    {P : SetupPool} (hP : Reach (setups exeDir version ok) (fun _ _ => True) ⟨[], .init w₀⟩ P) :
    ∀ x ∈ P.world.exits, (x.2 = 0 ∨ x.2 = 1 ∨ x.2 = 3010) ∨
      (x.2 = exitSetupBusy ∨ x.2 = 2) ∧ ∀ c, (x.1, c) ∉ P.world.log :=
  hP.exit_codes fun _ argv => program_errand exeDir version argv

/-- A second run gives up while the first is at work. -/
def refusedRun : Option SetupPool :=
  Pool.replay (setups [] [] fun _ _ => true) (fun _ _ => true)
    [.arrive (.start 0 [wide "install"]), .arrive (.start 1 [wide "uninstall"]), .step 0 .ok, .step 0 .ok,
      .step 0 (.work .ok), .step 1 .ok, .step 1 .timeout, .step 1 .timeout, .step 1 .ok, .step 1 .ok]
    ⟨[], .init newPc⟩

theorem setups_exit_code_refused : ∃ P : SetupPool, P.world.exits = [(1, 1618)] ∧
    P.world.log.length = 1 ∧ ∀ x ∈ P.world.exits, (x.2 = 0 ∨ x.2 = 1 ∨ x.2 = 3010) ∨
      (x.2 = exitSetupBusy ∨ x.2 = 2) ∧ ∀ c, (x.1, c) ∉ P.world.log := by
  have hlook : refusedRun.map (fun P => (P.world.exits, P.world.log.length)) =
      some ([(1, 1618)], 1) := rfl
  obtain ⟨P, hP, hfacts⟩ := Option.map_eq_some_iff.mp hlook
  simp only [Prod.mk.injEq] at hfacts
  exact ⟨P, hfacts.1, hfacts.2, setups_exit_code ((Reach.replay .init hP).mono fun _ _ _ => trivial)⟩

end VirtualGun.Setup
