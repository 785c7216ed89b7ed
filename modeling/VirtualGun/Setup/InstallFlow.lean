import VirtualGun.Setup.RegistryState
import VirtualGun.Setup.CertSign
import VirtualGun.Setup.Payload
import VirtualGun.Setup.LanePin

/-!
# Install and uninstall

`setup/install_flow.cpp` and `setup/install_mode.h`. A run ends with its exit code: 0 ok, 1
failed, 3010 ok but a reboot is required.
-/

open VirtualGun.Program

namespace VirtualGun.Setup

inductive InstallMode where
  | fresh
  /-- Keep the device node, swap the driver on it. -/
  | update
  /-- Uninstall everything, then install fresh. -/
  | reinstall
  deriving DecidableEq, Repr

/-- Nothing of an interrupted update is recorded. -/
def InstallState.settled (s : InstallState) : Bool :=
  s.pendingCertThumbprint.isEmpty && s.pendingDriverInf.isEmpty &&
    s.previousCertThumbprint.isEmpty && s.previousDriverInf.isEmpty

/-- Only a complete install with exactly one live node is updated. -/
def chooseInstallMode (state : Option InstallState) (devices presentDevices : ℕ) : InstallMode :=
  match state with
  | none => .fresh
  | some s =>
    if s.version.isEmpty || s.certThumbprint.isEmpty || s.driverInf.isEmpty then .reinstall
    else if !s.settled then .reinstall
    else if devices ≠ 1 ∨ presentDevices ≠ 1 then .reinstall
    else .update

/-- An install that is complete, so that it can be updated. -/
def InstallState.complete (s : InstallState) : Bool :=
  !s.version.isEmpty && !s.certThumbprint.isEmpty && !s.driverInf.isEmpty

/-- What a mode says of the state it was chosen for. -/
structure Chosen (state : Option InstallState) (dir : WString) (mode : InstallMode) : Prop where
  fresh : mode = .fresh ↔ state = none
  update : mode = .update →
    ∃ s, state = some s ∧ s.complete = true ∧ s.settled = true ∧ sameName s.installDir dir = true

theorem InstallState.complete_iff (s : InstallState) :
    s.complete = true ↔ s.version ≠ [] ∧ s.certThumbprint ≠ [] ∧ s.driverInf ≠ [] := by
  simp only [complete, Bool.and_eq_true, Bool.not_eq_true', List.isEmpty_eq_false_iff, and_assoc]

theorem Chosen.updated {old : InstallState} {dir : WString} (h : Chosen (some old) dir .update) :
    old.complete = true ∧ old.settled = true ∧ sameName old.installDir dir = true := by
  obtain ⟨s, hs, hcomplete, hsettled, hdir⟩ := h.update rfl
  obtain rfl := Option.some.inj hs
  exact ⟨hcomplete, hsettled, hdir⟩

theorem Chosen.none_of_rest {state : Option InstallState} {dir : WString} {mode : InstallMode}
    (h : Chosen state dir mode) (hreinstall : mode = .reinstall → False)
    (hupdate : ∀ s, mode = .update → state = some s → False) : state = none := by
  apply h.fresh.mp
  cases mode with
  | fresh => rfl
  | update =>
    obtain ⟨s, hs, -⟩ := h.update rfl
    exact (hupdate s rfl hs).elim
  | reinstall => exact (hreinstall rfl).elim

theorem chooseInstallMode_chosen (state : Option InstallState) (dir : WString)
    (devices presentDevices : ℕ) (mode : InstallMode)
    (h : chooseInstallMode state devices presentDevices = mode) :
    Chosen state dir
      (if mode = .update ∧ !(state.any fun s => sameName s.installDir dir) then .reinstall else mode) := by
  subst h
  cases state with
  | none => exact ⟨by simp [chooseInstallMode], by simp [chooseInstallMode]⟩
  | some s =>
    constructor
    · simp only [chooseInstallMode]
      grind
    · simp only [chooseInstallMode, InstallState.complete]
      grind

def finishWithPins (installCode : ℕ) : Flow ℕ := do
  let pins ← pinLanes
  return pinExitCode installCode pins

/-! ## Uninstall -/

/-- Deletes the package unless it is the recorded one. -/
def unstageOther (inf driverInf : WString) : Flow Unit := do
  if !sameName inf driverInf then
    let _ ← unstagePackage inf

/-- What is recorded besides the driver. An interrupted update can leave a second and third
package and certificate. -/
def uninstallRecorded : Option InstallState → Flow Unit
  | some s => do
    unstageOther s.pendingDriverInf s.driverInf
    unstageOther s.previousDriverInf s.driverInf
    removeTrustedCertificate s.certThumbprint
    removeTrustedCertificate s.pendingCertThumbprint
    removeTrustedCertificate s.previousCertThumbprint
    if !s.installDir.isEmpty then removeInstallDir s.installDir
  | none => return ()

def runUninstall : Flow ℕ := do
  let state ← readState
  uninstallDriver ((state.map (·.driverInf)).getD [])
  uninstallRecorded state
  deleteState
  return 0

/-! ## Install -/

/-- `Fail`: roll back. -/
def failInstall : Flow ℕ := do
  let _ ← runUninstall
  return 1

/-- The device never took the new package: drop the pending certificate and package. -/
def failUpdate (old : InstallState) (pendingCert pendingInf : WString) : Flow ℕ := do
  unstageOther pendingInf old.driverInf
  removeTrustedCertificate pendingCert
  deleteValue .pendingDriverInf
  deleteValue .pendingCertThumbprint
  return 1

def retireCert (state : InstallState) : Flow Unit := do
  if !state.previousCertThumbprint.isEmpty then
    removeTrustedCertificate state.previousCertThumbprint
    deleteValue .previousCertThumbprint

/-- A package still in use stays recorded. -/
def retireInf (state : InstallState) : Flow Unit := do
  if !state.previousDriverInf.isEmpty then
    if ← unstagePackage state.previousDriverInf then deleteValue .previousDriverInf

/-- Retires the package and certificate an earlier update replaced. -/
def retirePrevious (state : InstallState) : Flow Unit := do
  retireCert state
  retireInf state

def dllPath (driverDir : WString) : WString := driverDir ++ wide "\\VRLFVirtualGun.dll"

def catPath (driverDir : WString) : WString := driverDir ++ wide "\\vrlfvirtualgun.cat"

def infPath (driverDir : WString) : WString := driverDir ++ wide "\\VRLFVirtualGun.inf"

def signFiles (cert : SigningCert) (driverDir : WString) : Flow Bool := do
  if ← signFile cert (dllPath driverDir) then signFile cert (catPath driverDir) else return false

/-- Both install paths: make the certificate, sign the driver, destroy the key. `none` if the
driver is not signed. -/
def signDriver (driverDir : WString) : Flow (Option SigningCert) := do
  match ← createSigningCert true with
  | none => return none
  | some cert =>
    let signedOk ← signFiles cert driverDir
    let cert ← destroySigningKey cert
    return if signedOk then some cert else none

/-- An identical INF: the store handed back the package it already holds, with its catalog. Keep
that package's certificate and discard the new one. -/
def keepPackage (cert : SigningCert) (version : WString) (reboot : Bool) : Flow ℕ := do
  removeTrustedCertificate cert.thumbprint
  deleteValue .pendingCertThumbprint
  deleteValue .pendingDriverInf
  if ← writeValue .version version then finishWithPins (if reboot then 3010 else 0)
  else return 1

/-- Records the old pair as `Previous*` before promoting the new one. -/
def promoteValues (old : InstallState) (cert : SigningCert) (published : WString) : Flow Bool := do
  if ← writeValue .previousCertThumbprint old.certThumbprint then
    if ← writeValue .previousDriverInf old.driverInf then
      if ← writeValue .certThumbprint cert.thumbprint then writeValue .driverInf published
      else return false
    else return false
  else return false

def retirePromoted : Option InstallState → Flow Unit
  | some promoted => retirePrevious promoted
  | none => return ()

def promote (old : InstallState) (cert : SigningCert) (published version : WString) (reboot : Bool) :
    Flow ℕ := do
  if ← promoteValues old cert published then
    deleteValue .pendingCertThumbprint
    deleteValue .pendingDriverInf
    let promoted ← readState
    retirePromoted promoted
    if ← writeValue .version version then finishWithPins (if reboot then 3010 else 0)
    else return 1
  else return 1

/-- `RunUpdate` from the staging on. -/
def swapPackage (old : InstallState) (cert : SigningCert) (driverDir version : WString) : Flow ℕ := do
  match ← stagePackage (infPath driverDir) with
  | none => failUpdate old cert.thumbprint []
  | some published =>
    if ← writeValue .pendingDriverInf published then
      match ← updateDevice (infPath driverDir) with
      | none => failUpdate old cert.thumbprint published
      | some reboot =>
        if sameName published old.driverInf then keepPackage cert version reboot
        else promote old cert published version reboot
    else failUpdate old cert.thumbprint published

/-- Keeps the root device node and swaps the driver on it. -/
def runUpdate (old : InstallState) (payloadDir version : WString) : Flow ℕ := do
  if ← copyPayload payloadDir old.installDir then
    let driverDir := old.installDir ++ wide "\\driver"
    match ← signDriver driverDir with
    | none => failUpdate old [] []
    | some cert =>
      -- Pending* is written before the step it describes, as the fresh install does.
      if ← writeValue .pendingCertThumbprint cert.thumbprint then
        if ← trustCertificate cert.encoded then swapPackage old cert driverDir version
        else failUpdate old cert.thumbprint []
      else failUpdate old [] []
  else failUpdate old [] []

/-- `RunInstall` behind the trusting of the certificate. -/
def installNode (driverDir version : WString) : Flow ℕ := do
  match ← installDriver (infPath driverDir) with
  | none => failInstall
  | some (published, reboot) =>
    if ← writeValue .driverInf published then
      if ← writeValue .version version then finishWithPins (if reboot then 3010 else 0)
      else failInstall
    else
      -- `runUninstall` cannot learn the name from the registry.
      uninstallDriver published
      failInstall

/-- Every value is written before the step it describes, so that a rollback can undo a half-done
step. -/
def installFresh (payloadDir dir version : WString) : Flow ℕ := do
  if ← writeValue .installDir dir then
    if ← copyPayload payloadDir dir then
      let driverDir := dir ++ wide "\\driver"
      match ← signDriver driverDir with
      | none => failInstall
      | some cert =>
        if ← writeValue .certThumbprint cert.thumbprint then
          if ← trustCertificate cert.encoded then installNode driverDir version else failInstall
        else failInstall
    else failInstall
  else failInstall

/-- `RunInstall` begins by retiring what an update left behind for it. -/
def retireFirst : Flow (Option InstallState) := do
  let state ← readState
  match state with
  | some s =>
    if s.pendingCertThumbprint.isEmpty && s.pendingDriverInf.isEmpty &&
        (!s.previousCertThumbprint.isEmpty || !s.previousDriverInf.isEmpty) then
      retirePrevious s
      readState
    else return state
  | none => return state

def installMode (state : Option InstallState) (dir : WString) : Flow InstallMode := do
  let devices ← countDevices false
  let presentDevices ← countDevices true
  let mode := chooseInstallMode state devices presentDevices
  return if mode = .update ∧ !(state.any fun s => sameName s.installDir dir) then .reinstall else mode

def runInstall (payloadDir version : WString) : Flow ℕ := do
  let state ← retireFirst
  let dir ← defaultInstallDir
  match ← installMode state dir, state with
  | .update, some old => runUpdate old payloadDir version
  | .reinstall, _ =>
    let _ ← runUninstall
    installFresh payloadDir dir version
  | _, _ => installFresh payloadDir dir version

/-! ## Effects -/

section
variable {effects : Effect → Prop}

theorem finishWithPins_effects (h : effects .devices) (installCode : ℕ) :
    Effects effects (finishWithPins installCode) :=
  Prog.calls_bind (pinLanes_effects h) fun _ => trivial

theorem unstageOther_effects (h : effects .unstage) (inf driverInf : WString) :
    Effects effects (unstageOther inf driverInf) :=
  Prog.calls_ite (fun _ => Prog.calls_bind (unstagePackage_effects h _) fun _ => trivial)
    fun _ => trivial

theorem signFiles_effects (h : effects .files) (cert : SigningCert) (driverDir : WString) :
    Effects effects (signFiles cert driverDir) :=
  Prog.calls_bind (signFile_effects h _ _) fun _ =>
    Prog.calls_ite (fun _ => signFile_effects h _ _) fun _ => trivial

theorem signDriver_effects (hk : effects .keys) (hf : effects .files) (driverDir : WString) :
    Effects effects (signDriver driverDir) := by
  refine Prog.calls_bind (createSigningCert_effects hk true) fun cert => ?_
  cases cert with
  | none => trivial
  | some cert =>
    exact Prog.calls_bind (signFiles_effects hf cert driverDir) fun _ =>
      Prog.calls_bind (destroySigningKey_effects hk cert) fun _ => trivial

theorem installMode_effects (state : Option InstallState) (dir : WString) :
    Effects effects (installMode state dir) :=
  Prog.calls_bind (countDevices_effects _) fun _ =>
    Prog.calls_bind (countDevices_effects _) fun _ => trivial

theorem installMode_spec (state : Option InstallState) (dir : WString) (w : World) :
    wp exec (Frame (fun _ => False) w)
      (fun mode w' => Frame (fun _ => False) w w' ∧ Chosen state dir mode)
      (installMode state dir) w := by
  refine wp_seq (wp_effects (countDevices_effects false) w) fun devices u _ hu => ?_
  refine wp_seq (wp_mono (fun _ hf => hu.trans hf) (fun _ _ _ hf => hu.trans hf)
    (wp_effects (countDevices_effects true) u)) ?_
  exact fun presentDevices v hv _ => ⟨hv, hv, chooseInstallMode_chosen _ _ _ _ _ rfl⟩

theorem retireCert_effects (hr : effects .registry) (hu : effects .untrust) (state : InstallState) :
    Effects effects (retireCert state) :=
  Prog.calls_ite
    (fun _ => Prog.calls_bind (removeTrustedCertificate_effects hu _) fun _ => deleteValue_effects hr _)
    fun _ => trivial

theorem retireInf_effects (hr : effects .registry) (hs : effects .unstage) (state : InstallState) :
    Effects effects (retireInf state) :=
  Prog.calls_ite
    (fun _ => Prog.calls_bind (unstagePackage_effects hs _) fun _ =>
      Prog.calls_ite (fun _ => deleteValue_effects hr _) fun _ => trivial)
    fun _ => trivial

theorem retirePrevious_effects (hr : effects .registry) (hu : effects .untrust)
    (hs : effects .unstage) (state : InstallState) : Effects effects (retirePrevious state) :=
  Prog.calls_bind (retireCert_effects hr hu state) fun _ => retireInf_effects hr hs state

theorem retireFirst_effects (hr : effects .registry) (hu : effects .untrust)
    (hs : effects .unstage) : Effects effects retireFirst := by
  refine Prog.calls_bind readState_effects fun state => ?_
  cases state with
  | none => trivial
  | some s =>
    refine Prog.calls_ite (fun _ => ?_) fun _ => trivial
    exact Prog.calls_bind (retirePrevious_effects hr hu hs s) fun _ => readState_effects

theorem failUpdate_effects (hr : effects .registry) (hu : effects .untrust) (hs : effects .unstage)
    (old : InstallState) (pendingCert pendingInf : WString) :
    Effects effects (failUpdate old pendingCert pendingInf) :=
  Prog.calls_bind (unstageOther_effects hs _ _) fun _ =>
    Prog.calls_bind (removeTrustedCertificate_effects hu _) fun _ =>
      Prog.calls_bind (deleteValue_effects hr _) fun _ =>
        Prog.calls_bind (deleteValue_effects hr _) fun _ => trivial

theorem uninstallRecorded_effects (hu : effects .untrust) (hs : effects .unstage)
    (hf : effects .files) (state : Option InstallState) :
    Effects effects (uninstallRecorded state) := by
  cases state with
  | none => trivial
  | some s =>
    refine Prog.calls_bind (unstageOther_effects hs _ _) fun _ => ?_
    refine Prog.calls_bind (unstageOther_effects hs _ _) fun _ => ?_
    refine Prog.calls_bind (removeTrustedCertificate_effects hu _) fun _ => ?_
    refine Prog.calls_bind (removeTrustedCertificate_effects hu _) fun _ => ?_
    refine Prog.calls_bind (removeTrustedCertificate_effects hu _) fun _ => ?_
    exact Prog.calls_ite (fun _ => removeInstallDir_effects hf _) fun _ => trivial

theorem runUninstall_effects (hr : effects .registry) (hu : effects .untrust)
    (hs : effects .unstage) (hf : effects .files) (hd : effects .devices) :
    Effects effects runUninstall :=
  Prog.calls_bind readState_effects fun _ =>
    Prog.calls_bind (uninstallDriver_effects hd hs _) fun _ =>
      Prog.calls_bind (uninstallRecorded_effects hu hs hf _) fun _ =>
        Prog.calls_bind (deleteState_effects hr) fun _ => trivial

theorem failInstall_effects (hr : effects .registry) (hu : effects .untrust) (hs : effects .unstage)
    (hf : effects .files) (hd : effects .devices) : Effects effects failInstall :=
  Prog.calls_bind (runUninstall_effects hr hu hs hf hd) fun _ => trivial

theorem keepPackage_effects (hr : effects .registry) (hu : effects .untrust) (hd : effects .devices)
    (cert : SigningCert) (version : WString) (reboot : Bool) :
    Effects effects (keepPackage cert version reboot) := by
  refine Prog.calls_bind (removeTrustedCertificate_effects hu _) fun _ => ?_
  refine Prog.calls_bind (deleteValue_effects hr _) fun _ => ?_
  refine Prog.calls_bind (deleteValue_effects hr _) fun _ => ?_
  refine Prog.calls_bind (writeValue_effects hr _ _) fun _ => ?_
  exact Prog.calls_ite (fun _ => finishWithPins_effects hd _) fun _ => trivial

theorem promoteValues_effects (hr : effects .registry) (old : InstallState) (cert : SigningCert)
    (published : WString) : Effects effects (promoteValues old cert published) := by
  refine Prog.calls_bind (writeValue_effects hr _ _) fun _ => Prog.calls_ite (fun _ => ?_) fun _ => trivial
  refine Prog.calls_bind (writeValue_effects hr _ _) fun _ => Prog.calls_ite (fun _ => ?_) fun _ => trivial
  refine Prog.calls_bind (writeValue_effects hr _ _) fun _ => Prog.calls_ite (fun _ => ?_) fun _ => trivial
  exact writeValue_effects hr _ _

theorem promote_effects (hr : effects .registry) (hu : effects .untrust) (hs : effects .unstage)
    (hd : effects .devices) (old : InstallState) (cert : SigningCert) (published version : WString)
    (reboot : Bool) : Effects effects (promote old cert published version reboot) := by
  refine Prog.calls_bind (promoteValues_effects hr _ _ _) fun _ => Prog.calls_ite (fun _ => ?_) fun _ => trivial
  refine Prog.calls_bind (deleteValue_effects hr _) fun _ => ?_
  refine Prog.calls_bind (deleteValue_effects hr _) fun _ => ?_
  refine Prog.calls_bind readState_effects fun promoted => Prog.calls_bind ?_ fun _ => ?_
  · cases promoted with
    | none => trivial
    | some promoted => exact retirePrevious_effects hr hu hs promoted
  · refine Prog.calls_bind (writeValue_effects hr _ _) fun _ => ?_
    exact Prog.calls_ite (fun _ => finishWithPins_effects hd _) fun _ => trivial

theorem swapPackage_effects (hr : effects .registry) (hu : effects .untrust) (hs : effects .unstage)
    (hd : effects .devices) (hg : effects .stage) (old : InstallState) (cert : SigningCert)
    (driverDir version : WString) : Effects effects (swapPackage old cert driverDir version) := by
  refine Prog.calls_bind (stagePackage_effects hg _) fun published => ?_
  cases published with
  | none => exact failUpdate_effects hr hu hs _ _ _
  | some published =>
    refine Prog.calls_bind (writeValue_effects hr _ _) fun _ => Prog.calls_ite (fun _ => ?_) fun _ =>
      failUpdate_effects hr hu hs _ _ _
    refine Prog.calls_bind (updateDevice_effects hd _) fun reboot => ?_
    cases reboot with
    | none => exact failUpdate_effects hr hu hs _ _ _
    | some reboot =>
      exact Prog.calls_ite (fun _ => keepPackage_effects hr hu hd _ _ _) fun _ =>
        promote_effects hr hu hs hd _ _ _ _ _

theorem installNode_effects (hr : effects .registry) (hu : effects .untrust) (hs : effects .unstage)
    (hf : effects .files) (hd : effects .devices) (hg : effects .stage)
    (driverDir version : WString) : Effects effects (installNode driverDir version) := by
  refine Prog.calls_bind (installDriver_effects hd hs hg _) fun installed => ?_
  cases installed with
  | none => exact failInstall_effects hr hu hs hf hd
  | some installed =>
    refine Prog.calls_bind (writeValue_effects hr _ _) fun _ => Prog.calls_ite (fun _ => ?_) fun _ => ?_
    · refine Prog.calls_bind (writeValue_effects hr _ _) fun _ => ?_
      exact Prog.calls_ite (fun _ => finishWithPins_effects hd _) fun _ => failInstall_effects hr hu hs hf hd
    · exact Prog.calls_bind (uninstallDriver_effects hd hs _) fun _ => failInstall_effects hr hu hs hf hd

end

/-! ## The certificate of an install -/

theorem signDriver_ends {can : (c : Call) → c.Resp → Prop} {P : Certificate → Prop}
    (hcan : ∀ key c, can (.certCreateSelfSignCertificate key) (some c) → P c) (driverDir : WString) :
    (signDriver driverDir).Ends (Generated P) can := by
  refine Prog.ends_bind (createSigningCert_ends hcan true) ?_
  rintro (_ | cert) hcert
  · exact fun _ hc => nomatch hc
  refine Prog.ends_bind (Prog.ends_true _) fun ok _ => ?_
  refine Prog.ends_bind (destroySigningKey_ends cert) ?_
  rintro _ rfl cert' hc
  simp only [Option.ite_none_right_eq_some, Option.some.injEq] at hc
  obtain ⟨-, rfl⟩ := hc
  exact hcert cert rfl

/-! ## The three ways to install -/

/-- What an install keeps, its three ways keep. -/
theorem runInstall_cases {E : Exec Call Call.Resp Outcome World} (hE : E.Sub exec)
    {I : World → Prop} {Q : ℕ → World → Prop} {payloadDir version : WString} {w : World}
    (hI : ∀ {u v}, I u → Frame (fun _ => False) u v → I v)
    (hfirst : wp E I (fun state u => Reads u state) retireFirst w)
    (hupdate : ∀ {old dir u}, I u → Reads u (some old) → Chosen (some old) dir .update →
      wp E I Q (runUpdate old payloadDir version) u)
    (hreinstall : ∀ {dir u}, I u →
      wp E I Q (runUninstall >>= fun _ => installFresh payloadDir dir version) u)
    (hfresh : ∀ {dir u}, I u → Reads u none → wp E I Q (installFresh payloadDir dir version) u) :
    wp E I Q (runInstall payloadDir version) w := by
  refine wp_seq hfirst fun state u hu hs => ?_
  refine wp_seq (wp_keep hE defaultInstallDir_effects fun _ => hI hu) fun dir v hv hf => ?_
  have hsv : Reads v state := hs.frame hf id
  refine wp_seq (wp_mono (fun _ hx => hI hv hx) (fun _ _ _ hx => hx)
    (wp_sub hE (installMode_spec state dir v))) ?_
  rintro mode x hx ⟨hfx, hmode⟩
  have hsx : Reads x state := hsv.frame hfx id
  split
  · exact hupdate hx hsx hmode
  · exact hreinstall hx
  · next m st hrest hrest' =>
    obtain rfl := hmode.none_of_rest hrest hrest'
    exact hfresh hx hsx

end VirtualGun.Setup
