import VirtualGun.Setup.Calls

/-!
# The driver package and the device node

`setup/driver_install.cpp`. A device information set is the list of its devices.
-/

open VirtualGun.Program

namespace VirtualGun.Setup

def isOurDevice (dev : DevNode) : Flow Bool := do
  if ← attempt .setupDiGetDeviceRegistryProperty then return sameName dev.hardwareIds hardwareId
  else return false

/-- Deletes a staged package from the driver store; true for an empty name. -/
def unstagePackage (publishedInf : WString) : Flow Bool := do
  if publishedInf = [] then return true else perform (.setupUninstallOEMInf publishedInf)

def countIn : List DevNode → Flow ℕ
  | [] => return 0
  | dev :: devs => do
    if ← attempt .setupDiEnumDeviceInfo then
      let ours ← isOurDevice dev
      let count ← countIn devs
      return if ours then count + 1 else count
    else return 0

/-- Devnodes whose first hardware ID is `HARDWARE_ID`: all of them, or only present ones. -/
def countDevices (presentOnly : Bool) : Flow ℕ := do
  match ← perform (.setupDiGetClassDevs presentOnly) with
  | some devs => countIn devs
  | none => return 0

def liveRootIn (found : WString) (count : ℕ) : List DevNode → Flow WString
  | [] => return if count = 1 then found else []
  | dev :: devs => do
    if ← attempt .setupDiEnumDeviceInfo then
      if ← isOurDevice dev then
        if ← attempt .setupDiGetDeviceInstanceId then liveRootIn dev.instanceId (count + 1) devs
        else liveRootIn found (count + 1) devs
      else liveRootIn found count devs
    else return if count = 1 then found else []

/-- The instance ID of the one present devnode of ours; empty when there are none or several. -/
def liveRootInstanceId : Flow WString := do
  match ← perform (.setupDiGetClassDevs true) with
  | some devs => liveRootIn [] 0 devs
  | none => return []

def removeDeviceInstance (instanceId : WString) : Flow Bool := do
  if ← attempt .setupDiCreateDeviceInfoList then
    if ← attempt (.setupDiOpenDeviceInfo instanceId) then perform (.diUninstallDevice instanceId)
    else return false
  else return false

def removeIn : List DevNode → Flow ℕ
  | [] => return 0
  | dev :: devs => do
    if ← attempt .setupDiEnumDeviceInfo then
      if ← isOurDevice dev then
        let gone ← perform (.diUninstallDevice dev.instanceId)
        let removed ← removeIn devs
        return if gone then removed + 1 else removed
      else removeIn devs
    else return 0

/-- Removes every devnode of ours, present or not. -/
def removeDevices : Flow ℕ := do
  match ← perform (.setupDiGetClassDevs false) with
  | some devs => removeIn devs
  | none => return 0

/-- Copies the package into the driver store and returns its published name. -/
def stagePackage (inf : WString) : Flow (Option WString) := perform (.setupCopyOEMInf inf)

/-- Whether a reboot is needed; `none` if the device did not take the package. -/
def updateDevice (inf : WString) : Flow (Option Bool) :=
  perform (.updateDriverForPlugAndPlayDevices hardwareId inf)

/-- The failure branches of `InstallDriver` behind the staging. -/
def dropPackage (publishedInf : WString) : Flow (Option (WString × Bool)) := do
  let _ ← unstagePackage publishedInf
  return none

/-- Creates and registers the root devnode, and returns its instance ID. -/
def registerDevice : Flow (Option WString) := do
  let ids := multiSz [hardwareId]
  if ← attempt .setupDiCreateDeviceInfo then
    if ← attempt (.setupDiSetDeviceRegistryProperty ids) then perform (.setupDiRegisterDevice ids)
    else return none
  else return none

/-- `InstallDriver` behind the staging. -/
def installPackage (inf publishedInf : WString) : Flow (Option (WString × Bool)) := do
  if ← attempt (.setupDiGetINFClass inf) then
    if ← attempt .setupDiCreateDeviceInfoList then
      match ← registerDevice with
      | some instanceId =>
        match ← perform (.updateDriverForPlugAndPlayDevices hardwareId inf) with
        | some reboot =>
          let _ ← perform .setupDiGetDriverInfPath
          return some (publishedInf, reboot)
        | none =>
          let _ ← perform (.setupDiRemoveDevice instanceId)
          dropPackage publishedInf
      | none => dropPackage publishedInf
    else dropPackage publishedInf
  else dropPackage publishedInf

/-- The published name and whether a reboot is needed; `none` if it failed. -/
def installDriver (inf : WString) : Flow (Option (WString × Bool)) := do
  let _ ← removeDevices
  match ← stagePackage inf with
  | some publishedInf => installPackage inf publishedInf
  | none => return none

def uninstallDriver (publishedInf : WString) : Flow Unit := do
  let _ ← removeDevices
  let _ ← unstagePackage publishedInf

/-! ## Effects -/

section
variable {effects : Effect → Prop}

attribute [local simp] Call.effect

theorem isOurDevice_effects (dev : DevNode) : Effects effects (isOurDevice dev) := by
  simp only [isOurDevice, attempt, perform, Prog.perform_bind, Prog.calls_call]
  exact ⟨by simp, fun _ _ => Prog.calls_ite (fun _ => trivial) fun _ => trivial⟩

theorem unstagePackage_effects (h : effects .unstage) (publishedInf : WString) :
    Effects effects (unstagePackage publishedInf) :=
  Prog.calls_ite (fun _ => trivial) fun _ => by simp [Prog.perform, h]

theorem countIn_effects (devs : List DevNode) : Effects effects (countIn devs) := by
  induction devs with
  | nil => trivial
  | cons dev devs ih =>
    simp only [countIn, attempt, perform, Prog.perform_bind, Prog.calls_call]
    refine ⟨by simp, fun _ _ => Prog.calls_ite (fun _ => ?_) fun _ => trivial⟩
    exact Prog.calls_bind (isOurDevice_effects _) fun _ => Prog.calls_bind ih fun _ => trivial

theorem countDevices_effects (presentOnly : Bool) : Effects effects (countDevices presentOnly) := by
  simp only [countDevices, perform, Prog.perform_bind, Prog.calls_call]
  refine ⟨by simp, ?_⟩
  rintro (_ | devs) -
  · trivial
  · exact countIn_effects devs

theorem liveRootIn_effects (found : WString) (count : ℕ) (devs : List DevNode) :
    Effects effects (liveRootIn found count devs) := by
  induction devs generalizing found count with
  | nil => trivial
  | cons dev devs ih =>
    simp only [liveRootIn, attempt, perform, Prog.perform_bind, Prog.calls_call]
    refine ⟨by simp, fun _ _ => Prog.calls_ite (fun _ => ?_) fun _ => trivial⟩
    refine Prog.calls_bind (isOurDevice_effects _) fun _ => Prog.calls_ite (fun _ => ?_) fun _ => ih _ _
    exact ⟨by simp, fun _ _ => Prog.calls_ite (fun _ => ih _ _) fun _ => ih _ _⟩

theorem liveRootInstanceId_effects : Effects effects liveRootInstanceId := by
  simp only [liveRootInstanceId, perform, Prog.perform_bind, Prog.calls_call]
  refine ⟨by simp, ?_⟩
  rintro (_ | devs) -
  · trivial
  · exact liveRootIn_effects _ _ devs

theorem removeIn_effects (h : effects .devices) (devs : List DevNode) :
    Effects effects (removeIn devs) := by
  induction devs with
  | nil => trivial
  | cons dev devs ih =>
    simp only [removeIn, attempt, perform, Prog.perform_bind, Prog.calls_call]
    refine ⟨by simp, fun _ _ => Prog.calls_ite (fun _ => ?_) fun _ => trivial⟩
    refine Prog.calls_bind (isOurDevice_effects _) fun _ => Prog.calls_ite (fun _ => ?_) fun _ => ih
    exact ⟨by simp [h], fun _ _ => Prog.calls_bind ih fun _ => trivial⟩

theorem removeDevices_effects (h : effects .devices) : Effects effects removeDevices := by
  simp only [removeDevices, perform, Prog.perform_bind, Prog.calls_call]
  refine ⟨by simp, ?_⟩
  rintro (_ | devs) -
  · trivial
  · exact removeIn_effects h devs

theorem stagePackage_effects (h : effects .stage) (inf : WString) :
    Effects effects (stagePackage inf) := by
  simp [stagePackage, Prog.perform, h]

theorem updateDevice_effects (h : effects .devices) (inf : WString) :
    Effects effects (updateDevice inf) := by
  simp [updateDevice, Prog.perform, h]

theorem dropPackage_effects (h : effects .unstage) (publishedInf : WString) :
    Effects effects (dropPackage publishedInf) :=
  Prog.calls_bind (unstagePackage_effects h _) fun _ => trivial

theorem registerDevice_effects (h : effects .devices) : Effects effects registerDevice := by
  simp only [registerDevice, attempt, perform, Prog.perform_bind, Prog.calls_call]
  refine ⟨by simp, fun _ _ => Prog.calls_ite (fun _ => ⟨by simp, fun _ _ => ?_⟩) fun _ => trivial⟩
  exact Prog.calls_ite (fun _ => by simp [Prog.perform, h]) fun _ => trivial

theorem installPackage_effects (hd : effects .devices) (hu : effects .unstage)
    (inf publishedInf : WString) : Effects effects (installPackage inf publishedInf) := by
  simp only [installPackage, attempt, perform, Prog.perform_bind, Prog.calls_call]
  refine ⟨by simp, fun _ _ => Prog.calls_ite (fun _ => ⟨by simp, fun _ _ => ?_⟩) fun _ => dropPackage_effects hu _⟩
  refine Prog.calls_ite (fun _ => Prog.calls_bind (registerDevice_effects hd) ?_) fun _ => dropPackage_effects hu _
  rintro (_ | instanceId)
  · exact dropPackage_effects hu _
  · refine ⟨by simp [hd], ?_⟩
    rintro (_ | reboot) -
    · exact ⟨by simp [hd], fun _ _ => dropPackage_effects hu _⟩
    · exact ⟨by simp, fun _ _ => trivial⟩

theorem installDriver_effects (hd : effects .devices) (hu : effects .unstage) (hg : effects .stage)
    (inf : WString) : Effects effects (installDriver inf) := by
  refine Prog.calls_bind (removeDevices_effects hd) fun _ => ?_
  refine Prog.calls_bind (stagePackage_effects hg _) fun published => ?_
  cases published with
  | none => trivial
  | some published => exact installPackage_effects hd hu _ _

theorem uninstallDriver_effects (hd : effects .devices) (hu : effects .unstage)
    (publishedInf : WString) : Effects effects (uninstallDriver publishedInf) :=
  Prog.calls_bind (removeDevices_effects hd) fun _ =>
    Prog.calls_bind (unstagePackage_effects hu _) fun _ => trivial

end

theorem unstagePackage_others (publishedInf : WString) (w : World) :
    wp exec (fun w' => ∀ p ∈ w.packages, ¬ sameName p.published publishedInf → p ∈ w'.packages)
      (fun _ _ => True) (unstagePackage publishedInf) w := by
  refine wp_ite (fun _ => ⟨fun _ hp _ => hp, trivial⟩) fun _ => ⟨fun _ hp _ => hp, fun o r w' he => ?_⟩
  obtain ⟨-, -, rfl⟩ | ⟨-, -, rfl⟩ := tried_eq_some.mp he
  · refine ⟨fun p hp hne => List.mem_filter.mpr ⟨hp, ?_⟩, trivial⟩
    simpa only [Bool.not_eq_true'] using eq_false_of_ne_true hne
  · exact ⟨fun _ hp _ => hp, trivial⟩

end VirtualGun.Setup
