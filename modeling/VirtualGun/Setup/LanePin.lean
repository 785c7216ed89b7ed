import VirtualGun.Setup.DriverInstall

/-!
# Pinning the lanes

`setup/lane_pin.cpp`, `setup/lane_pin_rules.h` and `shared/lane_devnode.h`.
-/

open VirtualGun.Program

namespace VirtualGun.Setup

/-! ## The rules -/

/-- One lane's VHF devnode key as setup found it. -/
structure LaneKey where
  found : Bool
  /-- PnP finished installing it. -/
  installed : Bool
  parentIdPrefix : WString
  deriving DecidableEq, Repr

/-- Any key under `Enum\VHF\HID_DEVICE_SYSTEM_VHF`. -/
structure VhfKey where
  name : WString
  parentIdPrefix : WString
  deriving DecidableEq, Repr

inductive PinAction where
  | alreadyPinned
  | write
  | createFirst
  | removeThenCreate
  | collision
  deriving DecidableEq, Repr

structure PinSummary where
  driverUnavailable : Bool
  failed : ℕ
  deriving DecidableEq, Repr

/-- The bit PnP sets on a devnode whose driver install failed. -/
def configFlagFailedInstall : ℕ := 0x40

def isInstalledLaneKey (hasDriverValue : Bool) (configFlags : ℕ) : Bool :=
  hasDriverValue && configFlags &&& configFlagFailedInstall == 0

def decidePin (key : LaneKey) (pinned : WString) (collides : Bool) : PinAction :=
  if !key.found then .createFirst
  else if !key.installed then .removeThenCreate
  else if sameId key.parentIdPrefix pinned then .alreadyPinned
  else if collides then .collision
  else .write

/-- Whether a key other than the target, and not the same lane's, holds the pinned value. -/
def isCollision (keys : List VhfKey) (targetName : WString) (lane : ℕ) (pinned : WString) : Bool :=
  keys.any fun k =>
    !sameId k.name targetName && sameId k.parentIdPrefix pinned && !isLaneKeyOf k.name lane

/-- The install already succeeded with `installCode`; pins only ever make it worse. -/
def pinExitCode (installCode : ℕ) (pins : PinSummary) : ℕ :=
  if pins.driverUnavailable then if installCode = 3010 then 3010 else 1
  else if 0 < pins.failed then 1
  else installCode

/-! ## Lane devnodes -/

/-- Instance IDs of a lane's VHF devnodes, in so many attempts. -/
def laneVhfInstances (lane : ℕ) (presentOnly : Bool) : ℕ → Flow (List WString)
  | 0 => return []
  | attempts + 1 => do
    match ← perform (.cmGetDeviceIdListSize presentOnly) with
    | none | some 0 => return []
    | some _ =>
      match ← perform (.cmGetDeviceIdList presentOnly) with
      -- A device arrived between the two calls.
      | .bufferSmall => laneVhfInstances lane presentOnly attempts
      | .failed => return []
      | .ids l => return l.filter fun id => isLaneKeyOf id lane

def startedMouse : List WString → Flow WString
  | [] => return []
  | vhf :: vhfs => do
    if ← attempt (.cmLocateDevNode vhf) then
      if ← attempt .cmGetChild then
        if ← attempt .cmGetDevNodeStatus then
          match ← perform .cmGetDeviceId with
          | some id => return cStr id
          | none => startedMouse vhfs
        else startedMouse vhfs
      else startedMouse vhfs
    else startedMouse vhfs

/-- The started HID mouse under the lane's present VHF devnode, or empty. -/
def laneHidInstanceId (lane : ℕ) : Flow WString := do
  startedMouse (← laneVhfInstances lane true 3)

/-! ## Pinning -/

/-- `WaitFor`: a wait of `polls` times `POLL`. -/
def waitFor (done : Flow Bool) : ℕ → Flow Bool
  | 0 => done
  | polls + 1 => do
    if ← done then return true
    else if ← attempt .beforeEnd then waitFor done polls
    else return false

def readLaneKey (name : WString) : Flow LaneKey := do
  if ← perform (.regOpenVhfKey name) then
    let parentIdPrefix ← perform (.regGetVhfPrefix name)
    let flags ← perform (.regGetVhfFlags name)
    let driver ← perform (.regGetVhfDriver name)
    return ⟨true, isInstalledLaneKey (!(cStr driver).isEmpty) flags, cStr parentIdPrefix⟩
  else return ⟨false, false, []⟩

def readVhfNames : List WString → Flow (List VhfKey)
  | [] => return []
  | name :: names => do
    if ← attempt .regEnumKey then
      let parentIdPrefix ← perform (.regGetVhfPrefix name)
      let keys ← readVhfNames names
      return ⟨name, cStr parentIdPrefix⟩ :: keys
    else return []

def readVhfKeys : Flow (List VhfKey) := do
  match ← perform .regOpenVhfKeys with
  | some names => readVhfNames names
  | none => return []

def awaitMouse (lane : ℕ) (started : Bool) : Flow Bool := do
  if started then waitFor (do return !(← laneHidInstanceId lane).isEmpty) 150 else return false

/-- Creates the lane so that PnP installs it, waits for its mouse (15 s), then takes it down again
and waits until it is gone (10 s). -/
def createOnce (lane : ℕ) : Flow Bool := do
  if ← attempt (.winUHidCreateDevice (laneInstanceName lane)) then
    let started ← perform (.winUHidStartDevice lane)
    let ok ← awaitMouse lane started
    if ← waitFor (do return (← laneVhfInstances lane true 3).isEmpty) 100 then return ok
    else return false
  else return false

/-- True when the lane ends up pinned, in so many rounds. -/
def pinLane (rootId : WString) (lane : ℕ) : ℕ → Flow Bool
  | 0 => return false
  | rounds + 1 => do
    let rootPrefix ← perform (.regGetRootPrefix rootId)
    if cStr rootPrefix = [] then
      -- No lane was ever created under this root node; the first creation names the keys.
      if ← createOnce lane then pinLane rootId lane rounds else return false
    else
      let name := laneKeyName (cStr rootPrefix) lane
      let key ← readLaneKey name
      let keys ← readVhfKeys
      match decidePin key (pinnedPrefix lane) (isCollision keys name lane (pinnedPrefix lane)) with
      | .alreadyPinned => return true
      | .write => perform (.regSetVhfPrefix name (pinnedPrefix lane))
      | .createFirst => if ← createOnce lane then pinLane rootId lane rounds else return false
      | .removeThenCreate =>
        if ← removeDeviceInstance (vhfInstanceId name) then
          if ← createOnce lane then pinLane rootId lane rounds else return false
        else return false
      | .collision => return false

def pinFrom (rootId : WString) : List ℕ → Flow ℕ
  | [] => return 0
  | lane :: lanes => do
    let pinned ← pinLane rootId lane 4
    let failed ← pinFrom rootId lanes
    return if pinned then failed else failed + 1

def pinLanes : Flow PinSummary := do
  if ← waitFor (attempt .winUHidGetDriverInterfaceVersion) 100 then
    let rootId ← liveRootInstanceId
    if rootId = [] then return ⟨false, vgunMaxLanes⟩
    else
      let failed ← pinFrom rootId (List.range vgunMaxLanes)
      return ⟨false, failed⟩
  else return ⟨true, 0⟩

/-! ## Calls -/

def Attempt.pins : Attempt → Bool
  | .cmLocateDevNode _ | .cmGetChild | .cmGetDevNodeStatus | .beforeEnd | .regEnumKey => true
  | .setupDiCreateDeviceInfoList | .setupDiOpenDeviceInfo _ | .winUHidCreateDevice _ => true
  | _ => false

/-- The calls that the pinning of a lane makes. -/
def Call.pins : Call → Bool
  | .attempt what => what.pins
  | .regGetRootPrefix _ | .regOpenVhfKey _ | .regGetVhfPrefix _ | .regGetVhfFlags _ => true
  | .regGetVhfDriver _ | .regOpenVhfKeys | .regSetVhfPrefix _ _ | .winUHidStartDevice _ => true
  | .diUninstallDevice _ | .cmGetDeviceIdListSize _ | .cmGetDeviceIdList _ | .cmGetDeviceId => true
  | _ => false

/-- The pinning calls that change nothing, and `c`. -/
def Call.looksOr (c : Call) (d : Call) : Prop := d.pins = true ∧ (d.effect = none ∨ d = c)

abbrev LooksOr {α : Type} (c : Call) (p : Flow α) : Prop := p.Calls c.looksOr fun _ _ => True

theorem pins_effect {c : Call} (h : c.pins = true) : c.effect = none ∨ c.effect = some .devices := by
  cases c <;> simp [Call.pins, Call.effect] at h ⊢

section
variable {c : Call}

attribute [local simp] Call.looksOr Call.effect Call.pins Attempt.pins

theorem laneVhfInstances_looks (lane : ℕ) (presentOnly : Bool) (attempts : ℕ) :
    LooksOr c (laneVhfInstances lane presentOnly attempts) := by
  induction attempts with
  | zero => trivial
  | succ attempts ih =>
    simp only [laneVhfInstances, perform, Prog.perform_bind, Prog.calls_call]
    refine ⟨by simp, ?_⟩
    rintro (_ | _ | size) -
    · trivial
    · trivial
    · refine ⟨by simp, ?_⟩
      rintro (ids | _ | _) -
      · trivial
      · exact ih
      · trivial

theorem startedMouse_looks (ids : List WString) : LooksOr c (startedMouse ids) := by
  induction ids with
  | nil => trivial
  | cons id ids ih =>
    simp only [startedMouse, attempt, perform, Prog.perform_bind, Prog.calls_call]
    refine ⟨by simp, fun _ _ => Prog.calls_ite (fun _ => ⟨by simp, fun _ _ => ?_⟩) fun _ => ih⟩
    refine Prog.calls_ite (fun _ => ⟨by simp, fun _ _ => ?_⟩) fun _ => ih
    refine Prog.calls_ite (fun _ => ⟨by simp, ?_⟩) fun _ => ih
    rintro (_ | found) -
    · exact ih
    · trivial

theorem laneHidInstanceId_looks (lane : ℕ) : LooksOr c (laneHidInstanceId lane) :=
  Prog.calls_bind (laneVhfInstances_looks _ _ _) fun _ => startedMouse_looks _

theorem waitFor_calls {ok : Call → Prop} {done : Flow Bool} (h : done.Calls ok fun _ _ => True)
    (hw : ok (.attempt .beforeEnd)) (polls : ℕ) : (waitFor done polls).Calls ok fun _ _ => True := by
  induction polls with
  | zero => exact h
  | succ polls ih =>
    refine Prog.calls_bind h fun _ => Prog.calls_ite (fun _ => trivial) fun _ => ?_
    exact ⟨hw, fun _ _ => Prog.calls_ite (fun _ => ih) fun _ => trivial⟩

theorem readLaneKey_looks (name : WString) : LooksOr c (readLaneKey name) := by
  simp only [readLaneKey, perform, Prog.perform_bind, Prog.calls_call]
  exact ⟨by simp, fun _ _ => Prog.calls_ite (fun _ => by simp) fun _ => trivial⟩

theorem readVhfNames_looks (names : List WString) : LooksOr c (readVhfNames names) := by
  induction names with
  | nil => trivial
  | cons name names ih =>
    simp only [readVhfNames, attempt, perform, Prog.perform_bind, Prog.calls_call]
    refine ⟨by simp, fun _ _ => Prog.calls_ite (fun _ => ⟨by simp, fun _ _ => ?_⟩) fun _ => trivial⟩
    exact Prog.calls_bind ih fun _ => trivial

theorem readVhfKeys_looks : LooksOr c readVhfKeys := by
  simp only [readVhfKeys, perform, Prog.perform_bind, Prog.calls_call]
  refine ⟨by simp, ?_⟩
  rintro (_ | names) -
  · trivial
  · exact readVhfNames_looks names

theorem awaitMouse_looks (lane : ℕ) (started : Bool) : LooksOr c (awaitMouse lane started) := by
  apply Prog.calls_ite
  · intro
    have hmouse : LooksOr c (do return !(← laneHidInstanceId lane).isEmpty) :=
      Prog.calls_bind (laneHidInstanceId_looks lane) fun _ => trivial
    exact waitFor_calls hmouse (by simp) _
  · exact fun _ => trivial

theorem createOnce_looks (lane : ℕ) : LooksOr (.winUHidStartDevice lane) (createOnce lane) := by
  simp only [createOnce, attempt, perform, Prog.perform_bind, Prog.calls_call]
  refine ⟨by simp, fun _ _ => Prog.calls_ite (fun _ => ⟨by simp, fun started _ => ?_⟩) fun _ => trivial⟩
  refine Prog.calls_bind (awaitMouse_looks lane started) fun _ => Prog.calls_bind ?_ fun _ => ?_
  · have hgone : LooksOr (.winUHidStartDevice lane) (do return (← laneVhfInstances lane true 3).isEmpty) :=
      Prog.calls_bind (laneVhfInstances_looks _ _ _) fun _ => trivial
    exact waitFor_calls hgone (by simp) _
  · exact Prog.calls_ite (fun _ => trivial) fun _ => trivial

theorem removeDeviceInstance_looks (instanceId : WString) :
    LooksOr (.diUninstallDevice instanceId) (removeDeviceInstance instanceId) := by
  simp only [removeDeviceInstance, attempt, perform, Prog.perform_bind, Prog.calls_call]
  refine ⟨by simp, fun _ _ => Prog.calls_ite (fun _ => ⟨by simp, fun _ _ => ?_⟩) fun _ => trivial⟩
  exact Prog.calls_ite (fun _ => by simp [Prog.perform]) fun _ => trivial

/-- The calls that pinning makes, and no others. -/
abbrev PinsOnly {α : Type} (p : Flow α) : Prop := p.Calls (fun c => c.pins = true) fun _ _ => True

theorem LooksOr.pins {α : Type} {p : Flow α} (h : LooksOr c p) : PinsOnly p :=
  Prog.calls_mono (fun _ hd => hd.1) (fun _ _ hr => hr) h

theorem LooksOr.still {α : Type} {p : Flow α} (h : LooksOr .terminate p) :
    Effects (fun _ => False) p := by
  refine Prog.calls_mono (fun d hd x hx => ?_) (fun _ _ hr => hr) h
  rcases hd.2 with hn | rfl
  · rw [hn] at hx
    cases hx
  · cases hx

theorem pinLane_pins (rootId : WString) (lane rounds : ℕ) : PinsOnly (pinLane rootId lane rounds) := by
  induction rounds with
  | zero => trivial
  | succ rounds ih =>
    have again : PinsOnly (createOnce lane >>= fun b => if b then pinLane rootId lane rounds else pure false) :=
      Prog.calls_bind (createOnce_looks lane).pins fun _ => Prog.calls_ite (fun _ => ih) fun _ => trivial
    simp only [pinLane, perform, Prog.perform_bind, Prog.calls_call]
    refine ⟨by simp, fun _ _ => Prog.calls_ite (fun _ => again) fun _ => ?_⟩
    refine Prog.calls_bind (readLaneKey_looks (c := .terminate) _).pins fun _ => ?_
    refine Prog.calls_bind (readVhfKeys_looks (c := .terminate)).pins fun _ => ?_
    split
    · trivial
    · simp [Prog.perform]
    · exact again
    · refine Prog.calls_bind (removeDeviceInstance_looks _).pins fun _ => ?_
      exact Prog.calls_ite (fun _ => again) fun _ => trivial
    · trivial

theorem pinFrom_pins (rootId : WString) (lanes : List ℕ) : PinsOnly (pinFrom rootId lanes) := by
  induction lanes with
  | nil => trivial
  | cons lane lanes ih =>
    exact Prog.calls_bind (pinLane_pins _ _ _) fun _ => Prog.calls_bind ih fun _ => trivial

end

theorem pinLanes_effects {effects : Effect → Prop} (h : effects .devices) : Effects effects pinLanes := by
  have hpins : ∀ c : Call, c.pins = true → ∀ x, c.effect = some x → effects x := by
    intro c hc x hx
    rcases pins_effect hc with hn | hd
    · rw [hn] at hx
      cases hx
    · rw [hd] at hx
      exact Option.some.inj hx ▸ h
  have hopen : Effects effects (attempt .winUHidGetDriverInterfaceVersion) := by
    simp [attempt, Prog.perform, Call.effect]
  refine Prog.calls_bind (waitFor_calls hopen (by simp [Call.effect]) _) fun _ => ?_
  refine Prog.calls_ite (fun _ => Prog.calls_bind liveRootInstanceId_effects fun rootId => ?_) fun _ => trivial
  refine Prog.calls_ite (fun _ => trivial) fun _ => Prog.calls_bind ?_ fun _ => trivial
  exact Prog.calls_mono hpins (fun _ _ hr => hr) (pinFrom_pins rootId _)

end VirtualGun.Setup
