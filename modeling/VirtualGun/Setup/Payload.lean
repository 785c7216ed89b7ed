import VirtualGun.Setup.Calls

/-!
# The payload

`setup/payload.cpp`: the files an install copies, and the removal of the install directory.
-/

open VirtualGun.Program

namespace VirtualGun.Setup

/-- Files the release zip carries, relative to its root. -/
def payloadFiles : List WString :=
  [wide "vrlf-virtual-gun-setup.exe", wide "driver\\VRLFVirtualGun.dll",
    wide "driver\\VRLFVirtualGun.inf", wide "driver\\vrlfvirtualgun.cat", wide "LICENSE",
    wide "THIRD_PARTY_NOTICES.md"]

def defaultInstallDir : Flow WString := do
  match ← perform .getEnvironmentVariable with
  | some base => return base ++ wide "\\VRLF Virtual Lightgun"
  | none => return wide "C:\\Program Files\\VRLF Virtual Lightgun"

/-- `path(dir) / rel` for a relative path. -/
def joinPath (dir rel : WString) : WString :=
  if dir.getLast?.all fun c => c == 92 || c == 47 || c == 58 then dir ++ rel
  else dir ++ wide "\\" ++ rel

def copyFiles (source target : WString) : List WString → Flow Bool
  | [] => return true
  | rel :: rels => do
    if ← perform (.copyFile (joinPath source rel) (joinPath target rel)) then
      copyFiles source target rels
    else return false

def copyPayload (source target : WString) : Flow Bool := do
  if ← attempt (.equivalent source target) then return false
  else if ← attempt (.createDirectories (joinPath target (wide "driver"))) then
    copyFiles source target payloadFiles
  else return false

def fileName (path : WString) : WString := (path.reverse.takeWhile (· != 92)).reverse

/-- `extension() == L".old"`. -/
def isOld (path : WString) : Bool :=
  (wide ".old").isSuffixOf (fileName path) && 4 < (fileName path).length

def regularFiles : List WString → Flow (List WString)
  | [] => return []
  | path :: paths => do
    let regular ← attempt (.isRegularFile path)
    let files ← regularFiles paths
    return if regular then path :: files else files

/-- The stale copies an earlier removal renamed aside. -/
def deleteOld : List WString → Flow Unit
  | [] => return ()
  | path :: paths => do
    if isOld path then
      let _ ← perform (.deleteFile path)
      deleteOld paths
    else deleteOld paths

/-- A file in use is renamed aside, and the renamed copy goes at the next start. -/
def moveAside (path : WString) : Flow Unit := do
  let oldPath := path ++ wide ".old"
  if ← perform (.moveFile path oldPath) then
    let _ ← perform (.moveFileDelayed oldPath)
  else
    let _ ← perform (.moveFileDelayed path)

def deleteFiles : List WString → Flow Unit
  | [] => return ()
  | path :: paths => do
    if isOld path then deleteFiles paths
    else if ← perform (.deleteFile path) then deleteFiles paths
    else
      moveAside path
      deleteFiles paths

def removeInstallDir (dir : WString) : Flow Unit := do
  match ← perform (.recursiveDirectoryIterator dir) with
  | none =>
    let never ← perform .terminate
    return never.elim
  | some entries =>
    let files ← regularFiles entries
    deleteOld files
    deleteFiles files
    let _ ← attempt (.remove (joinPath dir (wide "driver")))
    if ← attempt (.removeDirectory dir) then return ()
    else
      let _ ← perform (.moveFileDelayed dir)

/-! ## Effects -/

section
variable {effects : Effect → Prop}

attribute [local simp] Call.effect

theorem defaultInstallDir_effects : Effects effects defaultInstallDir := by
  simp only [defaultInstallDir, perform, Prog.perform_bind, Prog.calls_call]
  refine ⟨by simp, ?_⟩
  rintro (_ | base) - <;> trivial

theorem copyFiles_effects (h : effects .files) (source target : WString) (rels : List WString) :
    Effects effects (copyFiles source target rels) := by
  induction rels with
  | nil => trivial
  | cons rel rels ih =>
    simp only [copyFiles, perform, Prog.perform_bind, Prog.calls_call]
    exact ⟨by simp [h], fun _ _ => Prog.calls_ite (fun _ => ih) fun _ => trivial⟩

theorem copyPayload_effects (h : effects .files) (source target : WString) :
    Effects effects (copyPayload source target) := by
  simp only [copyPayload, attempt, perform, Prog.perform_bind, Prog.calls_call]
  refine ⟨by simp, fun _ _ => Prog.calls_ite (fun _ => trivial) fun _ => ⟨by simp, fun _ _ => ?_⟩⟩
  exact Prog.calls_ite (fun _ => copyFiles_effects h _ _ _) fun _ => trivial

theorem regularFiles_effects (paths : List WString) : Effects effects (regularFiles paths) := by
  induction paths with
  | nil => trivial
  | cons path paths ih =>
    simp only [regularFiles, attempt, perform, Prog.perform_bind, Prog.calls_call]
    exact ⟨by simp, fun _ _ => Prog.calls_bind ih fun _ => trivial⟩

theorem deleteOld_effects (h : effects .files) (paths : List WString) :
    Effects effects (deleteOld paths) := by
  induction paths with
  | nil => trivial
  | cons path paths ih =>
    exact Prog.calls_ite (fun _ => ⟨by simp [h], fun _ _ => ih⟩) fun _ => ih

theorem moveAside_effects (h : effects .files) (path : WString) :
    Effects effects (moveAside path) := by
  simp only [moveAside, perform, Prog.perform_bind, Prog.calls_call]
  exact ⟨by simp [h], fun _ _ => Prog.calls_ite (fun _ => by simp [h]) fun _ => by simp [h]⟩

theorem deleteFiles_effects (h : effects .files) (paths : List WString) :
    Effects effects (deleteFiles paths) := by
  induction paths with
  | nil => trivial
  | cons path paths ih =>
    simp only [deleteFiles, perform, Prog.perform_bind]
    refine Prog.calls_ite (fun _ => ih) fun _ => ⟨by simp [h], fun _ _ => ?_⟩
    exact Prog.calls_ite (fun _ => ih) fun _ => Prog.calls_bind (moveAside_effects h _) fun _ => ih

theorem removeInstallDir_effects (h : effects .files) (dir : WString) :
    Effects effects (removeInstallDir dir) := by
  simp only [removeInstallDir, attempt, perform, Prog.perform_bind, Prog.calls_call]
  refine ⟨by simp, ?_⟩
  rintro (_ | entries) -
  · exact ⟨by simp, fun r => r.elim⟩
  · refine Prog.calls_bind (regularFiles_effects _) fun files => ?_
    refine Prog.calls_bind (deleteOld_effects h files) fun _ => ?_
    refine Prog.calls_bind (deleteFiles_effects h files) fun _ => ⟨by simp, fun _ _ => ⟨by simp, fun _ _ => ?_⟩⟩
    exact Prog.calls_ite (fun _ => trivial) fun _ => by simp [h]

end

end VirtualGun.Setup
