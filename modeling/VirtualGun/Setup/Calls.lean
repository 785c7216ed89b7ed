import VirtualGun.Setup.World
import VirtualGun.Program.Hoare
import Mathlib.Tactic.Common

/-!
# What an OS call does

Setup is a program over `Call`. The outcome of a call is what Windows decides; `exec` says what
the call then does to the world.
-/

open VirtualGun.Program

namespace VirtualGun.Setup

/-- Calls that succeed or fail, and change nothing setup sees. -/
inductive Attempt where
  | ncryptOpenStorageProvider | ncryptSetProperty
  | certStrToName | cryptEncodeObject | certGetCertificateContextProperty
  | loadLibrary | getProcAddress
  | setupDiEnumDeviceInfo | setupDiGetDeviceRegistryProperty | setupDiGetDeviceInstanceId
  | setupDiOpenDeviceInfo (instanceId : WString)
  | setupDiGetINFClass (inf : WString) | setupDiCreateDeviceInfoList
  | setupDiCreateDeviceInfo | setupDiSetDeviceRegistryProperty (ids : WString)
  /-- Whether two paths are one directory. -/
  | equivalent (a b : WString)
  | createDirectories (dir : WString) | isRegularFile (path : WString)
  | remove (path : WString) | removeDirectory (dir : WString)
  | regEnumKey
  | winUHidGetDriverInterfaceVersion
  | winUHidCreateDevice (instance_ : WString)
  | cmLocateDevNode (id : WString) | cmGetChild | cmGetDevNodeStatus
  /-- Whether the clock has not reached the end of a wait, after one more sleep. -/
  | beforeEnd

inductive Call where
  | attempt (what : Attempt)
  /-- An exception nobody catches. -/
  | terminate
  | regOpenKey
  | regGetValueSize (name : ValueName)
  | regGetValue (name : ValueName)
  | regCreateKey
  | regSetValue (name : ValueName) (value : WString)
  | regDeleteKeyValue (name : ValueName)
  | regDeleteKey
  | coCreateGuid
  | ncryptCreatePersistedKey (name : WString) (machine : Bool)
  | ncryptFinalizeKey (key : Key)
  | ncryptDeleteKey (key : Key)
  | certCreateSelfSignCertificate (key : Key)
  /-- `sought` is the hash that `RemoveTrustedCertificate` opens the store for; Windows is not
  told. -/
  | certOpenStore (store : StoreName) (sought : Option (List Byte))
  | certAddEncodedCertificateToStore (store : StoreName) (encoded : Certificate)
  | certFindCertificateInStore (store : StoreName) (hash : List Byte)
  | certDeleteCertificateFromStore (store : StoreName) (found : Certificate)
  | signerSignEx2 (certificate : Certificate) (path : WString)
  | setupCopyOEMInf (inf : WString)
  | setupUninstallOEMInf (published : WString)
  | setupDiGetClassDevs (presentOnly : Bool)
  | diUninstallDevice (instanceId : WString)
  | setupDiRegisterDevice (ids : WString)
  | setupDiRemoveDevice (instanceId : WString)
  | updateDriverForPlugAndPlayDevices (hardwareId inf : WString)
  | setupDiGetDriverInfPath
  | getEnvironmentVariable
  | copyFile (source target : WString)
  | recursiveDirectoryIterator (dir : WString)
  | deleteFile (path : WString)
  | moveFile (source target : WString)
  | moveFileDelayed (path : WString)
  | regGetRootPrefix (rootId : WString)
  | regOpenVhfKey (name : WString)
  | regGetVhfPrefix (name : WString)
  | regGetVhfFlags (name : WString)
  | regGetVhfDriver (name : WString)
  | regOpenVhfKeys
  | regSetVhfPrefix (name value : WString)
  | winUHidStartDevice (lane : ℕ)
  | cmGetDeviceIdListSize (presentOnly : Bool)
  | cmGetDeviceIdList (presentOnly : Bool)
  | cmGetDeviceId

/-- What `CM_Get_Device_ID_List` returns. -/
inductive IdList where
  | ids (l : List WString)
  | bufferSmall
  | failed
  deriving DecidableEq, Repr

abbrev Call.Resp : Call → Type
  | .attempt _ => Bool
  | .terminate => Empty
  | .regOpenKey | .regGetValueSize _ | .regCreateKey | .regSetValue _ _ => Bool
  | .regDeleteKeyValue _ | .regDeleteKey => Bool
  | .regGetValue _ => Option WString
  | .coCreateGuid => WString
  | .ncryptCreatePersistedKey _ _ => Option Key
  | .ncryptFinalizeKey _ | .ncryptDeleteKey _ => Bool
  | .certCreateSelfSignCertificate _ => Option Certificate
  -- The handle carries the number of certificates in the store.
  | .certOpenStore _ _ => Option ℕ
  | .certFindCertificateInStore _ _ => Option Certificate
  | .certAddEncodedCertificateToStore _ _ | .certDeleteCertificateFromStore _ _ => Bool
  | .signerSignEx2 _ _ => Bool
  | .setupCopyOEMInf _ => Option WString
  | .setupUninstallOEMInf _ => Bool
  | .setupDiGetClassDevs _ => Option (List DevNode)
  | .diUninstallDevice _ | .setupDiRemoveDevice _ => Bool
  -- The instance ID of the new node.
  | .setupDiRegisterDevice _ => Option WString
  -- Whether a reboot is needed.
  | .updateDriverForPlugAndPlayDevices _ _ => Option Bool
  | .setupDiGetDriverInfPath | .getEnvironmentVariable => Option WString
  | .copyFile _ _ => Bool
  -- `none`: an exception from the middle of the walk.
  | .recursiveDirectoryIterator _ => Option (List WString)
  | .deleteFile _ | .moveFile _ _ | .moveFileDelayed _ => Bool
  | .regGetRootPrefix _ | .regGetVhfPrefix _ | .regGetVhfDriver _ => WString
  | .regGetVhfFlags _ => ℕ
  | .regOpenVhfKey _ => Bool
  | .regOpenVhfKeys => Option (List WString)
  | .regSetVhfPrefix _ _ => Bool
  | .winUHidStartDevice _ => Bool
  | .cmGetDeviceIdListSize _ => Option ℕ
  | .cmGetDeviceIdList _ => IdList
  | .cmGetDeviceId => Option WString

/-- What Windows decides. -/
inductive Outcome where
  /-- The call does what it is for: a read gives what is there. -/
  | ok
  | fail
  | thrown
  | text (s : WString)
  | certificate (hash : Sha1)
  /-- The driver store took the package under this name. -/
  | staged (published : WString)
  /-- The driver store already held the package, under this name. -/
  | kept (published : WString)
  | reboot (required : Bool)
  | size (n : ℕ)
  | ids (l : IdList)
  /-- PnP ran over the lanes: the VHF keys, and the `ParentIdPrefix` of our live root node. -/
  | pnp (started : Bool) (vhf : List VhfNode) (rootPrefix : WString)
  deriving DecidableEq

/-- `HARDWARE_ID`. -/
def hardwareId : WString := wide "Root\\VRLFVirtualGun"

/-! ## Windows -/

/-- A call that fails without effect, or succeeds and leads to `w'`. -/
def tried (o : Outcome) (w w' : World) : Option (Bool × World) :=
  match o with
  | .ok => some (true, w')
  | .fail => some (false, w)
  | _ => none

/-- A read that fails, or gives `a`. -/
def looked {α : Type} (o : Outcome) (failed a : α) (w : World) : Option (α × World) :=
  match o with
  | .ok => some (a, w)
  | .fail => some (failed, w)
  | _ => none

/-- The catalog that `CatalogFile` names, in the directory of the INF. -/
def catalogOf (inf : WString) : WString :=
  (inf.reverse.dropWhile (· != 92)).reverse ++ wide "vrlfvirtualgun.cat"

/-- What the driver store takes up: the INF, and the signer of the catalog next to it. -/
def World.packageFrom (w : World) (f : File) (published : WString) : Package where
  published := published
  inf := f.content
  signer := (w.machine.fileAt (catalogOf f.path)).bind (·.signer)
  ours := true

/-- A published name that is not in use. -/
def World.FreshName (w : World) (name : WString) : Prop :=
  name ≠ [] ∧ 0 ∉ name ∧ ∀ p ∈ w.packages, ¬ sameName p.published name

instance (w : World) (name : WString) : Decidable (w.FreshName name) := by
  unfold World.FreshName
  infer_instance

/-- The driver store keeps what it already holds: an identical INF comes back under the name its
package has, with the catalog that package has. -/
def copyOEMInf (inf : WString) (o : Outcome) (w : World) : Option (Option WString × World) :=
  match o, w.machine.fileAt inf with
  | .fail, _ => some (none, w)
  | .staged name, some f =>
    if w.packageOf f = none ∧ w.FreshName name then
      some (some name, { w with packages := w.packages ++ [w.packageFrom f name] })
    else none
  | .kept name, some f =>
    match w.packageOf f with
    | some p => if sameName name p.published ∧ 0 ∉ name then some (some name, w) else none
    | none => none
  | _, _ => none

/-- What `SetupDiGetClassDevs` lists. -/
def devicesOf (w : World) (presentOnly : Bool) : List DevNode :=
  w.machine.devices.filter fun d => d.present || !presentOnly

/-- `VHF\HID_DEVICE_SYSTEM_VHF\<key>`. -/
def vhfInstanceId (name : WString) : WString := wide "VHF\\" ++ vhfHardwareId ++ wide "\\" ++ name

/-- The node leaves the device tree, and with it the key of a VHF devnode. -/
def Machine.uninstallDevice (m : Machine) (instanceId : WString) : Machine :=
  { m.deleteDevice instanceId with
    vhf := m.vhf.filter fun n => !sameName (vhfInstanceId n.name) instanceId }

def Machine.vhfNode (m : Machine) (name : WString) : Option VhfNode :=
  m.vhf.find? fun n => sameName n.name name

def filesUnder (w : World) (dir : WString) : List WString :=
  (w.machine.files.map (·.path)).filter fun path =>
    (foldCase dir ++ wide "\\").isPrefixOf (foldCase path)

def exec : Exec Call Call.Resp Outcome World := fun c o w =>
  match c with
  | .attempt _ => tried o w w
  | .terminate => none
  | .regOpenKey => looked o false w.registry.isSome w
  | .regGetValueSize name => looked o false (w.registry.bind fun values => values name).isSome w
  | .regGetValue name => looked o none (w.registry.bind fun values => values name) w
  | .regCreateKey => tried o w w.createKey
  | .regSetValue name value => tried o w (w.setValue name value)
  | .regDeleteKeyValue name => tried o w (w.deleteValue name)
  | .regDeleteKey => tried o w w.deleteKey
  | .coCreateGuid =>
    match o with
    | .text s => some (s, w)
    | _ => none
  | .ncryptCreatePersistedKey name machine =>
    match o with
    | .ok =>
      if w.keys.persisted.any fun k => k.name == name && k.machine == machine then none
      else some (some ⟨w.keys.next, name, machine⟩,
        { w with keys := { w.keys with next := w.keys.next + 1 } })
    | .fail => some (none, w)
    | _ => none
  | .ncryptFinalizeKey key =>
    tried o w { w with keys := { w.keys with persisted := w.keys.persisted ++ [key] } }
  | .ncryptDeleteKey key =>
    tried o w
      { w with keys := { w.keys with persisted := w.keys.persisted.filter (·.id != key.id) } }
  | .certCreateSelfSignCertificate key =>
    match o with
    | .certificate hash =>
      some (some ⟨hash, key.id⟩,
        { w with keys := { w.keys with generated := w.keys.generated ++ [⟨hash, key.id⟩] } })
    | .fail => some (none, w)
    | _ => none
  | .certOpenStore store _ => looked o none (some (w.stores store).length) w
  | .certAddEncodedCertificateToStore store encoded =>
    -- CERT_STORE_ADD_REPLACE_EXISTING
    tried o w (w.setStore store (encoded :: (w.stores store).erase encoded))
  | .certFindCertificateInStore store hash =>
    looked o none ((w.stores store).find? fun c => c.hash.bytes == hash) w
  | .certDeleteCertificateFromStore store found =>
    tried o w (w.setStore store ((w.stores store).erase found))
  | .signerSignEx2 certificate path =>
    match o, w.machine.fileAt path with
    | .ok, some f =>
      if w.keys.persisted.any (·.id == certificate.key) then
        some (true, { w with machine := w.machine.putFile { f with signer := some certificate } })
      else none
    | .fail, _ => some (false, w)
    | _, _ => none
  | .setupCopyOEMInf inf => copyOEMInf inf o w
  | .setupUninstallOEMInf published =>
    tried o w { w with packages := w.packages.filter fun p => !sameName p.published published }
  | .setupDiGetClassDevs presentOnly => looked o none (some (devicesOf w presentOnly)) w
  | .diUninstallDevice instanceId =>
    tried o w { w with machine := w.machine.uninstallDevice instanceId }
  | .setupDiRegisterDevice ids =>
    match o with
    | .text id =>
      if w.machine.devices.any fun d => sameName d.instanceId id then none
      else some (some id, { w with machine :=
        { w.machine with devices := w.machine.devices ++ [⟨id, ids, true, none, []⟩] } })
    | .fail => some (none, w)
    | _ => none
  | .setupDiRemoveDevice instanceId =>
    tried o w { w with machine := w.machine.deleteDevice instanceId }
  | .updateDriverForPlugAndPlayDevices hardwareId inf =>
    match o, (w.machine.fileAt inf).bind w.packageOf with
    | .reboot required, some p =>
      some (some required, { w with machine := { w.machine with
        devices := w.machine.devices.map fun d =>
          if sameName d.hardwareIds hardwareId then { d with driver := some p.published } else d } })
    | .fail, _ => some (none, w)
    | _, _ => none
  | .setupDiGetDriverInfPath =>
    match o with
    | .text s => some (some s, w)
    | .fail => some (none, w)
    | _ => none
  | .getEnvironmentVariable =>
    match o with
    | .text s => some (some (cStr s), w)
    | .fail => some (none, w)
    | _ => none
  | .copyFile source target =>
    match o, w.machine.fileAt source with
    | .ok, some f =>
      some (true, { w with machine := w.machine.putFile { f with path := target } })
    | .fail, _ => some (false, w)
    | _, _ => none
  | .recursiveDirectoryIterator dir =>
    match o with
    | .ok => some (some (filesUnder w dir), w)
    | .fail => some (some [], w)
    | .thrown => some (none, w)
    | _ => none
  | .deleteFile path => tried o w { w with machine := w.machine.deleteFile path }
  | .moveFile source target =>
    match o, w.machine.fileAt source with
    | .ok, some f =>
      some (true, { w with
        machine := (w.machine.deleteFile source).putFile { f with path := target } })
    | .fail, _ => some (false, w)
    | _, _ => none
  | .moveFileDelayed path =>
    tried o w { w with machine := { w.machine with delayed := w.machine.delayed ++ [path] } }
  | .regGetRootPrefix rootId =>
    looked o [] (((w.machine.devices.find? fun d => sameName d.instanceId rootId).map
      (·.parentIdPrefix)).getD []) w
  | .regOpenVhfKey name => looked o false (w.machine.vhfNode name).isSome w
  | .regGetVhfPrefix name => looked o [] (((w.machine.vhfNode name).map (·.parentIdPrefix)).getD []) w
  | .regGetVhfFlags name => looked o 0 (((w.machine.vhfNode name).map (·.configFlags)).getD 0) w
  | .regGetVhfDriver name => looked o [] (((w.machine.vhfNode name).map (·.driver)).getD []) w
  | .regOpenVhfKeys => looked o none (some (w.machine.vhf.map (·.name))) w
  | .regSetVhfPrefix name value =>
    tried o w { w with machine := { w.machine with
      vhf := w.machine.vhf.map fun n =>
        if sameName n.name name then { n with parentIdPrefix := value } else n } }
  | .winUHidStartDevice _ =>
    match o with
    | .pnp started vhf rootPrefix =>
      some (started, { w with machine := { w.machine with
        vhf := vhf
        devices := w.machine.devices.map fun d =>
          if d.present && sameName d.hardwareIds hardwareId then
            { d with parentIdPrefix := rootPrefix }
          else d } })
    | _ => none
  | .cmGetDeviceIdListSize _ =>
    match o with
    | .size n => some (some n, w)
    | .fail => some (none, w)
    | _ => none
  | .cmGetDeviceIdList _ =>
    match o with
    | .ids l => some (l, w)
    | _ => none
  | .cmGetDeviceId =>
    match o with
    | .text s => some (some s, w)
    | .fail => some (none, w)
    | _ => none

/-! ## What a call can change -/

/-- What a call does to the world, if it does anything. -/
inductive Effect where
  | registry | trust | untrust | keys | stage | unstage | files | devices
  deriving DecidableEq, Repr

def Call.effect : Call → Option Effect
  | .regCreateKey | .regSetValue _ _ | .regDeleteKeyValue _ | .regDeleteKey => some .registry
  | .ncryptCreatePersistedKey _ _ | .ncryptFinalizeKey _ | .ncryptDeleteKey _ => some .keys
  | .certCreateSelfSignCertificate _ => some .keys
  | .certAddEncodedCertificateToStore _ _ => some .trust
  | .certDeleteCertificateFromStore _ _ => some .untrust
  | .signerSignEx2 _ _ => some .files
  | .setupCopyOEMInf _ => some .stage
  | .setupUninstallOEMInf _ => some .unstage
  | .diUninstallDevice _ | .setupDiRegisterDevice _ | .setupDiRemoveDevice _ => some .devices
  | .updateDriverForPlugAndPlayDevices _ _ => some .devices
  | .copyFile _ _ | .deleteFile _ | .moveFile _ _ | .moveFileDelayed _ => some .files
  | .regSetVhfPrefix _ _ | .winUHidStartDevice _ => some .devices
  | _ => none

/-- `w'` is `w` but for effects in `effects`. -/
structure Frame (effects : Effect → Prop) (w w' : World) : Prop where
  registry : ¬ effects .registry → w'.registry = w.registry
  stores : ¬ effects .trust → ¬ effects .untrust → w'.stores = w.stores
  untrusts : ¬ effects .trust → ∀ s, w'.stores s ⊆ w.stores s
  keys : ¬ effects .keys → w'.keys = w.keys
  packages : ¬ effects .stage → ¬ effects .unstage → w'.packages = w.packages
  unstages : ¬ effects .stage → w'.packages ⊆ w.packages
  machine : ¬ effects .files → ¬ effects .devices → w'.machine = w.machine
  files : ¬ effects .files → w'.machine.files = w.machine.files

namespace Frame

variable {effects effects' : Effect → Prop} {u v w : World}

theorem refl (effects : Effect → Prop) (w : World) : Frame effects w w where
  registry _ := rfl
  stores _ _ := rfl
  untrusts _ _ := List.Subset.refl _
  keys _ := rfl
  packages _ _ := rfl
  unstages _ := List.Subset.refl _
  machine _ _ := rfl
  files _ := rfl

theorem trans (h : Frame effects u v) (h' : Frame effects v w) : Frame effects u w where
  registry hn := (h'.registry hn).trans (h.registry hn)
  stores ht hu := (h'.stores ht hu).trans (h.stores ht hu)
  untrusts ht s := List.Subset.trans (h'.untrusts ht s) (h.untrusts ht s)
  keys hn := (h'.keys hn).trans (h.keys hn)
  packages hs hu := (h'.packages hs hu).trans (h.packages hs hu)
  unstages hs := List.Subset.trans (h'.unstages hs) (h.unstages hs)
  machine hf hd := (h'.machine hf hd).trans (h.machine hf hd)
  files hf := (h'.files hf).trans (h.files hf)

theorem mono (hp : ∀ x, effects x → effects' x) (h : Frame effects v w) : Frame effects' v w where
  registry hn := h.registry (hn <| hp _ ·)
  stores ht hu := h.stores (ht <| hp _ ·) (hu <| hp _ ·)
  untrusts ht := h.untrusts (ht <| hp _ ·)
  keys hn := h.keys (hn <| hp _ ·)
  packages hs hu := h.packages (hs <| hp _ ·) (hu <| hp _ ·)
  unstages hs := h.unstages (hs <| hp _ ·)
  machine hf hd := h.machine (hf <| hp _ ·) (hd <| hp _ ·)
  files hf := h.files (hf <| hp _ ·)

theorem eq (h : Frame (fun _ => False) v w) : w = v := by
  obtain ⟨registry, stores, keys, packages, machine⟩ := w
  have hr := h.registry id
  have hs := h.stores id id
  have hk := h.keys id
  have hp := h.packages id id
  have hm := h.machine id id
  simp only at hr hs hk hp hm
  rw [hr, hs, hk, hp, hm]

theorem of_registry (h : effects .registry) (r : Registry) :
    Frame effects w { w with registry := r } :=
  ⟨fun hn => absurd h hn, fun _ _ => rfl, fun _ _ => List.Subset.refl _, fun _ => rfl,
    fun _ _ => rfl, fun _ => List.Subset.refl _, fun _ _ => rfl, fun _ => rfl⟩

theorem of_keys (h : effects .keys) (k : Keys) : Frame effects w { w with keys := k } :=
  ⟨fun _ => rfl, fun _ _ => rfl, fun _ _ => List.Subset.refl _, fun hn => absurd h hn,
    fun _ _ => rfl, fun _ => List.Subset.refl _, fun _ _ => rfl, fun _ => rfl⟩

theorem of_files (h : effects .files) (m : Machine) : Frame effects w { w with machine := m } :=
  ⟨fun _ => rfl, fun _ _ => rfl, fun _ _ => List.Subset.refl _, fun _ => rfl,
    fun _ _ => rfl, fun _ => List.Subset.refl _, fun hn => absurd h hn, fun hn => absurd h hn⟩

theorem of_devices (h : effects .devices) (m : Machine) (hf : m.files = w.machine.files) :
    Frame effects w { w with machine := m } :=
  ⟨fun _ => rfl, fun _ _ => rfl, fun _ _ => List.Subset.refl _, fun _ => rfl,
    fun _ _ => rfl, fun _ => List.Subset.refl _, fun _ hn => absurd h hn, fun _ => hf⟩

theorem of_trust (h : effects .trust) (store : StoreName) (l : List Certificate) :
    Frame effects w (w.setStore store l) :=
  ⟨fun _ => rfl, fun hn => absurd h hn, fun hn => absurd h hn, fun _ => rfl,
    fun _ _ => rfl, fun _ => List.Subset.refl _, fun _ _ => rfl, fun _ => rfl⟩

theorem of_untrust (h : effects .untrust) {l : List Certificate} (store : StoreName)
    (hl : l ⊆ w.stores store) : Frame effects w (w.setStore store l) := by
  refine ⟨fun _ => rfl, fun _ hn => absurd h hn, fun _ s => ?_, fun _ => rfl, fun _ _ => rfl,
    fun _ => List.Subset.refl _, fun _ _ => rfl, fun _ => rfl⟩
  by_cases hs : s = store
  · subst hs; simpa [World.setStore] using hl
  · simp [World.setStore, hs]

theorem of_stage (h : effects .stage) (l : List Package) :
    Frame effects w { w with packages := l } :=
  ⟨fun _ => rfl, fun _ _ => rfl, fun _ _ => List.Subset.refl _, fun _ => rfl,
    fun hn => absurd h hn, fun hn => absurd h hn, fun _ _ => rfl, fun _ => rfl⟩

theorem of_unstage (h : effects .unstage) (l : List Package) (hl : l ⊆ w.packages) :
    Frame effects w { w with packages := l } :=
  ⟨fun _ => rfl, fun _ _ => rfl, fun _ _ => List.Subset.refl _, fun _ => rfl,
    fun _ hn => absurd h hn, fun _ => hl, fun _ _ => rfl, fun _ => rfl⟩

theorem value (h : Frame effects v w) (hn : ¬ effects .registry) (name : ValueName) :
    w.value name = v.value name := by
  simp only [World.value, h.registry hn]

end Frame

section
variable {o : Outcome} {w v w' : World}

theorem tried_eq_some {r : Bool} :
    tried o w v = some (r, w') ↔
      (o = .ok ∧ r = true ∧ w' = v) ∨ (o = .fail ∧ r = false ∧ w' = w) := by
  cases o <;> simp [tried, eq_comm]

theorem looked_eq_some {α : Type} {failed a r : α} :
    looked o failed a w = some (r, w') ↔ ((o = .ok ∧ r = a) ∨ (o = .fail ∧ r = failed)) ∧ w' = w := by
  cases o <;> simp [looked, eq_comm]

theorem copyOEMInf_eq_some {inf : WString} {r : Option WString} :
    copyOEMInf inf o w = some (r, w') ↔
      (o = .fail ∧ r = none ∧ w' = w) ∨
      (∃ f name, o = .staged name ∧ w.machine.fileAt inf = some f ∧ w.packageOf f = none ∧
        w.FreshName name ∧ r = some name ∧
        w' = { w with packages := w.packages ++ [w.packageFrom f name] }) ∨
      (∃ f name p, o = .kept name ∧ w.machine.fileAt inf = some f ∧ w.packageOf f = some p ∧
        sameName name p.published = true ∧ 0 ∉ name ∧ r = some name ∧ w' = w) := by
  unfold copyOEMInf
  cases o <;> cases w.machine.fileAt inf <;> simp
  · tauto
  · tauto
  · grind
  · next name f => cases w.packageOf f <;> simp; grind

theorem tried_frame {effects : Effect → Prop} {r : Bool} (he : tried o w v = some (r, w'))
    (h : Frame effects w v) : Frame effects w w' := by
  obtain ⟨-, -, rfl⟩ | ⟨-, -, rfl⟩ := tried_eq_some.mp he
  · exact h
  · exact .refl _ _

theorem looked_frame {α : Type} {effects : Effect → Prop} {failed a r : α}
    (he : looked o failed a w = some (r, w')) : Frame effects w w' :=
  (looked_eq_some.mp he).2 ▸ .refl _ _

/-- The effect of a call is the only thing it changes. -/
theorem exec_frame {c : Call} {r : c.Resp} (he : exec c o w = some (r, w')) :
    Frame (fun x => c.effect = some x) w w' := by
  cases c with
  | terminate => exact r.elim
  | certDeleteCertificateFromStore store found =>
    exact tried_frame he (.of_untrust (by rfl) _ List.erase_subset)
  | setupUninstallOEMInf published =>
    exact tried_frame he (.of_unstage (by rfl) _ fun _ hp => (List.mem_filter.mp hp).1)
  | setupCopyOEMInf inf =>
    obtain ⟨-, -, rfl⟩ | ⟨_, _, -, -, -, -, -, rfl⟩ | ⟨_, _, _, -, -, -, -, -, -, rfl⟩ :=
      copyOEMInf_eq_some.mp he
    · exact .refl _ _
    · exact .of_stage (by rfl) _
    · exact .refl _ _
  | _ =>
    simp only [exec] at he
    first
      | exact looked_frame he
      | exact tried_frame he (.refl _ _)
      | exact tried_frame he (.of_devices (by rfl) _ rfl)
      | exact tried_frame he (.of_files (by rfl) _)
      | exact tried_frame he (.of_registry (by rfl) _)
      | exact tried_frame he (.of_keys (by rfl) _)
      | exact tried_frame he (.of_trust (by rfl) _ _)
      | skip
    all_goals
      repeat' split at he
      all_goals cases he
      all_goals first
        | exact .refl _ _
        | exact .of_devices (by rfl) _ rfl
        | exact .of_files (by rfl) _
        | exact .of_keys (by rfl) _

end

/-- What setup does to files leaves the device nodes alone. -/
theorem exec_devices {c : Call} {o : Outcome} {w w' : World} {r : c.Resp}
    (he : exec c o w = some (r, w')) (hc : c.effect ≠ some .devices) :
    w'.machine.devices = w.machine.devices := by
  by_cases hf : c.effect = some .files
  · cases c with
    | signerSignEx2 | copyFile | moveFile =>
      simp only [exec] at he
      repeat' split at he
      all_goals cases he
      all_goals rfl
    | deleteFile | moveFileDelayed =>
      obtain ⟨-, -, rfl⟩ | ⟨-, -, rfl⟩ := tried_eq_some.mp he <;> rfl
    | _ => simp [Call.effect] at hf
  · rw [(exec_frame he).machine hf hc]

def SameDevices (w w' : World) : Prop := w'.machine.devices = w.machine.devices

theorem SameDevices.refl (w : World) : SameDevices w w := rfl

theorem SameDevices.trans {u v w : World} (h : SameDevices u v) (h' : SameDevices v w) :
    SameDevices u w :=
  Eq.trans h' h

abbrev Flow := Prog Call Call.Resp

abbrev perform (c : Call) : Flow c.Resp := Prog.perform c

def attempt (what : Attempt) : Flow Bool := perform (.attempt what)

/-- The program has no effects but those in `effects`. -/
abbrev Effects {α : Type} (effects : Effect → Prop) (p : Flow α) : Prop :=
  p.Calls (fun c => ∀ x, c.effect = some x → effects x) fun _ _ => True

section
variable {α : Type} {I : World → Prop} {Q : α → World → Prop} {w : World}

theorem wp_attempt_of {E : Exec Call Call.Resp Outcome World} (hE : E.Sub exec) {what : Attempt}
    {k : Bool → Flow α} (hw : I w) (hk : ∀ b, wp E I Q (k b) w) :
    wp E I Q (.call (.attempt what) k) w := by
  refine ⟨hw, fun o r w' he => ?_⟩
  obtain ⟨-, -, rfl⟩ | ⟨-, -, rfl⟩ := tried_eq_some.mp (hE _ _ _ _ he) <;> exact hk r

theorem wp_attempt {what : Attempt} {k : Bool → Flow α} (hw : I w)
    (hk : ∀ b, wp exec I Q (k b) w) : wp exec I Q (.call (.attempt what) k) w :=
  wp_attempt_of (fun _ _ _ _ h => h) hw hk

theorem wp_effects {effects : Effect → Prop} {p : Flow α} (hp : Effects effects p) (w : World) :
    wp exec (Frame effects w) (fun _ => Frame effects w) p w := by
  have h : wp exec (fun w' => True ∧ Frame effects w w') (fun _ _ => True) p w := by
    refine wp_frame (.refl effects) .trans (fun _ hc he => ?_) trivial hp
    exact ⟨trivial, trivial, (exec_frame he).mono hc⟩
  exact wp_mono (fun _ hw => hw.2) (fun _ _ hw _ => hw.2) h

theorem wp_still {E : Exec Call Call.Resp Outcome World} (hE : E.Sub exec) {p : Flow α}
    (hp : Effects (fun _ => False) p) (w : World) : wp E (· = w) (fun _ _ => True) p w :=
  wp_mono (fun _ hf => hf.eq) (fun _ _ _ _ => trivial) (wp_sub hE (wp_effects hp w))

theorem wp_devices {effects : Effect → Prop} {p : Flow α} (hp : Effects effects p)
    (hd : ¬ effects .devices) (w : World) :
    wp exec (SameDevices w) (fun _ => SameDevices w) p w := by
  have h : wp exec (fun w' => True ∧ SameDevices w w') (fun _ _ => True) p w := by
    refine wp_frame SameDevices.refl SameDevices.trans (fun _ hc he => ?_) trivial hp
    exact ⟨trivial, trivial, exec_devices he fun h => hd (hc _ h)⟩
  exact wp_mono (fun _ hw => hw.2) (fun _ _ hw _ => hw.2) h

theorem wp_keep {E : Exec Call Call.Resp Outcome World} (hE : E.Sub exec) {effects : Effect → Prop}
    {p : Flow α} (hp : Effects effects p) (hI : ∀ w', Frame effects w w' → I w') :
    wp E I (fun _ w' => Frame effects w w') p w :=
  wp_mono hI (fun _ _ _ hf => hf) (wp_sub hE (wp_effects hp w))

end

end VirtualGun.Setup
