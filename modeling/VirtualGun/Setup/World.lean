import VirtualGun.Setup.Strings
import Mathlib.Logic.Function.Basic

/-!
# The PC that setup works on

What setup writes comes in five parts: the state key, the two certificate stores, the keys, the
driver store, and everything else, which other programs and Windows write too. The folder and the lines
of `setup.log`, which nothing reads, are left out.
-/

namespace VirtualGun.Setup

/-! ## The state key -/

/-- The values under `STATE_KEY`. -/
inductive ValueName where
  | version | installDir | certThumbprint | driverInf
  | pendingCertThumbprint | pendingDriverInf | previousCertThumbprint | previousDriverInf
  deriving DecidableEq, Repr

structure InstallState where
  version : WString
  installDir : WString
  certThumbprint : WString
  driverInf : WString
  pendingCertThumbprint : WString
  pendingDriverInf : WString
  previousCertThumbprint : WString
  previousDriverInf : WString
  deriving DecidableEq, Repr

/-- The strings under the state key; `none` without the key. -/
abbrev Registry := Option (ValueName → Option WString)

/-! ## Certificates and keys -/

structure Sha1 where
  bytes : List Byte
  length_eq : bytes.length = 20
  deriving DecidableEq

/-- A certificate: its SHA-1 hash, and the number of the key pair it is for. -/
structure Certificate where
  hash : Sha1
  key : ℕ
  deriving DecidableEq

inductive StoreName where
  | root | trustedPublisher
  deriving DecidableEq, Repr

/-- A private key. Its container's name can be used again, its number cannot. -/
structure Key where
  id : ℕ
  name : WString
  machine : Bool
  deriving DecidableEq

structure Keys where
  persisted : List Key
  /-- Above the number of every key pair there was. -/
  next : ℕ
  /-- The certificates setup generated. -/
  generated : List Certificate

/-! ## The driver store -/

structure Package where
  /-- The published `oemNN.inf` name. -/
  published : WString
  inf : List Byte
  /-- Who signed the catalog. -/
  signer : Option Certificate
  /-- Whether it was setup that staged it. -/
  ours : Bool
  deriving DecidableEq

/-! ## The machine -/

structure File where
  path : WString
  content : List Byte
  signer : Option Certificate
  deriving DecidableEq

structure DevNode where
  instanceId : WString
  /-- `SPDRP_HARDWAREID`, a `REG_MULTI_SZ`. -/
  hardwareIds : WString
  present : Bool
  /-- The package whose driver is bound to it. -/
  driver : Option WString
  parentIdPrefix : WString
  deriving DecidableEq

/-- A key under `Enum\VHF\HID_DEVICE_SYSTEM_VHF`. -/
structure VhfNode where
  name : WString
  parentIdPrefix : WString
  driver : WString
  configFlags : ℕ
  deriving DecidableEq

structure Machine where
  files : List File
  /-- The deletions Windows makes at the next start. -/
  delayed : List WString
  devices : List DevNode
  vhf : List VhfNode

def Machine.fileAt (m : Machine) (path : WString) : Option File :=
  m.files.find? fun f => sameName f.path path

def Machine.deleteFile (m : Machine) (path : WString) : Machine :=
  { m with files := m.files.filter fun f => !sameName f.path path }

def Machine.putFile (m : Machine) (f : File) : Machine :=
  { m with files := f :: (m.deleteFile f.path).files }

def Machine.deleteDevice (m : Machine) (instanceId : WString) : Machine :=
  { m with devices := m.devices.filter fun d => !sameName d.instanceId instanceId }

/-! ## The world -/

structure World where
  registry : Registry
  stores : StoreName → List Certificate
  keys : Keys
  packages : List Package
  machine : Machine

namespace World

/-- What `ReadString` reads when nothing fails. -/
def value (w : World) (name : ValueName) : WString :=
  cStr ((w.registry.bind fun values => values name).getD [])

def createKey (w : World) : World := { w with registry := some (w.registry.getD fun _ => none) }

def setValue (w : World) (name : ValueName) (value : WString) : World :=
  { w with registry := w.registry.map fun values => Function.update values name (some value) }

def deleteValue (w : World) (name : ValueName) : World :=
  { w with registry := w.registry.map fun values => Function.update values name none }

def deleteKey (w : World) : World := { w with registry := none }

def setStore (w : World) (store : StoreName) (certificates : List Certificate) : World :=
  { w with stores := Function.update w.stores store certificates }

/-- The package with the same INF as a file. -/
def packageOf (w : World) (f : File) : Option Package := w.packages.find? fun p => p.inf == f.content

@[simp] theorem cStr_value (w : World) (name : ValueName) : cStr (w.value name) = w.value name :=
  cStr_cStr _

@[simp] theorem value_createKey (w : World) (name : ValueName) :
    w.createKey.value name = w.value name := by
  unfold value createKey
  cases w.registry <;> rfl

theorem value_setValue (w : World) (name other : ValueName) (v : WString) (h : w.registry.isSome) :
    (w.setValue name v).value other = if other = name then cStr v else w.value other := by
  unfold value setValue
  obtain ⟨values, hv⟩ := Option.isSome_iff_exists.mp h
  by_cases e : other = name
  · subst e; simp [hv]
  · simp [hv, e]

theorem value_deleteValue (w : World) (name other : ValueName) :
    (w.deleteValue name).value other = if other = name then [] else w.value other := by
  unfold value deleteValue
  cases w.registry with
  | none => simp [cStr]
  | some values =>
    by_cases e : other = name
    · subst e; simp [cStr]
    · simp [e]

@[simp] theorem value_deleteKey (w : World) (name : ValueName) : w.deleteKey.value name = [] := rfl

@[simp] theorem value_setStore (w : World) (store : StoreName) (l : List Certificate)
    (name : ValueName) : (w.setStore store l).value name = w.value name := rfl

end World

end VirtualGun.Setup
