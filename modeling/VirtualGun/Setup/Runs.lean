import VirtualGun.Setup.InstallFlow
import VirtualGun.Program.History

/-!
# Runs of setup

The setup lock lets one run go at a time. Between two runs the machine may change in any way but
in what setup recorded, trusted and staged.
-/

open VirtualGun.Program

namespace VirtualGun.Setup

inductive Event where
  | install (payloadDir version : WString)
  | uninstall
  /-- No run: other programs, Windows and the user change the machine. -/
  | meanwhile (machine : Machine)

def arrive : Event → World → Option World
  | .meanwhile machine, w => some { w with machine := machine }
  | _, w => some w

def handler : Event → Flow ℕ
  | .install payloadDir version => runInstall payloadDir version
  | .uninstall => runUninstall
  | .meanwhile _ => return 0

def setup : System Event Call Call.Resp Outcome World ℕ := ⟨exec, arrive, handler⟩

/-- Every key pair has a number of its own, below `next`. -/
structure Numbered (w : World) : Prop where
  persisted : ∀ k ∈ w.keys.persisted, k.id < w.keys.next
  generated : ∀ c ∈ w.keys.generated, c.key < w.keys.next
  stores : ∀ s, ∀ c ∈ w.stores s, c.key < w.keys.next

/-- A PC that setup never ran on. -/
structure Clean (w : World) : Prop where
  registry : w.registry = none
  generated : w.keys.generated = []
  packages : ∀ p ∈ w.packages, p.ours = false
  numbered : Numbered w

theorem Numbered.machine {w : World} (h : Numbered w) (m : Machine) :
    Numbered { w with machine := m } :=
  ⟨h.persisted, h.generated, h.stores⟩

theorem Numbered.frame {effects : Effect → Prop} {w w' : World} (h : Numbered w)
    (hf : Frame effects w w') (ht : ¬ effects .trust) (hk : ¬ effects .keys) : Numbered w' := by
  refine ⟨?_, ?_, fun s c hc => ?_⟩ <;> rw [hf.keys hk]
  · exact h.persisted
  · exact h.generated
  · exact h.stores s c (hf.untrusts ht s hc)

theorem mem_trusted {w : World} {store s : StoreName} {c c' : Certificate}
    (h : c' ∈ (w.setStore store (c :: (w.stores store).erase c)).stores s) :
    c' = c ∨ c' ∈ w.stores s := by
  by_cases hs : s = store
  · subst hs
    simp only [World.setStore, Function.update_self, List.mem_cons] at h
    exact h.imp_right List.mem_of_mem_erase
  · simp only [World.setStore, Function.update_of_ne hs] at h
    exact .inr h

theorem Numbered.trust {w : World} {c : Certificate} (h : Numbered w) (store : StoreName)
    (hc : c ∈ w.keys.generated) :
    Numbered (w.setStore store (c :: (w.stores store).erase c)) := by
  refine ⟨h.persisted, h.generated, fun s c' hc' => ?_⟩
  rcases mem_trusted hc' with rfl | hc'
  · exact h.generated _ hc
  · exact h.stores s c' hc'

/-! ## A PC to try runs on -/

def releaseDir : WString := wide "R"

/-- The release zip, unzipped; the content of every file is `content`. -/
def unzipped (content : List Byte) : List File :=
  payloadFiles.map fun rel => ⟨joinPath releaseDir rel, content, none⟩

def newPc : World where
  registry := none
  stores := fun _ => []
  keys := ⟨[], 0, []⟩
  packages := []
  machine := ⟨unzipped [1], [], [], []⟩

theorem newPc_clean : Clean newPc :=
  ⟨rfl, rfl, by simp [newPc], ⟨by simp [newPc], by simp [newPc], by simp [newPc]⟩⟩

/-- Everything works, but that the driver waits for a reboot and the lanes with it. -/
def succeed (hash : Sha1) (published : WString) : Call → Outcome
  | .attempt (.equivalent _ _) | .attempt .beforeEnd => .fail
  | .attempt .winUHidGetDriverInterfaceVersion => .fail
  | .coCreateGuid => .text (wide "{}")
  | .certCreateSelfSignCertificate _ => .certificate hash
  | .setupCopyOEMInf _ => .staged published
  | .setupDiRegisterDevice _ => .text (wide "ROOT\\SYSTEM\\0000")
  | .updateDriverForPlugAndPlayDevices _ _ => .reboot true
  | .setupDiGetDriverInfPath | .getEnvironmentVariable => .fail
  | _ => .ok

def sha1Of (b : Byte) : Sha1 := ⟨List.replicate 20 b, List.length_replicate⟩

def firstInstall : List (Event × (Call → Outcome) × (Call → Bool)) :=
  [(.install releaseDir (wide "1"), succeed (sha1Of 1) (wide "oem1.inf"), fun _ => false)]

/-- Where a first install has trusted its certificate in Root. -/
def rootTrusted : Call → Bool
  | .certOpenStore .trustedPublisher _ => true
  | _ => false

/-- Root holds a certificate of setup's. -/
def trustsOwn (w : World) : Bool := w.keys.generated.any fun c => (w.stores .root).contains c

theorem trusted_of_trustsOwn {w : World} (h : trustsOwn w = true) :
    ∃ c ∈ w.keys.generated, c ∈ w.stores .root := by
  simpa [trustsOwn] using h

end VirtualGun.Setup
