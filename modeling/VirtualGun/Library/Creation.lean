import VirtualGun.Library.Session

/-!
# Making a device

What a session is like after `WinUHidCreateDevice`: there is the one device of the configuration, or
nothing is left of it.
-/

open VirtualGun.Program VirtualGun.Driver
open VirtualGun.Setup (WString multiSz)

namespace VirtualGun.WinUHid

/-- What a program of the library ends with. -/
abbrev Does {α : Type} (Q : α → Session → Prop) (p : Lib α) (s : Session) : Prop :=
  wp exec (fun _ => True) Q p s

/-! ## Rules for the calls -/

section
variable {α : Type} {Q : α → Session → Prop} {s s' : Session} {h : Handle} {d : World} {dev : Device}

-- Its equations are made here, before all lemmas below ask for them at once.
attribute [local simp] exec

theorem holds_eq_false : s.holds h = false ↔ h ∉ s.handles ∧ ∀ d, s.file ≠ some (h, d) := by
  cases hf : s.file with
  | none => simp [Session.holds, hf]
  | some f =>
    obtain ⟨h', d⟩ := f
    simp only [Session.holds, hf, Option.any_some, Bool.or_eq_false_iff, decide_eq_false_iff_not,
      beq_eq_false_iff_ne, ne_eq, Option.some.injEq, Prod.mk.injEq, not_and]
    grind

theorem does_newHandle {c : Call} {k : c.Resp → Lib α} {r : Option Handle → c.Resp}
    (hc : ∀ o x s', exec c o s = some (x, s') → ∃ h, newHandle s h = some (h, s') ∧ x = r h)
    (hnone : Does Q (k (r none)) s)
    (hsome : ∀ h, s.holds h = false → Does Q (k (r (some h))) { s with handles := h ::ₘ s.handles }) :
    Does Q (.call c k) s := by
  refine ⟨trivial, fun o x s' he => ?_⟩
  obtain ⟨h, hnew, rfl⟩ := hc o x s' he
  cases h with
  | none =>
    cases hnew
    exact hnone
  | some h =>
    simp only [newHandle, Option.ite_none_left_eq_some, Option.some.injEq, Prod.mk.injEq, true_and] at hnew
    obtain ⟨hfree, rfl⟩ := hnew
    exact hsome h (by simpa using hfree)

theorem newHandle_response {o : Outcome} {r : Option Handle} (he : o.handle?.bind (newHandle s) = some (r, s')) :
    newHandle s r = some (r, s') := by
  obtain ⟨h, -, hnew⟩ := Option.bind_eq_some_iff.mp he
  have hr : r = h := by
    cases h with
    | none =>
      cases hnew
      rfl
    | some h =>
      simp only [newHandle, Option.ite_none_left_eq_some, Option.some.injEq, Prod.mk.injEq] at hnew
      exact hnew.2.1.symm
  subst hr
  exact hnew

theorem does_createEvent {b : Bool} {k : Option Handle → Lib α} (hnone : Does Q (k none) s)
    (hsome : ∀ h, s.holds h = false → Does Q (k (some h)) { s with handles := h ::ₘ s.handles }) :
    Does Q (.call (.createEvent b) k) s :=
  does_newHandle (c := .createEvent b) (r := id) (fun _ x _ he => ⟨x, newHandle_response he, rfl⟩) hnone hsome

theorem does_createWaitableTimer {k : Option Handle → Lib α} (hnone : Does Q (k none) s)
    (hsome : ∀ h, s.holds h = false → Does Q (k (some h)) { s with handles := h ::ₘ s.handles }) :
    Does Q (.call .createWaitableTimer k) s :=
  does_newHandle (c := .createWaitableTimer) (r := id) (fun _ x _ he => ⟨x, newHandle_response he, rfl⟩) hnone
    hsome

theorem does_createFile {k : Option Handle → Lib α} (hfile : s.file = none) (hnone : Does Q (k none) s)
    (hsome : ∀ h, h ∉ s.handles → Does Q (k (some h)) { s with file := some (h, World.opened) }) :
    Does Q (.call .createFile k) s := by
  refine ⟨trivial, fun o r s' he => ?_⟩
  obtain ⟨h, -, hnew⟩ := Option.bind_eq_some_iff.mp he
  cases h with
  | none =>
    cases hnew
    exact hnone
  | some h =>
    simp only [openFile, hfile, Option.isSome_none, Bool.or_false, Option.ite_none_left_eq_some,
      Option.some.injEq, Prod.mk.injEq] at hnew
    obtain ⟨hfree, rfl, rfl⟩ := hnew
    exact hsome h (holds_eq_false.mp (by simpa using hfree)).1

theorem does_closeHandle {k : Unit → Lib α} (hfile : ∀ d, s.file ≠ some (h, d))
    (hk : Does Q (k ()) { s with handles := s.handles.erase h }) :
    Does Q (.call (.closeHandle h) k) s := by
  have hany : s.file.any (·.1 == h) = false := by
    cases hf : s.file with
    | none => rfl
    | some f =>
      refine beq_eq_false_iff_ne.mpr ?_
      rintro rfl
      exact hfile f.2 hf
  refine ⟨trivial, fun o r s' he => ?_⟩
  simp only [exec, hany, Bool.false_eq_true, if_false, Option.map_eq_some_iff, Prod.mk.injEq] at he
  obtain ⟨-, -, -, rfl⟩ := he
  exact hk

theorem does_closeFile {k : Unit → Lib α} (hfile : s.file = some (h, d))
    (hk : ∀ os d', driver.handle .close os d = some ((), d') →
      Does Q (k ()) { s with file := none, closed := s.closed ++ [d'] }) :
    Does Q (.call (.closeHandle h) k) s := by
  refine ⟨trivial, fun o r s' he => ?_⟩
  simp only [exec, hfile, Option.any_some, beq_self_eq_true, if_true, closeFile, Option.bind_some,
    Option.bind_eq_some_iff, Option.map_eq_some_iff, Prod.mk.injEq] at he
  obtain ⟨x, -, ⟨⟨⟩, d'⟩, hrun, -, rfl⟩ := he
  exact hk _ d' hrun

theorem does_modifyDevice {f : Device → Device} {k : Unit → Lib α}
    (hk : Does Q (k ()) { s with device := s.device.map f }) :
    Does Q (.call (.modifyDevice f) k) s := by
  refine ⟨trivial, fun o r s' he => ?_⟩
  simp only [exec, Option.map_eq_some_iff, Prod.mk.injEq] at he
  obtain ⟨-, -, -, rfl⟩ := he
  exact hk

theorem does_setState {state : DeviceState} {k : Unit → Lib α}
    (hk : Does Q (k ()) { s with device := s.device.map ({ · with state := state }) }) :
    Does Q (.call (.setState state) k) s := by
  refine ⟨trivial, fun o r s' he => ?_⟩
  simp only [exec, Option.map_eq_some_iff, Prod.mk.injEq] at he
  obtain ⟨-, -, -, rfl⟩ := he
  exact hk

theorem does_readDevice {k : Device → Lib α} (hdev : s.device = some dev) (hk : Does Q (k dev) s) :
    Does Q (.call .readDevice k) s := by
  refine ⟨trivial, fun o r s' he => ?_⟩
  unfold exec at he
  cases o <;> simp only [readDevice, hdev, reduceCtorEq, Option.map_some, Option.isSome_some, if_true,
    Option.some.injEq, Prod.mk.injEq] at he
  obtain ⟨rfl, rfl⟩ := he
  exact hk

/-- Calls that change nothing of the session. -/
def idle : Call → Bool
  | .setLastError _ | .resetEvent _ | .setEvent _ | .setWaitableTimer .. | .cancelIo .. => true
  | .acquireShared | .releaseShared | .acquireExclusive | .releaseExclusive => true
  | _ => false

theorem does_idle {c : Call} {k : c.Resp → Lib α} (hc : idle c = true) (hk : ∀ r, Does Q (k r) s) :
    Does Q (.call c k) s := by
  refine ⟨trivial, fun o r s' he => ?_⟩
  cases c <;> simp only [idle, Bool.false_eq_true] at hc <;>
    simp only [exec, Option.map_eq_some_iff, Prod.mk.injEq] at he <;>
    obtain ⟨-, -, -, rfl⟩ := he <;> exact hk r

theorem does_accessViolation {k : Empty → Lib α} : Does Q (.call .accessViolation k) s :=
  ⟨trivial, fun _ r _ _ => r.elim⟩

theorem does_allocDevice {k : Bool → Lib α} (hfalse : Does Q (k false) s)
    (htrue : Does Q (k true) { s with device := some Device.zero, pending := none }) :
    Does Q (.call .allocDevice k) s := by
  refine ⟨trivial, fun o r s' he => ?_⟩
  obtain ⟨b, -, hnew⟩ := Option.bind_eq_some_iff.mp he
  cases b with
  | false =>
    cases hnew
    exact hfalse
  | true =>
    simp only [newDevice, Bool.not_true, Bool.false_eq_true, if_false, Option.ite_none_left_eq_some,
      Option.some.injEq, Prod.mk.injEq] at hnew
    obtain ⟨-, rfl, rfl⟩ := hnew
    exact htrue

theorem does_freeDevice {k : Unit → Lib α} (hk : Does Q (k ()) { s with device := none }) :
    Does Q (.call .freeDevice k) s := by
  refine ⟨trivial, fun o r s' he => ?_⟩
  simp only [exec, Option.map_eq_some_iff, Prod.mk.injEq] at he
  obtain ⟨-, -, -, rfl⟩ := he
  exact hk

theorem does_exchangePending {event : Option Event} {k : Option Event → Lib α}
    (hk : Does Q (k s.pending) { s with pending := event }) :
    Does Q (.call (.exchangePending event) k) s := by
  refine ⟨trivial, fun o r s' he => ?_⟩
  simp only [exec, Option.map_eq_some_iff, Prod.mk.injEq] at he
  obtain ⟨-, -, rfl, rfl⟩ := he
  exact hk

theorem request_cases {event : Request → Driver.Event} {code : RequestCode} {input : List Byte} {o : Outcome}
    {b : Bool} {done failed : World → World → Prop} (hrun : Handles event code input done failed)
    (hfile : s.file = some (h, d)) (he : request event code input (some h) s o = some (b, s')) :
    ∃ d', s' = { s with file := some (h, d') } ∧
      if b then done (core d) (core d') else core d' = core d ∨ failed (core d) (core d') := by
  unfold request at he
  split at he
  · simp only [serve, hfile, if_true, Option.bind_eq_some_iff, Option.map_eq_some_iff, Prod.mk.injEq] at he
    obtain ⟨⟨⟨⟩, d'⟩, hhandle, b', hres, rfl, rfl⟩ := he
    obtain ⟨b, hres', hcase⟩ := hrun _ _ _ _ hhandle
    obtain rfl := Option.some.inj (hres.symm.trans hres')
    refine ⟨d', rfl, ?_⟩
    split at hcase
    · next hb => rwa [if_pos hb]
    · next hb => rw [if_neg hb]; exact .inr hcase
  · cases he
    exact ⟨d, by rw [← hfile], .inl rfl⟩
  · cases he

end

/-! ## Configuring -/

/-- What a configuration is as `WINUHID_DEVICE_INFO`. -/
def DeviceConfig.info (config : DeviceConfig) : DeviceInfo :=
  ⟨config.supportedEvents, config.vendorID, config.productID, config.versionNumber, config.containerId.1⟩

theorem decode_deviceInfo (config : DeviceConfig) (padding : UInt16) :
    DeviceInfo.decode (deviceInfo config padding) = config.info := by
  have hguid : config.containerId.1.take 16 = config.containerId.1 :=
    List.take_of_length_le config.containerId.2.le
  have hevents := u32At_u32Bytes (u32Bytes 1)
    (wideBytes [config.vendorID, config.productID, config.versionNumber, padding] ++ config.containerId.1)
    config.supportedEvents
  have hvendor := u16At_append (u32Bytes 1 ++ u32Bytes config.supportedEvents)
    (wideBytes [config.productID, config.versionNumber, padding] ++ config.containerId.1) config.vendorID
  have hproduct := u16At_append (u32Bytes 1 ++ u32Bytes config.supportedEvents ++ wideBytes [config.vendorID])
    (wideBytes [config.versionNumber, padding] ++ config.containerId.1) config.productID
  have hversion := u16At_append
    (u32Bytes 1 ++ u32Bytes config.supportedEvents ++ wideBytes [config.vendorID, config.productID])
    (wideBytes [padding] ++ config.containerId.1) config.versionNumber
  simp only [DeviceInfo.decode, DeviceConfig.info, DeviceInfo.mk.injEq]
  refine ⟨hevents, hvendor, hproduct, hversion, ?_⟩
  exact hguid

/-- The bytes that are sent for a string; none where it is not given. -/
def sentBytes (string : Option WString) (length : WString → Option ℕ) : Option (List Byte) :=
  string.bind fun s => (length s).map fun len => (wideBytes s).take (wideSize len)

/-- A string that is given was sent, and the driver took what was sent. -/
def Taken (t : IdString) (string : Option WString) (length : WString → Option ℕ) : Prop :=
  ∀ s, string = some s → ∃ bytes, sentBytes string length = some bytes ∧ t.Takes bytes

/-- The hardware IDs are sent whole: what the driver takes ends in two nulls, and a list has them at its
end only. -/
theorem Taken.whole {items : List WString} {rest : WString} {length : WString → Option ℕ}
    (hitems : ∀ s ∈ items, s ≠ [] ∧ 0 ∉ s)
    (h : Taken hardwareIdsString (some (multiSz items ++ rest)) length) :
    ∃ behind, sentBytes (some (multiSz items ++ rest)) length = some (wideBytes (multiSz items) ++ behind) ∧
      (wideBytes (multiSz items) ++ behind).length ≤ 0xFFFF := by
  obtain ⟨bytes, hsent, htakes⟩ := h _ rfl
  rw [hsent]
  simp only [sentBytes, Option.bind_some, Option.map_eq_some_iff] at hsent
  obtain ⟨len, -, rfl⟩ := hsent
  rw [wideSize_eq, wideBytes_take] at htakes ⊢
  generalize hsome : (multiSz items ++ rest).take ((len + 1) % 2 ^ 31) = sent at htakes ⊢
  have hmin := htakes.minimum
  have hnulls := htakes.wellFormed
  simp only [hardwareIdsString, endsWithTwoNulls, wideBytes_length, Bool.and_eq_true, beq_iff_eq] at hmin hnulls
  have hhalf : 2 * sent.length / 2 = sent.length := by omega
  rw [hhalf, u16At_wideBytes (by omega), u16At_wideBytes (by omega)] at hnulls
  obtain ⟨behind, rfl⟩ : multiSz items <+: sent := by
    refine multiSz_whole hitems (hsome ▸ List.take_prefix _ _) (by omega) ?_ ?_
    · exact hnulls.2
    · exact hnulls.1
  rw [wideBytes_append] at htakes ⊢
  exact ⟨_, rfl, htakes.fits⟩

def storeIfSent (t : IdString) (bytes : Option (List Byte)) (f : FileContext) : FileContext :=
  match bytes with
  | none => f
  | some bytes => storeString t bytes f

/-- The file context that the IOCTLs of `WinUHidCreateDevice` leave. -/
def configuredFile (config : DeviceConfig) : FileContext :=
  storeIfSent hardwareIdsString (sentBytes config.hardwareIDs multiSzWcsLen)
    (storeIfSent instanceIdString (sentBytes config.instanceID wcslen)
      (storeReportDescriptor vgunReportDescriptor
        (setReportDescriptorMem (some vgunReportDescriptor)
          (storeDeviceInfo config.info FileContext.created))))

/-- What VHF is to make of a configuration of the lightgun. -/
def vhfConfigOf (config : DeviceConfig) : VhfConfig where
  vhfClientContext := true
  vendorID := config.vendorID
  productID := config.productID
  versionNumber := config.versionNumber
  containerID := config.containerId.1
  evtVhfAsyncOperationGetFeature := wants config.info .getFeature
  evtVhfAsyncOperationSetFeature := wants config.info .setFeature
  evtVhfAsyncOperationWriteReport := wants config.info .writeReport
  evtVhfAsyncOperationGetInputReport := wants config.info .readReport
  evtVhfReadyForNextReadReport := wants config.info .readReport
  reportDescriptor := some vgunReportDescriptor
  reportDescriptorLength := vgunReportDescriptorBytes.toUInt16
  instanceID := sentBytes config.instanceID wcslen
  instanceIDLength := ((sentBytes config.instanceID wcslen).map (·.length.toUInt16)).getD 0
  hardwareIDs := sentBytes config.hardwareIDs multiSzWcsLen
  hardwareIDsLength := ((sentBytes config.hardwareIDs multiSzWcsLen).map (·.length.toUInt16)).getD 0

theorem vgunReportDescriptor_parses :
    ntSuccess (parseReportDescriptor vgunReportDescriptor vgunReportDescriptor.length.toUInt16).status := by
  decide +kernel

theorem configuredFile_spec (config : DeviceConfig) :
    (configuredFile config).vhfConfig = vhfConfigOf config ∧ (configuredFile config).vhfHandle = none ∧
      (configuredFile config).lastReportValid = false := by
  have hparse := vgunReportDescriptor_parses
  unfold configuredFile vhfConfigOf
  cases sentBytes config.instanceID wcslen <;> cases sentBytes config.hardwareIDs multiSzWcsLen <;>
    simp [storeIfSent, storeString, storeReportDescriptor, hparse, setReportDescriptorMem, storeDeviceInfo,
      FileContext.created, VhfConfig.init, hardwareIdsString, instanceIdString, setInstanceIdMem,
      setHardwareIdsMem, DeviceConfig.info, vgunReportDescriptorBytes]

/-- VHF made no device for the handle, and got no report from it. -/
def Untouched (k : World) : Prop := ∀ c ∈ k.vhf, c.createsDevice = false ∧ c.acceptedReport = none

/-- No device was made for the handle. -/
structure NoDevice (k : World) : Prop where
  handle : k.file.vhfHandle = none
  untouched : Untouched k

theorem Idle.noDevice {k k' : World} (h : Idle k k') (hk : NoDevice k) : NoDevice k' := by
  refine ⟨h.handle.trans hk.handle, ?_⟩
  rw [Untouched, h.vhf]
  exact hk.untouched

theorem Refused.noDevice {k k' : World} (h : Refused k k') (hk : NoDevice k) : NoDevice k' := by
  obtain ⟨hfile, calls, hvhf, hcalls⟩ := h
  refine ⟨by rw [hfile, hk.handle], fun c hc => ?_⟩
  rw [hvhf] at hc
  rcases List.mem_append.mp hc with hc | hc
  · exact hk.untouched c hc
  · exact ⟨(hcalls c hc).1, (hcalls c hc).2.2⟩

section
variable {Q : Bool → Session → Prop} {s : Session} {h event : Handle} {d : World}

theorem sync_does {code : RequestCode} {input : List Byte} {done failed : World → World → Prop}
    (hrun : Handles .ioctl code input done failed) (hfile : s.file = some (h, d))
    (hyes : ∀ d', done (core d) (core d') → Q true { s with file := some (h, d') })
    (hno : ∀ d', core d' = core d ∨ failed (core d) (core d') → Q false { s with file := some (h, d') }) :
    Does Q (deviceIoControlInSync (some h) (some event) code input) s := by
  unfold deviceIoControlInSync perform
  rw [Prog.perform_bind]
  refine does_idle rfl fun _ => ⟨trivial, fun o b s' he => ⟨trivial, ?_⟩⟩
  obtain ⟨d', rfl, hcase⟩ := request_cases hrun hfile he
  cases b with
  | true => exact hyes d' (by simpa using hcase)
  | false => exact hno d' (by simpa using hcase)

/-- `goto Fail` after a call that failed. -/
theorem or_fail {p rest : Lib Bool}
    (hp : Does (fun b s' => if b then Does Q rest s' else Q false s') p s) :
    Does Q (p >>= fun b => if !b then pure false else rest) s := by
  refine (wp_bind _ _).mpr (wp_post (fun b s' _ hb => ?_) hp)
  cases b with
  | true => simpa using hb
  | false => exact ⟨trivial, by simpa using hb⟩

theorem sendIfGiven_does {t : IdString} {ioctl : RequestCode} {string : Option WString}
    {length : WString → Option ℕ}
    (hrun : ∀ input, Handles .ioctl ioctl input
      (fun k k' => t.Takes input ∧ k' = { k with file := storeString t input k.file }) Idle)
    (hfile : s.file = some (h, d))
    (hyes : ∀ d', Taken t string length →
      core d' = { core d with file := storeIfSent t (sentBytes string length) (core d).file } →
      Q true { s with file := some (h, d') })
    (hno : ∀ d', core d' = core d ∨ Idle (core d) (core d') → Q false { s with file := some (h, d') }) :
    Does Q (sendIfGiven (some h) (some event) ioctl string length) s := by
  unfold sendIfGiven
  cases string with
  | none =>
    have hsame : { s with file := some (h, d) } = s := by rw [← hfile]
    have hend := hyes d (fun s hs => by cases hs) rfl
    rw [hsame] at hend
    exact ⟨trivial, hend⟩
  | some string =>
    simp only [sendString]
    cases hlen : length string with
    | none => exact does_accessViolation
    | some len =>
      have hsent : sentBytes (some string) length = some ((wideBytes string).take (wideSize len)) := by
        rw [sentBytes, Option.bind_some, hlen, Option.map_some]
      refine sync_does (hrun _) hfile (fun d' ⟨htakes, hd'⟩ => hyes d' ?_ ?_) hno
      · rintro s hs
        exact ⟨_, hsent, htakes⟩
      · rw [hsent]
        exact hd'

/-- The configuration is the lightgun's. -/
structure DeviceConfig.IsLightgun (config : DeviceConfig) : Prop where
  vendorID : config.vendorID = vgunVid
  productID : config.productID = vgunPid
  reportDescriptor : ∃ descriptor, config.reportDescriptor = some descriptor ∧
    descriptor.take config.reportDescriptorLength.toNat = vgunReportDescriptor

/-- VHF made the device of the configuration for the handle, and nothing else. -/
structure Made (config : DeviceConfig) (d : World) : Prop where
  lightgun : config.IsLightgun
  hardwareIDs : Taken hardwareIdsString config.hardwareIDs multiSzWcsLen
  created : ∃ s handle, ntSuccess s = true ∧
    core d = { World.opened with file := configuredFile config }.created s handle

theorem noDevice_opened {f : FileContext} (hf : f.vhfHandle = none) :
    NoDevice { World.opened with file := f } :=
  ⟨hf, by simp [Untouched, World.opened]⟩

theorem configureDevice_does {config : DeviceConfig} {descriptor : List Byte} {padding : UInt16}
    (hdescriptor : config.reportDescriptor = some descriptor) (hfile : s.file = some (h, World.opened)) :
    Does (fun b s' => ∃ d, s' = { s with file := some (h, d) } ∧
        if b then Made config d else NoDevice (core d))
      (configureDevice config descriptor padding (some h) (some event)) s := by
  have hfail {d d' : World} (hd : NoDevice (core d)) (h : core d' = core d ∨ Idle (core d) (core d')) :
      NoDevice (core d') := by
    rcases h with h | h
    · rwa [h]
    · exact h.noDevice hd
  unfold configureDevice
  refine or_fail (sync_does setDeviceInfo_handles hfile (fun d₁ h₁ => ?_) fun d' h' =>
    ⟨d', rfl, hfail (noDevice_opened rfl) h'⟩)
  rw [decode_deviceInfo] at h₁
  obtain ⟨hvid, hpid, h₁⟩ := h₁
  have hnone₁ : NoDevice (core d₁) := by
    rw [h₁]
    exact noDevice_opened rfl
  refine or_fail (sync_does setReportDescriptor_handles rfl (fun d₂ h₂ => ?_) fun d' h' =>
    ⟨d', rfl, hfail hnone₁ h'⟩)
  obtain ⟨hin, h₂⟩ := h₂
  have hlightgun : config.IsLightgun := ⟨hvid, hpid, descriptor, hdescriptor, hin⟩
  have hnone₂ : NoDevice (core d₂) := by
    rw [h₂]
    refine ⟨?_, hnone₁.untouched⟩
    rw [← hnone₁.handle]
    exact storeReportDescriptor_vhfHandle _ _
  refine or_fail (sendIfGiven_does (t := instanceIdString) (fun _ => setInstanceId_handles) rfl
    (fun d₃ _ h₃ => ?_) fun d' h' => ⟨d', rfl, hfail hnone₂ h'⟩)
  have hnone₃ : NoDevice (core d₃) := by
    rw [h₃]
    refine ⟨?_, hnone₂.untouched⟩
    rw [← hnone₂.handle]
    cases sentBytes config.instanceID wcslen <;> rfl
  refine or_fail (sendIfGiven_does (t := hardwareIdsString) (fun _ => setHardwareIds_handles) rfl
    (fun d₄ htaken h₄ => ?_) fun d' h' => ⟨d', rfl, hfail hnone₃ h'⟩)
  have hfile₄ : core d₄ = { World.opened with file := configuredFile config } := by
    rw [h₄, h₃, h₂, h₁]
    rfl
  have hnone₄ : NoDevice (core d₄) := by
    rw [hfile₄]
    exact noDevice_opened (configuredFile_spec config).2.1
  refine sync_does createDevice_handles rfl (fun d₅ h₅ => ?_) fun d' h' => ⟨d', rfl, ?_⟩
  · obtain ⟨st, handle, hst, -, h₅⟩ := h₅
    rw [hfile₄] at h₅
    exact ⟨d₅, rfl, hlightgun, htaken, st, handle, hst, h₅⟩
  · rcases h' with h' | h'
    · simpa [h'] using hnone₄
    · simpa using h'.noDevice hnone₄

end

/-! ## Opening and closing -/

/-- The handle of an event or a timer, if there is one, beside others. -/
def beside (h : Option Handle) (hs : Multiset Handle) : Multiset Handle :=
  match h with
  | none => hs
  | some h => h ::ₘ hs

theorem beside_cons (h : Option Handle) (x : Handle) (hs : Multiset Handle) :
    beside h (x ::ₘ hs) = x ::ₘ beside h hs := by
  cases h with
  | none => rfl
  | some h => exact Multiset.cons_swap h x hs

/-- No handle is open under the number of the file. -/
def Session.Apart (s : Session) : Prop := ∀ h d, s.file = some (h, d) → h ∉ s.handles

/-- The session has this device, and the handles of the device beside these. -/
structure Session.Has (dev : Device) (hs : Multiset Handle) (s : Session) : Prop where
  device : s.device = some dev
  file : dev.handle = s.file.map (·.1)
  handles : s.handles = beside dev.throttlingTimer (beside dev.readReportReadyEvent hs)
  pending : s.pending = none
  apart : s.Apart

section
variable {Q : Unit → Session → Prop} {s : Session} {dev : Device} {hs : Multiset Handle}

theorem closeIfOpen_does {h : Option Handle} (hhandles : s.handles = beside h hs) (hapart : s.Apart)
    (hQ : Q () { s with handles := hs }) : Does Q (closeIfOpen h) s := by
  unfold closeIfOpen
  cases h with
  | none =>
    have hsame : { s with handles := hs } = s := by rw [← show s.handles = hs from hhandles]
    rw [hsame] at hQ
    exact ⟨trivial, hQ⟩
  | some h =>
    have hmem : h ∈ s.handles := by
      rw [hhandles]
      exact Multiset.mem_cons_self h hs
    refine does_closeHandle (fun d hd => hapart h d hd hmem) ⟨trivial, ?_⟩
    rw [hhandles]
    simpa [beside] using hQ

/-- What is left of a session when its device is destroyed. -/
def Session.destroyed (s : Session) (hs : Multiset Handle) (closed : List World) : Session :=
  { s with device := none, pending := none, file := none, handles := hs, closed := s.closed ++ closed }

theorem destroy_does {stack : Byte} (h : s.Has dev hs) (hstate : dev.state ≠ .started)
    (hnone : s.file = none → Q () (s.destroyed hs []))
    (hsome : ∀ f d os d', s.file = some (f, d) → driver.handle .close os d = some ((), d') →
      Q () (s.destroyed hs [d'])) :
    Does Q (winUHidDestroyDevice true stack) s := by
  unfold winUHidDestroyDevice perform
  simp only [Bool.not_true, Bool.false_eq_true, if_false, Prog.perform_bind]
  refine does_readDevice h.device ?_
  rw [if_neg hstate]
  refine does_readDevice h.device ?_
  refine (wp_bind _ _).mpr (closeIfOpen_does h.handles h.apart ?_)
  have hle : ∀ x ∈ beside dev.readReportReadyEvent hs, x ∈ s.handles := by
    intro x hx
    rw [h.handles]
    cases dev.throttlingTimer with
    | none => exact hx
    | some timer => exact Multiset.mem_cons_of_mem hx
  refine (wp_bind _ _).mpr (closeIfOpen_does rfl (fun f d hf hmem => h.apart f d hf (hle f hmem)) ?_)
  refine does_exchangePending ?_
  simp only [h.pending, h.file]
  unfold closeIfOpen
  cases hf : s.file with
  | none =>
    refine does_freeDevice ⟨trivial, ?_⟩
    have hend := hnone hf
    rw [Session.destroyed, List.append_nil] at hend
    exact hend
  | some f =>
    obtain ⟨f, d⟩ := f
    refine does_closeFile rfl fun os d' hclose => does_freeDevice ⟨trivial, ?_⟩
    exact hsome f d os d' hf hclose

end

/-! ## Making -/

/-- A device that was never started. -/
structure Fresh (config : DeviceConfig) (dev : Device) : Prop where
  state : dev.state = .created
  hint : dev.eventBufferSizeHint = 128
  threads : dev.eventThread = none ∧ dev.readThread = none
  throttled : throttles config = false → dev.throttlingTimer = none ∧ dev.readReportReadyEvent = none
  /-- The file is opened once the timer and the event are there. -/
  paired : dev.handle.isSome → dev.throttlingTimer.isSome = dev.readReportReadyEvent.isSome

/-- What setting up a device leaves: the device that was asked for, or one without a device in VHF. -/
structure SetUp (config : DeviceConfig) (hs : Multiset Handle) (s : Session) (b : Bool) (s' : Session) :
    Prop where
  has : ∃ dev, s'.Has dev hs ∧ Fresh config dev
  same : s'.blocks = s.blocks ∧ s'.closed = s.closed
  made : if b then ∃ h d, s'.file = some (h, d) ∧ Made config d
    else ∀ h d, s'.file = some (h, d) → NoDevice (core d)

section
variable {config : DeviceConfig} {descriptor : List Byte} {padding : UInt16} {event : Handle}
  {s : Session} {dev : Device} {hs : Multiset Handle}

theorem openDevice_does (hdescriptor : config.reportDescriptor = some descriptor) (h : s.Has dev hs)
    (hfresh : Fresh config dev) (hpaired : dev.throttlingTimer.isSome = dev.readReportReadyEvent.isSome)
    (hfile : s.file = none) : Does (SetUp config hs s) (openDevice config descriptor padding event) s := by
  unfold openDevice perform
  simp only [Prog.perform_bind]
  refine does_createFile hfile ?_ fun f hf => ?_
  · refine does_modifyDevice ⟨trivial, ?_, ⟨rfl, rfl⟩, fun f d hf => ?_⟩
    · refine ⟨{ dev with handle := none }, ⟨by simp [h.device], by simp [hfile], h.handles, h.pending, ?_⟩, ?_⟩
      · exact h.apart
      · exact ⟨hfresh.state, hfresh.hint, hfresh.threads, hfresh.throttled, fun _ => hpaired⟩
    · simp only [hfile, reduceCtorEq] at hf
  · refine does_modifyDevice (wp_post ?_ (configureDevice_does hdescriptor rfl))
    rintro b _ - ⟨d, rfl, hmade⟩
    refine ⟨⟨{ dev with handle := some f }, ⟨by simp [h.device], rfl, h.handles, h.pending, ?_⟩, ?_⟩,
      ⟨rfl, rfl⟩, ?_⟩
    · rintro _ _ ⟨⟩
      exact hf
    · exact ⟨hfresh.state, hfresh.hint, hfresh.threads, hfresh.throttled, fun _ => hpaired⟩
    · cases b with
      | true => exact ⟨f, d, rfl, by simpa using hmade⟩
      | false =>
        rintro _ _ ⟨⟩
        simpa using hmade

theorem setUpDevice_does (hdescriptor : config.reportDescriptor = some descriptor)
    (h : s.Has Device.zero hs) :
    Does (SetUp config hs s) (setUpDevice config descriptor padding event) s := by
  have hfile : s.file = none := by
    have hf := h.file
    simpa [Device.zero] using hf.symm
  have hhandles : s.handles = hs := h.handles
  have hopened {dev : Device} {H : Multiset Handle} (hfresh : Fresh config dev)
      (hpaired : dev.throttlingTimer.isSome = dev.readReportReadyEvent.isSome)
      (hH : H = beside dev.throttlingTimer (beside dev.readReportReadyEvent hs)) (hdev : dev.handle = none) :
      Does (SetUp config hs s) (openDevice config descriptor padding event)
        { s with device := some dev, handles := H } := by
    refine wp_post (fun b s' _ hs' => ⟨hs'.has, hs'.same, hs'.made⟩)
      (openDevice_does hdescriptor ⟨rfl, ?_, hH, h.pending, ?_⟩ hfresh hpaired hfile)
    · rw [hdev, hfile]
      rfl
    · intro f d hf
      rw [show s.file = some (f, d) from hf] at hfile
      cases hfile
  have hfailed {dev : Device} {H : Multiset Handle} (hfresh : Fresh config dev)
      (hH : H = beside dev.throttlingTimer (beside dev.readReportReadyEvent hs)) (hdev : dev.handle = none) :
      SetUp config hs s false { s with device := some dev, handles := H } := by
    have hno (f : Handle) (d : World) : s.file ≠ some (f, d) := by
      intro hf
      rw [hfile] at hf
      cases hf
    refine ⟨⟨dev, ⟨rfl, ?_, hH, h.pending, fun f d hf => absurd hf (hno f d)⟩, hfresh⟩, ⟨rfl, rfl⟩, ?_⟩
    · rw [hdev, hfile]
      rfl
    · intro f d hf
      exact absurd hf (hno f d)
  unfold setUpDevice perform
  simp only [Prog.perform_bind]
  refine does_modifyDevice (wp_ite (fun hthrottles => ?_) fun hthrottles => ?_)
  · refine does_createWaitableTimer ?_ fun timer _ => ?_
    · refine does_modifyDevice ⟨trivial, ?_⟩
      simp only [h.device, Option.map_some]
      exact hfailed ⟨rfl, rfl, ⟨rfl, rfl⟩, fun _ => ⟨rfl, rfl⟩, fun _ => rfl⟩ hhandles rfl
    · refine does_modifyDevice (does_modifyDevice (does_createEvent ?_ fun ready _ => ?_))
      · refine does_modifyDevice ⟨trivial, ?_⟩
        simp only [h.device, Option.map_some]
        refine hfailed ⟨rfl, rfl, ⟨rfl, rfl⟩, fun hno => ?_, nofun⟩ (by rw [hhandles]; rfl) rfl
        rw [hthrottles] at hno
        cases hno
      · refine does_modifyDevice ?_
        simp only [h.device, Option.map_some]
        refine hopened ⟨rfl, rfl, ⟨rfl, rfl⟩, fun hno => ?_, fun _ => rfl⟩ rfl ?_ rfl
        · rw [hthrottles] at hno
          cases hno
        · rw [hhandles]
          exact Multiset.cons_swap ready timer hs
  · simp only [h.device, Option.map_some]
    exact hopened ⟨rfl, rfl, ⟨rfl, rfl⟩, fun _ => ⟨rfl, rfl⟩, fun _ => rfl⟩ rfl hhandles rfl

end

/-! ## WinUHidCreateDevice -/

theorem close_vhf {os : List Driver.Outcome} {d d' : World} (h : driver.handle .close os d = some ((), d')) :
    ∃ s, d'.vhf = d.vhf ++ (rundownSection d.file).2.1 ++ closeCalls d.file s := by
  obtain ⟨v, ha, hs⟩ := System.handle_steps h
  obtain ⟨-, -, s, hvhf⟩ := hs.post winUHidEvtDeviceFileClose_run
  obtain ⟨hfile, hsame⟩ := arrive_file ha
  refine ⟨s, ?_⟩
  rw [hvhf, World.afterRundown, hfile, hsame]

theorem close_noDevice {os : List Driver.Outcome} {d d' : World} (hd : NoDevice (core d))
    (h : driver.handle .close os d = some ((), d')) : Untouched d' := by
  obtain ⟨s, hvhf⟩ := close_vhf h
  have hcalls : closeCalls d.file s = [] := by
    rw [closeCalls, show d.file.vhfHandle = none from hd.handle]
  intro c hc
  rw [hvhf, hcalls, List.append_nil] at hc
  rcases List.mem_append.mp hc with hc | hc
  · exact hd.untouched c hc
  · obtain ⟨handle, st, rfl⟩ := rundown_completes _ _ hc
    exact ⟨rfl, rfl⟩

/-- Nothing is left of a device that could not be made. -/
structure LeavesNothing (s s' : Session) : Prop where
  device : s'.device = none
  file : s'.file = none
  handles : s'.handles = s.handles
  blocks : s'.blocks = s.blocks
  closed : ∃ ds, s'.closed = s.closed ++ ds ∧ ∀ d ∈ ds, Untouched d

/-- What `WinUHidCreateDevice` leaves. -/
def Creates (config : Option DeviceConfig) (s : Session) (b : Bool) (s' : Session) : Prop :=
  if b then ∃ c dev h d, config = some c ∧ s'.Has dev s.handles ∧ Fresh c dev ∧ s'.file = some (h, d) ∧
    Made c d ∧ s'.blocks = s.blocks ∧ s'.closed = s.closed
  else LeavesNothing s s'

theorem winUHidCreateDevice_does {config : Option DeviceConfig} {padding : UInt16} {stack : Byte}
    {s : Session} (hdev : s.device = none) (hfile : s.file = none) :
    Does (Creates config s) (winUHidCreateDevice config padding stack) s := by
  have hsame : LeavesNothing s s := ⟨hdev, hfile, rfl, rfl, [], by simp, by simp⟩
  unfold winUHidCreateDevice perform
  cases config with
  | none =>
    simp only [Prog.perform_bind]
    exact does_idle rfl fun _ => ⟨trivial, hsame⟩
  | some config =>
    cases hdescriptor : config.reportDescriptor with
    | none =>
      simp only [hdescriptor, Prog.perform_bind]
      exact does_idle rfl fun _ => ⟨trivial, hsame⟩
    | some descriptor =>
      simp only [hdescriptor, Prog.perform_bind]
      refine wp_ite (fun _ => does_idle rfl fun _ => ⟨trivial, hsame⟩) fun _ => ?_
      refine does_createEvent ⟨trivial, hsame⟩ fun event hevent => does_allocDevice ?_ ?_
      · refine does_idle rfl fun _ => does_closeHandle (by simp [hfile]) ⟨trivial, ?_⟩
        exact ⟨hdev, hfile, Multiset.erase_cons_head event s.handles, rfl, [], by simp, by simp⟩
      · refine (wp_bind _ _).mpr (wp_post ?_ (setUpDevice_does hdescriptor
          ⟨rfl, by simp [Device.zero, hfile], rfl, rfl, by simp [Session.Apart, hfile]⟩))
        rintro b s₁ - ⟨⟨dev, hhas, hfresh⟩, ⟨hblocks, hclosed⟩, hmade⟩
        cases b with
        | true =>
          obtain ⟨h, d, hopen, hmade⟩ : ∃ h d, s₁.file = some (h, d) ∧ Made config d := by simpa using hmade
          have hhandles := hhas.handles
          rw [beside_cons, beside_cons] at hhandles
          have hmem : event ∈ s₁.handles := by
            rw [hhandles]
            exact Multiset.mem_cons_self event _
          refine does_closeHandle (fun d hd => hhas.apart _ d hd hmem) ⟨trivial, ?_⟩
          refine ⟨config, dev, h, d, rfl, ⟨hhas.device, hhas.file, ?_, hhas.pending, ?_⟩, hfresh, hopen, hmade,
            hblocks, hclosed⟩
          · rw [hhandles]
            exact Multiset.erase_cons_head event _
          · exact fun h d hd hmem => hhas.apart h d hd (Multiset.mem_of_mem_erase hmem)
        | false =>
          have hnone : ∀ h d, s₁.file = some (h, d) → NoDevice (core d) := by simpa using hmade
          have hend {ds : List World} (hds : ∀ d ∈ ds, Untouched d) :
              Does (Creates (some config) s) (.call (.closeHandle event) fun _ => pure false)
                (s₁.destroyed (event ::ₘ s.handles) ds) := by
            refine does_closeHandle (by simp [Session.destroyed]) ⟨trivial, ?_⟩
            exact ⟨rfl, rfl, Multiset.erase_cons_head event s.handles, hblocks, ds,
              by rw [Session.destroyed, hclosed], hds⟩
          refine (wp_bind _ _).mpr (destroy_does hhas (by simp [hfresh.state]) (fun _ => ?_) ?_)
          · exact hend (by simp)
          · intro f d os d' hf hclose
            refine hend fun u hu => ?_
            rw [List.mem_singleton.mp hu]
            exact close_noDevice (hnone f d hf) hclose

theorem Made.vhf {config : DeviceConfig} {d : World} (h : Made config d) :
    ∃ status, ntSuccess status = true ∧ d.vhf = [.create (vhfConfigOf config) false status] ∧
      d.file.vhfHandle.isSome := by
  obtain ⟨status, handle, hs, hcore⟩ := h.created
  obtain ⟨hconfig, hnone, -⟩ := configuredFile_spec config
  rw [World.created, if_pos hs] at hcore
  have hvhf : d.vhf = [.create (configuredFile config).vhfConfig (configuredFile config).vhfHandle.isSome status] :=
    congrArg World.vhf hcore
  have hhandle : d.file.vhfHandle = some handle := congrArg (·.file.vhfHandle) hcore
  rw [hconfig, hnone] at hvhf
  exact ⟨status, hs, hvhf, by rw [hhandle]; rfl⟩

section
variable {config : Option DeviceConfig} {padding : UInt16} {stack : Byte} {s s' : Session}

/-- A device that is returned is a lightgun. VHF was called once for it, and made what the configuration
says. Hardware IDs that were given were sent whole. -/
theorem created_device (hdev : s.device = none) (hfile : s.file = none)
    (h : Steps exec (winUHidCreateDevice config padding stack) s (.ret true) s') :
    ∃ c f d status, config = some c ∧ c.IsLightgun ∧ s'.file = some (f, d) ∧ ntSuccess status = true ∧
      d.vhf = [.create (vhfConfigOf c) false status] ∧ d.file.vhfHandle.isSome ∧
      ∀ items rest, (∀ s ∈ items, s ≠ [] ∧ 0 ∉ s) → c.hardwareIDs = some (multiSz items ++ rest) →
        ∃ behind, (vhfConfigOf c).hardwareIDs = some (wideBytes (multiSz items) ++ behind) ∧
          (vhfConfigOf c).hardwareIDsLength.toNat = (wideBytes (multiSz items) ++ behind).length := by
  obtain ⟨c, dev, f, d, rfl, -, -, hopen, hmade, -⟩ := h.post (winUHidCreateDevice_does hdev hfile)
  obtain ⟨status, hs, hvhf, hhandle⟩ := hmade.vhf
  refine ⟨c, f, d, status, rfl, hmade.lightgun, hopen, hs, hvhf, hhandle, fun items rest hitems hids => ?_⟩
  have htaken := hmade.hardwareIDs
  rw [hids] at htaken
  obtain ⟨behind, hsent, hfits⟩ := htaken.whole hitems
  rw [← hids] at hsent
  refine ⟨behind, hsent, ?_⟩
  simp only [vhfConfigOf, hsent, Option.map_some, Option.getD_some]
  rw [Nat.toUInt16, UInt16.toNat_ofNat_of_lt' (by simp only [UInt16.size]; omega)]

/-- A device that is returned is one that threads may use. -/
theorem created_device_justCreated (hdev : s.device = none) (hfile : s.file = none)
    (h : Steps exec (winUHidCreateDevice config padding stack) s (.ret true) s') :
    ∃ dev, s'.device = some dev ∧ JustCreated dev := by
  obtain ⟨c, dev, f, d, -, hhas, hfresh, hopen, -⟩ := h.post (winUHidCreateDevice_does hdev hfile)
  have hhandle : dev.handle = some f := by
    rw [hhas.file, hopen]
    rfl
  exact ⟨dev, hhas.device, hfresh.state, hfresh.hint, hfresh.paired (by rw [hhandle]; rfl)⟩

/-- Where no device is returned, the session is as it was: no block, handle or file is left over, and VHF
made no device. -/
theorem failed_creation_leaves_nothing (hdev : s.device = none) (hfile : s.file = none)
    (h : Steps exec (winUHidCreateDevice config padding stack) s (.ret false) s') : LeavesNothing s s' :=
  h.post (winUHidCreateDevice_does hdev hfile)

end

/-! ## A gun, and what is not one -/

/-- The lightgun of a lane. -/
def gunConfig (lane : ℕ) : DeviceConfig where
  supportedEvents := 0
  vendorID := vgunVid
  productID := vgunPid
  versionNumber := 1
  reportDescriptorLength := vgunReportDescriptorBytes.toUInt16
  reportDescriptor := some vgunReportDescriptor
  containerId := ⟨List.replicate 16 0, rfl⟩
  instanceID := some (Setup.laneInstanceName lane ++ [0])
  hardwareIDs := none
  readReportPeriodUs := 0

/-- A gun with two hardware IDs, and zeros behind them. -/
def namedGun : DeviceConfig :=
  { gunConfig 3 with hardwareIDs := some (multiSz [Setup.wide "A", Setup.wide "B"] ++ [0, 0, 0]) }

/-- The driver gets the requests one after the other, and nothing fails. -/
def creates : Call → Outcome
  | .createEvent _ => .handle 1
  | .createFile => .handle 2
  | .closeHandle h => if h = 2 then .io 0 [.ok] else .ok
  | .allocDevice => .flag true
  | .deviceIoControl _ _ .setDeviceInfo input =>
    .io 1 (if u16At input 8 = vgunVid then [.ok, fine, .ok, .ok] else [.ok, fine, .ok])
  | .deviceIoControl _ _ .setReportDescriptor _ => .io 2 [.ok, fine, fine, .ok, fine, .ok, .ok, .ok]
  | .deviceIoControl _ _ .setInstanceId _ => .io 3 [.ok, fine, fine, .ok, fine, .ok, .ok, .ok]
  | .deviceIoControl _ _ .setHardwareIds _ => .io 4 [.ok, fine, fine, .ok, fine, .ok, .ok, .ok]
  | .deviceIoControl _ _ .createDevice _ => .io 5 [.ok, .made Status.success 1, .ok]
  | _ => .ok

theorem created_device_gun :
    ∃ (s' : Session) (f : Handle) (d : World) (status : NTSTATUS) (behind : List Byte),
      s'.file = some (f, d) ∧ ntSuccess status = true ∧
        d.vhf = [.create (vhfConfigOf namedGun) false status] ∧
        (vhfConfigOf namedGun).hardwareIDs =
          some (wideBytes (multiSz [Setup.wide "A", Setup.wide "B"]) ++ behind) := by
  obtain ⟨b, s', hrun, hb⟩ := Prog.endsWith_steps
    (show (winUHidCreateDevice (some namedGun) 0 0).endsWith exec creates (fun b _ => b) .empty = true by
      decide +kernel)
  subst hb
  obtain ⟨c, f, d, status, hc, -, hfile, hs, hvhf, -, hids⟩ := created_device rfl rfl hrun
  cases hc
  obtain ⟨behind, hbehind, -⟩ := hids [Setup.wide "A", Setup.wide "B"] [0, 0, 0] (by decide) rfl
  exact ⟨s', f, d, status, behind, hfile, hs, hvhf, hbehind⟩

theorem failed_creation_leaves_nothing_mouse :
    ∃ (s' : Session) (d : World), s'.file = none ∧ s'.closed = [d] ∧ Untouched d := by
  obtain ⟨b, s', hrun, hb⟩ := Prog.endsWith_steps
    (show (winUHidCreateDevice (some { gunConfig 3 with vendorID := 0 }) 0 0).endsWith exec creates
      (fun b s => !b && s.closed.length = 1) .empty = true by decide +kernel)
  simp only [Bool.and_eq_true, Bool.not_eq_true', decide_eq_true_eq] at hb
  obtain ⟨rfl, hlen⟩ := hb
  obtain ⟨-, hfile, -, -, ds, hclosed, hds⟩ := failed_creation_leaves_nothing rfl rfl hrun
  obtain ⟨d, hd⟩ := List.length_eq_one_iff.mp hlen
  refine ⟨s', d, hfile, hd, hds d ?_⟩
  rw [hd] at hclosed
  rw [show ds = [d] from hclosed.symm]
  exact List.mem_singleton_self d

end VirtualGun.WinUHid
