import VirtualGun.Driver.Writers
import VirtualGun.Driver.Replies
import VirtualGun.Library.WinUHid
import VirtualGun.Program.Layers
import Mathlib.Data.Multiset.AddSub

/-!
# The library over the driver

One thread of a client with one device. A `DeviceIoControl`, a `WriteFile` and the `CloseHandle` of the
file are whole runs of the driver's handlers. No event is polled, and no thread is started.
-/

open VirtualGun.Program VirtualGun.Driver

namespace VirtualGun.WinUHid

/-! ## The world of one device -/

structure Session where
  /-- The block of the `WINUHID_DEVICE`. -/
  device : Option Device
  pending : Option Event
  /-- The open events and timers. -/
  handles : Multiset Handle
  blocks : Multiset Block
  /-- The open handle of the control device, and what the driver has for it. -/
  file : Option (Handle × World)
  /-- What the driver had for the handles that were closed. -/
  closed : List World

def Session.empty : Session := ⟨none, none, 0, 0, none, []⟩

def Session.holds (s : Session) (h : Handle) : Bool := h ∈ s.handles || s.file.any (·.1 == h)

/-! ## Calls -/

/-- What Windows decides. A request of the driver gets an ID and the outcomes of its run. -/
inductive Outcome where
  | ok
  | fail
  | handle (h : Handle)
  | block (b : Block)
  | flag (b : Bool)
  | code (e : UInt32)
  /-- What lies in memory that was freed. -/
  | garbage (d : Device)
  | io (id : ℕ) (os : List Driver.Outcome)

namespace Outcome

def ok? : Outcome → Option Unit
  | ok => some ()
  | _ => none

def handle? : Outcome → Option (Option Handle)
  | handle h => some (some h)
  | fail => some none
  | _ => none

def block? : Outcome → Option (Option Block)
  | block b => some (some b)
  | fail => some none
  | _ => none

def flag? : Outcome → Option Bool
  | flag b => some b
  | _ => none

def code? : Outcome → Option UInt32
  | code e => some e
  | _ => none

def io? : Outcome → Option (ℕ × List Driver.Outcome)
  | io id os => some (id, os)
  | _ => none

end Outcome

/-- Whether the request succeeded that the driver completed. -/
def ioResult (d d' : World) (id : ℕ) : Option Bool :=
  ((d'.completed.drop d.completed.length).find? (·.request.id == id)).map fun c => ntSuccess c.status

/-- The driver handles a request, and the client waits for its completion. -/
def serve (event : Request → Driver.Event) (code : RequestCode) (input : List Byte) (file : Option Handle)
    (id : ℕ) (os : List Driver.Outcome) (s : Session) : Option (Bool × Session) :=
  match s.file with
  | none => none
  | some (h, d) =>
    if file = some h then
      (driver.handle (event ⟨id, code, input, []⟩) os d).bind fun x =>
        (ioResult d x.2 id).map fun b => (b, { s with file := some (h, x.2) })
    else none

/-- A call may fail before the driver sees the request. -/
def request (event : Request → Driver.Event) (code : RequestCode) (input : List Byte) (file : Option Handle)
    (s : Session) : Outcome → Option (Bool × Session)
  | .io id os => serve event code input file id os s
  | .fail => some (false, s)
  | _ => none

/-- Nothing else is open under a new handle. -/
def newHandle (s : Session) : Option Handle → Option (Option Handle × Session)
  | none => some (none, s)
  | some h => if s.holds h then none else some (some h, { s with handles := h ::ₘ s.handles })

def openFile (s : Session) : Option Handle → Option (Option Handle × Session)
  | none => some (none, s)
  | some h =>
    if s.holds h || s.file.isSome then none else some (some h, { s with file := some (h, World.opened) })

def newBlock (s : Session) : Option Block → Option (Option Block × Session)
  | none => some (none, s)
  | some b => if b ∈ s.blocks then none else some (some b, { s with blocks := b ::ₘ s.blocks })

/-- The driver sees the file closed. -/
def closeFile (os : List Driver.Outcome) (s : Session) : Option (Unit × Session) :=
  s.file.bind fun f => (driver.handle .close os f.2).map fun x =>
    ((), { s with file := none, closed := s.closed ++ [x.2] })

def newDevice (s : Session) (b : Bool) : Option (Bool × Session) :=
  if !b then some (false, s)
  else if s.device.isSome then none
  else some (true, { s with device := some Device.zero, pending := none })

/-- What a freed device reads as is anything. -/
def readDevice (s : Session) : Outcome → Option (Device × Session)
  | .ok => s.device.map fun d => (d, s)
  | .garbage d => if s.device.isSome then none else some (d, s)
  | _ => none

def exec : Exec Call Call.Resp Outcome Session
  | .getLastError, o, s => o.code?.map fun e => (e, s)
  | .setLastError _, o, s => o.ok?.map fun r => (r, s)
  | .createEvent _, o, s => o.handle?.bind (newHandle s)
  | .createWaitableTimer, o, s => o.handle?.bind (newHandle s)
  | .createFile, o, s => o.handle?.bind (openFile s)
  | .closeHandle h, o, s =>
    if s.file.any (·.1 == h) then o.io?.bind fun x => closeFile x.2 s
    else o.ok?.map fun r => (r, { s with handles := s.handles.erase h })
  | .heapAlloc _, o, s => o.block?.bind (newBlock s)
  | .heapFree b, o, s => o.ok?.map fun r => (r, { s with blocks := s.blocks.erase b })
  | .resetEvent _, o, s => o.ok?.map fun r => (r, s)
  | .setEvent _, o, s => o.ok?.map fun r => (r, s)
  | .setWaitableTimer .., o, s => o.ok?.map fun r => (r, s)
  | .waitForSingleObject .., o, s => o.flag?.map fun b => (b, s)
  | .deviceIoControl file _ code input, o, s => request .ioctl code input file s o
  | .writeFile file _ report, o, s => request .write .write report file s o
  -- Nothing is pending, and there is no other thread.
  | .cancelIo .., o, s => o.ok?.map fun r => (r, s)
  | .acquireShared, o, s => o.ok?.map fun r => (r, s)
  | .releaseShared, o, s => o.ok?.map fun r => (r, s)
  | .acquireExclusive, o, s => o.ok?.map fun r => (r, s)
  | .releaseExclusive, o, s => o.ok?.map fun r => (r, s)
  | .allocDevice, o, s => o.flag?.bind (newDevice s)
  | .freeDevice, o, s => o.ok?.map fun r => (r, { s with device := none })
  | .readDevice, o, s => readDevice s o
  | .modifyDevice f, o, s => o.ok?.map fun r => (r, { s with device := s.device.map f })
  | .setState state, o, s => o.ok?.map fun r => (r, { s with device := s.device.map ({ · with state := state }) })
  | .exchangePending event, o, s => o.ok?.map fun _ => (s.pending, { s with pending := event })
  | .heapReAlloc .., _, _ => none
  | .getNextEvent .., _, _ => none
  | .getOverlappedResult .., _, _ => none
  | .createThread _, _, _ => none
  | .eventCallback _, _, _ => none
  | .exitThread _, _, _ => none
  | .received _, _, _ => none
  | .accessViolation, _, _ => none
  | .forever, _, _ => none

/-! ## What the driver makes of a request -/

/-- The world of a handle without its requests. -/
def core (d : World) : World := { d with completed := [], arrived := [] }

/-- A request is answered with success where it is `done`, and else it `failed`. Both are said of the
worlds without their requests. -/
def Handles (event : Request → Driver.Event) (code : RequestCode) (input : List Byte)
    (done failed : World → World → Prop) : Prop :=
  ∀ id os d d', driver.handle (event ⟨id, code, input, []⟩) os d = some ((), d') →
    ∃ b, ioResult d d' id = some b ∧
      if b then done (core d) (core d') else failed (core d) (core d')

/-- Neither VHF nor `VhfHandle` saw anything of the request. -/
structure Idle (k k' : World) : Prop where
  vhf : k'.vhf = k.vhf
  handle : k'.file.vhfHandle = k.file.vhfHandle

/-- VHF refused a call. -/
structure Refused (k k' : World) : Prop where
  file : k'.file = k.file
  vhf : ∃ calls, k'.vhf = k.vhf ++ calls ∧ ∀ c ∈ calls, c.createsDevice = false ∧ c.isDelete = false ∧
    c.acceptedReport = none

section
variable {event : Request → Driver.Event} {code : RequestCode} {input : List Byte}
  {done failed : World → World → Prop} {d d' v w' : World}

theorem core_of_but {u : World} (h : But u w') : core w' = core u := by
  rw [But] at h
  rw [h]
  rfl

theorem Idle.of_still (h : Still v w') : Idle (core v) (core w') := by
  have hc : core w' = core { v with file := w'.file } := core_of_but h.rest
  exact ⟨by rw [hc]; rfl, h.handle⟩

theorem ioResult_of_completed {request : Request} {s : NTSTATUS} {information : ℕ} {output : List Byte}
    (h : d'.completed = d.completed ++ [⟨request, s, information, output⟩]) :
    ioResult d d' request.id = some (ntSuccess s) := by
  rw [ioResult, h, List.drop_left]
  simp

theorem arrive_request {request : Request} (hevent : event = .ioctl ∨ event = .write)
    (ha : driver.arrive (event request) d = some v) : v.completed = d.completed ∧ core v = core d := by
  rcases hevent with rfl | rfl <;>
    simp only [driver, arrive, World.accept, Option.ite_none_left_eq_some,
      Option.ite_none_right_eq_some, Option.some.injEq] at ha
  · obtain ⟨-, -, rfl⟩ := ha
    exact ⟨rfl, rfl⟩
  · obtain ⟨-, -, rfl⟩ := ha
    exact ⟨rfl, rfl⟩

/-- `p` is what the driver runs for the request. -/
theorem handles_of_replies {p : Request → Handler Unit} {done' failed' : Request → World → World → Prop}
    (hevent : event = .ioctl ∨ event = .write)
    (hp : ∀ request, request.code = code → driver.handler (event request) = p request)
    (hrun : ∀ request v, wp Driver.exec (fun _ => True)
      (Replies request v (done' request v) (failed' request v)) (p request) v)
    (hdone : ∀ request v w', request.input = input → done' request v w' → done (core v) (core w'))
    (hfailed : ∀ request v w', request.input = input → failed' request v w' →
      failed (core v) (core w')) :
    Handles event code input done failed := by
  intro id os d d' h
  obtain ⟨v, ha, hs⟩ := System.handle_steps h
  obtain ⟨hcompleted, hcore⟩ := arrive_request hevent ha
  rw [hp ⟨id, code, input, []⟩ rfl] at hs
  obtain ⟨s, information, output, hend, hcase⟩ := hs.post (hrun _ v)
  rw [hcompleted] at hend
  refine ⟨ntSuccess s, ioResult_of_completed hend, ?_⟩
  rw [← hcore]
  split at hcase
  · next hs =>
    rw [if_pos hs]
    exact hdone _ v d' rfl hcase
  · next hs =>
    rw [if_neg hs]
    exact hfailed _ v d' rfl hcase

theorem setDeviceInfo_handles :
    Handles .ioctl .setDeviceInfo input
      (fun k k' => (DeviceInfo.decode input).vendorID = vgunVid ∧
        (DeviceInfo.decode input).productID = vgunPid ∧
        k' = { k with file := storeDeviceInfo (DeviceInfo.decode input) k.file })
      Idle := by
  refine handles_of_replies (.inl rfl) (p := setDeviceInfo) (fun request hcode => ?_)
    (fun _ _ => setDeviceInfo_replies) ?_ fun _ _ _ _ => .of_still
  · simp [driver, handler, winUHidEvtIoDeviceControl, hcode]
  · rintro request v w' rfl ⟨hvid, hpid, hbut⟩
    exact ⟨hvid, hpid, core_of_but hbut⟩

theorem setReportDescriptor_handles :
    Handles .ioctl .setReportDescriptor input
      (fun k k' => input = vgunReportDescriptor ∧
        k' = { k with
          file := storeReportDescriptor vgunReportDescriptor
            (setReportDescriptorMem (some vgunReportDescriptor) k.file) })
      Idle := by
  refine handles_of_replies (.inl rfl) (p := setReportDescriptor) (fun request hcode => ?_)
    (fun _ _ => setReportDescriptor_replies) ?_ fun _ _ _ _ => .of_still
  · simp [driver, handler, winUHidEvtIoDeviceControl, hcode]
  · rintro request v w' rfl ⟨hin, hbut⟩
    exact ⟨hin, core_of_but hbut⟩

/-- What is stored for an ID string. -/
def storeString (s : IdString) (input : List Byte) (f : FileContext) : FileContext :=
  s.store input (s.setMem (some input) f)

theorem setInstanceId_handles :
    Handles .ioctl .setInstanceId input
      (fun k k' => instanceIdString.Takes input ∧
        k' = { k with file := storeString instanceIdString input k.file })
      Idle := by
  refine handles_of_replies (.inl rfl) (p := setInstanceId) (fun request hcode => ?_)
    (fun _ _ => setIdString_replies (fun _ _ _ => rfl) fun _ _ => rfl) ?_ fun _ _ _ _ => .of_still
  · simp [driver, handler, winUHidEvtIoDeviceControl, hcode]
  · rintro request v w' rfl ⟨htakes, hbut⟩
    exact ⟨htakes, core_of_but hbut⟩

theorem setHardwareIds_handles :
    Handles .ioctl .setHardwareIds input
      (fun k k' => hardwareIdsString.Takes input ∧
        k' = { k with file := storeString hardwareIdsString input k.file })
      Idle := by
  refine handles_of_replies (.inl rfl) (p := setHardwareIds) (fun request hcode => ?_)
    (fun _ _ => setIdString_replies (fun _ _ _ => rfl) fun _ _ => rfl) ?_ fun _ _ _ _ => .of_still
  · simp [driver, handler, winUHidEvtIoDeviceControl, hcode]
  · rintro request v w' rfl ⟨htakes, hbut⟩
    exact ⟨htakes, core_of_but hbut⟩

theorem core_created (w : World) (s : NTSTATUS) (handle : VhfHandle) :
    core (w.created s handle) = (core w).created s handle := by
  unfold World.created
  split <;> rfl

theorem refused_refl (k : World) : Refused k k := ⟨rfl, [], by simp, by simp⟩

theorem refused_created {k : World} {s : NTSTATUS} {handle : VhfHandle} (hs : ntSuccess s = false) :
    Refused k (k.created s handle) := by
  rw [World.created, hs]
  exact ⟨rfl, _, rfl, by simp [VhfCall.createsDevice, VhfCall.isDelete, VhfCall.acceptedReport, hs]⟩

theorem createDevice_handles :
    Handles .ioctl .createDevice input
      (fun k k' => ∃ s handle, ntSuccess s = true ∧ k.file.vhfHandle = none ∧ k' = k.created s handle)
      Refused := by
  refine handles_of_replies (.inl rfl) (p := createDevice) (fun request hcode => ?_)
    (fun _ _ => createDevice_replies) ?_ ?_
  · simp [driver, handler, winUHidEvtIoDeviceControl, hcode]
  · rintro request v w' rfl ⟨s, handle, hs, hnone, hbut⟩
    exact ⟨s, handle, hs, hnone, by rw [core_of_but hbut, core_created]⟩
  · rintro request v w' rfl ⟨u, hbut, rfl | ⟨s, handle, hs, rfl⟩⟩
    · rw [core_of_but hbut]
      exact refused_refl _
    · rw [core_of_but hbut, core_created]
      exact refused_created hs

theorem startDevice_handles :
    Handles .ioctl .startDevice input
      (fun k k' => ∃ s handle, ntSuccess s = true ∧ k.file.vhfHandle = some handle ∧
        k' = k.call (.start handle s))
      Refused := by
  refine handles_of_replies (.inl rfl) (p := startDevice) (fun request hcode => ?_)
    (fun _ _ => startDevice_replies) ?_ ?_
  · simp [driver, handler, winUHidEvtIoDeviceControl, hcode]
  · rintro request v w' rfl ⟨s, handle, hs, hsome, hbut⟩
    exact ⟨s, handle, hs, hsome, core_of_but hbut⟩
  · rintro request v w' rfl ⟨u, hbut, rfl | ⟨s, handle, hs, rfl⟩⟩
    · rw [core_of_but hbut]
      exact refused_refl _
    · rw [core_of_but hbut]
      exact ⟨rfl, _, rfl, by simp [VhfCall.createsDevice, VhfCall.isDelete, VhfCall.acceptedReport]⟩

theorem write_handles :
    Handles .write .write input
      (fun k k' => ∃ s handle, ntSuccess s = true ∧ k.file.vhfHandle = some handle ∧
        input.length ≤ 0xFFFFFFFF ∧
        k' = { k.call (.submit handle (writePacket input k.file) s) with
          file := stored input k.file })
      Refused := by
  refine handles_of_replies (.inr rfl) (p := winUHidEvtIoWrite) (fun _ _ => rfl)
    (fun _ _ => winUHidEvtIoWrite_replies) ?_ ?_
  · rintro request v w' rfl ⟨s, handle, hs, hsome, hlen, hbut⟩
    exact ⟨s, handle, hs, hsome, hlen, core_of_but hbut⟩
  · rintro request v w' rfl ⟨u, hbut, rfl | ⟨s, handle, hs, rfl⟩⟩
    · rw [core_of_but hbut]
      exact refused_refl _
    · rw [core_of_but hbut]
      exact ⟨rfl, _, rfl, by simp [VhfCall.createsDevice, VhfCall.isDelete, VhfCall.acceptedReport, hs]⟩

end

end VirtualGun.WinUHid
