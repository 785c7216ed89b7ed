import VirtualGun.Driver.Handlers

/-!
# What the event handlers call

Most handlers neither configure the device nor submit a report nor close. Their calls are quiet.
-/

open VirtualGun.Program

namespace VirtualGun.Driver

def RequestCode.isSetup : RequestCode → Bool
  | setDeviceInfo | setReportDescriptor | setInstanceId | setHardwareIds => true
  | _ => false

/-- Calls that complete no setup request, park none, and leave the device and its reports alone. -/
def quiet : Call → Prop
  | .modifyContext _ | .vhfCreate | .vhfReadReportSubmit _ _ | .vhfDelete _ => False
  | .storeLastReport _ | .rundownSection => False
  | .wdfRequestComplete request _ _ _ => request.code.isSetup = false
  | .wdfRequestForwardToIoQueue request | .wdfRequestRequeue request => request.code.isSetup = false
  | _ => True

/-- Only event requests wait in the queue. -/
def givesEventRequest : (c : Call) → c.Resp → Prop
  | .wdfIoQueueRetrieveRequestByFileObject, r => ∀ request ∈ r, request.code.isSetup = false
  | _, _ => True

/-- The handler makes only quiet calls. -/
abbrev Quiet {α : Type} (p : Handler α) : Prop := p.Calls quiet givesEventRequest

def ParkedEvents (w : World) : Prop := ∀ request ∈ w.parked, request.code.isSetup = false

theorem exec_parkedEvents {c : Call} {o : Outcome} {r : c.Resp} {w w' : World}
    (hp : ParkedEvents w) (hc : ∀ request, c = .wdfRequestForwardToIoQueue request ∨
      c = .wdfRequestRequeue request → request.code.isSetup = false)
    (he : exec c o w = some (r, w')) : givesEventRequest c r ∧ ParkedEvents w' := by
  cases c with
  | wdfIoQueueRetrieveRequestByFileObject =>
    rcases exec_retrieveRequest.mp he with ⟨s, -, -, rfl, rfl⟩ | ⟨request, rest, -, hw, rfl, rfl⟩
    · exact ⟨by simp [givesEventRequest], hp⟩
    · simp only [ParkedEvents, hw, List.mem_cons, forall_eq_or_imp] at hp
      exact ⟨by simpa [givesEventRequest] using hp.1, hp.2⟩
  | wdfRequestForwardToIoQueue request =>
    obtain ⟨-, rfl⟩ := exec_forward.mp he
    refine ⟨trivial, fun q hq => ?_⟩
    grind [ParkedEvents]
  | wdfRequestRequeue request =>
    obtain ⟨-, rfl⟩ := exec_requeue.mp he
    refine ⟨trivial, fun q hq => ?_⟩
    grind [ParkedEvents]
  | _ => exact ⟨trivial, by rw [ParkedEvents, exec_parked he rfl]; exact hp⟩

section
variable {request : Request}

theorem wdfRequestComplete_quiet {s : NTSTATUS} (h : request.code.isSetup = false) :
    Quiet (wdfRequestComplete request s) :=
  ⟨h, fun _ _ => trivial⟩

theorem tryCompleteGetNextEvent_quiet (h : request.code.isSetup = false) :
    Quiet (tryCompleteGetNextEvent request) := by
  simp only [tryCompleteGetNextEvent, perform, Prog.perform_bind]
  exact ⟨trivial, fun r _ => Prog.calls_ite (fun _ => ⟨h, fun _ _ => trivial⟩) fun _ => trivial⟩

theorem completeIfHandle_quiet (handle : Option VhfOperationHandle) (s : NTSTATUS) :
    Quiet (completeIfHandle handle s) :=
  Prog.calls_ite (fun _ => ⟨trivial, fun _ _ => trivial⟩) fun _ => trivial

theorem serviceWaitingRequest_quiet : Quiet serviceWaitingRequest := by
  simp only [serviceWaitingRequest, perform, Prog.perform_bind]
  refine ⟨trivial, fun r hr => ?_⟩
  cases r with
  | none => trivial
  | some request =>
    have h : request.code.isSetup = false := hr request rfl
    refine Prog.calls_bind (tryCompleteGetNextEvent_quiet h) fun b => Prog.calls_ite (fun _ => ?_)
      fun _ => trivial
    exact ⟨h, fun s _ => Prog.calls_ite (fun _ => wdfRequestComplete_quiet h) fun _ => trivial⟩

theorem queueOperation_quiet (op : OperationContext) (handle : Option VhfOperationHandle) :
    Quiet (queueOperation op handle) := by
  simp only [queueOperation, perform, Prog.perform_bind]
  refine ⟨trivial, fun r _ => ?_⟩
  cases r with
  | queued => exact serviceWaitingRequest_quiet
  | _ => exact Prog.calls_bind (completeIfHandle_quiet _ _) fun _ => ⟨trivial, fun _ _ => trivial⟩

theorem dispatchAsyncOperation_quiet (handle : Option VhfOperationHandle)
    (packet : Option HidXferPacket) (type : EventType) :
    Quiet (dispatchAsyncOperation handle packet type) := by
  simp only [dispatchAsyncOperation, perform, Prog.perform_bind]
  refine ⟨trivial, fun r _ => Prog.calls_ite (fun _ => completeIfHandle_quiet _ _) fun _ => ?_⟩
  cases packet with
  | none => exact queueOperation_quiet _ _
  | some packet =>
    refine ⟨trivial, fun _ _ => ⟨trivial, fun _ _ => Prog.calls_ite (fun _ => ?_) fun _ => ?_⟩⟩
    · exact Prog.calls_bind (completeIfHandle_quiet _ _) fun _ => ⟨trivial, fun _ _ => trivial⟩
    · exact queueOperation_quiet _ _

theorem getInterfaceVersion_quiet (h : request.code.isSetup = false) :
    Quiet (getInterfaceVersion request) := by
  simp only [getInterfaceVersion, perform, Prog.perform_bind]
  exact ⟨trivial, fun s _ => Prog.calls_ite (fun _ => wdfRequestComplete_quiet h)
    fun _ => ⟨h, fun _ _ => trivial⟩⟩

theorem startDevice_quiet (h : request.code.isSetup = false) :
    Quiet (startDevice request) := by
  simp only [startDevice, perform, Prog.perform_bind]
  refine ⟨trivial, fun f _ => ?_⟩
  beta_reduce
  split
  · exact wdfRequestComplete_quiet h
  · exact ⟨trivial, fun _ _ => wdfRequestComplete_quiet h⟩

theorem getNextEvent_quiet (h : request.code.isSetup = false) :
    Quiet (getNextEvent request) := by
  simp only [getNextEvent, perform, Prog.perform_bind]
  refine ⟨trivial, fun f _ => Prog.calls_ite (fun _ => wdfRequestComplete_quiet h) fun _ => ?_⟩
  refine Prog.calls_bind (tryCompleteGetNextEvent_quiet h) fun b => Prog.calls_ite (fun _ => ?_)
    fun _ => trivial
  exact ⟨h, fun s _ => Prog.calls_ite (fun _ => wdfRequestComplete_quiet h) fun _ => trivial⟩

theorem completeWriteEvent_quiet (h : request.code.isSetup = false) :
    Quiet (completeWriteEvent request) := by
  simp only [completeWriteEvent, perform, Prog.perform_bind]
  refine ⟨trivial, fun f _ => Prog.calls_ite (fun _ => wdfRequestComplete_quiet h) fun _ =>
    ⟨trivial, fun s _ => Prog.calls_ite (fun _ => wdfRequestComplete_quiet h) fun _ =>
    ⟨trivial, fun op _ => ?_⟩⟩⟩
  cases op with
  | none => exact wdfRequestComplete_quiet h
  | some op =>
    exact ⟨trivial, fun _ _ => ⟨trivial, fun _ _ => wdfRequestComplete_quiet h⟩⟩

theorem fillReportBuffer_quiet (op : OperationContext) (readComplete : ReadEventComplete) :
    Quiet (fillReportBuffer op readComplete) := by
  simp only [fillReportBuffer, perform, Prog.perform_bind]
  exact ⟨trivial, fun _ _ => Prog.calls_ite (fun _ => ⟨trivial, fun _ _ => trivial⟩) fun _ => trivial⟩

end

end VirtualGun.Driver
