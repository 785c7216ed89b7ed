import VirtualGun.Driver.Parser
import VirtualGun.Program.Pool
import Mathlib.Data.List.Basic
import Mathlib.Tactic.Common

/-!
# What a handler's steps do

The driver's handlers are programs over `Call`. A call is one step of theirs: a call into WDF or
VHF, an access to the file context, or a whole section under `RequestLock`. Its outcome is what
WDF or VHF decide; `exec` says what the step then does.
-/

open VirtualGun.Program

namespace VirtualGun.Driver

/-! ## The world of one handle -/

/-- The calls the driver made to VHF, and its writes to VHF's report buffers. -/
inductive VhfCall where
  /-- `handleSet`: whether `VhfHandle` was set when the call was made. -/
  | create (config : VhfConfig) (handleSet : Bool) (status : NTSTATUS)
  | start (handle : VhfHandle) (status : NTSTATUS)
  | submit (handle : VhfHandle) (packet : HidXferPacket) (status : NTSTATUS)
  | copyMemory (op : OperationContext) (source : Ptr) (len : ℕ)
  | zeroMemory (op : OperationContext) (offset len : ℕ)
  /-- `VhfAsyncOperationComplete`, with the handle it was given: `none` is the empty handle. -/
  | complete (handle : Option VhfOperationHandle) (status : NTSTATUS)
  | delete (handle : VhfHandle)
  deriving DecidableEq, Repr

/-- A request the driver completed. -/
structure Completion where
  request : Request
  status : NTSTATUS
  information : ℕ
  output : List Byte
  deriving DecidableEq, Repr

structure World where
  file : FileContext
  /-- This handle's requests in `GetNextEventIoctlQueue`, oldest first. -/
  parked : List Request
  vhf : List VhfCall
  completed : List Completion
  /-- The requests that arrived. -/
  arrived : List ℕ
  /-- The operations VHF issued in its callbacks, each with its packet and its type. -/
  issued : List (VhfOperationHandle × HidXferPacket × EventType)
  /-- The operation objects WDF created. -/
  objects : List WdfObject
  deleted : List WdfObject
  /-- The operations added to `WaitingRequests`, in order. -/
  queued : List WdfObject
  /-- The operations moved to `OutstandingRequests`, in order, with the request that moved each. -/
  moved : List (WdfObject × ℕ)
  closing : Bool

/-- A handle that was just opened. -/
def World.opened : World where
  file := FileContext.created
  parked := []
  vhf := []
  completed := []
  arrived := []
  issued := []
  objects := []
  deleted := []
  queued := []
  moved := []
  closing := false

def VhfCall.createsDevice : VhfCall → Bool
  | .create _ _ status => ntSuccess status
  | _ => false

def VhfCall.isDelete : VhfCall → Bool
  | .delete _ => true
  | _ => false

/-- VHF calls back for a device from its creation to its deletion. -/
def World.deviceLive (w : World) : Bool :=
  w.vhf.any VhfCall.createsDevice && !w.vhf.any VhfCall.isDelete

/-! ## Sections under `RequestLock` -/

/-- What `DispatchAsyncOperation` finds under the lock. -/
inductive QueueResult where
  | tooLate
  | failed (status : NTSTATUS)
  | queued
  deriving DecidableEq, Repr

/-- `DispatchAsyncOperation`: queue the operation, unless the device is being closed. `add` is
what `WdfCollectionAdd` returned. -/
def queueSection (op : OperationContext) (add : NTSTATUS) (f : FileContext) :
    QueueResult × FileContext :=
  if f.vhfHandle.isNone then (.tooLate, f)
  else if !ntSuccess add then (.failed add, f)
  else (.queued, { f with waitingRequests := f.waitingRequests ++ [op] })

/-- What WDF decides in `TryCompleteGetNextEvent`, and the stack byte behind the event header. -/
structure TryOutcome where
  retrieve : NTSTATUS
  copyHeader : NTSTATUS
  copyData : NTSTATUS
  add : NTSTATUS
  stack : Byte
  deriving DecidableEq, Repr

def TryOutcome.fine : TryOutcome := ⟨Status.success, Status.success, Status.success, Status.success, 0⟩

structure TryResult where
  status : NTSTATUS
  completeRequest : Bool
  bytesTransferred : ℕ
  output : List Byte
  deriving DecidableEq, Repr

/-- `sizeof(WINUHID_EVENT)`, packed: the header and one byte of `Write.Data`. -/
def sizeofEvent : ℕ := 14

/-- `FIELD_OFFSET(WINUHID_EVENT, Write.Data)`. -/
def eventDataOffset : ℕ := 13

/-- The event header as it lies in memory. The last byte is never set. -/
def eventHeader (op : OperationContext) (stack : Byte) : List Byte :=
  u32Bytes op.type.value ++ u32Bytes op.requestId ++ [op.hidTransferPacket.reportId] ++
    u32Bytes op.hidTransferPacket.reportBufferLen ++ [stack]

/-- `WdfMemoryCopyFromBuffer`: fails by itself, or because the buffer is too small. -/
def memoryCopyFromBuffer (status : NTSTATUS) (buffer : List Byte) (offset : ℕ) (source : List Byte) :
    NTSTATUS × List Byte :=
  if !ntSuccess status then (status, buffer)
  else if offset + source.length ≤ buffer.length then
    (status, buffer.take offset ++ source ++ buffer.drop (offset + source.length))
  else (Status.bufferTooSmall, buffer)

/-- `TryCompleteGetNextEvent` under the lock: the first waiting operation goes to the client and
becomes outstanding, or nothing moves. -/
def tryCompleteSection (o : TryOutcome) (output : List Byte) (f : FileContext) :
    TryResult × FileContext :=
  match f.waitingRequests with
  | [] => (⟨Status.pending, false, 0, output⟩, f)
  | op :: rest =>
    if !ntSuccess o.retrieve then (⟨o.retrieve, true, 0, output⟩, f)
    else
      let header := memoryCopyFromBuffer o.copyHeader output 0 (eventHeader op o.stack)
      if !ntSuccess header.1 then (⟨header.1, true, 0, header.2⟩, f)
      else
        let data :=
          if op.type.isWrite then
            memoryCopyFromBuffer o.copyData header.2 eventDataOffset op.hidTransferPacket.report
          else (header.1, header.2)
        let bytesTransferred :=
          if op.type.isWrite then sizeofEvent + op.hidTransferPacket.reportBufferLen.toNat
          else sizeofEvent
        if !ntSuccess data.1 then (⟨data.1, true, sizeofEvent, data.2⟩, f)
        else if !ntSuccess o.add then (⟨o.add, true, bytesTransferred, data.2⟩, f)
        else
          (⟨o.add, true, bytesTransferred, data.2⟩,
            { f with
              waitingRequests := rest
              outstandingRequests := f.outstandingRequests ++ [op] })

/-- `TakeOutstandingRequestById`: the first outstanding operation with the ID leaves the
collection. -/
def takeOutstandingRequestById (id : UInt32) (f : FileContext) :
    Option OperationContext × FileContext :=
  (f.outstandingRequests.find? (·.requestId == id),
    { f with outstandingRequests := f.outstandingRequests.eraseP (·.requestId == id) })

/-- What the close takes out of its section. -/
structure RundownResult where
  vhfHandle : Option VhfHandle
  releaseButtons : Bool
  release : List Byte
  deriving DecidableEq, Repr

/-- The completion of an operation the close runs down. A pseudo-request has none. -/
def rundownCall (op : OperationContext) : Option VhfCall :=
  if op.requestId != 0 then some (.complete op.handle Status.cancelled) else none

/-- `WinUHidEvtDeviceFileClose` under the lock, and the VHF completions it makes there. -/
def rundownSection (f : FileContext) : RundownResult × List VhfCall × FileContext :=
  (⟨f.vhfHandle, f.lastReportValid && byteAt f.lastReport 0 != 0, f.lastReport.set 0 0⟩,
    f.waitingRequests.filterMap rundownCall ++ f.outstandingRequests.filterMap rundownCall,
    { f with vhfHandle := none, waitingRequests := [], outstandingRequests := [] })

/-! ## Calls -/

inductive Call where
  /-- A read of the file context without the lock. -/
  | readContext
  | modifyContext (f : FileContext → FileContext)
  | wdfRequestRetrieveInputBuffer (length minimum : ℕ)
  | wdfRequestRetrieveOutputBuffer (length minimum : ℕ)
  | wdfRequestComplete (request : Request) (status : NTSTATUS) (information : ℕ) (output : List Byte)
  | wdfMemoryCreate (length : ℕ)
  | wdfMemoryCopyFromBuffer
  | wdfObjectCreate
  | wdfObjectDelete (object : WdfObject)
  | interlockedIncrement
  | queueSection (op : OperationContext)
  | tryCompleteSection (request : Request)
  | takeOutstandingRequestById (id : UInt32)
  | storeLastReport (report : List Byte)
  | rundownSection
  | wdfIoQueueRetrieveRequestByFileObject
  | wdfRequestForwardToIoQueue (request : Request)
  | wdfRequestRequeue (request : Request)
  | vhfCreate
  | vhfStart (handle : VhfHandle)
  | vhfReadReportSubmit (handle : VhfHandle) (packet : HidXferPacket)
  | vhfAsyncOperationComplete (handle : Option VhfOperationHandle) (status : NTSTATUS)
  | vhfDelete (handle : VhfHandle)
  | rtlCopyMemory (op : OperationContext) (source : Ptr) (len : ℕ)
  | rtlZeroMemory (op : OperationContext) (offset len : ℕ)

abbrev Call.Resp : Call → Type
  | .readContext => FileContext
  | .wdfRequestRetrieveInputBuffer _ _ | .wdfRequestRetrieveOutputBuffer _ _ => NTSTATUS
  | .wdfMemoryCreate _ | .wdfMemoryCopyFromBuffer => NTSTATUS
  | .wdfObjectCreate => NTSTATUS × WdfObject
  | .interlockedIncrement => UInt32
  | .queueSection _ => QueueResult
  | .tryCompleteSection _ => TryResult
  | .takeOutstandingRequestById _ => Option OperationContext
  | .rundownSection => RundownResult
  | .wdfIoQueueRetrieveRequestByFileObject => Option Request
  | .wdfRequestForwardToIoQueue _ | .wdfRequestRequeue _ => NTSTATUS
  | .vhfCreate | .vhfStart _ | .vhfReadReportSubmit _ _ => NTSTATUS
  | .vhfAsyncOperationComplete _ _ => NTSTATUS
  | _ => Unit

/-- What WDF and VHF decide. -/
inductive Outcome where
  | ok
  | status (s : NTSTATUS)
  /-- A status, and the object or handle that a success gives out. -/
  | made (s : NTSTATUS) (handle : ℕ)
  | tried (o : TryOutcome)
  deriving DecidableEq, Repr

def World.call (w : World) (c : VhfCall) : World := { w with vhf := w.vhf ++ [c] }

/-- The operations a section added at the end of a collection. -/
def added (before after : List OperationContext) : List WdfObject :=
  (after.drop before.length).map (·.object)

def World.afterQueue (w : World) (file : FileContext) : World :=
  { w with
    file := file
    queued := w.queued ++ added w.file.waitingRequests file.waitingRequests }

def World.afterTry (w : World) (request : ℕ) (file : FileContext) : World :=
  { w with
    file := file
    moved := w.moved ++
      (added w.file.outstandingRequests file.outstandingRequests).map (·, request) }

/-- The operations the rundown completes are deleted with it. -/
def World.afterRundown (w : World) : World :=
  { w with
    file := (VirtualGun.Driver.rundownSection w.file).2.2
    vhf := w.vhf ++ (VirtualGun.Driver.rundownSection w.file).2.1
    deleted :=
      w.deleted ++ (w.file.waitingRequests ++ w.file.outstandingRequests).map (·.object) }

/-- After `VhfCreate`, called with the configuration of the file context. -/
def World.created (w : World) (status : NTSTATUS) (handle : VhfHandle) : World :=
  let w' := w.call (.create w.file.vhfConfig w.file.vhfHandle.isSome status)
  if ntSuccess status then { w' with file := { w'.file with vhfHandle := some handle } } else w'

def exec : Exec Call Call.Resp Outcome World
  | .readContext, .ok, w => some (w.file, w)
  | .modifyContext f, .ok, w => some ((), { w with file := f w.file })
  | .wdfRequestRetrieveInputBuffer length minimum, .status s, w =>
    if ntSuccess s ∧ length < minimum then none else some (s, w)
  | .wdfRequestRetrieveOutputBuffer length minimum, .status s, w =>
    if ntSuccess s ∧ length < minimum then none else some (s, w)
  | .wdfRequestComplete request status information output, .ok, w =>
    some ((), { w with completed := w.completed ++ [⟨request, status, information, output⟩] })
  | .wdfMemoryCreate _, .status s, w => some (s, w)
  | .wdfMemoryCopyFromBuffer, .status s, w => some (s, w)
  | .wdfObjectCreate, .made s object, w =>
    if ntSuccess s then
      if object ∈ w.objects then none
      else some ((s, object), { w with objects := w.objects ++ [object] })
    else some ((s, object), w)
  | .wdfObjectDelete object, .ok, w => some ((), { w with deleted := w.deleted ++ [object] })
  | .interlockedIncrement, .ok, w =>
    let id := w.file.nextRequestId + 1
    some (id, { w with file := { w.file with nextRequestId := id } })
  | .queueSection op, .status s, w =>
    let (r, file) := VirtualGun.Driver.queueSection op s w.file
    some (r, w.afterQueue file)
  | .tryCompleteSection request, .tried o, w =>
    let (r, file) := VirtualGun.Driver.tryCompleteSection o request.output w.file
    some (r, w.afterTry request.id file)
  | .takeOutstandingRequestById id, .ok, w =>
    let (r, file) := VirtualGun.Driver.takeOutstandingRequestById id w.file
    some (r, { w with file := file })
  | .storeLastReport report, .ok, w =>
    some ((), { w with file := { w.file with lastReport := report, lastReportValid := true } })
  | .rundownSection, .ok, w =>
    some ((VirtualGun.Driver.rundownSection w.file).1, w.afterRundown)
  | .wdfIoQueueRetrieveRequestByFileObject, .status s, w =>
    -- Anything but STATUS_SUCCESS gives no request, an empty queue among it.
    if s = Status.success then
      match w.parked with
      | [] => none
      | request :: rest => some (some request, { w with parked := rest })
    else some (none, w)
  | .wdfRequestForwardToIoQueue request, .status s, w =>
    some (s, if ntSuccess s then { w with parked := w.parked ++ [request] } else w)
  | .wdfRequestRequeue request, .status s, w =>
    -- A requeued request goes back to the head of the queue.
    some (s, if ntSuccess s then { w with parked := request :: w.parked } else w)
  | .vhfCreate, .made s handle, w =>
    some (s, w.created s handle)
  | .vhfStart handle, .status s, w => some (s, w.call (.start handle s))
  | .vhfReadReportSubmit handle packet, .status s, w => some (s, w.call (.submit handle packet s))
  | .vhfAsyncOperationComplete handle status, .status s, w => some (s, w.call (.complete handle status))
  | .vhfDelete handle, .ok, w => some ((), w.call (.delete handle))
  | .rtlCopyMemory op source len, .ok, w => some ((), w.call (.copyMemory op source len))
  | .rtlZeroMemory op offset len, .ok, w => some ((), w.call (.zeroMemory op offset len))
  | _, _, _ => none

/-! ## What each call does -/

section
variable {o : Outcome} {w w' : World} {s : NTSTATUS}

attribute [local simp] exec

theorem exec_readContext {r : Call.Resp .readContext} :
    exec .readContext o w = some (r, w') ↔ o = .ok ∧ w.file = r ∧ w = w' := by
  cases o <;> simp

theorem exec_modifyContext {f : FileContext → FileContext} {r : Call.Resp (.modifyContext f)} :
    exec (.modifyContext f) o w = some (r, w') ↔ o = .ok ∧ { w with file := f w.file } = w' := by
  cases o <;> simp

theorem exec_retrieveInput {length minimum : ℕ}
    {r : Call.Resp (.wdfRequestRetrieveInputBuffer length minimum)} :
    exec (.wdfRequestRetrieveInputBuffer length minimum) o w = some (r, w') ↔
      o = .status r ∧ (ntSuccess r → minimum ≤ length) ∧ w = w' := by
  cases o <;> simp
  grind

theorem exec_retrieveOutput {length minimum : ℕ}
    {r : Call.Resp (.wdfRequestRetrieveOutputBuffer length minimum)} :
    exec (.wdfRequestRetrieveOutputBuffer length minimum) o w = some (r, w') ↔
      o = .status r ∧ (ntSuccess r → minimum ≤ length) ∧ w = w' := by
  cases o <;> simp
  grind

theorem exec_complete {request : Request} {information : ℕ} {output : List Byte}
    {r : Call.Resp (.wdfRequestComplete request s information output)} :
    exec (.wdfRequestComplete request s information output) o w = some (r, w') ↔
      o = .ok ∧ { w with completed := w.completed ++ [⟨request, s, information, output⟩] } = w' := by
  cases o <;> simp

theorem exec_memoryCreate {length : ℕ} {r : Call.Resp (.wdfMemoryCreate length)} :
    exec (.wdfMemoryCreate length) o w = some (r, w') ↔ o = .status r ∧ w = w' := by
  cases o <;> simp

theorem exec_memoryCopy {r : Call.Resp .wdfMemoryCopyFromBuffer} :
    exec .wdfMemoryCopyFromBuffer o w = some (r, w') ↔ o = .status r ∧ w = w' := by
  cases o <;> simp

theorem exec_objectCreate {r : Call.Resp .wdfObjectCreate} :
    exec .wdfObjectCreate o w = some (r, w') ↔
      o = .made r.1 r.2 ∧ (ntSuccess r.1 → r.2 ∉ w.objects) ∧
        (if ntSuccess r.1 then { w with objects := w.objects ++ [r.2] } else w) = w' := by
  obtain ⟨s, object⟩ := r
  cases o <;> simp
  grind

theorem exec_objectDelete {object : WdfObject} {r : Call.Resp (.wdfObjectDelete object)} :
    exec (.wdfObjectDelete object) o w = some (r, w') ↔
      o = .ok ∧ { w with deleted := w.deleted ++ [object] } = w' := by
  cases o <;> simp

theorem exec_increment {r : Call.Resp .interlockedIncrement} :
    exec .interlockedIncrement o w = some (r, w') ↔
      o = .ok ∧ w.file.nextRequestId + 1 = r ∧
        { w with file := { w.file with nextRequestId := r } } = w' := by
  cases o <;> simp
  grind

theorem exec_queueSection {op : OperationContext} {r : Call.Resp (.queueSection op)} :
    exec (.queueSection op) o w = some (r, w') ↔
      ∃ add, o = .status add ∧ (VirtualGun.Driver.queueSection op add w.file).1 = r ∧
        w.afterQueue (VirtualGun.Driver.queueSection op add w.file).2 = w' := by
  cases o <;> simp

theorem exec_tryComplete {request : Request} {r : Call.Resp (.tryCompleteSection request)} :
    exec (.tryCompleteSection request) o w = some (r, w') ↔
      ∃ t, o = .tried t ∧ (VirtualGun.Driver.tryCompleteSection t request.output w.file).1 = r ∧
        w.afterTry request.id
          (VirtualGun.Driver.tryCompleteSection t request.output w.file).2 = w' := by
  cases o <;> simp

theorem exec_take {id : UInt32} {r : Call.Resp (.takeOutstandingRequestById id)} :
    exec (.takeOutstandingRequestById id) o w = some (r, w') ↔
      o = .ok ∧ (VirtualGun.Driver.takeOutstandingRequestById id w.file).1 = r ∧
        { w with file := (VirtualGun.Driver.takeOutstandingRequestById id w.file).2 } = w' := by
  cases o <;> simp

theorem exec_storeLastReport {report : List Byte} {r : Call.Resp (.storeLastReport report)} :
    exec (.storeLastReport report) o w = some (r, w') ↔
      o = .ok ∧
        { w with file := { w.file with lastReport := report, lastReportValid := true } } = w' := by
  cases o <;> simp

theorem exec_rundown {r : Call.Resp .rundownSection} :
    exec .rundownSection o w = some (r, w') ↔
      o = .ok ∧ (VirtualGun.Driver.rundownSection w.file).1 = r ∧ w.afterRundown = w' := by
  cases o <;> simp

theorem exec_retrieveRequest {r : Call.Resp .wdfIoQueueRetrieveRequestByFileObject} :
    exec .wdfIoQueueRetrieveRequestByFileObject o w = some (r, w') ↔
      (∃ s, o = .status s ∧ s ≠ Status.success ∧ r = none ∧ w = w') ∨
      (∃ request rest, o = .status Status.success ∧ w.parked = request :: rest ∧
        r = some request ∧ { w with parked := rest } = w') := by
  cases o with
  | status s =>
    simp only [exec]
    split
    · next h =>
      subst h
      cases w.parked with
      | nil => simp
      | cons request rest =>
        simp only [Option.some.injEq, Prod.mk.injEq]
        constructor
        · rintro ⟨rfl, rfl⟩
          exact .inr ⟨request, rest, trivial, rfl, rfl, rfl⟩
        · rintro (⟨s, hs, hne, -⟩ | ⟨_, _, -, ⟨⟩, rfl, rfl⟩)
          · cases hs
            exact absurd rfl hne
          · exact ⟨rfl, rfl⟩
    · next h => simp [h, eq_comm]
  | _ => simp

theorem exec_forward {request : Request} {r : Call.Resp (.wdfRequestForwardToIoQueue request)} :
    exec (.wdfRequestForwardToIoQueue request) o w = some (r, w') ↔
      o = .status r ∧ (if ntSuccess r then { w with parked := w.parked ++ [request] } else w) = w' := by
  cases o <;> simp
  grind

theorem exec_requeue {request : Request} {r : Call.Resp (.wdfRequestRequeue request)} :
    exec (.wdfRequestRequeue request) o w = some (r, w') ↔
      o = .status r ∧ (if ntSuccess r then { w with parked := request :: w.parked } else w) = w' := by
  cases o <;> simp
  grind

theorem exec_create {r : Call.Resp .vhfCreate} :
    exec .vhfCreate o w = some (r, w') ↔
      ∃ handle, o = .made r handle ∧ w.created r handle = w' := by
  cases o <;> simp
  grind

theorem exec_start {handle : VhfHandle} {r : Call.Resp (.vhfStart handle)} :
    exec (.vhfStart handle) o w = some (r, w') ↔ o = .status r ∧ w.call (.start handle r) = w' := by
  cases o <;> simp
  grind

theorem exec_submit {handle : VhfHandle} {packet : HidXferPacket}
    {r : Call.Resp (.vhfReadReportSubmit handle packet)} :
    exec (.vhfReadReportSubmit handle packet) o w = some (r, w') ↔
      o = .status r ∧ w.call (.submit handle packet r) = w' := by
  cases o <;> simp
  grind

theorem exec_asyncComplete {handle : Option VhfOperationHandle}
    {r : Call.Resp (.vhfAsyncOperationComplete handle s)} :
    exec (.vhfAsyncOperationComplete handle s) o w = some (r, w') ↔
      o = .status r ∧ w.call (.complete handle s) = w' := by
  cases o <;> simp

theorem exec_delete {handle : VhfHandle} {r : Call.Resp (.vhfDelete handle)} :
    exec (.vhfDelete handle) o w = some (r, w') ↔ o = .ok ∧ w.call (.delete handle) = w' := by
  cases o <;> simp

theorem exec_copyMemory {op : OperationContext} {source : Ptr} {len : ℕ}
    {r : Call.Resp (.rtlCopyMemory op source len)} :
    exec (.rtlCopyMemory op source len) o w = some (r, w') ↔
      o = .ok ∧ w.call (.copyMemory op source len) = w' := by
  cases o <;> simp

theorem exec_zeroMemory {op : OperationContext} {offset len : ℕ}
    {r : Call.Resp (.rtlZeroMemory op offset len)} :
    exec (.rtlZeroMemory op offset len) o w = some (r, w') ↔
      o = .ok ∧ w.call (.zeroMemory op offset len) = w' := by
  cases o <;> simp

end

/-! ## What each call leaves alone -/

namespace Call

def writesFile : Call → Bool
  | modifyContext _ | interlockedIncrement | queueSection _ | tryCompleteSection _ => true
  | takeOutstandingRequestById _ | storeLastReport _ | rundownSection | vhfCreate => true
  | _ => false

def writesVhf : Call → Bool
  | rundownSection | vhfCreate | vhfStart _ | vhfReadReportSubmit _ _ => true
  | vhfAsyncOperationComplete _ _ | vhfDelete _ | rtlCopyMemory .. | rtlZeroMemory .. => true
  | _ => false

def writesParked : Call → Bool
  | wdfIoQueueRetrieveRequestByFileObject => true
  | wdfRequestForwardToIoQueue _ | wdfRequestRequeue _ => true
  | _ => false

def writesCompleted : Call → Bool
  | wdfRequestComplete .. => true
  | _ => false

end Call

section
variable {c : Call} {o : Outcome} {r : c.Resp} {w w' : World}

theorem exec_file (he : exec c o w = some (r, w')) (hc : c.writesFile = false) :
    w'.file = w.file := by
  cases c <;> cases o <;> simp only [exec, Call.writesFile, reduceCtorEq] at he hc <;>
    grind [World.call]

theorem exec_vhf (he : exec c o w = some (r, w')) (hc : c.writesVhf = false) :
    w'.vhf = w.vhf := by
  cases c <;> cases o <;> simp only [exec, Call.writesVhf, reduceCtorEq] at he hc <;>
    grind [World.afterQueue, World.afterTry]

theorem exec_parked (he : exec c o w = some (r, w')) (hc : c.writesParked = false) :
    w'.parked = w.parked := by
  cases c <;> cases o <;> simp only [exec, Call.writesParked, reduceCtorEq] at he hc <;>
    grind [World.call, World.afterQueue, World.afterTry, World.afterRundown, World.created]

theorem exec_completed (he : exec c o w = some (r, w')) (hc : c.writesCompleted = false) :
    w'.completed = w.completed := by
  cases c <;> cases o <;> simp only [exec, Call.writesCompleted, reduceCtorEq] at he hc <;>
    grind [World.call, World.afterQueue, World.afterTry, World.afterRundown, World.created]

theorem exec_issued (he : exec c o w = some (r, w')) : w'.issued = w.issued := by
  cases c <;> cases o <;> simp only [exec, reduceCtorEq] at he <;>
    grind [World.call, World.afterQueue, World.afterTry, World.afterRundown, World.created]

end

abbrev Handler := Prog Call Call.Resp

abbrev perform (c : Call) : Handler c.Resp := Prog.perform c

/-! ## Rules for the calls of the setup IOCTLs -/

section
variable {I : World → Prop} {α : Type} {Q : α → World → Prop} {w : World}

theorem wp_readContext {k : FileContext → Handler α} :
    wp exec I Q (.call .readContext k) w ↔ I w ∧ wp exec I Q (k w.file) w := by
  refine and_congr_right fun _ => ⟨fun h => h .ok _ _ rfl, fun h o r w' he => ?_⟩
  obtain ⟨-, rfl, rfl⟩ := exec_readContext.mp he
  exact h

theorem wp_modifyContext {f : FileContext → FileContext} {k : Unit → Handler α} :
    wp exec I Q (.call (.modifyContext f) k) w ↔
      I w ∧ wp exec I Q (k ()) { w with file := f w.file } := by
  refine and_congr_right fun _ => ⟨fun h => h .ok _ _ rfl, fun h o r w' he => ?_⟩
  obtain ⟨-, rfl⟩ := exec_modifyContext.mp he
  exact h

theorem wp_complete {request : Request} {s : NTSTATUS} {information : ℕ} {output : List Byte}
    {k : Unit → Handler α} :
    wp exec I Q (.call (.wdfRequestComplete request s information output) k) w ↔
      I w ∧ wp exec I Q (k ())
        { w with completed := w.completed ++ [⟨request, s, information, output⟩] } := by
  refine and_congr_right fun _ => ⟨fun h => h .ok _ _ rfl, fun h o r w' he => ?_⟩
  obtain ⟨-, rfl⟩ := exec_complete.mp he
  exact h

theorem wp_retrieveInput {length minimum : ℕ} {k : NTSTATUS → Handler α} (hw : I w)
    (hk : ∀ s, (ntSuccess s → minimum ≤ length) → wp exec I Q (k s) w) :
    wp exec I Q (.call (.wdfRequestRetrieveInputBuffer length minimum) k) w := by
  refine ⟨hw, fun o r w' he => ?_⟩
  obtain ⟨-, hs, rfl⟩ := exec_retrieveInput.mp he
  exact hk r hs

theorem wp_memoryCreate {length : ℕ} {k : NTSTATUS → Handler α} (hw : I w)
    (hk : ∀ s, wp exec I Q (k s) w) : wp exec I Q (.call (.wdfMemoryCreate length) k) w := by
  refine ⟨hw, fun o r w' he => ?_⟩
  obtain ⟨-, rfl⟩ := exec_memoryCreate.mp he
  exact hk r

theorem wp_memoryCopy {k : NTSTATUS → Handler α} (hw : I w) (hk : ∀ s, wp exec I Q (k s) w) :
    wp exec I Q (.call .wdfMemoryCopyFromBuffer k) w := by
  refine ⟨hw, fun o r w' he => ?_⟩
  obtain ⟨-, rfl⟩ := exec_memoryCopy.mp he
  exact hk r

end

end VirtualGun.Driver
