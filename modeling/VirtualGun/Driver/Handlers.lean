import VirtualGun.Driver.Calls

/-!
# The driver's handlers

`driver/WinUHid.c`: the VHF callbacks, the IOCTLs, `WriteFile` and the close of a handle.
`TraceEvents` and `WDFVERIFY` are left out: they change nothing.
-/

open VirtualGun.Program

namespace VirtualGun.Driver

/-! ## Events for the client -/

def wdfRequestComplete (request : Request) (status : NTSTATUS) : Handler Unit :=
  perform (.wdfRequestComplete request status 0 request.output)

/-- True: the request is completed. False: it is left to the caller, to be queued. -/
def tryCompleteGetNextEvent (request : Request) : Handler Bool := do
  let r ← perform (.tryCompleteSection request)
  if r.completeRequest then
    perform (.wdfRequestComplete request r.status
      (if ntSuccess r.status then r.bytesTransferred else 0) r.output)
  return r.completeRequest

/-- `if (VhfOperationHandle) VhfAsyncOperationComplete(..)`. -/
def completeIfHandle (handle : Option VhfOperationHandle) (status : NTSTATUS) : Handler Unit := do
  if handle.isSome then
    let _ ← perform (.vhfAsyncOperationComplete handle status)

/-- Services one `GET_NEXT_EVENT` that waits in the queue. -/
def serviceWaitingRequest : Handler Unit := do
  match ← perform .wdfIoQueueRetrieveRequestByFileObject with
  | none => return ()
  | some request =>
    if !(← tryCompleteGetNextEvent request) then
      -- Another GET_NEXT_EVENT took the operation first: the request waits for the next one.
      let status ← perform (.wdfRequestRequeue request)
      if !ntSuccess status then
        wdfRequestComplete request status

/-- The second half of `DispatchAsyncOperation`, from the lock on. -/
def queueOperation (op : OperationContext) (vhfOperationHandle : Option VhfOperationHandle) :
    Handler Unit := do
  match ← perform (.queueSection op) with
  | .tooLate =>
    completeIfHandle vhfOperationHandle Status.tooLate
    perform (.wdfObjectDelete op.object)
  | .failed status =>
    completeIfHandle vhfOperationHandle status
    perform (.wdfObjectDelete op.object)
  | .queued => serviceWaitingRequest

/-- The size the descriptor gives a report of this event's kind. -/
def reportSizeOf (entry : HidReportSize) : EventType → UInt32
  | .setFeature | .getFeature => entry.featureReportSize
  | .writeReport => entry.outputReportSize
  | .readReport => entry.inputReportSize

/-- VHF can report a length above the report's size: the length is clamped to it. -/
def clampPacket (packet : HidXferPacket) (reportSize : UInt32) : HidXferPacket :=
  if reportSize < packet.reportBufferLen then { packet with reportBufferLen := reportSize }
  else packet

/-- The most significant bit keeps real IDs apart from the pseudo-request's. -/
def realRequestId (counter : UInt32) : UInt32 := counter ||| 0x80000000

def dispatchAsyncOperation (vhfOperationHandle : Option VhfOperationHandle)
    (hidTransferPacket : Option HidXferPacket) (eventType : EventType) : Handler Unit := do
  let (status, asyncOp) ← perform .wdfObjectCreate
  if !ntSuccess status then
    completeIfHandle vhfOperationHandle Status.unsuccessful
  else
    match hidTransferPacket with
    | none =>
      -- A ready-for-read pseudo-request, with a fixed ID.
      queueOperation ⟨asyncOp, eventType, 0, none, HidXferPacket.zero⟩ vhfOperationHandle
    | some packet =>
      let counter ← perform .interlockedIncrement
      let fileContext ← perform .readContext
      let reportSize := reportSizeOf (fileContext.reportSizes packet.reportId) eventType
      if reportSize = 0 then
        completeIfHandle vhfOperationHandle Status.unsuccessful
        perform (.wdfObjectDelete asyncOp)
      else
        queueOperation
          ⟨asyncOp, eventType, realRequestId counter, vhfOperationHandle,
            clampPacket packet reportSize⟩
          vhfOperationHandle

def winUHidEvtVhfReadyForNextReadReport : Handler Unit :=
  dispatchAsyncOperation none none .readReport

/-! ## Setup IOCTLs -/

def getInterfaceVersion (request : Request) : Handler Unit := do
  let status ← perform (.wdfRequestRetrieveOutputBuffer request.output.length 4)
  if !ntSuccess status then
    wdfRequestComplete request status
  else
    perform (.wdfRequestComplete request Status.success 4 (u32Bytes 1 ++ request.output.drop 4))

def supportedEventsMask : UInt32 :=
  EventType.getFeature.value ||| EventType.setFeature.value ||| EventType.writeReport.value |||
    EventType.readReport.value

def wants (info : DeviceInfo) (event : EventType) : Bool := info.supportedEvents &&& event.value != 0

/-- What an accepted `SET_DEVICE_INFO` stores. -/
def storeDeviceInfo (info : DeviceInfo) (f : FileContext) : FileContext :=
  let c := f.vhfConfig
  { f with
    vhfConfig := { c with
      vhfClientContext := true
      vendorID := info.vendorID
      productID := info.productID
      versionNumber := info.versionNumber
      containerID := info.containerId
      evtVhfAsyncOperationGetFeature := c.evtVhfAsyncOperationGetFeature || wants info .getFeature
      evtVhfAsyncOperationSetFeature := c.evtVhfAsyncOperationSetFeature || wants info .setFeature
      evtVhfAsyncOperationWriteReport :=
        c.evtVhfAsyncOperationWriteReport || wants info .writeReport
      evtVhfReadyForNextReadReport := c.evtVhfReadyForNextReadReport || wants info .readReport
      evtVhfAsyncOperationGetInputReport :=
        c.evtVhfAsyncOperationGetInputReport || wants info .readReport }
    deviceInfoSet := true }

def setDeviceInfo (request : Request) : Handler Unit := do
  let fileContext ← perform .readContext
  if fileContext.deviceInfoSet || fileContext.vhfHandle.isSome then
    wdfRequestComplete request Status.invalidDeviceState
  else
    let status ← perform (.wdfRequestRetrieveInputBuffer request.input.length sizeofDeviceInfo)
    if !ntSuccess status then
      wdfRequestComplete request status
    else
      let info := DeviceInfo.decode request.input
      if info.supportedEvents &&& ~~~supportedEventsMask != 0 then
        wdfRequestComplete request Status.notSupported
      else if info.vendorID != vgunVid || info.productID != vgunPid then
        wdfRequestComplete request Status.accessDenied
      else
        perform (.modifyContext (storeDeviceInfo info))
        wdfRequestComplete request Status.success

/-- Copies the input into a memory object of the file context. After a failure the context holds
no object. -/
def copyIntoMemory (setMem : Option (List Byte) → FileContext → FileContext) (input : List Byte) :
    Handler NTSTATUS := do
  let status ← perform (.wdfMemoryCreate input.length)
  if !ntSuccess status then
    return status
  else
    perform (.modifyContext (setMem (some (List.replicate input.length 0))))
    let status ← perform .wdfMemoryCopyFromBuffer
    perform (.modifyContext (setMem (if ntSuccess status then some input else none)))
    return status

def setReportDescriptorMem (mem : Option (List Byte)) (f : FileContext) : FileContext :=
  { f with reportDescriptorMem := mem }

def setInstanceIdMem (mem : Option (List Byte)) (f : FileContext) : FileContext :=
  { f with instanceIdMem := mem }

def setHardwareIdsMem (mem : Option (List Byte)) (f : FileContext) : FileContext :=
  { f with hardwareIdsMem := mem }

/-- The pointer and the length of the report descriptor, and what parsing it leaves. A parse that
failed takes the pointer, the length and the memory back. -/
def storeReportDescriptor (input : List Byte) (f : FileContext) : FileContext :=
  let r := parseReportDescriptor input input.length.toUInt16
  let f := { f with numberedReports := r.numberedReports, reportSizes := r.reportSizes }
  if ntSuccess r.status then
    { f with vhfConfig := { f.vhfConfig with
      reportDescriptor := some input
      reportDescriptorLength := input.length.toUInt16 } }
  else
    { f with
      vhfConfig := { f.vhfConfig with reportDescriptor := none, reportDescriptorLength := 0 }
      reportDescriptorMem := none }

def setReportDescriptor (request : Request) : Handler Unit := do
  let fileContext ← perform .readContext
  if fileContext.vhfConfig.reportDescriptor.isSome || fileContext.vhfHandle.isSome then
    wdfRequestComplete request Status.invalidDeviceState
  else
    let status ← perform (.wdfRequestRetrieveInputBuffer request.input.length 1)
    if !ntSuccess status then
      wdfRequestComplete request status
    else if request.input.length != vgunReportDescriptorBytes || request.input != vgunReportDescriptor then
      wdfRequestComplete request Status.accessDenied
    else if request.input.length > 0xFFFF then
      wdfRequestComplete request Status.invalidParameter
    else
      let status ← copyIntoMemory setReportDescriptorMem request.input
      if !ntSuccess status then
        wdfRequestComplete request status
      else
        perform (.modifyContext (storeReportDescriptor request.input))
        wdfRequestComplete request
          (parseReportDescriptor request.input request.input.length.toUInt16).status

/-- The two ID strings differ in where they live, in their shortest length and in a check of the
characters. -/
structure IdString where
  isSet : FileContext → Bool
  minimum : ℕ
  wellFormed : List Byte → Bool
  setMem : Option (List Byte) → FileContext → FileContext
  store : List Byte → FileContext → FileContext

def setIdString (s : IdString) (request : Request) : Handler Unit := do
  let fileContext ← perform .readContext
  if s.isSet fileContext || fileContext.vhfHandle.isSome then
    wdfRequestComplete request Status.invalidDeviceState
  else
    let status ← perform (.wdfRequestRetrieveInputBuffer request.input.length s.minimum)
    if !ntSuccess status then
      wdfRequestComplete request status
    else if request.input.length > 0xFFFF then
      wdfRequestComplete request Status.invalidParameter
    else if request.input.length % 2 != 0 then
      wdfRequestComplete request Status.invalidParameter
    else if !s.wellFormed request.input then
      wdfRequestComplete request Status.invalidParameter
    else
      let status ← copyIntoMemory s.setMem request.input
      if !ntSuccess status then
        wdfRequestComplete request status
      else
        perform (.modifyContext (s.store request.input))
        wdfRequestComplete request status

def instanceIdString : IdString where
  isSet f := f.vhfConfig.instanceID.isSome
  minimum := 2
  wellFormed _ := true
  setMem := setInstanceIdMem
  store input f :=
    { f with vhfConfig := { f.vhfConfig with
      instanceID := some input
      instanceIDLength := input.length.toUInt16 } }

def setInstanceId : Request → Handler Unit := setIdString instanceIdString

/-- The last two characters are null. -/
def endsWithTwoNulls (input : List Byte) : Bool :=
  u16At input (2 * (input.length / 2 - 1)) == 0 && u16At input (2 * (input.length / 2 - 2)) == 0

def hardwareIdsString : IdString where
  isSet f := f.vhfConfig.hardwareIDs.isSome
  minimum := 4
  wellFormed := endsWithTwoNulls
  setMem := setHardwareIdsMem
  store input f :=
    { f with vhfConfig := { f.vhfConfig with
      hardwareIDs := some input
      hardwareIDsLength := input.length.toUInt16 } }

def setHardwareIds : Request → Handler Unit := setIdString hardwareIdsString

def createDevice (request : Request) : Handler Unit := do
  let fileContext ← perform .readContext
  if fileContext.vhfHandle.isSome || fileContext.vhfConfig.reportDescriptorLength = 0 ||
      !fileContext.deviceInfoSet then
    wdfRequestComplete request Status.invalidDeviceState
  else
    let status ← perform .vhfCreate
    wdfRequestComplete request status

def startDevice (request : Request) : Handler Unit := do
  let fileContext ← perform .readContext
  match fileContext.vhfHandle with
  | none => wdfRequestComplete request Status.invalidDeviceState
  | some handle =>
    let status ← perform (.vhfStart handle)
    wdfRequestComplete request status

/-! ## Event IOCTLs -/

def getNextEvent (request : Request) : Handler Unit := do
  let fileContext ← perform .readContext
  if fileContext.vhfHandle.isNone then
    wdfRequestComplete request Status.invalidDeviceState
  else if !(← tryCompleteGetNextEvent request) then
    -- Nothing is waiting: the request is queued, to be completed later.
    let status ← perform (.wdfRequestForwardToIoQueue request)
    if !ntSuccess status then
      wdfRequestComplete request status

def completeWriteEvent (request : Request) : Handler Unit := do
  let fileContext ← perform .readContext
  if fileContext.vhfHandle.isNone then
    wdfRequestComplete request Status.invalidDeviceState
  else
    let status ← perform
      (.wdfRequestRetrieveInputBuffer request.input.length sizeofWriteEventComplete)
    if !ntSuccess status then
      wdfRequestComplete request status
    else
      let writeComplete := WriteEventComplete.decode request.input
      match ← perform (.takeOutstandingRequestById writeComplete.requestId) with
      | none => wdfRequestComplete request Status.notFound
      | some op =>
        let status ← perform (.vhfAsyncOperationComplete op.handle writeComplete.status)
        perform (.wdfObjectDelete op.object)
        wdfRequestComplete request status

/-- A ready-for-read pseudo-request is answered: with a report, a failure, or nothing yet. -/
def answerReadyForRead (readComplete : ReadEventComplete) : Handler NTSTATUS := do
  if ntSuccess readComplete.status && readComplete.dataLength != 0 then
    let fileContext ← perform .readContext
    let reportId := if fileContext.numberedReports then byteAt readComplete.data.mem readComplete.data.offset else 0
    perform (.vhfReadReportSubmit (fileContext.vhfHandle.getD 0)
      ⟨readComplete.data, readComplete.dataLength, reportId⟩)
  else if !ntSuccess readComplete.status then
    -- A synthetic callback queues another event.
    winUHidEvtVhfReadyForNextReadReport
    return Status.success
  else
    return Status.success

/-- The client's data goes into the operation's report buffer, padded with zeros. -/
def fillReportBuffer (op : OperationContext) (readComplete : ReadEventComplete) : Handler Unit := do
  let reportBufferLen := op.hidTransferPacket.reportBufferLen
  perform (.rtlCopyMemory op readComplete.data (min readComplete.dataLength reportBufferLen).toNat)
  if readComplete.dataLength < reportBufferLen then
    perform (.rtlZeroMemory op readComplete.dataLength.toNat
      (reportBufferLen - readComplete.dataLength).toNat)

def completeReadEvent (request : Request) : Handler Unit := do
  let fileContext ← perform .readContext
  if fileContext.vhfHandle.isNone then
    wdfRequestComplete request Status.invalidDeviceState
  else
    let status ← perform
      (.wdfRequestRetrieveInputBuffer request.input.length sizeofReadEventComplete)
    let readComplete := ReadEventComplete.decode request.input
    if !ntSuccess status then
      wdfRequestComplete request status
    else if request.input.length < (readEventCompleteDataOffset + readComplete.dataLength).toNat then
      -- A LONG plus a ULONG is a ULONG: the sum is taken modulo 2^32.
      wdfRequestComplete request Status.bufferTooSmall
    else
      match ← perform (.takeOutstandingRequestById readComplete.requestId) with
      | none => wdfRequestComplete request Status.notFound
      | some op =>
        if readComplete.requestId = 0 then
          let status ← answerReadyForRead readComplete
          perform (.wdfObjectDelete op.object)
          wdfRequestComplete request status
        else
          if ntSuccess readComplete.status then
            fillReportBuffer op readComplete
          let status ← perform (.vhfAsyncOperationComplete op.handle readComplete.status)
          perform (.wdfObjectDelete op.object)
          wdfRequestComplete request status

def winUHidEvtIoDeviceControl (request : Request) : Handler Unit :=
  match request.code with
  | .getInterfaceVersion => getInterfaceVersion request
  | .setDeviceInfo => setDeviceInfo request
  | .setReportDescriptor => setReportDescriptor request
  | .setInstanceId => setInstanceId request
  | .setHardwareIds => setHardwareIds request
  | .createDevice => createDevice request
  | .startDevice => startDevice request
  | .getNextEvent => getNextEvent request
  | .completeWriteEvent => completeWriteEvent request
  | .completeReadEvent => completeReadEvent request
  | .other | .write => wdfRequestComplete request Status.invalidDeviceRequest

/-! ## Writing and closing -/

/-- The request of a `WriteFile` carries the report as its input. -/
def winUHidEvtIoWrite (request : Request) : Handler Unit := do
  let fileContext ← perform .readContext
  match fileContext.vhfHandle with
  | none => wdfRequestComplete request Status.invalidDeviceState
  | some _ =>
    let status ← perform (.wdfRequestRetrieveInputBuffer request.input.length 1)
    if !ntSuccess status then
      wdfRequestComplete request status
    else if request.input.length > 0xFFFFFFFF then
      wdfRequestComplete request Status.invalidParameter
    else
      let fileContext ← perform .readContext
      let reportId := if fileContext.numberedReports then byteAt request.input 0 else 0
      let status ← perform (.vhfReadReportSubmit (fileContext.vhfHandle.getD 0)
        ⟨⟨request.input, 0⟩, request.input.length.toUInt32, reportId⟩)
      if !ntSuccess status then
        wdfRequestComplete request status
      else
        if request.input.length = vgunReportBytes then
          perform (.storeLastReport request.input)
        perform (.wdfRequestComplete request status request.input.length request.output)

def winUHidEvtDeviceFileClose : Handler Unit := do
  let r ← perform .rundownSection
  match r.vhfHandle with
  | none => return ()
  | some handle =>
    if r.releaseButtons then
      let _ ← perform (.vhfReadReportSubmit handle
        ⟨⟨r.release, 0⟩, vgunReportBytes.toUInt32, 0⟩)
    perform (.vhfDelete handle)

/-! ## The system of one handle -/

inductive Event where
  | ioctl (request : Request)
  | write (request : Request)
  /-- An asynchronous operation callback of VHF. -/
  | asyncOperation (handle : VhfOperationHandle) (packet : HidXferPacket) (type : EventType)
  | readyForNextReadReport
  | close
  deriving DecidableEq, Repr

def World.accept (w : World) (request : Request) : Option World :=
  if w.closing || request.id ∈ w.arrived then none
  else some { w with arrived := w.arrived ++ [request.id] }

/-- The framework sends no request once it closes the handle, and closes it once. VHF calls back
while the device lives, each operation under a handle of its own. -/
def arrive : Event → World → Option World
  | .ioctl request, w => if request.code == .write then none else w.accept request
  | .write request, w => if request.code == .write then w.accept request else none
  | .asyncOperation handle packet type, w =>
    if w.deviceLive && handle ∉ w.issued.map (·.1) then
      some { w with issued := w.issued ++ [(handle, packet, type)] }
    else none
  | .readyForNextReadReport, w => if w.deviceLive then some w else none
  | .close, w => if w.closing then none else some { w with closing := true }

def handler : Event → Handler Unit
  | .ioctl request => winUHidEvtIoDeviceControl request
  | .write request => winUHidEvtIoWrite request
  | .asyncOperation handle packet type => dispatchAsyncOperation (some handle) (some packet) type
  | .readyForNextReadReport => winUHidEvtVhfReadyForNextReadReport
  | .close => winUHidEvtDeviceFileClose

def driver : System Event Call Call.Resp Outcome World Unit := ⟨exec, arrive, handler⟩

theorem arrive_file {l : Event} {w w' : World} (ha : driver.arrive l w = some w') :
    w'.file = w.file ∧ w'.vhf = w.vhf := by
  cases l <;> simp only [driver, arrive, World.accept, Option.ite_none_left_eq_some,
    Option.ite_none_right_eq_some, Option.some.injEq] at ha <;> grind

/-! ## A client that makes the lightgun -/

/-- The `WINUHID_DEVICE_INFO` of a lightgun that handles read events. -/
def gunInfo : List Byte :=
  u32Bytes 32 ++ u32Bytes 8 ++ [0x09, 0x12, 0x47, 0x56] ++ List.replicate 20 0

abbrev fine : Outcome := .status Status.success

/-- A client creates and starts the lightgun. -/
def createGun : List (Event × List Outcome) :=
  [(.ioctl ⟨1, .setDeviceInfo, gunInfo, []⟩, [.ok, fine, .ok, .ok]),
    (.ioctl ⟨2, .setReportDescriptor, vgunReportDescriptor, []⟩,
      [.ok, fine, fine, .ok, fine, .ok, .ok, .ok]),
    (.ioctl ⟨3, .createDevice, [], []⟩, [.ok, .made Status.success 1, .ok]),
    (.ioctl ⟨4, .startDevice, [], []⟩, [.ok, fine, .ok])]

end VirtualGun.Driver
