import VirtualGun.Gun

/-!
# The driver's data

`driver/Driver.h`, the records of `driver/Public.h` and `WinUHid.h`, and the VHF structures they
hold. A pointer to memory is that memory with an offset into it.
-/

namespace VirtualGun.Driver

/-! ## Status codes -/

abbrev NTSTATUS := UInt32

/-- `NT_SUCCESS`: the status is not negative. -/
def ntSuccess (status : NTSTATUS) : Bool := status < 0x80000000

namespace Status

abbrev success : NTSTATUS := 0x00000000
abbrev pending : NTSTATUS := 0x00000103
abbrev unsuccessful : NTSTATUS := 0xC0000001
abbrev notImplemented : NTSTATUS := 0xC0000002
abbrev accessViolation : NTSTATUS := 0xC0000005
abbrev invalidParameter : NTSTATUS := 0xC000000D
abbrev invalidDeviceRequest : NTSTATUS := 0xC0000010
abbrev accessDenied : NTSTATUS := 0xC0000022
abbrev bufferTooSmall : NTSTATUS := 0xC0000023
abbrev integerOverflow : NTSTATUS := 0xC0000095
abbrev insufficientResources : NTSTATUS := 0xC000009A
abbrev notSupported : NTSTATUS := 0xC00000BB
abbrev cancelled : NTSTATUS := 0xC0000120
abbrev invalidDeviceState : NTSTATUS := 0xC0000184
abbrev tooLate : NTSTATUS := 0xC0000189
abbrev notFound : NTSTATUS := 0xC0000225

end Status

/-! ## Events -/

inductive EventType where
  | getFeature | setFeature | writeReport | readReport
  deriving DecidableEq, Repr

namespace EventType

/-- The value of the enumerator, also its bit in `SupportedEvents`. -/
def value : EventType → UInt32
  | getFeature => 0x1
  | setFeature => 0x2
  | writeReport => 0x4
  | readReport => 0x8

def isRead : EventType → Bool
  | getFeature | readReport => true
  | _ => false

def isWrite : EventType → Bool
  | setFeature | writeReport => true
  | _ => false

end EventType

structure Ptr where
  mem : List Byte
  offset : ℕ
  deriving DecidableEq, Repr

/-- The `len` bytes from the pointer on lie in the memory it points into. -/
def Ptr.covers (p : Ptr) (len : ℕ) : Prop := p.offset + len ≤ p.mem.length

/-- The `len` bytes from the pointer on. A byte outside the memory reads as 0 here. -/
def Ptr.bytes (p : Ptr) (len : ℕ) : List Byte :=
  (List.range len).map fun i => byteAt p.mem (p.offset + i)

structure HidXferPacket where
  reportBuffer : Ptr
  reportBufferLen : UInt32
  reportId : UInt8
  deriving DecidableEq, Repr

namespace HidXferPacket

/-- What a context that the framework zeroed holds. -/
def zero : HidXferPacket := ⟨⟨[], 0⟩, 0, 0⟩

def report (p : HidXferPacket) : List Byte := p.reportBuffer.bytes p.reportBufferLen.toNat

end HidXferPacket

/-! ## Contexts -/

/-- A handle VHF gives out for an asynchronous operation. -/
abbrev VhfOperationHandle := ℕ

abbrev VhfHandle := ℕ

abbrev WdfObject := ℕ

structure VhfConfig where
  vhfClientContext : Bool
  vendorID : UInt16
  productID : UInt16
  versionNumber : UInt16
  containerID : List Byte
  evtVhfAsyncOperationGetFeature : Bool
  evtVhfAsyncOperationSetFeature : Bool
  evtVhfAsyncOperationWriteReport : Bool
  evtVhfAsyncOperationGetInputReport : Bool
  evtVhfReadyForNextReadReport : Bool
  reportDescriptor : Option (List Byte)
  reportDescriptorLength : UInt16
  instanceID : Option (List Byte)
  instanceIDLength : UInt16
  hardwareIDs : Option (List Byte)
  hardwareIDsLength : UInt16
  deriving DecidableEq, Repr

/-- `VHF_CONFIG_INIT` with no report descriptor. -/
def VhfConfig.init : VhfConfig where
  vhfClientContext := false
  vendorID := 0
  productID := 0
  versionNumber := 0
  containerID := List.replicate 16 0
  evtVhfAsyncOperationGetFeature := false
  evtVhfAsyncOperationSetFeature := false
  evtVhfAsyncOperationWriteReport := false
  evtVhfAsyncOperationGetInputReport := false
  evtVhfReadyForNextReadReport := false
  reportDescriptor := none
  reportDescriptorLength := 0
  instanceID := none
  instanceIDLength := 0
  hardwareIDs := none
  hardwareIDsLength := 0

structure HidReportSize where
  inputReportSize : UInt32
  outputReportSize : UInt32
  featureReportSize : UInt32
  deriving DecidableEq, Repr

def HidReportSize.zero : HidReportSize := ⟨0, 0, 0⟩

structure OperationContext where
  /-- The WDF object that carries this context. -/
  object : WdfObject
  type : EventType
  requestId : UInt32
  handle : Option VhfOperationHandle
  hidTransferPacket : HidXferPacket
  deriving DecidableEq, Repr

structure FileContext where
  deviceInfoSet : Bool
  vhfConfig : VhfConfig
  instanceIdMem : Option (List Byte)
  reportDescriptorMem : Option (List Byte)
  hardwareIdsMem : Option (List Byte)
  reportSizes : UInt8 → HidReportSize
  numberedReports : Bool
  lastReport : List Byte
  lastReportValid : Bool
  nextRequestId : UInt32
  vhfHandle : Option VhfHandle
  /-- Not yet consumed by `GET_NEXT_EVENT`. -/
  waitingRequests : List OperationContext
  /-- Returned by `GET_NEXT_EVENT` and not yet completed by a `COMPLETE_*_EVENT`. -/
  outstandingRequests : List OperationContext

/-- What `WinUHidEvtDeviceFileCreate` leaves when it succeeds. -/
def FileContext.created : FileContext where
  deviceInfoSet := false
  vhfConfig := VhfConfig.init
  instanceIdMem := none
  reportDescriptorMem := none
  hardwareIdsMem := none
  reportSizes := fun _ => HidReportSize.zero
  numberedReports := false
  lastReport := List.replicate vgunReportBytes 0
  lastReportValid := false
  nextRequestId := 0
  vhfHandle := none
  waitingRequests := []
  outstandingRequests := []

/-! ## Requests -/

/-- What a request asks for: an IOCTL, or `WriteFile`. -/
inductive RequestCode where
  | setDeviceInfo | setReportDescriptor | setInstanceId | setHardwareIds | createDevice
  | startDevice | getNextEvent | completeWriteEvent | completeReadEvent | getInterfaceVersion
  | other | write
  deriving DecidableEq, Repr

structure Request where
  id : ℕ
  code : RequestCode
  input : List Byte
  output : List Byte
  deriving DecidableEq, Repr

/-- `WINUHID_DEVICE_INFO`, 32 bytes with the padding before the GUID. -/
structure DeviceInfo where
  supportedEvents : UInt32
  vendorID : UInt16
  productID : UInt16
  versionNumber : UInt16
  containerId : List Byte

def sizeofDeviceInfo : ℕ := 32

def DeviceInfo.decode (input : List Byte) : DeviceInfo where
  supportedEvents := u32At input 4
  vendorID := u16At input 8
  productID := u16At input 10
  versionNumber := u16At input 12
  containerId := (input.drop 16).take 16

/-- `WINUHID_WRITE_EVENT_COMPLETE`, packed. -/
structure WriteEventComplete where
  requestId : UInt32
  status : NTSTATUS

def sizeofWriteEventComplete : ℕ := 8

def WriteEventComplete.decode (input : List Byte) : WriteEventComplete :=
  ⟨u32At input 0, u32At input 4⟩

/-- `WINUHID_READ_EVENT_COMPLETE`, packed, with its one-element trailing array. -/
structure ReadEventComplete where
  requestId : UInt32
  status : NTSTATUS
  dataLength : UInt32
  data : Ptr

def sizeofReadEventComplete : ℕ := 13

/-- `FIELD_OFFSET(WINUHID_READ_EVENT_COMPLETE, Data)`, a `LONG`. -/
def readEventCompleteDataOffset : UInt32 := 12

def ReadEventComplete.decode (input : List Byte) : ReadEventComplete :=
  ⟨u32At input 0, u32At input 4, u32At input 8, ⟨input, readEventCompleteDataOffset.toNat⟩⟩

end VirtualGun.Driver
