import VirtualGun.Library.ReadEvent
import VirtualGun.Setup.Strings

/-!
# The client library

`third_party/winuhid/WinUHid.cpp`: the functions that make, start, feed, poll, stop and destroy one
device, as programs over what they call of Windows. `SetThreadPriority` and `SetThreadDescription` are
left out: they change nothing here.
-/

open VirtualGun.Program VirtualGun.Setup
open VirtualGun.Driver (NTSTATUS RequestCode EventType)
open VirtualGun.Library (ReadEvent)

namespace VirtualGun.WinUHid

/-! ## Data -/

abbrev Handle := ℕ

abbrev Block := ℕ

namespace Error

abbrev outOfMemory : UInt32 := 14
abbrev notReady : UInt32 := 21
abbrev badCommand : UInt32 := 22
abbrev invalidParameter : UInt32 := 87
abbrev timeout : UInt32 := 1460

end Error

/-- `INFINITE`, in milliseconds. -/
def infinite : UInt32 := 0xFFFFFFFF

abbrev Guid := { bytes : List Byte // bytes.length = 16 }

/-- `WINUHID_DEVICE_CONFIG`. A pointer is the memory from where it points on. -/
structure DeviceConfig where
  supportedEvents : UInt32
  vendorID : UInt16
  productID : UInt16
  versionNumber : UInt16
  reportDescriptorLength : UInt16
  reportDescriptor : Option (List Byte)
  containerId : Guid
  instanceID : Option WString
  hardwareIDs : Option WString
  readReportPeriodUs : UInt32
  deriving DecidableEq, Repr

inductive DeviceState where
  | created | started | stopped
  deriving DecidableEq, Repr

/-- What a `WINUHID_EVENT` in a heap block says to the library. -/
structure Event where
  block : Block
  type : UInt32
  requestId : UInt32
  /-- `Read.DataLength`. -/
  dataLength : UInt32
  deriving DecidableEq, Repr

def Event.read (e : Event) : ReadEvent := ⟨e.requestId, e.dataLength⟩

/-- `WINUHID_DEVICE`, without its lock and `PendingReadReportEvent`. -/
structure Device where
  /-- `NULL` and `INVALID_HANDLE_VALUE` are no handle. -/
  handle : Option Handle
  state : DeviceState
  eventBufferSizeHint : UInt32
  eventThread : Option Handle
  eventCallback : Option ℕ
  callbackContext : ℕ
  readThread : Option Handle
  throttlingTimer : Option Handle
  throttlingPeriod : ℤ
  readReportReadyEvent : Option Handle
  deriving DecidableEq, Repr

/-- `HEAP_ZERO_MEMORY`. -/
def Device.zero : Device := ⟨none, .created, 0, none, none, 0, none, none, 0, none⟩

/-- A device as `WinUHidCreateDevice` makes it. -/
structure JustCreated (d : Device) : Prop where
  state : d.state = .created
  hint : d.eventBufferSizeHint = 128
  throttled : d.throttlingTimer.isSome = d.readReportReadyEvent.isSome

/-! ## What is called -/

inductive ThreadProc where
  | event | read
  deriving DecidableEq, Repr

/-- What `DeviceIoControl` or `GetOverlappedResultEx` says of a `GET_NEXT_EVENT`. -/
inductive IoResult where
  | done (event : Event)
  /-- `ERROR_INSUFFICIENT_BUFFER`. -/
  | tooSmall
  /-- `ERROR_IO_PENDING`. -/
  | pending
  /-- `WAIT_TIMEOUT` or `ERROR_IO_INCOMPLETE`. -/
  | timeout
  | failed
  deriving DecidableEq, Repr

inductive Call where
  | getLastError
  | setLastError (code : UInt32)
  | createEvent (manualReset : Bool)
  | createWaitableTimer
  | createFile
  | closeHandle (h : Handle)
  | heapAlloc (size : ℕ)
  | heapReAlloc (block : Block) (size : ℕ)
  | heapFree (block : Block)
  | resetEvent (h : Handle)
  | setEvent (h : Handle)
  | setWaitableTimer (h : Handle) (due : ℤ)
  | waitForSingleObject (h : Handle) (millis : UInt32)
  /-- With the wait for an operation that is pending. -/
  | deviceIoControl (file : Option Handle) (event : Handle) (code : RequestCode) (input : List Byte)
  | writeFile (file : Option Handle) (event : Handle) (report : List Byte)
  | getNextEvent (file : Option Handle) (event : Handle) (block : Block) (size : UInt32)
  | getOverlappedResult (file : Option Handle) (event : Handle) (block : Block) (millis : UInt32)
  /-- `CancelIoEx`: of one operation, or of all. -/
  | cancelIo (file : Option Handle) (event : Option Handle)
  | createThread (proc : ThreadProc)
  | acquireShared
  | releaseShared
  | acquireExclusive
  | releaseExclusive
  | allocDevice
  | freeDevice
  | readDevice
  | modifyDevice (f : Device → Device)
  | setState (state : DeviceState)
  /-- `InterlockedExchangePointer` of `PendingReadReportEvent`. -/
  | exchangePending (event : Option Event)
  | eventCallback (event : Event)
  /-- A thread that was created comes to its end. -/
  | exitThread (h : Handle)
  /-- A client has the event that it polled. -/
  | received (event : Event)
  /-- A read outside the memory that was given. -/
  | accessViolation
  /-- The rest of a loop that is not followed further. -/
  | forever

/-- `Bool`: the call succeeded, or the wait ended with the object signalled. -/
abbrev Call.Resp : Call → Type
  | getLastError => UInt32
  | createEvent _ | createWaitableTimer | createFile | createThread _ => Option Handle
  | heapAlloc _ | heapReAlloc .. => Option Block
  | waitForSingleObject .. | deviceIoControl .. | writeFile .. | allocDevice => Bool
  | getNextEvent .. | getOverlappedResult .. => IoResult
  | readDevice => Device
  | exchangePending _ => Option Event
  | accessViolation | forever => Empty
  | _ => Unit

abbrev Lib := Prog Call Call.Resp

abbrev perform (c : Call) : Lib c.Resp := Prog.perform c

/-! ## Strings -/

/-- `wcslen`; `none` where no null is in the memory. -/
def wcslen (s : WString) : Option ℕ := if 0 ∈ s then some (cStr s).length else none

/-- The loop of `MultiSzWcsLen`, with the memory from `MultiSzString` on. -/
def multiSzLoop : ℕ → WString → ℕ → Option ℕ
  | 0, _, _ => none
  | _ + 1, [], _ => none
  | n + 1, c :: s, len =>
    if c = 0 then some len
    else (wcslen (c :: s)).bind fun l =>
      let len := len + (1 + l)
      multiSzLoop n ((c :: s).drop len) len

def multiSzWcsLen (s : WString) : Option ℕ := multiSzLoop (s.length + 1) s 0

theorem wcslen_item {s rest : WString} (h : 0 ∉ s) : wcslen (s ++ 0 :: rest) = some s.length := by
  have hmem : (0 : UInt16) ∈ s ++ 0 :: rest := by simp
  rw [wcslen, if_pos hmem, cStr, List.takeWhile_append_of_pos fun c hc => by
    exact bne_iff_ne.mpr fun e => h (e ▸ hc)]
  simp

/-- One more string. The pointer moves by the length of all strings so far. -/
theorem multiSzLoop_item {n len : ℕ} {item rest : WString} (hne : item ≠ []) (h0 : 0 ∉ item) :
    multiSzLoop (n + 1) (item ++ 0 :: rest) len =
      multiSzLoop n ((item ++ 0 :: rest).drop (len + (1 + item.length))) (len + (1 + item.length)) := by
  cases item with
  | nil => exact absurd rfl hne
  | cons c item =>
    have hc : c ≠ 0 := fun hc => h0 (hc ▸ List.mem_cons_self)
    have hlen := @wcslen_item _ rest h0
    rw [List.cons_append] at hlen ⊢
    rw [multiSzLoop, if_neg hc, hlen, Option.bind_some]

theorem multiSzLoop_le {n len r : ℕ} {s : WString} (h : multiSzLoop n s len = some r) :
    r < len + s.length := by
  induction n generalizing s len with
  | zero => cases h
  | succ n ih =>
    cases s with
    | nil => cases h
    | cons c s =>
      rw [multiSzLoop] at h
      split at h
      · cases h
        simp
      · simp only [Option.bind_eq_some_iff] at h
        obtain ⟨l, hl, h⟩ := h
        have hr := ih h
        by_cases hfit : len + (1 + l) ≤ (c :: s).length
        · rw [List.length_drop] at hr
          omega
        · rw [List.drop_eq_nil_of_le (by omega)] at h
          cases n <;> cases h

theorem multiSz_nulls {items : List WString} (h : ∀ s ∈ items, s ≠ [] ∧ 0 ∉ s) {i : ℕ}
    (h₀ : (multiSz items)[i]? = some 0) (h₁ : (multiSz items)[i + 1]? = some 0) :
    i + 2 = (multiSz items).length := by
  induction items generalizing i with
  | nil => simp [multiSz] at h₁
  | cons a items ih =>
    obtain ⟨ha, ha0⟩ := h a List.mem_cons_self
    have hitems : ∀ s ∈ items, s ≠ [] ∧ 0 ∉ s := fun s hs => h s (List.mem_cons_of_mem a hs)
    have hsplit : multiSz (a :: items) = a ++ 0 :: multiSz items := by simp [multiSz]
    rw [hsplit] at h₀ h₁ ⊢
    rcases Nat.lt_trichotomy i a.length with hlt | rfl | hgt
    · rw [List.getElem?_append_left hlt] at h₀
      exact absurd (List.mem_of_getElem? h₀) ha0
    · rw [List.getElem?_append_right (by omega), Nat.add_sub_cancel_left, List.getElem?_cons_succ] at h₁
      cases items with
      | nil => simp [multiSz]
      | cons b items =>
        obtain ⟨hb, hb0⟩ := hitems b List.mem_cons_self
        obtain ⟨c, b, rfl⟩ := List.exists_cons_of_ne_nil hb
        simp only [multiSz, List.flatMap_cons, List.cons_append, List.getElem?_cons_zero,
          Option.some.injEq] at h₁
        exact absurd (h₁ ▸ List.mem_cons_self) hb0
    · obtain ⟨j, rfl⟩ := Nat.exists_eq_add_of_lt hgt
      rw [List.getElem?_append_right (by omega), show a.length + j + 1 - a.length = j + 1 by omega,
        List.getElem?_cons_succ] at h₀
      rw [List.getElem?_append_right (by omega), show a.length + j + 1 + 1 - a.length = j + 1 + 1 by omega,
        List.getElem?_cons_succ] at h₁
      have hlen := ih hitems h₀ h₁
      rw [List.length_append, List.length_cons]
      omega

/-- What begins as the memory of a list does and ends in two nulls has all of the list. -/
theorem multiSz_whole {items : List WString} {rest s : WString} (h : ∀ s ∈ items, s ≠ [] ∧ 0 ∉ s)
    (hs : s <+: multiSz items ++ rest) (hlen : 2 ≤ s.length) (h₀ : s[s.length - 2] = 0)
    (h₁ : s[s.length - 1] = 0) : multiSz items <+: s := by
  have hlist : multiSz items <+: multiSz items ++ rest := List.prefix_append _ _
  rcases List.prefix_or_prefix_of_prefix hs hlist with hshort | hwhole
  · have hnull (i : ℕ) (hi : i < s.length) : (multiSz items)[i]? = some s[i] := by
      have hlt := Nat.lt_of_lt_of_le hi hshort.length_le
      rw [List.getElem?_eq_getElem hlt, hshort.getElem hi]
    have hend := multiSz_nulls h (i := s.length - 2) (by rw [hnull _ (by omega), h₀])
      (by rw [show s.length - 2 + 1 = s.length - 1 by omega, hnull _ (by omega), h₁])
    exact (hshort.eq_of_length (by omega)) ▸ List.prefix_rfl
  · exact hwhole

theorem multiSzWcsLen_cons {a rest : WString} {items : List WString} (ha : a ≠ []) (ha0 : 0 ∉ a) :
    multiSzWcsLen (multiSz (a :: items) ++ rest) =
      multiSzLoop (multiSz (a :: items) ++ rest).length (multiSz items ++ rest) (1 + a.length) := by
  have hsplit : multiSz (a :: items) ++ rest = a ++ 0 :: (multiSz items ++ rest) := by simp [multiSz]
  have hdrop : (a ++ 0 :: (multiSz items ++ rest)).drop (1 + a.length) = multiSz items ++ rest := by
    rw [show 1 + a.length = (a ++ [0]).length by simp; omega,
      show a ++ 0 :: (multiSz items ++ rest) = (a ++ [0]) ++ (multiSz items ++ rest) by simp, List.drop_left]
  rw [multiSzWcsLen, hsplit, multiSzLoop_item ha ha0, Nat.zero_add, hdrop]

/-- The second string of a list. The pointer moves by the lengths of both strings, from where it is. -/
theorem multiSzWcsLen_cons_cons {a b rest : WString} {items : List WString} (ha : a ≠ []) (ha0 : 0 ∉ a)
    (hb : b ≠ []) (hb0 : 0 ∉ b) :
    multiSzWcsLen (multiSz (a :: b :: items) ++ rest) =
      multiSzLoop ((multiSz (a :: b :: items) ++ rest).length - 1)
        ((multiSz items ++ rest).drop (1 + a.length)) (1 + a.length + (1 + b.length)) := by
  have hlen : (multiSz (a :: b :: items) ++ rest).length =
      (multiSz (a :: b :: items) ++ rest).length - 1 + 1 := by
    simp [multiSz]
    omega
  have hsplit : multiSz (b :: items) ++ rest = b ++ 0 :: (multiSz items ++ rest) := by simp [multiSz]
  have hdrop : (b ++ 0 :: (multiSz items ++ rest)).drop (1 + a.length + (1 + b.length)) =
      (multiSz items ++ rest).drop (1 + a.length) := by
    rw [show 1 + a.length + (1 + b.length) = (b ++ [0]).length + (1 + a.length) by simp; omega,
      show b ++ 0 :: (multiSz items ++ rest) = (b ++ [0]) ++ (multiSz items ++ rest) by simp, ← List.drop_drop,
      List.drop_left]
  rw [multiSzWcsLen_cons ha ha0, hlen, hsplit, multiSzLoop_item hb hb0, hdrop, ← hlen]

/-- `MultiSzWcsLen` adds up the strings of a `REG_MULTI_SZ` of at most one, whatever lies behind it. With
more it moves the pointer by the length of all strings so far, past the second string, and needs more
memory than the list has. -/
theorem multi_sz_length (items : List WString) (h : ∀ s ∈ items, s ≠ [] ∧ 0 ∉ s) :
    (items.length ≤ 1 →
      ∀ rest, multiSzWcsLen (multiSz items ++ rest) = some ((multiSz items).length - 1)) ∧
    ∀ a b more, items = a :: b :: more →
      (∀ rest, multiSzWcsLen (multiSz items ++ rest) =
        multiSzLoop ((multiSz items ++ rest).length - 1) ((multiSz more ++ rest).drop (1 + a.length))
          (1 + a.length + (1 + b.length))) ∧
      multiSzWcsLen (multiSz items) ≠ some ((multiSz items).length - 1) := by
  constructor
  · match items with
    | [] => exact fun _ rest => by simp [multiSz, multiSzWcsLen, multiSzLoop]
    | [a] =>
      intro _ rest
      obtain ⟨ha, ha0⟩ := h a List.mem_cons_self
      rw [multiSzWcsLen_cons ha ha0]
      simp [multiSz, multiSzLoop, Nat.add_comm]
    | a :: b :: items => simp
  · rintro a b more rfl
    obtain ⟨ha, ha0⟩ := h a List.mem_cons_self
    obtain ⟨hb, hb0⟩ := h b (by simp)
    refine ⟨fun rest => multiSzWcsLen_cons_cons ha ha0 hb hb0, fun hsum => ?_⟩
    have hstep := @multiSzWcsLen_cons_cons a b [] more ha ha0 hb hb0
    simp only [List.append_nil] at hstep
    rw [hstep] at hsum
    have hlt := multiSzLoop_le hsum
    have hend : (multiSz (a :: b :: more)).length = a.length + 1 + (b.length + 1) + (multiSz more).length := by
      simp [multiSz]
      omega
    have hpos : 0 < (multiSz more).length := by simp [multiSz]
    simp only [List.length_drop] at hlt
    omega

theorem multi_sz_length_two :
    multiSzWcsLen (multiSz [wide "A"] ++ wide "B") = some 2 ∧
      multiSzWcsLen (multiSz [wide "A", wide "B"]) ≠ some 4 := by
  have hone := (multi_sz_length [wide "A"] (by decide)).1 le_rfl (wide "B")
  have htwo := ((multi_sz_length [wide "A", wide "B"] (by decide)).2 _ _ _ rfl).2
  exact ⟨hone, htwo⟩

-- Zeros behind a list of two hide it.
example : multiSzWcsLen (multiSz [wide "A", wide "B"] ++ [0, 0, 0]) = some 4 := by decide

/-- The characters as they lie in memory. -/
def wideBytes (s : WString) : List Byte := s.flatMap fun c : UInt16 => [c.toUInt8, (c >>> 8).toUInt8]

/-- `(DWORD)(len + 1) * sizeof(WCHAR)`, as a `DWORD`. -/
def wideSize (len : ℕ) : ℕ := (len + 1) % 2 ^ 32 * 2 % 2 ^ 32

theorem wideSize_eq (len : ℕ) : wideSize len = 2 * ((len + 1) % 2 ^ 31) := by
  unfold wideSize
  omega

@[simp] theorem wideBytes_length (s : WString) : (wideBytes s).length = 2 * s.length := by
  induction s with
  | nil => rfl
  | cons c s ih =>
    simp only [wideBytes, List.flatMap_cons, List.length_append, List.length_cons, List.length_nil] at ih ⊢
    omega

theorem wideBytes_append (s t : WString) : wideBytes (s ++ t) = wideBytes s ++ wideBytes t :=
  List.flatMap_append

theorem wideBytes_take (s : WString) (n : ℕ) : (wideBytes s).take (2 * n) = wideBytes (s.take n) := by
  induction s generalizing n with
  | nil => simp [wideBytes]
  | cons c s ih =>
    cases n with
    | zero => rfl
    | succ n =>
      rw [Nat.mul_succ]
      simp only [wideBytes, List.flatMap_cons, List.cons_append, List.nil_append, List.take_succ_cons] at ih ⊢
      rw [ih]

theorem u16At_wideBytes {s : WString} {i : ℕ} (hi : i < s.length) : u16At (wideBytes s) (2 * i) = s[i] := by
  have hfront : (wideBytes (s.take i)).length = 2 * i := by
    rw [wideBytes_length, List.length_take, Nat.min_eq_left (Nat.le_of_lt hi)]
  have hsplit : wideBytes s =
      wideBytes (s.take i) ++ s[i].toUInt8 :: (s[i] >>> 8).toUInt8 :: wideBytes (s.drop (i + 1)) := by
    conv_lhs => rw [← List.take_append_drop i s, List.drop_eq_getElem_cons hi, wideBytes_append]
    rfl
  rw [hsplit, ← hfront]
  exact u16At_append _ _ _

/-! ## Device creation -/

def deviceIoControlInSync (handle overlappedEvent : Option Handle) (ioctl : RequestCode)
    (input : List Byte) : Lib Bool := do
  match overlappedEvent with
  | some event =>
    perform (.resetEvent event)
    perform (.deviceIoControl handle event ioctl input)
  | none =>
    match ← perform (.createEvent true) with
    | none => return false
    | some event =>
      let ret ← perform (.deviceIoControl handle event ioctl input)
      perform (.closeHandle event)
      return ret

/-- `WINUHID_DEVICE_INFO` of the configuration. The two bytes before the GUID are padding. -/
def deviceInfo (config : DeviceConfig) (padding : UInt16) : List Byte :=
  u32Bytes 1 ++ u32Bytes config.supportedEvents ++
    wideBytes [config.vendorID, config.productID, config.versionNumber, padding] ++ config.containerId.1

/-- Sends a string; `len` is its length where the memory holds it. -/
def sendString (handle event : Option Handle) (ioctl : RequestCode) (string : WString) (len : Option ℕ) :
    Lib Bool := do
  match len with
  | none => (perform .accessViolation) >>= Empty.elim
  | some len => deviceIoControlInSync handle event ioctl ((wideBytes string).take (wideSize len))

/-- A string that is not given is not sent. -/
def sendIfGiven (handle event : Option Handle) (ioctl : RequestCode) (string : Option WString)
    (length : WString → Option ℕ) : Lib Bool := do
  match string with
  | none => return true
  | some s => sendString handle event ioctl s (length s)

/-- The IOCTLs of `WinUHidCreateDevice`. False: `goto Fail`. -/
def configureDevice (config : DeviceConfig) (descriptor : List Byte) (padding : UInt16)
    (handle event : Option Handle) : Lib Bool := do
  if !(← deviceIoControlInSync handle event .setDeviceInfo (deviceInfo config padding)) then
    return false
  else if !(← deviceIoControlInSync handle event .setReportDescriptor
      (descriptor.take config.reportDescriptorLength.toNat)) then
    return false
  else if !(← sendIfGiven handle event .setInstanceId config.instanceID wcslen) then
    return false
  else if !(← sendIfGiven handle event .setHardwareIds config.hardwareIDs multiSzWcsLen) then
    return false
  else
    deviceIoControlInSync handle event .createDevice []

/-- `CreateFileW`, and what follows it. -/
def openDevice (config : DeviceConfig) (descriptor : List Byte) (padding : UInt16)
    (event : Handle) : Lib Bool := do
  let handle ← perform .createFile
  perform (.modifyDevice fun d => { d with handle := handle })
  if handle.isNone then
    return false
  else
    configureDevice config descriptor padding handle (some event)

def throttles (config : DeviceConfig) : Bool :=
  config.supportedEvents &&& EventType.readReport.value != 0 && config.readReportPeriodUs != 0

/-- What `WinUHidCreateDevice` does once the device is allocated. False: `goto Fail`. -/
def setUpDevice (config : DeviceConfig) (descriptor : List Byte) (padding : UInt16)
    (event : Handle) : Lib Bool := do
  perform (.modifyDevice fun d => { d with state := .created, eventBufferSizeHint := 128 })
  if throttles config then
    let timer ← perform .createWaitableTimer
    perform (.modifyDevice fun d => { d with throttlingTimer := timer })
    if timer.isNone then
      return false
    else
      perform (.modifyDevice fun d =>
        { d with throttlingPeriod := -10 * (config.readReportPeriodUs.toNat : ℤ) })
      let ready ← perform (.createEvent false)
      perform (.modifyDevice fun d => { d with readReportReadyEvent := ready })
      if ready.isNone then
        return false
      else
        openDevice config descriptor padding event
  else
    openDevice config descriptor padding event

/-! ## Completing events -/

def winUHidCompleteWriteEvent (event : Event) (success : Bool) : Lib Unit := do
  let device ← perform .readDevice
  let status := if success then Driver.Status.success else Driver.Status.unsuccessful
  let _ ← deviceIoControlInSync device.handle none .completeWriteEvent
    (u32Bytes event.requestId ++ u32Bytes status)
  perform (.heapFree event.block)

/-- `stack` is the byte in the `Data` of the record on the stack. -/
def winUHidCompleteReadEvent (stack : Byte) (event : Event) (data : Option (List Byte))
    (dataLength : UInt32) : Lib Unit := do
  let device ← perform .readDevice
  let record (allocated : Bool) :=
    Library.winUHidCompleteReadEvent allocated stack event.read data dataLength
  match ← perform (.heapAlloc (12 + dataLength).toNat) with
  | some block =>
    let _ ← deviceIoControlInSync device.handle none .completeReadEvent (record true)
    perform (.heapFree block)
  | none =>
    let _ ← deviceIoControlInSync device.handle none .completeReadEvent (record false)
  perform (.heapFree event.block)

/-! ## Stopping and destroying -/

def forgetEventThread (d : Device) : Device := { d with eventThread := none }

def forgetReadThread (d : Device) : Device := { d with readThread := none }

/-- Waits for a thread to exit, and forgets it. `NULL` is 0. -/
def joinThread (thread : Device → Option Handle) (forget : Device → Device) : Lib Unit := do
  let d ← perform .readDevice
  if (thread d).isNone then
    return ()
  else
    let d ← perform .readDevice
    let _ ← perform (.waitForSingleObject ((thread d).getD 0) infinite)
    let d ← perform .readDevice
    perform (.closeHandle ((thread d).getD 0))
    perform (.modifyDevice forget)

/-- Drops the lock while the thread ends. -/
def stopThread (thread : Device → Option Handle) (forget : Device → Device) (wake : Lib Unit) :
    Lib Unit := do
  let d ← perform .readDevice
  if (thread d).isNone then
    return ()
  else
    perform .releaseExclusive
    wake
    let d ← perform .readDevice
    let _ ← perform (.waitForSingleObject ((thread d).getD 0) infinite)
    perform .acquireExclusive
    let d ← perform .readDevice
    perform (.closeHandle ((thread d).getD 0))
    perform (.modifyDevice forget)

def stopEventThread : Lib Unit := stopThread Device.eventThread forgetEventThread (return ())

/-- The read thread may wait for the event or for the timer. -/
def wakeReadThread : Lib Unit := do
  let d ← perform .readDevice
  perform (.setEvent (d.readReportReadyEvent.getD 0))
  perform (.setWaitableTimer (d.throttlingTimer.getD 0) 0)

def stopReadThread : Lib Unit := stopThread Device.readThread forgetReadThread wakeReadThread

/-- `device`: the pointer is not `NULL`. -/
def winUHidStopDevice (device : Bool) : Lib Unit := do
  if !device then
    return ()
  else
    perform .acquireExclusive
    let d ← perform .readDevice
    if d.state = .started then
      perform (.setState .stopped)
      perform (.cancelIo d.handle none)
      stopEventThread
      stopReadThread
    perform .releaseExclusive

def closeIfOpen (h : Option Handle) : Lib Unit := do
  match h with
  | none => return ()
  | some h => perform (.closeHandle h)

def winUHidDestroyDevice (device : Bool) (stack : Byte) : Lib Unit := do
  if !device then
    return ()
  else
    let d ← perform .readDevice
    if d.state = .started then
      winUHidStopDevice true
    let d ← perform .readDevice
    closeIfOpen d.throttlingTimer
    closeIfOpen d.readReportReadyEvent
    match ← perform (.exchangePending none) with
    | none => pure ()
    | some event => winUHidCompleteReadEvent stack event none 0
    closeIfOpen d.handle
    perform .freeDevice

/-- True: a device is returned. `config` is `none` where the pointer is `NULL`. -/
def winUHidCreateDevice (config : Option DeviceConfig) (padding : UInt16) (stack : Byte) : Lib Bool := do
  match config with
  | none =>
    perform (.setLastError Error.invalidParameter)
    return false
  | some config =>
    match config.reportDescriptor with
    | none =>
      perform (.setLastError Error.invalidParameter)
      return false
    | some descriptor =>
      if config.reportDescriptorLength = 0 then
        perform (.setLastError Error.invalidParameter)
        return false
      else
        match ← perform (.createEvent true) with
        | none => return false
        | some event =>
          let allocated ← perform .allocDevice
          if !allocated then
            perform (.setLastError Error.outOfMemory)
            perform (.closeHandle event)
            return false
          else
            let ok ← setUpDevice config descriptor padding event
            if !ok then
              winUHidDestroyDevice true stack
            perform (.closeHandle event)
            return ok

/-! ## Input reports -/

/-- `report` is what the pointer points to. -/
def winUHidSubmitInputReport (device : Bool) (report : Option (List Byte)) (reportSize : UInt32)
    (stack : Byte) : Lib Bool := do
  match report with
  | none =>
    perform (.setLastError Error.invalidParameter)
    return false
  | some report =>
    if !device || reportSize = 0 then
      perform (.setLastError Error.invalidParameter)
      return false
    else
      let d ← perform .readDevice
      match d.readReportReadyEvent with
      | some ready =>
        let signalled : Bool ← perform (.waitForSingleObject ready 0)
        if signalled then
          match ← perform (.exchangePending none) with
          | none =>
            perform (.setLastError Error.notReady)
            return false
          | some event =>
            winUHidCompleteReadEvent stack event (some report) reportSize
            perform (.setWaitableTimer (d.throttlingTimer.getD 0) d.throttlingPeriod)
            return true
        else
          perform (.setLastError Error.notReady)
          return false
      | none =>
        match ← perform (.createEvent true) with
        | none => return false
        | some event =>
          let ret ← perform (.writeFile d.handle event (report.take reportSize.toNat))
          perform (.closeHandle event)
          return ret

/-! ## Polling -/

/-- Waits for the IOCTL, or for the timeout. When that expires the IOCTL is cancelled, which may come too
late, and is waited for in any case: it writes to the stack and to the block. -/
def awaitEvent (file : Option Handle) (overlapped : Handle) (block : Block) (millis : UInt32) :
    Lib IoResult := do
  let waited : IoResult ← perform (.getOverlappedResult file overlapped block millis)
  if waited = .timeout then
    perform (.cancelIo file (some overlapped))
    match ← perform (.getOverlappedResult file overlapped block infinite) with
    | .done event => return .done event
    | _ => return .timeout
  else
    return waited

/-- Issues the IOCTL with the lock held shared, and drops the lock to wait. -/
def requestEvent (file : Option Handle) (overlapped : Handle) (block : Block) (bufferSize millis : UInt32) :
    Lib IoResult := do
  perform (.resetEvent overlapped)
  let first : IoResult ← perform (.getNextEvent file overlapped block bufferSize)
  perform .releaseShared
  if first = .pending then
    awaitEvent file overlapped block millis
  else
    return first

def growHint (bufferSize : UInt32) (d : Device) : Device :=
  if d.eventBufferSizeHint < bufferSize then { d with eventBufferSizeHint := bufferSize } else d

/-- The size of the next buffer, which is at least the doubled size or the hint. -/
def growBuffer (bufferSize : UInt32) : Lib UInt32 := do
  let doubled := bufferSize * 2
  perform .acquireExclusive
  let d ← perform .readDevice
  perform (.modifyDevice (growHint doubled))
  perform .releaseExclusive
  return if d.eventBufferSizeHint < doubled then doubled else d.eventBufferSizeHint

def failPoll (block : Block) : Lib (Option Event) := do
  perform (.heapFree block)
  return none

def failPollWith (code : UInt32) (block : Block) : Lib (Option Event) := do
  perform (.setLastError code)
  failPoll block

/-- The loop of `WinUHidPollEvent`, entered with the lock held shared. It is followed through some
rounds. -/
def pollLoop : ℕ → Handle → Block → UInt32 → UInt32 → Lib (Option Event)
  | 0, _, _, _, _ => (perform .forever) >>= Empty.elim
  | rounds + 1, overlapped, block, bufferSize, millis => do
    let d ← perform .readDevice
    if d.state ≠ .started then
      perform .releaseShared
      failPollWith Error.badCommand block
    else
      match ← requestEvent d.handle overlapped block bufferSize millis with
      | .done event => return some event
      | .tooSmall =>
        let bufferSize ← growBuffer bufferSize
        match ← perform (.heapReAlloc block bufferSize.toNat) with
        | none => failPollWith Error.outOfMemory block
        | some block =>
          perform .acquireShared
          pollLoop rounds overlapped block bufferSize millis
      | .timeout => failPollWith Error.timeout block
      | _ => failPoll block

/-- Allocates the buffer with the lock held shared. -/
def pollWith (rounds : ℕ) (overlapped : Handle) (millis : UInt32) : Lib (Option Event) := do
  perform .acquireShared
  let d ← perform .readDevice
  match ← perform (.heapAlloc d.eventBufferSizeHint.toNat) with
  | none =>
    perform .releaseShared
    perform (.setLastError Error.outOfMemory)
    return none
  | some block => pollLoop rounds overlapped block d.eventBufferSizeHint millis

def winUHidPollEvent (rounds : ℕ) (device : Bool) (timeoutMillis : UInt32) : Lib (Option Event) := do
  if !device then
    perform (.setLastError Error.invalidParameter)
    return none
  else
    match ← perform (.createEvent true) with
    | none => return none
    | some overlapped =>
      let event ← pollWith rounds overlapped timeoutMillis
      perform (.closeHandle overlapped)
      return event

/-! ## The threads -/

/-- The loop of `ReadThreadProc`, entered and left with the lock held shared. -/
def readLoop : ℕ → Lib Unit
  | 0 => (perform .forever) >>= Empty.elim
  | rounds + 1 => do
    let d ← perform .readDevice
    if d.state ≠ .started then
      return ()
    else
      perform .releaseShared
      let _ ← perform (.waitForSingleObject (d.readReportReadyEvent.getD 0) infinite)
      perform .acquireShared
      let d ← perform .readDevice
      if d.state ≠ .started then
        return ()
      else
        match ← perform (.exchangePending none) with
        | none => readLoop rounds
        | some event =>
          perform .releaseShared
          perform (.eventCallback event)
          perform (.setWaitableTimer (d.throttlingTimer.getD 0) d.throttlingPeriod)
          let _ ← perform (.waitForSingleObject (d.throttlingTimer.getD 0) infinite)
          perform .acquireShared
          readLoop rounds

def readThreadProc (rounds : ℕ) : Lib Unit := do
  perform .acquireShared
  readLoop rounds
  perform .releaseShared

/-- A ready-for-read event of a throttled device goes to the read thread, any other to the user. -/
def dispatchEvent (event : Event) : Lib Unit := do
  let d ← perform .readDevice
  if event.type = EventType.readReport.value ∧ d.throttlingTimer.isSome ∧ event.dataLength = 0 then
    let _ ← perform (.exchangePending (some event))
    perform (.setEvent (d.readReportReadyEvent.getD 0))
  else
    perform (.eventCallback event)

def eventThreadProc (rounds : ℕ) : ℕ → Lib Unit
  | 0 => (perform .forever) >>= Empty.elim
  | n + 1 => do
    match ← winUHidPollEvent rounds true infinite with
    | none => return ()
    | some event =>
      dispatchEvent event
      eventThreadProc rounds n

/-! ## Starting -/

/-- Starts the event thread if there is a callback. False: it could not be created. -/
def startEventThread (eventCallback : Option ℕ) (callbackContext : ℕ) : Lib Bool := do
  perform (.modifyDevice fun d =>
    { d with eventCallback := eventCallback, callbackContext := callbackContext })
  if eventCallback.isNone then
    return true
  else
    let thread ← perform (.createThread .event)
    perform (.modifyDevice fun d => { d with eventThread := thread })
    return thread.isSome

/-- Starts the read thread if reads are throttled. -/
def startReadThread : Lib Bool := do
  let d ← perform .readDevice
  if d.throttlingTimer.isNone then
    return true
  else
    let thread ← perform (.createThread .read)
    perform (.modifyDevice fun d => { d with readThread := thread })
    return thread.isSome

def winUHidStartDevice (device : Bool) (eventCallback : Option ℕ) (callbackContext : ℕ) : Lib Bool := do
  if !device then
    perform (.setLastError Error.invalidParameter)
    return false
  else
    perform .acquireExclusive
    let d ← perform .readDevice
    if d.state ≠ .created then
      perform .releaseExclusive
      perform (.setLastError Error.badCommand)
      return false
    else if !(← startEventThread eventCallback callbackContext) then
      perform .releaseExclusive
      return false
    else if !(← startReadThread) then
      perform .releaseExclusive
      joinThread Device.eventThread forgetEventThread
      return false
    else
      let d ← perform .readDevice
      if !(← deviceIoControlInSync d.handle none .startDevice []) then
        -- The threads see that the device is not started once the lock is free, and end.
        perform .releaseExclusive
        joinThread Device.eventThread forgetEventThread
        joinThread Device.readThread forgetReadThread
        return false
      else
        perform (.setState .started)
        perform .releaseExclusive
        return true

end VirtualGun.WinUHid
