import VirtualGun.Driver.Release

/-!
# Answering a read event

`WinUHidCompleteReadEvent` of `third_party/winuhid/WinUHid.cpp`, and what `COMPLETE_READ_EVENT` does
with the record it sends. The driver asks for a whole `WINUHID_READ_EVENT_COMPLETE`, the library
sends its header and the data.
-/

open VirtualGun.Program VirtualGun.Driver

namespace VirtualGun.Library

/-- What an answer takes from the `WINUHID_EVENT`: `RequestId` and `Read.DataLength`. -/
structure ReadEvent where
  requestId : UInt32
  dataLength : UInt32

def statusNoMemory : NTSTATUS := 0xC0000017

def readEventRecord (requestId : UInt32) (status : NTSTATUS) (dataLength : UInt32)
    (data : List Byte) : List Byte :=
  u32Bytes requestId ++ (u32Bytes status ++ (u32Bytes dataLength ++ data))

/-- The record that is sent. `allocated`: whether `HeapAlloc` succeeded; `stack` is the byte in the
`Data` of the record on the stack. -/
def winUHidCompleteReadEvent (allocated : Bool) (stack : Byte) (event : ReadEvent)
    (data : Option (List Byte)) (dataLength : UInt32) : List Byte :=
  if allocated then
    match data with
    | some bytes =>
      let length :=
        if event.dataLength ≠ 0 ∧ event.dataLength < dataLength then event.dataLength else dataLength
      readEventRecord event.requestId Status.success length (bytes.take length.toNat)
    | none => readEventRecord event.requestId Status.unsuccessful 0 []
  else readEventRecord event.requestId statusNoMemory 0 [stack]

section
variable {requestId dataLength : UInt32} {status : NTSTATUS} {data : List Byte}

theorem readEventRecord_length :
    (readEventRecord requestId status dataLength data).length = 12 + data.length := by
  simp [readEventRecord, u32Bytes]
  omega

theorem decode_readEventRecord :
    ReadEventComplete.decode (readEventRecord requestId status dataLength data) =
      ⟨requestId, status, dataLength, ⟨readEventRecord requestId status dataLength data, 12⟩⟩ := by
  have hid := u32At_u32Bytes [] (u32Bytes status ++ (u32Bytes dataLength ++ data)) requestId
  have hstatus := u32At_u32Bytes (u32Bytes requestId) (u32Bytes dataLength ++ data) status
  have hlength := u32At_u32Bytes (u32Bytes requestId ++ u32Bytes status) data dataLength
  simp only [List.append_assoc] at hlength
  simp only [ReadEventComplete.decode, ReadEventComplete.mk.injEq]
  exact ⟨hid, hstatus, hlength, rfl⟩

theorem readEventRecord_data {len : ℕ} (h : len ≤ data.length) :
    Ptr.bytes ⟨readEventRecord requestId status dataLength data, 12⟩ len = data.take len := by
  refine List.ext_getElem (by simp [Ptr.bytes, h]) fun i h₁ h₂ => ?_
  have hi : i < data.length := by
    simp only [List.length_take] at h₂
    omega
  have hrecord : readEventRecord requestId status dataLength data =
      (u32Bytes requestId ++ u32Bytes status ++ u32Bytes dataLength) ++ data := by
    simp [readEventRecord]
  have hat := byteAt_append (u32Bytes requestId ++ u32Bytes status ++ u32Bytes dataLength) data i
  rw [← hrecord] at hat
  simp only [Ptr.bytes, List.getElem_map, List.getElem_range, List.getElem_take]
  exact hat.trans (by simp [byteAt, hi])

end

/-! ## The report buffer -/

/-- `source` is written into the buffer from `offset` on. -/
def writeInto (buffer : List Byte) (offset : ℕ) (source : List Byte) : List Byte :=
  buffer.take offset ++ source ++ buffer.drop (offset + source.length)

/-- What a call leaves in the report buffer of the operation. -/
def fill (op : OperationContext) (buffer : List Byte) : VhfCall → List Byte
  | .copyMemory op' source len =>
    if op' = op then writeInto buffer 0 (source.bytes len) else buffer
  | .zeroMemory op' offset len =>
    if op' = op then writeInto buffer offset (List.replicate len 0) else buffer
  | _ => buffer

/-- The first `n` bytes of the data, with zeros behind it. -/
def padded (data : List Byte) (n : ℕ) : List Byte :=
  data.take n ++ List.replicate (n - data.length) 0

/-- The operation is answered: completed once and nothing else is, with a failure, or with success
and a full buffer. -/
structure Answered (op : OperationContext) (data : Option (List Byte)) (w w' : World) : Prop where
  waiting : w'.file.waitingRequests = w.file.waitingRequests
  outstanding : w'.file.outstandingRequests =
    w.file.outstandingRequests.eraseP (·.requestId == op.requestId)
  completed : ∃ calls status, w'.vhf = w.vhf ++ calls ++ [.complete op.handle status] ∧
    (∀ handle status, VhfCall.complete handle status ∉ calls) ∧
    match data with
    | none => ntSuccess status = false
    | some bytes => status = Status.success ∧
      ∀ buffer, buffer.length = op.hidTransferPacket.reportBufferLen.toNat →
        calls.foldl (fill op) buffer = padded bytes buffer.length

/-! ## The run -/

/-- An input buffer that is long enough is retrieved. -/
def retrieves : Call → Outcome → Bool
  | .wdfRequestRetrieveInputBuffer length minimum, .status s => ntSuccess s == decide (minimum ≤ length)
  | _, _ => true

abbrev retrieving : Exec Call Call.Resp Outcome World := exec.only retrieves

theorem retrieving_sub : retrieving.Sub exec := fun _ _ _ _ h => (Exec.only_eq_some.mp h).2

theorem retrieving_total (c : Call) (w : World) : ∃ o r w', retrieving c o w = some (r, w') := by
  have intro {o : Outcome} {r : c.Resp} {w' : World} (hr : retrieves c o = true)
      (he : exec c o w = some (r, w')) : ∃ o r w', retrieving c o w = some (r, w') :=
    ⟨o, r, w', Exec.only_eq_some.mpr ⟨hr, he⟩⟩
  cases c with
  | wdfRequestRetrieveInputBuffer length minimum =>
    by_cases h : minimum ≤ length
    · have hok : ntSuccess Status.success = true := by rfl
      exact intro (o := .status Status.success) (by simp [retrieves, hok, h])
        (exec_retrieveInput.mpr ⟨rfl, fun _ => h, rfl⟩)
    · have hsmall : ntSuccess Status.bufferTooSmall = false := by rfl
      exact intro (o := .status Status.bufferTooSmall) (by simp [retrieves, hsmall, h])
        (exec_retrieveInput.mpr ⟨rfl, fun hs => absurd hs (by decide), rfl⟩)
  | wdfRequestRetrieveOutputBuffer length minimum =>
    exact intro (o := .status Status.bufferTooSmall) rfl
      (exec_retrieveOutput.mpr ⟨rfl, fun hs => absurd hs (by decide), rfl⟩)
  | wdfObjectCreate =>
    exact intro (o := .made Status.insufficientResources 0) (r := (_, 0)) rfl
      (exec_objectCreate.mpr ⟨rfl, fun hs => absurd hs (by decide), rfl⟩)
  | wdfIoQueueRetrieveRequestByFileObject =>
    exact intro (o := .status Status.notFound) rfl
      (exec_retrieveRequest.mpr (.inl ⟨_, rfl, by decide, rfl, rfl⟩))
  | tryCompleteSection request => exact intro (o := .tried TryOutcome.fine) rfl rfl
  | vhfCreate => exact intro (o := .made Status.unsuccessful 0) rfl rfl
  | wdfMemoryCreate | wdfMemoryCopyFromBuffer | queueSection | wdfRequestForwardToIoQueue
  | wdfRequestRequeue | vhfStart | vhfReadReportSubmit | vhfAsyncOperationComplete =>
    exact intro (o := .status Status.success) rfl rfl
  | _ => exact intro (o := .ok) rfl rfl

section
variable {w : World} {op : OperationContext} {request : Request} {data : Option (List Byte)}

theorem wp_retrieving_input {length minimum : ℕ} {I : World → Prop} {Q : Unit → World → Prop}
    {k : NTSTATUS → Handler Unit} (hw : I w)
    (hk : ∀ s, (ntSuccess s = true ↔ minimum ≤ length) → wp retrieving I Q (k s) w) :
    wp retrieving I Q (.call (.wdfRequestRetrieveInputBuffer length minimum) k) w := by
  refine ⟨hw, fun o r w' he => ?_⟩
  obtain ⟨hr, he⟩ := Exec.only_eq_some.mp he
  obtain ⟨rfl, -, rfl⟩ := exec_retrieveInput.mp he
  have hr : (ntSuccess r == decide (minimum ≤ length)) = true := hr
  exact hk r (by rw [beq_iff_eq.mp hr, decide_eq_true_eq])

/-- A record without data is shorter than a `WINUHID_READ_EVENT_COMPLETE`, and is refused. -/
theorem completeReadEvent_short (hshort : request.input.length < sizeofReadEventComplete) :
    wp retrieving (fun _ => True) (fun _ w' => w'.vhf = w.vhf) (completeReadEvent request) w := by
  have hend {s : NTSTATUS} : wp retrieving (fun _ => True) (fun _ w' => w'.vhf = w.vhf)
      (wdfRequestComplete request s) w :=
    wp_sub retrieving_sub (wp_complete.mpr ⟨trivial, trivial, rfl⟩)
  simp only [completeReadEvent, perform, Prog.perform_bind]
  refine ⟨trivial, fun o f w' he => ?_⟩
  obtain ⟨-, rfl, rfl⟩ := exec_readContext.mp (retrieving_sub _ _ _ _ he)
  refine wp_ite (fun _ => hend) fun _ => wp_retrieving_input trivial fun s hs => ?_
  have hfail : ntSuccess s = false := by
    rw [Bool.eq_false_iff, ne_eq, hs]
    omega
  rw [if_pos (by simp [hfail])]
  exact hend

theorem Answered.vhf_ne {w' : World} (h : Answered op data w w') : w'.vhf ≠ w.vhf := by
  obtain ⟨calls, status, hvhf, -⟩ := h.completed
  rw [hvhf]
  simp

/-- The calls that fill the report buffer with `len` bytes of data. -/
def fillCalls (op : OperationContext) (source : Ptr) (len : UInt32) : List VhfCall :=
  .copyMemory op source (min len op.hidTransferPacket.reportBufferLen).toNat ::
    if len < op.hidTransferPacket.reportBufferLen then
      [.zeroMemory op len.toNat (op.hidTransferPacket.reportBufferLen - len).toNat]
    else []

theorem fillReportBuffer_run (r : ReadEventComplete) :
    wp retrieving (fun _ => True)
      (fun _ w' => w'.file = w.file ∧ w'.vhf = w.vhf ++ fillCalls op r.data r.dataLength)
      (fillReportBuffer op r) w := by
  simp only [fillReportBuffer, perform, Prog.perform_bind]
  refine ⟨trivial, fun o _ w' he => ?_⟩
  obtain ⟨-, rfl⟩ := exec_copyMemory.mp (retrieving_sub _ _ _ _ he)
  refine wp_ite (fun hlt => ⟨trivial, fun o _ w' he => ?_⟩) fun hge => ⟨trivial, rfl, ?_⟩
  · obtain ⟨-, rfl⟩ := exec_zeroMemory.mp (retrieving_sub _ _ _ _ he)
    exact ⟨trivial, rfl, by simp [World.call, fillCalls, hlt]⟩
  · simp [World.call, fillCalls, hge]

theorem completeReadEvent_answers {id len : UInt32} {bytes : List Byte}
    (hopen : w.file.vhfHandle.isSome)
    (hop : w.file.outstandingRequests.find? (·.requestId == id) = some op) (hid : id ≠ 0)
    (hlen : bytes.length = len.toNat) (hpos : 1 ≤ bytes.length) (hfits : 12 + bytes.length < 2 ^ 32)
    (hinput : request.input = readEventRecord id Status.success len bytes) :
    wp retrieving (fun _ => True)
      (fun _ w' => w'.file.waitingRequests = w.file.waitingRequests ∧
        w'.file.outstandingRequests = w.file.outstandingRequests.eraseP (·.requestId == id) ∧
        w'.vhf = w.vhf ++ fillCalls op ⟨request.input, 12⟩ len ++
          [.complete op.handle Status.success])
      (completeReadEvent request) w := by
  have hlength : request.input.length = 12 + bytes.length := by rw [hinput, readEventRecord_length]
  have hdecode : ReadEventComplete.decode request.input =
      ⟨id, Status.success, len, ⟨request.input, 12⟩⟩ := by rw [hinput, decode_readEventRecord]
  have hsum : (readEventCompleteDataOffset + len).toNat = 12 + bytes.length := by
    rw [UInt32.toNat_add, show readEventCompleteDataOffset.toNat = 12 from rfl, ← hlen]
    omega
  simp only [completeReadEvent, perform, Prog.perform_bind]
  generalize ReadEventComplete.decode request.input = r at hdecode
  subst hdecode
  refine ⟨trivial, fun o f w' he => ?_⟩
  obtain ⟨-, rfl, rfl⟩ := exec_readContext.mp (retrieving_sub _ _ _ _ he)
  refine wp_ite (fun hnone => by simp_all) fun _ => wp_retrieving_input trivial fun s hs => ?_
  have hs : ntSuccess s = true := hs.mpr (by rw [hlength, sizeofReadEventComplete]; omega)
  rw [if_neg (by simp [hs]), if_neg (by rw [hsum, hlength]; omega)]
  refine ⟨trivial, fun o r w₁ he => ?_⟩
  obtain ⟨-, rfl, rfl⟩ := exec_take.mp (retrieving_sub _ _ _ _ he)
  rw [show (takeOutstandingRequestById id w.file).1 = some op from hop]
  simp only [if_neg hid, show ntSuccess Status.success = true from rfl, if_true]
  refine wp_seq (fillReportBuffer_run _) fun _ w₂ _ hw₂ => ⟨trivial, fun o r w₃ he => ?_⟩
  obtain ⟨-, rfl⟩ := exec_asyncComplete.mp (retrieving_sub _ _ _ _ he)
  refine ⟨trivial, fun o _ w₄ he => ?_⟩
  obtain ⟨-, rfl⟩ := exec_objectDelete.mp (retrieving_sub _ _ _ _ he)
  refine wp_sub retrieving_sub (wp_complete.mpr ⟨trivial, trivial, ?_⟩)
  simp only [World.call, hw₂.1, hw₂.2]
  exact ⟨rfl, rfl, by simp⟩

end

/-! ## The agreement -/

section
variable {op : OperationContext} {buffer bytes : List Byte} {source : Ptr} {len : UInt32}

theorem fillCalls_completes_nothing (handle : Option VhfOperationHandle) (status : NTSTATUS) :
    VhfCall.complete handle status ∉ fillCalls op source len := by
  unfold fillCalls
  split <;> simp

theorem writeInto_start {source : List Byte} :
    writeInto buffer 0 source = source ++ buffer.drop source.length := by
  simp [writeInto]

theorem fillCalls_padded (hbuffer : buffer.length = op.hidTransferPacket.reportBufferLen.toNat)
    (hbytes : source.bytes (min len.toNat buffer.length) = bytes.take buffer.length) :
    (fillCalls op source len).foldl (fill op) buffer = padded bytes buffer.length := by
  have hlen : min len.toNat buffer.length = min bytes.length buffer.length := by
    have h := congrArg List.length hbytes
    rw [Ptr.bytes_length, List.length_take] at h
    omega
  have hmin : (min len op.hidTransferPacket.reportBufferLen).toNat = min len.toNat buffer.length := by
    rw [hbuffer, UInt32.toNat_min]
  simp only [fillCalls, List.foldl_cons, fill, if_true, hmin, hbytes, writeInto_start]
  split
  · next hlt =>
    have hlt : len.toNat < buffer.length := hbuffer ▸ UInt32.lt_iff_toNat_lt.mp hlt
    have hfull : bytes.length = len.toNat := by omega
    have hsub : (op.hidTransferPacket.reportBufferLen - len).toNat = buffer.length - len.toNat := by
      rw [UInt32.toNat_sub_of_le _ _ (UInt32.le_iff_toNat_le.mpr (by omega)), hbuffer]
    have hrest : len.toNat + (buffer.length - len.toNat) = buffer.length := by omega
    simp only [List.foldl_cons, List.foldl_nil, fill, if_true, writeInto, hsub, padded,
      List.length_replicate, hrest, hfull]
    have hwritten : (bytes.take buffer.length ++ buffer.drop (bytes.take buffer.length).length).length ≤
        buffer.length := by
      rw [List.length_append, List.length_drop, List.length_take]
      omega
    rw [List.take_left' (by rw [List.length_take]; omega), List.drop_eq_nil_of_le hwritten,
      List.append_nil]
  · next hge =>
    have hge : buffer.length ≤ len.toNat := by
      rw [hbuffer]
      exact UInt32.le_iff_toNat_le.mp (UInt32.not_lt.mp hge)
    have hzero : buffer.length - bytes.length = 0 := by omega
    rw [List.foldl_nil, padded, hzero, List.drop_eq_nil_of_le (by rw [List.length_take]; omega)]
    rfl

end

theorem winUHidCompleteReadEvent_record {stack : Byte} {event : ReadEvent} {bytes : List Byte}
    {dataLength : UInt32} (hm : 1 ≤ event.dataLength.toNat)
    (hbytes : bytes.length = dataLength.toNat) : ∃ len : UInt32,
      winUHidCompleteReadEvent true stack event (some bytes) dataLength =
        readEventRecord event.requestId Status.success len (bytes.take len.toNat) ∧
      len.toNat = min bytes.length event.dataLength.toNat := by
  refine ⟨_, rfl, ?_⟩
  have hne : event.dataLength ≠ 0 := fun h0 => by simp [h0] at hm
  split
  · next hlt =>
    have := UInt32.lt_iff_toNat_lt.mp hlt.2
    omega
  · next hge =>
    have := UInt32.le_iff_toNat_le.mp (UInt32.not_lt.mp fun hlt => hge ⟨hne, hlt⟩)
    omega

theorem winUHidCompleteReadEvent_short {stack : Byte} {event : ReadEvent}
    {data : Option (List Byte)} {dataLength : UInt32} (h : ¬ (data ≠ none ∧ dataLength ≠ 0)) :
    (winUHidCompleteReadEvent true stack event data dataLength).length < sizeofReadEventComplete := by
  cases data with
  | none => rw [winUHidCompleteReadEvent, if_pos rfl, readEventRecord_length]; decide
  | some bytes =>
    obtain rfl : dataLength = 0 := by simpa using h
    rw [winUHidCompleteReadEvent, if_pos rfl, readEventRecord_length,
      if_neg fun hlt => UInt32.not_lt_zero hlt.2]
    simp [sizeofReadEventComplete]

/-- The driver answers the operation with the record of the library, whatever the lengths, but for a
record without a byte of data: a null pointer, or no bytes. -/
theorem read_completion_agrees {w : World} {op : OperationContext} {event : ReadEvent}
    {data : Option (List Byte)} {dataLength : UInt32} {request : Request} (stack : Byte)
    (hopen : w.file.vhfHandle.isSome)
    (hop : w.file.outstandingRequests.find? (·.requestId == event.requestId) = some op)
    (hreal : event.requestId ≠ 0) (hlen : event.dataLength = op.hidTransferPacket.reportBufferLen)
    (hm : 1 ≤ event.dataLength.toNat) (hdata : ∀ bytes ∈ data, bytes.length = dataLength.toNat)
    (hfits : 12 + dataLength.toNat < 2 ^ 32) (hcode : request.code = .completeReadEvent)
    (hinput : request.input = winUHidCompleteReadEvent true stack event data dataLength) :
    (∃ w', Steps retrieving (winUHidEvtIoDeviceControl request) w (.ret ()) w') ∧
      ((∀ w', Steps retrieving (winUHidEvtIoDeviceControl request) w (.ret ()) w' →
        Answered op data w w') ↔ data ≠ none ∧ dataLength ≠ 0) := by
  have hhandler : winUHidEvtIoDeviceControl request = completeReadEvent request := by
    rw [winUHidEvtIoDeviceControl, hcode]
  obtain ⟨⟨⟩, w', hend⟩ := Steps.exists_ret retrieving_total (winUHidEvtIoDeviceControl request) w
  refine ⟨⟨w', hend⟩, fun h => ?_, ?_⟩
  · by_contra hno
    have hshort : request.input.length < sizeofReadEventComplete :=
      hinput ▸ winUHidCompleteReadEvent_short hno
    exact (h w' hend).vhf_ne ((hhandler ▸ hend).post (completeReadEvent_short hshort))
  · rintro ⟨hsome, hpos⟩ w' hs
    obtain ⟨bytes, rfl⟩ := Option.ne_none_iff_exists'.mp hsome
    have hbytes : bytes.length = dataLength.toNat := hdata bytes rfl
    have hpos : 1 ≤ dataLength.toNat := by
      rw [ne_eq, ← UInt32.toNat_inj] at hpos
      exact Nat.one_le_iff_ne_zero.mpr hpos
    obtain ⟨len, hrecord, hmin⟩ := @winUHidCompleteReadEvent_record stack event bytes dataLength hm hbytes
    have hrecord := hinput.trans hrecord
    have htake : (bytes.take len.toNat).length = len.toNat := by
      rw [List.length_take]
      omega
    obtain ⟨hwait, hout, hvhf⟩ := (hhandler ▸ hs).post (completeReadEvent_answers hopen hop hreal
      htake (by omega) (by omega) hrecord)
    have hid : op.requestId = event.requestId := by simpa using List.find?_some hop
    refine ⟨hwait, by rw [hout, hid], _, _, hvhf, fillCalls_completes_nothing, rfl, ?_⟩
    intro buffer hbuffer
    refine fillCalls_padded hbuffer ?_
    have hbuffer : buffer.length = event.dataLength.toNat := by rw [hbuffer, hlen]
    rw [hrecord, readEventRecord_data (by omega), List.take_take]
    rcases Nat.le_total bytes.length buffer.length with hle | hle
    · rw [List.take_of_length_le (by omega), List.take_of_length_le hle]
    · congr 1
      omega

/-- VHF asks for an input report, and the client takes the event. -/
def takenRead : List (Event × List Outcome) :=
  [(.asyncOperation 7 ⟨⟨List.replicate 5 0, 0⟩, 5, 0⟩ .readReport,
      [.made Status.success 1, .ok, .ok, fine, .status Status.notFound]),
    (.ioctl ⟨5, .getNextEvent, [], List.replicate 14 0⟩, [.ok, .tried TryOutcome.fine, .ok])]

def answerRequest (data : Option (List Byte)) (dataLength : UInt32) : Request :=
  ⟨6, .completeReadEvent, winUHidCompleteReadEvent true 0 ⟨0x80000001, 5⟩ data dataLength, []⟩

theorem takenRead_outstanding : ∃ w op, driver.play (createGun ++ takenRead) World.opened = some w ∧
    w.file.vhfHandle.isSome ∧
    w.file.outstandingRequests.find? (·.requestId == 0x80000001) = some op ∧
    op.hidTransferPacket.reportBufferLen = 5 := by
  have hplay : (driver.play (createGun ++ takenRead) World.opened).any (fun w =>
      w.file.vhfHandle.isSome && (w.file.outstandingRequests.find? (·.requestId == 0x80000001)).any
        fun op => op.hidTransferPacket.reportBufferLen == 5) = true := by decide +kernel
  obtain ⟨w, hw, hc⟩ := (Option.any_eq_true _ _).mp hplay
  rw [Bool.and_eq_true] at hc
  obtain ⟨op, hop, hlen⟩ := (Option.any_eq_true _ _).mp hc.2
  exact ⟨w, op, hw, hc.1, hop, by simpa using hlen⟩

/-- Three bytes answer a read of five. -/
theorem read_completion_agrees_three : ∃ w op w',
    Steps retrieving (winUHidEvtIoDeviceControl (answerRequest (some [1, 2, 0]) 3)) w (.ret ()) w' ∧
      Answered op (some [1, 2, 0]) w w' := by
  obtain ⟨w, op, -, hopen, hop, hlen⟩ := takenRead_outstanding
  obtain ⟨⟨w', hs⟩, hiff⟩ := @read_completion_agrees w op ⟨0x80000001, 5⟩ (some [1, 2, 0]) 3
    (answerRequest (some [1, 2, 0]) 3) 0 hopen hop (by decide) hlen.symm (by decide) (by simp)
    (by decide) rfl rfl
  exact ⟨w, op, w', hs, hiff.mpr ⟨by simp, by decide⟩ w' hs⟩

/-- A null pointer is to fail the read. The driver refuses the record, and the read hangs. -/
theorem null_answer_refused : ∃ w op w',
    driver.play (createGun ++ takenRead) World.opened = some w ∧
    w.file.outstandingRequests.find? (·.requestId == 0x80000001) = some op ∧
    Steps retrieving (winUHidEvtIoDeviceControl (answerRequest none 0)) w (.ret ()) w' ∧
      ¬ Answered op none w w' := by
  obtain ⟨w, op, hplay, -, hop, -⟩ := takenRead_outstanding
  obtain ⟨⟨⟩, w', hs⟩ := Steps.exists_ret retrieving_total
    (winUHidEvtIoDeviceControl (answerRequest none 0)) w
  have hshort : (answerRequest none 0).input.length < sizeofReadEventComplete := by decide
  exact ⟨w, op, w', hplay, hop, hs, fun h => h.vhf_ne (hs.post (completeReadEvent_short hshort))⟩

end VirtualGun.Library
