import VirtualGun.Driver.Operations

/-!
# The event a client gets

`TryCompleteGetNextEvent` lays a `WINUHID_EVENT` out with two copies. The header is copied with
`sizeof(eventHeader)` bytes, one more than lie before `Write.Data`, so the copies overlap in one byte.
-/

open VirtualGun.Program

namespace VirtualGun.Driver

/-! ## The record -/

/-- `WINUHID_EVENT`, packed. Both members of the union begin with `DataLength`. -/
structure WinUHidEvent where
  type : UInt32
  requestId : UInt32
  reportId : UInt8
  dataLength : UInt32
  data : Ptr

def WinUHidEvent.decode (output : List Byte) : WinUHidEvent :=
  ⟨u32At output 0, u32At output 4, byteAt output 8, u32At output 9, ⟨output, eventDataOffset⟩⟩

/-! ## The copies -/

structure Copy where
  offset : ℕ
  source : List Byte

namespace Copy

def covers (c : Copy) (i : ℕ) : Bool := c.offset ≤ i && i < c.offset + c.source.length

def fits (c : Copy) (buffer : List Byte) : Prop := c.offset + c.source.length ≤ buffer.length

def apply (c : Copy) (buffer : List Byte) : List Byte :=
  buffer.take c.offset ++ c.source ++ buffer.drop (c.offset + c.source.length)

section
variable {c : Copy} {buffer : List Byte}

theorem apply_length (h : c.fits buffer) : (c.apply buffer).length = buffer.length := by
  unfold fits at h
  simp only [apply, List.length_append, List.length_take, List.length_drop]
  omega

theorem byteAt_apply (h : c.fits buffer) (i : ℕ) :
    byteAt (c.apply buffer) i = if c.covers i then byteAt c.source (i - c.offset) else byteAt buffer i := by
  unfold fits at h
  have hfront : (buffer.take c.offset).length = c.offset := by
    rw [List.length_take]
    omega
  by_cases hi : i < c.offset
  · rw [if_neg (by simp [covers]; omega)]
    simp only [byteAt, apply, List.append_assoc, List.getD_eq_getElem?_getD]
    rw [List.getElem?_append_left (by omega), List.getElem?_take_of_lt hi]
  · by_cases hi' : i < c.offset + c.source.length
    · rw [if_pos (by simp [covers]; omega)]
      simp only [byteAt, apply, List.append_assoc, List.getD_eq_getElem?_getD]
      rw [List.getElem?_append_right (by omega), hfront, List.getElem?_append_left (by omega)]
    · rw [if_neg (by simp [covers]; omega)]
      simp only [byteAt, apply, List.append_assoc, List.getD_eq_getElem?_getD]
      rw [List.getElem?_append_right (by omega), hfront, List.getElem?_append_right (by omega),
        List.getElem?_drop]
      congr 2
      omega

end

end Copy

/-- The bytes of the buffer that at least one of the copies writes. -/
def bytesWritten (copies : List Copy) (buffer : List Byte) : ℕ :=
  (List.range buffer.length).countP fun i => copies.any (·.covers i)

theorem memoryCopyFromBuffer_success {s : NTSTATUS} {buffer source : List Byte} {offset : ℕ}
    (h : ntSuccess (memoryCopyFromBuffer s buffer offset source).1) :
    Copy.fits ⟨offset, source⟩ buffer ∧
      (memoryCopyFromBuffer s buffer offset source).2 = Copy.apply ⟨offset, source⟩ buffer := by
  unfold memoryCopyFromBuffer at h ⊢
  split at h
  · next hs => exact absurd h (by simpa using hs)
  · next hs =>
    rw [if_neg hs]
    split at h
    · next hfits => exact ⟨hfits, by rw [if_pos hfits]; rfl⟩
    · exact absurd h (by simp only [show ntSuccess Status.bufferTooSmall = false from rfl]; decide)

/-- The copies of `TryCompleteGetNextEvent`, in order. -/
def eventCopies (op : OperationContext) (stack : Byte) : List Copy :=
  ⟨0, eventHeader op stack⟩ ::
    if op.type.isWrite then [⟨eventDataOffset, op.hidTransferPacket.report⟩] else []

section
variable {op : OperationContext} {stack : Byte}

theorem eventHeader_length : (eventHeader op stack).length = sizeofEvent := rfl

theorem report_length (p : HidXferPacket) : p.report.length = p.reportBufferLen.toNat := by
  simp [HidXferPacket.report, Ptr.bytes]

/-! ## What a success leaves -/

/-- The output buffer after a success, with the number of bytes the driver says it holds. -/
structure Encoded (op : OperationContext) (stack : Byte) (buffer output : List Byte)
    (information : ℕ) : Prop where
  header : Copy.fits ⟨0, eventHeader op stack⟩ buffer
  data : op.type.isWrite → Copy.fits ⟨eventDataOffset, op.hidTransferPacket.report⟩ buffer
  output : output = (eventCopies op stack).foldl (fun b c => c.apply b) buffer
  information : information =
    if op.type.isWrite then sizeofEvent + op.hidTransferPacket.reportBufferLen.toNat else sizeofEvent

theorem tryCompleteSection_encoded {t : TryOutcome} {buffer : List Byte} {f : FileContext}
    {rest : List OperationContext} (hw : f.waitingRequests = op :: rest)
    (hs : ntSuccess (tryCompleteSection t buffer f).1.status) :
    Encoded op t.stack buffer (tryCompleteSection t buffer f).1.output
      (tryCompleteSection t buffer f).1.bytesTransferred := by
  unfold tryCompleteSection at hs ⊢
  rw [hw] at hs ⊢
  dsimp only at hs ⊢
  by_cases hretrieve : (!ntSuccess t.retrieve) = true
  · rw [if_pos hretrieve] at hs
    exact absurd hs (by simpa using hretrieve)
  rw [if_neg hretrieve] at hs ⊢
  by_cases hheader : (!ntSuccess (memoryCopyFromBuffer t.copyHeader buffer 0 (eventHeader op t.stack)).1) = true
  · rw [if_pos hheader] at hs
    exact absurd hs (by simpa using hheader)
  rw [if_neg hheader] at hs ⊢
  obtain ⟨hfits, hcopy⟩ := memoryCopyFromBuffer_success (by simpa using hheader)
  rw [hcopy] at hs ⊢
  cases hwrite : op.type.isWrite with
  | false =>
    simp only [hwrite, Bool.false_eq_true, if_false] at hs ⊢
    rw [if_neg hheader] at hs ⊢
    have hadd : ¬ (!ntSuccess t.add) = true := by
      intro hadd
      rw [if_pos hadd] at hs
      exact absurd hs (by simpa using hadd)
    rw [if_neg hadd]
    exact ⟨hfits, fun h => absurd h (by simp [hwrite]), by simp [eventCopies, hwrite], by simp [hwrite]⟩
  | true =>
    simp only [hwrite, if_true] at hs ⊢
    have hdata : ¬ (!ntSuccess (memoryCopyFromBuffer t.copyData
        (Copy.apply ⟨0, eventHeader op t.stack⟩ buffer) eventDataOffset op.hidTransferPacket.report).1) = true := by
      intro hdata
      rw [if_pos hdata] at hs
      exact absurd hs (by simpa using hdata)
    rw [if_neg hdata] at hs ⊢
    obtain ⟨hfits', hcopy'⟩ := memoryCopyFromBuffer_success (by simpa using hdata)
    have hadd : ¬ (!ntSuccess t.add) = true := by
      intro hadd
      rw [if_pos hadd] at hs
      exact absurd hs (by simpa using hadd)
    rw [if_neg hadd, hcopy']
    refine ⟨hfits, fun _ => ?_, by simp [eventCopies, hwrite], by simp [hwrite]⟩
    rwa [Copy.fits, Copy.apply_length hfits] at hfits'

/-! ## The bytes it writes -/

/-- The end of what the copies cover. -/
def eventLength (op : OperationContext) : ℕ :=
  if op.type.isWrite then max sizeofEvent (eventDataOffset + op.hidTransferPacket.reportBufferLen.toNat)
  else sizeofEvent

theorem eventCopies_covers (i : ℕ) :
    (eventCopies op stack).any (·.covers i) = decide (i < eventLength op) := by
  cases hwrite : op.type.isWrite with
  | false => simp [eventCopies, eventLength, hwrite, Copy.covers, eventHeader_length]
  | true =>
    simp only [eventCopies, eventLength, hwrite, if_true, List.any_cons, List.any_nil, Copy.covers,
      eventHeader_length, report_length, sizeofEvent, eventDataOffset]
    rw [Bool.eq_iff_iff]
    simp
    omega

theorem countP_range_lt {m n : ℕ} (h : m ≤ n) : (List.range n).countP (fun i => decide (i < m)) = m := by
  induction n with
  | zero => simp_all
  | succ n ih =>
    rw [List.range_succ, List.countP_append]
    by_cases hm : m ≤ n
    · rw [ih hm]
      simp [hm]
    · obtain rfl : m = n + 1 := by omega
      rw [List.countP_eq_length.mpr (by simp; omega)]
      simp

theorem Encoded.eventLength_le {buffer output : List Byte} {information : ℕ}
    (h : Encoded op stack buffer output information) : eventLength op ≤ buffer.length := by
  have hheader := h.header
  have hdata := h.data
  simp only [Copy.fits, eventHeader_length, report_length] at hheader hdata
  unfold eventLength
  split
  · next hwrite =>
    have := hdata hwrite
    omega
  · omega

theorem Encoded.written {buffer output : List Byte} {information : ℕ}
    (h : Encoded op stack buffer output information) :
    bytesWritten (eventCopies op stack) buffer = eventLength op := by
  unfold bytesWritten
  simp only [eventCopies_covers]
  exact countP_range_lt h.eventLength_le

/-! ## What the client decodes -/

theorem u32At_congr {b b' : List Byte} {i : ℕ} (h : ∀ j < 4, byteAt b (i + j) = byteAt b' (i + j)) :
    u32At b i = u32At b' i := by
  unfold u32At u16At
  rw [h 1 (by omega), h 2 (by omega), show byteAt b i = byteAt b' i from h 0 (by omega),
    Nat.add_assoc, h 3 (by omega)]

theorem Encoded.byteAt_header {buffer output : List Byte} {information : ℕ}
    (h : Encoded op stack buffer output information) {i : ℕ} (hi : i < eventDataOffset) :
    byteAt output i = byteAt (eventHeader op stack) i := by
  have hheader : byteAt (Copy.apply ⟨0, eventHeader op stack⟩ buffer) i =
      byteAt (eventHeader op stack) i := by
    rw [Copy.byteAt_apply h.header, if_pos]
    · rfl
    · simp only [Copy.covers, eventHeader_length, sizeofEvent, eventDataOffset] at hi ⊢
      simp
      omega
  rw [h.output, eventCopies, List.foldl_cons]
  split
  · next hwrite =>
    have hdata := h.data hwrite
    rw [Copy.fits, ← Copy.apply_length h.header] at hdata
    rw [List.foldl_cons, List.foldl_nil, Copy.byteAt_apply hdata, if_neg]
    · exact hheader
    · simp [Copy.covers]
      omega
  · exact hheader

theorem Encoded.decode {buffer output : List Byte} {information : ℕ}
    (h : Encoded op stack buffer output information) :
    WinUHidEvent.decode output = ⟨op.type.value, op.requestId, op.hidTransferPacket.reportId,
      op.hidTransferPacket.reportBufferLen, ⟨output, eventDataOffset⟩⟩ := by
  have hfield {i : ℕ} (hi : i + 4 ≤ eventDataOffset) : u32At output i = u32At (eventHeader op stack) i :=
    u32At_congr fun j hj => h.byteAt_header (by omega)
  have htype := u32At_u32Bytes [] (u32Bytes op.requestId ++ ([op.hidTransferPacket.reportId] ++
    (u32Bytes op.hidTransferPacket.reportBufferLen ++ [stack]))) op.type.value
  have hid := u32At_u32Bytes (u32Bytes op.type.value) ([op.hidTransferPacket.reportId] ++
    (u32Bytes op.hidTransferPacket.reportBufferLen ++ [stack])) op.requestId
  have hlength := u32At_u32Bytes (u32Bytes op.type.value ++ u32Bytes op.requestId ++
    [op.hidTransferPacket.reportId]) [stack] op.hidTransferPacket.reportBufferLen
  unfold WinUHidEvent.decode
  rw [hfield (i := 0) (by decide), hfield (i := 4) (by decide), hfield (i := 9) (by decide),
    h.byteAt_header (i := 8) (by decide), WinUHidEvent.mk.injEq]
  simp only [eventHeader, List.append_assoc] at htype hid hlength ⊢
  exact ⟨htype, hid, rfl, hlength, trivial⟩

theorem Encoded.report {buffer output : List Byte} {information : ℕ}
    (h : Encoded op stack buffer output information) (hwrite : op.type.isWrite) :
    Ptr.bytes ⟨output, eventDataOffset⟩ op.hidTransferPacket.reportBufferLen.toNat =
      op.hidTransferPacket.report := by
  have hdata := h.data hwrite
  rw [Copy.fits, ← Copy.apply_length h.header] at hdata
  have hlength := report_length op.hidTransferPacket
  apply List.ext_getElem
  · simp [Ptr.bytes, hlength]
  · intro i hi hi'
    simp only [Ptr.bytes, List.getElem_map, List.getElem_range]
    rw [h.output, eventCopies, if_pos hwrite, List.foldl_cons, List.foldl_cons, List.foldl_nil,
      Copy.byteAt_apply hdata, if_pos (by simp [Copy.covers]; omega)]
    simp [byteAt, hi']

theorem Encoded.output_length {buffer output : List Byte} {information : ℕ}
    (h : Encoded op stack buffer output information) : output.length = buffer.length := by
  rw [h.output, eventCopies, List.foldl_cons]
  split
  · next hwrite =>
    have hdata := h.data hwrite
    rw [Copy.fits, ← Copy.apply_length h.header] at hdata
    rw [List.foldl_cons, List.foldl_nil, Copy.apply_length hdata, Copy.apply_length h.header]
  · exact Copy.apply_length h.header

/-! ## A request that is completed -/

/-- The completed request holds the operation, and its count is the count of the bytes written. -/
structure ExactEvent (op : OperationContext) (buffer : List Byte) (c : Completion) : Prop where
  type : (WinUHidEvent.decode c.output).type = op.type.value
  requestId : (WinUHidEvent.decode c.output).requestId = op.requestId
  reportId : (WinUHidEvent.decode c.output).reportId = op.hidTransferPacket.reportId
  dataLength : (WinUHidEvent.decode c.output).dataLength = op.hidTransferPacket.reportBufferLen
  data : op.type.isWrite → (WinUHidEvent.decode c.output).data.bytes
    op.hidTransferPacket.reportBufferLen.toNat = op.hidTransferPacket.report
  covers : op.type.isWrite → (WinUHidEvent.decode c.output).data.covers
    op.hidTransferPacket.reportBufferLen.toNat
  written : ∃ stack, c.output = (eventCopies op stack).foldl (fun b copy => copy.apply b) buffer ∧
    c.information = bytesWritten (eventCopies op stack) buffer
  fits : c.information ≤ buffer.length

theorem Encoded.exactEvent_iff {buffer : List Byte} {c : Completion}
    (h : Encoded op stack buffer c.output c.information) :
    ExactEvent op buffer c ↔ (op.type.isWrite → op.hidTransferPacket.reportBufferLen = 0) := by
  have hinformation := h.information
  constructor
  · intro he hwrite
    obtain ⟨stack', -, hcount⟩ := he.written
    have hlength : bytesWritten (eventCopies op stack') buffer = eventLength op := by
      unfold bytesWritten
      simp only [eventCopies_covers]
      exact countP_range_lt h.eventLength_le
    rw [hcount, hlength, if_pos hwrite, eventLength, if_pos hwrite, sizeofEvent, eventDataOffset]
      at hinformation
    apply UInt32.toNat_inj.mp
    rw [UInt32.toNat_zero]
    omega
  · intro hlen
    have hlength : c.information = eventLength op := by
      rw [hinformation, eventLength]
      split
      · next hwrite => rw [hlen hwrite]; rfl
      · rfl
    have hdecode := h.decode
    refine ⟨by rw [hdecode], by rw [hdecode], by rw [hdecode], by rw [hdecode], fun hwrite => ?_,
      fun hwrite => ?_, ⟨stack, h.output, hlength.trans h.written.symm⟩, ?_⟩
    · exact h.report hwrite
    · have hdata := h.data hwrite
      rw [Copy.fits, report_length] at hdata
      simpa only [Ptr.covers, hdecode, h.output_length] using hdata
    · rw [hlength]
      exact h.eventLength_le

variable {request : Request} {w w' : World} {c : Completion} {rest : List OperationContext}

theorem tryCompleteGetNextEvent_run (request : Request) (w : World) :
    wp exec (fun _ => True)
      (fun r w' => r = true → ∃ t, ∃ x, x = (tryCompleteSection t request.output w.file).1 ∧
        w'.completed = w.completed ++
          [⟨request, x.status, if ntSuccess x.status then x.bytesTransferred else 0, x.output⟩])
      (tryCompleteGetNextEvent request) w := by
  simp only [tryCompleteGetNextEvent, perform, Prog.perform_bind]
  refine ⟨trivial, fun o r v he => ?_⟩
  obtain ⟨t, -, rfl, rfl⟩ := exec_tryComplete.mp he
  apply wp_ite
  · exact fun _ => wp_complete.mpr ⟨trivial, trivial, fun _ => ⟨t, _, rfl, rfl⟩⟩
  · exact fun hnot => ⟨trivial, fun hr => absurd hr hnot⟩

theorem tryCompleteGetNextEvent_encoded (hw : w.file.waitingRequests = op :: rest)
    (hs : Steps exec (tryCompleteGetNextEvent request) w (.ret true) w')
    (hc : w'.completed = w.completed ++ [c]) (hok : ntSuccess c.status) :
    ∃ stack, Encoded op stack request.output c.output c.information := by
  obtain ⟨t, x, rfl, hx⟩ := hs.post (tryCompleteGetNextEvent_run request w) rfl
  obtain rfl := List.singleton_inj.mp (List.append_cancel_left (hx.symm.trans hc))
  refine ⟨t.stack, ?_⟩
  rw [if_pos hok]
  exact tryCompleteSection_encoded hw hok

/-- What `TryCompleteGetNextEvent` hands out is exact unless it carries report bytes: then the count
is one more than the bytes it wrote. -/
theorem event_encoding_exact (hw : w.file.waitingRequests = op :: rest)
    (hs : Steps exec (tryCompleteGetNextEvent request) w (.ret true) w')
    (hc : w'.completed = w.completed ++ [c]) (hok : ntSuccess c.status) :
    ExactEvent op request.output c ↔ (op.type.isWrite → op.hidTransferPacket.reportBufferLen = 0) := by
  obtain ⟨stack, h⟩ := tryCompleteGetNextEvent_encoded hw hs hc hok
  exact h.exactEvent_iff

end

/-- A handle on which one operation waits. -/
def waitingFor (op : OperationContext) : World :=
  { World.opened with file := { FileContext.created with waitingRequests := [op] } }

def readReportOp : OperationContext := ⟨0, .readReport, 0x80000001, some 0, ⟨⟨[0, 0, 0, 0, 0], 0⟩, 5, 0⟩⟩

def writeReportOp : OperationContext := { readReportOp with type := .writeReport }

/-- `GET_NEXT_EVENT` with an output buffer of `n` bytes. -/
def getNextEventRequest (n : ℕ) : Request := ⟨0, .getNextEvent, [], List.replicate n 0⟩

theorem event_encoding_exact_read :
    ∃ w' c, Steps exec (tryCompleteGetNextEvent (getNextEventRequest 14)) (waitingFor readReportOp) (.ret true) w' ∧
      ExactEvent readReportOp (getNextEventRequest 14).output c := by
  have hs : Steps exec (tryCompleteGetNextEvent (getNextEventRequest 14)) (waitingFor readReportOp) (.ret true) _ :=
    .call (o := .tried .fine) rfl (.call (o := .ok) rfl .refl)
  exact ⟨_, _, hs, (event_encoding_exact rfl hs rfl rfl).mpr fun h => absurd h (by decide)⟩

/-- A buffer that a write event of five report bytes fits exactly: 18 bytes, counted as 19. -/
theorem event_encoding_overcounts :
    ∃ w' c, Steps exec (tryCompleteGetNextEvent (getNextEventRequest 18)) (waitingFor writeReportOp) (.ret true) w' ∧
      w'.completed = [c] ∧ ntSuccess c.status ∧ c.output.length = 18 ∧ c.information = 19 ∧
      ¬ ExactEvent writeReportOp (getNextEventRequest 18).output c := by
  have hs : Steps exec (tryCompleteGetNextEvent (getNextEventRequest 18)) (waitingFor writeReportOp) (.ret true) _ :=
    .call (o := .tried .fine) rfl (.call (o := .ok) rfl .refl)
  refine ⟨_, _, hs, rfl, rfl, rfl, rfl, fun h => ?_⟩
  exact absurd h.fits (by decide)

end VirtualGun.Driver
