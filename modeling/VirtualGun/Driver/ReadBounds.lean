import VirtualGun.Driver.Plain
import VirtualGun.Program.Interference

/-!
# The bounds of a read completion

`COMPLETE_READ_EVENT` compares the length of the input buffer with a `ULONG` sum, and then trusts
`DataLength`. Other threads may do anything to the handle between its calls.
-/

open VirtualGun.Program

namespace VirtualGun.Driver

/-- Others may leave the handle in any state before each call. -/
abbrev sharing : Exec Call Call.Resp (List World × Outcome) World := exec.amid fun v _ => some v

/-- What a completion uses of its input lies in it, and a report buffer keeps its length. The operation
is looked up past the checks of the sizes. -/
def Call.inside (input : List Byte) : Call → Prop
  | .takeOutstandingRequestById _ =>
    (ReadEventComplete.decode input).data.covers (ReadEventComplete.decode input).dataLength.toNat
  | .vhfReadReportSubmit _ packet =>
    packet.reportBuffer.mem = input ∧ packet.reportBuffer.covers packet.reportBufferLen.toNat ∧
      (packet.reportId = 0 ∨
        packet.reportBuffer.covers 1 ∧ packet.reportId = byteAt input packet.reportBuffer.offset)
  | .rtlCopyMemory op source len =>
    source.mem = input ∧ source.covers len ∧ len ≤ op.hidTransferPacket.reportBufferLen.toNat
  | .rtlZeroMemory op offset len => offset + len ≤ op.hidTransferPacket.reportBufferLen.toNat
  | _ => True

/-- Whatever a completion begun in `w` comes to call stays inside its input. -/
def StaysInside (request : Request) (w : World) : Prop :=
  ∀ p v c, Steps sharing (completeReadEvent request) w p v → p.next? = some c → c.inside request.input

/-! ## The calls of a completion -/

section
variable {request : Request} {input : List Byte} {α : Type}

abbrev Inside {α : Type} (input : List Byte) (p : Handler α) : Prop :=
  p.Calls (Call.inside input) fun _ _ => True

theorem Plain.inside {p : Handler α} (h : Plain p) : Inside input p := by
  refine Prog.calls_mono (fun c hc => ?_) (fun _ _ _ => trivial) h
  cases c with
  | takeOutstandingRequestById | vhfReadReportSubmit | rtlCopyMemory | rtlZeroMemory => exact hc.elim
  | _ => trivial

theorem wdfRequestComplete_inside {s : NTSTATUS} : Inside input (wdfRequestComplete request s) :=
  wdfRequestComplete_plain.inside

theorem winUHidEvtVhfReadyForNextReadReport_inside : Inside input winUHidEvtVhfReadyForNextReadReport := by
  simp only [winUHidEvtVhfReadyForNextReadReport, dispatchAsyncOperation, perform, Prog.perform_bind]
  refine ⟨trivial, fun r _ => Prog.calls_ite (fun _ => trivial) fun _ => ?_⟩
  simp only [queueOperation, perform, Prog.perform_bind]
  refine ⟨trivial, fun q _ => ?_⟩
  cases q with
  | queued => exact serviceWaitingRequest_plain.inside
  | tooLate | failed => exact ⟨trivial, fun _ _ => trivial⟩

theorem answerReadyForRead_inside {r : ReadEventComplete} (hmem : r.data.mem = input)
    (hdata : r.data.covers r.dataLength.toNat) : Inside input (answerReadyForRead r) := by
  simp only [answerReadyForRead, perform, Prog.perform_bind]
  refine Prog.calls_ite (fun hb => ⟨trivial, fun f _ => ⟨⟨hmem, hdata, ?_⟩, fun _ _ => trivial⟩⟩) fun _ =>
    Prog.calls_ite (fun _ => ?_) fun _ => trivial
  · split
    · right
      refine ⟨?_, by rw [hmem]⟩
      have hpos : r.dataLength.toNat ≠ 0 := by
        intro h
        have hzero : r.dataLength = 0 := UInt32.toNat_inj.mp h
        simp [hzero] at hb
      have hdata : r.data.offset + r.dataLength.toNat ≤ r.data.mem.length := hdata
      show r.data.offset + 1 ≤ r.data.mem.length
      omega
    · exact .inl rfl
  · exact Prog.calls_bind winUHidEvtVhfReadyForNextReadReport_inside fun _ => trivial

theorem fillReportBuffer_inside {op : OperationContext} {r : ReadEventComplete} (hmem : r.data.mem = input)
    (hdata : r.data.covers r.dataLength.toNat) : Inside input (fillReportBuffer op r) := by
  simp only [fillReportBuffer, perform, Prog.perform_bind]
  refine ⟨⟨hmem, ?_, ?_⟩, fun _ _ => Prog.calls_ite (fun hlt => ⟨?_, fun _ _ => trivial⟩) fun _ => trivial⟩
  · unfold Ptr.covers at hdata ⊢
    rw [UInt32.toNat_min]
    omega
  · rw [UInt32.toNat_min]
    omega
  · have hlt := UInt32.lt_iff_toNat_lt.mp hlt
    unfold Call.inside
    rw [UInt32.toNat_sub_of_le _ _ (UInt32.le_iff_toNat_le.mpr (by omega))]
    omega

/-- The end of the data, as a number. -/
def dataEnd (request : Request) : ℕ :=
  readEventCompleteDataOffset.toNat + (ReadEventComplete.decode request.input).dataLength.toNat

theorem checked_eq : (readEventCompleteDataOffset + (ReadEventComplete.decode request.input).dataLength).toNat =
    dataEnd request % 2 ^ 32 :=
  UInt32.toNat_add _ _

theorem sharing_retrieveInput {length minimum : ℕ} {s : NTSTATUS}
    (h : sharing.Answers (.wdfRequestRetrieveInputBuffer length minimum) s) : ntSuccess s → minimum ≤ length := by
  obtain ⟨o, w, w', he⟩ := h
  obtain ⟨v, -, he⟩ := Exec.amid_eq_some.mp he
  exact (exec_retrieveInput.mp he).2.1

theorem Inside.answers {p : Handler α} (h : Inside input p) : p.Calls (Call.inside input) sharing.Answers :=
  Prog.calls_mono (fun _ hc => hc) (fun _ _ _ => trivial) h

/-- All depends on what the two checks of the sizes say. -/
theorem completeReadEvent_inside
    (h : sizeofReadEventComplete ≤ request.input.length → dataEnd request % 2 ^ 32 ≤ request.input.length →
      dataEnd request ≤ request.input.length) :
    (completeReadEvent request).Calls (Call.inside request.input) sharing.Answers := by
  have hfail {s : NTSTATUS} : (wdfRequestComplete request s).Calls (Call.inside request.input) sharing.Answers :=
    wdfRequestComplete_inside.answers
  simp only [completeReadEvent, perform, Prog.perform_bind]
  refine ⟨trivial, fun f _ => Prog.calls_ite (fun _ => hfail) fun _ => ⟨trivial, fun s hs =>
    Prog.calls_ite (fun _ => hfail) fun hok => Prog.calls_ite (fun _ => hfail) fun hcheck => ?_⟩⟩
  have hlength := sharing_retrieveInput hs (by simpa using hok)
  rw [checked_eq] at hcheck
  have hdata := h hlength (by omega)
  refine ⟨hdata, fun r _ => ?_⟩
  cases r with
  | none => exact hfail
  | some op =>
    have hend {status : NTSTATUS} : Inside request.input
        (.call (.wdfObjectDelete op.object) fun _ => wdfRequestComplete request status) :=
      ⟨trivial, fun _ _ => wdfRequestComplete_inside⟩
    apply Inside.answers
    refine Prog.calls_ite (fun _ => Prog.calls_bind (answerReadyForRead_inside rfl hdata) fun _ => hend)
      fun _ => Prog.calls_ite (fun _ => Prog.calls_bind (fillReportBuffer_inside rfl hdata) fun _ => ?_)
      fun _ => ?_
    · exact ⟨trivial, fun _ _ => hend⟩
    · exact ⟨trivial, fun _ _ => hend⟩

/-! ## The sum -/

/-- A record that the checks let through is looked up, on a handle that another thread has opened. -/
theorem completeReadEvent_looksUp {w : World} (hlength : sizeofReadEventComplete ≤ request.input.length)
    (hsum : dataEnd request % 2 ^ 32 ≤ request.input.length) :
    ∃ p v, Steps sharing (completeReadEvent request) w p v ∧
      p.next? = some (.takeOutstandingRequestById (ReadEventComplete.decode request.input).requestId) := by
  have hpast : ¬ request.input.length <
      (readEventCompleteDataOffset + (ReadEventComplete.decode request.input).dataLength).toNat := by
    rw [checked_eq]
    omega
  have hretrieve (v : World) : sharing (.wdfRequestRetrieveInputBuffer request.input.length sizeofReadEventComplete)
      ([], .status Status.success) v = some (Status.success, v) :=
    Exec.amid_eq_some.mpr ⟨v, rfl, exec_retrieveInput.mpr ⟨rfl, fun _ => hlength, rfl⟩⟩
  let opened : World := { World.opened with file := { FileContext.created with vhfHandle := some 0 } }
  have hread : sharing .readContext ([opened], .ok) w = some (opened.file, opened) := rfl
  simp only [completeReadEvent, perform, Prog.perform_bind]
  refine ⟨?_, opened, .call hread ?_, ?_⟩
  rotate_left
  · rw [if_neg (by decide)]
    refine .call (hretrieve opened) ?_
    rw [if_neg (by decide), if_neg hpast]
    exact .refl
  · rfl

/-- The data of every completion that passes the checks lies in its buffer, unless the sum wraps: a
record is then let through that ends far behind the buffer. -/
theorem read_completion_inside (request : Request) (w : World) :
    StaysInside request w ↔
      (request.input.length < sizeofReadEventComplete ∨ dataEnd request < 2 ^ 32 ∨
        dataEnd request ≤ request.input.length) := by
  constructor
  · intro h
    by_contra hno
    push Not at hno
    obtain ⟨hlength, hwrap, hend⟩ := hno
    -- the sum is less than the 13 bytes of the smallest record
    have hsmall : dataEnd request % 2 ^ 32 ≤ request.input.length := by
      have := (ReadEventComplete.decode request.input).dataLength.toNat_lt
      rw [sizeofReadEventComplete] at hlength
      rw [dataEnd, show readEventCompleteDataOffset.toNat = 12 from rfl] at hwrap ⊢
      omega
    obtain ⟨p, v, hs, hnext⟩ := completeReadEvent_looksUp (w := w) hlength hsmall
    have hdata : dataEnd request ≤ request.input.length := h p v _ hs hnext
    omega
  · intro h p v c hs hc
    refine hs.meets (meets_of_answers (completeReadEvent_inside fun hlength hsum => ?_) w) hc
    rcases h with h | h | h
    · omega
    · rwa [Nat.mod_eq_of_lt h] at hsum
    · exact h

end

/-- A read of five bytes that waits for its answer. -/
def outstandingRead : OperationContext := ⟨0, .readReport, 0x80000001, some 0, ⟨⟨List.replicate 5 0, 0⟩, 5, 0⟩⟩

def awaitingAnswer : World :=
  { World.opened with
    file := { FileContext.created with vhfHandle := some 0, outstandingRequests := [outstandingRead] } }

/-- A record of 13 bytes whose `DataLength` is 2^32 - 12. -/
def wrappingRecord : List Byte :=
  u32Bytes 0x80000001 ++ u32Bytes Status.success ++ u32Bytes 0xFFFFFFF4 ++ [0]

/-- Five bytes are copied from a buffer that holds one. -/
theorem read_completion_wraps :
    ∃ p v, Steps sharing (completeReadEvent ⟨0, .completeReadEvent, wrappingRecord, []⟩) awaitingAnswer p v ∧
      p.next? = some (.rtlCopyMemory outstandingRead ⟨wrappingRecord, 12⟩ 5) ∧
      ¬ (Ptr.mk wrappingRecord 12).covers 5 ∧
      ¬ StaysInside ⟨0, .completeReadEvent, wrappingRecord, []⟩ awaitingAnswer := by
  have hs : Steps sharing (completeReadEvent ⟨0, .completeReadEvent, wrappingRecord, []⟩) awaitingAnswer _ _ :=
    .call (o := ([], .ok)) rfl (.call (o := ([], .status Status.success)) rfl
      (.call (o := ([], .ok)) rfl .refl))
  have hcovers : ¬ (Ptr.mk wrappingRecord 12).covers 5 := by
    unfold Ptr.covers
    decide
  exact ⟨_, _, hs, rfl, hcovers, fun h => hcovers (h _ _ _ hs rfl).2.1⟩

end VirtualGun.Driver
