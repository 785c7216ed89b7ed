import VirtualGun.Driver.Rights

/-!
# Only mouse input is served

The lightgun's descriptor has one report: an input report without an ID. So whatever VHF calls back
for, a client is asked for that report and for nothing else.
-/

open VirtualGun.Program

namespace VirtualGun.Driver

/-! ## The format of the reports -/

theorem gunFormat_numbered : gunFormat.numberedReports = false := by decide +kernel

theorem gunFormat_sizes (id : UInt8) :
    gunFormat.reportSizes id = if id = 0 then ⟨5, 0, 0⟩ else HidReportSize.zero := by
  have h : ∀ n : Fin 256, gunFormat.reportSizes (UInt8.ofFin n) =
      if UInt8.ofFin n = 0 then ⟨5, 0, 0⟩ else HidReportSize.zero := by decide +kernel
  exact h id.toFin

/-- The format is the lightgun's, or none is set yet. -/
structure Formatted (f : FileContext) : Prop where
  sizes : SizesOk f.reportSizes
  numbered : f.numberedReports = false

theorem Configures.formatted {c : FileContext → FileContext} (hc : Configures c) {f : FileContext}
    (hf : Formatted f) : Formatted (c f) := by
  rcases hc.format f with ⟨hs, hn⟩ | ⟨hs, hn⟩
  · exact ⟨hs ▸ hf.sizes, hn ▸ hf.numbered⟩
  · exact ⟨.inl hs, hn.trans gunFormat_numbered⟩

/-- A callback for anything but the input report. -/
def Refused (packet : HidXferPacket) (type : EventType) : Prop :=
  type ≠ .readReport ∨ packet.reportId ≠ 0

theorem reportSize_of_refused {sizes : UInt8 → HidReportSize} {packet : HidXferPacket}
    {type : EventType} (hs : SizesOk sizes) (h : Refused packet type) :
    reportSizeOf (sizes packet.reportId) type = 0 := by
  rcases hs with rfl | rfl
  · rw [show gunSizes = gunFormat.reportSizes from rfl, gunFormat_sizes]
    rcases h with h | h
    · cases type <;> first | contradiction | split <;> rfl
    · rw [if_neg h]
      cases type <;> rfl
  · cases type <;> rfl

theorem reportSize_le {sizes : UInt8 → HidReportSize} {id : UInt8} (hs : SizesOk sizes) :
    (reportSizeOf (sizes id) .readReport).toNat ≤ vgunReportBytes := by
  rcases hs with rfl | rfl
  · rw [show gunSizes = gunFormat.reportSizes from rfl, gunFormat_sizes]
    split <;> decide
  · exact Nat.zero_le _

/-! ## What is served -/

/-- The operation is a ready-for-read pseudo-request, or a read of the input report that VHF asked
for. -/
def Served (issued : List (VhfOperationHandle × HidXferPacket × EventType))
    (op : OperationContext) : Prop :=
  op.type = .readReport ∧
    (op.requestId = 0 ∧ op.handle = none ∨
      ∃ handle packet, op.handle = some handle ∧ (handle, packet, .readReport) ∈ issued ∧
        packet.reportId = 0 ∧ op.hidTransferPacket.reportId = 0 ∧
        op.hidTransferPacket.reportBufferLen.toNat ≤ vgunReportBytes ∧
        op.hidTransferPacket.reportBufferLen ≤ packet.reportBufferLen)

/-- Input reports carry no ID, and a refused operation is completed as refused. -/
def VhfCall.Mouse (issued : List (VhfOperationHandle × HidXferPacket × EventType)) : VhfCall → Prop
  | .submit _ packet _ => packet.reportId = 0
  | .complete handle status => ∀ h, handle = some h → ∃ packet type, (h, packet, type) ∈ issued ∧
      (Refused packet type → status = Status.unsuccessful)
  | _ => True

structure MouseInv (w : World) : Prop where
  formatted : Formatted w.file
  waiting : ∀ op ∈ w.file.waitingRequests, Served w.issued op
  outstanding : ∀ op ∈ w.file.outstandingRequests, Served w.issued op
  calls : ∀ call ∈ w.vhf, call.Mouse w.issued
  issued : (w.issued.map (·.1)).Nodup

section
variable {issued issued' : List (VhfOperationHandle × HidXferPacket × EventType)}
  {op : OperationContext}

theorem Served.mono (hi : issued ⊆ issued') (h : Served issued op) : Served issued' op := by
  refine ⟨h.1, h.2.imp_right ?_⟩
  rintro ⟨handle, packet, hh, hmem, hrest⟩
  exact ⟨handle, packet, hh, hi hmem, hrest⟩

theorem VhfCall.Mouse.mono {call : VhfCall} (hi : issued ⊆ issued') (h : call.Mouse issued) :
    call.Mouse issued' := by
  cases call with
  | complete handle status =>
    intro k hk
    obtain ⟨packet, type, hmem, hs⟩ := h k hk
    exact ⟨packet, type, hi hmem, hs⟩
  | _ => exact h

theorem Served.complete (h : Served issued op) (status : NTSTATUS) :
    (VhfCall.complete op.handle status).Mouse issued := by
  intro k hk
  rcases h.2 with ⟨-, hh⟩ | ⟨handle, packet, hh, hmem, hid, -⟩
  · cases hh ▸ hk
  · obtain rfl : handle = k := Option.some.inj (hh ▸ hk)
    exact ⟨packet, .readReport, hmem, fun hr => hr.elim (absurd rfl) (absurd hid)⟩

end

/-! ## One call -/

/-- What a handler makes sure of before a call. -/
def mousePre : Call → World → Prop
  | .modifyContext f, _ => Configures f
  | .queueSection op, w => Served w.issued op
  | .vhfReadReportSubmit _ packet, _ => packet.reportId = 0
  | .vhfAsyncOperationComplete handle status, w => (VhfCall.complete handle status).Mouse w.issued
  | _, _ => True

def mouseContract : Contract Event Call Outcome World where
  inv := MouseInv
  rely w w' := w.issued ⊆ w'.issued
  pre _ := mousePre
  may _ _ _ _ := True

section
variable {c : Call} {o : Outcome} {r : c.Resp} {w w' : World}

theorem MouseInv.file {f : FileContext} (h : MouseInv w) (hf : Formatted f)
    (hw : ∀ op ∈ f.waitingRequests, Served w.issued op)
    (ho : ∀ op ∈ f.outstandingRequests, Served w.issued op) : MouseInv { w with file := f } :=
  ⟨hf, hw, ho, h.calls, h.issued⟩

theorem MouseInv.call (h : MouseInv w) {call : VhfCall} (hc : call.Mouse w.issued) :
    MouseInv (w.call call) := by
  refine ⟨h.formatted, h.waiting, h.outstanding, fun call' hmem => ?_, h.issued⟩
  rcases List.mem_append.mp hmem with hmem | hmem
  · exact h.calls call' hmem
  · exact List.mem_singleton.mp hmem ▸ hc

theorem rundown_mouse (h : MouseInv w) : MouseInv w.afterRundown := by
  refine ⟨⟨h.formatted.sizes, h.formatted.numbered⟩, nofun, nofun, fun call hmem => ?_, h.issued⟩
  have hops {ops : List OperationContext} (ho : ∀ op ∈ ops, Served w.issued op) :
      ∀ call ∈ ops.filterMap rundownCall, call.Mouse w.issued := by
    intro call hcall
    obtain ⟨op, hop, hr⟩ := List.mem_filterMap.mp hcall
    simp only [rundownCall, Option.ite_none_right_eq_some, Option.some.injEq] at hr
    exact hr.2 ▸ (ho op hop).complete _
  simp only [World.afterRundown, VirtualGun.Driver.rundownSection, List.mem_append] at hmem
  rcases hmem with hmem | hmem | hmem
  · exact h.calls call hmem
  · exact hops h.waiting call hmem
  · exact hops h.outstanding call hmem

theorem mouse_call (h : MouseInv w) (hpre : mousePre c w) (he : exec c o w = some (r, w')) :
    MouseInv w' := by
  cases c with
  | modifyContext f =>
    obtain ⟨-, rfl⟩ := exec_modifyContext.mp he
    refine h.file (Configures.formatted hpre h.formatted) ?_ ?_
    · rw [Configures.waitingRequests hpre]
      exact h.waiting
    · rw [Configures.outstandingRequests hpre]
      exact h.outstanding
  | interlockedIncrement =>
    obtain ⟨-, -, rfl⟩ := exec_increment.mp he
    exact h.file ⟨h.formatted.sizes, h.formatted.numbered⟩ h.waiting h.outstanding
  | storeLastReport report =>
    obtain ⟨-, rfl⟩ := exec_storeLastReport.mp he
    exact h.file ⟨h.formatted.sizes, h.formatted.numbered⟩ h.waiting h.outstanding
  | queueSection op =>
    obtain ⟨add, -, -, rfl⟩ := exec_queueSection.mp he
    rcases queueSection_cases op add w.file with ⟨-, hf⟩ | ⟨-, -, hf⟩ <;> rw [hf]
    · exact ⟨h.formatted, h.waiting, h.outstanding, h.calls, h.issued⟩
    · refine ⟨⟨h.formatted.sizes, h.formatted.numbered⟩, fun op' hmem => ?_, h.outstanding, h.calls,
        h.issued⟩
      rcases List.mem_append.mp hmem with hmem | hmem
      · exact h.waiting op' hmem
      · exact List.mem_singleton.mp hmem ▸ hpre
  | tryCompleteSection request =>
    obtain ⟨t, -, -, rfl⟩ := exec_tryComplete.mp he
    rcases tryCompleteSection_cases t request.output w.file with ⟨-, hf⟩ | ⟨-, op, rest, hw, hf⟩ <;>
      rw [hf]
    · exact ⟨h.formatted, h.waiting, h.outstanding, h.calls, h.issued⟩
    · have hwait := h.waiting
      rw [hw] at hwait
      refine ⟨⟨h.formatted.sizes, h.formatted.numbered⟩,
        fun op' hmem => hwait op' (List.mem_cons_of_mem _ hmem), fun op' hmem => ?_, h.calls, h.issued⟩
      rcases List.mem_append.mp hmem with hmem | hmem
      · exact h.outstanding op' hmem
      · exact List.mem_singleton.mp hmem ▸ hwait op List.mem_cons_self
  | takeOutstandingRequestById id =>
    obtain ⟨-, -, rfl⟩ := exec_take.mp he
    exact h.file ⟨h.formatted.sizes, h.formatted.numbered⟩ h.waiting
      fun op hop => h.outstanding op (takeOutstandingRequestById_mem hop)
  | rundownSection =>
    obtain ⟨-, -, rfl⟩ := exec_rundown.mp he
    exact rundown_mouse h
  | vhfCreate =>
    obtain ⟨handle, -, rfl⟩ := exec_create.mp he
    have hcall : MouseInv (w.call (.create w.file.vhfConfig w.file.vhfHandle.isSome r)) := h.call trivial
    simp only [World.created]
    split
    · exact hcall.file ⟨h.formatted.sizes, h.formatted.numbered⟩ h.waiting h.outstanding
    · exact hcall
  | vhfStart handle => obtain ⟨-, rfl⟩ := exec_start.mp he; exact h.call trivial
  | vhfReadReportSubmit handle packet => obtain ⟨-, rfl⟩ := exec_submit.mp he; exact h.call hpre
  | vhfAsyncOperationComplete => obtain ⟨-, rfl⟩ := exec_asyncComplete.mp he; exact h.call hpre
  | vhfDelete handle => obtain ⟨-, rfl⟩ := exec_delete.mp he; exact h.call trivial
  | rtlCopyMemory => obtain ⟨-, rfl⟩ := exec_copyMemory.mp he; exact h.call trivial
  | rtlZeroMemory => obtain ⟨-, rfl⟩ := exec_zeroMemory.mp he; exact h.call trivial
  | _ =>
    refine ⟨?_, ?_, ?_, ?_, ?_⟩ <;> simp only [exec_file he rfl, exec_issued he, exec_vhf he rfl]
    exacts [h.formatted, h.waiting, h.outstanding, h.calls, h.issued]

end

/-! ## The handlers -/

abbrev KeepsMouse {α : Type} (l : Event) (p : Handler α) (w : World) : Prop :=
  mouseContract.Keeps exec l p w

section
variable {l : Event} {α β : Type} {w : World} {request : Request} {s : NTSTATUS}

theorem Plain.mouse {p : Handler α} (h : Plain p) (w : World) : KeepsMouse l p w := by
  refine Contract.keeps_of_calls (fun c v _ hc => ?_) (fun _ _ _ _ _ _ _ => trivial) h w
  cases c with
  | modifyContext f => exact hc
  | queueSection | vhfReadReportSubmit | vhfAsyncOperationComplete => exact hc.elim
  | _ => trivial

/-- A call, in a world that is in order and has at least the operations issued before. -/
theorem mouse_step {c : Call} {k : c.Resp → Handler α}
    (h : ∀ v, MouseInv v → w.issued ⊆ v.issued → mousePre c v ∧
      ∀ o r v', exec c o v = some (r, v') → v.issued ⊆ v'.issued → KeepsMouse l (k r) v') :
    KeepsMouse l (.call c k) w := fun v hv hrely =>
  ⟨(h v hv hrely).1, fun o r v' _ he => (h v hv hrely).2 o r v' he (by rw [exec_issued he]; simp)⟩

theorem mouse_call_any {c : Call} {k : c.Resp → Handler α} (hc : plain c)
    (hk : ∀ r v, w.issued ⊆ v.issued → KeepsMouse l (k r) v) : KeepsMouse l (.call c k) w := by
  refine mouse_step fun v hv hw => ⟨?_, fun o r v' _ hv' => hk r v' (List.Subset.trans hw hv')⟩
  cases c with
  | modifyContext f => exact hc
  | queueSection | vhfReadReportSubmit | vhfAsyncOperationComplete => exact hc.elim
  | _ => trivial

theorem mouse_readContext {k : FileContext → Handler α}
    (hk : ∀ f v, Formatted f → w.issued ⊆ v.issued → KeepsMouse l (k f) v) :
    KeepsMouse l (.call .readContext k) w := by
  refine mouse_step fun v hv hw => ⟨trivial, fun o r v' he hv' => hk r v' ?_ (List.Subset.trans hw hv')⟩
  obtain ⟨-, rfl, -⟩ := exec_readContext.mp he
  exact hv.formatted

theorem mouse_complete {handle : Option VhfOperationHandle} {k : NTSTATUS → Handler α}
    (hc : (VhfCall.complete handle s).Mouse w.issued)
    (hk : ∀ r v, w.issued ⊆ v.issued → KeepsMouse l (k r) v) :
    KeepsMouse l (.call (.vhfAsyncOperationComplete handle s) k) w :=
  mouse_step fun _ _ hw => ⟨hc.mono hw, fun _ r v' _ hv' => hk r v' (List.Subset.trans hw hv')⟩

theorem mouse_take {id : UInt32} {k : Option OperationContext → Handler α}
    (hnone : ∀ v, KeepsMouse l (k none) v)
    (hsome : ∀ op v, Served v.issued op → KeepsMouse l (k (some op)) v) :
    KeepsMouse l (.call (.takeOutstandingRequestById id) k) w := by
  refine mouse_step fun v hv _ => ⟨trivial, fun o r v' he hv' => ?_⟩
  obtain ⟨-, hr, -⟩ := exec_take.mp he
  cases r with
  | none => exact hnone v'
  | some op => exact hsome op v' ((hv.outstanding op (takeOutstandingRequestById_some hr).1).mono hv')

theorem mouse_ite {b : Prop} [Decidable b] {p q : Handler α} (hp : b → KeepsMouse l p w)
    (hq : ¬ b → KeepsMouse l q w) : KeepsMouse l (if b then p else q) w := by
  split
  · next h => exact hp h
  · next h => exact hq h

theorem discard_mouse {handle : Option VhfOperationHandle} {p : Handler Unit}
    (hc : (VhfCall.complete handle s).Mouse w.issued) (hp : Plain p) :
    KeepsMouse l (completeIfHandle handle s >>= fun _ => p) w := by
  cases handle with
  | none => exact hp.mouse w
  | some handle => exact mouse_complete hc fun _ v _ => hp.mouse v

theorem objectDelete_plain (object : WdfObject) :
    Plain (Prog.perform (Call.wdfObjectDelete object)) :=
  ⟨trivial, fun _ _ => trivial⟩

theorem queueOperation_mouse {op : OperationContext} (h : Served w.issued op) :
    KeepsMouse l (queueOperation op op.handle) w := by
  simp only [queueOperation, perform, Prog.perform_bind]
  refine mouse_step fun v _ hw => ⟨h.mono hw, fun _ r v' _ hv' => ?_⟩
  have h' : Served v'.issued op := h.mono (List.Subset.trans hw hv')
  cases r with
  | queued => exact serviceWaitingRequest_plain.mouse _
  | tooLate => exact discard_mouse (h'.complete _) (objectDelete_plain _)
  | failed s => exact discard_mouse (h'.complete _) (objectDelete_plain _)

theorem readyForNextReadReport_mouse (w : World) :
    KeepsMouse l winUHidEvtVhfReadyForNextReadReport w := by
  simp only [winUHidEvtVhfReadyForNextReadReport, dispatchAsyncOperation, perform, Prog.perform_bind]
  refine mouse_call_any trivial fun r v _ => mouse_ite (fun _ => trivial) fun _ => ?_
  have hserved : Served v.issued ⟨r.2, .readReport, 0, none, .zero⟩ := ⟨rfl, .inl ⟨rfl, rfl⟩⟩
  exact queueOperation_mouse hserved

theorem clampPacket_len_le (packet : HidXferPacket) (size : UInt32) :
    (clampPacket packet size).reportBufferLen ≤ size ∧
      (clampPacket packet size).reportBufferLen ≤ packet.reportBufferLen := by
  unfold clampPacket
  split
  · next h => exact ⟨UInt32.le_refl _, UInt32.le_of_lt h⟩
  · next h => exact ⟨UInt32.not_lt.mp h, UInt32.le_refl _⟩

theorem clampPacket_reportId (packet : HidXferPacket) (size : UInt32) :
    (clampPacket packet size).reportId = packet.reportId := by
  unfold clampPacket
  split <;> rfl

theorem asyncOperation_mouse {handle : VhfOperationHandle} {packet : HidXferPacket}
    {type : EventType} (hmem : (handle, packet, type) ∈ w.issued) :
    KeepsMouse l (dispatchAsyncOperation (some handle) (some packet) type) w := by
  have hrefuse {v : World} (hv : w.issued ⊆ v.issued) :
      (VhfCall.complete (some handle) Status.unsuccessful).Mouse v.issued := by
    rintro h ⟨⟩
    exact ⟨packet, type, hv hmem, fun _ => rfl⟩
  simp only [dispatchAsyncOperation, perform, Prog.perform_bind]
  refine mouse_call_any trivial fun r v hv => mouse_ite (fun _ => ?_) fun _ => ?_
  · exact mouse_complete (hrefuse hv) fun _ _ _ => trivial
  refine mouse_step fun v₀ _ hv₀ => ⟨trivial, fun _ counter v₁ _ hv₁ =>
    mouse_readContext fun f v₂ hf hv₂ => ?_⟩
  have hv₁ := List.Subset.trans hv₀ hv₁
  have hv₂ := List.Subset.trans (List.Subset.trans hv hv₁) hv₂
  refine mouse_ite (fun _ => ?_) fun hsize => ?_
  · exact discard_mouse (hrefuse hv₂) (objectDelete_plain _)
  · have hserved : ¬ Refused packet type := fun hr => hsize (reportSize_of_refused hf.sizes hr)
    obtain ⟨rfl, hid⟩ : type = .readReport ∧ packet.reportId = 0 := by
      simpa [Refused] using hserved
    have hle := clampPacket_len_le packet (reportSizeOf (f.reportSizes packet.reportId) .readReport)
    have hlen := le_trans (UInt32.le_iff_toNat_le.mp hle.1) (reportSize_le hf.sizes)
    have hclamped : Served v₂.issued ⟨r.2, .readReport, realRequestId counter, some handle,
        clampPacket packet (reportSizeOf (f.reportSizes packet.reportId) .readReport)⟩ := ⟨rfl, .inr
      ⟨handle, packet, rfl, hv₂ hmem, hid, (clampPacket_reportId _ _).trans hid, hlen, hle.2⟩⟩
    exact queueOperation_mouse hclamped

theorem finish_plain (object : WdfObject) :
    Plain (.call (.wdfObjectDelete object) fun _ => wdfRequestComplete request s) :=
  ⟨trivial, fun _ _ => wdfRequestComplete_plain⟩

theorem completeWriteEvent_mouse (w : World) : KeepsMouse l (completeWriteEvent request) w := by
  have hfail {s : NTSTATUS} (v : World) : KeepsMouse l (wdfRequestComplete request s) v :=
    wdfRequestComplete_plain.mouse v
  simp only [completeWriteEvent, perform, Prog.perform_bind]
  refine mouse_call_any trivial fun f v _ => mouse_ite (fun _ => hfail v) fun _ =>
    mouse_call_any trivial fun s v _ => mouse_ite (fun _ => hfail v) fun _ =>
    mouse_take hfail fun op v hop => ?_
  exact mouse_complete (hop.complete _) fun _ v _ => (finish_plain _).mouse v

theorem answerReadyForRead_mouse (readComplete : ReadEventComplete) (w : World) :
    KeepsMouse l (answerReadyForRead readComplete) w := by
  simp only [answerReadyForRead, perform, Prog.perform_bind]
  refine mouse_ite (fun _ => ?_) fun _ => mouse_ite (fun _ => ?_) fun _ => trivial
  · refine mouse_readContext fun f v hf _ => mouse_step fun _ _ _ => ⟨?_, fun _ _ _ _ _ => trivial⟩
    simp [mousePre, hf.numbered]
  · exact (readyForNextReadReport_mouse w).bind fun _ _ => trivial

theorem completeReadEvent_mouse (w : World) : KeepsMouse l (completeReadEvent request) w := by
  have hfail {s : NTSTATUS} (v : World) : KeepsMouse l (wdfRequestComplete request s) v :=
    wdfRequestComplete_plain.mouse v
  simp only [completeReadEvent, perform, Prog.perform_bind]
  refine mouse_call_any trivial fun f v _ => mouse_ite (fun _ => hfail v) fun _ =>
    mouse_call_any trivial fun s v _ => mouse_ite (fun _ => hfail v) fun _ =>
    mouse_ite (fun _ => hfail v) fun _ => mouse_take hfail fun op v hop => ?_
  have hcomplete {v' : World} (hv' : v.issued ⊆ v'.issued) (s : NTSTATUS) : KeepsMouse l
      (.call (.vhfAsyncOperationComplete op.handle s) fun status =>
        .call (.wdfObjectDelete op.object) fun _ => wdfRequestComplete request status) v' :=
    mouse_complete ((hop.mono hv').complete _) fun _ v _ => (finish_plain _).mouse v
  refine mouse_ite (fun _ => ?_) fun _ => mouse_ite (fun _ => ?_) fun _ =>
    hcomplete (List.Subset.refl _) _
  · exact (answerReadyForRead_mouse _ v).bind fun _ v => (finish_plain _).mouse v
  · -- The copy and the zeroing leave what was issued alone.
    simp only [fillReportBuffer, perform, Prog.perform_bind]
    refine mouse_step fun _ _ hv₁ => ⟨trivial, fun _ _ v₂ _ hv₂ => ?_⟩
    have hv₂ := List.Subset.trans hv₁ hv₂
    split
    · refine mouse_step fun _ _ hv₃ => ⟨trivial, fun _ _ v₄ _ hv₄ => ?_⟩
      exact hcomplete (List.Subset.trans hv₂ (List.Subset.trans hv₃ hv₄)) _
    · exact hcomplete hv₂ _

theorem ioctl_mouse (request : Request) (w : World) :
    KeepsMouse l (winUHidEvtIoDeviceControl request) w := by
  unfold winUHidEvtIoDeviceControl
  cases request.code with
  | getInterfaceVersion => exact getInterfaceVersion_plain.mouse w
  | setDeviceInfo => exact setDeviceInfo_configuring.plain.mouse w
  | setReportDescriptor => exact setReportDescriptor_configuring.plain.mouse w
  | setInstanceId => exact setInstanceId_configuring.plain.mouse w
  | setHardwareIds => exact setHardwareIds_configuring.plain.mouse w
  | createDevice => exact createDevice_configuring.plain.mouse w
  | startDevice => exact startDevice_plain.mouse w
  | getNextEvent => exact getNextEvent_plain.mouse w
  | completeWriteEvent => exact completeWriteEvent_mouse w
  | completeReadEvent => exact completeReadEvent_mouse w
  | other | write => exact wdfRequestComplete_plain.mouse w

theorem winUHidEvtIoWrite_mouse (w : World) : KeepsMouse l (winUHidEvtIoWrite request) w := by
  have hend {s : NTSTATUS} (v : World) : KeepsMouse l (wdfRequestComplete request s) v :=
    wdfRequestComplete_plain.mouse v
  have hdone {s : NTSTATUS} {n : ℕ} (v : World) : KeepsMouse l
      (Prog.perform (Call.wdfRequestComplete request s n request.output)) v :=
    mouse_call_any trivial fun _ _ _ => trivial
  simp only [winUHidEvtIoWrite, perform, Prog.perform_bind]
  refine mouse_call_any trivial fun f v _ => ?_
  cases f.vhfHandle with
  | none => exact hend v
  | some handle =>
    refine mouse_call_any trivial fun s v _ => mouse_ite (fun _ => hend v) fun _ =>
      mouse_ite (fun _ => hend v) fun _ => mouse_readContext fun f v hf _ =>
      mouse_step fun _ _ _ => ⟨by simp [mousePre, hf.numbered], fun _ s v _ _ => ?_⟩
    refine mouse_ite (fun _ => hend v) fun _ => mouse_ite (fun _ => ?_) fun _ => hdone v
    exact mouse_step fun _ _ _ => ⟨trivial, fun _ _ v _ _ => hdone v⟩

theorem winUHidEvtDeviceFileClose_mouse (w : World) : KeepsMouse l winUHidEvtDeviceFileClose w := by
  simp only [winUHidEvtDeviceFileClose, perform, Prog.perform_bind]
  refine mouse_step fun _ _ _ => ⟨trivial, fun _ r v _ _ => ?_⟩
  have hdelete {handle : VhfHandle} (v : World) :
      KeepsMouse l (Prog.perform (Call.vhfDelete handle)) v :=
    mouse_step fun _ _ _ => ⟨trivial, fun _ _ _ _ _ => trivial⟩
  cases r.vhfHandle with
  | none => trivial
  | some handle =>
    refine mouse_ite (fun _ => ?_) fun _ => hdelete v
    exact mouse_step fun _ _ _ => ⟨rfl, fun _ _ v _ _ => hdelete v⟩

end

/-! ## A refused callback -/

/-- The formats a handler can read. -/
def readsFormat : (c : Call) → c.Resp → Prop
  | .readContext, f => Formatted f
  | _, _ => True

def refusal (handle : VhfOperationHandle) (c : Call) : Prop :=
  c = .vhfAsyncOperationComplete (some handle) Status.unsuccessful

theorem asyncOperation_refuses {handle : VhfOperationHandle} {packet : HidXferPacket}
    {type : EventType} (h : Refused packet type) :
    (dispatchAsyncOperation (some handle) (some packet) type).Makes (refusal handle) readsFormat := by
  have hrefuse : (completeIfHandle (some handle) Status.unsuccessful).Makes (refusal handle)
      readsFormat := .inl rfl
  simp only [dispatchAsyncOperation, perform, Prog.perform_bind]
  refine .inr fun r _ => Prog.makes_ite (fun _ => hrefuse) fun _ => .inr fun counter _ =>
    .inr fun f hf => Prog.makes_ite (fun _ => Prog.makes_bind hrefuse) fun hsize => ?_
  exact absurd (reportSize_of_refused (Formatted.sizes hf) h) hsize

/-- A refused callback has completed its operation, or its handler is going to. -/
def Refuses (l : Event) (p : Handler Unit) (w : World) : Prop :=
  ∀ handle packet type, l = .asyncOperation handle packet type → Refused packet type →
    .complete (some handle) Status.unsuccessful ∈ w.vhf ∨ p.Makes (refusal handle) readsFormat

section
variable {c : Call} {o : Outcome} {r : c.Resp} {w w' : World} {l : Event}

theorem exec_vhf_subset (he : exec c o w = some (r, w')) : w.vhf ⊆ w'.vhf := by
  cases c <;> cases o <;> simp only [exec, reduceCtorEq] at he <;>
    grind [World.call, World.afterQueue, World.afterTry, World.afterRundown, World.created]

theorem exec_refusal {handle : VhfOperationHandle} (hc : refusal handle c)
    (he : exec c o w = some (r, w')) : .complete (some handle) Status.unsuccessful ∈ w'.vhf := by
  obtain rfl := hc
  obtain ⟨-, rfl⟩ := exec_asyncComplete.mp he
  simp [World.call]

/-! ## Over every run -/

theorem MouseInv.opened : MouseInv World.opened :=
  ⟨⟨.inr rfl, rfl⟩, by simp [World.opened, FileContext.created],
    by simp [World.opened, FileContext.created], by simp [World.opened], .nil⟩

theorem MouseInv.arrive (h : MouseInv w) (ha : driver.arrive l w = some w') :
    MouseInv w' ∧ w.issued ⊆ w'.issued ∧ KeepsMouse l (driver.handler l) w' := by
  obtain ⟨hfile, hvhf⟩ := arrive_file ha
  have hinv (hi : w.issued ⊆ w'.issued) (hn : (w'.issued.map (·.1)).Nodup) : MouseInv w' := by
    refine ⟨hfile ▸ h.formatted, ?_, ?_, ?_, hn⟩ <;> simp only [hfile, hvhf]
    exacts [fun op hop => (h.waiting op hop).mono hi, fun op hop => (h.outstanding op hop).mono hi,
      fun call hc => (h.calls call hc).mono hi]
  have hsame (hi : w'.issued = w.issued) : MouseInv w' ∧ w.issued ⊆ w'.issued :=
    ⟨hinv (hi ▸ List.Subset.refl _) (hi ▸ h.issued), hi ▸ List.Subset.refl _⟩
  cases l with
  | ioctl request =>
    simp only [driver, VirtualGun.Driver.arrive, World.accept, Option.ite_none_left_eq_some,
      Option.some.injEq] at ha
    obtain ⟨-, -, rfl⟩ := ha
    exact ⟨(hsame rfl).1, (hsame rfl).2, ioctl_mouse request _⟩
  | write request =>
    simp only [driver, VirtualGun.Driver.arrive, World.accept, Option.ite_none_left_eq_some,
      Option.ite_none_right_eq_some, Option.some.injEq] at ha
    obtain ⟨-, -, rfl⟩ := ha
    exact ⟨(hsame rfl).1, (hsame rfl).2, winUHidEvtIoWrite_mouse _⟩
  | asyncOperation handle packet type =>
    simp only [driver, VirtualGun.Driver.arrive, Option.ite_none_right_eq_some, Option.some.injEq,
      Bool.and_eq_true, decide_eq_true_eq] at ha
    obtain ⟨⟨-, hfresh⟩, rfl⟩ := ha
    have hi := List.subset_append_left w.issued [(handle, packet, type)]
    exact ⟨hinv hi (by simpa using List.Nodup.concat hfresh h.issued), hi,
      asyncOperation_mouse (by simp)⟩
  | readyForNextReadReport =>
    simp only [driver, VirtualGun.Driver.arrive, Option.ite_none_right_eq_some,
      Option.some.injEq] at ha
    obtain ⟨-, rfl⟩ := ha
    exact ⟨(hsame rfl).1, (hsame rfl).2, readyForNextReadReport_mouse _⟩
  | close =>
    simp only [driver, VirtualGun.Driver.arrive, Option.ite_none_left_eq_some,
      Option.some.injEq] at ha
    obtain ⟨-, rfl⟩ := ha
    exact ⟨(hsame rfl).1, (hsame rfl).2, winUHidEvtDeviceFileClose_mouse _⟩

variable {P : Pool Event Call Call.Resp World}

theorem reach_mouse (hP : Reach driver (fun _ _ => True) ⟨[], World.opened⟩ P) :
    MouseInv P.world :=
  (hP.contract (K := mouseContract) MouseInv.opened (fun _ => List.Subset.refl _)
    (fun h h' => List.Subset.trans h h') (fun _ _ _ _ h ha => h.arrive ha)
    fun _ _ _ _ _ _ _ _ _ _ h hpre he =>
      ⟨trivial, mouse_call h hpre he, by simp [mouseContract, exec_issued he]⟩).1

theorem reach_refuses (hP : Reach driver (fun _ _ => True) ⟨[], World.opened⟩ P) :
    ∀ t ∈ P.threads, Refuses t.label t.prog P.world := by
  refine hP.threads ?_ ?_ ?_ ?_
  · rintro P l w - - handle packet type rfl hr
    exact .inr (asyncOperation_refuses hr)
  · intro l p l' w w' h ha handle packet type hl hr
    rw [(arrive_file ha).2]
    exact h handle packet type hl hr
  · intro P l c k o r w hP h he handle packet type hl hr
    rcases h handle packet type hl hr with hdone | hc | hk
    · exact .inl (exec_vhf_subset he hdone)
    · exact .inl (exec_refusal hc he)
    · refine .inr (hk r ?_)
      cases c with
      | readContext =>
        obtain ⟨-, rfl, -⟩ := exec_readContext.mp he
        exact (reach_mouse hP).formatted
      | _ => trivial
  · intro l p c o r w w' h he handle packet type hl hr
    exact (h handle packet type hl hr).imp_left fun hdone => exec_vhf_subset he hdone

theorem MouseInv.not_queued (h : MouseInv P.world) {handle : VhfOperationHandle}
    {packet : HidXferPacket} {type : EventType} (hmem : (handle, packet, type) ∈ P.world.issued)
    (hr : Refused packet type) {op : OperationContext} (hop : Served P.world.issued op) :
    op.handle ≠ some handle := by
  rintro hh
  rcases hop.2 with ⟨-, hnone⟩ | ⟨k, packet', hk, hmem', hid, -⟩
  · cases hnone ▸ hh
  · obtain rfl : k = handle := Option.some.inj (hk ▸ hh)
    obtain ⟨rfl, rfl⟩ : packet = packet' ∧ type = .readReport := by
      simpa using List.inj_on_of_nodup_map h.issued hmem hmem' rfl
    exact hr.elim (absurd rfl) (absurd hid)

/-- Whatever runs side by side on a handle that was just opened: an operation that waits or is
outstanding is a ready-for-read request or a read of the 5-byte input report. A callback for
anything else never gets into the collections, is completed with nothing but
`STATUS_UNSUCCESSFUL`, and is when its handler has ended. Every input report has ID 0. -/
theorem only_mouse_served (hP : Reach driver (fun _ _ => True) ⟨[], World.opened⟩ P) :
    (∀ op ∈ P.world.file.waitingRequests ++ P.world.file.outstandingRequests,
      Served P.world.issued op) ∧
    (∀ handle packet type, (handle, packet, type) ∈ P.world.issued → Refused packet type →
      (∀ op ∈ P.world.file.waitingRequests ++ P.world.file.outstandingRequests,
        op.handle ≠ some handle) ∧
      (∀ status, .complete (some handle) status ∈ P.world.vhf → status = Status.unsuccessful) ∧
      ∀ t ∈ P.threads, t.label = .asyncOperation handle packet type → t.prog = .ret () →
        .complete (some handle) Status.unsuccessful ∈ P.world.vhf) ∧
    ∀ handle packet status, .submit handle packet status ∈ P.world.vhf → packet.reportId = 0 := by
  have h := reach_mouse hP
  have hserved : ∀ op ∈ P.world.file.waitingRequests ++ P.world.file.outstandingRequests,
      Served P.world.issued op := fun op hop =>
    (List.mem_append.mp hop).elim (h.waiting op) (h.outstanding op)
  refine ⟨hserved, fun handle packet type hmem hr => ⟨fun op hop => h.not_queued hmem hr (hserved op hop),
    fun status hc => ?_, fun t ht hl hret => ?_⟩, fun handle packet status hs => h.calls _ hs⟩
  · obtain ⟨packet', type', hmem', hs⟩ := h.calls _ hc handle rfl
    obtain ⟨rfl, rfl⟩ : packet = packet' ∧ type = type' := by
      simpa using List.inj_on_of_nodup_map h.issued hmem hmem' rfl
    exact hs hr
  · refine (reach_refuses hP t ht handle packet type hl hr).resolve_right fun hmakes => ?_
    rw [hret] at hmakes
    exact hmakes

/-- VHF asks for a feature report, and for an input report in a buffer that is too long. -/
def featureAndRead : List (Event × List Outcome) :=
  [(.asyncOperation 7 ⟨⟨[0], 0⟩, 1, 0⟩ .getFeature,
      [.made Status.success 1, .ok, .ok, .status Status.success, .ok]),
    (.asyncOperation 8 ⟨⟨List.replicate 64 0, 0⟩, 64, 0⟩ .readReport,
      [.made Status.success 2, .ok, .ok, .status Status.success, .status Status.notFound])]

theorem only_mouse_served_asked :
    ∃ P : Pool Event Call Call.Resp World,
      P.world.file.waitingRequests.map (·.hidTransferPacket.reportBufferLen) = [5] ∧
      .complete (some 7) Status.unsuccessful ∈ P.world.vhf ∧
      ∀ op ∈ P.world.file.waitingRequests, Served P.world.issued op := by
  have hplay : (Pool.replay driver (fun _ _ => true) (serial 0 (createGun ++ featureAndRead))
      ⟨[], World.opened⟩).map (fun P =>
        (P.world.file.waitingRequests.map (·.hidTransferPacket.reportBufferLen),
          P.world.vhf.contains (.complete (some 7) Status.unsuccessful))) = some ([5], true) := by
    decide +kernel
  obtain ⟨P, hP, heq⟩ := Option.map_eq_some_iff.mp hplay
  simp only [Prod.mk.injEq, List.contains_iff_mem] at heq
  have hreach := (Reach.replay .init hP).mono fun _ _ _ => trivial
  exact ⟨P, heq.1, heq.2, fun op hop => (only_mouse_served hreach).1 op (List.mem_append_left _ hop)⟩

end

end VirtualGun.Driver
