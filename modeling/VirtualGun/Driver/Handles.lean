import VirtualGun.Driver.Completion

/-!
# Where a handle is

A handle that VHF issued is in a collection, with the thread that is to complete it, or completed, and
never in two of these places. This holds whatever a client asks for.
-/

open VirtualGun.Program

namespace VirtualGun.Driver

/-! ## Tokens -/

def handleOf (handle : Option VhfOperationHandle) : Multiset VhfOperationHandle := ↑handle.toList

/-- The handles the collections hold, and those completed. -/
def storedHandles (w : World) : Multiset VhfOperationHandle :=
  (w.file.waitingRequests.map fun op => handleOf op.handle).sum +
    (w.file.outstandingRequests.map fun op => handleOf op.handle).sum + ↑(completedHandles w.vhf)

def grantedHandles (w : World) : Multiset VhfOperationHandle := ↑(w.issued.map (·.1))

def handleNeeds : Call → Multiset VhfOperationHandle
  | .queueSection op => handleOf op.handle
  | .vhfAsyncOperationComplete handle _ => handleOf handle
  | _ => 0

def handleReturns : (c : Call) → c.Resp → Multiset VhfOperationHandle
  | .queueSection op, r => if r = .queued then 0 else handleOf op.handle
  | .takeOutstandingRequestById _, r => (r.map fun op => handleOf op.handle).getD 0
  | _, _ => 0

/-- A handle may be lost, and is never doubled. -/
def handleLedger : Ledger Event Call Call.Resp World VhfOperationHandle where
  allowed
    | .modifyContext f => Configures f
    | _ => True
  needs := handleNeeds
  returns := handleReturns
  fact _ _ _ := True
  stored := storedHandles
  granted := grantedHandles
  spare _ := True
  inv w := (w.issued.map (·.1)).Nodup

/-! ## What each call exchanges -/

section
variable {l : Event} {c : Call} {o : Outcome} {r : c.Resp} {w w' : World}

theorem handle_keep (hwaiting : w'.file.waitingRequests = w.file.waitingRequests)
    (houtstanding : w'.file.outstandingRequests = w.file.outstandingRequests)
    (hvhf : completedHandles w'.vhf = completedHandles w.vhf) (hissued : w'.issued = w.issued) :
    handleLedger.Exchange 0 0 w w' := by
  apply Ledger.Exchange.of_eq
  simp only [handleLedger, storedHandles, grantedHandles, hwaiting, houtstanding, hvhf, hissued]

theorem completedHandles_call (v : VhfCall) :
    completedHandles (w.call v).vhf = completedHandles w.vhf ++ v.completedHandle.toList := by
  unfold completedHandles World.call
  rw [List.filterMap_append]
  cases hv : v.completedHandle <;> simp [hv]

theorem handle_keep_call {v : VhfCall} (hv : v.completedHandle = none) :
    handleLedger.Exchange 0 0 w (w.call v) := by
  refine handle_keep rfl rfl ?_ rfl
  rw [completedHandles_call, hv, Option.toList_none, List.append_nil]

theorem rundown_spends (ops : List OperationContext) :
    ∃ z, (ops.map fun op => handleOf op.handle).sum =
      ↑((ops.filterMap rundownCall).filterMap VhfCall.completedHandle) + z := by
  induction ops with
  | nil => exact ⟨0, rfl⟩
  | cons op ops ih =>
    obtain ⟨z, hz⟩ := ih
    rw [List.map_cons, List.sum_cons, hz]
    by_cases hid : op.requestId = 0
    · have hcall : (op :: ops).filterMap rundownCall = ops.filterMap rundownCall := by
        simp [rundownCall, hid]
      refine ⟨handleOf op.handle + z, ?_⟩
      rw [hcall]
      abel
    · have hcall : (op :: ops).filterMap rundownCall =
          .complete op.handle Status.cancelled :: ops.filterMap rundownCall := by
        simp [rundownCall, hid]
      have hcompleted : ((op :: ops).filterMap rundownCall).filterMap VhfCall.completedHandle =
          op.handle.toList ++ (ops.filterMap rundownCall).filterMap VhfCall.completedHandle := by
        rw [hcall, List.filterMap_cons, VhfCall.completedHandle]
        cases op.handle <;> rfl
      refine ⟨z, ?_⟩
      rw [hcompleted, ← Multiset.coe_add, handleOf]
      abel

theorem handle_call (hallowed : handleLedger.allowed c) (he : exec c o w = some (r, w')) :
    handleLedger.Exchange (handleNeeds c) (handleReturns c r) w w' := by
  have hissued := exec_issued he
  cases c with
  | modifyContext f =>
    obtain ⟨-, rfl⟩ := exec_modifyContext.mp he
    exact handle_keep (hallowed.waitingRequests _) (hallowed.outstandingRequests _) rfl rfl
  | queueSection op =>
    obtain ⟨add, -, rfl, rfl⟩ := exec_queueSection.mp he
    apply Ledger.Exchange.of_eq
    rcases queueSection_cases op add w.file with ⟨hr, hfile⟩ | ⟨hr, -, hfile⟩
    · simp [handleLedger, handleNeeds, handleReturns, hr, hfile, storedHandles, grantedHandles,
        World.afterQueue]
    · simp only [handleLedger, handleNeeds, handleReturns, hr, hfile, if_true, storedHandles,
        grantedHandles, World.afterQueue, List.map_append, List.sum_append, List.map_cons, List.map_nil,
        List.sum_cons, List.sum_nil]
      abel
  | tryCompleteSection request =>
    obtain ⟨t, -, rfl, rfl⟩ := exec_tryComplete.mp he
    apply Ledger.Exchange.of_eq
    rcases tryCompleteSection_cases t request.output w.file with ⟨-, hfile⟩ | ⟨-, op, rest, hwait, hfile⟩
    · simp [handleLedger, handleNeeds, handleReturns, hfile, storedHandles, grantedHandles,
        World.afterTry]
    · simp only [handleLedger, handleNeeds, handleReturns, hfile, hwait, storedHandles, grantedHandles,
        World.afterTry, List.map_append, List.sum_append, List.map_cons, List.map_nil, List.sum_cons,
        List.sum_nil]
      abel
  | takeOutstandingRequestById id =>
    obtain ⟨-, rfl, rfl⟩ := exec_take.mp he
    apply Ledger.Exchange.of_eq
    simp only [handleLedger, handleNeeds, handleReturns, storedHandles, grantedHandles,
      takeOutstandingRequestById_sum (fun op => handleOf op.handle) id w.file]
    simp only [takeOutstandingRequestById]
    abel
  | rundownSection =>
    obtain ⟨-, -, rfl⟩ := exec_rundown.mp he
    obtain ⟨z, hz⟩ := rundown_spends w.file.waitingRequests
    obtain ⟨z', hz'⟩ := rundown_spends w.file.outstandingRequests
    refine ⟨z + z', fun _ _ => trivial, ?_⟩
    simp only [handleLedger, handleNeeds, handleReturns, storedHandles, grantedHandles,
      World.afterRundown, rundownSection, completedHandles, hz, hz', List.filterMap_append,
      ← Multiset.coe_add, List.map_nil, List.sum_nil]
    abel
  | interlockedIncrement =>
    obtain ⟨-, -, rfl⟩ := exec_increment.mp he
    exact handle_keep rfl rfl rfl rfl
  | storeLastReport =>
    obtain ⟨-, rfl⟩ := exec_storeLastReport.mp he
    exact handle_keep rfl rfl rfl rfl
  | vhfCreate =>
    obtain ⟨handle, -, rfl⟩ := exec_create.mp he
    have hcall := handle_keep_call (w := w)
      (v := .create w.file.vhfConfig w.file.vhfHandle.isSome r) rfl
    unfold World.created
    split
    · exact hcall
    · exact hcall
  | vhfAsyncOperationComplete handle s =>
    obtain ⟨-, rfl⟩ := exec_asyncComplete.mp he
    apply Ledger.Exchange.of_eq
    have hcompleted := completedHandles_call (w := w) (.complete handle s)
    simp only [handleLedger, handleNeeds, handleReturns, storedHandles, grantedHandles, hcompleted,
      VhfCall.completedHandle, ← Multiset.coe_add, handleOf]
    simp only [World.call]
    abel
  | vhfStart =>
    obtain ⟨-, rfl⟩ := exec_start.mp he
    exact handle_keep_call rfl
  | vhfReadReportSubmit =>
    obtain ⟨-, rfl⟩ := exec_submit.mp he
    exact handle_keep_call rfl
  | vhfDelete =>
    obtain ⟨-, rfl⟩ := exec_delete.mp he
    exact handle_keep_call rfl
  | rtlCopyMemory =>
    obtain ⟨-, rfl⟩ := exec_copyMemory.mp he
    exact handle_keep_call rfl
  | rtlZeroMemory =>
    obtain ⟨-, rfl⟩ := exec_zeroMemory.mp he
    exact handle_keep_call rfl
  | _ =>
    have hfile := exec_file he rfl
    have hvhf := exec_vhf he rfl
    exact handle_keep (by rw [hfile]) (by rw [hfile]) (by rw [hvhf]) hissued

end

/-! ## The handlers -/

abbrev Hands {α : Type} (l : Event) (pre : Multiset VhfOperationHandle) (p : Handler α)
    (post : α → Multiset VhfOperationHandle) : Prop :=
  handleLedger.Trades l pre p post

/-- The call takes no handle. -/
def handless (c : Call) : Prop := handleLedger.allowed c ∧ handleLedger.needs c = 0

abbrev Handless {α : Type} (p : Handler α) : Prop := p.Calls handless fun _ _ => True

section
variable {l : Event} {request : Request} {pre : Multiset VhfOperationHandle} {s : NTSTATUS}
  {op : OperationContext} {α : Type}

theorem Handless.hands {p : Handler α} (h : Handless p) : Hands l pre p fun _ => 0 :=
  .of_calls (fun _ => trivial) h

theorem Plain.handless {p : Handler α} (h : Plain p) : Handless p := by
  refine Prog.calls_mono (fun c hc => ?_) (fun _ _ _ => trivial) h
  cases c with
  | modifyContext => exact ⟨hc, rfl⟩
  | queueSection | vhfAsyncOperationComplete => exact hc.elim
  | _ => exact ⟨trivial, rfl⟩

theorem handless_call {c : Call} {k : c.Resp → Handler α} (hallowed : handleLedger.allowed c)
    (hneeds : handleLedger.needs c = 0) (hk : ∀ r, Handless (k r)) : Handless (.call c k) :=
  ⟨⟨hallowed, hneeds⟩, fun r _ => hk r⟩

theorem wdfRequestComplete_handless : Handless (wdfRequestComplete request s) :=
  wdfRequestComplete_plain.handless

theorem winUHidEvtIoWrite_handless : Handless (winUHidEvtIoWrite request) := by
  simp only [winUHidEvtIoWrite, perform, Prog.perform_bind]
  refine handless_call trivial rfl fun f => ?_
  cases f.vhfHandle with
  | none => exact wdfRequestComplete_handless
  | some handle =>
    exact handless_call trivial rfl fun s => Prog.calls_ite (fun _ => wdfRequestComplete_handless)
      fun _ => Prog.calls_ite (fun _ => wdfRequestComplete_handless) fun _ =>
      handless_call trivial rfl fun _ => handless_call trivial rfl fun s =>
      Prog.calls_ite (fun _ => wdfRequestComplete_handless) fun _ =>
      Prog.calls_ite (fun _ => handless_call trivial rfl fun _ => handless_call trivial rfl
        fun _ => trivial) fun _ => handless_call trivial rfl fun _ => trivial

theorem winUHidEvtDeviceFileClose_handless : Handless winUHidEvtDeviceFileClose := by
  simp only [winUHidEvtDeviceFileClose, perform, Prog.perform_bind]
  refine handless_call trivial rfl fun r => ?_
  cases r.vhfHandle with
  | none => trivial
  | some handle =>
    exact Prog.calls_ite (fun _ => handless_call trivial rfl fun _ => handless_call trivial rfl
      fun _ => trivial) fun _ => handless_call trivial rfl fun _ => trivial

theorem completeIfHandle_hands (handle : Option VhfOperationHandle) :
    Hands l (handleOf handle) (completeIfHandle handle s) fun _ => 0 := by
  cases handle with
  | none => exact .ret rfl
  | some handle => exact .call 0 trivial (add_zero _).symm fun _ _ => .ret (add_zero _)

theorem discard_hands (object : WdfObject) (handle : Option VhfOperationHandle) :
    Hands l (handleOf handle) (completeIfHandle handle s >>= fun _ =>
      Prog.perform (Call.wdfObjectDelete object)) fun _ => 0 :=
  .bind _ (completeIfHandle_hands handle) fun _ =>
    Handless.hands (handless_call trivial rfl fun _ => trivial)

theorem queueOperation_hands (op : OperationContext) :
    Hands l (handleOf op.handle) (queueOperation op op.handle) fun _ => 0 := by
  simp only [queueOperation, perform, Prog.perform_bind]
  refine .call 0 trivial (add_zero _).symm fun r _ => ?_
  rw [add_zero]
  cases r with
  | queued => exact serviceWaitingRequest_plain.handless.hands
  | tooLate | failed => exact discard_hands op.object op.handle

theorem asyncOperation_hands (handle : VhfOperationHandle) (packet : HidXferPacket) (type : EventType) :
    Hands l {handle} (dispatchAsyncOperation (some handle) (some packet) type) fun _ => 0 := by
  simp only [dispatchAsyncOperation, perform, Prog.perform_bind]
  refine .inert trivial rfl (fun _ => rfl) fun r => .ite (fun _ => completeIfHandle_hands (some handle))
    fun _ => .inert trivial rfl (fun _ => rfl) fun counter => .inert trivial rfl (fun _ => rfl) fun f =>
    .ite (fun _ => discard_hands r.2 (some handle)) fun _ => ?_
  exact queueOperation_hands ⟨r.2, type, realRequestId counter, some handle, _⟩

theorem readyForNextReadReport_hands : Hands l 0 winUHidEvtVhfReadyForNextReadReport fun _ => 0 := by
  simp only [winUHidEvtVhfReadyForNextReadReport, dispatchAsyncOperation, perform, Prog.perform_bind]
  refine .inert trivial rfl (fun _ => rfl) fun r => .ite (fun _ => .ret rfl) fun _ => ?_
  exact queueOperation_hands ⟨r.2, .readReport, 0, none, HidXferPacket.zero⟩

theorem completeOperation_hands :
    Hands l (handleOf op.handle) (.call (.vhfAsyncOperationComplete op.handle s) fun status =>
      .call (.wdfObjectDelete op.object) fun _ => wdfRequestComplete request status) fun _ => 0 :=
  .call 0 trivial (add_zero _).symm fun _ _ =>
    Handless.hands (handless_call trivial rfl fun _ => wdfRequestComplete_handless)

theorem completeWriteEvent_hands : Hands l 0 (completeWriteEvent request) fun _ => 0 := by
  simp only [completeWriteEvent, perform, Prog.perform_bind]
  refine .inert trivial rfl (fun _ => rfl) fun f => .ite (fun _ => wdfRequestComplete_handless.hands)
    fun _ => .inert trivial rfl (fun _ => rfl) fun s =>
    .ite (fun _ => wdfRequestComplete_handless.hands) fun _ =>
    .call 0 trivial (add_zero _).symm fun r _ => ?_
  rw [add_zero]
  cases r with
  | none => exact wdfRequestComplete_handless.hands
  | some op => exact completeOperation_hands

theorem answerReadyForRead_hands (readComplete : ReadEventComplete) :
    Hands l 0 (answerReadyForRead readComplete) fun _ => 0 := by
  simp only [answerReadyForRead, perform, Prog.perform_bind]
  refine .ite (fun _ => ?_) fun _ => .ite (fun _ => ?_) fun _ => .ret rfl
  · exact Handless.hands (handless_call trivial rfl fun _ => handless_call trivial rfl fun _ => trivial)
  · exact .bind _ readyForNextReadReport_hands fun _ => .ret rfl

theorem fillReportBuffer_hands (op : OperationContext) (readComplete : ReadEventComplete) :
    Hands l 0 (fillReportBuffer op readComplete) fun _ => 0 := by
  simp only [fillReportBuffer, perform, Prog.perform_bind]
  exact .inert trivial rfl (fun _ => rfl) fun _ =>
    .ite (fun _ => .inert trivial rfl (fun _ => rfl) fun _ => .ret rfl) fun _ => .ret rfl

theorem completeReadEvent_hands : Hands l 0 (completeReadEvent request) fun _ => 0 := by
  simp only [completeReadEvent, perform, Prog.perform_bind]
  refine .inert trivial rfl (fun _ => rfl) fun f => .ite (fun _ => wdfRequestComplete_handless.hands)
    fun _ => .inert trivial rfl (fun _ => rfl) fun s =>
    .ite (fun _ => wdfRequestComplete_handless.hands) fun _ =>
    .ite (fun _ => wdfRequestComplete_handless.hands) fun _ =>
    .call 0 trivial (add_zero _).symm fun r _ => ?_
  rw [add_zero]
  cases r with
  | none => exact wdfRequestComplete_handless.hands
  | some op =>
    refine .ite (fun _ => ?_) fun _ => .ite (fun _ => ?_) fun _ => completeOperation_hands
    · -- what was taken for a pseudo-request is not completed
      have hanswer := (answerReadyForRead_hands (l := l) (ReadEventComplete.decode request.input)).spare
        (x := handleOf op.handle) fun _ _ => trivial
      rw [zero_add] at hanswer
      exact .bind _ hanswer fun _ =>
        Handless.hands (handless_call trivial rfl fun _ => wdfRequestComplete_handless)
    · have hfill := (fillReportBuffer_hands (l := l) op
        (ReadEventComplete.decode request.input)).frame (handleOf op.handle)
      rw [zero_add] at hfill
      exact .bind _ hfill fun _ => completeOperation_hands

theorem ioctl_hands : Hands l 0 (winUHidEvtIoDeviceControl request) fun _ => 0 := by
  unfold winUHidEvtIoDeviceControl
  cases request.code with
  | getInterfaceVersion => exact getInterfaceVersion_plain.handless.hands
  | setDeviceInfo => exact setDeviceInfo_configuring.plain.handless.hands
  | setReportDescriptor => exact setReportDescriptor_configuring.plain.handless.hands
  | setInstanceId => exact setInstanceId_configuring.plain.handless.hands
  | setHardwareIds => exact setHardwareIds_configuring.plain.handless.hands
  | createDevice => exact createDevice_configuring.plain.handless.hands
  | startDevice => exact startDevice_plain.handless.hands
  | getNextEvent => exact getNextEvent_plain.handless.hands
  | completeWriteEvent => exact completeWriteEvent_hands
  | completeReadEvent => exact completeReadEvent_hands
  | other | write => exact wdfRequestComplete_handless.hands

end

/-! ## Any interleaving -/

section
variable {l : Event} {w v : World} {P : Pool Event Call Call.Resp World}

theorem handle_arrive (hw : (w.issued.map (·.1)).Nodup) (ha : driver.arrive l w = some v) :
    ∃ x, handleLedger.Spends l (driver.handler l) x ∧ handleLedger.Exchange 0 x w v ∧
      (v.issued.map (·.1)).Nodup := by
  have haccept {request : Request} (ha : w.accept request = some v) :
      handleLedger.Exchange 0 0 w v ∧ (v.issued.map (·.1)).Nodup := by
    simp only [World.accept, Option.ite_none_left_eq_some, Option.some.injEq] at ha
    obtain ⟨-, rfl⟩ := ha
    exact ⟨.of_eq rfl, hw⟩
  cases l with
  | ioctl request =>
    simp only [driver, arrive, Option.ite_none_left_eq_some] at ha
    exact ⟨0, ioctl_hands.spends, haccept ha.2⟩
  | write request =>
    simp only [driver, arrive, Option.ite_none_right_eq_some] at ha
    exact ⟨0, winUHidEvtIoWrite_handless.hands.spends, haccept ha.2⟩
  | asyncOperation handle packet type =>
    simp only [driver, arrive, Option.ite_none_right_eq_some, Option.some.injEq, Bool.and_eq_true,
      decide_eq_true_eq] at ha
    obtain ⟨⟨-, hfresh⟩, rfl⟩ := ha
    refine ⟨{handle}, (asyncOperation_hands handle packet type).spends, .of_eq ?_,
      by simpa using List.Nodup.concat hfresh hw⟩
    simp only [handleLedger, storedHandles, grantedHandles, List.map_append, List.map_cons,
      List.map_nil, ← Multiset.coe_add, Multiset.coe_singleton]
    abel
  | readyForNextReadReport =>
    simp only [driver, arrive, Option.ite_none_right_eq_some, Option.some.injEq] at ha
    obtain ⟨-, rfl⟩ := ha
    exact ⟨0, readyForNextReadReport_hands.spends, .of_eq rfl, hw⟩
  | close =>
    simp only [driver, arrive, Option.ite_none_left_eq_some, Option.some.injEq] at ha
    obtain ⟨-, rfl⟩ := ha
    exact ⟨0, winUHidEvtDeviceFileClose_handless.hands.spends, .of_eq rfl, hw⟩

theorem handle_balanced (hP : Reach driver (fun _ _ => True) ⟨[], World.opened⟩ P) :
    ∃ ms, handleLedger.Balanced P ms := by
  induction hP with
  | init => exact ⟨[], .nil, ⟨0, nofun, rfl⟩, .nil⟩
  | @move P P' m _ _ hm ih =>
    obtain ⟨ms, h⟩ := ih
    refine h.move hm (fun l w _ ha => handle_arrive h.inv ha) ?_
    intro i o l c k r w _ _ hallowed _ he
    refine ⟨trivial, handle_call hallowed he, ?_⟩
    show (w.issued.map (·.1)).Nodup
    rw [exec_issued he]
    exact h.inv

theorem storedHandles_nodup (hP : Reach driver (fun _ _ => True) ⟨[], World.opened⟩ P) :
    (storedHandles P.world).Nodup := by
  obtain ⟨ms, h⟩ := handle_balanced hP
  exact Multiset.nodup_of_le h.stored_le (Multiset.coe_nodup.mpr h.inv)

theorem mem_handles {ops : List OperationContext} {handle : VhfOperationHandle} :
    handle ∈ (ops.map fun op => handleOf op.handle).sum ↔ ∃ op ∈ ops, op.handle = some handle := by
  simp [mem_sum, handleOf]

theorem outstanding_not_completed (h : (storedHandles w).Nodup) {op : OperationContext}
    {handle : VhfOperationHandle} (hop : op ∈ w.file.outstandingRequests) (hh : op.handle = some handle) :
    handle ∉ completedHandles w.vhf := by
  intro hcompleted
  obtain ⟨-, -, hdisjoint⟩ := Multiset.nodup_add.mp h
  refine Multiset.disjoint_left.mp hdisjoint (Multiset.mem_add.mpr (.inr ?_)) (Multiset.mem_coe.mpr hcompleted)
  exact mem_handles.mpr ⟨op, hop, hh⟩

theorem outstanding_once (h : (storedHandles w).Nodup) {op q : OperationContext}
    {before after : List OperationContext} {handle : VhfOperationHandle}
    (hsplit : w.file.outstandingRequests = before ++ op :: after) (hh : op.handle = some handle)
    (hq : q ∈ before) : q.handle ≠ some handle := by
  intro hqh
  have houtstanding := (Multiset.nodup_add.mp (Multiset.nodup_add.mp h).1).2.1
  rw [hsplit, List.map_append, List.sum_append] at houtstanding
  obtain ⟨-, -, hdisjoint⟩ := Multiset.nodup_add.mp houtstanding
  refine Multiset.disjoint_left.mp hdisjoint (mem_handles.mpr ⟨q, hq, hqh⟩) ?_
  exact mem_handles.mpr ⟨op, List.mem_cons_self, hh⟩

end

end VirtualGun.Driver
