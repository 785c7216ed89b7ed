import VirtualGun.Driver.Rights

/-!
# Completing operations

VHF callbacks, all requests of a client and the close run side by side on a handle that was just
opened. Only the two completion IOCTLs can misuse an operation.
-/

open VirtualGun.Program

namespace VirtualGun.Driver

/-! ## Handlers that complete no operation -/

/-- The call takes no right. -/
def idle (c : Call) : Prop := rightLedger.allowed c ∧ rightLedger.needs c = 0

/-- The handler takes no right. -/
abbrev Idle {α : Type} (l : Event) (p : Handler α) : Prop := p.Calls idle (rightFact l)

section
variable {l : Event} {request : Request} {α β : Type}

theorem idle_call {c : Call} {k : c.Resp → Handler α} (hallowed : rightLedger.allowed c)
    (hneeds : rightLedger.needs c = 0) (hk : ∀ r, Idle l (k r)) : Idle l (.call c k) :=
  ⟨⟨hallowed, hneeds⟩, fun r _ => hk r⟩

theorem Plain.idle {p : Handler α} (h : Plain p) : Idle l p := by
  refine Prog.calls_mono (fun c hc => ?_) (fun _ _ _ => trivial) h
  cases c with
  | modifyContext f =>
    refine ⟨fun g => ⟨hc.waitingRequests g, hc.outstandingRequests g, fun hg => ?_⟩, rfl⟩
    exact (hc.format g).elim (fun h => by rwa [h.1]) fun h => .inl h.1
  | queueSection | takeOutstandingRequestById | vhfAsyncOperationComplete => exact hc.elim
  | rtlCopyMemory | rtlZeroMemory => exact hc.elim
  | _ => exact ⟨trivial, rfl⟩

theorem wdfRequestComplete_idle {s : NTSTATUS} : Idle l (wdfRequestComplete request s) :=
  wdfRequestComplete_plain.idle

theorem winUHidEvtIoWrite_idle : Idle l (winUHidEvtIoWrite request) := by
  simp only [winUHidEvtIoWrite, perform, Prog.perform_bind]
  refine idle_call trivial rfl fun f => ?_
  cases f.vhfHandle with
  | none => exact wdfRequestComplete_idle
  | some handle =>
    exact idle_call trivial rfl fun s => Prog.calls_ite (fun _ => wdfRequestComplete_idle) fun _ =>
      Prog.calls_ite (fun _ => wdfRequestComplete_idle) fun _ => idle_call trivial rfl fun _ =>
      idle_call trivial rfl fun s => Prog.calls_ite (fun _ => wdfRequestComplete_idle) fun _ =>
      Prog.calls_ite (fun _ => idle_call trivial rfl fun _ => idle_call trivial rfl fun _ => trivial)
        fun _ => idle_call trivial rfl fun _ => trivial

theorem winUHidEvtDeviceFileClose_idle : Idle l winUHidEvtDeviceFileClose := by
  simp only [winUHidEvtDeviceFileClose, perform, Prog.perform_bind]
  refine idle_call trivial rfl fun r => ?_
  cases r.vhfHandle with
  | none => trivial
  | some handle =>
    exact Prog.calls_ite (fun _ => idle_call trivial rfl fun _ => idle_call trivial rfl fun _ =>
      trivial) fun _ => idle_call trivial rfl fun _ => trivial

end

/-! ## Handlers that complete operations -/

abbrev Uses {α : Type} (l : Event) (pre : Multiset Right) (p : Handler α)
    (post : α → Multiset Right) : Prop :=
  rightLedger.Trades l pre p post

section
variable {l : Event} {request : Request} {op : OperationContext} {α : Type}
  {handle : VhfOperationHandle} {s : NTSTATUS}

theorem Idle.uses {p : Handler α} {pre : Multiset Right} (hp : Idle l p) :
    Uses l pre p fun _ => 0 :=
  .of_calls (fun _ => trivial) hp

theorem opRights_some (hh : op.handle = some handle) :
    opRights op = rights handle op.hidTransferPacket op.type := by simp [opRights, hh]

theorem completeRights_failure (hs : ntSuccess s = false) :
    completeRights (some handle) s = {.complete handle} := by simp [completeRights, hs]

theorem discard_uses (object : WdfObject) (completed : Option VhfOperationHandle)
    {pre : Multiset Right} (hs : ntSuccess s = false)
    (hpre : ∀ h, completed = some h → ∃ rest, pre = {.complete h} + rest) :
    Uses l pre (completeIfHandle completed s >>= fun _ =>
      Prog.perform (Call.wdfObjectDelete object)) fun _ => 0 := by
  have hdelete {pre : Multiset Right} :
      Uses l pre (Prog.perform (Call.wdfObjectDelete object)) fun _ => 0 :=
    Idle.uses (idle_call trivial rfl fun _ => trivial)
  cases completed with
  | none => exact hdelete
  | some h =>
    obtain ⟨rest, rfl⟩ := hpre h rfl
    refine .call rest rfl ?_ fun _ _ => hdelete
    rw [show rightLedger.needs (.vhfAsyncOperationComplete (some h) s) = completeRights (some h) s
      from rfl, completeRights_failure hs]

theorem queueOperation_uses (op : OperationContext) (hop : RealOrPseudo op) :
    Uses l (opRights op) (queueOperation op op.handle) fun _ => 0 := by
  simp only [queueOperation, perform, Prog.perform_bind]
  refine .call 0 hop (add_zero _).symm fun r hr => ?_
  rw [add_zero]
  have hpre (h) (hh : op.handle = some h) : ∃ rest, opRights op = {.complete h} + rest := by
    rw [opRights_some hh, rights, add_assoc]
    exact ⟨_, rfl⟩
  cases r with
  | queued => exact serviceWaitingRequest_plain.idle.uses
  | tooLate => exact discard_uses op.object op.handle (by decide) hpre
  | failed s => exact discard_uses op.object op.handle (hr s rfl) hpre

theorem asyncOperation_uses (handle : VhfOperationHandle) (packet : HidXferPacket)
    (type : EventType) :
    Uses l (rights handle (gunPacket packet type) type)
      (dispatchAsyncOperation (some handle) (some packet) type) fun _ => 0 := by
  have hpre (h) (hh : some handle = some h) :
      ∃ rest, rights handle (gunPacket packet type) type = {.complete h} + rest := by
    cases hh
    rw [rights, add_assoc]
    exact ⟨_, rfl⟩
  simp only [dispatchAsyncOperation, perform, Prog.perform_bind]
  refine .inert trivial rfl (fun _ => rfl) fun r => .ite (fun _ => ?_) fun _ => ?_
  · obtain ⟨rest, hrest⟩ := hpre handle rfl
    rw [hrest]
    refine .call rest rfl ?_ fun _ _ => .drop (fun _ _ => trivial) (zero_add _).symm
    rw [show rightLedger.needs (.vhfAsyncOperationComplete (some handle) Status.unsuccessful) =
      completeRights (some handle) Status.unsuccessful from rfl, completeRights_failure (by decide)]
  · refine .inert trivial rfl (fun _ => rfl) fun counter => .call _ trivial (zero_add _).symm
      fun f hf => ?_
    rw [show rightLedger.returns .readContext f = 0 from rfl, zero_add]
    refine .ite (fun _ => discard_uses _ _ (by decide) hpre) fun hsize => ?_
    -- only the lightgun's descriptor gives a report a size
    have hgun : f.reportSizes = gunSizes := by
      rcases (hf : SizesOk f.reportSizes) with hgun | hzero
      · exact hgun
      · refine absurd ?_ hsize
        rw [hzero]
        cases type <;> rfl
    have h := queueOperation_uses (l := l)
      ⟨r.2, type, realRequestId counter, some handle, gunPacket packet type⟩
      (iff_of_false (realRequestId_ne_zero counter) (by simp))
    rw [hgun]
    exact h

theorem readyForNextReadReport_uses : Uses l 0 winUHidEvtVhfReadyForNextReadReport fun _ => 0 := by
  simp only [winUHidEvtVhfReadyForNextReadReport, dispatchAsyncOperation, perform,
    Prog.perform_bind]
  exact .inert trivial rfl (fun _ => rfl) fun r => .ite (fun _ => .ret rfl) fun _ =>
    queueOperation_uses ⟨r.2, .readReport, 0, none, HidXferPacket.zero⟩ (iff_of_true rfl rfl)

theorem complete_uses {pre : Multiset Right} (rest : Multiset Right) (hh : op.handle = some handle)
    (hpre : pre = completeRights (some handle) s + rest) :
    Uses l pre (.call (.vhfAsyncOperationComplete op.handle s) fun status =>
      .call (.wdfObjectDelete op.object) fun _ => wdfRequestComplete request status)
      fun _ => 0 := by
  refine .call rest (by rw [hh]; rfl) (by rw [hpre, hh]; rfl) fun status _ => ?_
  exact Idle.uses (idle_call trivial rfl fun _ => wdfRequestComplete_idle)

theorem handle_of_id (hop : RealOrPseudo op) (hid : op.requestId ≠ 0) :
    ∃ h, op.handle = some h :=
  Option.ne_none_iff_exists'.mp fun hn => hid (hop.mpr hn)

theorem completeWriteEvent_uses (hcode : request.code = .completeWriteEvent) :
    Uses (.ioctl request) 0 (completeWriteEvent request) fun _ => 0 := by
  simp only [completeWriteEvent, perform, Prog.perform_bind]
  refine .inert trivial rfl (fun _ => rfl) fun f => .ite (fun _ => wdfRequestComplete_idle.uses)
    fun _ => .inert trivial rfl (fun _ => rfl) fun s =>
    .ite (fun _ => wdfRequestComplete_idle.uses) fun _ => .call 0 trivial (add_zero _).symm
    fun r hr => ?_
  cases r with
  | none => exact wdfRequestComplete_idle.uses
  | some op =>
    obtain ⟨-, hop, hsuits⟩ := hr op rfl
    simp only [suits, hcode, Bool.and_eq_true, Bool.or_eq_true, bne_iff_ne, Bool.not_eq_true',
      beq_iff_eq] at hsuits
    obtain ⟨hid, hsucceed⟩ := hsuits
    obtain ⟨h, hh⟩ := handle_of_id hop hid
    have hrights : rightLedger.returns (.takeOutstandingRequestById
        (WriteEventComplete.decode request.input).requestId) (some op) + 0 = opRights op :=
      add_zero _
    obtain ⟨rest, hrest⟩ : ∃ rest, opRights op =
        completeRights (some h) (WriteEventComplete.decode request.input).status + rest := by
      rw [opRights_some hh, rights]
      cases hs : ntSuccess (WriteEventComplete.decode request.input).status with
      | false =>
        rw [completeRights_failure hs, add_assoc]
        exact ⟨_, rfl⟩
      | true =>
        have hnone : (op.type.isRead && op.hidTransferPacket.reportBufferLen != 0) = false := by
          rcases hsucceed with (h | h) | h <;> simp_all
        refine ⟨{.carries h op.hidTransferPacket op.type}, ?_⟩
        simp only [hnone, completeRights, hs, if_true, Bool.false_eq_true, if_false,
          Option.map_some, Option.getD_some]
        abel
    rw [hrights]
    exact complete_uses rest hh hrest

theorem answerReadyForRead_uses (readComplete : ReadEventComplete) :
    Uses l 0 (answerReadyForRead readComplete) fun _ => 0 := by
  simp only [answerReadyForRead, perform, Prog.perform_bind]
  refine .ite (fun _ => Idle.uses (idle_call trivial rfl fun _ => idle_call trivial rfl
    fun _ => trivial)) fun _ => .ite (fun _ => ?_) fun _ => .ret rfl
  exact .bind _ readyForNextReadReport_uses fun _ => .ret rfl

theorem min_of_lt {a b : UInt32} (h : a < b) : min a b = a := by
  show (if a ≤ b then a else b) = a
  exact if_pos (UInt32.le_of_lt h)

theorem min_of_not_lt {a b : UInt32} (h : ¬ a < b) : min a b = b := by
  show (if a ≤ b then a else b) = b
  split
  · next hle => exact UInt32.le_antisymm hle (UInt32.not_lt.mp h)
  · rfl

/-- The whole buffer is written, with the client's bytes and zeros, so the handle may succeed. -/
theorem fillReportBuffer_uses (readComplete : ReadEventComplete) (hh : op.handle = some handle)
    (hcovers : op.type.isRead → readComplete.data.covers
      (min readComplete.dataLength op.hidTransferPacket.reportBufferLen).toNat) :
    Uses l (opRights op) (fillReportBuffer op readComplete)
      fun _ => {.complete handle} + {.succeed handle} := by
  have hsome : op.handle.isSome := by rw [hh]; rfl
  have hcarries : carriesOf op = {.carries handle op.hidTransferPacket op.type} := by
    simp [carriesOf, hh]
  rw [opRights_some hh, rights]
  generalize (if op.type.isRead && op.hidTransferPacket.reportBufferLen != 0 then 0
    else {Right.succeed handle} : Multiset Right) = rest
  simp only [fillReportBuffer, perform, Prog.perform_bind]
  refine .call ({.complete handle} + rest) ⟨hsome, hcovers⟩ ?_ fun _ _ => .ite (fun hlt => ?_)
    fun hge => ?_
  · show _ = carriesOf op + _
    rw [hcarries]
    abel
  · have hlen : (readComplete.dataLength.toNat = op.hidTransferPacket.reportBufferLen.toNat) =
        False :=
      eq_false (Nat.ne_of_lt (UInt32.lt_iff_toNat_lt.mp hlt))
    have hfilled : copyRights op
        (min readComplete.dataLength op.hidTransferPacket.reportBufferLen).toNat =
          {.filled handle readComplete.dataLength.toNat} := by
      rw [min_of_lt hlt]
      simp [copyRights, hh, hlen]
    refine .call ({.complete handle} + rest) ⟨hsome, ?_⟩ ?_ fun _ _ => ?_
    · rw [UInt32.toNat_sub_of_le _ _ (UInt32.le_of_lt hlt)]
      have := UInt32.lt_iff_toNat_lt.mp hlt
      omega
    · show carriesOf op + copyRights op _ + _ = carriesOf op + zeroNeeds op _ + _
      rw [hfilled]
      simp [zeroNeeds, hh]
    · refine .drop (z := carriesOf op + rest) (fun _ _ => trivial) ?_
      show carriesOf op + zeroRights op + _ = _
      simp only [zeroRights, hh, Option.map_some, Option.getD_some]
      abel
  · have hfull : copyRights op
        (min readComplete.dataLength op.hidTransferPacket.reportBufferLen).toNat =
          {.succeed handle} := by
      rw [min_of_not_lt hge]
      simp [copyRights, hh]
    refine .drop (z := carriesOf op + rest) (fun _ _ => trivial) ?_
    show carriesOf op + copyRights op _ + _ = _
    rw [hfull]
    abel

theorem completeReadEvent_uses (hcode : request.code = .completeReadEvent) :
    Uses (.ioctl request) 0 (completeReadEvent request) fun _ => 0 := by
  simp only [completeReadEvent, perform, Prog.perform_bind]
  refine .inert trivial rfl (fun _ => rfl) fun f => .ite (fun _ => wdfRequestComplete_idle.uses)
    fun _ => .inert trivial rfl (fun _ => rfl) fun s =>
    .ite (fun _ => wdfRequestComplete_idle.uses) fun _ =>
    .ite (fun _ => wdfRequestComplete_idle.uses) fun _ => .call 0 trivial (add_zero _).symm
    fun r hr => ?_
  cases r with
  | none => exact wdfRequestComplete_idle.uses
  | some op =>
    obtain ⟨hid, hop, hsuits⟩ := hr op rfl
    have hrights : rightLedger.returns (.takeOutstandingRequestById
        (ReadEventComplete.decode request.input).requestId) (some op) + 0 = opRights op :=
      add_zero _
    rw [hrights]
    refine .ite (fun _ => ?_) fun hne => ?_
    · have hanswer := (answerReadyForRead_uses (l := .ioctl request)
        (ReadEventComplete.decode request.input)).spare (x := opRights op) fun _ _ => trivial
      rw [zero_add] at hanswer
      exact .bind _ hanswer fun _ => Idle.uses (idle_call trivial rfl fun _ =>
        wdfRequestComplete_idle)
    · rw [← hid] at hne
      obtain ⟨h, hh⟩ := handle_of_id hop hne
      refine .ite (fun hs => ?_) fun hs => ?_
      · have hcovers (hread : op.type.isRead) : (ReadEventComplete.decode request.input).data.covers
            (min (ReadEventComplete.decode request.input).dataLength
              op.hidTransferPacket.reportBufferLen).toNat := by
          simp only [suits, hcode, hs, hread, beq_eq_false_iff_ne.mpr hne, Bool.false_or,
            Bool.not_true, decide_eq_true_eq] at hsuits
          exact hsuits
        refine .bind _ (fillReportBuffer_uses _ hh hcovers) fun _ => complete_uses 0 hh ?_
        simp [completeRights, hs]
      · refine complete_uses ({.carries h op.hidTransferPacket op.type} +
          if op.type.isRead && op.hidTransferPacket.reportBufferLen != 0 then 0
            else {.succeed h}) hh ?_
        rw [completeRights_failure (by simpa using hs), opRights_some hh, rights, add_assoc]

end

/-! ## Any interleaving -/

section
variable {w v : World} {l : Event} {P : Pool Event Call Call.Resp World}

theorem rights_opened :
    rightLedger.Balanced (⟨[], World.opened⟩ : Pool Event Call Call.Resp World) [] :=
  ⟨.nil, ⟨0, nofun, rfl⟩, .inr rfl, nofun, nofun, .nil, by simp [World.opened]⟩

theorem ioctl_uses (request : Request) :
    Uses (.ioctl request) 0 (winUHidEvtIoDeviceControl request) fun _ => 0 := by
  unfold winUHidEvtIoDeviceControl
  cases hcode : request.code with
  | getInterfaceVersion => exact getInterfaceVersion_plain.idle.uses
  | setDeviceInfo => exact setDeviceInfo_configuring.plain.idle.uses
  | setReportDescriptor => exact setReportDescriptor_configuring.plain.idle.uses
  | setInstanceId => exact setInstanceId_configuring.plain.idle.uses
  | setHardwareIds => exact setHardwareIds_configuring.plain.idle.uses
  | createDevice => exact createDevice_configuring.plain.idle.uses
  | startDevice => exact startDevice_plain.idle.uses
  | getNextEvent => exact getNextEvent_plain.idle.uses
  | completeWriteEvent => exact completeWriteEvent_uses hcode
  | completeReadEvent => exact completeReadEvent_uses hcode
  | other | write => exact wdfRequestComplete_idle.uses

theorem RightInv.issue (hw : RightInv w) (hle : storedRights w ≤ grantedRights w)
    {handle : VhfOperationHandle} {packet : HidXferPacket} {type : EventType}
    (hfresh : handle ∉ w.issued.map (·.1)) :
    RightInv { w with issued := w.issued ++ [(handle, packet, type)] } := by
  refine ⟨hw.sizes, hw.waiting, hw.outstanding, by simpa using List.Nodup.concat hfresh hw.issued,
    fun calls call later hsplit => ?_⟩
  have hallowed := hw.history calls call later hsplit
  have hissuedAs {op : OperationContext} (h : IssuedAs w.issued op) :
      IssuedAs (w.issued ++ [(handle, packet, type)]) op := by
    obtain ⟨h, packet, hh, hmem, hpacket⟩ := h
    exact ⟨h, packet, hh, List.mem_append_left _ hmem, hpacket⟩
  cases call with
  | complete completed status =>
    obtain ⟨h, rfl, hfilled⟩ := hallowed
    refine ⟨h, rfl, fun hs packet' type' hmem hread => ?_⟩
    rcases List.mem_append.mp hmem with hmem | hmem
    · exact hfilled hs packet' type' hmem hread
    · cases List.mem_singleton.mp hmem
      have hcompleted : handle ∈ completedHandles w.vhf := by
        show handle ∈ completedHandles w.vhf
        rw [show w.vhf = calls ++ .complete (some handle) status :: later from hsplit]
        simp [completedHandles, VhfCall.completedHandle]
      exact absurd ((completed_once hle hw.issued).2 handle hcompleted) hfresh
  | copyMemory op source len => exact ⟨hissuedAs hallowed.1, hallowed.2⟩
  | zeroMemory op offset len => exact ⟨hissuedAs hallowed.1, hallowed.2⟩
  | _ => trivial

theorem right_arrive (hw : RightInv w) (hle : storedRights w ≤ grantedRights w)
    (ha : driver.arrive l w = some v) :
    ∃ x, rightLedger.Spends l (driver.handler l) x ∧ rightLedger.Exchange 0 x w v ∧
      RightInv v := by
  have haccept {request : Request} (ha : w.accept request = some v) :
      rightLedger.Exchange 0 0 w v ∧ RightInv v := by
    simp only [World.accept, Option.ite_none_left_eq_some, Option.some.injEq] at ha
    obtain ⟨-, rfl⟩ := ha
    exact ⟨.of_eq rfl, hw.sizes, hw.waiting, hw.outstanding, hw.issued, hw.history⟩
  cases l with
  | ioctl request =>
    simp only [driver, arrive, Option.ite_none_left_eq_some] at ha
    exact ⟨0, (ioctl_uses request).spends, haccept ha.2⟩
  | write request =>
    simp only [driver, arrive, Option.ite_none_right_eq_some] at ha
    exact ⟨0, winUHidEvtIoWrite_idle.uses.spends, haccept ha.2⟩
  | asyncOperation handle packet type =>
    simp only [driver, arrive, Option.ite_none_right_eq_some, Option.some.injEq, Bool.and_eq_true,
      decide_eq_true_eq] at ha
    obtain ⟨⟨-, hfresh⟩, rfl⟩ := ha
    refine ⟨_, (asyncOperation_uses handle packet type).spends, .of_eq ?_, hw.issue hle hfresh⟩
    simp only [rightLedger, storedRights, grantedRights, List.map_append, List.sum_append,
      List.map_cons, List.map_nil, List.sum_cons, List.sum_nil]
    abel
  | readyForNextReadReport =>
    simp only [driver, arrive, Option.ite_none_right_eq_some, Option.some.injEq] at ha
    obtain ⟨-, rfl⟩ := ha
    exact ⟨0, readyForNextReadReport_uses.spends, .of_eq rfl, hw⟩
  | close =>
    simp only [driver, arrive, Option.ite_none_left_eq_some, Option.some.injEq] at ha
    obtain ⟨-, rfl⟩ := ha
    exact ⟨0, winUHidEvtDeviceFileClose_idle.uses.spends, .of_eq rfl, hw.sizes, hw.waiting,
      hw.outstanding, hw.issued, hw.history⟩

theorem right_balanced (hP : Reach driver (fun P m => Suited P m) ⟨[], World.opened⟩ P) :
    ∃ ms, rightLedger.Balanced P ms := by
  induction hP with
  | init => exact ⟨[], rights_opened⟩
  | @move P P' m _ hok hm ih =>
    obtain ⟨ms, h⟩ := ih
    refine h.move hm (fun l w _ ha => right_arrive h.inv h.stored_le ha)
      fun i o l c k r w hstep ht hallowed hheld he => ?_
    subst hstep
    refine right_call h.inv hallowed hheld (fun id hc op hop => ?_) he
    subst hc
    have hfind : P.world.file.outstandingRequests.find? (·.requestId == id) = some op := hop
    simpa [Suited, ht, hfind] using hok

/-- In runs whose IOCTLs suit the operations they take, every completion is of a handle that VHF
issued, the first of it, and with success only when its buffer is filled. -/
theorem completions_good (hP : Reach driver (fun P m => Suited P m) ⟨[], World.opened⟩ P) :
    GoodCompletions P.world := by
  obtain ⟨ms, h⟩ := right_balanced hP
  have hw : RightInv P.world := h.inv
  obtain ⟨honce, hissued⟩ := completed_once h.stored_le hw.issued
  intro calls handle status later hsplit
  obtain ⟨k, rfl, hfilled⟩ := hw.history calls _ later hsplit
  have hhandles : completedHandles P.world.vhf =
      completedHandles calls ++ k :: completedHandles later := by
    simp [hsplit, completedHandles, VhfCall.completedHandle]
  rw [hhandles] at honce hissued
  refine ⟨k, rfl, hissued k (by simp), fun hmem => ?_, hfilled⟩
  exact (List.nodup_append.mp honce).2.2 k hmem k (by simp) rfl

/-- VHF asks for an input report, and a client answers with three of its five bytes. -/
def answeredRead : List (Event × List Outcome) :=
  [(.asyncOperation 7 ⟨⟨List.replicate 5 0, 0⟩, 5, 0⟩ .readReport,
      [.made Status.success 1, .ok, .ok, fine, .status Status.notFound]),
    (.ioctl ⟨5, .getNextEvent, [], List.replicate 14 0⟩, [.ok, .tried TryOutcome.fine, .ok]),
    (.ioctl ⟨6, .completeReadEvent, u32Bytes 0x80000001 ++ u32Bytes 0 ++ u32Bytes 3 ++ [1, 2, 0], []⟩,
      [.ok, fine, .ok, .ok, .ok, fine, .ok, .ok])]

theorem completions_good_answered :
    ∃ P : Pool Event Call Call.Resp World, completedHandles P.world.vhf = [7] ∧
      GoodCompletions P.world := by
  have hplay : (Pool.replay driver Suited (serial 0 (createGun ++ answeredRead))
      ⟨[], World.opened⟩).map (fun P => completedHandles P.world.vhf) = some [7] := by
    decide +kernel
  obtain ⟨P, hP, hhandles⟩ := Option.map_eq_some_iff.mp hplay
  exact ⟨P, hhandles, completions_good (Reach.replay .init hP)⟩

/-- A client answers a ready-for-read event with the IOCTL for writes. -/
def answeredPseudo : List (Event × List Outcome) :=
  [(.readyForNextReadReport, [.made Status.success 1, fine, .status Status.notFound]),
    (.ioctl ⟨5, .getNextEvent, [], List.replicate 14 0⟩, [.ok, .tried TryOutcome.fine, .ok]),
    (.ioctl ⟨6, .completeWriteEvent, u32Bytes 0 ++ u32Bytes 0, []⟩, [.ok, fine, .ok, fine, .ok, .ok])]

/-- The driver completes the empty handle. -/
theorem completes_empty_handle :
    ¬ ∀ P, Reach driver (fun _ _ => True) ⟨[], World.opened⟩ P → GoodCompletions P.world := by
  intro h
  have hplay : (Pool.replay driver (fun _ _ => true) (serial 0 (createGun ++ answeredPseudo))
      ⟨[], World.opened⟩).map (fun P => P.world.vhf.contains (.complete none Status.success)) =
        some true := by decide +kernel
  obtain ⟨P, hP, hmem⟩ := Option.map_eq_some_iff.mp hplay
  obtain ⟨calls, later, hsplit⟩ := List.append_of_mem (by simpa using hmem)
  obtain ⟨handle, hnone, -⟩ :=
    h P ((Reach.replay .init hP).mono fun _ _ _ => trivial) calls none Status.success later hsplit
  cases hnone

end

end VirtualGun.Driver
