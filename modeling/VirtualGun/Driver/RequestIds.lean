import VirtualGun.Driver.Handles
import VirtualGun.Program.Notes
import Mathlib.Data.Fintype.EquivFin

/-!
# Request IDs

A client answers an event with the ID it was delivered under. The IDs come from a counter that wraps,
so they name an operation only for so long.
-/

open VirtualGun.Program

namespace VirtualGun.Driver

/-- A real operation that got its ID. -/
structure Dispatch where
  handle : VhfOperationHandle
  requestId : UInt32
  deriving DecidableEq

/-- `DispatchAsyncOperation` gives an operation its ID when it increments the counter. -/
def dispatches : (l : Event) → (c : Call) → c.Resp → List Dispatch
  | .asyncOperation handle _ _, .interlockedIncrement, counter => [⟨handle, realRequestId counter⟩]
  | _, _, _ => []

/-- VHF still waits for the operation. -/
def Live (w : World) (d : Dispatch) : Prop := d.handle ∉ completedHandles w.vhf

/-- No more than `n` operations, itself among them, were dispatched since a live operation was. -/
def Windowed (n : ℕ) (w : World) (ds : List Dispatch) : Prop :=
  ∀ (i : ℕ) d, ds[i]? = some d → Live w d → ds.length ≤ i + n

/-- The ID a client reads in an event. -/
def eventRequestId (event : List Byte) : UInt32 := u32At event 4

/-- With `ds` dispatched so far, IDs name operations. -/
structure Resolves (w : World) (ds : List Dispatch) : Prop where
  recorded : ∀ op ∈ w.file.waitingRequests ++ w.file.outstandingRequests, ∀ h, op.handle = some h →
    ⟨h, op.requestId⟩ ∈ ds
  nonzero : ∀ d ∈ ds, d.requestId ≠ 0
  distinct : ∀ (i j : ℕ) d e, ds[i]? = some d → ds[j]? = some e → Live w d → Live w e →
    d.requestId = e.requestId → i = j
  found : ∀ before op after stack, w.file.outstandingRequests = before ++ op :: after →
    op.handle.isSome → takeOutstandingRequestById (eventRequestId (eventHeader op stack)) w.file =
      (some op, { w.file with outstandingRequests := before ++ after })
  gone : ∀ (i : ℕ) d, ds[i]? = some d → ¬ Live w d → ds.length ≤ i + 2 ^ 31 →
    takeOutstandingRequestById d.requestId w.file = (none, w.file)

/-! ## The counter -/

theorem topBit_or {n : ℕ} (h : n < 2 ^ 31) : 2 ^ 31 ||| n = 2 ^ 31 + n := by
  have hor := Nat.two_pow_add_eq_or_of_lt h 1
  rw [Nat.mul_one] at hor
  exact hor.symm

theorem realRequestId_toNat (counter : UInt32) :
    (realRequestId counter).toNat = 2 ^ 31 + counter.toNat % 2 ^ 31 := by
  have hlt := counter.toNat_lt
  have hor : (realRequestId counter).toNat = 2 ^ 31 ||| counter.toNat := by
    unfold realRequestId
    rw [UInt32.toNat_or, Nat.or_comm]
    rfl
  have hrest : counter.toNat % 2 ^ 31 < 2 ^ 31 := Nat.mod_lt _ (by decide)
  rw [hor]
  rcases Nat.lt_or_ge counter.toNat (2 ^ 31) with hsmall | hlarge
  · rw [topBit_or hsmall, Nat.mod_eq_of_lt hsmall]
  · -- the top bit is set already
    have hsplit : counter.toNat = 2 ^ 31 ||| counter.toNat % 2 ^ 31 := by
      rw [topBit_or hrest]
      omega
    rw [← topBit_or hrest]
    conv_lhs => rw [hsplit]
    rw [← Nat.or_assoc, Nat.or_self]

theorem realRequestId_eq_iff {i j : ℕ} :
    realRequestId (.ofNat i) = realRequestId (.ofNat j) ↔ i % 2 ^ 31 = j % 2 ^ 31 := by
  rw [← UInt32.toNat_inj, realRequestId_toNat, realRequestId_toNat, UInt32.toNat_ofNat',
    UInt32.toNat_ofNat']
  omega

/-! ## Who counts up -/

/-- A real operation has the ID it was dispatched with, and a pseudo-request has ID 0. -/
def Known (ds : List Dispatch) (op : OperationContext) : Prop :=
  match op.handle with
  | some handle => ⟨handle, op.requestId⟩ ∈ ds
  | none => op.requestId = 0

/-- Only VHF's asynchronous operations are counted, and only what was counted is queued. -/
def keepsCount (l : Event) : Call → List Dispatch → Prop
  | .modifyContext f, _ => Configures f
  | .interlockedIncrement, _ => ∃ handle packet type, l = .asyncOperation handle packet type
  | .queueSection op, ds => Known ds op
  | _, _ => True

/-- Calls that count nothing, and queue no real operation. -/
def uncounted : Call → Prop
  | .modifyContext f => Configures f
  | .interlockedIncrement => False
  | .queueSection op => op.handle = none ∧ op.requestId = 0
  | _ => True

abbrev Uncounted {α : Type} (p : Handler α) : Prop := p.Calls uncounted fun _ _ => True

section
variable {request : Request} {s : NTSTATUS} {op : OperationContext}

theorem Plain.uncounted {α : Type} {p : Handler α} (h : Plain p) : Uncounted p := by
  refine Prog.calls_mono (fun c hc => ?_) (fun _ _ _ => trivial) h
  cases c with
  | modifyContext => exact hc
  | interlockedIncrement | queueSection => exact hc.elim
  | _ => trivial

theorem wdfRequestComplete_uncounted : Uncounted (wdfRequestComplete request s) :=
  wdfRequestComplete_plain.uncounted

theorem winUHidEvtIoWrite_uncounted : Uncounted (winUHidEvtIoWrite request) := by
  simp only [winUHidEvtIoWrite, perform, Prog.perform_bind]
  refine ⟨trivial, fun f _ => ?_⟩
  beta_reduce
  cases f.vhfHandle with
  | none => exact wdfRequestComplete_uncounted
  | some handle =>
    exact ⟨trivial, fun s _ => Prog.calls_ite (fun _ => wdfRequestComplete_uncounted) fun _ =>
      Prog.calls_ite (fun _ => wdfRequestComplete_uncounted) fun _ => ⟨trivial, fun _ _ =>
      ⟨trivial, fun s _ => Prog.calls_ite (fun _ => wdfRequestComplete_uncounted) fun _ =>
      Prog.calls_ite (fun _ => ⟨trivial, fun _ _ => ⟨trivial, fun _ _ => trivial⟩⟩)
        fun _ => ⟨trivial, fun _ _ => trivial⟩⟩⟩⟩

theorem winUHidEvtDeviceFileClose_uncounted : Uncounted winUHidEvtDeviceFileClose := by
  simp only [winUHidEvtDeviceFileClose, perform, Prog.perform_bind]
  refine ⟨trivial, fun r _ => ?_⟩
  beta_reduce
  cases r.vhfHandle with
  | none => trivial
  | some handle =>
    exact Prog.calls_ite (fun _ => ⟨trivial, fun _ _ => ⟨trivial, fun _ _ => trivial⟩⟩)
      fun _ => ⟨trivial, fun _ _ => trivial⟩

theorem completeIfHandle_uncounted (handle : Option VhfOperationHandle) :
    Uncounted (completeIfHandle handle s) :=
  Prog.calls_ite (fun _ => ⟨trivial, fun _ _ => trivial⟩) fun _ => trivial

theorem readyForNextReadReport_uncounted : Uncounted winUHidEvtVhfReadyForNextReadReport := by
  simp only [winUHidEvtVhfReadyForNextReadReport, dispatchAsyncOperation, queueOperation, perform,
    Prog.perform_bind]
  refine ⟨trivial, fun r _ => Prog.calls_ite (fun _ => completeIfHandle_uncounted _) fun _ =>
    ⟨⟨rfl, rfl⟩, fun q _ => ?_⟩⟩
  cases q with
  | queued => exact serviceWaitingRequest_plain.uncounted
  | tooLate | failed =>
    exact Prog.calls_bind (completeIfHandle_uncounted _) fun _ => ⟨trivial, fun _ _ => trivial⟩

theorem completeOperation_uncounted :
    Uncounted (.call (.vhfAsyncOperationComplete op.handle s) fun status =>
      .call (.wdfObjectDelete op.object) fun _ => wdfRequestComplete request status) :=
  ⟨trivial, fun _ _ => ⟨trivial, fun _ _ => wdfRequestComplete_uncounted⟩⟩

theorem completeWriteEvent_uncounted : Uncounted (completeWriteEvent request) := by
  simp only [completeWriteEvent, perform, Prog.perform_bind]
  refine ⟨trivial, fun f _ => Prog.calls_ite (fun _ => wdfRequestComplete_uncounted) fun _ =>
    ⟨trivial, fun s _ => Prog.calls_ite (fun _ => wdfRequestComplete_uncounted) fun _ =>
    ⟨trivial, fun r _ => ?_⟩⟩⟩
  cases r with
  | none => exact wdfRequestComplete_uncounted
  | some op => exact completeOperation_uncounted

theorem answerReadyForRead_uncounted (readComplete : ReadEventComplete) :
    Uncounted (answerReadyForRead readComplete) := by
  simp only [answerReadyForRead, perform, Prog.perform_bind]
  refine Prog.calls_ite (fun _ => ⟨trivial, fun _ _ => ⟨trivial, fun _ _ => trivial⟩⟩) fun _ =>
    Prog.calls_ite (fun _ => ?_) fun _ => trivial
  exact Prog.calls_bind readyForNextReadReport_uncounted fun _ => trivial

theorem fillReportBuffer_uncounted (readComplete : ReadEventComplete) :
    Uncounted (fillReportBuffer op readComplete) := by
  simp only [fillReportBuffer, perform, Prog.perform_bind]
  exact ⟨trivial, fun _ _ => Prog.calls_ite (fun _ => ⟨trivial, fun _ _ => trivial⟩) fun _ => trivial⟩

theorem completeReadEvent_uncounted : Uncounted (completeReadEvent request) := by
  simp only [completeReadEvent, perform, Prog.perform_bind]
  refine ⟨trivial, fun f _ => Prog.calls_ite (fun _ => wdfRequestComplete_uncounted) fun _ =>
    ⟨trivial, fun s _ => Prog.calls_ite (fun _ => wdfRequestComplete_uncounted) fun _ =>
    Prog.calls_ite (fun _ => wdfRequestComplete_uncounted) fun _ => ⟨trivial, fun r _ => ?_⟩⟩⟩
  cases r with
  | none => exact wdfRequestComplete_uncounted
  | some op =>
    refine Prog.calls_ite (fun _ => Prog.calls_bind (answerReadyForRead_uncounted _) fun _ =>
      ⟨trivial, fun _ _ => wdfRequestComplete_uncounted⟩) fun _ => Prog.calls_ite (fun _ => ?_) fun _ => ?_
    · exact Prog.calls_bind (fillReportBuffer_uncounted _) fun _ => completeOperation_uncounted
    · exact completeOperation_uncounted

theorem ioctl_uncounted : Uncounted (winUHidEvtIoDeviceControl request) := by
  unfold winUHidEvtIoDeviceControl
  cases request.code with
  | getInterfaceVersion => exact getInterfaceVersion_plain.uncounted
  | setDeviceInfo => exact setDeviceInfo_configuring.plain.uncounted
  | setReportDescriptor => exact setReportDescriptor_configuring.plain.uncounted
  | setInstanceId => exact setInstanceId_configuring.plain.uncounted
  | setHardwareIds => exact setHardwareIds_configuring.plain.uncounted
  | createDevice => exact createDevice_configuring.plain.uncounted
  | startDevice => exact startDevice_plain.uncounted
  | getNextEvent => exact getNextEvent_plain.uncounted
  | completeWriteEvent => exact completeWriteEvent_uncounted
  | completeReadEvent => exact completeReadEvent_uncounted
  | other | write => exact wdfRequestComplete_uncounted

end

abbrev Counting (l : Event) {α : Type} (p : Handler α) (ds : List Dispatch) : Prop :=
  p.Heeds keepsCount dispatches l ds

section
variable {l : Event} {ds : List Dispatch} {α : Type}

theorem Uncounted.counting {p : Handler α} (h : Uncounted p) : Counting l p ds := by
  refine Prog.heeds_of_calls (fun c ds hc => ?_) h ds
  cases c with
  | modifyContext => exact hc
  | interlockedIncrement => exact hc.elim
  | queueSection op =>
    show Known ds op
    simp only [Known, hc.1, hc.2]
  | _ => trivial

/-- The ID is noted between its increment and the queueing. -/
theorem asyncOperation_counting (handle : VhfOperationHandle) (packet : HidXferPacket)
    (type : EventType) : Counting (.asyncOperation handle packet type)
      (dispatchAsyncOperation (some handle) (some packet) type) ds := by
  have hdiscard {object : WdfObject} {s : NTSTATUS} : Uncounted (completeIfHandle (some handle) s >>=
      fun _ => Prog.perform (Call.wdfObjectDelete object)) :=
    Prog.calls_bind (completeIfHandle_uncounted _) fun _ => ⟨trivial, fun _ _ => trivial⟩
  simp only [dispatchAsyncOperation, queueOperation, perform, Prog.perform_bind]
  refine fun ds₁ _ => ⟨trivial, fun r => ?_⟩
  beta_reduce
  split
  · exact (completeIfHandle_uncounted _).counting
  refine fun ds₂ _ => ⟨⟨handle, packet, type, rfl⟩, fun counter ds₃ hds₃ => ⟨trivial, fun f => ?_⟩⟩
  beta_reduce
  split
  · exact hdiscard.counting
  refine fun ds₄ hds₄ => ⟨?_, fun q => ?_⟩
  · show (⟨handle, realRequestId counter⟩ : Dispatch) ∈ ds₄
    apply hds₄.subset
    apply List.mem_append_left
    apply hds₃.subset
    simp [dispatches]
  · cases q with
    | queued => exact serviceWaitingRequest_plain.uncounted.counting
    | tooLate | failed => exact hdiscard.counting

theorem handler_counting : Counting l (driver.handler l) ds := by
  cases l with
  | ioctl request => exact ioctl_uncounted.counting
  | write request => exact winUHidEvtIoWrite_uncounted.counting
  | asyncOperation handle packet type => exact asyncOperation_counting handle packet type
  | readyForNextReadReport => exact readyForNextReadReport_uncounted.counting
  | close => exact winUHidEvtDeviceFileClose_uncounted.counting

end

/-! ## The numbers given out -/

/-- The counter counts the dispatches, and every operation in a collection is known. -/
structure Numbered (w : World) (ds : List Dispatch) : Prop where
  counter : w.file.nextRequestId = .ofNat ds.length
  ids : ∀ (i : ℕ) d, ds[i]? = some d → d.requestId = realRequestId (.ofNat (i + 1))
  waiting : ∀ op ∈ w.file.waitingRequests, Known ds op
  outstanding : ∀ op ∈ w.file.outstandingRequests, Known ds op

section
variable {l : Event} {c : Call} {o : Outcome} {r : c.Resp} {w w' : World} {ds ds' : List Dispatch}
  {op : OperationContext}

theorem Known.later (h : Known ds op) (hds : ds <+: ds') : Known ds' op := by
  unfold Known at h ⊢
  split
  · next handle hh =>
    rw [hh] at h
    exact hds.subset h
  · next hh =>
    rw [hh] at h
    exact h

theorem Numbered.opened : Numbered World.opened [] where
  counter := rfl
  ids _ _ h := by cases h
  waiting := by simp [World.opened, FileContext.created]
  outstanding := by simp [World.opened, FileContext.created]

theorem Numbered.keep (h : Numbered w ds) (hcounter : w'.file.nextRequestId = w.file.nextRequestId)
    (hwaiting : ∀ op ∈ w'.file.waitingRequests, Known ds op)
    (houtstanding : ∀ op ∈ w'.file.outstandingRequests, Known ds op) : Numbered w' ds :=
  ⟨hcounter.trans h.counter, h.ids, hwaiting, houtstanding⟩

theorem Numbered.increment (h : Numbered w ds) (handle : VhfOperationHandle) :
    Numbered { w with file := { w.file with nextRequestId := w.file.nextRequestId + 1 } }
      (ds ++ [⟨handle, realRequestId (w.file.nextRequestId + 1)⟩]) := by
  have hnext : w.file.nextRequestId + 1 = .ofNat (ds.length + 1) := by
    rw [h.counter, UInt32.ofNat_add]
    rfl
  refine ⟨?_, fun i d hd => ?_, fun op hop => ?_, fun op hop => ?_⟩
  · rw [List.length_append, List.length_singleton]
    exact hnext
  · rcases Nat.lt_or_ge i ds.length with hlt | hge
    · rw [List.getElem?_append_left hlt] at hd
      exact h.ids i d hd
    · rw [List.getElem?_append_right hge, List.getElem?_singleton] at hd
      obtain ⟨hi, rfl⟩ := Option.ite_none_right_eq_some.mp hd |>.imp_right Option.some.inj
      have hlen : i = ds.length := by omega
      rw [hlen, hnext]
  · exact (h.waiting op hop).later (List.prefix_append _ _)
  · exact (h.outstanding op hop).later (List.prefix_append _ _)

theorem dispatches_nil (hc : c ≠ .interlockedIncrement) : dispatches l c r = [] := by
  cases l <;> cases c <;> first | rfl | exact absurd rfl hc

theorem numbered_call (h : Numbered w ds) (hcount : keepsCount l c ds)
    (he : exec c o w = some (r, w')) : Numbered w' (ds ++ dispatches l c r) := by
  by_cases hc : c = .interlockedIncrement
  · subst hc
    obtain ⟨handle, packet, type, rfl⟩ := hcount
    obtain ⟨-, rfl, rfl⟩ := exec_increment.mp he
    exact h.increment handle
  rw [dispatches_nil hc, List.append_nil]
  cases c with
  | interlockedIncrement => exact absurd rfl hc
  | modifyContext f =>
    obtain ⟨-, rfl⟩ := exec_modifyContext.mp he
    refine h.keep (hcount.nextRequestId _) ?_ ?_
    · rw [show (f w.file).waitingRequests = _ from hcount.waitingRequests _]
      exact h.waiting
    · rw [show (f w.file).outstandingRequests = _ from hcount.outstandingRequests _]
      exact h.outstanding
  | queueSection op =>
    obtain ⟨add, -, -, rfl⟩ := exec_queueSection.mp he
    rcases queueSection_cases op add w.file with ⟨-, hfile⟩ | ⟨-, -, hfile⟩
    · rw [hfile]
      exact h.keep rfl h.waiting h.outstanding
    · rw [hfile]
      refine h.keep rfl (fun q hq => ?_) h.outstanding
      rcases List.mem_append.mp hq with hq | hq
      · exact h.waiting q hq
      · rw [List.mem_singleton.mp hq]
        exact hcount
  | tryCompleteSection request =>
    obtain ⟨t, -, -, rfl⟩ := exec_tryComplete.mp he
    rcases tryCompleteSection_cases t request.output w.file with ⟨-, hfile⟩ | ⟨-, op, rest, hwait, hfile⟩
    · rw [hfile]
      exact h.keep rfl h.waiting h.outstanding
    · have hwaiting := h.waiting
      rw [hwait, List.forall_mem_cons] at hwaiting
      rw [hfile]
      refine h.keep rfl hwaiting.2 fun q hq => ?_
      rcases List.mem_append.mp hq with hq | hq
      · exact h.outstanding q hq
      · rw [List.mem_singleton.mp hq]
        exact hwaiting.1
  | takeOutstandingRequestById id =>
    obtain ⟨-, -, rfl⟩ := exec_take.mp he
    exact h.keep rfl h.waiting fun op hop => h.outstanding op (takeOutstandingRequestById_mem hop)
  | storeLastReport report =>
    obtain ⟨-, rfl⟩ := exec_storeLastReport.mp he
    exact h.keep rfl h.waiting h.outstanding
  | rundownSection =>
    obtain ⟨-, -, rfl⟩ := exec_rundown.mp he
    exact h.keep rfl (by simp [World.afterRundown, rundownSection])
      (by simp [World.afterRundown, rundownSection])
  | vhfCreate =>
    obtain ⟨handle, -, rfl⟩ := exec_create.mp he
    unfold World.created
    split
    · exact h.keep rfl h.waiting h.outstanding
    · exact h.keep rfl h.waiting h.outstanding
  | _ =>
    have hfile := exec_file he rfl
    refine h.keep ?_ ?_ ?_
    · rw [hfile]
    · rw [hfile]
      exact h.waiting
    · rw [hfile]
      exact h.outstanding

theorem numbered_arrive (h : Numbered w ds) (ha : driver.arrive l w = some w') : Numbered w' ds := by
  obtain ⟨hfile, -⟩ := arrive_file ha
  refine h.keep ?_ ?_ ?_
  · rw [hfile]
  · rw [hfile]
    exact h.waiting
  · rw [hfile]
    exact h.outstanding

theorem noted_numbered {ok : World → List Dispatch → Prop} {P : Pool Event Call Call.Resp World}
    (hP : Noted driver dispatches ok World.opened P ds) : Numbered P.world ds := by
  have hinv := hP.inv (J := Numbered) .opened
    (fun l w w' ds h ha => ⟨numbered_arrive h ha, handler_counting⟩)
    fun l c o r w w' ds h hcount he => numbered_call h hcount he
  exact hinv.1

end

/-! ## IDs resolve -/

section
variable {w : World} {ds : List Dispatch} {op : OperationContext} {f : FileContext}
  {P : Pool Event Call Call.Resp World}

theorem eventRequestId_eq (op : OperationContext) (stack : Byte) :
    eventRequestId (eventHeader op stack) = op.requestId := by
  unfold eventRequestId eventHeader
  rw [List.append_assoc, List.append_assoc, List.append_assoc]
  exact u32At_u32Bytes (u32Bytes op.type.value) _ op.requestId

theorem Known.real (h : Known ds op) (hid : op.requestId ≠ 0) :
    ∃ handle, op.handle = some handle ∧ ⟨handle, op.requestId⟩ ∈ ds := by
  unfold Known at h
  split at h
  · next handle hh => exact ⟨handle, hh, h⟩
  · exact absurd h hid

theorem take_eq {before after : List OperationContext}
    (hsplit : f.outstandingRequests = before ++ op :: after)
    (hbefore : ∀ q ∈ before, q.requestId ≠ op.requestId) :
    takeOutstandingRequestById op.requestId f =
      (some op, { f with outstandingRequests := before ++ after }) := by
  have hnone : ∀ q ∈ before, ¬ (q.requestId == op.requestId) = true := by
    intro q hq
    simpa using hbefore q hq
  unfold takeOutstandingRequestById
  rw [hsplit, List.find?_append, List.find?_eq_none.mpr hnone, List.eraseP_append_right _ hnone]
  simp

theorem take_none {id : UInt32} (h : ∀ q ∈ f.outstandingRequests, q.requestId ≠ id) :
    takeOutstandingRequestById id f = (none, f) := by
  have hnone : ∀ q ∈ f.outstandingRequests, ¬ (q.requestId == id) = true := by
    intro q hq
    simpa using h q hq
  unfold takeOutstandingRequestById
  rw [List.find?_eq_none.mpr hnone, List.eraseP_of_forall_not hnone]

theorem Numbered.nonzero (h : Numbered w ds) {d : Dispatch} (hd : d ∈ ds) : d.requestId ≠ 0 := by
  obtain ⟨i, hi⟩ := List.getElem?_of_mem hd
  rw [h.ids i d hi]
  exact realRequestId_ne_zero _

theorem Numbered.requestId_inj (h : Numbered w ds) {i j : ℕ} {d e : Dispatch} (hd : ds[i]? = some d)
    (he : ds[j]? = some e) (hi : ds.length ≤ i + 2 ^ 31) (hj : ds.length ≤ j + 2 ^ 31)
    (hid : d.requestId = e.requestId) : i = j := by
  have hilt := (List.getElem?_eq_some_iff.mp hd).1
  have hjlt := (List.getElem?_eq_some_iff.mp he).1
  rw [h.ids i d hd, h.ids j e he, realRequestId_eq_iff] at hid
  omega

/-- In every run in which no more than 2^31 operations are dispatched from the dispatch of one to its
completion, IDs name operations. -/
theorem ids_resolve (hP : Noted driver dispatches (Windowed (2 ^ 31)) World.opened P ds) :
    Resolves P.world ds := by
  have hnumbered := noted_numbered hP
  have hnodup := storedHandles_nodup hP.reach
  have hwindow : Windowed (2 ^ 31) P.world ds := hP.admits fun i d hd => by simp at hd
  -- what is outstanding is live, and so inside the window
  have houtstanding {q : OperationContext} (hq : q ∈ P.world.file.outstandingRequests)
      (hid : q.requestId ≠ 0) : ∃ handle j, q.handle = some handle ∧
        ds[j]? = some ⟨handle, q.requestId⟩ ∧ handle ∉ completedHandles P.world.vhf ∧
        ds.length ≤ j + 2 ^ 31 := by
    obtain ⟨handle, hh, hmem⟩ := (hnumbered.outstanding q hq).real hid
    obtain ⟨j, hj⟩ := List.getElem?_of_mem hmem
    have hlive := outstanding_not_completed hnodup hq hh
    exact ⟨handle, j, hh, hj, hlive, hwindow j _ hj hlive⟩
  constructor
  · intro op hop handle hh
    have hknown : Known ds op := by
      rcases List.mem_append.mp hop with hop | hop
      · exact hnumbered.waiting op hop
      · exact hnumbered.outstanding op hop
    unfold Known at hknown
    rw [hh] at hknown
    exact hknown
  · intro d hd
    exact hnumbered.nonzero hd
  · intro i j d e hd he hlive hlive' hid
    exact hnumbered.requestId_inj hd he (hwindow i d hd hlive) (hwindow j e he hlive') hid
  · intro before op after stack hsplit hsome
    rw [eventRequestId_eq]
    have hop : op ∈ P.world.file.outstandingRequests := by simp [hsplit]
    obtain ⟨handle, hh⟩ := Option.isSome_iff_exists.mp hsome
    have hmem : (⟨handle, op.requestId⟩ : Dispatch) ∈ ds := by
      have hknown := hnumbered.outstanding op hop
      unfold Known at hknown
      rwa [hh] at hknown
    have hid := hnumbered.nonzero hmem
    refine take_eq hsplit fun q hq heq => ?_
    -- an operation of the same ID in front of it is the same dispatch
    have hq' : q ∈ P.world.file.outstandingRequests := by simp [hsplit, hq]
    obtain ⟨h₁, i, hh₁, hi, -, hwin⟩ := houtstanding hop hid
    obtain ⟨h₂, j, hh₂, hj, -, hwin'⟩ := houtstanding hq' (heq ▸ hid)
    obtain rfl := hnumbered.requestId_inj hi hj hwin hwin' heq.symm
    rw [hi] at hj
    have hsame : h₁ = h₂ := congrArg Dispatch.handle (Option.some.inj hj)
    exact outstanding_once hnodup hsplit hh₁ hq (hsame ▸ hh₂)
  · intro i d hd hdone hlen
    have hid := hnumbered.nonzero (List.mem_of_getElem? hd)
    refine take_none fun q hq heq => ?_
    obtain ⟨handle, j, -, hj, hlive, hwin⟩ := houtstanding hq (heq ▸ hid)
    obtain rfl := hnumbered.requestId_inj hd hj hlen hwin heq.symm
    rw [hd] at hj
    apply hdone
    unfold Live
    rw [Option.some.inj hj]
    exact hlive

end

/-! ## Runs in which few operations are live at once -/

/-- All but the last `k` dispatches are completed. -/
def settledBut (k : ℕ) (w : World) (ds : List Dispatch) : Bool :=
  (ds.take (ds.length - k)).all fun d => d.handle ∈ completedHandles w.vhf

theorem windowed_of_settled {k : ℕ} {w : World} {ds : List Dispatch} (h : settledBut k w ds = true) :
    Windowed k w ds := by
  intro i d hd hlive
  rcases Nat.lt_or_ge i (ds.length - k) with hlt | hge
  · have hmem : d ∈ ds.take (ds.length - k) := by
      apply List.mem_of_getElem? (i := i)
      rw [List.getElem?_take_of_lt hlt]
      exact hd
    have hdone := List.all_eq_true.mp h d hmem
    exact absurd (of_decide_eq_true hdone) hlive
  · omega

/-- VHF asks for two input reports, and a client takes both events. -/
def takenReads : List (Event × List Outcome) :=
  [(.asyncOperation 7 ⟨⟨List.replicate 5 0, 0⟩, 5, 0⟩ .readReport,
      [.made Status.success 1, .ok, .ok, fine, .status Status.notFound]),
    (.asyncOperation 8 ⟨⟨List.replicate 5 0, 0⟩, 5, 0⟩ .readReport,
      [.made Status.success 2, .ok, .ok, fine, .status Status.notFound]),
    (.ioctl ⟨5, .getNextEvent, [], List.replicate 14 0⟩, [.ok, .tried TryOutcome.fine, .ok]),
    (.ioctl ⟨6, .getNextEvent, [], List.replicate 14 0⟩, [.ok, .tried TryOutcome.fine, .ok])]

theorem ids_resolve_read : ∃ P : Pool Event Call Call.Resp World,
    P.world.file.outstandingRequests.map (·.requestId) = [0x80000001, 0x80000002] ∧
      completedHandles P.world.vhf = [] ∧ Resolves P.world [⟨7, 0x80000001⟩, ⟨8, 0x80000002⟩] := by
  have hplay : (Pool.noted driver dispatches (settledBut 2) (serial 0 (createGun ++ takenReads))
      (⟨[], World.opened⟩, [])).map (fun x => (x.1.world.file.outstandingRequests.map (·.requestId),
        completedHandles x.1.world.vhf, x.2)) =
      some ([0x80000001, 0x80000002], [], [⟨7, 0x80000001⟩, ⟨8, 0x80000002⟩]) := by decide +kernel
  obtain ⟨⟨P, ds⟩, hx, hfacts⟩ := Option.map_eq_some_iff.mp hplay
  simp only [Prod.mk.injEq] at hfacts
  obtain ⟨hids, hcompleted, rfl⟩ := hfacts
  have hP := Noted.init.play (fun w ds => windowed_of_settled) hx
  refine ⟨P, hids, hcompleted, ids_resolve (hP.mono fun w ds h i d hd hlive => ?_)⟩
  have hle := h i d hd hlive
  omega

/-! ## An ID comes back -/

/-- All operations are completed, and the device goes on. -/
structure Resting (w : World) (ds : List Dispatch) : Prop where
  done : ∀ d ∈ ds, ¬ Live w d
  deviceLive : w.deviceLive = true
  vhfHandle : w.file.vhfHandle.isSome
  closing : w.closing = false
  input : (w.file.reportSizes 0).inputReportSize ≠ 0
  waiting : w.file.waitingRequests = []
  outstanding : w.file.outstandingRequests = []

section
variable {ts : List (Thread Event Call Call.Resp)} {w : World} {ds : List Dispatch}

theorem Resting.settled (h : Resting w ds) {w' : World} (hvhf : w'.vhf = w.vhf) (d : Dispatch) :
    settledBut 1 w' ds = true ∧ settledBut 1 w' (ds ++ [d]) = true := by
  have hdone (e) (he : e ∈ ds) : e.handle ∈ completedHandles w'.vhf := by
    rw [hvhf]
    exact not_not.mp (h.done e he)
  have hall : (ds ++ [d]).take ((ds ++ [d]).length - 1) = ds := by simp
  unfold settledBut
  rw [hall]
  constructor
  · exact List.all_eq_true.mpr fun e he => decide_eq_true (hdone e (List.mem_of_mem_take he))
  · exact List.all_eq_true.mpr fun e he => decide_eq_true (hdone e he)

/-- The packet of an empty input report. -/
def emptyPacket : HidXferPacket := ⟨⟨[], 0⟩, 0, 0⟩

theorem Resting.dispatch (h : Resting w ds)
    (hP : Noted driver dispatches (Windowed 1) World.opened ⟨ts, w⟩ ds) :
    ∃ l op w' handle, op.handle = some handle ∧ op.type = EventType.readReport ∧
      op.requestId = realRequestId (.ofNat (ds.length + 1)) ∧
      w'.vhf = w.vhf ∧ w'.closing = w.closing ∧
      w'.file = { w.file with nextRequestId := w.file.nextRequestId + 1 } ∧
      Noted driver dispatches (Windowed 1) World.opened
        ⟨ts ++ [⟨l, queueOperation op op.handle⟩], w'⟩ (ds ++ [⟨handle, op.requestId⟩]) := by
  obtain ⟨handle, hhandle⟩ := Infinite.exists_notMem_finset (w.issued.map (·.1)).toFinset
  obtain ⟨object, hobject⟩ := Infinite.exists_notMem_finset w.objects.toFinset
  rw [List.mem_toFinset] at hhandle hobject
  have hcounter : w.file.nextRequestId + 1 = .ofNat (ds.length + 1) := by
    rw [(noted_numbered hP).counter, UInt32.ofNat_add]
    rfl
  let w₁ := { w with issued := w.issued ++ [(handle, emptyPacket, EventType.readReport)] }
  let w₂ := { w₁ with objects := w₁.objects ++ [object] }
  let w₃ := { w₂ with file := { w₂.file with nextRequestId := w₂.file.nextRequestId + 1 } }
  let d : Dispatch := ⟨handle, realRequestId (w.file.nextRequestId + 1)⟩
  have hsettled {w' : World} (hvhf : w'.vhf = w.vhf) : Windowed 1 w' ds ∧ Windowed 1 w' (ds ++ [d]) :=
    (h.settled hvhf d).imp windowed_of_settled windowed_of_settled
  have harrive : driver.arrive (.asyncOperation handle emptyPacket .readReport) w = some w₁ := by
    simp [driver, arrive, w₁, h.deviceLive, hhandle]
  have hcreate : driver.exec .wdfObjectCreate (.made Status.success object) w₁ =
      some ((Status.success, object), w₂) :=
    (exec_objectCreate (w := w₁) (r := (Status.success, object))).mpr ⟨rfl, fun _ => hobject, rfl⟩
  have hincrement : driver.exec .interlockedIncrement .ok w₂ = some (w₂.file.nextRequestId + 1, w₃) :=
    exec_increment.mpr ⟨rfl, rfl, rfl⟩
  have hread : driver.exec .readContext .ok w₃ = some (w₃.file, w₃) :=
    exec_readContext.mpr ⟨rfl, rfl, rfl⟩
  have h₁ := hP.arrive harrive (hsettled rfl).1
  have h₂ := h₁.silent hcreate rfl (hsettled rfl).1
  have h₃ := h₂.last hincrement (hsettled rfl).2
  have h₄ := h₃.silent hread rfl (hsettled rfl).2
  let op : OperationContext := ⟨object, .readReport, realRequestId (w.file.nextRequestId + 1), some handle,
    clampPacket emptyPacket (w.file.reportSizes 0).inputReportSize⟩
  refine ⟨.asyncOperation handle emptyPacket .readReport, op, w₃, handle, rfl, rfl, ?_, rfl, rfl, rfl, ?_⟩
  · rw [← hcounter]
  · -- the report has a size
    have hqueue : (if reportSizeOf (w₃.file.reportSizes 0) .readReport = 0 then
        completeIfHandle (some handle) Status.unsuccessful >>= fun _ => perform (.wdfObjectDelete object)
        else queueOperation op op.handle) = queueOperation op op.handle := if_neg h.input
    rw [← hqueue]
    exact h₄

theorem Resting.refuse (h : Resting w ds)
    (hP : Noted driver dispatches (Windowed 1) World.opened ⟨ts, w⟩ ds) :
    ∃ ts' w' d, Noted driver dispatches (Windowed 1) World.opened ⟨ts', w'⟩ (ds ++ [d]) ∧
      Resting w' (ds ++ [d]) := by
  obtain ⟨l, op, w₁, handle, hh, -, -, hvhf, hclosing, hfile, h₁⟩ := h.dispatch hP
  rw [hh] at h₁
  let d : Dispatch := ⟨handle, op.requestId⟩
  let w₂ := w₁.call (.complete (some handle) Status.unsuccessful)
  have hqueue : driver.exec (.queueSection op) (.status Status.unsuccessful) w₁ =
      some (.failed Status.unsuccessful, w₁) := by
    have hsection : queueSection op Status.unsuccessful w₁.file =
        (.failed Status.unsuccessful, w₁.file) := by
      have hhandle : w₁.file.vhfHandle.isNone = false := by
        rw [hfile]
        exact Option.isNone_eq_false_iff.mpr h.vhfHandle
      simp [queueSection, hhandle, ntSuccess, Status.unsuccessful]
    refine exec_queueSection.mpr ⟨_, rfl, ?_, ?_⟩
    · rw [hsection]
    · rw [hsection]
      simp [World.afterQueue, added]
  have hcomplete : driver.exec (.vhfAsyncOperationComplete (some handle) Status.unsuccessful) fine w₁ =
      some (Status.success, w₂) := exec_asyncComplete.mpr ⟨rfl, rfl⟩
  have h₂ := h₁.silent hqueue (dispatches_nil (by simp)) (windowed_of_settled (h.settled hvhf d).2)
  have hdone : ∀ e ∈ ds ++ [d], ¬ Live w₂ e := by
    intro e he
    unfold Live
    rw [not_not, completedHandles_call, hvhf, List.mem_append]
    rcases List.mem_append.mp he with he | he
    · exact .inl (not_not.mp (h.done e he))
    · rw [List.mem_singleton.mp he]
      exact .inr (by simp [d, VhfCall.completedHandle])
  have h₃ := h₂.silent hcomplete (dispatches_nil (by simp)) fun i e he hlive =>
    absurd hlive (hdone e (List.mem_of_getElem? he))
  refine ⟨_, w₂, d, h₃, hdone, ?_, ?_, ?_, ?_, ?_, ?_⟩
  · have hlive := h.deviceLive
    simp only [World.deviceLive] at hlive ⊢
    simp [w₂, World.call, hvhf, VhfCall.createsDevice, VhfCall.isDelete, hlive]
  · show w₁.file.vhfHandle.isSome
    rw [hfile]
    exact h.vhfHandle
  · exact hclosing.trans h.closing
  · show (w₁.file.reportSizes 0).inputReportSize ≠ 0
    rw [hfile]
    exact h.input
  · show w₁.file.waitingRequests = []
    rw [hfile]
    exact h.waiting
  · show w₁.file.outstandingRequests = []
    rw [hfile]
    exact h.outstanding

theorem Resting.refuseAll (h : Resting w ds)
    (hP : Noted driver dispatches (Windowed 1) World.opened ⟨ts, w⟩ ds) (n : ℕ) :
    ∃ ts' w' es, es.length = n ∧
      Noted driver dispatches (Windowed 1) World.opened ⟨ts', w'⟩ (ds ++ es) ∧
      Resting w' (ds ++ es) := by
  induction n with
  | zero => exact ⟨ts, w, [], rfl, by rwa [List.append_nil], by rwa [List.append_nil]⟩
  | succ n ih =>
    obtain ⟨ts', w', es, hlen, hP', h'⟩ := ih
    obtain ⟨ts'', w'', d, hP'', h''⟩ := h'.refuse hP'
    rw [List.append_assoc] at hP'' h''
    exact ⟨ts'', w'', es ++ [d], by simp [hlen], hP'', h''⟩

theorem take_event {f : FileContext} {op : OperationContext} (hwaiting : f.waitingRequests = [op])
    (htype : op.type = .readReport) :
    (tryCompleteSection TryOutcome.fine (List.replicate 14 0) f).2 =
      { f with waitingRequests := [], outstandingRequests := f.outstandingRequests ++ [op] } := by
  have hlength : (eventHeader op 0).length = 14 := rfl
  unfold tryCompleteSection
  simp [hwaiting, htype, TryOutcome.fine, memoryCopyFromBuffer, hlength, EventType.isWrite, ntSuccess,
    Status.success]

theorem Resting.deliver (h : Resting w ds)
    (hP : Noted driver dispatches (Windowed 1) World.opened ⟨ts, w⟩ ds) :
    ∃ P d op, Noted driver dispatches (Windowed 1) World.opened P (ds ++ [d]) ∧
      (∀ d ∈ ds, ¬ Live P.world d) ∧ P.world.file.outstandingRequests = [op] ∧
      op.requestId = realRequestId (.ofNat (ds.length + 1)) := by
  obtain ⟨l, op, w₁, handle, hh, htype, hid, hvhf, hclosing, hfile, h₁⟩ := h.dispatch hP
  have hsettled {w' : World} (hw' : w'.vhf = w₁.vhf) : Windowed 1 w' (ds ++ [⟨handle, op.requestId⟩]) :=
    windowed_of_settled (h.settled (hw'.trans hvhf) _).2
  have hhandle : w₁.file.vhfHandle.isNone = false := by
    rw [hfile]
    exact Option.isNone_eq_false_iff.mpr h.vhfHandle
  let f₂ := { w₁.file with waitingRequests := w₁.file.waitingRequests ++ [op] }
  let w₂ := w₁.afterQueue f₂
  have hqueue : driver.exec (.queueSection op) fine w₁ = some (.queued, w₂) := by
    have hsection : queueSection op Status.success w₁.file = (.queued, f₂) := by
      simp [queueSection, hhandle, ntSuccess, Status.success, f₂]
    refine exec_queueSection.mpr ⟨_, rfl, ?_, ?_⟩
    · rw [hsection]
    · rw [hsection]
  have h₂ := h₁.silent hqueue (dispatches_nil (by simp)) (hsettled rfl)
  obtain ⟨id, hfresh⟩ := Infinite.exists_notMem_finset w₁.arrived.toFinset
  rw [List.mem_toFinset] at hfresh
  let request : Request := ⟨id, .getNextEvent, [], List.replicate 14 0⟩
  let w₃ := { w₂ with arrived := w₂.arrived ++ [id] }
  let taken := tryCompleteSection TryOutcome.fine (List.replicate 14 0) w₃.file
  have harrive : driver.arrive (.ioctl request) w₂ = some w₃ := by
    have hopen : w₂.closing = false := hclosing.trans h.closing
    have hfresh : id ∉ w₂.arrived := hfresh
    simp [driver, arrive, World.accept, request, hopen, hfresh, w₃]
  have hread : driver.exec .readContext .ok w₃ = some (w₃.file, w₃) :=
    exec_readContext.mpr ⟨rfl, rfl, rfl⟩
  have htry : driver.exec (.tryCompleteSection request) (.tried TryOutcome.fine) w₃ =
      some (taken.1, w₃.afterTry id taken.2) := exec_tryComplete.mpr ⟨_, rfl, rfl, rfl⟩
  have htaken : taken.2.outstandingRequests = [op] := by
    have hwaiting : w₃.file.waitingRequests = [op] := by
      show w₁.file.waitingRequests ++ [op] = [op]
      rw [hfile]
      exact congrArg (· ++ [op]) h.waiting
    show (tryCompleteSection TryOutcome.fine (List.replicate 14 0) w₃.file).2.outstandingRequests = _
    rw [take_event hwaiting htype]
    show w₁.file.outstandingRequests ++ [op] = [op]
    rw [hfile]
    exact congrArg (· ++ [op]) h.outstanding
  have h₃ := h₂.arrive harrive (hsettled rfl)
  rw [show driver.handler (.ioctl request) = getNextEvent request from rfl] at h₃
  simp only [getNextEvent, perform, Prog.perform_bind] at h₃
  have h₄ := h₃.silent hread rfl (hsettled rfl)
  have hcreated : ¬ w₃.file.vhfHandle.isNone = true := by
    show ¬ w₁.file.vhfHandle.isNone = true
    rw [hhandle]
    exact Bool.false_ne_true
  beta_reduce at h₄
  rw [if_neg hcreated] at h₄
  simp only [tryCompleteGetNextEvent, perform, Prog.perform_bind] at h₄
  have h₅ := h₄.silent htry rfl (hsettled rfl)
  refine ⟨_, _, op, h₅, fun d hd => ?_, htaken, hid⟩
  show ¬ Live w₁ d
  unfold Live
  rw [hvhf]
  exact h.done d hd

/-- After 2^31 further operations, each completed before the next, a client that answers the first one
again gets the last. -/
theorem ids_reused : ¬ ∀ (P : Pool Event Call Call.Resp World) ds,
    Noted driver dispatches (Windowed 1) World.opened P ds → ∀ d ∈ ds, ¬ Live P.world d →
      (takeOutstandingRequestById d.requestId P.world.file).1 = none := by
  intro hclaim
  have hplay : (Pool.noted driver dispatches (settledBut 1) (serial 0 (createGun ++ answeredRead))
      (⟨[], World.opened⟩, [])).map (fun x => (x.2, completedHandles x.1.world.vhf,
        x.1.world.deviceLive && x.1.world.file.vhfHandle.isSome && !x.1.world.closing &&
          (x.1.world.file.reportSizes 0).inputReportSize != 0 &&
          x.1.world.file.waitingRequests.isEmpty && x.1.world.file.outstandingRequests.isEmpty)) =
      some ([⟨7, 0x80000001⟩], [7], true) := by decide +kernel
  obtain ⟨⟨P, ds⟩, hx, hfacts⟩ := Option.map_eq_some_iff.mp hplay
  simp only [Prod.mk.injEq, Bool.and_eq_true, Bool.not_eq_true', bne_iff_ne, List.isEmpty_iff] at hfacts
  obtain ⟨rfl, hcompleted, ⟨⟨⟨⟨hdevice, hhandle⟩, hclosing⟩, hinput⟩, hwaiting⟩, houtstanding⟩ := hfacts
  have hP := Noted.init.play (fun w ds => windowed_of_settled) hx
  have hrest : Resting P.world [⟨7, 0x80000001⟩] := by
    refine ⟨fun d hd => ?_, hdevice, hhandle, hclosing, hinput, hwaiting, houtstanding⟩
    rw [List.mem_singleton.mp hd]
    simp [Live, hcompleted]
  obtain ⟨ts, w, es, hlen, hP', h⟩ := hrest.refuseAll hP (2 ^ 31 - 1)
  obtain ⟨Q, d, op, hQ, hdone, htaken, hid⟩ := h.deliver hP'
  have hreused : op.requestId = 0x80000001 := by
    rw [hid, List.length_append, List.length_singleton, hlen]
    decide
  have hnone := hclaim Q _ hQ ⟨7, 0x80000001⟩ (by simp) (hdone _ (by simp))
  have hsplit : Q.world.file.outstandingRequests = [] ++ op :: [] := htaken
  have hfound := take_eq hsplit (by simp)
  rw [hreused] at hfound
  have hsome : (takeOutstandingRequestById 0x80000001 Q.world.file).1 = some op :=
    congrArg Prod.fst hfound
  cases hnone.symm.trans hsome

end

end VirtualGun.Driver
