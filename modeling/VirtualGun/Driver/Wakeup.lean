import VirtualGun.Driver.Lifecycle

/-!
# Lost wake-ups

A callback queues its operation and then looks for a parked `GET_NEXT_EVENT`. A `GET_NEXT_EVENT`
looks for an operation and then parks. Each of the four is a step of its own.
-/

open VirtualGun.Program

namespace VirtualGun.Driver

/-! ## Runs in which WDF fails nothing -/

/-- The buffer holds the header, and for a write the data behind it. -/
def eventFits (op : OperationContext) (output : List Byte) : Bool :=
  sizeofEvent ≤ output.length &&
    (!op.type.isWrite || eventDataOffset + op.hidTransferPacket.report.length ≤ output.length)

def noFailure (w : World) : Call → Outcome → Bool
  | .wdfObjectCreate, .made s _ => ntSuccess s
  | .queueSection _, .status s => ntSuccess s
  | .tryCompleteSection request, .tried t =>
    ntSuccess t.retrieve && ntSuccess t.copyHeader && ntSuccess t.copyData && ntSuccess t.add &&
      w.file.waitingRequests.head?.all (eventFits · request.output)
  | .wdfIoQueueRetrieveRequestByFileObject, .status s => s == Status.success || w.parked.isEmpty
  | .wdfRequestForwardToIoQueue _, .status s => ntSuccess s
  | .wdfRequestRequeue _, .status s => ntSuccess s
  | _, _ => true

/-- Callbacks and `GET_NEXT_EVENT` requests arrive, and no WDF call fails. -/
def Smooth (P : Pool Event Call Call.Resp World) : Move Event Outcome → Bool
  | .arrive (.ioctl request) => request.code == .getNextEvent
  | .arrive (.asyncOperation _ _ _) => true
  | .arrive .readyForNextReadReport => true
  | .arrive _ => false
  | .step i o => (P.nextCall i).all (noFailure P.world · o)

/-- Handlers already in progress take their steps, and no WDF call fails. -/
def SmoothStep (P : Pool Event Call Call.Resp World) : Move Event Outcome → Bool
  | .arrive _ => false
  | .step i o => Smooth P (.step i o)

/-- An operation waits, and so does a `GET_NEXT_EVENT` that could take it. -/
def Stranded (w : World) : Prop := w.file.waitingRequests ≠ [] ∧ w.parked ≠ []

/-! ## Who will look -/

def isCallback : Event → Bool
  | .asyncOperation _ _ _ | .readyForNextReadReport => true
  | _ => false

/-- A callback that will queue an operation: the device knows its report. -/
def queues (sizes : UInt8 → HidReportSize) : Event → Bool
  | .asyncOperation _ packet type => reportSizeOf (sizes packet.reportId) type != 0
  | .readyForNextReadReport => true
  | _ => false

/-- The calls of a callback up to its look at the queue. -/
def Call.untilLook : Call → Bool
  | wdfObjectCreate | interlockedIncrement | readContext | queueSection _ => true
  | wdfIoQueueRetrieveRequestByFileObject => true
  | _ => false

/-- A callback that has yet to look for a parked request makes the call. -/
def looks (sizes : UInt8 → HidReportSize) (l : Event) (c : Call) : Bool :=
  queues sizes l && c.untilLook

/-- The call looks for a parked request or for an operation, or a look comes next. -/
def takes (l : Event) : Call → Bool
  | .wdfIoQueueRetrieveRequestByFileObject | .tryCompleteSection _ => true
  | .readContext => !isCallback l
  | _ => false

def looking (P : Pool Event Call Call.Resp World) : ℕ :=
  P.threads.countP fun t => t.prog.next?.any (looks P.world.file.reportSizes t.label)

def taking (P : Pool Event Call Call.Resp World) : ℕ :=
  P.threads.countP fun t => t.prog.next?.any (takes t.label)

/-- With `n` more requests parked, callbacks still look for all of them, or handlers in progress
take every operation that waits. -/
def Covered (P : Pool Event Call Call.Resp World) (n : ℕ) : Prop :=
  P.world.parked.length + n ≤ looking P ∨ P.world.file.waitingRequests.length ≤ taking P

instance (P : Pool Event Call Call.Resp World) (n : ℕ) : Decidable (Covered P n) :=
  inferInstanceAs (Decidable (_ ∨ _))

def Call.parks : Call → Bool
  | wdfRequestForwardToIoQueue _ | wdfRequestRequeue _ => true
  | _ => false

/-- How many requests a move parks. -/
def parking (P : Pool Event Call Call.Resp World) : Move Event Outcome → ℕ
  | .arrive _ => 0
  | .step i _ => if (P.nextCall i).any Call.parks then 1 else 0

/-- No request is parked that nobody looks for, while an operation waits that nobody takes. -/
def Attended (P : Pool Event Call Call.Resp World) (m : Move Event Outcome) : Bool :=
  Smooth P m && (parking P m == 0 || decide (Covered P 1))

/-! ## The handlers -/

/-- Whether the next call of a handler looks, and whether it takes. -/
def turn {α : Type} (sizes : UInt8 → HidReportSize) (l : Event) (p : Handler α) : Bool × Bool :=
  (p.next?.any (looks sizes l), p.next?.any (takes l))

/-- The turn a handler has after it made a call. -/
def after (sizes : UInt8 → HidReportSize) (l : Event) : (c : Call) → c.Resp → Bool × Bool
  | .wdfObjectCreate, _ | .interlockedIncrement, _ => (queues sizes l, false)
  | .readContext, _ => if isCallback l then (queues sizes l, false) else (false, true)
  | .queueSection _, _ => (true, true)
  | .wdfIoQueueRetrieveRequestByFileObject, r => (false, r.isSome)
  | _, _ => (false, false)

/-- The responses of a run in which nothing fails. -/
def answers (sizes : UInt8 → HidReportSize) : (c : Call) → c.Resp → Prop
  | .wdfObjectCreate, r => ntSuccess r.1
  | .readContext, f => f.vhfHandle.isSome ∧ f.reportSizes = sizes
  | .queueSection _, r => r = .queued
  | .wdfRequestForwardToIoQueue _, s => ntSuccess s
  | .wdfRequestRequeue _, s => ntSuccess s
  | _, _ => True

def mayCall (sizes : UInt8 → HidReportSize) (l : Event) : Call → Prop
  | .queueSection _ | .wdfIoQueueRetrieveRequestByFileObject => queues sizes l
  | .wdfObjectCreate | .interlockedIncrement | .readContext | .wdfObjectDelete _ => True
  | .tryCompleteSection _ | .wdfRequestForwardToIoQueue _ | .wdfRequestRequeue _ => True
  | .vhfAsyncOperationComplete _ _ | .wdfRequestComplete .. => True
  | _ => False

/-- After each call the handler has the turn `after` says. -/
def Turns {α : Type} (sizes : UInt8 → HidReportSize) (l : Event) : Handler α → Prop
  | .ret _ => True
  | .call c k => mayCall sizes l c ∧ ∀ r, answers sizes c r →
      turn sizes l (k r) = after sizes l c r ∧ Turns sizes l (k r)

/-- The handler has the turn now, and keeps to its turns. -/
def HasTurn {α : Type} (sizes : UInt8 → HidReportSize) (l : Event) (now : Bool × Bool)
    (p : Handler α) : Prop :=
  turn sizes l p = now ∧ Turns sizes l p

section
variable {sizes : UInt8 → HidReportSize} {l : Event} {request : Request} {α : Type}
  {now : Bool × Bool}

theorem isCallback_of_queues (h : queues sizes l = true) : isCallback l = true := by
  cases l <;> simp_all [queues, isCallback]

theorem HasTurn.ret (a : α) : HasTurn sizes l (false, false) (.ret a) := ⟨rfl, trivial⟩

theorem HasTurn.call {c : Call} {k : c.Resp → Handler α} (hc : mayCall sizes l c)
    (hnow : (looks sizes l c, takes l c) = now)
    (hk : ∀ r, answers sizes c r → HasTurn sizes l (after sizes l c r) (k r)) :
    HasTurn sizes l now (.call c k) :=
  ⟨hnow, hc, hk⟩

theorem HasTurn.inert {c : Call} {k : c.Resp → Handler α} (hc : mayCall sizes l c)
    (hlooks : looks sizes l c = false) (htakes : takes l c = false)
    (hafter : ∀ r, after sizes l c r = (false, false))
    (hk : ∀ r, answers sizes c r → HasTurn sizes l (false, false) (k r)) :
    HasTurn sizes l (false, false) (.call c k) :=
  .call hc (by rw [hlooks, htakes]) fun r hr => by rw [hafter]; exact hk r hr

theorem HasTurn.ite {b : Prop} [Decidable b] {p q : Handler α} (hp : b → HasTurn sizes l now p)
    (hq : ¬ b → HasTurn sizes l now q) : HasTurn sizes l now (if b then p else q) := by
  split
  · next h => exact hp h
  · next h => exact hq h

theorem looks_false {c : Call} (h : c.untilLook = false) : looks sizes l c = false := by
  simp [looks, h]

theorem tryCompleteGetNextEvent_turn {f : Bool → Handler α}
    (hf : ∀ b, HasTurn sizes l (false, false) (f b)) :
    HasTurn sizes l (false, true) (tryCompleteGetNextEvent request >>= f) := by
  simp only [tryCompleteGetNextEvent, perform, Prog.perform_bind, Prog.call_bind]
  refine .call trivial (by rw [looks_false rfl]; rfl) fun r _ => ?_
  by_cases hr : r.completeRequest = true
  · rw [if_pos hr]
    exact .inert trivial (looks_false rfl) rfl (fun _ => rfl) fun _ _ => hf r.completeRequest
  · rw [if_neg hr]
    exact hf r.completeRequest

theorem serviceWaitingRequest_turn (h : queues sizes l = true) :
    HasTurn sizes l (true, true) serviceWaitingRequest := by
  simp only [serviceWaitingRequest, perform, Prog.perform_bind]
  refine .call h (by simp [looks, takes, h, Call.untilLook]) fun r _ => ?_
  cases r with
  | none => exact .ret ()
  | some request =>
    refine tryCompleteGetNextEvent_turn fun b => .ite (fun _ => ?_) fun _ => .ret ()
    refine .inert trivial (looks_false rfl) rfl (fun _ => rfl) fun s hs => ?_
    have hs : ntSuccess s = true := hs
    rw [hs]
    exact .ret ()

theorem queueOperation_turn (h : queues sizes l = true) (op : OperationContext)
    (handle : Option VhfOperationHandle) :
    HasTurn sizes l (true, false) (queueOperation op handle) := by
  simp only [queueOperation, perform, Prog.perform_bind]
  refine .call h (by simp [looks, takes, h, Call.untilLook]) fun r hr => ?_
  obtain rfl : r = .queued := hr
  exact serviceWaitingRequest_turn h

theorem completeIfHandle_turn {handle : Option VhfOperationHandle} {s : NTSTATUS}
    {f : Unit → Handler α} (hf : HasTurn sizes l (false, false) (f ())) :
    HasTurn sizes l (false, false) (completeIfHandle handle s >>= f) := by
  cases handle with
  | none => exact hf
  | some handle =>
    exact .inert trivial (looks_false rfl) rfl (fun _ => rfl) fun _ _ => hf

/-- The calls before the operation is queued leave the callback its turn to look. -/
theorem HasTurn.untilLook {c : Call} {k : c.Resp → Handler α} (hc : mayCall sizes l c) (huntil : c.untilLook = true)
    (htakes : takes l c = false) (hafter : ∀ r, after sizes l c r = (queues sizes l, false))
    (hk : ∀ r, answers sizes c r → HasTurn sizes l (queues sizes l, false) (k r)) :
    HasTurn sizes l (queues sizes l, false) (.call c k) :=
  .call hc (by simp [looks, huntil, htakes]) fun r hr => by rw [hafter]; exact hk r hr

theorem asyncOperation_turn (handle : VhfOperationHandle) (packet : HidXferPacket)
    (type : EventType) :
    HasTurn sizes (.asyncOperation handle packet type)
      (queues sizes (.asyncOperation handle packet type), false)
      (dispatchAsyncOperation (some handle) (some packet) type) := by
  simp only [dispatchAsyncOperation, perform, Prog.perform_bind]
  refine .untilLook trivial rfl rfl (fun _ => rfl) fun r hr => .ite (fun hs => ?_) fun _ => ?_
  · have hr : ntSuccess r.1 = true := hr
    simp [hr] at hs
  · refine .untilLook trivial rfl rfl (fun _ => rfl) fun counter _ =>
      .untilLook trivial rfl rfl (fun _ => rfl) fun f hf => ?_
    obtain ⟨-, rfl⟩ := hf
    refine .ite (fun hzero => ?_) fun hne => ?_
    · rw [show queues f.reportSizes (.asyncOperation handle packet type) = false by
        simp [queues, hzero]]
      exact completeIfHandle_turn (.inert trivial (looks_false rfl) rfl (fun _ => rfl)
        fun _ _ => .ret ())
    · have h : queues f.reportSizes (.asyncOperation handle packet type) = true := by
        simpa [queues] using hne
      rw [h]
      exact queueOperation_turn h _ _

theorem readyForNextReadReport_turn :
    HasTurn sizes .readyForNextReadReport (true, false) winUHidEvtVhfReadyForNextReadReport := by
  simp only [winUHidEvtVhfReadyForNextReadReport, dispatchAsyncOperation, perform, Prog.perform_bind]
  refine .untilLook trivial rfl rfl (fun _ => rfl) fun r hr => .ite (fun hs => ?_) fun _ =>
    queueOperation_turn rfl _ _
  have hr : ntSuccess r.1 = true := hr
  simp [hr] at hs

theorem getNextEvent_turn :
    HasTurn sizes (.ioctl request) (false, true) (getNextEvent request) := by
  simp only [getNextEvent, perform, Prog.perform_bind]
  refine .call trivial rfl fun f hf => .ite (fun hn => ?_) fun _ => ?_
  · have hh : f.vhfHandle.isSome = true := hf.1
    simp [Option.isSome_iff_ne_none.mp hh] at hn
  · refine tryCompleteGetNextEvent_turn fun b => .ite (fun _ => ?_) fun _ => .ret ()
    refine .inert trivial (looks_false rfl) rfl (fun _ => rfl) fun s hs => ?_
    have hs : ntSuccess s = true := hs
    rw [hs]
    exact .ret ()

end

/-! ## The count -/

/-- The handle is set, and the sizes are those of the device. -/
structure Open (sizes : UInt8 → HidReportSize) (w : World) : Prop where
  handle : w.file.vhfHandle.isSome
  sizes : w.file.reportSizes = sizes

/-- Counts of looks and takes, without the handler in question, cover what is parked or waits. -/
def Covers (w : World) (parking : ℕ) (turn : Bool × Bool) (looking taking : ℕ) : Prop :=
  w.parked.length + parking ≤ looking + turn.1.toNat ∨
    w.file.waitingRequests.length ≤ taking + turn.2.toNat

section
variable {sizes : UInt8 → HidReportSize} {l : Event} {c : Call} {o : Outcome} {r : c.Resp}
  {w w' : World}

theorem tryCompleteSection_fits {t : TryOutcome} {output : List Byte} {f : FileContext}
    {op : OperationContext} {rest : List OperationContext} (hwait : f.waitingRequests = op :: rest)
    (hretrieve : ntSuccess t.retrieve) (hheader : ntSuccess t.copyHeader)
    (hdata : ntSuccess t.copyData) (hadd : ntSuccess t.add) (hfits : eventFits op output) :
    (tryCompleteSection t output f).2.waitingRequests = rest := by
  simp only [eventFits, Bool.and_eq_true, decide_eq_true_eq, Bool.or_eq_true,
    Bool.not_eq_true'] at hfits
  obtain ⟨hlen, hwrite⟩ := hfits
  have hheaderLen : (eventHeader op t.stack).length = sizeofEvent := rfl
  have hcopy : memoryCopyFromBuffer t.copyHeader output 0 (eventHeader op t.stack) =
      (t.copyHeader, eventHeader op t.stack ++ output.drop sizeofEvent) := by
    simp [memoryCopyFromBuffer, hheader, hheaderLen, hlen]
  have hbufferLen : (eventHeader op t.stack ++ output.drop sizeofEvent).length = output.length := by
    rw [List.length_append, List.length_drop, hheaderLen]
    omega
  simp only [tryCompleteSection, hwait, hretrieve, hcopy, hheader]
  by_cases hw : op.type.isWrite = true
  · have hroom := hwrite.resolve_left (by simp [hw])
    rw [← hbufferLen] at hroom
    simp only [memoryCopyFromBuffer, hw, hdata, hadd, hroom, Bool.not_true, Bool.false_eq_true,
      if_true, if_false]
  · simp [hw, hheader, hadd]

theorem covers_inert (hfile : w'.file = w.file) (hparked : w'.parked = w.parked)
    (hparks : c.parks = false) (hafter : after sizes l c r = (looks sizes l c, takes l c))
    (x y : ℕ) : Covers w' 0 (after sizes l c r) x y ↔
      Covers w (if c.parks then 1 else 0) (looks sizes l c, takes l c) x y := by
  rw [Covers, Covers, hfile, hparked, hparks, hafter]
  rfl

/-- A step without a failure covers what it covered before. Parking a request adds one to cover. -/
theorem covers_step (hc : mayCall sizes l c) (hw : Open sizes w) (hno : noFailure w c o = true)
    (he : exec c o w = some (r, w')) :
    answers sizes c r ∧ Open sizes w' ∧ ∀ x y, Covers w' 0 (after sizes l c r) x y ↔
      Covers w (if c.parks then 1 else 0) (looks sizes l c, takes l c) x y := by
  have hsame (hfile : w'.file = w.file) : Open sizes w' := ⟨hfile ▸ hw.handle, hfile ▸ hw.sizes⟩
  cases c with
  | wdfObjectCreate =>
    have hfile := exec_file he rfl
    obtain ⟨rfl, -, -⟩ := exec_objectCreate.mp he
    exact ⟨hno, hsame hfile, covers_inert hfile (exec_parked he rfl) rfl
      (by simp [after, looks, takes, Call.untilLook])⟩
  | interlockedIncrement =>
    obtain ⟨-, -, rfl⟩ := exec_increment.mp he
    exact ⟨trivial, ⟨hw.handle, hw.sizes⟩, by simp [Covers, after, looks, takes, Call.untilLook,
      Call.parks]⟩
  | readContext =>
    obtain ⟨-, rfl, rfl⟩ := exec_readContext.mp he
    refine ⟨⟨hw.handle, hw.sizes⟩, hw, covers_inert rfl rfl rfl ?_⟩
    cases hl : isCallback l with
    | true => simp [after, looks, takes, Call.untilLook, hl]
    | false =>
      have hq : queues sizes l = false := by
        by_contra hq
        simp [isCallback_of_queues ((Bool.not_eq_false _).mp hq)] at hl
      simp [after, looks, takes, hl, hq]
  | wdfObjectDelete | vhfAsyncOperationComplete | wdfRequestComplete =>
    have hfile := exec_file he rfl
    exact ⟨trivial, hsame hfile, covers_inert hfile (exec_parked he rfl) rfl
      (by simp [after, looks, takes, Call.untilLook])⟩
  | queueSection op =>
    have hparked := exec_parked he rfl
    obtain ⟨add, rfl, rfl, rfl⟩ := exec_queueSection.mp he
    have hqueued : queueSection op add w.file =
        (.queued, { w.file with waitingRequests := w.file.waitingRequests ++ [op] }) := by
      have hadd : ntSuccess add = true := hno
      simp [queueSection, Option.isSome_iff_ne_none.mp hw.handle, hadd]
    have hq : queues sizes l = true := hc
    refine ⟨by rw [hqueued]; rfl, ?_, fun x y => ?_⟩
    · rw [hqueued]
      exact ⟨hw.handle, hw.sizes⟩
    · rw [Covers, Covers, hparked, hqueued]
      simp [World.afterQueue, after, looks, takes, Call.untilLook, Call.parks, hq]
  | wdfIoQueueRetrieveRequestByFileObject =>
    have hfile := exec_file he rfl
    have hq : queues sizes l = true := hc
    refine ⟨trivial, hsame hfile, fun x y => ?_⟩
    rcases exec_retrieveRequest.mp he with ⟨s, rfl, hs, rfl, rfl⟩ | ⟨request, rest, rfl, hp, rfl, rfl⟩
    · -- with no failure the queue was empty
      have hempty : w.parked = [] := by simpa [noFailure, hs] using hno
      simp [Covers, hempty, Call.parks]
    · simp [Covers, hp, after, looks, takes, Call.untilLook, Call.parks, hq]
  | tryCompleteSection request =>
    have hparked := exec_parked he rfl
    obtain ⟨t, rfl, rfl, rfl⟩ := exec_tryComplete.mp he
    simp only [noFailure, Bool.and_eq_true] at hno
    obtain ⟨⟨⟨⟨hretrieve, hheader⟩, hdata⟩, hadd⟩, hfits⟩ := hno
    refine ⟨trivial, ?_, fun x y => ?_⟩
    · rcases tryCompleteSection_cases t request.output w.file with ⟨-, hfile⟩ | ⟨-, _, _, -, hfile⟩
      · rw [hfile]
        exact ⟨hw.handle, hw.sizes⟩
      · rw [hfile]
        exact ⟨hw.handle, hw.sizes⟩
    · rw [Covers, Covers, hparked]
      cases hwait : w.file.waitingRequests with
      | nil => simp [tryCompleteSection, World.afterTry, hwait]
      | cons op rest =>
        have hrest := tryCompleteSection_fits hwait hretrieve hheader hdata hadd
          (by simpa [hwait] using hfits)
        simp [World.afterTry, hrest, after, looks, takes, Call.untilLook, Call.parks]
  | wdfRequestForwardToIoQueue request | wdfRequestRequeue request =>
    have hfile := exec_file he rfl
    have hs : o = .status r ∧ w'.parked.length = w.parked.length + 1 := by
      first
      | obtain ⟨rfl, rfl⟩ := exec_forward.mp he
      | obtain ⟨rfl, rfl⟩ := exec_requeue.mp he
      have hr : ntSuccess r = true := hno
      simp [hr]
    obtain ⟨rfl, hlen⟩ := hs
    refine ⟨hno, hsame hfile, fun x y => ?_⟩
    rw [Covers, Covers, hfile, hlen]
    simp [after, looks, takes, Call.untilLook, Call.parks]
  | _ => exact hc.elim

end

/-! ## Any interleaving -/

/-- Every handler in progress keeps to its turns. -/
structure InTurn (sizes : UInt8 → HidReportSize) (P : Pool Event Call Call.Resp World) : Prop where
  world : Open sizes P.world
  threads : ∀ t ∈ P.threads, Turns sizes t.label t.prog

section
variable {sizes : UInt8 → HidReportSize} {P P' Q : Pool Event Call Call.Resp World}
  {m : Move Event Outcome}

theorem arrive_smooth (sizes : UInt8 → HidReportSize) {l : Event} {w : World}
    (hok : Smooth P (.arrive l) = true)
    (ha : driver.arrive l P.world = some w) :
    w.file = P.world.file ∧ w.parked = P.world.parked ∧ Turns sizes l (driver.handler l) := by
  cases l with
  | ioctl request =>
    have hcode : request.code = .getNextEvent := by simpa [Smooth] using hok
    simp only [driver, arrive, World.accept, Option.ite_none_left_eq_some, Option.some.injEq] at ha
    obtain ⟨-, -, rfl⟩ := ha
    refine ⟨rfl, rfl, ?_⟩
    simp only [driver, handler, winUHidEvtIoDeviceControl, hcode]
    exact getNextEvent_turn.2
  | asyncOperation handle packet type =>
    simp only [driver, arrive, Option.ite_none_right_eq_some, Option.some.injEq] at ha
    obtain ⟨-, rfl⟩ := ha
    exact ⟨rfl, rfl, (asyncOperation_turn handle packet type).2⟩
  | readyForNextReadReport =>
    simp only [driver, arrive, Option.ite_none_right_eq_some, Option.some.injEq] at ha
    obtain ⟨-, rfl⟩ := ha
    exact ⟨rfl, rfl, readyForNextReadReport_turn.2⟩
  | write | close => simp [Smooth] at hok

/-- A handler's step covers what was covered before it, with the request it parks. -/
theorem step_covered {i : ℕ} {o : Outcome} (h : InTurn sizes P)
    (hok : Smooth P (.step i o) = true) (hm : P.move driver (.step i o) = some P') :
    InTurn sizes P' ∧ (Covered P' 0 ↔ Covered P (parking P (.step i o))) := by
  rcases Pool.move_cases hm with ⟨_, _, hcon, -⟩ | ⟨pre, l, c, k, post, _, r, w, hstep, ht, he, rfl⟩
  · exact absurd hcon (by simp)
  cases hstep
  have hnext : P.nextCall pre.length = some c := by simp [Pool.nextCall, ht]
  have hno : noFailure P.world c o = true := by simpa [Smooth, hnext] using hok
  have hthreads := h.threads
  simp only [ht, List.forall_mem_append, List.forall_mem_cons] at hthreads
  obtain ⟨hpre, ⟨hc, hk⟩, hpost⟩ := hthreads
  obtain ⟨hanswer, hopen, hcovers⟩ := covers_step hc h.world hno he
  obtain ⟨hturn, hturns⟩ := hk r hanswer
  refine ⟨⟨hopen, ?_⟩, ?_⟩
  · simp only [List.forall_mem_append, List.forall_mem_cons]
    exact ⟨hpre, hturns, hpost⟩
  · have htoNat (b : Bool) : (if b = true then 1 else 0) = b.toNat := by cases b <;> rfl
    have hcount := hcovers
      (pre.countP (fun t => t.prog.next?.any (looks sizes t.label)) +
        post.countP fun t => t.prog.next?.any (looks sizes t.label))
      (pre.countP (fun t => t.prog.next?.any (takes t.label)) +
        post.countP fun t => t.prog.next?.any (takes t.label))
    rw [← hturn] at hcount
    simp only [Covers, turn, htoNat] at hcount
    simp only [Covered, looking, taking, parking, hnext, ht, hopen.sizes, h.world.sizes,
      List.countP_append, List.countP_cons, htoNat]
    simp only [Prog.next?_call, Option.any_some]
    omega

theorem arrive_covered {l : Event} (h : InTurn sizes P) (hok : Smooth P (.arrive l) = true)
    (hm : P.move driver (.arrive l) = some P') :
    InTurn sizes P' ∧ (Covered P 0 → Covered P' 0) := by
  rcases Pool.move_cases hm with ⟨_, w, heq, ha, rfl⟩ | ⟨_, _, _, _, _, _, _, _, hcon, -⟩
  · cases heq
    obtain ⟨hfile, hparked, hturns⟩ := arrive_smooth sizes hok ha
    refine ⟨⟨⟨hfile ▸ h.world.handle, hfile ▸ h.world.sizes⟩, fun t ht => ?_⟩, fun hcov => ?_⟩
    · rcases List.mem_append.mp ht with ht | ht
      · exact h.threads t ht
      · rw [List.mem_singleton.mp ht]
        exact hturns
    · simp only [Covered, looking, taking, hfile, hparked, List.countP_append] at hcov ⊢
      omega
  · exact absurd hcon (by simp)

theorem covered_quiet (hq : P.quiet = true) : ¬ Covered P 0 ↔ Stranded P.world := by
  have hnext (t) (ht : t ∈ P.threads) : t.prog.next? = none := by
    obtain ⟨a, ha⟩ := (Prog.isRet_iff t.prog).mp (List.all_eq_true.mp hq t ht)
    rw [ha]
    rfl
  have hlooking : looking P = 0 :=
    List.countP_eq_zero.mpr fun t ht => by simp [hnext t ht]
  have htaking : taking P = 0 :=
    List.countP_eq_zero.mpr fun t ht => by simp [hnext t ht]
  rw [Covered, hlooking, htaking, Stranded, ← List.length_pos_iff, ← List.length_pos_iff]
  omega

theorem move_inTurn (h : InTurn sizes P) (hok : Smooth P m = true)
    (hm : P.move driver m = some P') : InTurn sizes P' := by
  cases m with
  | arrive l => exact (arrive_covered h hok hm).1
  | step i o => exact (step_covered h hok hm).1

theorem smooth_inTurn (h : InTurn sizes P) (hP : Reach driver (fun P m => Smooth P m) P P') :
    InTurn sizes P' := by
  induction hP with
  | init => exact h
  | move _ hok hm ih => exact move_inTurn ih hok hm

theorem attended_covered (h : InTurn sizes P) (hcov : Covered P 0)
    (hP : Reach driver (fun P m => Attended P m) P P') : InTurn sizes P' ∧ Covered P' 0 := by
  induction hP with
  | init => exact ⟨h, hcov⟩
  | @move P' Q m _ hok hm ih =>
    simp only [Attended, Bool.and_eq_true, Bool.or_eq_true, beq_iff_eq, decide_eq_true_eq] at hok
    obtain ⟨hsmooth, hpark⟩ := hok
    cases m with
    | arrive l =>
      obtain ⟨hturn, hkeep⟩ := arrive_covered ih.1 hsmooth hm
      exact ⟨hturn, hkeep ih.2⟩
    | step i o =>
      obtain ⟨hturn, hiff⟩ := step_covered ih.1 hsmooth hm
      refine ⟨hturn, hiff.mpr ?_⟩
      rcases hpark with hpark | hpark
      · rw [hpark]
        exact ih.2
      · by_cases hzero : parking P' (.step i o) = 0
        · rw [hzero]
          exact ih.2
        · have hone : parking P' (.step i o) = 1 := by
            simp only [parking] at hzero ⊢
            split at hzero <;> simp_all
          rw [hone]
          exact hpark

theorem uncovered_stays (h : InTurn sizes P) (hcov : ¬ Covered P 0)
    (hP : Reach driver (fun P m => SmoothStep P m) P P') : ¬ Covered P' 0 := by
  have hboth : InTurn sizes P' ∧ ¬ Covered P' 0 := by
    induction hP with
    | init => exact ⟨h, hcov⟩
    | @move P' Q m _ hok hm ih =>
      cases m with
      | arrive l => simp [SmoothStep] at hok
      | step i o =>
        obtain ⟨hturn, hiff⟩ := step_covered ih.1 hok hm
        refine ⟨hturn, fun hQ => ih.2 ?_⟩
        have := hiff.mp hQ
        simp only [Covered] at this ⊢
        omega
  exact hboth.2

theorem Created.inTurn {w : World} (h : Created w) :
    InTurn w.file.reportSizes (⟨[], w⟩ : Pool Event Call Call.Resp World) :=
  ⟨⟨h.handle, rfl⟩, nofun⟩

/-- In attended runs no event is stranded. One request parked unattended strands an event, once the
handlers in progress have ended. -/
theorem no_lost_wakeup {w₀ : World} (h₀ : Created w₀) :
    (∀ P, Reach driver (fun P m => Attended P m) ⟨[], w₀⟩ P → P.quiet = true →
      ¬ Stranded P.world) ∧
    ∀ P m P' Q, Reach driver (fun P m => Smooth P m) ⟨[], w₀⟩ P → Smooth P m = true →
      Attended P m = false → P.move driver m = some P' →
      Reach driver (fun P m => SmoothStep P m) P' Q → Q.quiet = true → Stranded Q.world := by
  refine ⟨fun P hP hq hstranded => ?_, fun P m P' Q hP hsmooth hatt hm hQ hq => ?_⟩
  · have hcov : Covered (⟨[], w₀⟩ : Pool Event Call Call.Resp World) 0 :=
      .inl (by simp [h₀.parked])
    exact (covered_quiet hq).mpr hstranded (attended_covered h₀.inTurn hcov hP).2
  · have hturn := smooth_inTurn h₀.inTurn hP
    simp only [Attended, hsmooth, Bool.true_and, Bool.or_eq_false_iff, beq_eq_false_iff_ne,
      decide_eq_false_iff_not] at hatt
    obtain ⟨hpark, hcov⟩ := hatt
    cases m with
    | arrive l => exact absurd rfl hpark
    | step i o =>
      obtain ⟨hturn', hiff⟩ := step_covered hturn hsmooth hm
      have hone : parking P (.step i o) = 1 := by
        simp only [parking] at hpark ⊢
        split at hpark <;> simp_all
      rw [hone] at hiff
      exact (covered_quiet hq).mp (uncovered_stays hturn' (fun h => hcov (hiff.mp h)) hQ)

theorem smooth_play (ok : Pool Event Call Call.Resp World → Move Event Outcome → Bool)
    (ms : List (Move Event Outcome)) (waiting parked : ℕ) (moved : List (WdfObject × ℕ))
    (hplay : ((driver.play createGun World.opened).bind fun w₀ =>
      (Pool.replay driver ok ms ⟨[], w₀⟩).map fun P =>
        (P.quiet, P.world.file.waitingRequests.length, P.world.parked.length, P.world.moved)) =
      some (true, waiting, parked, moved)) :
    ∃ w₀ P, Created w₀ ∧ Reach driver (fun P m => ok P m) ⟨[], w₀⟩ P ∧ P.quiet = true ∧
      P.world.file.waitingRequests.length = waiting ∧ P.world.parked.length = parked ∧
      P.world.moved = moved := by
  obtain ⟨w₀, hw₀, h₀⟩ := createGun_created
  rw [hw₀, Option.bind_some] at hplay
  obtain ⟨P, hP, hfacts⟩ := Option.map_eq_some_iff.mp hplay
  simp only [Prod.mk.injEq] at hfacts
  exact ⟨w₀, P, h₀, Reach.replay .init hP, hfacts.1, hfacts.2.1, hfacts.2.2.1, hfacts.2.2.2⟩

/-- A request is parked, the next callback queues an operation and wakes it, and the operation of
another callback waits. -/
def attendedRun : List (Move Event Outcome) :=
  [.arrive (.ioctl ⟨5, .getNextEvent, [], List.replicate 14 0⟩), .step 0 .ok,
    .step 0 (.tried TryOutcome.fine), .step 0 fine, .arrive .readyForNextReadReport,
    .step 1 (.made Status.success 1), .step 1 fine, .step 1 (.status Status.success),
    .step 1 (.tried TryOutcome.fine), .step 1 .ok, .arrive .readyForNextReadReport,
    .step 2 (.made Status.success 2), .step 2 fine, .step 2 (.status Status.notFound)]

theorem no_lost_wakeup_attended :
    ∃ P : Pool Event Call Call.Resp World, P.world.moved = [(1, 5)] ∧
      P.world.file.waitingRequests.length = 1 ∧ ¬ Stranded P.world := by
  obtain ⟨w₀, P, h₀, hP, hq, hwaiting, -, hmoved⟩ :=
    smooth_play Attended attendedRun 1 0 [(1, 5)] (by decide +kernel)
  exact ⟨P, hmoved, hwaiting, (no_lost_wakeup h₀).1 P hP hq⟩

/-- The request finds no operation, the callback finds no request, and then the request is parked. -/
def crossingLooks : List (Move Event Outcome) :=
  [.arrive (.ioctl ⟨5, .getNextEvent, [], List.replicate 14 0⟩), .arrive .readyForNextReadReport,
    .step 0 .ok, .step 0 (.tried TryOutcome.fine), .step 1 (.made Status.success 1), .step 1 fine,
    .step 1 (.status Status.notFound), .step 0 fine]

theorem wakeup_lost :
    ¬ ∀ w₀ P, Created w₀ → Reach driver (fun P m => Smooth P m) ⟨[], w₀⟩ P → P.quiet = true →
      ¬ Stranded P.world := by
  intro h
  obtain ⟨w₀, P, h₀, hP, hq, hwaiting, hparked, -⟩ :=
    smooth_play Smooth crossingLooks 1 1 [] (by decide +kernel)
  refine h w₀ P h₀ hP hq ⟨?_, ?_⟩
  · exact List.ne_nil_of_length_pos (by omega)
  · exact List.ne_nil_of_length_pos (by omega)

end

end VirtualGun.Driver
