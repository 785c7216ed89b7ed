import VirtualGun.Library.WinUHid
import VirtualGun.Program.Views
import Mathlib.Data.Multiset.AddSub
import Mathlib.Logic.Function.Basic

/-!
# Threads that share a device

Any number of threads of a client use one device side by side, and with them run the threads that the
library creates. The caller makes sure that a device is created before and destroyed after them.
-/

open VirtualGun.Program

namespace VirtualGun.WinUHid

/-! ## The world they share -/

structure Shared where
  device : Device
  /-- Threads that hold the lock shared. -/
  readers : ℕ
  /-- A thread holds the lock exclusively. -/
  writer : Bool
  pending : Option Event
  /-- `ReadReportReadyEvent` is signalled. -/
  ready : Bool
  /-- `ThrottlingTimer` was set. It is a manual-reset timer, so a wait does not take its signal. -/
  timer : Bool
  /-- The open handles. -/
  handles : Multiset Handle
  /-- The blocks that no operation writes to. -/
  heap : Multiset Block
  /-- The `GET_NEXT_EVENT` that are under way, by their `OVERLAPPED`, with their blocks. -/
  ops : Multiset (Handle × Block)
  /-- Whether one is neither completed nor cancelled. -/
  waiting : Handle → Bool
  /-- The threads that were created and have not begun. -/
  created : Multiset (Handle × ThreadProc)
  /-- The threads that were created and have not ended. -/
  alive : Multiset Handle
  /-- The events that a client has. -/
  given : Multiset Event

/-- A device that was just created. -/
def Shared.init (d : Device) : Shared where
  device := d
  readers := 0
  writer := false
  pending := none
  ready := false
  timer := false
  handles := Multiset.ofList ([d.handle, d.throttlingTimer, d.readReportReadyEvent].filterMap id)
  heap := 0
  ops := 0
  waiting := fun _ => false
  created := 0
  alive := 0
  given := 0

/-! ## What a call does -/

inductive ThreadOutcome where
  | ok
  | fail
  | handle (h : Handle)
  | block (b : Block)
  | flag (b : Bool)
  | code (e : UInt32)
  | result (r : IoResult)

namespace ThreadOutcome

def ok? : ThreadOutcome → Option Unit
  | ok => some ()
  | _ => none

def handle? : ThreadOutcome → Option (Option Handle)
  | handle h => some (some h)
  | fail => some none
  | _ => none

def block? : ThreadOutcome → Option (Option Block)
  | block b => some (some b)
  | fail => some none
  | _ => none

def flag? : ThreadOutcome → Option Bool
  | flag b => some b
  | _ => none

def code? : ThreadOutcome → Option UInt32
  | code e => some e
  | _ => none

def result? : ThreadOutcome → Option IoResult
  | result r => some r
  | _ => none

end ThreadOutcome

namespace Shared

/-- Neither `NULL` nor open. The objects of the device stay open. -/
def fresh (w : Shared) (h : Handle) : Bool :=
  h != 0 && h ∉ w.handles &&
    some h ∉ [w.device.handle, w.device.throttlingTimer, w.device.readReportReadyEvent]

def allocated (w : Shared) (b : Block) : Bool := b ∈ w.heap || b ∈ w.ops.map Prod.snd

def newHandle (w : Shared) : Option Handle → Option (Option Handle × Shared)
  | none => some (none, w)
  | some h => if w.fresh h then some (some h, { w with handles := h ::ₘ w.handles }) else none

def newThread (proc : ThreadProc) (w : Shared) : Option Handle → Option (Option Handle × Shared)
  | none => some (none, w)
  | some h =>
    if w.fresh h then
      some (some h, { w with
        handles := h ::ₘ w.handles
        created := (h, proc) ::ₘ w.created
        alive := h ::ₘ w.alive })
    else none

def newBlock (w : Shared) : Option Block → Option (Option Block × Shared)
  | none => some (none, w)
  | some b => if w.allocated b then none else some (some b, { w with heap := b ::ₘ w.heap })

/-- A wait that can last forever ends when its object is signalled. -/
def wait (h : Handle) (millis : UInt32) (w : Shared) : Option (Bool × Shared) :=
  if some h = w.device.readReportReadyEvent then
    if w.ready then some (true, { w with ready := false })
    else if millis = infinite then none else some (false, w)
  else if some h = w.device.throttlingTimer then
    if w.timer then some (true, w)
    else if millis = infinite then none else some (false, w)
  else if h ∈ w.alive then
    if millis = infinite then none else some (false, w)
  else some (decide (h ∈ w.handles), w)

/-- The driver parks the request, or answers at once. -/
def beginOp (event : Handle) (block : Block) (w : Shared) : IoResult → Option (IoResult × Shared)
  | .done e => if e.block = block then some (.done e, w) else none
  | .pending =>
    some (.pending, { w with
      heap := w.heap.erase block
      ops := (event, block) ::ₘ w.ops
      waiting := Function.update w.waiting event true })
  | .tooSmall => some (.tooSmall, w)
  | .failed => some (.failed, w)
  | .timeout => none

/-- The result of an operation that has ended. It may be an event also after it was cancelled. -/
def endOp (event : Handle) (block : Block) (w : Shared) (r : IoResult) : Option (IoResult × Shared) :=
  if (event, block) ∈ w.ops then
    let w' := { w with heap := block ::ₘ w.heap, ops := w.ops.erase (event, block) }
    match r with
    | .done e => if e.block = block then some (.done e, w') else none
    | .tooSmall => some (.tooSmall, w')
    | .failed => some (.failed, w')
    | .pending | .timeout => none
  else if r = .failed then some (.failed, w)
  else none

def overlappedResult (event : Handle) (block : Block) (millis : UInt32) (w : Shared) (r : IoResult) :
    Option (IoResult × Shared) :=
  if w.waiting event then
    if millis = infinite then none else if r = .timeout then some (.timeout, w) else none
  else endOp event block w r

def cancel (event : Option Handle) (w : Shared) : Shared :=
  match event with
  | none => { w with waiting := fun _ => false }
  | some h => { w with waiting := Function.update w.waiting h false }

/-- What the calls of these functions do. The driver answers every request but a `GET_NEXT_EVENT` at
once. -/
def exec : Exec Call Call.Resp ThreadOutcome Shared
  | .getLastError, o, w => o.code?.map fun e => (e, w)
  | .setLastError _, o, w => o.ok?.map fun r => (r, w)
  | .createEvent _, o, w => o.handle?.bind w.newHandle
  | .closeHandle h, o, w => o.ok?.map fun r => (r, { w with handles := w.handles.erase h })
  | .heapAlloc _, o, w => o.block?.bind w.newBlock
  | .heapReAlloc b _, o, w => o.block?.bind fun x =>
    match x with
    | none => some (none, w)
    | some b' => { w with heap := w.heap.erase b }.newBlock (some b')
  | .heapFree b, o, w => o.ok?.map fun r => (r, { w with heap := w.heap.erase b })
  | .resetEvent _, o, w => o.ok?.map fun r => (r, w)
  | .setEvent h, o, w => o.ok?.map fun r =>
    (r, { w with ready := w.ready || decide (some h = w.device.readReportReadyEvent) })
  | .setWaitableTimer h _, o, w => o.ok?.map fun r =>
    (r, { w with timer := w.timer || decide (some h = w.device.throttlingTimer) })
  | .waitForSingleObject h millis, o, w => o.ok?.bind fun _ => w.wait h millis
  | .deviceIoControl .., o, w => o.flag?.map fun b => (b, w)
  | .writeFile .., o, w => o.flag?.map fun b => (b, w)
  | .getNextEvent _ event block _, o, w => o.result?.bind (w.beginOp event block)
  | .getOverlappedResult _ event block millis, o, w =>
    o.result?.bind (w.overlappedResult event block millis)
  | .cancelIo file event, o, w => o.ok?.map fun r => (r, if file = w.device.handle then w.cancel event else w)
  | .createThread proc, o, w => o.handle?.bind (w.newThread proc)
  | .acquireShared, o, w => o.ok?.bind fun r =>
    if w.writer then none else some (r, { w with readers := w.readers + 1 })
  | .releaseShared, o, w => o.ok?.map fun r => (r, { w with readers := w.readers - 1 })
  | .acquireExclusive, o, w => o.ok?.bind fun r =>
    if w.writer || w.readers != 0 then none else some (r, { w with writer := true })
  | .releaseExclusive, o, w => o.ok?.map fun r => (r, { w with writer := false })
  | .readDevice, o, w => o.ok?.map fun _ => (w.device, w)
  | .modifyDevice f, o, w => o.ok?.map fun r => (r, { w with device := f w.device })
  | .setState state, o, w => o.ok?.map fun r => (r, { w with device := { w.device with state := state } })
  | .exchangePending event, o, w => o.ok?.map fun _ => (w.pending, { w with pending := event })
  | .eventCallback e, o, w => o.ok?.map fun r => (r, { w with given := e ::ₘ w.given })
  | .received e, o, w => o.ok?.map fun r => (r, { w with given := e ::ₘ w.given })
  | .exitThread h, o, w => o.ok?.map fun r => (r, { w with alive := w.alive.erase h })
  | .createWaitableTimer, _, _ => none
  | .createFile, _, _ => none
  | .allocDevice, _, _ => none
  | .freeDevice, _, _ => none
  | .accessViolation, _, _ => none
  | .forever, _, _ => none

/-! ## What a call did that came back -/

section
variable {w w' : Shared} {o : ThreadOutcome}

-- Its equations are made here, before all lemmas below ask for them at once.
attribute [local simp] exec

theorem newHandle_cases {x x' : Option Handle} (he : w.newHandle x = some (x', w')) :
    (x' = none ∧ w' = w) ∨ ∃ h, x' = some h ∧ w' = { w with handles := h ::ₘ w.handles } := by
  cases x with
  | none =>
    cases he
    exact .inl ⟨rfl, rfl⟩
  | some h =>
    simp only [newHandle, Option.ite_none_right_eq_some, Option.some.injEq, Prod.mk.injEq] at he
    obtain ⟨-, rfl, rfl⟩ := he
    exact .inr ⟨h, rfl, rfl⟩

theorem newBlock_cases {x x' : Option Block} (he : w.newBlock x = some (x', w')) :
    (x' = none ∧ w' = w) ∨
      ∃ b, x' = some b ∧ ¬ w.allocated b = true ∧ w' = { w with heap := b ::ₘ w.heap } := by
  cases x with
  | none =>
    cases he
    exact .inl ⟨rfl, rfl⟩
  | some b =>
    simp only [newBlock, Option.ite_none_left_eq_some, Option.some.injEq, Prod.mk.injEq] at he
    obtain ⟨hb, rfl, rfl⟩ := he
    exact .inr ⟨b, rfl, hb, rfl⟩

theorem wait_eq {h : Handle} {millis : UInt32} {b : Bool} (he : w.wait h millis = some (b, w')) :
    ∃ ready timer, w' = { w with ready := ready, timer := timer } := by
  unfold wait at he
  split_ifs at he <;> cases he <;> exact ⟨_, _, rfl⟩

theorem beginOp_eq {event : Handle} {block : Block} {r r' : IoResult}
    (he : w.beginOp event block r = some (r', w')) :
    ∃ heap ops waiting, w' = { w with heap := heap, ops := ops, waiting := waiting } := by
  cases r with
  | done e =>
    simp only [beginOp] at he
    split_ifs at he
    cases he
    exact ⟨_, _, _, rfl⟩
  | timeout => cases he
  | tooSmall | pending | failed =>
    cases he
    exact ⟨_, _, _, rfl⟩

theorem exec_createThread {proc : ThreadProc} {x : Option Handle}
    (he : exec (.createThread proc) o w = some (x, w')) :
    (x = none ∧ w' = w) ∨ ∃ h, x = some h ∧ w.fresh h = true ∧
      w' = { w with
        handles := h ::ₘ w.handles
        created := (h, proc) ::ₘ w.created
        alive := h ::ₘ w.alive } := by
  simp only [exec, Option.bind_eq_some_iff] at he
  obtain ⟨y, -, he⟩ := he
  cases y with
  | none =>
    cases he
    exact .inl ⟨rfl, rfl⟩
  | some h =>
    simp only [newThread, Option.ite_none_right_eq_some, Option.some.injEq, Prod.mk.injEq] at he
    obtain ⟨hfresh, rfl, rfl⟩ := he
    exact .inr ⟨h, rfl, hfresh, rfl⟩

theorem exec_acquireShared (he : exec .acquireShared o w = some ((), w')) :
    w.writer = false ∧ w' = { w with readers := w.readers + 1 } := by
  simp only [exec, Option.bind_eq_some_iff, Option.ite_none_left_eq_some, Option.some.injEq,
    Prod.mk.injEq] at he
  obtain ⟨-, -, hwriter, -, rfl⟩ := he
  exact ⟨by simpa using hwriter, rfl⟩

theorem exec_acquireExclusive (he : exec .acquireExclusive o w = some ((), w')) :
    w.writer = false ∧ w.readers = 0 ∧ w' = { w with writer := true } := by
  simp only [exec, Option.bind_eq_some_iff, Option.ite_none_left_eq_some, Option.some.injEq,
    Prod.mk.injEq, Bool.or_eq_true, bne_iff_ne, not_or, not_not, Bool.not_eq_true] at he
  obtain ⟨-, -, ⟨hwriter, hreaders⟩, -, rfl⟩ := he
  exact ⟨hwriter, hreaders, rfl⟩

theorem exec_cancelIo {file : Option Handle} {event : Option Handle}
    (he : exec (.cancelIo file event) o w = some ((), w')) :
    w' = if file = w.device.handle then w.cancel event else w := by
  simp only [exec, Option.map_eq_some_iff, Prod.mk.injEq] at he
  obtain ⟨-, -, -, rfl⟩ := he
  rfl

theorem exec_cancelIo_eq {file : Option Handle} {event : Option Handle}
    (he : exec (.cancelIo file event) o w = some ((), w')) :
    ∃ waiting, w' = { w with waiting := waiting } := by
  rw [exec_cancelIo he]
  split_ifs
  · cases event <;> exact ⟨_, rfl⟩
  · exact ⟨_, rfl⟩

theorem exec_getNextEvent {file : Option Handle} {event : Handle} {block : Block} {size : UInt32}
    {r : IoResult} (he : exec (.getNextEvent file event block size) o w = some (r, w')) :
    ∃ x, w.beginOp event block x = some (r, w') := by
  simp only [exec, Option.bind_eq_some_iff] at he
  obtain ⟨x, -, he⟩ := he
  exact ⟨x, he⟩

theorem exec_waitForSingleObject {h : Handle} {millis : UInt32} {b : Bool}
    (he : exec (.waitForSingleObject h millis) o w = some (b, w')) : w.wait h millis = some (b, w') := by
  simp only [exec, Option.bind_eq_some_iff] at he
  obtain ⟨-, -, he⟩ := he
  exact he

end

end Shared

/-! ## The threads -/

/-- What begins at some time: a function that a client calls, a thread of the library, or the end of an
operation in the driver. -/
inductive Job where
  | start (eventCallback : Option ℕ) (callbackContext : ℕ)
  | stop
  | submit (report : Option (List Byte)) (reportSize : UInt32) (stack : Byte)
  | poll (timeoutMillis : UInt32)
  | completeWrite (event : Event) (success : Bool)
  | completeRead (stack : Byte) (event : Event) (data : Option (List Byte)) (dataLength : UInt32)
  | thread (h : Handle) (proc : ThreadProc)
  | completed (event : Handle)

/-- A client that has an event completes it once. -/
def Job.begin : Job → Shared → Option Shared
  | .start .., w => some w
  | .stop, w => some w
  | .submit .., w => some w
  | .poll _, w => some w
  | .completeWrite e _, w => if e ∈ w.given then some { w with given := w.given.erase e } else none
  | .completeRead _ e _ _, w => if e ∈ w.given then some { w with given := w.given.erase e } else none
  | .thread h proc, w =>
    if (h, proc) ∈ w.created then some { w with created := w.created.erase (h, proc) } else none
  | .completed event, w =>
    if w.waiting event then some { w with waiting := Function.update w.waiting event false } else none

def receive (event : Option Event) : Lib Unit := do
  match event with
  | none => return ()
  | some event => perform (.received event)

/-- Loops are followed through some rounds. -/
def Job.run (rounds : ℕ) : Job → Lib Unit
  | .start eventCallback callbackContext => do
    let _ ← winUHidStartDevice true eventCallback callbackContext
  | .stop => winUHidStopDevice true
  | .submit report reportSize stack => do
    let _ ← winUHidSubmitInputReport true report reportSize stack
  | .poll timeoutMillis => do
    let event ← winUHidPollEvent rounds true timeoutMillis
    receive event
  | .completeWrite event success => winUHidCompleteWriteEvent event success
  | .completeRead stack event data dataLength => winUHidCompleteReadEvent stack event data dataLength
  | .thread h .event => do
    eventThreadProc rounds rounds
    perform (.exitThread h)
  | .thread h .read => do
    readThreadProc rounds
    perform (.exitThread h)
  | .completed _ => return ()

def threads (rounds : ℕ) : System Job Call Call.Resp ThreadOutcome Shared Unit where
  arrive := Job.begin
  handler := Job.run rounds
  exec := Shared.exec

abbrev ThreadPool := Pool Job Call Call.Resp Shared

/-- What some moves of the threads lead to. -/
abbrev Runs (rounds : ℕ) (P₀ P : ThreadPool) : Prop := Reach (threads rounds) (fun _ _ => True) P₀ P

abbrev Reachable (rounds : ℕ) (d : Device) : ThreadPool → Prop := Runs rounds ⟨[], Shared.init d⟩

/-! ## Runs -/

/-- Lets a thread go on while it can, with the outcomes that `choose` gives its calls. -/
def drive (rounds : ℕ) (choose : Call → ThreadOutcome) (i : ℕ) : ℕ → ThreadPool → ThreadPool
  | 0, P => P
  | n + 1, P =>
    match (P.nextCall i).bind fun c => P.move (threads rounds) (.step i (choose c)) with
    | none => P
    | some P' => drive rounds choose i n P'

def begin (rounds : ℕ) (job : Job) (P : ThreadPool) : ThreadPool :=
  (P.move (threads rounds) (.arrive job)).getD P

section
variable {rounds : ℕ} {P₀ P : ThreadPool}

theorem Runs.drive {choose : Call → ThreadOutcome} {i n : ℕ} (h : Runs rounds P₀ P) :
    Runs rounds P₀ (drive rounds choose i n P) := by
  induction n generalizing P with
  | zero => exact h
  | succ n ih =>
    simp only [WinUHid.drive]
    split
    · exact h
    · next P' hP =>
      obtain ⟨c, -, hm⟩ := Option.bind_eq_some_iff.mp hP
      exact ih (h.move trivial hm)

theorem Runs.begin {job : Job} (h : Runs rounds P₀ P) : Runs rounds P₀ (begin rounds job P) := by
  unfold WinUHid.begin
  cases hm : P.move (threads rounds) (.arrive job) with
  | none => exact h
  | some P' => exact h.move trivial hm

end

/-- Nothing fails, and the driver parks every request for an event. -/
def proceeds : Call → ThreadOutcome
  | .createEvent _ => .handle 9
  | .createThread .event => .handle 10
  | .createThread .read => .handle 11
  | .heapAlloc _ => .block 1
  | .deviceIoControl .. => .flag true
  | .getNextEvent .. => .result .pending
  | .getOverlappedResult .. => .result .failed
  | _ => .ok

def plainDevice : Device := ⟨some 1, .created, 128, none, none, 0, none, none, 0, none⟩

def throttledDevice : Device := ⟨some 1, .created, 128, none, none, 0, none, some 2, -10000, some 3⟩

/-- Some calls of one thread. -/
def go (i : ℕ) (P : ThreadPool) : ThreadPool := drive 2 proceeds i 40 P

/-- A device is started with a callback, and its event thread waits for an event. -/
def polling : ThreadPool :=
  go 1 (begin 2 (.thread 10 .event) (go 0 (begin 2 (.start (some 7) 0) ⟨[], Shared.init plainDevice⟩)))

/-- Then it is stopped, as far as `WinUHidStopDevice` comes without the event thread. -/
def stopCalled : ThreadPool := go 2 (begin 2 .stop polling)

theorem polling_reachable : Reachable 2 plainDevice polling :=
  (show Runs 2 _ _ from Reach.init).begin.drive.begin.drive

theorem stopCalled_runs : Runs 2 polling stopCalled := (show Runs 2 _ _ from Reach.init).begin.drive

theorem stopCalled_reachable : Reachable 2 plainDevice stopCalled := polling_reachable.trans stopCalled_runs

/-- A throttled device is started, the event thread stores an event and polls again, and the device is
stopped. -/
def storedEventRun : List (Move Job ThreadOutcome) :=
  let oks (i n : ℕ) : List (Move Job ThreadOutcome) := List.replicate n (.step i .ok)
  [.arrive (.start (some 7) 0)] ++ oks 0 3 ++ [.step 0 (.handle 10)] ++ oks 0 2 ++ [.step 0 (.handle 11)] ++
    oks 0 2 ++ [.step 0 (.handle 9), .step 0 (.flag true)] ++ oks 0 3 ++
  [.arrive (.thread 10 .event), .step 1 (.handle 12)] ++ oks 1 2 ++ [.step 1 (.block 1)] ++ oks 1 2 ++
    [.step 1 (.result (.done ⟨1, Driver.EventType.readReport.value, 0, 0⟩))] ++ oks 1 5 ++
    [.step 1 (.handle 12)] ++ oks 1 2 ++ [.step 1 (.block 2)] ++ oks 1 2 ++
    [.step 1 (.result .pending)] ++ oks 1 1 ++
  [.arrive .stop] ++ oks 2 7 ++
    [.step 1 (.result .failed)] ++ oks 1 3 ++ oks 2 11 ++
  [.arrive (.thread 11 .read)] ++ oks 3 4 ++ oks 2 6

end VirtualGun.WinUHid
