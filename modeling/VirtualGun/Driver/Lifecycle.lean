import VirtualGun.Driver.Operations
import VirtualGun.Driver.Release
import VirtualGun.Program.Ledger
import Mathlib.Tactic.MkIffOfInductiveProp

/-!
# The life of an operation

VHF callbacks, event requests and the close run side by side on a created handle. Who has to
complete what is kept in tokens: a thread that holds one has to spend it, a collection or a queue
stores it, and what is completed keeps it for good.
-/

open VirtualGun.Program

namespace VirtualGun.Driver

/-! ## Tokens -/

inductive Token where
  /-- A VHF operation that has to be completed. -/
  | operation (handle : VhfOperationHandle)
  /-- An object that has to be deleted, or belongs to a collection. -/
  | object (object : WdfObject)
  /-- An object that was not queued yet. -/
  | fresh (object : WdfObject)
  /-- A request that has to be completed or parked. -/
  | request (id : ℕ)
  /-- A `GET_NEXT_EVENT` that was given its event, and has to be completed with success. -/
  | served (id : ℕ)
  /-- The rundown that has to be made. -/
  | rundown
  deriving DecidableEq

def handleTokens (handle : Option VhfOperationHandle) : Multiset Token :=
  ↑(handle.toList.map Token.operation)

def opTokens (op : OperationContext) : Multiset Token :=
  {.object op.object} + handleTokens op.handle

def completionToken (request : Request) (status : NTSTATUS) : Token :=
  if request.code = .getNextEvent ∧ ntSuccess status then .served request.id
  else .request request.id

def rundownToken (b : Bool) : Multiset Token := bif b then {.rundown} else 0

/-- The tokens of the file context. A handle that was run down has used up its rundown. -/
def contextTokens (f : FileContext) : Multiset Token :=
  (f.waitingRequests.map opTokens).sum + (f.outstandingRequests.map opTokens).sum +
    rundownToken f.vhfHandle.isNone

def storedTokens (w : World) : Multiset Token :=
  contextTokens w.file + ↑((completedHandles w.vhf).map Token.operation) + ↑(w.deleted.map Token.object) +
    ↑(w.parked.map fun r => Token.request r.id) +
    ↑(w.completed.map fun c => completionToken c.request c.status) +
    ↑(w.moved.map fun m => Token.request m.2) + ↑(w.queued.map Token.fresh)

def grantedTokens (w : World) : Multiset Token :=
  ↑(w.issued.map fun i => Token.operation i.1) + ↑(w.objects.map Token.object) +
    ↑(w.objects.map Token.fresh) + ↑(w.arrived.map Token.request) + ↑(w.moved.map fun m => Token.served m.2) +
    rundownToken w.closing

/-- The operations are moved in the order they were queued. Once the handle is gone none is left. -/
structure InOrder (f : FileContext) (queued moved : List WdfObject) : Prop where
  live : f.vhfHandle.isSome → queued = moved ++ f.waitingRequests.map (·.object)
  gone : f.vhfHandle = none → f.waitingRequests = [] ∧ f.outstandingRequests = []
  moved : moved <+: queued

structure LifeInv (w : World) : Prop where
  parked : ∀ request ∈ w.parked, request.code = .getNextEvent
  waiting : ∀ op ∈ w.file.waitingRequests, RealOrPseudo op
  outstanding : ∀ op ∈ w.file.outstandingRequests, RealOrPseudo op
  order : InOrder w.file w.queued (w.moved.map (·.1))
  issued : (w.issued.map (·.1)).Nodup
  objects : w.objects.Nodup
  arrived : w.arrived.Nodup

/-- The tokens a call takes. -/
def lifeNeeds : Call → Multiset Token
  | .wdfRequestComplete request status _ _ => {completionToken request status}
  | .wdfObjectDelete object => {.object object}
  | .queueSection op => {.fresh op.object} + opTokens op
  | .tryCompleteSection request => {.request request.id}
  | .wdfRequestForwardToIoQueue request => {.request request.id}
  | .wdfRequestRequeue request => {.request request.id}
  | .rundownSection => {.rundown}
  | .vhfAsyncOperationComplete (some handle) _ => {.operation handle}
  | _ => 0

/-- The tokens a call gives back. -/
def lifeReturns : (c : Call) → c.Resp → Multiset Token
  | .wdfObjectCreate, r => if ntSuccess r.1 then {.fresh r.2} + {.object r.2} else 0
  | .queueSection op, r => if r = .queued then 0 else {.fresh op.object} + opTokens op
  | .tryCompleteSection request, r =>
    if r.completeRequest ∧ ntSuccess r.status then {.served request.id} else {.request request.id}
  | .takeOutstandingRequestById _, r => (r.map opTokens).getD 0
  | .wdfIoQueueRetrieveRequestByFileObject, r =>
    (r.map fun request => {Token.request request.id}).getD 0
  | .wdfRequestForwardToIoQueue request, s => if ntSuccess s then 0 else {.request request.id}
  | .wdfRequestRequeue request, s => if ntSuccess s then 0 else {.request request.id}
  | _, _ => 0

/-- Only event requests wait in the queue, and what is taken has the ID that was asked for. -/
def lifeFact : (c : Call) → c.Resp → Prop
  | .wdfIoQueueRetrieveRequestByFileObject, r => ∀ request ∈ r, request.code = .getNextEvent
  | .takeOutstandingRequestById id, r => ∀ op ∈ r, op.requestId = id ∧ RealOrPseudo op
  | _, _ => True

def lifeLedger : Ledger Event Call Call.Resp World Token where
  allowed
    | .modifyContext _ | .vhfCreate => False
    | .queueSection op => RealOrPseudo op
    | .tryCompleteSection request => request.code = .getNextEvent
    | .wdfRequestForwardToIoQueue request => request.code = .getNextEvent
    | .wdfRequestRequeue request => request.code = .getNextEvent
    | _ => True
  needs := lifeNeeds
  returns := lifeReturns
  fact _ := lifeFact
  stored := storedTokens
  granted := grantedTokens
  spare
    | .fresh _ => True
    | _ => False
  inv := LifeInv

@[simp] theorem lifeLedger_needs : lifeLedger.needs = lifeNeeds := rfl

@[simp] theorem lifeLedger_returns : lifeLedger.returns = lifeReturns := rfl

/-! ## What each call exchanges -/

/-- What a call has to show: its response is one the ledger knows, no token is lost or made, and the
invariant survives. -/
def Exchanges (c : Call) (r : c.Resp) (w w' : World) : Prop :=
  lifeFact c r ∧
    lifeReturns c r + storedTokens w' + grantedTokens w =
      lifeNeeds c + storedTokens w + grantedTokens w' ∧
    LifeInv w'

section
variable {c : Call} {o : Outcome} {w w' : World}

-- Their equations are made here, before all lemmas below ask for them at once.
attribute [local simp] lifeNeeds lifeReturns lifeFact

theorem Exchanges.inert {r : c.Resp} (hw : LifeInv w) (hfact : lifeFact c r)
    (hneeds : lifeNeeds c = 0) (hreturns : lifeReturns c r = 0)
    (hfile : w'.file.waitingRequests = w.file.waitingRequests ∧
      w'.file.outstandingRequests = w.file.outstandingRequests ∧
      w'.file.vhfHandle = w.file.vhfHandle)
    (hvhf : completedHandles w'.vhf = completedHandles w.vhf)
    (hrest : { w with file := w'.file, vhf := w'.vhf } = w') : Exchanges c r w w' := by
  obtain ⟨hwait, hout, hh⟩ := hfile
  refine ⟨hfact, ?_, ?_⟩
  · have hstored : storedTokens w' = storedTokens w := by
      rw [← hrest]
      simp only [storedTokens, contextTokens, hwait, hout, hh, hvhf]
    have hgranted : grantedTokens w' = grantedTokens w := by rw [← hrest]; rfl
    rw [hneeds, hreturns, hstored, hgranted]
  · rw [← hrest]
    exact ⟨hw.parked, hwait ▸ hw.waiting, hout ▸ hw.outstanding,
      ⟨hwait ▸ hh ▸ hw.order.live, hwait ▸ hout ▸ hh ▸ hw.order.gone, hw.order.moved⟩,
      hw.issued, hw.objects, hw.arrived⟩

theorem exchanges_objectCreate {r : NTSTATUS × WdfObject} (hw : LifeInv w)
    (he : exec .wdfObjectCreate o w = some (r, w')) : Exchanges .wdfObjectCreate r w w' := by
  obtain ⟨-, hfresh, rfl⟩ := exec_objectCreate.mp he
  by_cases hs : ntSuccess r.1 = true
  · refine ⟨trivial, ?_, ?_⟩
    · simp only [lifeNeeds, lifeReturns, hs, if_true, storedTokens, grantedTokens, List.map_append, List.map_cons,
        List.map_nil, ← Multiset.coe_add, Multiset.coe_singleton]
      abel
    · simp only [hs, if_true]
      exact ⟨hw.parked, hw.waiting, hw.outstanding, hw.order, hw.issued,
        by simpa using List.Nodup.concat (hfresh hs) hw.objects,
        hw.arrived⟩
  · simp only [hs]
    exact ⟨trivial, by simp [hs], hw⟩

theorem exchanges_complete {request : Request} {s : NTSTATUS} {information : ℕ} {output : List Byte}
    {r : Unit} (hw : LifeInv w)
    (he : exec (.wdfRequestComplete request s information output) o w = some (r, w')) :
    Exchanges (.wdfRequestComplete request s information output) r w w' := by
  obtain ⟨-, rfl⟩ := exec_complete.mp he
  refine ⟨trivial, ?_, hw.parked, hw.waiting, hw.outstanding, hw.order, hw.issued, hw.objects,
    hw.arrived⟩
  simp only [lifeNeeds, lifeReturns, storedTokens, grantedTokens, List.map_append, List.map_cons, List.map_nil,
    ← Multiset.coe_add, Multiset.coe_singleton]
  abel

theorem exchanges_objectDelete {object : WdfObject} {r : Unit} (hw : LifeInv w)
    (he : exec (.wdfObjectDelete object) o w = some (r, w')) :
    Exchanges (.wdfObjectDelete object) r w w' := by
  obtain ⟨-, rfl⟩ := exec_objectDelete.mp he
  refine ⟨trivial, ?_, hw.parked, hw.waiting, hw.outstanding, hw.order, hw.issued, hw.objects,
    hw.arrived⟩
  simp only [lifeNeeds, lifeReturns, storedTokens, grantedTokens, List.map_append, List.map_cons, List.map_nil,
    ← Multiset.coe_add, Multiset.coe_singleton]
  abel

theorem exchanges_asyncComplete {handle : Option VhfOperationHandle} {s r : NTSTATUS}
    (hw : LifeInv w) (he : exec (.vhfAsyncOperationComplete handle s) o w = some (r, w')) :
    Exchanges (.vhfAsyncOperationComplete handle s) r w w' := by
  obtain ⟨-, rfl⟩ := exec_asyncComplete.mp he
  refine ⟨trivial, ?_, hw.parked, hw.waiting, hw.outstanding, hw.order, hw.issued, hw.objects,
    hw.arrived⟩
  have hhandles : completedHandles (w.vhf ++ [.complete handle s]) =
      completedHandles w.vhf ++ handle.toList := by
    cases handle <;> simp [completedHandles, VhfCall.completedHandle]
  simp only [storedTokens, World.call, hhandles]
  cases handle with
  | none => simp [grantedTokens]
  | some h =>
    simp only [lifeNeeds, lifeReturns, grantedTokens, Option.toList_some,
      List.map_append, List.map_cons, List.map_nil, ← Multiset.coe_add, Multiset.coe_singleton]
    abel

theorem exchanges_retrieve {r : Option Request} (hw : LifeInv w)
    (he : exec .wdfIoQueueRetrieveRequestByFileObject o w = some (r, w')) :
    Exchanges .wdfIoQueueRetrieveRequestByFileObject r w w' := by
  rcases exec_retrieveRequest.mp he with ⟨s, -, -, rfl, rfl⟩ | ⟨request, rest, -, hp, rfl, rfl⟩
  · exact ⟨by simp, by simp, hw⟩
  · have hparked := hw.parked
    simp only [hp, List.mem_cons, forall_eq_or_imp] at hparked
    refine ⟨by simpa using hparked.1, ?_, hparked.2, hw.waiting, hw.outstanding,
      hw.order, hw.issued, hw.objects, hw.arrived⟩
    simp only [lifeNeeds, lifeReturns, storedTokens, grantedTokens, hp, List.map_cons, Option.map_some, Option.getD_some,
      ← Multiset.cons_coe, ← Multiset.singleton_add]
    abel

theorem exchanges_park {c : Call} {r : c.Resp} {request : Request} {s : NTSTATUS} {parked : List Request}
    (hw : LifeInv w) (hcode : request.code = .getNextEvent) (hfact : lifeFact c r)
    (hneeds : lifeNeeds c = {.request request.id})
    (hreturns : lifeReturns c r = if ntSuccess s then 0 else {.request request.id})
    (hparked : List.Perm parked (request :: w.parked))
    (hw' : (if ntSuccess s then { w with parked := parked } else w) = w') : Exchanges c r w w' := by
  by_cases hs : ntSuccess s = true
  · simp only [hs, if_true] at hw' hreturns
    subst hw'
    refine ⟨hfact, ?_, fun q hq => ?_, hw.waiting, hw.outstanding, hw.order, hw.issued, hw.objects,
      hw.arrived⟩
    · have hperm : (↑(parked.map fun r => Token.request r.id) : Multiset Token) =
          {.request request.id} + ↑(w.parked.map fun r => Token.request r.id) := by
        rw [Multiset.singleton_add, Multiset.cons_coe]
        exact Multiset.coe_eq_coe.mpr (hparked.map _)
      simp only [hneeds, hreturns, storedTokens, grantedTokens, hperm]
      abel
    · rcases List.mem_cons.mp (hparked.mem_iff.mp hq) with rfl | hq
      · exact hcode
      · exact hw.parked q hq
  · simp only [hs, Bool.false_eq_true, if_false] at hw' hreturns
    subst hw'
    exact ⟨hfact, by rw [hneeds, hreturns], hw⟩

theorem exchanges_take {id : UInt32} {r : Option OperationContext} (hw : LifeInv w)
    (he : exec (.takeOutstandingRequestById id) o w = some (r, w')) :
    Exchanges (.takeOutstandingRequestById id) r w w' := by
  obtain ⟨-, rfl, rfl⟩ := exec_take.mp he
  have horder : InOrder (takeOutstandingRequestById id w.file).2 w.queued (w.moved.map (·.1)) :=
    ⟨hw.order.live, fun hh => ⟨(hw.order.gone hh).1,
      by simp [takeOutstandingRequestById, (hw.order.gone hh).2]⟩, hw.order.moved⟩
  refine ⟨fun op hop => ?_, ?_, hw.parked, hw.waiting,
    fun op hop => hw.outstanding op (takeOutstandingRequestById_mem hop), horder, hw.issued,
    hw.objects, hw.arrived⟩
  · obtain ⟨hmem, hid⟩ := takeOutstandingRequestById_some hop
    exact ⟨hid, hw.outstanding op hmem⟩
  · simp only [lifeNeeds, lifeReturns, storedTokens, grantedTokens, contextTokens,
      takeOutstandingRequestById_sum opTokens id w.file]
    simp only [takeOutstandingRequestById]
    abel

theorem exchanges_queue {op : OperationContext} {r : QueueResult} (hw : LifeInv w)
    (hop : RealOrPseudo op) (he : exec (.queueSection op) o w = some (r, w')) :
    Exchanges (.queueSection op) r w w' := by
  obtain ⟨add, -, rfl, rfl⟩ := exec_queueSection.mp he
  rcases queueSection_cases op add w.file with ⟨hr, hfile⟩ | ⟨hr, hh, hfile⟩
  · have hsame : w.afterQueue w.file = w := by simp [World.afterQueue, added]
    rw [hfile, hsame]
    exact ⟨trivial, by simp [hr], hw⟩
  · have hadded : added w.file.waitingRequests (w.file.waitingRequests ++ [op]) = [op.object] := by
      simp [added]
    simp only [hfile, World.afterQueue, hadded]
    refine ⟨trivial, ?_, hw.parked, ?_, hw.outstanding, ⟨fun _ => ?_, fun hn => ?_, ?_⟩, hw.issued,
      hw.objects, hw.arrived⟩
    · simp only [lifeNeeds, lifeReturns, hr, if_true, storedTokens, grantedTokens, contextTokens,
        List.map_append, List.sum_append, List.map_cons, List.map_nil, List.sum_cons, List.sum_nil,
        ← Multiset.coe_add, Multiset.coe_singleton]
      abel
    · intro q hq
      rcases List.mem_append.mp hq with hq | hq
      · exact hw.waiting q hq
      · rw [List.mem_singleton.mp hq]
        exact hop
    · simp [hw.order.live hh]
    · simp [show w.file.vhfHandle = none from hn] at hh
    · exact hw.order.moved.trans (List.prefix_append _ _)

theorem exchanges_tryComplete {request : Request} {r : TryResult} (hw : LifeInv w)
    (he : exec (.tryCompleteSection request) o w = some (r, w')) :
    Exchanges (.tryCompleteSection request) r w w' := by
  obtain ⟨t, -, rfl, rfl⟩ := exec_tryComplete.mp he
  rcases tryCompleteSection_cases t request.output w.file with
    ⟨hr, hfile⟩ | ⟨hr, op, rest, hwait, hfile⟩
  · have hsame : w.afterTry request.id w.file = w := by simp [World.afterTry, added]
    rw [hfile, hsame]
    exact ⟨trivial, by simp only [lifeNeeds, lifeReturns, if_neg hr], hw⟩
  · have hadded : added w.file.outstandingRequests (w.file.outstandingRequests ++ [op]) =
        [op.object] := by
      simp [added]
    have hlive (hh : w.file.vhfHandle.isSome) := hw.order.live hh
    have hwaiting := hw.waiting
    simp only [hwait, List.mem_cons, forall_eq_or_imp] at hwaiting
    have hhandle : w.file.vhfHandle.isSome := by
      rw [Option.isSome_iff_ne_none]
      intro hn
      simp [(hw.order.gone hn).1] at hwait
    simp only [hfile, World.afterTry, hadded]
    refine ⟨trivial, ?_, hw.parked, hwaiting.2, ?_, ⟨fun _ => ?_, fun hn => ?_, ?_⟩, hw.issued,
      hw.objects, hw.arrived⟩
    · simp only [lifeNeeds, lifeReturns, if_pos hr, storedTokens, grantedTokens, contextTokens, hwait, List.map_append,
        List.sum_append, List.map_cons, List.map_nil, List.sum_cons, List.sum_nil,
        ← Multiset.coe_add, Multiset.coe_singleton]
      abel
    · intro q hq
      rcases List.mem_append.mp hq with hq | hq
      · exact hw.outstanding q hq
      · rw [List.mem_singleton.mp hq]
        exact hwaiting.1
    · simp [hlive hhandle, hwait]
    · simp [show w.file.vhfHandle = none from hn] at hhandle
    · rw [hlive hhandle, hwait]
      simp

theorem sum_opTokens (ops : List OperationContext) :
    (ops.map opTokens).sum = ↑((ops.map (·.object)).map Token.object) +
      ↑((ops.filterMap (·.handle)).map Token.operation) := by
  induction ops with
  | nil => rfl
  | cons op ops ih =>
    have hsplit : (op :: ops).filterMap (·.handle) =
        op.handle.toList ++ ops.filterMap (·.handle) := by
      cases h : op.handle <;> simp [h]
    rw [List.map_cons, List.sum_cons, ih, hsplit]
    simp only [opTokens, handleTokens, List.map_cons, List.map_append, ← Multiset.coe_add,
      ← Multiset.cons_coe, ← Multiset.singleton_add]
    abel

/-- Who holds the rundown finds the handle set. -/
theorem handle_of_rundown (h : {Token.rundown} + storedTokens w ≤ grantedTokens w) :
    w.file.vhfHandle.isSome := by
  have hone : (grantedTokens w).count .rundown ≤ 1 := by
    cases hc : w.closing <;> simp [grantedTokens, rundownToken, hc]
  have hle := Multiset.count_le_of_le Token.rundown h
  cases hh : w.file.vhfHandle with
  | some handle => rfl
  | none =>
    simp [storedTokens, contextTokens, rundownToken, hh] at hle
    omega

theorem exchanges_rundown {r : RundownResult} (hw : LifeInv w)
    (hheld : {Token.rundown} + storedTokens w ≤ grantedTokens w)
    (he : exec .rundownSection o w = some (r, w')) : Exchanges .rundownSection r w w' := by
  obtain ⟨-, -, rfl⟩ := exec_rundown.mp he
  have hh := handle_of_rundown hheld
  refine ⟨trivial, ?_, hw.parked, nofun, nofun, ⟨nofun, fun _ => ⟨rfl, rfl⟩, hw.order.moved⟩,
    hw.issued, hw.objects, hw.arrived⟩
  have hnone : w.file.vhfHandle.isNone = false := by simpa [Option.isSome_iff_ne_none] using hh
  have hhandles : completedHandles w.afterRundown.vhf = completedHandles w.vhf ++
      (w.file.waitingRequests.filterMap (·.handle) ++
        w.file.outstandingRequests.filterMap (·.handle)) := by
    simp only [completedHandles, World.afterRundown, rundownSection, List.filterMap_append,
      rundown_handles hw.waiting, rundown_handles hw.outstanding]
  simp only [lifeNeeds, lifeReturns, storedTokens, hhandles]
  simp only [grantedTokens, contextTokens, World.afterRundown, rundownSection, sum_opTokens, hnone,
    rundownToken, List.map_append, List.map_nil, List.sum_nil, Option.isNone_none, cond_true,
    cond_false, ← Multiset.coe_add]
  abel

theorem life_call {c : Call} {r : c.Resp} (hw : LifeInv w) (hallowed : lifeLedger.allowed c)
    (hheld : lifeNeeds c + storedTokens w ≤ grantedTokens w) (he : exec c o w = some (r, w')) :
    Exchanges c r w w' := by
  have hvhf (v : VhfCall) (hv : v.completedHandle = none) :
      completedHandles (w.call v).vhf = completedHandles w.vhf := by
    simp [completedHandles, World.call, hv]
  cases c with
  | modifyContext | vhfCreate => exact hallowed.elim
  | wdfObjectCreate => exact exchanges_objectCreate hw he
  | wdfRequestComplete => exact exchanges_complete hw he
  | wdfObjectDelete => exact exchanges_objectDelete hw he
  | vhfAsyncOperationComplete => exact exchanges_asyncComplete hw he
  | wdfIoQueueRetrieveRequestByFileObject => exact exchanges_retrieve hw he
  | queueSection => exact exchanges_queue hw hallowed he
  | tryCompleteSection => exact exchanges_tryComplete hw he
  | takeOutstandingRequestById => exact exchanges_take hw he
  | rundownSection => exact exchanges_rundown hw hheld he
  | wdfRequestForwardToIoQueue request =>
    obtain ⟨-, hw'⟩ := exec_forward.mp he
    exact exchanges_park hw hallowed trivial rfl rfl (List.perm_append_singleton request w.parked) hw'
  | wdfRequestRequeue request =>
    obtain ⟨-, hw'⟩ := exec_requeue.mp he
    exact exchanges_park hw hallowed trivial rfl rfl (.refl _) hw'
  | readContext =>
    obtain ⟨-, -, rfl⟩ := exec_readContext.mp he
    exact .inert hw trivial rfl rfl ⟨rfl, rfl, rfl⟩ rfl rfl
  | wdfRequestRetrieveInputBuffer =>
    obtain ⟨-, -, rfl⟩ := exec_retrieveInput.mp he
    exact .inert hw trivial rfl rfl ⟨rfl, rfl, rfl⟩ rfl rfl
  | wdfRequestRetrieveOutputBuffer =>
    obtain ⟨-, -, rfl⟩ := exec_retrieveOutput.mp he
    exact .inert hw trivial rfl rfl ⟨rfl, rfl, rfl⟩ rfl rfl
  | wdfMemoryCreate =>
    obtain ⟨-, rfl⟩ := exec_memoryCreate.mp he
    exact .inert hw trivial rfl rfl ⟨rfl, rfl, rfl⟩ rfl rfl
  | wdfMemoryCopyFromBuffer =>
    obtain ⟨-, rfl⟩ := exec_memoryCopy.mp he
    exact .inert hw trivial rfl rfl ⟨rfl, rfl, rfl⟩ rfl rfl
  | interlockedIncrement =>
    obtain ⟨-, -, rfl⟩ := exec_increment.mp he
    exact .inert hw trivial rfl rfl ⟨rfl, rfl, rfl⟩ rfl rfl
  | storeLastReport =>
    obtain ⟨-, rfl⟩ := exec_storeLastReport.mp he
    exact .inert hw trivial rfl rfl ⟨rfl, rfl, rfl⟩ rfl rfl
  | vhfStart =>
    obtain ⟨-, rfl⟩ := exec_start.mp he
    exact .inert hw trivial rfl rfl ⟨rfl, rfl, rfl⟩ (hvhf _ rfl) rfl
  | vhfReadReportSubmit =>
    obtain ⟨-, rfl⟩ := exec_submit.mp he
    exact .inert hw trivial rfl rfl ⟨rfl, rfl, rfl⟩ (hvhf _ rfl) rfl
  | vhfDelete =>
    obtain ⟨-, rfl⟩ := exec_delete.mp he
    exact .inert hw trivial rfl rfl ⟨rfl, rfl, rfl⟩ (hvhf _ rfl) rfl
  | rtlCopyMemory =>
    obtain ⟨-, rfl⟩ := exec_copyMemory.mp he
    exact .inert hw trivial rfl rfl ⟨rfl, rfl, rfl⟩ (hvhf _ rfl) rfl
  | rtlZeroMemory =>
    obtain ⟨-, rfl⟩ := exec_zeroMemory.mp he
    exact .inert hw trivial rfl rfl ⟨rfl, rfl, rfl⟩ (hvhf _ rfl) rfl

end

/-! ## What each handler spends -/

abbrev Trades {α : Type} (l : Event) (pre : Multiset Token) (p : Handler α)
    (post : α → Multiset Token) : Prop :=
  lifeLedger.Trades l pre p post

section
variable {l : Event} {request : Request} {op : OperationContext} {handle : Option VhfOperationHandle}
  {s : NTSTATUS}

theorem wdfRequestComplete_trades {pre : Multiset Token} (hpre : pre = {completionToken request s}) :
    Trades l pre (wdfRequestComplete request s) fun _ => 0 :=
  .call 0 trivial (by rw [hpre]; exact (add_zero _).symm) fun _ _ => .ret rfl

theorem fail_trades (h : request.code ≠ .getNextEvent ∨ ntSuccess s = false) :
    Trades l {.request request.id} (wdfRequestComplete request s) fun _ => 0 := by
  refine wdfRequestComplete_trades ?_
  rcases h with h | h <;> simp [completionToken, h]

theorem completeIfHandle_trades (handle : Option VhfOperationHandle) (s : NTSTATUS) :
    Trades l (handleTokens handle) (completeIfHandle handle s) fun _ => 0 := by
  cases handle with
  | none => exact .ret rfl
  | some h => exact .call 0 trivial (add_zero _).symm fun _ _ => .ret rfl

theorem objectDelete_trades {α : Type} {object : WdfObject} {k : Unit → Handler α}
    {rest : Multiset Token} {post : α → Multiset Token} (hk : Trades l rest (k ()) post) :
    Trades l ({.object object} + rest) (.call (.wdfObjectDelete object) k) post :=
  .call rest trivial rfl fun _ _ => by simpa [lifeReturns] using hk

theorem tryCompleteGetNextEvent_trades (hcode : request.code = .getNextEvent) :
    Trades l {.request request.id} (tryCompleteGetNextEvent request)
      fun b => if b then 0 else {.request request.id} := by
  simp only [tryCompleteGetNextEvent, perform, Prog.perform_bind]
  refine .call 0 hcode (add_zero _).symm fun r _ => .ite (fun hr => ?_) fun hr => .ret ?_
  · refine .call 0 trivial ?_ fun _ _ => .ret (by simp [lifeReturns, hr])
    simp only [lifeLedger_needs, lifeLedger_returns, lifeNeeds, lifeReturns, hr, true_and, add_zero,
      completionToken, hcode]
    split <;> simp [*]
  · simp [lifeReturns, hr]

theorem park_trades {c : Call} (hallowed : lifeLedger.allowed c)
    (hneeds : lifeNeeds c = {.request request.id}) {k : c.Resp → Handler Unit}
    (hk : ∀ r, Trades l (lifeReturns c r) (k r) fun _ => 0) :
    Trades l {.request request.id} (.call c k) fun _ => 0 :=
  .call 0 hallowed (by rw [lifeLedger_needs, hneeds, add_zero]) fun r _ => by
    rw [lifeLedger_returns, add_zero]
    exact hk r

theorem parked_or_failed_trades :
    Trades l (if ntSuccess s then 0 else {.request request.id})
      (if !ntSuccess s then wdfRequestComplete request s else pure ()) fun _ => 0 := by
  cases hs : ntSuccess s with
  | true => exact .ret (by simp)
  | false => exact fail_trades (.inr hs)

theorem serviceWaitingRequest_trades : Trades l 0 serviceWaitingRequest fun _ => 0 := by
  simp only [serviceWaitingRequest, perform, Prog.perform_bind]
  refine .call 0 trivial (add_zero _).symm fun r hr => ?_
  cases r with
  | none => exact .ret rfl
  | some request =>
    have hcode : request.code = .getNextEvent := hr request rfl
    refine .bind _ (by simpa [lifeReturns] using tryCompleteGetNextEvent_trades hcode) fun b => ?_
    cases b with
    | true => exact .ret rfl
    | false => exact park_trades (c := .wdfRequestRequeue request) hcode rfl fun s => parked_or_failed_trades

theorem discard_trades (object : WdfObject) (handle : Option VhfOperationHandle) (s : NTSTATUS) :
    Trades l ({.fresh object} + ({.object object} + handleTokens handle))
      (completeIfHandle handle s >>= fun _ => Prog.perform (Call.wdfObjectDelete object))
      fun _ => 0 := by
  have hpre : ({.fresh object} + ({.object object} + handleTokens handle) : Multiset Token) =
      handleTokens handle + ({.object object} + {.fresh object}) := by abel
  rw [hpre]
  refine .bind _ ((completeIfHandle_trades handle s).frame _) fun _ => ?_
  rw [zero_add]
  refine objectDelete_trades (.drop (z := {.fresh object}) (fun t ht => ?_) (zero_add _).symm)
  rw [Multiset.mem_singleton.mp ht]
  trivial

theorem queueOperation_trades (op : OperationContext) (hop : RealOrPseudo op) :
    Trades l ({.fresh op.object} + opTokens op) (queueOperation op op.handle) fun _ => 0 := by
  simp only [queueOperation, perform, Prog.perform_bind]
  refine .call 0 hop (add_zero _).symm fun r _ => ?_
  rw [add_zero]
  cases r with
  | queued => exact serviceWaitingRequest_trades
  | tooLate => exact discard_trades op.object op.handle Status.tooLate
  | failed s => exact discard_trades op.object op.handle s

/-- A callback has a handle exactly if it has a packet. -/
theorem dispatchAsyncOperation_trades (handle : Option VhfOperationHandle)
    (packet : Option HidXferPacket) (type : EventType) (h : handle = none ↔ packet = none) :
    Trades l (handleTokens handle) (dispatchAsyncOperation handle packet type) fun _ => 0 := by
  simp only [dispatchAsyncOperation, perform, Prog.perform_bind]
  refine .call _ trivial (zero_add _).symm fun r _ => ?_
  obtain ⟨status, object⟩ := r
  refine .ite (fun hs => ?_) fun hs => ?_
  · have hfail : ntSuccess status = false := by simpa using hs
    simpa [lifeReturns, hfail] using completeIfHandle_trades handle Status.unsuccessful
  · have hs : ntSuccess status = true := by simpa using hs
    simp only [lifeLedger_returns, lifeReturns, hs, if_true, add_assoc]
    cases packet with
    | none =>
      obtain rfl := h.mpr rfl
      exact queueOperation_trades ⟨object, type, 0, none, HidXferPacket.zero⟩
        (iff_of_true rfl rfl)
    | some packet =>
      refine .inert trivial rfl (fun _ => rfl) fun counter => .inert trivial rfl (fun _ => rfl)
        fun f => .ite (fun _ => discard_trades object handle _) fun _ => ?_
      refine queueOperation_trades ⟨object, type, realRequestId counter, handle, _⟩
        (iff_of_false (realRequestId_ne_zero counter) fun hn => ?_)
      simpa using h.mp hn

theorem getNextEvent_trades (hcode : request.code = .getNextEvent) :
    Trades l {.request request.id} (getNextEvent request) fun _ => 0 := by
  simp only [getNextEvent, perform, Prog.perform_bind]
  refine .inert trivial rfl (fun _ => rfl) fun f => .ite (fun _ => fail_trades (.inr rfl)) fun _ =>
    .bind _ (tryCompleteGetNextEvent_trades hcode) fun b => ?_
  cases b with
  | true => exact .ret rfl
  | false =>
    exact park_trades (c := .wdfRequestForwardToIoQueue request) hcode rfl
      fun s => parked_or_failed_trades

theorem finish_trades {object : WdfObject} (hcode : request.code ≠ .getNextEvent) :
    Trades l ({.object object} + {.request request.id})
      (.call (.wdfObjectDelete object) fun _ => wdfRequestComplete request s) fun _ => 0 :=
  objectDelete_trades (fail_trades (.inl hcode))

theorem complete_operation_trades {status : NTSTATUS} (hcode : request.code ≠ .getNextEvent) :
    Trades l (opTokens op + {.request request.id})
      (.call (.vhfAsyncOperationComplete op.handle status) fun s =>
        .call (.wdfObjectDelete op.object) fun _ => wdfRequestComplete request s) fun _ => 0 := by
  have hneeds : lifeNeeds (.vhfAsyncOperationComplete op.handle status) =
      handleTokens op.handle := by
    cases op.handle <;> rfl
  refine .call ({.object op.object} + {.request request.id}) trivial ?_ fun s _ => ?_
  · rw [lifeLedger_needs, hneeds, opTokens]
    abel
  · have hreturns : lifeReturns (.vhfAsyncOperationComplete op.handle status) s = 0 := rfl
    rw [lifeLedger_returns, hreturns, zero_add]
    exact finish_trades hcode

theorem completeWriteEvent_trades (hcode : request.code ≠ .getNextEvent) :
    Trades l {.request request.id} (completeWriteEvent request) fun _ => 0 := by
  simp only [completeWriteEvent, perform, Prog.perform_bind]
  refine .inert trivial rfl (fun _ => rfl) fun f => .ite (fun _ => fail_trades (.inl hcode))
    fun _ => .inert trivial rfl (fun _ => rfl) fun s => .ite (fun _ => fail_trades (.inl hcode))
    fun _ => .call _ trivial (zero_add _).symm fun r _ => ?_
  cases r with
  | none => simpa [lifeReturns] using fail_trades (.inl hcode)
  | some op => exact complete_operation_trades hcode

theorem answerReadyForRead_trades (readComplete : ReadEventComplete) :
    Trades l 0 (answerReadyForRead readComplete) fun _ => 0 := by
  simp only [answerReadyForRead, perform, Prog.perform_bind]
  refine .ite (fun _ => .inert trivial rfl (fun _ => rfl) fun f =>
    .inert trivial rfl (fun _ => rfl) fun s => .ret rfl) fun _ => .ite (fun _ => ?_) fun _ => .ret rfl
  exact .bind _ (dispatchAsyncOperation_trades none none .readReport (iff_of_true rfl rfl)) fun _ => .ret rfl

theorem fillReportBuffer_trades (op : OperationContext) (readComplete : ReadEventComplete)
    (pre : Multiset Token) :
    Trades l pre (fillReportBuffer op readComplete) fun _ => pre := by
  simp only [fillReportBuffer, perform, Prog.perform_bind]
  exact .inert trivial rfl (fun _ => rfl) fun _ => .ite
    (fun _ => .inert trivial rfl (fun _ => rfl) fun _ => .ret rfl) fun _ => .ret rfl

theorem completeReadEvent_trades (hcode : request.code ≠ .getNextEvent) :
    Trades l {.request request.id} (completeReadEvent request) fun _ => 0 := by
  simp only [completeReadEvent, perform, Prog.perform_bind]
  refine .inert trivial rfl (fun _ => rfl) fun f => .ite (fun _ => fail_trades (.inl hcode))
    fun _ => .inert trivial rfl (fun _ => rfl) fun s => .ite (fun _ => fail_trades (.inl hcode))
    fun _ => .ite (fun _ => fail_trades (.inl hcode)) fun _ =>
    .call _ trivial (zero_add _).symm fun r hr => ?_
  cases r with
  | none => simpa [lifeReturns] using fail_trades (.inl hcode)
  | some op =>
    obtain ⟨hid, hop⟩ := hr op rfl
    refine .ite (fun hzero => ?_) fun _ => .ite (fun _ => ?_) fun _ => complete_operation_trades hcode
    · -- a pseudo-request holds no handle
      have hnone : op.handle = none := hop.mp (hid.trans hzero)
      have hpre : opTokens op + {.request request.id} =
          {Token.object op.object} + {Token.request request.id} := by
        simp [opTokens, handleTokens, hnone]
      have hanswer := (answerReadyForRead_trades (l := l) (ReadEventComplete.decode request.input)).frame
        (opTokens op + {.request request.id})
      rw [zero_add, hpre] at hanswer
      refine .bind (fun _ => {.object op.object} + {.request request.id})
        (by simpa [lifeReturns, hpre] using hanswer) fun s => finish_trades hcode
    · exact .bind _ (fillReportBuffer_trades op _ _) fun _ => complete_operation_trades hcode

theorem winUHidEvtDeviceFileClose_trades :
    Trades l {.rundown} winUHidEvtDeviceFileClose fun _ => 0 := by
  simp only [winUHidEvtDeviceFileClose, perform, Prog.perform_bind]
  refine .call 0 trivial (add_zero _).symm fun r _ => ?_
  cases r.vhfHandle with
  | none => exact .ret rfl
  | some handle =>
    exact .ite (fun _ => .inert trivial rfl (fun _ => rfl) fun _ =>
      .inert trivial rfl (fun _ => rfl) fun _ => .ret rfl)
      fun _ => .inert trivial rfl (fun _ => rfl) fun _ => .ret rfl

end

/-! ## Any interleaving -/

/-- Callbacks of VHF, event requests and the close arrive. -/
def LifeEvents (_ : Pool Event Call Call.Resp World) : Move Event Outcome → Bool
  | .arrive (.ioctl request) =>
    request.code == .getNextEvent || request.code == .completeWriteEvent ||
      request.code == .completeReadEvent
  | .arrive (.write _) => false
  | _ => true

/-- A device was created, its requests are completed, and VHF did not call back yet. -/
@[mk_iff]
structure Created (w : World) : Prop where
  handle : w.file.vhfHandle.isSome
  waiting : w.file.waitingRequests = []
  outstanding : w.file.outstandingRequests = []
  parked : w.parked = []
  handles : completedHandles w.vhf = []
  completed : w.completed.map (·.request.id) = w.arrived
  setup : ∀ c ∈ w.completed, c.request.code ≠ .getNextEvent
  arrived : w.arrived.Nodup
  issued : w.issued = []
  objects : w.objects = []
  deleted : w.deleted = []
  queued : w.queued = []
  moved : w.moved = []
  closing : w.closing = false

instance (w : World) : Decidable (Created w) := decidable_of_iff _ (created_iff w).symm

section
variable {w v : World} {l : Event} {P : Pool Event Call Call.Resp World}

theorem Created.balanced (h : Created w) :
    lifeLedger.Balanced (⟨[], w⟩ : Pool Event Call Call.Resp World) [] := by
  have hcompleted : w.completed.map (fun c => completionToken c.request c.status) =
      w.arrived.map Token.request := by
    rw [← h.completed, List.map_map]
    exact List.map_congr_left fun c hc => by simp [completionToken, h.setup c hc]
  have hsome : w.file.vhfHandle.isNone = false := by
    simpa [Option.isSome_iff_ne_none] using h.handle
  refine ⟨.nil, ⟨0, nofun, ?_⟩, by simp [h.parked], by simp [h.waiting], by simp [h.outstanding],
    ⟨fun _ => by simp [h.queued, h.moved, h.waiting], fun _ => ⟨h.waiting, h.outstanding⟩,
      by simp [h.moved]⟩, by simp [h.issued], by simp [h.objects], h.arrived⟩
  simp only [lifeLedger, storedTokens, grantedTokens, contextTokens, rundownToken, hcompleted, hsome,
    h.waiting, h.outstanding, h.handles, h.deleted, h.parked, h.moved, h.queued, h.issued, h.objects,
    h.closing, List.map_nil, List.sum_nil, Multiset.coe_nil, cond_false, add_zero, zero_add]

theorem life_arrive (hok : LifeEvents P (.arrive l)) (hw : LifeInv w)
    (ha : driver.arrive l w = some v) :
    ∃ x, lifeLedger.Spends l (driver.handler l) x ∧
      x + storedTokens v + grantedTokens w = storedTokens w + grantedTokens v ∧ LifeInv v := by
  cases l with
  | ioctl request =>
    simp only [driver, arrive, World.accept, Option.ite_none_left_eq_some, Option.some.injEq,
      Bool.or_eq_true, decide_eq_true_eq, not_or] at ha
    obtain ⟨-, ⟨-, hfresh⟩, rfl⟩ := ha
    refine ⟨{.request request.id}, ?_, ?_, hw.parked, hw.waiting, hw.outstanding, hw.order,
      hw.issued, hw.objects,
      by simpa using List.Nodup.concat hfresh hw.arrived⟩
    · simp only [LifeEvents, Bool.or_eq_true, beq_iff_eq] at hok
      rcases hok with (hcode | hcode) | hcode <;>
        simp only [driver, handler, winUHidEvtIoDeviceControl, hcode]
      · exact (getNextEvent_trades hcode).spends
      · exact (completeWriteEvent_trades (by simp [hcode])).spends
      · exact (completeReadEvent_trades (by simp [hcode])).spends
    · simp only [storedTokens, grantedTokens, List.map_append, List.map_cons, List.map_nil,
        ← Multiset.coe_add, Multiset.coe_singleton]
      abel
  | write => exact absurd hok (by simp [LifeEvents])
  | asyncOperation handle packet type =>
    simp only [driver, arrive, Option.ite_none_right_eq_some, Option.some.injEq, Bool.and_eq_true,
      decide_eq_true_eq] at ha
    obtain ⟨⟨-, hfresh⟩, rfl⟩ := ha
    refine ⟨handleTokens (some handle), (dispatchAsyncOperation_trades (some handle) (some packet)
      type (by simp)).spends, ?_, hw.parked, hw.waiting, hw.outstanding, hw.order, ?_, hw.objects,
      hw.arrived⟩
    · simp only [storedTokens, grantedTokens, handleTokens, Option.toList_some, List.map_append,
        List.map_cons, List.map_nil, ← Multiset.coe_add, Multiset.coe_singleton]
      abel
    · simpa using List.Nodup.concat hfresh hw.issued
  | readyForNextReadReport =>
    simp only [driver, arrive, Option.ite_none_right_eq_some, Option.some.injEq] at ha
    obtain ⟨-, rfl⟩ := ha
    exact ⟨0, (dispatchAsyncOperation_trades none none .readReport (by simp)).spends,
      by rw [zero_add], hw⟩
  | close =>
    simp only [driver, arrive, Option.ite_none_left_eq_some, Option.some.injEq] at ha
    obtain ⟨hopen, rfl⟩ := ha
    refine ⟨_, winUHidEvtDeviceFileClose_trades.spends, ?_, hw.parked, hw.waiting, hw.outstanding,
      hw.order, hw.issued, hw.objects, hw.arrived⟩
    simp only [storedTokens, grantedTokens, rundownToken, hopen, cond_true, cond_false]
    abel

theorem life_balanced {w₀ : World} (h₀ : Created w₀) (hP : Reach driver (fun P m => LifeEvents P m) ⟨[], w₀⟩ P) :
    ∃ ms, lifeLedger.Balanced P ms := by
  induction hP with
  | init => exact ⟨[], h₀.balanced⟩
  | move _ hok hm ih =>
    obtain ⟨ms, h⟩ := ih
    refine h.move hm (fun l w hl ha => ?_) fun _ o _ c _ r w _ _ hallowed hheld he => ?_
    · subst hl
      obtain ⟨x, hx, hsum, hinv⟩ := life_arrive hok h.inv ha
      exact ⟨x, hx, .of_eq (by rw [zero_add]; exact hsum), hinv⟩
    · obtain ⟨hfact, hsum, hinv⟩ := life_call h.inv hallowed hheld he
      exact ⟨hfact, .of_eq hsum, hinv⟩

end

/-! ## What the tokens say -/

/-- The operations of both collections. -/
def FileContext.operations (f : FileContext) : List OperationContext :=
  f.waitingRequests ++ f.outstandingRequests

/-- How often a `GET_NEXT_EVENT` was completed with success. -/
def World.successes (w : World) (id : ℕ) : ℕ :=
  w.completed.countP fun c =>
    c.request.code = .getNextEvent ∧ ntSuccess c.status ∧ c.request.id = id

section
variable {w : World} {P : Pool Event Call Call.Resp World} {ms : List (Multiset Token)}

theorem count_map_ne {α : Type} {f : α → Token} {t : Token} (h : ∀ a, f a ≠ t) (l : List α) :
    (l.map f).count t = 0 :=
  List.count_eq_zero.mpr (by simpa using fun a _ => h a)

theorem count_map_operation (l : List VhfOperationHandle) (handle : VhfOperationHandle) :
    (l.map Token.operation).count (.operation handle) = l.count handle :=
  List.count_map_of_injective l _ (fun _ _ h => Token.operation.inj h) handle

theorem count_map_object (l : List WdfObject) (object : WdfObject) :
    (l.map Token.object).count (.object object) = l.count object :=
  List.count_map_of_injective l _ (fun _ _ h => Token.object.inj h) object

theorem count_map_fresh (l : List WdfObject) (object : WdfObject) :
    (l.map Token.fresh).count (.fresh object) = l.count object :=
  List.count_map_of_injective l _ (fun _ _ h => Token.fresh.inj h) object

theorem count_moved {f : ℕ → Token} (hf : Function.Injective f) (moved : List (WdfObject × ℕ))
    (id : ℕ) : (moved.map fun m => f m.2).count (f id) = (moved.map (·.2)).count id := by
  rw [← List.count_map_of_injective (moved.map (·.2)) f hf, List.map_map]
  rfl

theorem count_completions {t : Token} (h : ∀ id, t ≠ .served id ∧ t ≠ .request id)
    (cs : List Completion) : (cs.map fun c => completionToken c.request c.status).count t = 0 := by
  refine count_map_ne (fun c hc => ?_) cs
  unfold completionToken at hc
  split at hc
  · exact (h _).1 hc.symm
  · exact (h _).2 hc.symm

theorem count_rundownToken {t : Token} (h : t ≠ .rundown) (b : Bool) : (rundownToken b).count t = 0 := by
  cases b <;> simp [rundownToken, h]

/-! A token of each kind is stored and granted so often. -/

theorem stored_operation (handle : VhfOperationHandle) :
    (storedTokens w).count (.operation handle) =
      (w.file.operations.filterMap (·.handle) ++ completedHandles w.vhf).count handle := by
  simp [storedTokens, contextTokens, sum_opTokens, FileContext.operations, count_map_ne,
    count_completions, count_map_operation, count_rundownToken, add_assoc]

theorem granted_operation (handle : VhfOperationHandle) :
    (grantedTokens w).count (.operation handle) = (w.issued.map (·.1)).count handle := by
  have hissued : w.issued.map (fun i => Token.operation i.1) =
      (w.issued.map (·.1)).map Token.operation := by rw [List.map_map]; rfl
  simp [grantedTokens, hissued, count_map_ne, count_map_operation, count_rundownToken,
    -List.map_map]

theorem stored_object (object : WdfObject) :
    (storedTokens w).count (.object object) =
      (w.file.operations.map (·.object) ++ w.deleted).count object := by
  simp [storedTokens, contextTokens, sum_opTokens, FileContext.operations, count_map_ne,
    count_completions, count_map_object, count_rundownToken, add_assoc, -List.map_map]

theorem granted_object (object : WdfObject) :
    (grantedTokens w).count (.object object) = w.objects.count object := by
  simp [grantedTokens, count_map_ne, count_map_object, count_rundownToken]

theorem stored_fresh (object : WdfObject) :
    (storedTokens w).count (.fresh object) = w.queued.count object := by
  simp [storedTokens, contextTokens, sum_opTokens, count_completions, count_map_fresh,
    count_rundownToken]

theorem granted_fresh (object : WdfObject) :
    (grantedTokens w).count (.fresh object) = w.objects.count object := by
  simp [grantedTokens, count_map_ne, count_map_fresh, count_rundownToken]

theorem stored_served (id : ℕ) : (storedTokens w).count (.served id) = w.successes id := by
  have hcompleted : (w.completed.map fun c => completionToken c.request c.status).count
      (.served id) = w.successes id := by
    rw [List.count, List.countP_map, World.successes]
    refine List.countP_congr fun c _ => ?_
    simp only [Function.comp, completionToken]
    split <;> simp_all
  simp [storedTokens, contextTokens, sum_opTokens, hcompleted, count_rundownToken]

theorem granted_served (id : ℕ) :
    (grantedTokens w).count (.served id) = (w.moved.map (·.2)).count id := by
  simp [grantedTokens, count_map_ne, count_rundownToken,
    count_moved (fun _ _ h => Token.served.inj h)]

theorem stored_request (id : ℕ) :
    (storedTokens w).count (.request id) = (w.parked.map fun r => Token.request r.id).count (.request id) +
      (w.completed.map fun c => completionToken c.request c.status).count (.request id) +
      (w.moved.map (·.2)).count id := by
  simp [storedTokens, contextTokens, sum_opTokens, count_rundownToken,
    count_moved (fun _ _ h => Token.request.inj h)]

theorem granted_request (id : ℕ) : (grantedTokens w).count (.request id) = w.arrived.count id := by
  simp [grantedTokens, count_map_ne, count_rundownToken,
    List.count_map_of_injective w.arrived _ (fun _ _ h => Token.request.inj h)]

theorem stored_rundown :
    (storedTokens w).count .rundown = if w.file.vhfHandle.isNone then 1 else 0 := by
  have hone (b : Bool) : (rundownToken b).count .rundown = if b then 1 else 0 := by
    cases b <;> simp [rundownToken]
  simp [storedTokens, contextTokens, sum_opTokens, count_completions, hone]

theorem granted_rundown : (grantedTokens w).count .rundown = if w.closing then 1 else 0 := by
  have hone (b : Bool) : (rundownToken b).count .rundown = if b then 1 else 0 := by
    cases b <;> simp [rundownToken]
  simp [grantedTokens, hone]

end

/-! ## At most once, and once in the end -/

/-- What holds of the operations and the requests at every moment. -/
structure Tracked (w : World) : Prop where
  /-- An operation is in one of the collections, and there once. -/
  once : (w.file.operations.map (·.object)).Nodup
  /-- No handle is completed twice, nor while its operation is in a collection. -/
  handles : (w.file.operations.filterMap (·.handle) ++ completedHandles w.vhf).Nodup
  issued : ∀ handle ∈ completedHandles w.vhf, handle ∈ w.issued.map (·.1)
  /-- Events are moved in the order they were queued, each of them once. -/
  order : w.moved.map (·.1) <+: w.queued
  queued : w.queued.Nodup
  waiting : w.file.vhfHandle.isSome →
    w.queued = w.moved.map (·.1) ++ w.file.waitingRequests.map (·.object)
  /-- No `GET_NEXT_EVENT` moves two events, and the ones that moved one succeed. -/
  served : (w.moved.map (·.2)).Nodup
  succeeded : ∀ c ∈ w.completed, c.request.code = .getNextEvent →
    (ntSuccess c.status ↔ c.request.id ∈ w.moved.map (·.2))

/-- What holds when every handler has ended. -/
structure Settled (w : World) : Prop where
  /-- The `GET_NEXT_EVENT` that moved an event was completed with success, once. -/
  served : ∀ id ∈ w.moved.map (·.2), w.successes id = 1
  /-- After the close every handle was completed, once. -/
  completed : w.closing → ∀ handle ∈ w.issued.map (·.1), (completedHandles w.vhf).count handle = 1

/-- `TryCompleteGetNextEvent` gives the first waiting operation to the request, which succeeds, or
it changes nothing. -/
def GivesHead (request : Request) (r : TryResult) (w w' : World) : Prop :=
  if r.completeRequest ∧ ntSuccess r.status then
    ∃ op rest, w.file.waitingRequests = op :: rest ∧
      w'.moved = w.moved ++ [(op.object, request.id)] ∧
      w'.file = { w.file with
        waitingRequests := rest
        outstandingRequests := w.file.outstandingRequests ++ [op] }
  else w' = w

section
variable {w w' : World} {o : Outcome} {P : Pool Event Call Call.Resp World}
  {ms : List (Multiset Token)}

theorem givesHead {request : Request} {r : TryResult}
    (he : exec (.tryCompleteSection request) o w = some (r, w')) : GivesHead request r w w' := by
  obtain ⟨t, -, rfl, rfl⟩ := exec_tryComplete.mp he
  rcases tryCompleteSection_cases t request.output w.file with
    ⟨hr, hfile⟩ | ⟨hr, op, rest, hwait, hfile⟩
  · rw [GivesHead, if_neg hr, hfile]
    simp [World.afterTry, added]
  · rw [GivesHead, if_pos hr, hfile]
    exact ⟨op, rest, hwait, by simp [World.afterTry, added], rfl⟩

theorem nodup_of_count {α : Type} [DecidableEq α] {l g : List α} (hg : g.Nodup)
    (h : ∀ a, l.count a ≤ g.count a) : l.Nodup :=
  List.nodup_iff_count_le_one.mpr fun a => (h a).trans (List.nodup_iff_count_le_one.mp hg a)

theorem Balanced.tracked (h : lifeLedger.Balanced P ms) : Tracked P.world := by
  have hinv : LifeInv P.world := h.inv
  have hle (t) : (storedTokens P.world).count t ≤ (grantedTokens P.world).count t :=
    Multiset.count_le_of_le t h.stored_le
  have hhandle (handle) := hle (.operation handle)
  simp only [stored_operation, granted_operation] at hhandle
  have hobject (object) := hle (.object object)
  simp only [stored_object, granted_object] at hobject
  have hfresh (object) := hle (.fresh object)
  simp only [stored_fresh, granted_fresh] at hfresh
  have hrequest (id) := hle (.request id)
  simp only [stored_request, granted_request] at hrequest
  have honce := List.nodup_iff_count_le_one.mp hinv.arrived
  refine ⟨(nodup_of_count hinv.objects hobject).of_append_left, nodup_of_count hinv.issued hhandle,
    fun handle hmem => ?_, hinv.order.moved, nodup_of_count hinv.objects hfresh, hinv.order.live,
    nodup_of_count hinv.arrived fun id => (Nat.le_add_left ..).trans (hrequest id),
    fun c hc hcode => ⟨fun hs => ?_, fun hmoved => ?_⟩⟩
  · have hpos := List.count_pos_iff.mpr hmem
    have := hhandle handle
    rw [List.count_append] at this
    exact List.count_pos_iff.mp (by omega)
  · -- the request holds the token of an event
    have hserved := hle (.served c.request.id)
    rw [stored_served, granted_served] at hserved
    have hpos : 0 < P.world.successes c.request.id :=
      List.countP_pos_iff.mpr ⟨c, hc, by simp [hcode, hs]⟩
    exact List.count_pos_iff.mp (by omega)
  · -- a failure would leave the request's own token a second time
    by_contra hs
    have hmoved := List.count_pos_iff.mpr hmoved
    have htoken : completionToken c.request c.status = .request c.request.id := by
      simp [completionToken, hs]
    have hcompleted : 0 < (P.world.completed.map fun c => completionToken c.request c.status).count
        (.request c.request.id) :=
      List.count_pos_iff.mpr (List.mem_map.mpr ⟨c, hc, htoken⟩)
    have := hrequest c.request.id
    have := honce c.request.id
    omega

theorem Balanced.settled (h : lifeLedger.Balanced P ms) (hq : P.quiet = true) :
    Settled P.world := by
  have htracked := Balanced.tracked h
  have hinv : LifeInv P.world := h.inv
  refine ⟨fun id hid => ?_, fun hclosing handle hissued => ?_⟩
  · have hserved := h.quiet (t := .served id) hq (by simp [lifeLedger])
    simp only [lifeLedger, stored_served, granted_served] at hserved
    rw [hserved]
    exact List.count_eq_one_of_mem htracked.served hid
  · have hrundown := h.quiet (t := .rundown) hq (by simp [lifeLedger])
    simp only [lifeLedger, stored_rundown, granted_rundown, hclosing, if_true] at hrundown
    have hgone : P.world.file.vhfHandle = none := by
      by_contra hne
      simp [hne] at hrundown
    have hempty := hinv.order.gone hgone
    have hhandle := h.quiet (t := .operation handle) hq (by simp [lifeLedger])
    simp only [lifeLedger, stored_operation, granted_operation] at hhandle
    simp only [FileContext.operations, hempty.1, hempty.2, List.append_nil, List.filterMap_nil,
      List.nil_append] at hhandle
    rw [hhandle]
    exact List.count_eq_one_of_mem hinv.issued hissued

/-- However callbacks, event requests and the close interleave, an operation is completed at most
once, and exactly once when all of them have ended. -/
theorem operation_lifecycle {w₀ : World} (h₀ : Created w₀)
    (hP : Reach driver (fun P m => LifeEvents P m) ⟨[], w₀⟩ P) :
    Tracked P.world ∧
      (∀ request o r w', driver.exec (.tryCompleteSection request) o P.world = some (r, w') →
        GivesHead request r P.world w') ∧
      (P.quiet = true → Settled P.world) := by
  obtain ⟨ms, h⟩ := life_balanced h₀ hP
  exact ⟨Balanced.tracked h, fun _ _ _ _ he => givesHead he, Balanced.settled h⟩

theorem createGun_created : ∃ w, driver.play createGun World.opened = some w ∧ Created w := by
  have h : (driver.play createGun World.opened).map (fun w => decide (Created w)) = some true := by
    decide +kernel
  obtain ⟨w, hw, hc⟩ := Option.map_eq_some_iff.mp h
  exact ⟨w, hw, of_decide_eq_true hc⟩

/-- VHF asks for an input report, a client takes the event and closes the handle. -/
def unansweredRead : List (Move Event Outcome) :=
  [.arrive (.asyncOperation 7 ⟨⟨List.replicate 5 0, 0⟩, 5, 0⟩ .readReport),
    .arrive (.ioctl ⟨5, .getNextEvent, [], List.replicate 14 0⟩),
    .step 0 (.made Status.success 1), .step 0 .ok, .step 0 .ok, .step 1 .ok, .step 0 fine,
    .step 1 (.tried TryOutcome.fine), .step 0 (.status Status.notFound), .step 1 .ok,
    .arrive .close, .step 2 .ok, .step 2 .ok]

/-- The close completes the operation that the client took and never answered. -/
theorem operation_lifecycle_unanswered :
    ∃ P : Pool Event Call Call.Resp World, P.world.moved = [(1, 5)] ∧
      Tracked P.world ∧ (completedHandles P.world.vhf).count 7 = 1 := by
  obtain ⟨w₀, hw₀, h₀⟩ := createGun_created
  have hplay : ((driver.play createGun World.opened).bind fun w₀ =>
      (Pool.replay driver LifeEvents unansweredRead ⟨[], w₀⟩).map fun P =>
        (P.quiet, P.world.closing, P.world.issued.map (·.1), P.world.moved)) =
      some (true, true, [7], [(1, 5)]) := by decide +kernel
  rw [hw₀, Option.bind_some] at hplay
  obtain ⟨P, hP, hfacts⟩ := Option.map_eq_some_iff.mp hplay
  simp only [Prod.mk.injEq] at hfacts
  obtain ⟨hquiet, hclosing, hissued, hmoved⟩ := hfacts
  obtain ⟨htracked, -, hsettled⟩ := operation_lifecycle h₀ (Reach.replay .init hP)
  exact ⟨P, hmoved, htracked, (hsettled hquiet).completed hclosing 7 (by simp [hissued])⟩

end

end VirtualGun.Driver
