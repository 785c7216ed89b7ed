import VirtualGun.Driver.Operations
import VirtualGun.Driver.Release
import VirtualGun.Program.Ledger

/-!
# The rights to an operation

A client answers an operation with one of two IOCTLs and any `RequestId`. What the driver may then
do with the operation is kept in tokens: complete its handle, and complete it with success.
-/

open VirtualGun.Program

namespace VirtualGun.Driver

/-! ## What a completion promises -/

/-- The report sizes of the lightgun's descriptor. -/
def gunSizes : UInt8 → HidReportSize :=
  (parseReportDescriptor vgunReportDescriptor vgunReportDescriptor.length.toUInt16).reportSizes

/-- The packet of an operation, clamped to the size of its report. -/
def gunPacket (packet : HidXferPacket) (type : EventType) : HidXferPacket :=
  clampPacket packet (reportSizeOf (gunSizes packet.reportId) type)

/-- The call writes byte `i` of the operation's report buffer, with client data or a zero. -/
def VhfCall.Fills (handle : VhfOperationHandle) (i : ℕ) : VhfCall → Prop
  | .copyMemory op source len => op.handle = some handle ∧ i < len ∧ source.covers len
  | .zeroMemory op offset len => op.handle = some handle ∧ offset ≤ i ∧ i < offset + len
  | _ => False

/-- The first `len` bytes of the operation's report buffer are written. -/
def Filled (calls : List VhfCall) (handle : VhfOperationHandle) (len : ℕ) : Prop :=
  ∀ i < len, ∃ call ∈ calls, call.Fills handle i

/-- If the client had a buffer to fill, it is filled. -/
def BufferFilled (issued : List (VhfOperationHandle × HidXferPacket × EventType))
    (calls : List VhfCall) (handle : VhfOperationHandle) : Prop :=
  ∀ packet type, (handle, packet, type) ∈ issued → type.isRead →
    Filled calls handle (gunPacket packet type).reportBufferLen.toNat

/-- A completion made after `calls`: of a handle VHF issued, for the first time, and with success
only if its buffer is filled. -/
def GoodCompletion (issued : List (VhfOperationHandle × HidXferPacket × EventType))
    (calls : List VhfCall) (handle : Option VhfOperationHandle) (status : NTSTATUS) : Prop :=
  ∃ h, handle = some h ∧ h ∈ issued.map (·.1) ∧ h ∉ completedHandles calls ∧
    (ntSuccess status → BufferFilled issued calls h)

def GoodCompletions (w : World) : Prop :=
  ∀ calls handle status later, w.vhf = calls ++ .complete handle status :: later →
    GoodCompletion w.issued calls handle status

/-! ## What a client may answer -/

/-- `COMPLETE_WRITE_EVENT` is for operations with a handle, and with success for those that have no
buffer to fill. `COMPLETE_READ_EVENT` brings the bytes it fills a buffer with. -/
def suits : Event → OperationContext → Bool
  | .ioctl request, op =>
    let writeComplete := WriteEventComplete.decode request.input
    let readComplete := ReadEventComplete.decode request.input
    match request.code with
    | .completeWriteEvent =>
      op.requestId != 0 && (!ntSuccess writeComplete.status || !op.type.isRead ||
        op.hidTransferPacket.reportBufferLen == 0)
    | .completeReadEvent =>
      op.requestId == 0 || !ntSuccess readComplete.status || !op.type.isRead ||
        readEventCompleteDataOffset.toNat +
          (min readComplete.dataLength op.hidTransferPacket.reportBufferLen).toNat ≤
            request.input.length
    | _ => true
  | _, _ => true

/-- Anything may arrive and happen, but that an IOCTL takes an operation that does not suit it. -/
def Suited (P : Pool Event Call Call.Resp World) : Move Event Outcome → Bool
  | .arrive _ => true
  | .step i _ =>
    match P.threads[i]? with
    | some ⟨l, .call (.takeOutstandingRequestById id) _⟩ =>
      (P.world.file.outstandingRequests.find? (·.requestId == id)).all (suits l)
    | _ => true

/-! ## Tokens -/

inductive Right where
  /-- The handle may be completed. -/
  | complete (handle : VhfOperationHandle)
  /-- The handle may be completed with success. -/
  | succeed (handle : VhfOperationHandle)
  /-- The handle was issued with this type, and this packet when clamped. -/
  | carries (handle : VhfOperationHandle) (packet : HidXferPacket) (type : EventType)
  /-- The first `len` bytes of the handle's buffer are written. -/
  | filled (handle : VhfOperationHandle) (len : ℕ)
  deriving DecidableEq

/-- The rights to an operation. To succeed is one of them when there is no buffer to fill. -/
def rights (handle : VhfOperationHandle) (packet : HidXferPacket) (type : EventType) :
    Multiset Right :=
  {.complete handle} + {.carries handle packet type} +
    if type.isRead && packet.reportBufferLen != 0 then 0 else {.succeed handle}

def opRights (op : OperationContext) : Multiset Right :=
  (op.handle.map fun handle => rights handle op.hidTransferPacket op.type).getD 0

def carriesOf (op : OperationContext) : Multiset Right :=
  (op.handle.map fun handle => {Right.carries handle op.hidTransferPacket op.type}).getD 0

def completeRights (handle : Option VhfOperationHandle) (status : NTSTATUS) : Multiset Right :=
  (handle.map fun h => {Right.complete h} + if ntSuccess status then {.succeed h} else 0).getD 0

/-- What a copy of `len` bytes to the start of a buffer gives the right to. -/
def copyRights (op : OperationContext) (len : ℕ) : Multiset Right :=
  (op.handle.map fun h =>
    if len = op.hidTransferPacket.reportBufferLen.toNat then {Right.succeed h}
    else {.filled h len}).getD 0

def zeroNeeds (op : OperationContext) (offset : ℕ) : Multiset Right :=
  (op.handle.map fun h => {Right.filled h offset}).getD 0

def zeroRights (op : OperationContext) : Multiset Right :=
  (op.handle.map fun h => {Right.succeed h}).getD 0

/-- The rights a call to VHF uses up. -/
def VhfCall.uses : VhfCall → Multiset Right
  | .complete handle status => completeRights handle status
  | .zeroMemory op offset _ => zeroNeeds op offset
  | _ => 0

/-- The rights a call to VHF makes. -/
def VhfCall.makes : VhfCall → Multiset Right
  | .copyMemory op _ len => copyRights op len
  | .zeroMemory op _ _ => zeroRights op
  | _ => 0

def storedRights (w : World) : Multiset Right :=
  (w.file.waitingRequests.map opRights).sum + (w.file.outstandingRequests.map opRights).sum +
    (w.vhf.map VhfCall.uses).sum

def grantedRights (w : World) : Multiset Right :=
  (w.issued.map fun i => rights i.1 (gunPacket i.2.1 i.2.2) i.2.2).sum +
    (w.vhf.map VhfCall.makes).sum

/-- The sizes are those of the lightgun, or none is set yet. -/
def SizesOk (sizes : UInt8 → HidReportSize) : Prop :=
  sizes = gunSizes ∨ sizes = fun _ => HidReportSize.zero

/-- The operation is one VHF issued. -/
def IssuedAs (issued : List (VhfOperationHandle × HidXferPacket × EventType))
    (op : OperationContext) : Prop :=
  ∃ handle packet, op.handle = some handle ∧ (handle, packet, op.type) ∈ issued ∧
    op.hidTransferPacket = gunPacket packet op.type

/-- What the tokens do not say of a call made after `calls`. -/
def VhfCall.Allowed (issued : List (VhfOperationHandle × HidXferPacket × EventType))
    (calls : List VhfCall) : VhfCall → Prop
  | .complete handle status =>
    ∃ h, handle = some h ∧ (ntSuccess status → BufferFilled issued calls h)
  | .copyMemory op source len =>
    IssuedAs issued op ∧ (op.type.isRead → source.covers len)
  | .zeroMemory op offset len =>
    IssuedAs issued op ∧ offset + len = op.hidTransferPacket.reportBufferLen.toNat
  | _ => True

structure RightInv (w : World) : Prop where
  sizes : SizesOk w.file.reportSizes
  waiting : ∀ op ∈ w.file.waitingRequests, RealOrPseudo op
  outstanding : ∀ op ∈ w.file.outstandingRequests, RealOrPseudo op
  issued : (w.issued.map (·.1)).Nodup
  history : ∀ calls call later, w.vhf = calls ++ call :: later → call.Allowed w.issued calls

/-- The change keeps the collections, and no other sizes than the lightgun's come in. -/
def KeepsOperations (f : FileContext → FileContext) : Prop :=
  ∀ g, (f g).waitingRequests = g.waitingRequests ∧
    (f g).outstandingRequests = g.outstandingRequests ∧
    (SizesOk g.reportSizes → SizesOk (f g).reportSizes)

def rightNeeds : Call → Multiset Right
  | .queueSection op => opRights op
  | .vhfAsyncOperationComplete handle status => completeRights handle status
  | .rtlCopyMemory op _ _ => carriesOf op
  | .rtlZeroMemory op offset _ => carriesOf op + zeroNeeds op offset
  | _ => 0

def rightReturns : (c : Call) → c.Resp → Multiset Right
  | .queueSection op, r => if r = .queued then 0 else opRights op
  | .takeOutstandingRequestById _, r => (r.map opRights).getD 0
  | .rtlCopyMemory op _ len, _ => carriesOf op + copyRights op len
  | .rtlZeroMemory op _ _, _ => carriesOf op + zeroRights op
  | _, _ => 0

def rightFact (l : Event) : (c : Call) → c.Resp → Prop
  | .readContext, f => SizesOk f.reportSizes
  | .queueSection _, r => ∀ s, r = .failed s → ntSuccess s = false
  | .takeOutstandingRequestById id, r =>
    ∀ op ∈ r, op.requestId = id ∧ RealOrPseudo op ∧ suits l op
  | _, _ => True

/-- Rights may be lost: what the ledger keeps is that none is used twice. -/
def rightLedger : Ledger Event Call Call.Resp World Right where
  allowed
    | .modifyContext f => KeepsOperations f
    | .queueSection op => RealOrPseudo op
    | .vhfAsyncOperationComplete handle _ => handle.isSome
    | .rtlCopyMemory op source len => op.handle.isSome ∧ (op.type.isRead → source.covers len)
    | .rtlZeroMemory op offset len =>
      op.handle.isSome ∧ offset + len = op.hidTransferPacket.reportBufferLen.toNat
    | _ => True
  needs := rightNeeds
  returns := rightReturns
  fact := rightFact
  stored := storedRights
  granted := grantedRights
  spare _ := True
  inv := RightInv

/-! ## What the tokens say -/

theorem mem_sum {T : Type} {ms : List (Multiset T)} {t : T} : t ∈ ms.sum ↔ ∃ m ∈ ms, t ∈ m := by
  induction ms with
  | nil => simp
  | cons m ms ih => simp [ih]

theorem forall_split_append {α : Type} {p : List α → α → Prop} {l l' : List α}
    (h : ∀ pre a post, l = pre ++ a :: post → p pre a)
    (h' : ∀ pre a post, l' = pre ++ a :: post → p (l ++ pre) a) :
    ∀ pre a post, l ++ l' = pre ++ a :: post → p pre a := by
  intro pre a post heq
  rcases List.append_eq_append_iff.mp heq with ⟨as, rfl, hl'⟩ | ⟨bs, rfl, hbs⟩
  · exact h' as a post hl'
  · cases bs with
    | nil =>
      have := h' [] a post (by simpa using hbs.symm)
      simpa using this
    | cons b bs =>
      simp only [List.cons_append, List.cons.injEq] at hbs
      obtain ⟨rfl, -⟩ := hbs
      exact h pre a bs rfl

section
variable {w : World} {handle : VhfOperationHandle} {op : OperationContext} {t : Right}

theorem mem_rights {packet : HidXferPacket} {type : EventType} :
    t ∈ rights handle packet type ↔ t = .complete handle ∨ t = .carries handle packet type ∨
      (type.isRead && packet.reportBufferLen != 0) = false ∧ t = .succeed handle := by
  rw [rights, Multiset.mem_add, Multiset.mem_add, Multiset.mem_singleton, Multiset.mem_singleton]
  cases type.isRead && packet.reportBufferLen != 0 <;> simp [or_assoc]

theorem mem_carriesOf :
    t ∈ carriesOf op ↔ ∃ h, op.handle = some h ∧ t = .carries h op.hidTransferPacket op.type := by
  cases hh : op.handle <;> simp [carriesOf, hh]

theorem mem_copyRights {len : ℕ} : t ∈ copyRights op len ↔ ∃ h, op.handle = some h ∧
    (len = op.hidTransferPacket.reportBufferLen.toNat ∧ t = .succeed h ∨
      len ≠ op.hidTransferPacket.reportBufferLen.toNat ∧ t = .filled h len) := by
  cases hh : op.handle with
  | none => simp [copyRights, hh]
  | some h =>
    simp only [copyRights, hh, Option.map_some, Option.getD_some]
    split <;> simp_all

theorem mem_zeroNeeds {offset : ℕ} :
    t ∈ zeroNeeds op offset ↔ ∃ h, op.handle = some h ∧ t = .filled h offset := by
  cases hh : op.handle <;> simp [zeroNeeds, hh]

theorem mem_zeroRights : t ∈ zeroRights op ↔ ∃ h, op.handle = some h ∧ t = .succeed h := by
  cases hh : op.handle <;> simp [zeroRights, hh]

theorem mem_completeRights {completed : Option VhfOperationHandle} {status : NTSTATUS} :
    t ∈ completeRights completed status ↔ ∃ h, completed = some h ∧
      (t = .complete h ∨ ntSuccess status ∧ t = .succeed h) := by
  cases completed with
  | none => simp [completeRights]
  | some h =>
    simp only [completeRights, Option.map_some, Option.getD_some, Multiset.mem_add,
      Multiset.mem_singleton]
    cases ntSuccess status <;> simp

theorem mem_granted : t ∈ grantedRights w ↔
    (∃ i ∈ w.issued, t ∈ rights i.1 (gunPacket i.2.1 i.2.2) i.2.2) ∨
      ∃ call ∈ w.vhf, t ∈ call.makes := by
  simp [grantedRights, mem_sum]

theorem count_granted_complete :
    (grantedRights w).count (.complete handle) = (w.issued.map (·.1)).count handle := by
  have hissued (l : List (VhfOperationHandle × HidXferPacket × EventType)) :
      (l.map fun i => rights i.1 (gunPacket i.2.1 i.2.2) i.2.2).sum.count (.complete handle) =
        (l.map (·.1)).count handle := by
    induction l with
    | nil => rfl
    | cons i l ih =>
      have hone : (rights i.1 (gunPacket i.2.1 i.2.2) i.2.2).count (.complete handle) =
          if i.1 = handle then 1 else 0 := by
        simp only [rights, Multiset.count_add, Multiset.count_singleton, reduceCtorEq, if_false,
          Right.complete.injEq]
        cases i.2.2.isRead && (gunPacket i.2.1 i.2.2).reportBufferLen != 0 <;> simp [eq_comm]
      rw [List.map_cons, List.sum_cons, Multiset.count_add, ih, hone, List.map_cons,
        List.count_cons, add_comm]
      simp
  have hmade : ((w.vhf.map VhfCall.makes).sum).count (.complete handle) = 0 := by
    rw [Multiset.count_eq_zero, mem_sum]
    rintro ⟨m, hm, hmem⟩
    obtain ⟨call, -, rfl⟩ := List.mem_map.mp hm
    cases call <;> simp [VhfCall.makes, mem_copyRights, mem_zeroRights] at hmem
  rw [grantedRights, Multiset.count_add, hissued, hmade, add_zero]

/-- No handle is completed that VHF did not issue, and none twice. -/
theorem completed_once (hle : storedRights w ≤ grantedRights w) (hw : (w.issued.map (·.1)).Nodup) :
    (completedHandles w.vhf).Nodup ∧ ∀ h ∈ completedHandles w.vhf, h ∈ w.issued.map (·.1) := by
  have huses (calls : List VhfCall) (h : VhfOperationHandle) :
      (completedHandles calls).count h ≤ ((calls.map VhfCall.uses).sum).count (.complete h) := by
    induction calls with
    | nil => simp [completedHandles]
    | cons call calls ih =>
      rw [List.map_cons, List.sum_cons, Multiset.count_add]
      cases call with
      | complete completed status =>
        cases completed with
        | none => exact Nat.le_add_left_of_le ih
        | some k =>
          have hhandles : completedHandles (.complete (some k) status :: calls) =
              k :: completedHandles calls := rfl
          rw [hhandles, List.count_cons]
          have hone : (if k == h then 1 else 0) ≤
              (VhfCall.complete (some k) status).uses.count (.complete h) := by
            by_cases hk : k = h
            · simp [hk, VhfCall.uses, completeRights]
            · simp [hk]
          omega
      | _ => exact Nat.le_add_left_of_le ih
  have hcount (h) : (completedHandles w.vhf).count h ≤ (w.issued.map (·.1)).count h := by
    rw [← count_granted_complete]
    refine (huses w.vhf h).trans (le_trans ?_ (Multiset.count_le_of_le _ hle))
    rw [storedRights, Multiset.count_add]
    exact Nat.le_add_left _ _
  refine ⟨List.nodup_iff_count_le_one.mpr fun h => (hcount h).trans
    (List.nodup_iff_count_le_one.mp hw h), fun h hmem => ?_⟩
  exact List.count_pos_iff.mp ((List.count_pos_iff.mpr hmem).trans_le (hcount h))

theorem issued_unique (hw : (w.issued.map (·.1)).Nodup) {packet packet' : HidXferPacket}
    {type type' : EventType} (h : (handle, packet, type) ∈ w.issued)
    (h' : (handle, packet', type') ∈ w.issued) : packet = packet' ∧ type = type' := by
  simpa using List.inj_on_of_nodup_map hw h h' rfl

theorem copied_fills (hw : RightInv w) {packet : HidXferPacket} {type : EventType}
    (hissued : (handle, packet, type) ∈ w.issued) (hread : type.isRead = true)
    {op : OperationContext} {source : Ptr} {len : ℕ} (hcall : .copyMemory op source len ∈ w.vhf)
    (hh : op.handle = some handle) : ∀ i < len, ∃ call ∈ w.vhf, call.Fills handle i := by
  obtain ⟨calls, later, hsplit⟩ := List.append_of_mem hcall
  obtain ⟨⟨h, packet', hh', hissued', -⟩, hcovers⟩ := hw.history calls _ later hsplit
  obtain rfl : handle = h := by simpa [hh] using hh'
  have htype := (issued_unique hw.issued hissued hissued').2
  exact fun i hi => ⟨_, hcall, hh, hi, hcovers (htype ▸ hread)⟩

theorem issuedAs_len (hw : RightInv w) {packet : HidXferPacket} {type : EventType}
    (hissued : (handle, packet, type) ∈ w.issued) {op : OperationContext}
    (hh : op.handle = some handle) (has : IssuedAs w.issued op) :
    op.hidTransferPacket.reportBufferLen = (gunPacket packet type).reportBufferLen := by
  obtain ⟨h, packet', hh', hissued', hpacket⟩ := has
  obtain rfl : handle = h := by simpa [hh] using hh'
  obtain ⟨rfl, rfl⟩ := issued_unique hw.issued hissued hissued'
  rw [hpacket]

theorem filled_of_succeed (hw : RightInv w) (hle : storedRights w ≤ grantedRights w)
    (hmem : Right.succeed handle ∈ grantedRights w) : BufferFilled w.issued w.vhf handle := by
  intro packet type hissued hread
  rcases mem_granted.mp hmem with ⟨i, hi, hright⟩ | ⟨call, hcall, hright⟩
  · -- nothing had to be filled
    rcases mem_rights.mp hright with h | h | ⟨hnone, h⟩
    · cases h
    · cases h
    · obtain rfl : handle = i.1 := Right.succeed.inj h
      obtain ⟨rfl, rfl⟩ := issued_unique hw.issued hissued (show (i.1, i.2.1, i.2.2) ∈ _ from hi)
      have hzero : (gunPacket i.2.1 i.2.2).reportBufferLen = 0 := by simpa [hread] using hnone
      intro j hj
      simp [hzero] at hj
  · obtain ⟨calls, later, hsplit⟩ := List.append_of_mem hcall
    have hallowed := hw.history calls call later hsplit
    cases call with
    | copyMemory op source len =>
      obtain ⟨h, hh, ⟨hfull, hsucceed⟩ | ⟨-, hfilled⟩⟩ := mem_copyRights.mp hright
      · obtain rfl : handle = h := Right.succeed.inj hsucceed
        have hcopied := copied_fills hw hissued hread hcall hh
        rwa [hfull, issuedAs_len hw hissued hh hallowed.1] at hcopied
      · cases hfilled
    | zeroMemory op offset len =>
      obtain ⟨h, hh, hsucceed⟩ := mem_zeroRights.mp hright
      obtain rfl : handle = h := Right.succeed.inj hsucceed
      intro i hi
      by_cases hoff : offset ≤ i
      · refine ⟨_, hcall, hh, hoff, ?_⟩
        rw [hallowed.2, issuedAs_len hw hissued hh hallowed.1]
        exact hi
      · -- the bytes in front were copied before
        have hneeds : Right.filled handle offset ∈ grantedRights w := by
          refine Multiset.mem_of_le hle ?_
          simp only [storedRights, Multiset.mem_add, mem_sum]
          exact .inr ⟨_, List.mem_map.mpr ⟨_, hcall, rfl⟩, mem_zeroNeeds.mpr ⟨handle, hh, rfl⟩⟩
        rcases mem_granted.mp hneeds with ⟨i, -, hright⟩ | ⟨call, hcall', hright⟩
        · rcases mem_rights.mp hright with h | h | ⟨-, h⟩ <;> cases h
        · cases call with
          | copyMemory op' source len' =>
            obtain ⟨h, hh', ⟨-, hs⟩ | ⟨-, hs⟩⟩ := mem_copyRights.mp hright
            · cases hs
            · cases hs
              exact copied_fills hw hissued hread hcall' hh' i (by omega)
          | zeroMemory op' _ _ =>
            obtain ⟨_, _, hs⟩ := mem_zeroRights.mp hright
            cases hs
          | _ => simp [VhfCall.makes] at hright
    | _ => simp [VhfCall.makes] at hright

end

/-! ## What each call exchanges -/

section
variable {l : Event} {c : Call} {o : Outcome} {r : c.Resp} {w w' : World} {op : OperationContext}

-- Their equations are made here, before all lemmas below ask for them at once.
attribute [local simp] rightNeeds rightReturns

theorem RightInv.call {v : VhfCall} (hw : RightInv w) (hv : v.Allowed w.issued w.vhf) :
    RightInv (w.call v) := by
  refine ⟨hw.sizes, hw.waiting, hw.outstanding, hw.issued,
    forall_split_append hw.history fun pre a post h => ?_⟩
  rcases List.singleton_eq_append_iff.mp h with ⟨rfl, heq⟩ | ⟨-, heq⟩
  · cases heq
    simpa [World.call] using hv
  · cases heq

theorem call_exchange (v : VhfCall) : rightLedger.Exchange v.uses v.makes w (w.call v) := by
  refine .of_eq ?_
  simp only [rightLedger, storedRights, grantedRights, World.call, List.map_append, List.sum_append,
    List.map_cons, List.map_nil, List.sum_cons, List.sum_nil]
  abel

/-- The rundown uses the right to complete, and none to succeed. -/
theorem rundown_rights {ops : List OperationContext} (h : ∀ op ∈ ops, RealOrPseudo op) :
    ∃ z, (ops.map opRights).sum = ((ops.filterMap rundownCall).map VhfCall.uses).sum + z := by
  induction ops with
  | nil => exact ⟨0, rfl⟩
  | cons op ops ih =>
    simp only [List.mem_cons, forall_eq_or_imp] at h
    obtain ⟨hop, hops⟩ := h
    obtain ⟨z, hz⟩ := ih hops
    rw [List.map_cons, List.sum_cons, hz]
    cases hh : op.handle with
    | none =>
      have hid : op.requestId = 0 := hop.mpr hh
      exact ⟨z, by simp [opRights, hh, rundownCall, hid]⟩
    | some handle =>
      have hid : op.requestId ≠ 0 := fun hid => by simp [hop.mp hid] at hh
      have hcall : (op :: ops).filterMap rundownCall =
          .complete (some handle) Status.cancelled :: ops.filterMap rundownCall := by
        simp [rundownCall, hid, hh]
      have huses : VhfCall.uses (.complete (some handle) Status.cancelled) =
          {Right.complete handle} := by
        have hfailure : ntSuccess Status.cancelled = false := by decide
        simp [VhfCall.uses, completeRights, hfailure]
      refine ⟨{.carries handle op.hidTransferPacket op.type} +
        (if op.type.isRead && op.hidTransferPacket.reportBufferLen != 0 then 0
          else {.succeed handle}) + z, ?_⟩
      rw [hcall, List.map_cons, List.sum_cons, huses]
      simp only [opRights, hh, Option.map_some, Option.getD_some, rights]
      abel

theorem rundown_allowed {ops : List OperationContext} (h : ∀ op ∈ ops, RealOrPseudo op)
    {calls : List VhfCall} {issued : List (VhfOperationHandle × HidXferPacket × EventType)}
    {call : VhfCall} (hcall : call ∈ ops.filterMap rundownCall) : call.Allowed issued calls := by
  obtain ⟨op, hop, hrun⟩ := List.mem_filterMap.mp hcall
  simp only [rundownCall, Option.ite_none_right_eq_some, Option.some.injEq, bne_iff_ne] at hrun
  obtain ⟨hid, rfl⟩ := hrun
  cases hh : op.handle with
  | none => exact absurd ((h op hop).mpr hh) hid
  | some handle => exact ⟨handle, rfl, fun hs => absurd hs (by decide)⟩

/-- The right a thread holds to an operation says how VHF issued it. -/
theorem issuedAs_of_carries (hh : op.handle.isSome) (hcarries : carriesOf op ≤ grantedRights w) :
    IssuedAs w.issued op := by
  obtain ⟨h, hh⟩ := Option.isSome_iff_exists.mp hh
  have hmem : Right.carries h op.hidTransferPacket op.type ∈ grantedRights w :=
    Multiset.mem_of_le hcarries (mem_carriesOf.mpr ⟨h, hh, rfl⟩)
  rcases mem_granted.mp hmem with ⟨i, hi, hright⟩ | ⟨call, -, hright⟩
  · rcases mem_rights.mp hright with h' | h' | ⟨-, h'⟩
    · cases h'
    · obtain ⟨rfl, hpacket, htype⟩ := Right.carries.inj h'
      exact ⟨i.1, i.2.1, hh, htype ▸ hi, by rw [hpacket, htype]⟩
    · cases h'
  · cases call <;> simp [VhfCall.makes, mem_copyRights, mem_zeroRights] at hright

/-- What a call has to show: its response is one the ledger knows, no right is used twice, and the
invariant survives. -/
def Rightful (l : Event) (c : Call) (r : c.Resp) (w w' : World) : Prop :=
  rightFact l c r ∧ rightLedger.Exchange (rightNeeds c) (rightReturns c r) w w' ∧ RightInv w'

theorem rightful_inert (hw : RightInv w)
    (hfile : w'.file.waitingRequests = w.file.waitingRequests ∧
      w'.file.outstandingRequests = w.file.outstandingRequests)
    (hsizes : SizesOk w'.file.reportSizes) (hvhf : w'.vhf = w.vhf) (hissued : w'.issued = w.issued) :
    rightLedger.Exchange 0 0 w w' ∧ RightInv w' := by
  obtain ⟨hwait, hout⟩ := hfile
  refine ⟨.of_eq ?_, hsizes, hwait ▸ hw.waiting, hout ▸ hw.outstanding, hissued ▸ hw.issued, ?_⟩
  · simp only [rightLedger, storedRights, grantedRights, hwait, hout, hvhf, hissued]
  · rw [hvhf, hissued]
    exact hw.history

theorem rightful_call {v : VhfCall} (hw : RightInv w) (huses : v.uses = 0) (hmakes : v.makes = 0)
    (hv : v.Allowed w.issued w.vhf) :
    rightLedger.Exchange 0 0 w (w.call v) ∧ RightInv (w.call v) := by
  have h := call_exchange (w := w) v
  rw [huses, hmakes] at h
  exact ⟨h, hw.call hv⟩

theorem rightful_create {r : NTSTATUS} (hw : RightInv w)
    (he : exec .vhfCreate o w = some (r, w')) : Rightful l .vhfCreate r w w' := by
  obtain ⟨handle, -, rfl⟩ := exec_create.mp he
  have h := rightful_call (v := .create w.file.vhfConfig w.file.vhfHandle.isSome r) hw rfl rfl trivial
  rw [World.created]
  split
  · exact ⟨trivial, h.1, h.2.sizes, h.2.waiting, h.2.outstanding, h.2.issued, h.2.history⟩
  · exact ⟨trivial, h⟩

theorem rightful_queue {r : QueueResult} (hw : RightInv w) (hop : RealOrPseudo op)
    (he : exec (.queueSection op) o w = some (r, w')) : Rightful l (.queueSection op) r w w' := by
  obtain ⟨add, -, rfl, rfl⟩ := exec_queueSection.mp he
  have hadd (s) (hs : (queueSection op add w.file).1 = .failed s) : ntSuccess s = false := by
    unfold queueSection at hs
    grind
  rcases queueSection_cases op add w.file with ⟨hr, hfile⟩ | ⟨hr, -, hfile⟩
  · have hsame : w.afterQueue w.file = w := by simp [World.afterQueue, added]
    rw [hfile, hsame]
    exact ⟨hadd, .of_eq (by simp [hr]), hw⟩
  · rw [hfile]
    refine ⟨hadd, .of_eq ?_, hw.sizes, fun q hq => ?_, hw.outstanding, hw.issued, hw.history⟩
    · simp only [rightLedger, rightNeeds, rightReturns, hr, if_true, storedRights, grantedRights,
        World.afterQueue, List.map_append, List.sum_append, List.map_cons, List.map_nil,
        List.sum_cons, List.sum_nil]
      abel
    · rcases List.mem_append.mp hq with hq | hq
      · exact hw.waiting q hq
      · rw [List.mem_singleton.mp hq]
        exact hop

theorem rightful_tryComplete {request : Request} {r : TryResult} (hw : RightInv w)
    (he : exec (.tryCompleteSection request) o w = some (r, w')) :
    Rightful l (.tryCompleteSection request) r w w' := by
  obtain ⟨t, -, rfl, rfl⟩ := exec_tryComplete.mp he
  rcases tryCompleteSection_cases t request.output w.file with
    ⟨-, hfile⟩ | ⟨-, op, rest, hwait, hfile⟩
  · have hsame : w.afterTry request.id w.file = w := by simp [World.afterTry, added]
    rw [hfile, hsame]
    exact ⟨trivial, .of_eq rfl, hw⟩
  · have hwaiting := hw.waiting
    simp only [hwait, List.mem_cons, forall_eq_or_imp] at hwaiting
    rw [hfile]
    refine ⟨trivial, .of_eq ?_, hw.sizes, hwaiting.2, fun q hq => ?_, hw.issued, hw.history⟩
    · simp only [rightLedger, rightNeeds, rightReturns, storedRights, grantedRights, World.afterTry,
        hwait, List.map_append, List.sum_append, List.map_cons, List.map_nil, List.sum_cons,
        List.sum_nil]
      abel
    · rcases List.mem_append.mp hq with hq | hq
      · exact hw.outstanding q hq
      · rw [List.mem_singleton.mp hq]
        exact hwaiting.1

theorem rightful_take {id : UInt32} {r : Option OperationContext} (hw : RightInv w)
    (hsuits : ∀ op ∈ (takeOutstandingRequestById id w.file).1, suits l op = true)
    (he : exec (.takeOutstandingRequestById id) o w = some (r, w')) :
    Rightful l (.takeOutstandingRequestById id) r w w' := by
  obtain ⟨-, rfl, rfl⟩ := exec_take.mp he
  refine ⟨fun op hop => ?_, .of_eq ?_, hw.sizes, hw.waiting,
    fun op hop => hw.outstanding op (takeOutstandingRequestById_mem hop), hw.issued, hw.history⟩
  · obtain ⟨hmem, hid⟩ := takeOutstandingRequestById_some hop
    exact ⟨hid, hw.outstanding op hmem, hsuits op hop⟩
  · simp only [rightLedger, rightNeeds, rightReturns, storedRights, grantedRights,
      takeOutstandingRequestById_sum opRights id w.file]
    simp only [takeOutstandingRequestById]
    abel

theorem rightful_rundown {r : RundownResult} (hw : RightInv w)
    (he : exec .rundownSection o w = some (r, w')) : Rightful l .rundownSection r w w' := by
  obtain ⟨-, -, rfl⟩ := exec_rundown.mp he
  obtain ⟨z, hz⟩ := rundown_rights hw.waiting
  obtain ⟨z', hz'⟩ := rundown_rights hw.outstanding
  have hmakes (ops : List OperationContext) :
      ((ops.filterMap rundownCall).map VhfCall.makes).sum = 0 := by
    refine List.sum_eq_zero fun m hm => ?_
    obtain ⟨call, hcall, rfl⟩ := List.mem_map.mp hm
    obtain ⟨op, -, hrun⟩ := List.mem_filterMap.mp hcall
    simp only [rundownCall, Option.ite_none_right_eq_some, Option.some.injEq] at hrun
    rw [← hrun.2]
    rfl
  refine ⟨trivial, ⟨z + z', fun _ _ => trivial, ?_⟩, hw.sizes, fun _ h => absurd h List.not_mem_nil,
    fun _ h => absurd h List.not_mem_nil, hw.issued,
    forall_split_append hw.history fun pre a post h => ?_⟩
  · simp only [rightLedger, rightNeeds, rightReturns, storedRights, grantedRights,
      World.afterRundown, rundownSection, hz, hz', List.map_append, List.sum_append, hmakes,
      List.map_nil, List.sum_nil]
    abel
  · have ha : a ∈ w.file.waitingRequests.filterMap rundownCall ++
        w.file.outstandingRequests.filterMap rundownCall := by
      show a ∈ (rundownSection w.file).2.1
      simp [h]
    rcases List.mem_append.mp ha with ha | ha
    · exact rundown_allowed hw.waiting ha
    · exact rundown_allowed hw.outstanding ha

theorem right_call (hw : RightInv w) (hallowed : rightLedger.allowed c)
    (hheld : rightNeeds c + storedRights w ≤ grantedRights w)
    (hsuits : ∀ id, c = .takeOutstandingRequestById id →
      ∀ op ∈ (takeOutstandingRequestById id w.file).1, suits l op = true)
    (he : exec c o w = some (r, w')) : Rightful l c r w w' := by
  have hneeds : rightNeeds c ≤ grantedRights w := le_of_add_le_left hheld
  have hle : storedRights w ≤ grantedRights w := le_of_add_le_right hheld
  have hissued := exec_issued he
  cases c with
  | queueSection => exact rightful_queue hw hallowed he
  | tryCompleteSection => exact rightful_tryComplete hw he
  | takeOutstandingRequestById id => exact rightful_take hw (hsuits id rfl) he
  | rundownSection => exact rightful_rundown hw he
  | vhfCreate => exact rightful_create hw he
  | modifyContext f =>
    obtain ⟨-, rfl⟩ := exec_modifyContext.mp he
    obtain ⟨hwait, hout, hsizes⟩ := hallowed w.file
    exact ⟨trivial, rightful_inert hw ⟨hwait, hout⟩ (hsizes hw.sizes) rfl rfl⟩
  | interlockedIncrement =>
    obtain ⟨-, -, rfl⟩ := exec_increment.mp he
    exact ⟨trivial, rightful_inert hw ⟨rfl, rfl⟩ hw.sizes rfl rfl⟩
  | storeLastReport =>
    obtain ⟨-, rfl⟩ := exec_storeLastReport.mp he
    exact ⟨trivial, rightful_inert hw ⟨rfl, rfl⟩ hw.sizes rfl rfl⟩
  | readContext =>
    obtain ⟨-, rfl, rfl⟩ := exec_readContext.mp he
    exact ⟨hw.sizes, rightful_inert hw ⟨rfl, rfl⟩ hw.sizes rfl rfl⟩
  | vhfStart =>
    obtain ⟨-, rfl⟩ := exec_start.mp he
    exact ⟨trivial, rightful_call hw rfl rfl trivial⟩
  | vhfReadReportSubmit =>
    obtain ⟨-, rfl⟩ := exec_submit.mp he
    exact ⟨trivial, rightful_call hw rfl rfl trivial⟩
  | vhfDelete =>
    obtain ⟨-, rfl⟩ := exec_delete.mp he
    exact ⟨trivial, rightful_call hw rfl rfl trivial⟩
  | vhfAsyncOperationComplete handle status =>
    obtain ⟨-, rfl⟩ := exec_asyncComplete.mp he
    obtain ⟨h, rfl⟩ := Option.isSome_iff_exists.mp hallowed
    refine ⟨trivial, call_exchange _, hw.call ⟨h, rfl, fun hs => filled_of_succeed hw hle ?_⟩⟩
    exact Multiset.mem_of_le hneeds (mem_completeRights.mpr ⟨h, rfl, .inr ⟨hs, rfl⟩⟩)
  | rtlCopyMemory op source len =>
    obtain ⟨-, rfl⟩ := exec_copyMemory.mp he
    have hexchange := (call_exchange (w := w) (.copyMemory op source len)).frame (carriesOf op)
    refine ⟨trivial, ?_, hw.call ⟨issuedAs_of_carries hallowed.1 hneeds, hallowed.2⟩⟩
    simpa only [rightNeeds, rightReturns, VhfCall.uses, VhfCall.makes, add_zero] using hexchange
  | rtlZeroMemory op offset len =>
    obtain ⟨-, rfl⟩ := exec_zeroMemory.mp he
    exact ⟨trivial, (call_exchange (w := w) (.zeroMemory op offset len)).frame (carriesOf op),
      hw.call ⟨issuedAs_of_carries hallowed.1 (le_of_add_le_left hneeds), hallowed.2⟩⟩
  | _ =>
    have hfile := exec_file he rfl
    exact ⟨trivial, rightful_inert hw ⟨by rw [hfile], by rw [hfile]⟩ (hfile ▸ hw.sizes)
      (exec_vhf he rfl) hissued⟩

end

end VirtualGun.Driver
