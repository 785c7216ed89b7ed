import VirtualGun.Library.Threads
import Mathlib.Algebra.Order.BigOperators.Group.List
import Mathlib.Data.Multiset.UnionInter

/-!
# Who owns a block

The blocks that the library allocates are handed around: to the driver while an operation writes to them,
to the read thread as the pending event, to the client as an event that it has to complete. A block has one
owner at a time. It is lost only where a pending event is overwritten, which VHF rules out.
-/

open VirtualGun.Program

namespace VirtualGun.WinUHid

/-! ## Tokens -/

/-- A block, which an operation may write to. -/
inductive Token where
  | own (b : Block)
  | op (event : Handle) (b : Block)
  deriving DecidableEq

def Token.block : Token → Block
  | own b => b
  | op _ b => b

def eventTokens : Option Event → Multiset Token
  | none => 0
  | some e => {.own e.block}

/-- What is left of a block when no operation writes to it any more. -/
def resultTokens (b : Block) : IoResult → Multiset Token
  | .done e => {.own e.block}
  | _ => {.own b}

def blockNeeds : Call → Multiset Token
  | .heapFree b => {.own b}
  | .heapReAlloc b _ => {.own b}
  | .getNextEvent _ _ b _ => {.own b}
  | .getOverlappedResult _ event b _ => {.op event b}
  | .exchangePending event => eventTokens event
  | .eventCallback e => {.own e.block}
  | .received e => {.own e.block}
  | _ => 0

def blockReturns : (c : Call) → c.Resp → Multiset Token
  | .heapAlloc _, r => r.elim 0 fun b => {.own b}
  | .heapReAlloc b _, r => {.own (r.getD b)}
  | .getNextEvent _ event b _, r => if r = .pending then {.op event b} else resultTokens b r
  | .getOverlappedResult _ event b _, r => if r = .timeout then {.op event b} else resultTokens b r
  | .exchangePending _, r => eventTokens r
  | _, _ => 0

/-- A pending event that is overwritten is lost, if that can be. -/
def blockFact (single : Prop) : (c : Call) → c.Resp → Prop
  | .getOverlappedResult _ _ _ millis, r => millis = infinite → r ≠ .timeout
  | .exchangePending (some _), r => single → r = none
  | _, _ => True

/-- The blocks that wait as events. -/
def storedBlocks (w : Shared) : Multiset Token :=
  eventTokens w.pending + w.given.map fun e => .own e.block

def grantedBlocks (w : Shared) : Multiset Token :=
  w.heap.map .own + w.ops.map fun x => .op x.1 x.2

def blockLedger (single : Prop) : Ledger Job Call Call.Resp Shared Token where
  allowed _ := True
  needs := blockNeeds
  returns := blockReturns
  fact _ := blockFact single
  stored := storedBlocks
  granted := grantedBlocks
  spare t := ¬ single ∧ ∃ b, t = .own b
  inv w := ((grantedBlocks w).map Token.block).Nodup

section
variable {single : Prop} {l : Job} {α : Type} {w w' : Shared} {o : ThreadOutcome}

theorem granted_blocks (w : Shared) : (grantedBlocks w).map Token.block = w.heap + w.ops.map Prod.snd := by
  have hown : Token.block ∘ Token.own = id := rfl
  have hop : (Token.block ∘ fun x : Handle × Block => Token.op x.1 x.2) = Prod.snd := rfl
  rw [grantedBlocks, Multiset.map_add, Multiset.map_map, Multiset.map_map, hown, hop, Multiset.map_id]

theorem mem_granted_own {b : Block} : .own b ∈ grantedBlocks w ↔ b ∈ w.heap := by
  simp [grantedBlocks]

theorem mem_granted_op {event : Handle} {b : Block} : .op event b ∈ grantedBlocks w ↔ (event, b) ∈ w.ops := by
  simp [grantedBlocks]

theorem not_allocated {b : Block} (h : ¬ w.allocated b = true) : b ∉ (grantedBlocks w).map Token.block := by
  intro hb
  rw [granted_blocks, Multiset.mem_add] at hb
  apply h
  unfold Shared.allocated
  simpa using hb

/-! ## What each call exchanges -/

/-- A call does as its tokens say. -/
structure Keeps (single : Prop) (c : Call) (r : c.Resp) (w w' : Shared) : Prop where
  fact : blockFact single c r
  exchange : (blockLedger single).Exchange (blockNeeds c) (blockReturns c r) w w'
  inv : ((grantedBlocks w').map Token.block).Nodup

theorem keeps_same {c : Call} {r : c.Resp} (hfact : blockFact single c r)
    (hreturns : blockReturns c r = blockNeeds c) (hinv : ((grantedBlocks w).map Token.block).Nodup)
    (hpending : w'.pending = w.pending) (hgiven : w'.given = w.given) (hheap : w'.heap = w.heap)
    (hops : w'.ops = w.ops) : Keeps single c r w w' := by
  have hgranted : grantedBlocks w' = grantedBlocks w := by rw [grantedBlocks, grantedBlocks, hheap, hops]
  have hstored : storedBlocks w' = storedBlocks w := by rw [storedBlocks, storedBlocks, hpending, hgiven]
  refine ⟨hfact, .of_eq ?_, ?_⟩
  · simp only [blockLedger, hgranted, hstored, hreturns]
  · rwa [hgranted]

theorem granted_erase {b : Block} (h : b ∈ w.heap) :
    grantedBlocks w = .own b ::ₘ grantedBlocks { w with heap := w.heap.erase b } := by
  rw [grantedBlocks, grantedBlocks, ← Multiset.cons_add, ← Multiset.map_cons, Multiset.cons_erase h]

theorem granted_cons (b : Block) :
    grantedBlocks { w with heap := b ::ₘ w.heap } = .own b ::ₘ grantedBlocks w := by
  rw [grantedBlocks, grantedBlocks, Multiset.map_cons, Multiset.cons_add]

theorem newBlock_keeps {x b : Option Block} (hinv : ((grantedBlocks w).map Token.block).Nodup)
    (he : w.newBlock x = some (b, w')) :
    grantedBlocks w' = (b.elim 0 fun b => {.own b}) + grantedBlocks w ∧ storedBlocks w' = storedBlocks w ∧
      ((grantedBlocks w').map Token.block).Nodup := by
  rcases Shared.newBlock_cases he with ⟨rfl, rfl⟩ | ⟨b, rfl, hb, rfl⟩
  · exact ⟨(zero_add _).symm, rfl, hinv⟩
  · refine ⟨granted_cons b, rfl, ?_⟩
    rw [granted_cons, Multiset.map_cons]
    exact Multiset.nodup_cons.mpr ⟨not_allocated hb, hinv⟩

theorem keeps_turn {c : Call} {r : c.Resp} {t t' : Token} {m : Multiset Token} (hfact : blockFact single c r)
    (hneeds : blockNeeds c = {t}) (hreturns : blockReturns c r = {t'}) (ht : t'.block = t.block)
    (hinv : ((grantedBlocks w).map Token.block).Nodup) (hw : grantedBlocks w = t ::ₘ m)
    (hw' : grantedBlocks w' = t' ::ₘ m) (hstored : storedBlocks w' = storedBlocks w) :
    Keeps single c r w w' := by
  refine ⟨hfact, .of_eq ?_, ?_⟩
  · simp only [blockLedger, hneeds, hreturns, hw, hw', hstored, ← Multiset.singleton_add]
    abel
  · rw [hw, Multiset.map_cons, ← ht] at hinv
    rwa [hw', Multiset.map_cons]

theorem beginOp_keeps {file : Option Handle} {event : Handle} {b : Block} {size : UInt32} {r r' : IoResult}
    (hinv : ((grantedBlocks w).map Token.block).Nodup) (hb : b ∈ w.heap)
    (he : w.beginOp event b r = some (r', w')) : Keeps single (.getNextEvent file event b size) r' w w' := by
  cases r with
  | done e =>
    simp only [Shared.beginOp] at he
    split_ifs at he with heb
    cases he
    subst heb
    exact keeps_same trivial rfl hinv rfl rfl rfl rfl
  | pending =>
    cases he
    refine keeps_turn trivial rfl rfl rfl hinv (granted_erase hb) ?_ rfl
    simp only [grantedBlocks, Multiset.map_cons, Multiset.add_cons]
  | tooSmall | failed =>
    cases he
    exact keeps_same trivial rfl hinv rfl rfl rfl rfl
  | timeout => cases he

theorem endOp_keeps {file : Option Handle} {event : Handle} {b : Block} {millis : UInt32} {r : IoResult}
    (hinv : ((grantedBlocks w).map Token.block).Nodup) (hop : (event, b) ∈ w.ops) (hr : r ≠ .timeout)
    (htokens : resultTokens b r = {.own b}) :
    Keeps single (.getOverlappedResult file event b millis) r w
      { w with heap := b ::ₘ w.heap, ops := w.ops.erase (event, b) } := by
  refine keeps_turn (fun _ => hr) rfl ((if_neg hr).trans htokens) rfl hinv
    (m := w.heap.map .own + (w.ops.erase (event, b)).map fun x => .op x.1 x.2) ?_ ?_ rfl
  · conv_lhs => rw [grantedBlocks, ← Multiset.cons_erase hop, Multiset.map_cons, Multiset.add_cons]
  · simp only [grantedBlocks, Multiset.map_cons, Multiset.cons_add]

theorem overlappedResult_keeps {file : Option Handle} {event : Handle} {b : Block} {millis : UInt32}
    {r r' : IoResult} (hinv : ((grantedBlocks w).map Token.block).Nodup) (hop : (event, b) ∈ w.ops)
    (he : w.overlappedResult event b millis r = some (r', w')) :
    Keeps single (.getOverlappedResult file event b millis) r' w w' := by
  unfold Shared.overlappedResult Shared.endOp at he
  split_ifs at he with hwaiting hmillis htimeout
  · cases he
    subst htimeout
    exact keeps_same (fun h => absurd h hmillis) rfl hinv rfl rfl rfl rfl
  · cases r with
    | done e =>
      simp only at he
      split_ifs at he with heb
      cases he
      subst heb
      exact endOp_keeps hinv hop (by simp) rfl
    | tooSmall | failed =>
      cases he
      exact endOp_keeps hinv hop (by simp) rfl
    | pending | timeout => cases he

theorem heapReAlloc_keeps {b : Block} {b' : Option Block} {size : ℕ}
    (hinv : ((grantedBlocks w).map Token.block).Nodup) (hb : b ∈ w.heap)
    (he : Shared.exec (.heapReAlloc b size) o w = some (b', w')) :
    Keeps single (.heapReAlloc b size) b' w w' := by
  simp only [Shared.exec, Option.bind_eq_some_iff] at he
  obtain ⟨x, -, he⟩ := he
  cases x with
  | none =>
    cases he
    exact keeps_same trivial rfl hinv rfl rfl rfl rfl
  | some x =>
    have hgranted := granted_erase hb
    rw [hgranted, Multiset.map_cons] at hinv
    obtain ⟨hnew, hstored, hnodup⟩ := newBlock_keeps (Multiset.nodup_cons.mp hinv).2 he
    simp only [Shared.newBlock] at he
    split_ifs at he
    cases he
    refine ⟨trivial, .of_eq ?_, hnodup⟩
    simp only [blockLedger, blockNeeds, blockReturns, Option.getD_some]
    rw [hnew, hstored, hgranted, Option.elim_some, ← Multiset.singleton_add]
    simp only [storedBlocks]
    abel

theorem block_call {c : Call} {r : c.Resp} (hinv : ((grantedBlocks w).map Token.block).Nodup)
    (hheld : blockNeeds c + storedBlocks w ≤ grantedBlocks w)
    (hsingle : single → ∀ e, c = .exchangePending (some e) → w.pending = none)
    (he : Shared.exec c o w = some (r, w')) : Keeps single c r w w' := by
  have hmem {t : Token} (ht : t ∈ blockNeeds c) : t ∈ grantedBlocks w :=
    Multiset.mem_of_le hheld (Multiset.mem_add.mpr (.inl ht))
  cases c with
  | createEvent =>
    simp only [Shared.exec, Option.bind_eq_some_iff] at he
    obtain ⟨h, -, he⟩ := he
    rcases Shared.newHandle_cases he with ⟨-, rfl⟩ | ⟨x, -, rfl⟩ <;>
      exact keeps_same trivial rfl hinv rfl rfl rfl rfl
  | createThread proc =>
    rcases Shared.exec_createThread he with ⟨-, rfl⟩ | ⟨x, -, -, rfl⟩ <;>
      exact keeps_same trivial rfl hinv rfl rfl rfl rfl
  | heapAlloc size =>
    simp only [Shared.exec, Option.bind_eq_some_iff] at he
    obtain ⟨x, -, he⟩ := he
    obtain ⟨hnew, hstored, hnodup⟩ := newBlock_keeps hinv he
    refine ⟨trivial, .of_eq ?_, hnodup⟩
    simp only [blockLedger, blockNeeds, blockReturns, hnew, hstored]
    abel
  | heapReAlloc b size =>
    exact heapReAlloc_keeps hinv (mem_granted_own.mp (hmem (Multiset.mem_singleton_self _))) he
  | heapFree b =>
    simp only [Shared.exec, Option.map_eq_some_iff, Prod.mk.injEq] at he
    obtain ⟨-, -, -, rfl⟩ := he
    have hgranted := granted_erase (mem_granted_own.mp (hmem (Multiset.mem_singleton_self _)))
    refine ⟨trivial, .of_eq ?_, ?_⟩
    · simp only [blockLedger, blockNeeds, blockReturns]
      rw [hgranted, ← Multiset.singleton_add]
      simp only [storedBlocks]
      abel
    · rw [hgranted, Multiset.map_cons] at hinv
      exact (Multiset.nodup_cons.mp hinv).2
  | waitForSingleObject h millis =>
    obtain ⟨ready, timer, rfl⟩ := Shared.wait_eq (Shared.exec_waitForSingleObject he)
    exact keeps_same trivial rfl hinv rfl rfl rfl rfl
  | getNextEvent file event b size =>
    obtain ⟨x, he⟩ := Shared.exec_getNextEvent he
    exact beginOp_keeps hinv (mem_granted_own.mp (hmem (Multiset.mem_singleton_self _))) he
  | getOverlappedResult file event b millis =>
    simp only [Shared.exec, Option.bind_eq_some_iff] at he
    obtain ⟨x, -, he⟩ := he
    exact overlappedResult_keeps hinv (mem_granted_op.mp (hmem (Multiset.mem_singleton_self _))) he
  | cancelIo file event =>
    obtain ⟨waiting, rfl⟩ := Shared.exec_cancelIo_eq he
    exact keeps_same trivial rfl hinv rfl rfl rfl rfl
  | acquireShared =>
    obtain ⟨-, rfl⟩ := Shared.exec_acquireShared he
    exact keeps_same trivial rfl hinv rfl rfl rfl rfl
  | acquireExclusive =>
    obtain ⟨-, -, rfl⟩ := Shared.exec_acquireExclusive he
    exact keeps_same trivial rfl hinv rfl rfl rfl rfl
  | exchangePending event =>
    simp only [Shared.exec, Option.map_eq_some_iff, Prod.mk.injEq] at he
    obtain ⟨-, -, rfl, rfl⟩ := he
    refine ⟨?_, .of_eq ?_, hinv⟩
    · cases event with
      | none => trivial
      | some e => exact fun h => hsingle h e rfl
    · simp only [blockLedger, blockNeeds, blockReturns, storedBlocks, grantedBlocks]
      abel
  | eventCallback e | received e =>
    simp only [Shared.exec, Option.map_eq_some_iff, Prod.mk.injEq] at he
    obtain ⟨-, -, -, rfl⟩ := he
    refine ⟨trivial, .of_eq ?_, hinv⟩
    simp only [blockLedger, blockNeeds, blockReturns, storedBlocks, grantedBlocks, Multiset.map_cons]
    simp only [← Multiset.singleton_add]
    abel
  | createWaitableTimer | createFile | allocDevice | freeDevice | accessViolation | forever => cases he
  | _ =>
    simp only [Shared.exec, Option.map_eq_some_iff, Prod.mk.injEq] at he
    obtain ⟨-, -, -, rfl⟩ := he
    exact keeps_same trivial rfl hinv rfl rfl rfl rfl

/-! ## The functions -/

/-- The calls that no block is handed to or taken from. -/
def Call.blockless : Call → Bool
  | .heapAlloc _ => false
  | .heapReAlloc .. => false
  | .heapFree _ => false
  | .getNextEvent .. => false
  | .getOverlappedResult .. => false
  | .exchangePending _ => false
  | .eventCallback _ => false
  | .received _ => false
  | _ => true

theorem blockless_tokens {c : Call} (hc : c.blockless = true) :
    blockNeeds c = 0 ∧ ∀ r, blockReturns c r = 0 := by
  cases c with
  | heapAlloc | heapReAlloc | heapFree | getNextEvent | getOverlappedResult | exchangePending
  | eventCallback | received => cases hc
  | _ => exact ⟨rfl, fun _ => rfl⟩

/-- The function takes the tokens `pre`, and leaves those of `post`. -/
abbrev Trades (single : Prop) (l : Job) (pre : Multiset Token) (p : Lib α) (post : α → Multiset Token) : Prop :=
  (blockLedger single).Trades l pre p post

abbrev Blockless (p : Lib α) : Prop := p.Calls (fun c => c.blockless = true) fun _ _ => True

theorem Blockless.trades {p : Lib α} {pre : Multiset Token} (h : Blockless p) :
    Trades single l pre p fun _ => pre :=
  .of_inert (Prog.calls_mono (fun _ hc => ⟨trivial, blockless_tokens hc⟩) (fun _ _ _ => trivial) h)

theorem blockless_call {c : Call} {k : c.Resp → Lib α} (hc : c.blockless = true)
    (hk : ∀ r, Blockless (k r)) : Blockless (.call c k) :=
  ⟨hc, fun r _ => hk r⟩

theorem trades_blockless {c : Call} {k : c.Resp → Lib α} {pre : Multiset Token} {post : α → Multiset Token}
    (hc : c.blockless = true) (hk : ∀ r, Trades single l pre (k r) post) :
    Trades single l pre (.call c k) post :=
  .inert trivial (blockless_tokens hc).1 (blockless_tokens hc).2 hk

theorem trades_call {c : Call} {k : c.Resp → Lib α} {post : α → Multiset Token}
    (hk : ∀ r, blockFact single c r → Trades single l (blockReturns c r) (k r) post) :
    Trades single l (blockNeeds c) (.call c k) post := by
  refine .call 0 trivial (add_zero _).symm fun r hr => ?_
  rw [add_zero]
  exact hk r hr

theorem heapFree_trades (b : Block) : Trades single l {.own b} (perform (.heapFree b)) fun _ => 0 :=
  trades_call (c := .heapFree b) fun _ _ => .ret rfl

theorem deviceIoControlInSync_blockless {handle event : Option Handle} {code : Driver.RequestCode}
    {input : List Byte} : Blockless (deviceIoControlInSync handle event code input) := by
  unfold deviceIoControlInSync
  cases event with
  | some event => exact blockless_call rfl fun _ => blockless_call rfl fun _ => trivial
  | none =>
    refine blockless_call rfl fun created => ?_
    cases created with
    | none => trivial
    | some event => exact blockless_call rfl fun _ => blockless_call rfl fun _ => trivial

theorem joinThread_blockless {thread : Device → Option Handle} {forget : Device → Device} :
    Blockless (joinThread thread forget) := by
  simp only [joinThread, perform, Prog.perform_bind]
  refine blockless_call rfl fun d => Prog.calls_ite (fun _ => trivial) fun _ => ?_
  refine blockless_call rfl fun _ => blockless_call rfl fun _ => blockless_call rfl fun _ => ?_
  exact blockless_call rfl fun _ => blockless_call rfl fun _ => trivial

theorem stopThread_blockless {thread : Device → Option Handle} {forget : Device → Device} {wake : Lib Unit}
    (hwake : Blockless wake) : Blockless (stopThread thread forget wake) := by
  simp only [stopThread, perform, Prog.perform_bind]
  refine blockless_call rfl fun d => Prog.calls_ite (fun _ => trivial) fun _ => ?_
  refine blockless_call rfl fun _ => Prog.calls_bind hwake fun _ => ?_
  refine blockless_call rfl fun _ => blockless_call rfl fun _ => blockless_call rfl fun _ => ?_
  refine blockless_call rfl fun _ => blockless_call rfl fun _ => ?_
  exact blockless_call rfl fun _ => trivial

theorem winUHidStopDevice_blockless {device : Bool} : Blockless (winUHidStopDevice device) := by
  simp only [winUHidStopDevice, perform, Prog.perform_bind]
  refine Prog.calls_ite (fun _ => trivial) fun _ => blockless_call rfl fun _ => blockless_call rfl fun d => ?_
  refine Prog.calls_ite (fun _ => ?_) fun _ => blockless_call rfl fun _ => trivial
  refine blockless_call rfl fun _ => blockless_call rfl fun _ => ?_
  refine Prog.calls_bind (stopThread_blockless trivial) fun _ => ?_
  have hwake : Blockless wakeReadThread :=
    blockless_call rfl fun _ => blockless_call rfl fun _ => blockless_call rfl fun _ => trivial
  exact Prog.calls_bind (stopThread_blockless hwake) fun _ => blockless_call rfl fun _ => trivial

theorem startEventThread_blockless {eventCallback : Option ℕ} {callbackContext : ℕ} :
    Blockless (startEventThread eventCallback callbackContext) := by
  simp only [startEventThread, perform, Prog.perform_bind]
  refine blockless_call rfl fun _ => Prog.calls_ite (fun _ => trivial) fun _ => ?_
  exact blockless_call rfl fun _ => blockless_call rfl fun _ => trivial

theorem startReadThread_blockless : Blockless startReadThread := by
  simp only [startReadThread, perform, Prog.perform_bind]
  refine blockless_call rfl fun _ => Prog.calls_ite (fun _ => trivial) fun _ => ?_
  exact blockless_call rfl fun _ => blockless_call rfl fun _ => trivial

theorem winUHidStartDevice_blockless {device : Bool} {eventCallback : Option ℕ} {callbackContext : ℕ} :
    Blockless (winUHidStartDevice device eventCallback callbackContext) := by
  simp only [winUHidStartDevice, perform, Prog.perform_bind]
  refine Prog.calls_ite (fun _ => blockless_call rfl fun _ => trivial) fun _ => ?_
  refine blockless_call rfl fun _ => blockless_call rfl fun d => Prog.calls_ite (fun _ => ?_) fun _ => ?_
  · exact blockless_call rfl fun _ => blockless_call rfl fun _ => trivial
  refine Prog.calls_bind startEventThread_blockless fun started => Prog.calls_ite (fun _ => ?_) fun _ => ?_
  · exact blockless_call rfl fun _ => trivial
  refine Prog.calls_bind startReadThread_blockless fun started => Prog.calls_ite (fun _ => ?_) fun _ => ?_
  · exact blockless_call rfl fun _ => Prog.calls_bind joinThread_blockless fun _ => trivial
  refine blockless_call rfl fun d => Prog.calls_bind deviceIoControlInSync_blockless fun ok =>
    Prog.calls_ite (fun _ => ?_) fun _ => ?_
  · refine blockless_call rfl fun _ => Prog.calls_bind joinThread_blockless fun _ => ?_
    exact Prog.calls_bind joinThread_blockless fun _ => trivial
  · exact blockless_call rfl fun _ => blockless_call rfl fun _ => trivial

theorem winUHidCompleteWriteEvent_trades (event : Event) (success : Bool) :
    Trades single l {.own event.block} (winUHidCompleteWriteEvent event success) fun _ => 0 := by
  simp only [winUHidCompleteWriteEvent, perform, Prog.perform_bind]
  refine trades_blockless rfl fun d => ?_
  exact .bind _ deviceIoControlInSync_blockless.trades fun _ => heapFree_trades event.block

theorem winUHidCompleteReadEvent_trades (stack : Byte) (event : Event) (data : Option (List Byte))
    (dataLength : UInt32) :
    Trades single l {.own event.block} (winUHidCompleteReadEvent stack event data dataLength) fun _ => 0 := by
  simp only [winUHidCompleteReadEvent, perform, Prog.perform_bind]
  refine trades_blockless rfl fun d => .call {.own event.block} trivial (zero_add _).symm fun r _ => ?_
  cases r with
  | none =>
    refine .bind _ deviceIoControlInSync_blockless.trades fun _ => ?_
    exact heapFree_trades event.block
  | some block =>
    refine .bind _ deviceIoControlInSync_blockless.trades fun _ => ?_
    exact .call {.own event.block} trivial rfl fun _ _ => heapFree_trades event.block

theorem winUHidSubmitInputReport_trades (device : Bool) (report : Option (List Byte)) (reportSize : UInt32)
    (stack : Byte) :
    Trades single l 0 (winUHidSubmitInputReport device report reportSize stack) fun _ => 0 := by
  unfold winUHidSubmitInputReport
  simp only [perform, Prog.perform_bind]
  cases report with
  | none => exact trades_blockless rfl fun _ => .ret rfl
  | some report =>
    refine .ite (fun _ => trades_blockless rfl fun _ => .ret rfl) fun _ => trades_blockless rfl fun d => ?_
    cases d.readReportReadyEvent with
    | none =>
      refine trades_blockless rfl fun created => ?_
      cases created with
      | none => exact .ret rfl
      | some event => exact trades_blockless rfl fun ret => trades_blockless rfl fun _ => .ret rfl
    | some ready =>
      refine trades_blockless rfl fun signalled => .ite (fun _ => ?_) fun _ => ?_
      · refine trades_call (c := .exchangePending none) fun pending _ => ?_
        cases pending with
        | none => exact trades_blockless rfl fun _ => .ret rfl
        | some event =>
          refine .bind _ (winUHidCompleteReadEvent_trades stack event (some report) reportSize) fun _ => ?_
          exact trades_blockless rfl fun _ => .ret rfl
      · exact trades_blockless rfl fun _ => .ret rfl

/-! ## Polling -/

theorem awaitEvent_trades (file : Option Handle) (overlapped : Handle) (block : Block) (millis : UInt32) :
    Trades single l {.op overlapped block} (awaitEvent file overlapped block millis) (resultTokens block) := by
  simp only [awaitEvent, perform, Prog.perform_bind]
  refine trades_call (c := .getOverlappedResult file overlapped block millis) fun waited _ =>
    .ite (fun htimeout => ?_) fun hended => ?_
  · rw [blockReturns, if_pos htimeout]
    refine trades_blockless rfl fun _ =>
      trades_call (c := .getOverlappedResult file overlapped block infinite) fun r hr => ?_
    -- the operation has ended, one way or the other
    rw [blockReturns, if_neg (hr rfl)]
    cases r with
    | done event => exact .ret rfl
    | _ => exact .ret rfl
  · rw [blockReturns, if_neg hended]
    exact .ret rfl

theorem requestEvent_trades (file : Option Handle) (overlapped : Handle) (block : Block)
    (bufferSize millis : UInt32) :
    Trades single l {.own block} (requestEvent file overlapped block bufferSize millis)
      (resultTokens block) := by
  simp only [requestEvent, perform, Prog.perform_bind]
  refine trades_blockless rfl fun _ =>
    trades_call (c := .getNextEvent file overlapped block bufferSize) fun first _ =>
    trades_blockless rfl fun _ => .ite (fun hpending => ?_) fun hended => ?_
  · rw [blockReturns, if_pos hpending]
    exact awaitEvent_trades file overlapped block millis
  · rw [blockReturns, if_neg hended]
    exact .ret rfl

theorem growBuffer_blockless {bufferSize : UInt32} : Blockless (growBuffer bufferSize) := by
  simp only [growBuffer, perform, Prog.perform_bind]
  refine blockless_call rfl fun _ => blockless_call rfl fun _ => ?_
  exact blockless_call rfl fun _ => blockless_call rfl fun _ => trivial

theorem failPoll_trades (block : Block) : Trades single l {.own block} (failPoll block) eventTokens :=
  .bind _ (heapFree_trades block) fun _ => .ret rfl

theorem failPollWith_trades (code : UInt32) (block : Block) :
    Trades single l {.own block} (failPollWith code block) eventTokens :=
  trades_blockless rfl fun _ => failPoll_trades block

/-- A poll gives its block to the event it returns, or frees it. -/
theorem pollLoop_trades (rounds : ℕ) (overlapped : Handle) (block : Block) (bufferSize millis : UInt32) :
    Trades single l {.own block} (pollLoop rounds overlapped block bufferSize millis) eventTokens := by
  induction rounds generalizing block bufferSize with
  | zero => exact trades_blockless rfl nofun
  | succ rounds ih =>
    simp only [pollLoop, perform, Prog.perform_bind]
    refine trades_blockless rfl fun d => .ite (fun _ => ?_) fun _ => ?_
    · exact trades_blockless rfl fun _ => failPollWith_trades Error.badCommand block
    refine .bind _ (requestEvent_trades d.handle overlapped block bufferSize millis) fun r => ?_
    cases r with
    | done event => exact .ret rfl
    | tooSmall =>
      refine .bind _ growBuffer_blockless.trades fun bufferSize =>
        trades_call (c := .heapReAlloc block bufferSize.toNat) fun r _ => ?_
      cases r with
      | none => exact failPollWith_trades Error.outOfMemory block
      | some block' => exact trades_blockless rfl fun _ => ih block' bufferSize
    | timeout => exact failPollWith_trades Error.timeout block
    | pending | failed => exact failPoll_trades block

theorem winUHidPollEvent_trades (rounds : ℕ) (device : Bool) (timeoutMillis : UInt32) :
    Trades single l 0 (winUHidPollEvent rounds device timeoutMillis) eventTokens := by
  simp only [winUHidPollEvent, pollWith, perform, Prog.perform_bind]
  refine .ite (fun _ => trades_blockless rfl fun _ => .ret rfl) fun _ => trades_blockless rfl fun created => ?_
  cases created with
  | none => exact .ret rfl
  | some overlapped =>
    refine .bind eventTokens ?_ fun event => trades_blockless rfl fun _ => .ret rfl
    refine trades_blockless rfl fun _ => trades_blockless rfl fun d =>
      trades_call (c := .heapAlloc d.eventBufferSizeHint.toNat) fun r _ => ?_
    cases r with
    | none => exact trades_blockless rfl fun _ => trades_blockless rfl fun _ => .ret rfl
    | some block =>
      exact pollLoop_trades rounds overlapped block d.eventBufferSizeHint timeoutMillis

/-! ## The threads -/

theorem dispatchEvent_trades (event : Event) :
    Trades single l {.own event.block} (dispatchEvent event) fun _ => 0 := by
  simp only [dispatchEvent, perform, Prog.perform_bind]
  refine trades_blockless rfl fun d => .ite (fun _ => ?_) fun _ => ?_
  · refine trades_call (c := .exchangePending (some event)) fun old hold =>
      trades_blockless rfl fun _ => .drop (z := eventTokens old) (fun t ht => ?_) (zero_add _).symm
    -- an event that was pending is lost
    cases old with
    | none => exact absurd ht (Multiset.notMem_zero t)
    | some e => exact ⟨fun h => absurd (hold h) (by simp), e.block, Multiset.mem_singleton.mp ht⟩
  · exact trades_call (c := .eventCallback event) fun _ _ => .ret rfl

theorem eventThreadProc_trades (rounds n : ℕ) : Trades single l 0 (eventThreadProc rounds n) fun _ => 0 := by
  induction n with
  | zero => exact trades_blockless rfl nofun
  | succ n ih =>
    refine .bind _ (winUHidPollEvent_trades rounds true infinite) fun event => ?_
    cases event with
    | none => exact .ret rfl
    | some event => exact .bind _ (dispatchEvent_trades event) fun _ => ih

theorem readLoop_trades (rounds : ℕ) : Trades single l 0 (readLoop rounds) fun _ => 0 := by
  induction rounds with
  | zero => exact trades_blockless rfl nofun
  | succ rounds ih =>
    simp only [readLoop, perform, Prog.perform_bind]
    refine trades_blockless rfl fun d => .ite (fun _ => .ret rfl) fun _ => trades_blockless rfl fun _ => ?_
    refine trades_blockless rfl fun _ => trades_blockless rfl fun _ => trades_blockless rfl fun d => ?_
    refine .ite (fun _ => .ret rfl) fun _ => trades_call (c := .exchangePending none) fun pending _ => ?_
    cases pending with
    | none => exact ih
    | some event =>
      refine trades_blockless rfl fun _ => trades_call (c := .eventCallback event) fun _ _ => ?_
      exact trades_blockless rfl fun _ => trades_blockless rfl fun _ => trades_blockless rfl fun _ => ih

theorem readThreadProc_trades (rounds : ℕ) : Trades single l 0 (readThreadProc rounds) fun _ => 0 := by
  simp only [readThreadProc, perform, Prog.perform_bind]
  refine trades_blockless rfl fun _ => .bind _ (readLoop_trades rounds) fun _ => ?_
  exact trades_blockless rfl fun _ => .ret rfl

theorem receive_trades (event : Option Event) : Trades single l (eventTokens event) (receive event) fun _ => 0 := by
  cases event with
  | none => exact .ret rfl
  | some event => exact trades_call (c := .received event) fun _ _ => .ret rfl

/-- What a job begins with: a client that completes an event has its block. -/
def Job.tokens : Job → Multiset Token
  | .completeWrite event _ => {.own event.block}
  | .completeRead _ event _ _ => {.own event.block}
  | _ => 0

theorem run_spends (rounds : ℕ) (job : Job) :
    (blockLedger single).Spends l (job.run rounds) job.tokens := by
  apply Ledger.Trades.spends
  cases job with
  | start eventCallback callbackContext =>
    exact .bind _ winUHidStartDevice_blockless.trades fun _ => .ret rfl
  | stop => exact winUHidStopDevice_blockless.trades
  | submit report reportSize stack =>
    exact .bind _ (winUHidSubmitInputReport_trades true report reportSize stack) fun _ => .ret rfl
  | poll timeoutMillis =>
    exact .bind _ (winUHidPollEvent_trades rounds true timeoutMillis) fun event => receive_trades event
  | completeWrite event success => exact winUHidCompleteWriteEvent_trades event success
  | completeRead stack event data dataLength => exact winUHidCompleteReadEvent_trades stack event data dataLength
  | thread h proc =>
    cases proc with
    | event => exact .bind _ (eventThreadProc_trades rounds rounds) fun _ => trades_blockless rfl fun _ => .ret rfl
    | read => exact .bind _ (readThreadProc_trades rounds) fun _ => trades_blockless rfl fun _ => .ret rfl
  | completed event => exact .ret rfl

/-! ## Any interleaving -/

theorem erase_given {e : Event} (he : e ∈ w.given) :
    storedBlocks w = .own e.block ::ₘ storedBlocks { w with given := w.given.erase e } := by
  conv_lhs => rw [storedBlocks, ← Multiset.cons_erase he, Multiset.map_cons, Multiset.add_cons]
  rfl

theorem block_arrive {job : Job} (hinv : ((grantedBlocks w).map Token.block).Nodup)
    (hb : job.begin w = some w') :
    (blockLedger single).Exchange 0 job.tokens w w' ∧ ((grantedBlocks w').map Token.block).Nodup := by
  have hgive {e : Event} (hb : (if e ∈ w.given then some { w with given := w.given.erase e } else none) = some w') :
      (blockLedger single).Exchange 0 {.own e.block} w w' ∧ ((grantedBlocks w').map Token.block).Nodup := by
    simp only [Option.ite_none_right_eq_some, Option.some.injEq] at hb
    obtain ⟨he, rfl⟩ := hb
    refine ⟨.of_eq ?_, hinv⟩
    simp only [blockLedger]
    rw [erase_given he, ← Multiset.singleton_add]
    simp only [grantedBlocks]
    abel
  cases job with
  | start | stop | submit | poll =>
    cases hb
    exact ⟨.of_eq rfl, hinv⟩
  | completeWrite | completeRead => exact hgive hb
  | thread h proc =>
    simp only [Job.begin, Option.ite_none_right_eq_some, Option.some.injEq] at hb
    obtain ⟨-, rfl⟩ := hb
    exact ⟨.of_eq rfl, hinv⟩
  | completed event =>
    simp only [Job.begin, Option.ite_none_right_eq_some, Option.some.injEq] at hb
    obtain ⟨-, rfl⟩ := hb
    exact ⟨.of_eq rfl, hinv⟩

end

/-- No event comes while another is pending. -/
def Single (P : ThreadPool) : Move Job ThreadOutcome → Bool
  | .arrive _ => true
  | .step i _ =>
    match P.nextCall i with
    | some (.exchangePending (some _)) => P.world.pending.isNone
    | _ => true

section
variable {single : Prop} {rounds : ℕ} {d : Device} {P : ThreadPool}

theorem block_balanced
    (hP : Reach (threads rounds) (fun P m => single → Single P m) ⟨[], Shared.init d⟩ P) :
    ∃ ms, (blockLedger single).Balanced P ms := by
  induction hP with
  | init => exact ⟨[], .nil, ⟨0, nofun, rfl⟩, Multiset.nodup_zero⟩
  | @move P P' m _ hok hm ih =>
    obtain ⟨ms, h⟩ := ih
    refine h.move hm (fun job w _ hb => ?_) fun i o l c k r w hstep ht _ hheld he => ?_
    · exact ⟨job.tokens, run_spends rounds job, block_arrive h.inv hb⟩
    · have hsingle : single → ∀ e, c = .exchangePending (some e) → P.world.pending = none := by
        intro hs e hc
        have hone := hok hs
        subst hc
        have hcall : P.nextCall i = some (.exchangePending (some e)) := by simp [Pool.nextCall, ht]
        rw [hstep, Single, hcall] at hone
        exact Option.isNone_iff_eq_none.mp hone
      have hkeeps : Keeps single c r P.world w := block_call h.inv hheld hsingle he
      exact ⟨hkeeps.fact, hkeeps.exchange, hkeeps.inv⟩

theorem Reachable.blocks (hP : Reachable rounds d P) : ∃ ms, (blockLedger False).Balanced P ms :=
  block_balanced (hP.mono fun _ _ _ h => h.elim)

/-! ## One owner at a time -/

end

/-- The block that a call uses. -/
def Call.block? : Call → Option Block
  | .heapFree b => some b
  | .heapReAlloc b _ => some b
  | .getNextEvent _ _ b _ => some b
  | .getOverlappedResult _ _ b _ => some b
  | .exchangePending event => event.map Event.block
  | .eventCallback e => some e.block
  | .received e => some e.block
  | _ => none

/-- The block of the call is allocated, and no operation writes to it but the one that the call waits for. -/
def Shared.usable (w : Shared) : Call → Prop
  | .getOverlappedResult _ event b _ => (event, b) ∈ w.ops
  | c => ∀ b, c.block? = some b → b ∈ w.heap ∧ b ∉ w.ops.map Prod.snd

/-- The blocks of the events that are pending or that a client has. -/
def Shared.waitingBlocks (w : Shared) : Multiset Block :=
  ↑(w.pending.toList.map Event.block) + w.given.map Event.block

section
variable {rounds : ℕ} {d : Device} {P : ThreadPool} {w : Shared}

theorem stored_blocks (w : Shared) : (storedBlocks w).map Token.block = w.waitingBlocks := by
  have hgiven : (Token.block ∘ fun e : Event => Token.own e.block) = Event.block := rfl
  rw [storedBlocks, Multiset.map_add, Multiset.map_map, hgiven, Shared.waitingBlocks]
  cases w.pending <;> rfl

theorem needs_block {c : Call} {b : Block} (hb : c.block? = some b) : b ∈ (blockNeeds c).map Token.block := by
  cases c with
  | exchangePending event =>
    cases event with
    | none => cases hb
    | some e =>
      cases hb
      exact Multiset.mem_singleton_self _
  | heapFree | heapReAlloc | getNextEvent | getOverlappedResult | eventCallback | received =>
    cases hb
    exact Multiset.mem_singleton_self _
  | _ => cases hb

theorem usable_of_needs {c : Call} (hneeds : blockNeeds c ≤ grantedBlocks w)
    (hinv : ((grantedBlocks w).map Token.block).Nodup) : w.usable c := by
  rw [granted_blocks] at hinv
  have howned {b : Block} (hb : .own b ∈ blockNeeds c) : b ∈ w.heap ∧ b ∉ w.ops.map Prod.snd := by
    have hheap := mem_granted_own.mp (Multiset.mem_of_le hneeds hb)
    exact ⟨hheap, Multiset.disjoint_left.mp (Multiset.nodup_add.mp hinv).2.2 hheap⟩
  cases c with
  | getOverlappedResult file event b millis =>
    exact mem_granted_op.mp (Multiset.mem_of_le hneeds (Multiset.mem_singleton_self _))
  | exchangePending event =>
    rintro b hb
    cases event with
    | none => cases hb
    | some e =>
      cases hb
      exact howned (Multiset.mem_singleton_self _)
  | heapFree | heapReAlloc | getNextEvent | eventCallback | received =>
    rintro b hb
    cases hb
    exact howned (Multiset.mem_singleton_self _)
  | _ => exact fun b hb => by cases hb

theorem blocks_apart {single : Prop} {ms : List (Multiset Token)} (h : (blockLedger single).Balanced P ms) :
    ((P.threads.map fun t => ((blockLedger single).needed t).map Token.block).sum +
      P.world.waitingBlocks).Nodup := by
  have hnodup := Multiset.nodup_of_le (Multiset.map_le_map h.needed_le) h.inv
  rw [Multiset.map_add, ← Multiset.coe_mapAddMonoidHom, map_list_sum, List.map_map] at hnodup
  rw [← stored_blocks]
  exact hnodup

theorem pairwise_disjoint {T : Type} {ms : List (Multiset T)} (h : ms.sum.Nodup) : ms.Pairwise Disjoint := by
  induction ms with
  | nil => exact .nil
  | cons m ms ih =>
    rw [List.sum_cons, Multiset.nodup_add] at h
    exact .cons (fun m' hm => h.2.2.mono_right (List.le_sum_of_mem hm)) (ih h.2.1)

theorem mem_needed {single : Prop} {t : Thread Job Call Call.Resp} {c : Call} {b : Block}
    (hc : t.prog.next? = some c) (hb : c.block? = some b) :
    b ∈ ((blockLedger single).needed t).map Token.block := by
  rw [Ledger.needed, hc]
  exact needs_block hb

theorem op_not_stored {event : Handle} {b : Block} : .op event b ∉ storedBlocks w := by
  cases hpending : w.pending <;> simp [storedBlocks, eventTokens, hpending]

theorem quiet_ops {single : Prop} {ms : List (Multiset Token)} (h : (blockLedger single).Balanced P ms)
    (hq : P.quiet = true) : P.world.ops = 0 := by
  apply Multiset.eq_zero_of_forall_notMem
  rintro ⟨event, b⟩ hop
  have hspare : ¬ (blockLedger single).spare (.op event b) := by
    rintro ⟨-, b', hb'⟩
    cases hb'
  have hcount : (storedBlocks P.world).count (.op event b) = (grantedBlocks P.world).count (.op event b) :=
    h.quiet hq hspare
  rw [Multiset.count_eq_zero.mpr op_not_stored] at hcount
  exact Multiset.count_eq_zero.mp hcount.symm (mem_granted_op.mpr hop)

/-- Whatever the threads do, the block that a call uses is allocated, no other thread uses it, and it is
neither in the pending event nor in one that a client has. An operation ends before its poll. -/
theorem blocks_have_one_user (hP : Reachable rounds d P) :
    (∀ t ∈ P.threads, ∀ c, t.prog.next? = some c →
      P.world.usable c ∧ ∀ b, c.block? = some b → b ∉ P.world.waitingBlocks) ∧
    P.threads.Pairwise (fun t u => ∀ c c' b, t.prog.next? = some c → u.prog.next? = some c' →
      c.block? = some b → c'.block? ≠ some b) ∧
    P.world.waitingBlocks.Nodup ∧ (∀ b ∈ P.world.waitingBlocks, b ∈ P.world.heap) ∧
    (P.quiet = true → P.world.ops = 0) := by
  obtain ⟨ms, h⟩ := hP.blocks
  obtain ⟨hused, hwaiting, hdisjoint⟩ := Multiset.nodup_add.mp (blocks_apart h)
  refine ⟨fun t ht c hc => ⟨?_, fun b hb hmem => ?_⟩, ?_, hwaiting, fun b hb => ?_, quiet_ops h⟩
  · refine usable_of_needs (le_trans ?_ h.needed_le) h.inv
    have hneeded : (blockLedger False).needed t = blockNeeds c := by rw [Ledger.needed, hc]; rfl
    rw [← hneeded]
    exact le_add_right (List.le_sum_of_mem (List.mem_map_of_mem ht))
  · refine Multiset.disjoint_left.mp hdisjoint ?_ hmem
    exact Multiset.mem_of_le (List.le_sum_of_mem (List.mem_map_of_mem ht)) (mem_needed hc hb)
  · refine (List.pairwise_map.mp (pairwise_disjoint hused)).imp fun {t u} htu c c' b hc hc' hb hb' => ?_
    exact Multiset.disjoint_left.mp htu (mem_needed hc hb) (mem_needed hc' hb')
  · rw [← stored_blocks, Multiset.mem_map] at hb
    obtain ⟨t, ht, rfl⟩ := hb
    have hgranted := Multiset.mem_of_le h.stored_le ht
    cases t with
    | own b => exact mem_granted_own.mp hgranted
    | op event b => exact absurd ht op_not_stored

/-- The event thread waits in its poll while a client stops the device. -/
theorem blocks_have_one_user_stopping :
    ∃ t ∈ stopCalled.threads, ∃ c, t.prog.next? = some c ∧ c.block? = some 1 ∧
      stopCalled.world.usable c ∧ 1 ∉ stopCalled.world.waitingBlocks := by
  obtain ⟨t, ht, hblock⟩ := List.any_eq_true.mp
    (show stopCalled.threads.any (fun t => t.prog.next?.bind Call.block? == some 1) = true by decide +kernel)
  rw [beq_iff_eq, Option.bind_eq_some_iff] at hblock
  obtain ⟨c, hc, hb⟩ := hblock
  obtain ⟨husable, hwaiting⟩ := (blocks_have_one_user stopCalled_reachable).1 t ht c hc
  exact ⟨t, ht, c, hc, hb, husable, hwaiting 1 hb⟩

/-- If no event comes while another is pending, no block is lost: when all threads are done, the blocks
that are allocated are those of the events that are pending or that a client has to complete. -/
theorem no_block_lost
    (hP : Reach (threads rounds) (fun P m => Single P m) ⟨[], Shared.init d⟩ P) (hq : P.quiet = true) :
    P.world.heap = P.world.waitingBlocks := by
  have hsingle : Reach (threads rounds) (fun P m => True → Single P m) ⟨[], Shared.init d⟩ P :=
    hP.mono fun _ _ hok _ => hok
  obtain ⟨ms, h⟩ := block_balanced hsingle
  have hall : storedBlocks P.world = grantedBlocks P.world :=
    Multiset.ext.mpr fun t => h.quiet hq fun hspare => hspare.1 trivial
  rw [← stored_blocks, hall, granted_blocks, quiet_ops h hq, Multiset.map_zero, add_zero]

theorem no_block_lost_stored :
    ∃ P, Reach (threads 2) (fun P m => Single P m) ⟨[], Shared.init throttledDevice⟩ P ∧
      P.world.heap = P.world.waitingBlocks ∧ P.world.waitingBlocks = {1} := by
  have hplay : (Pool.replay (threads 2) Single storedEventRun ⟨[], Shared.init throttledDevice⟩).any
      (fun P => P.quiet && decide (P.world.waitingBlocks = {1})) = true := by decide +kernel
  obtain ⟨P, hP, hfacts⟩ := (Option.any_eq_true _ _).mp hplay
  obtain ⟨hquiet, hwaiting⟩ := (Bool.and_eq_true _ _).mp hfacts
  have hreach : Reach (threads 2) (fun P m => Single P m) ⟨[], Shared.init throttledDevice⟩ P :=
    .replay .init hP
  exact ⟨P, hreach, no_block_lost hreach hquiet, of_decide_eq_true hwaiting⟩

end

end VirtualGun.WinUHid
