import VirtualGun.Driver.Handlers
import Mathlib.Algebra.BigOperators.Group.List.Basic

/-!
# Operations in the two collections

An operation waits in `WaitingRequests` until a client takes it, and then in `OutstandingRequests`
until the client answers.
-/

namespace VirtualGun.Driver

/-- A pseudo-request, with ID 0, is what has no handle. -/
def RealOrPseudo (op : OperationContext) : Prop := op.requestId = 0 ↔ op.handle = none

/-- The operation handle that a call to VHF completes. -/
def VhfCall.completedHandle : VhfCall → Option VhfOperationHandle
  | .complete handle _ => handle
  | _ => none

def completedHandles (calls : List VhfCall) : List VhfOperationHandle :=
  calls.filterMap VhfCall.completedHandle

/-! ## What the sections do -/

theorem queueSection_cases (op : OperationContext) (add : NTSTATUS) (f : FileContext) :
    (queueSection op add f).1 ≠ .queued ∧ (queueSection op add f).2 = f ∨
    (queueSection op add f).1 = .queued ∧ f.vhfHandle.isSome ∧
      (queueSection op add f).2 = { f with waitingRequests := f.waitingRequests ++ [op] } := by
  unfold queueSection
  split
  · exact .inl ⟨by simp, rfl⟩
  · next hh =>
    split
    · exact .inl ⟨by simp, rfl⟩
    · exact .inr ⟨rfl, by simpa [Option.isSome_iff_ne_none] using hh, rfl⟩

/-- All `tryCompleteSection` can do: the head moves, or nothing does. -/
theorem tryCompleteSection_cases (t : TryOutcome) (output : List Byte) (f : FileContext) :
    ¬ ((tryCompleteSection t output f).1.completeRequest ∧
        ntSuccess (tryCompleteSection t output f).1.status) ∧ (tryCompleteSection t output f).2 = f ∨
    ((tryCompleteSection t output f).1.completeRequest ∧
        ntSuccess (tryCompleteSection t output f).1.status) ∧
      ∃ op rest, f.waitingRequests = op :: rest ∧ (tryCompleteSection t output f).2 =
        { f with waitingRequests := rest, outstandingRequests := f.outstandingRequests ++ [op] } := by
  unfold tryCompleteSection
  split
  · exact .inl ⟨by simp, rfl⟩
  · next op rest hwait => grind

theorem find?_eraseP_perm {α : Type} {p : α → Bool} {l : List α} {a : α} (h : l.find? p = some a) :
    List.Perm l (a :: l.eraseP p) := by
  induction l with
  | nil => simp at h
  | cons b l ih =>
    by_cases hb : p b = true
    · simp only [List.find?_cons_of_pos hb, Option.some.injEq] at h
      rw [List.eraseP_cons_of_pos hb, h]
    · rw [List.find?_cons_of_neg (by simpa using hb)] at h
      rw [List.eraseP_cons_of_neg (by simpa using hb)]
      exact ((ih h).cons b).trans (.swap a b _)

section
variable {id : UInt32} {f : FileContext} {op : OperationContext}

theorem takeOutstandingRequestById_some (h : (takeOutstandingRequestById id f).1 = some op) :
    op ∈ f.outstandingRequests ∧ op.requestId = id :=
  ⟨List.mem_of_find?_eq_some h, by simpa using List.find?_some h⟩

theorem takeOutstandingRequestById_mem
    (h : op ∈ (takeOutstandingRequestById id f).2.outstandingRequests) :
    op ∈ f.outstandingRequests :=
  List.mem_of_mem_eraseP h

theorem takeOutstandingRequestById_sum {M : Type} [AddCommMonoid M] (g : OperationContext → M)
    (id : UInt32) (f : FileContext) :
    (f.outstandingRequests.map g).sum = ((takeOutstandingRequestById id f).1.map g).getD 0 +
      ((takeOutstandingRequestById id f).2.outstandingRequests.map g).sum := by
  unfold takeOutstandingRequestById
  cases hfind : f.outstandingRequests.find? (·.requestId == id) with
  | none =>
    have herase := List.eraseP_of_forall_not fun op hop => List.find?_eq_none.mp hfind op hop
    simp [herase]
  | some op =>
    rw [((find?_eraseP_perm hfind).map g).sum_eq, List.map_cons, List.sum_cons, Option.map_some,
      Option.getD_some]

end

theorem rundown_handles {ops : List OperationContext} (h : ∀ op ∈ ops, RealOrPseudo op) :
    (ops.filterMap rundownCall).filterMap VhfCall.completedHandle = ops.filterMap (·.handle) := by
  rw [List.filterMap_filterMap]
  refine List.filterMap_congr fun op hop => ?_
  cases hh : op.handle with
  | none =>
    have hid : op.requestId = 0 := (h op hop).mpr hh
    simp [rundownCall, hid]
  | some handle =>
    have hid : op.requestId ≠ 0 := fun hid => by simp [(h op hop).mp hid] at hh
    simp [rundownCall, hid, hh, VhfCall.completedHandle]

/-! ## Request IDs -/

theorem realRequestId_ne_zero (counter : UInt32) : realRequestId counter ≠ 0 := by
  intro h
  have hbit := congrArg (fun x : UInt32 => x.toNat.testBit 31) h
  simp [realRequestId, Nat.testBit_or] at hbit
  exact absurd hbit.2 (by decide)

end VirtualGun.Driver
