import VirtualGun.Library.Threads

/-!
# The lock of a device

Each thread has a view: how it holds the lock, which state it has seen under it, and which thread of the
library it is. What a call does to the view of its thread, and what the views say of the device, holds in
every interleaving.
-/

open VirtualGun.Program

namespace VirtualGun.WinUHid

/-! ## Views -/

/-- How a thread holds the lock, with the state that it has seen since. -/
inductive Grip where
  | free
  | shared (seen : Option DeviceState)
  | exclusive (seen : Option DeviceState)
  /-- The device was set to stopped, and its operations are not cancelled yet. -/
  | stopping
  deriving DecidableEq

namespace Grip

def seen : Grip → Option DeviceState
  | free => none
  | shared seen => seen
  | exclusive seen => seen
  | stopping => some .stopped

def see (state : DeviceState) : Grip → Grip
  | free => free
  | shared _ => shared (some state)
  | exclusive _ => exclusive (some state)
  | stopping => stopping

def isShared : Grip → Bool
  | shared _ => true
  | _ => false

def isExclusive : Grip → Bool
  | exclusive _ | stopping => true
  | _ => false

end Grip

structure View where
  grip : Grip
  /-- The handle of a thread of the library that has not ended. -/
  self : Option Handle

/-- The view of a thread that begins. -/
def Job.view : Job → View
  | .thread h _ => ⟨.free, some h⟩
  | _ => ⟨.free, none⟩

/-- The objects of a device stay what they were when it was created. -/
structure SameObjects (d d' : Device) : Prop where
  handle : d'.handle = d.handle
  timer : d'.throttlingTimer = d.throttlingTimer
  ready : d'.readReportReadyEvent = d.readReportReadyEvent

/-- A change of the device that leaves its state alone. The size hint grows, under the lock. -/
structure Harmless (grip : Grip) (f : Device → Device) : Prop where
  objects : ∀ d, SameObjects d (f d)
  state : ∀ d, (f d).state = d.state
  hint : ∀ d, d.eventBufferSizeHint ≤ (f d).eventBufferSizeHint
  locked : grip.isExclusive = true ∨ ∀ d, (f d).eventBufferSizeHint = d.eventBufferSizeHint

/-- The calls a thread makes in a view. Nothing is waited for with the lock. -/
def View.may (d : Device) (v : View) : Call → Prop
  | .acquireShared => v.grip = .free
  | .acquireExclusive => v.grip = .free
  | .releaseShared => v.grip.isShared = true
  | .releaseExclusive => v.grip.isExclusive = true ∧ v.grip ≠ .stopping
  | .waitForSingleObject h _ => v.grip = .free ∧
    (v.self.isSome → some h = d.readReportReadyEvent ∨ some h = d.throttlingTimer)
  | .getOverlappedResult .. => v.grip = .free
  | .eventCallback _ => v.grip = .free ∧ v.self.isSome
  | .received _ => v.grip = .free
  | .getNextEvent file .. => v.grip = .shared (some .started) ∧ file = d.handle
  | .setState .created => False
  | .setState .started => v.grip = .exclusive (some .created)
  | .setState .stopped => v.grip = .exclusive (some .started)
  | .modifyDevice f => v.grip ≠ .stopping ∧ Harmless v.grip f
  | .cancelIo file none => v.grip = .stopping ∧ file = d.handle
  | .createThread proc => v.grip ≠ .stopping ∧ (proc = .read → d.throttlingTimer.isSome)
  | .exitThread h => v.grip = .free ∧ v.self = some h
  | .readDevice => True
  | .createWaitableTimer => False
  | .createFile => False
  | .allocDevice => False
  | .freeDevice => False
  | .accessViolation => False
  | _ => v.grip ≠ .stopping

/-- The view a call leaves. -/
def View.after (v : View) : (c : Call) → c.Resp → View
  | .acquireShared, _ => { v with grip := .shared none }
  | .acquireExclusive, _ => { v with grip := .exclusive none }
  | .releaseShared, _ => { v with grip := .free }
  | .releaseExclusive, _ => { v with grip := .free }
  | .readDevice, d => { v with grip := v.grip.see d.state }
  | .setState .stopped, _ => { v with grip := .stopping }
  | .setState state, _ => { v with grip := .exclusive (some state) }
  | .cancelIo _ none, _ => { v with grip := .exclusive (some .stopped) }
  | .exitThread _, _ => { v with self := none }
  | _, _ => v

/-- What is known of a response. -/
def View.fact (d : Device) (v : View) : (c : Call) → c.Resp → Prop
  | .readDevice, d' => SameObjects d d' ∧ ∀ s, v.grip.seen = some s → d'.state = s
  | _, _ => True

/-- What the views of all threads say of the device that `d` was. -/
structure LockInv (d : Device) (vs : List View) (w : Shared) : Prop where
  readers : w.readers = vs.countP (·.grip.isShared)
  writer : vs.countP (·.grip.isExclusive) = w.writer.toNat
  apart : w.writer = true → w.readers = 0
  seen : ∀ v ∈ vs, ∀ s, v.grip.seen = some s → w.device.state = s
  cancelled : w.device.state = .stopped → (∀ v ∈ vs, v.grip ≠ .stopping) → ∀ h, w.waiting h = false
  objects : SameObjects d w.device
  alive : w.alive = Multiset.ofList (vs.filterMap View.self) + w.created.map Prod.fst
  created : ∀ x ∈ w.created, x.2 = .read → d.throttlingTimer.isSome

def locking (d : Device) : Views Job Call Call.Resp Shared View where
  of job v := v.self = none ∨ v.self = job.view.self
  may := View.may d
  next v c r v' := v.fact d c r ∧ v' = v.after c r
  fin v := v.grip = .free ∧ v.self = none
  inv := LockInv d

section
variable {d : Device} {v : View} {α β : Type} {Q : α → View → Prop}

theorem follows_call {c : Call} {k : c.Resp → Lib α} :
    (locking d).Follows Q (.call c k) v ↔
      v.may d c ∧ ∀ r, v.fact d c r → (locking d).Follows Q (k r) (v.after c r) := by
  constructor
  · intro h
    exact ⟨h.1, fun r hr => h.2 r _ ⟨hr, rfl⟩⟩
  · rintro ⟨hmay, hk⟩
    exact ⟨hmay, fun r v' ⟨hr, hv⟩ => hv ▸ hk r hr⟩

theorem follows_idle {c : Call} {k : c.Resp → Lib α} (hmay : v.may d c) (hv : ∀ r, v.after c r = v)
    (hk : ∀ r, (locking d).Follows Q (k r) v) : (locking d).Follows Q (.call c k) v := by
  refine follows_call.mpr ⟨hmay, fun r _ => ?_⟩
  rw [hv r]
  exact hk r

theorem follows_readDevice {k : Device → Lib α}
    (hk : ∀ d', SameObjects d d' → (∀ s, v.grip.seen = some s → d'.state = s) →
      (locking d).Follows Q (k d') { v with grip := v.grip.see d'.state }) :
    (locking d).Follows Q (.call .readDevice k) v :=
  follows_call.mpr ⟨trivial, fun d' hd' => hk d' hd'.1 hd'.2⟩

end

/-! ## The functions of the library -/

/-- Run without the lock, the program ends without it. -/
abbrev Unlocked (d : Device) (self : Option Handle) (p : Lib α) : Prop :=
  (locking d).Follows (fun _ v => v = ⟨.free, self⟩) p ⟨.free, self⟩

section
variable {d : Device} {self : Option Handle} {α : Type}

theorem free_ne_stopping : Grip.free ≠ .stopping := by decide

theorem shared_ne_stopping {seen : Option DeviceState} : Grip.shared seen ≠ .stopping := by simp

theorem exclusive_ne_stopping {seen : Option DeviceState} : Grip.exclusive seen ≠ .stopping := by simp

theorem deviceIoControlInSync_follows {handle event : Option Handle} {code : Driver.RequestCode}
    {input : List Byte} {grip : Grip} (hgrip : grip ≠ .stopping) :
    (locking d).Follows (fun _ v => v = ⟨grip, self⟩) (deviceIoControlInSync handle event code input)
      ⟨grip, self⟩ := by
  unfold deviceIoControlInSync perform
  cases event with
  | some event =>
    refine follows_idle hgrip (fun _ => rfl) fun _ => ?_
    exact follows_idle hgrip (fun _ => rfl) fun _ => rfl
  | none =>
    refine follows_idle hgrip (fun _ => rfl) fun event => ?_
    cases event with
    | none => rfl
    | some event =>
      refine follows_idle hgrip (fun _ => rfl) fun _ => ?_
      exact follows_idle hgrip (fun _ => rfl) fun _ => rfl

theorem winUHidCompleteWriteEvent_unlocked {event : Event} {success : Bool} :
    Unlocked d self (winUHidCompleteWriteEvent event success) := by
  unfold winUHidCompleteWriteEvent perform
  simp only [Prog.perform_bind]
  refine follows_readDevice fun d' _ _ => ?_
  refine Views.follows_bind (deviceIoControlInSync_follows free_ne_stopping) ?_
  rintro _ _ rfl
  exact follows_idle free_ne_stopping (fun _ => rfl) fun _ => rfl

theorem winUHidCompleteReadEvent_unlocked {stack : Byte} {event : Event} {data : Option (List Byte)}
    {dataLength : UInt32} : Unlocked d self (winUHidCompleteReadEvent stack event data dataLength) := by
  have hfree {b : Block} : Unlocked d self (perform (.heapFree b)) :=
    follows_idle free_ne_stopping (fun _ => rfl) fun _ => rfl
  unfold winUHidCompleteReadEvent perform
  simp only [Prog.perform_bind]
  refine follows_readDevice fun d' _ _ => ?_
  refine follows_idle free_ne_stopping (fun _ => rfl) fun block => ?_
  cases block with
  | none =>
    refine Views.follows_bind (deviceIoControlInSync_follows free_ne_stopping) ?_
    rintro _ _ rfl
    exact hfree
  | some block =>
    refine Views.follows_bind (deviceIoControlInSync_follows free_ne_stopping) ?_
    rintro _ _ rfl
    exact follows_idle free_ne_stopping (fun _ => rfl) fun _ => hfree

theorem joinThread_unlocked {thread : Device → Option Handle} {forget : Device → Device}
    (hforget : Harmless .free forget) : Unlocked d none (joinThread thread forget) := by
  unfold joinThread perform
  simp only [Prog.perform_bind]
  refine follows_readDevice fun d₁ _ _ => Views.follows_ite (fun _ => rfl) fun _ => ?_
  refine follows_readDevice fun d₂ _ _ => ?_
  refine follows_idle ⟨rfl, by simp⟩ (fun _ => rfl) fun _ => ?_
  refine follows_readDevice fun d₃ _ _ => ?_
  refine follows_idle free_ne_stopping (fun _ => rfl) fun _ => ?_
  exact follows_idle ⟨free_ne_stopping, hforget⟩ (fun _ => rfl) fun _ => rfl

theorem harmless_forget {grip : Grip} :
    Harmless grip forgetEventThread ∧ Harmless grip forgetReadThread := by
  constructor
  · exact ⟨fun _ => ⟨rfl, rfl, rfl⟩, fun _ => rfl, fun _ => UInt32.le_refl _, .inr fun _ => rfl⟩
  · exact ⟨fun _ => ⟨rfl, rfl, rfl⟩, fun _ => rfl, fun _ => UInt32.le_refl _, .inr fun _ => rfl⟩

/-- The lock is dropped for the wait, and taken again. -/
theorem stopThread_follows {thread : Device → Option Handle} {forget : Device → Device} {wake : Lib Unit}
    {seen : Option DeviceState} (hforget : ∀ grip, Harmless grip forget) (hwake : Unlocked d none wake) :
    (locking d).Follows (fun _ v => ∃ seen, v = ⟨.exclusive seen, none⟩) (stopThread thread forget wake)
      ⟨.exclusive seen, none⟩ := by
  unfold stopThread perform
  simp only [Prog.perform_bind]
  refine follows_readDevice fun d₁ _ _ => Views.follows_ite (fun _ => ⟨_, rfl⟩) fun _ => ?_
  refine follows_call.mpr ⟨⟨rfl, exclusive_ne_stopping⟩, fun _ _ => ?_⟩
  refine Views.follows_bind hwake ?_
  rintro _ _ rfl
  refine follows_readDevice fun d₂ _ _ => ?_
  refine follows_idle ⟨rfl, by simp⟩ (fun _ => rfl) fun _ => ?_
  refine follows_call.mpr ⟨rfl, fun _ _ => follows_readDevice fun d₃ _ _ => ?_⟩
  refine follows_idle exclusive_ne_stopping (fun _ => rfl) fun _ => ?_
  exact follows_idle ⟨exclusive_ne_stopping, hforget _⟩ (fun _ => rfl) fun _ => ⟨_, rfl⟩

theorem wakeReadThread_unlocked : Unlocked d self wakeReadThread := by
  unfold wakeReadThread perform
  simp only [Prog.perform_bind]
  refine follows_readDevice fun d' _ _ => ?_
  refine follows_idle free_ne_stopping (fun _ => rfl) fun _ => ?_
  exact follows_idle free_ne_stopping (fun _ => rfl) fun _ => rfl

theorem winUHidStopDevice_unlocked : Unlocked d none (winUHidStopDevice true) := by
  have hrelease {seen : Option DeviceState} : (locking d).Follows (fun _ v => v = ⟨.free, none⟩)
      (perform .releaseExclusive) ⟨.exclusive seen, none⟩ :=
    follows_call.mpr ⟨⟨rfl, exclusive_ne_stopping⟩, fun _ _ => rfl⟩
  unfold winUHidStopDevice perform
  simp only [Bool.not_true, Bool.false_eq_true, if_false, Prog.perform_bind]
  refine follows_call.mpr ⟨rfl, fun _ _ => follows_readDevice fun d' hd' _ => ?_⟩
  refine Views.follows_ite (fun hstarted => ?_) fun _ => hrelease
  have hgrip : Grip.see d'.state (.exclusive none) = .exclusive (some .started) := by
    rw [hstarted]
    rfl
  refine follows_call.mpr ⟨hgrip, fun _ _ => ?_⟩
  refine follows_call.mpr ⟨⟨rfl, hd'.handle⟩, fun _ _ => ?_⟩
  refine Views.follows_bind (stopThread_follows (fun _ => harmless_forget.1) rfl) ?_
  rintro _ _ ⟨seen, rfl⟩
  refine Views.follows_bind (stopThread_follows (fun _ => harmless_forget.2) wakeReadThread_unlocked) ?_
  rintro _ _ ⟨seen, rfl⟩
  exact hrelease

theorem winUHidSubmitInputReport_unlocked {report : Option (List Byte)} {reportSize : UInt32}
    {stack : Byte} : Unlocked d none (winUHidSubmitInputReport true report reportSize stack) := by
  have hfail {code : UInt32} : Unlocked d none (do perform (.setLastError code); return false) :=
    follows_idle free_ne_stopping (fun _ => rfl) fun _ => rfl
  unfold winUHidSubmitInputReport perform
  cases report with
  | none => exact hfail
  | some report =>
    simp only [Prog.perform_bind]
    refine Views.follows_ite (fun _ => hfail) fun _ => follows_readDevice fun d' _ _ => ?_
    cases hready : d'.readReportReadyEvent with
    | none =>
      simp only
      refine follows_idle free_ne_stopping (fun _ => rfl) fun event => ?_
      cases event with
      | none => rfl
      | some event =>
        refine follows_idle free_ne_stopping (fun _ => rfl) fun _ => ?_
        exact follows_idle free_ne_stopping (fun _ => rfl) fun _ => rfl
    | some ready =>
      simp only
      refine follows_idle ⟨rfl, by simp⟩ (fun _ => rfl) fun signalled => ?_
      refine Views.follows_ite (fun _ => ?_) fun _ => hfail
      refine follows_idle free_ne_stopping (fun _ => rfl) fun event => ?_
      cases event with
      | none => exact hfail
      | some event =>
        refine Views.follows_bind winUHidCompleteReadEvent_unlocked ?_
        rintro _ _ rfl
        exact follows_idle free_ne_stopping (fun _ => rfl) fun _ => rfl

theorem harmless_growHint {bufferSize : UInt32} {seen : Option DeviceState} :
    Harmless (.exclusive seen) (growHint bufferSize) := by
  refine ⟨fun d => ?_, fun d => ?_, fun d => ?_, .inl rfl⟩ <;> unfold growHint <;> split
  · exact ⟨rfl, rfl, rfl⟩
  · exact ⟨rfl, rfl, rfl⟩
  · rfl
  · rfl
  · next h => exact UInt32.le_of_lt h
  · exact UInt32.le_refl _

theorem awaitEvent_unlocked {file : Option Handle} {overlapped : Handle} {block : Block} {millis : UInt32} :
    Unlocked d self (awaitEvent file overlapped block millis) := by
  unfold awaitEvent perform
  simp only [Prog.perform_bind]
  refine follows_idle rfl (fun _ => rfl) fun waited => Views.follows_ite (fun _ => ?_) fun _ => rfl
  refine follows_idle free_ne_stopping (fun _ => rfl) fun _ => ?_
  refine follows_idle rfl (fun _ => rfl) fun result => ?_
  cases result <;> rfl

theorem requestEvent_follows {overlapped : Handle} {block : Block} {bufferSize millis : UInt32} :
    (locking d).Follows (fun _ v => v = ⟨.free, self⟩)
      (requestEvent d.handle overlapped block bufferSize millis) ⟨.shared (some .started), self⟩ := by
  unfold requestEvent perform
  simp only [Prog.perform_bind]
  refine follows_idle shared_ne_stopping (fun _ => rfl) fun _ => ?_
  refine follows_idle ⟨rfl, rfl⟩ (fun _ => rfl) fun first => ?_
  refine follows_call.mpr ⟨rfl, fun _ _ => ?_⟩
  exact Views.follows_ite (fun _ => awaitEvent_unlocked) fun _ => rfl

theorem growBuffer_unlocked {bufferSize : UInt32} : Unlocked d self (growBuffer bufferSize) := by
  unfold growBuffer perform
  simp only [Prog.perform_bind]
  refine follows_call.mpr ⟨rfl, fun _ _ => follows_readDevice fun d' _ _ => ?_⟩
  refine follows_idle ⟨exclusive_ne_stopping, harmless_growHint⟩ (fun _ => rfl) fun _ => ?_
  exact follows_call.mpr ⟨⟨rfl, exclusive_ne_stopping⟩, fun _ _ => rfl⟩

theorem failPoll_unlocked {block : Block} : Unlocked d self (failPoll block) :=
  follows_idle free_ne_stopping (fun _ => rfl) fun _ => rfl

theorem failPollWith_unlocked {code : UInt32} {block : Block} : Unlocked d self (failPollWith code block) :=
  follows_idle free_ne_stopping (fun _ => rfl) fun _ => failPoll_unlocked

theorem pollLoop_follows {rounds : ℕ} {overlapped : Handle} {block : Block} {bufferSize millis : UInt32}
    {seen : Option DeviceState} :
    (locking d).Follows (fun _ v => v = ⟨.free, self⟩)
      (pollLoop rounds overlapped block bufferSize millis) ⟨.shared seen, self⟩ := by
  induction rounds generalizing block bufferSize seen with
  | zero =>
    unfold pollLoop perform
    exact follows_call.mpr ⟨shared_ne_stopping, fun r => r.elim⟩
  | succ rounds ih =>
    unfold pollLoop perform
    simp only [Prog.perform_bind]
    refine follows_readDevice fun d' hd' _ => Views.follows_ite (fun _ => ?_) fun hstarted => ?_
    · exact follows_call.mpr ⟨rfl, fun _ _ => failPollWith_unlocked⟩
    · have hseen : Grip.see d'.state (.shared seen) = .shared (some .started) := by
        rw [not_not.mp hstarted]
        rfl
      rw [hseen, hd'.handle]
      refine Views.follows_bind requestEvent_follows ?_
      rintro result _ rfl
      cases result with
      | done event => rfl
      | tooSmall =>
        refine Views.follows_bind growBuffer_unlocked ?_
        rintro bufferSize _ rfl
        refine follows_idle free_ne_stopping (fun _ => rfl) fun block => ?_
        cases block with
        | none => exact failPollWith_unlocked
        | some block => exact follows_call.mpr ⟨rfl, fun _ _ => ih⟩
      | pending => exact failPoll_unlocked
      | timeout => exact failPollWith_unlocked
      | failed => exact failPoll_unlocked

theorem winUHidPollEvent_unlocked {rounds : ℕ} {millis : UInt32} :
    Unlocked d self (winUHidPollEvent rounds true millis) := by
  unfold winUHidPollEvent perform
  simp only [Bool.not_true, Bool.false_eq_true, if_false, Prog.perform_bind]
  refine follows_idle free_ne_stopping (fun _ => rfl) fun overlapped => ?_
  cases overlapped with
  | none => rfl
  | some overlapped =>
    refine Views.follows_bind (Q := fun _ v => v = ⟨.free, self⟩) ?_ ?_
    · unfold pollWith perform
      simp only [Prog.perform_bind]
      refine follows_call.mpr ⟨rfl, fun _ _ => follows_readDevice fun d' _ _ => ?_⟩
      refine follows_idle shared_ne_stopping (fun _ => rfl) fun block => ?_
      cases block with
      | none =>
        refine follows_call.mpr ⟨rfl, fun _ _ => ?_⟩
        exact follows_idle free_ne_stopping (fun _ => rfl) fun _ => rfl
      | some block => exact pollLoop_follows
    · rintro _ _ rfl
      exact follows_idle free_ne_stopping (fun _ => rfl) fun _ => rfl

theorem readLoop_follows {rounds : ℕ} {h : Handle} {seen : Option DeviceState}
    (hboth : d.throttlingTimer.isSome ∧ d.readReportReadyEvent.isSome) :
    (locking d).Follows (fun _ v => ∃ seen, v = ⟨.shared seen, some h⟩) (readLoop rounds)
      ⟨.shared seen, some h⟩ := by
  obtain ⟨timer, htimer⟩ := Option.isSome_iff_exists.mp hboth.1
  obtain ⟨ready, hready⟩ := Option.isSome_iff_exists.mp hboth.2
  induction rounds generalizing seen with
  | zero =>
    unfold readLoop perform
    exact follows_call.mpr ⟨shared_ne_stopping, fun r => r.elim⟩
  | succ rounds ih =>
    unfold readLoop perform
    simp only [Prog.perform_bind]
    refine follows_readDevice fun d₁ hd₁ _ => Views.follows_ite (fun _ => ⟨_, rfl⟩) fun _ => ?_
    refine follows_call.mpr ⟨rfl, fun _ _ => ?_⟩
    refine follows_idle ⟨rfl, fun _ => .inl ?_⟩ (fun _ => rfl) fun _ => ?_
    · rw [hd₁.ready, hready]
      rfl
    refine follows_call.mpr ⟨rfl, fun _ _ => follows_readDevice fun d₂ hd₂ _ => ?_⟩
    refine Views.follows_ite (fun _ => ⟨_, rfl⟩) fun _ => ?_
    refine follows_idle shared_ne_stopping (fun _ => rfl) fun event => ?_
    cases event with
    | none => exact ih
    | some event =>
      refine follows_call.mpr ⟨rfl, fun _ _ => follows_idle ⟨rfl, rfl⟩ (fun _ => rfl) fun _ => ?_⟩
      refine follows_idle free_ne_stopping (fun _ => rfl) fun _ => ?_
      refine follows_idle ⟨rfl, fun _ => .inr ?_⟩ (fun _ => rfl) fun _ => ?_
      · rw [hd₂.timer, htimer]
        rfl
      · exact follows_call.mpr ⟨rfl, fun _ _ => ih⟩

theorem readThreadProc_unlocked {rounds : ℕ} {h : Handle}
    (hboth : d.throttlingTimer.isSome ∧ d.readReportReadyEvent.isSome) :
    Unlocked d (some h) (readThreadProc rounds) := by
  unfold readThreadProc perform
  simp only [Prog.perform_bind]
  refine follows_call.mpr ⟨rfl, fun _ _ => Views.follows_bind (readLoop_follows hboth) ?_⟩
  rintro _ _ ⟨seen, rfl⟩
  exact follows_call.mpr ⟨rfl, fun _ _ => rfl⟩

theorem dispatchEvent_unlocked {event : Event} {h : Handle} : Unlocked d (some h) (dispatchEvent event) := by
  unfold dispatchEvent perform
  simp only [Prog.perform_bind]
  refine follows_readDevice fun d' _ _ => Views.follows_ite (fun _ => ?_) fun _ => ?_
  · refine follows_idle free_ne_stopping (fun _ => rfl) fun _ => ?_
    exact follows_idle free_ne_stopping (fun _ => rfl) fun _ => rfl
  · exact follows_idle ⟨rfl, rfl⟩ (fun _ => rfl) fun _ => rfl

theorem eventThreadProc_unlocked {rounds n : ℕ} {h : Handle} :
    Unlocked d (some h) (eventThreadProc rounds n) := by
  induction n with
  | zero =>
    unfold eventThreadProc perform
    exact follows_call.mpr ⟨free_ne_stopping, fun r => r.elim⟩
  | succ n ih =>
    unfold eventThreadProc
    refine Views.follows_bind winUHidPollEvent_unlocked ?_
    rintro event _ rfl
    cases event with
    | none => rfl
    | some event =>
      refine Views.follows_bind dispatchEvent_unlocked ?_
      rintro _ _ rfl
      exact ih

theorem startEventThread_follows {eventCallback : Option ℕ} {callbackContext : ℕ} :
    (locking d).Follows (fun _ v => v = ⟨.exclusive (some .created), none⟩)
      (startEventThread eventCallback callbackContext) ⟨.exclusive (some .created), none⟩ := by
  have hharmless {f : Device → Device} (h : ∀ d, f d = { d with
      eventThread := (f d).eventThread
      eventCallback := (f d).eventCallback
      callbackContext := (f d).callbackContext }) : Harmless (.exclusive (some .created)) f := by
    refine ⟨fun d => ?_, fun d => ?_, fun d => ?_, .inl rfl⟩ <;> rw [h d]
    · exact ⟨rfl, rfl, rfl⟩
    · exact UInt32.le_refl _
  unfold startEventThread perform
  simp only [Prog.perform_bind]
  refine follows_idle ⟨exclusive_ne_stopping, hharmless fun _ => rfl⟩ (fun _ => rfl) fun _ => ?_
  refine Views.follows_ite (fun _ => rfl) fun _ => ?_
  refine follows_idle ⟨exclusive_ne_stopping, nofun⟩ (fun _ => rfl) fun thread => ?_
  exact follows_idle ⟨exclusive_ne_stopping, hharmless fun _ => rfl⟩ (fun _ => rfl) fun _ => rfl

theorem startReadThread_follows :
    (locking d).Follows (fun _ v => v = ⟨.exclusive (some .created), none⟩) startReadThread
      ⟨.exclusive (some .created), none⟩ := by
  unfold startReadThread perform
  simp only [Prog.perform_bind]
  refine follows_readDevice fun d' hd' hstate => ?_
  have hseen : Grip.see d'.state (.exclusive (some .created)) = .exclusive (some .created) := by
    rw [hstate .created rfl]
    rfl
  rw [hseen]
  refine Views.follows_ite (fun _ => rfl) fun htimer => ?_
  refine follows_idle ⟨exclusive_ne_stopping, fun _ => ?_⟩ (fun _ => rfl) fun thread => ?_
  · rw [← hd'.timer]
    exact Option.ne_none_iff_isSome.mp (by simpa using htimer)
  · refine follows_idle ⟨exclusive_ne_stopping, ?_⟩ (fun _ => rfl) fun _ => rfl
    exact ⟨fun _ => ⟨rfl, rfl, rfl⟩, fun _ => rfl, fun _ => UInt32.le_refl _, .inl rfl⟩

theorem winUHidStartDevice_unlocked {eventCallback : Option ℕ} {callbackContext : ℕ} :
    Unlocked d none (winUHidStartDevice true eventCallback callbackContext) := by
  unfold winUHidStartDevice perform
  simp only [Bool.not_true, Bool.false_eq_true, if_false, Prog.perform_bind]
  refine follows_call.mpr ⟨rfl, fun _ _ => follows_readDevice fun d₁ _ _ => ?_⟩
  refine Views.follows_ite (fun _ => ?_) fun hcreated => ?_
  · refine follows_call.mpr ⟨⟨rfl, exclusive_ne_stopping⟩, fun _ _ => ?_⟩
    exact follows_idle free_ne_stopping (fun _ => rfl) fun _ => rfl
  have hseen : Grip.see d₁.state (.exclusive none) = .exclusive (some .created) := by
    rw [not_not.mp hcreated]
    rfl
  have hdrop {p : Lib Bool} (hp : Unlocked d none p) :
      (locking d).Follows (fun _ v => v = ⟨.free, none⟩) (do perform .releaseExclusive; p)
        ⟨.exclusive (some .created), none⟩ :=
    follows_call.mpr ⟨⟨rfl, exclusive_ne_stopping⟩, fun _ _ => hp⟩
  change (locking d).Follows _ _ ⟨Grip.see d₁.state (.exclusive none), none⟩
  rw [hseen]
  refine Views.follows_bind startEventThread_follows ?_
  rintro ok _ rfl
  refine Views.follows_ite (fun _ => hdrop rfl) fun _ => ?_
  refine Views.follows_bind startReadThread_follows ?_
  rintro ok _ rfl
  refine Views.follows_ite (fun _ => hdrop ?_) fun _ => ?_
  · refine Views.follows_bind (joinThread_unlocked harmless_forget.1) ?_
    rintro _ _ rfl
    rfl
  refine follows_readDevice fun d₂ _ hstate => ?_
  rw [hstate .created rfl]
  refine Views.follows_bind (deviceIoControlInSync_follows exclusive_ne_stopping) ?_
  rintro ok _ rfl
  refine Views.follows_ite (fun _ => hdrop ?_) fun _ => ?_
  · refine Views.follows_bind (joinThread_unlocked harmless_forget.1) ?_
    rintro _ _ rfl
    refine Views.follows_bind (joinThread_unlocked harmless_forget.2) ?_
    rintro _ _ rfl
    rfl
  · refine follows_call.mpr ⟨rfl, fun _ _ => ?_⟩
    exact follows_call.mpr ⟨⟨rfl, exclusive_ne_stopping⟩, fun _ _ => rfl⟩

end

/-! ## Every interleaving -/

section
variable {d : Device} {vs : List View} {w w' : Shared} {rounds : ℕ}

theorem run_has {job : Job} (hboth : ∀ h, job = .thread h .read →
      d.throttlingTimer.isSome ∧ d.readReportReadyEvent.isSome) :
    (locking d).Has ⟨job, job.run rounds⟩ job.view := by
  have hfin {p : Lib Unit} (hp : Unlocked d none p) :
      (locking d).Follows (fun _ v => (locking d).fin v) p ⟨.free, none⟩ := by
    refine Views.follows_mono ?_ hp
    rintro _ _ rfl
    exact ⟨rfl, rfl⟩
  have hignore {α : Type} {p : Lib α} (hp : Unlocked d none p) : Unlocked d none (do let _ ← p) := by
    refine Views.follows_bind hp ?_
    rintro _ _ rfl
    rfl
  have hexit {h : Handle} {p : Lib Unit} (hp : Unlocked d (some h) p) :
      (locking d).Follows (fun _ v => (locking d).fin v) (do p; perform (.exitThread h)) ⟨.free, some h⟩ := by
    refine Views.follows_bind hp ?_
    rintro _ _ rfl
    exact follows_call.mpr ⟨⟨rfl, rfl⟩, fun _ _ => ⟨rfl, rfl⟩⟩
  refine ⟨.inr rfl, ?_⟩
  cases job with
  | start eventCallback callbackContext => exact hfin (hignore winUHidStartDevice_unlocked)
  | stop => exact hfin winUHidStopDevice_unlocked
  | submit report reportSize stack => exact hfin (hignore winUHidSubmitInputReport_unlocked)
  | poll millis =>
    refine hfin (Views.follows_bind winUHidPollEvent_unlocked ?_)
    rintro event _ rfl
    cases event with
    | none => rfl
    | some event => exact follows_idle rfl (fun _ => rfl) fun _ => rfl
  | completeWrite event success => exact hfin winUHidCompleteWriteEvent_unlocked
  | completeRead stack event data dataLength => exact hfin winUHidCompleteReadEvent_unlocked
  | thread h proc =>
    cases proc with
    | event => exact hexit eventThreadProc_unlocked
    | read => exact hexit (readThreadProc_unlocked (hboth h rfl))
  | completed event => exact ⟨rfl, rfl⟩

variable {pre post : List View} {v : View} {o : ThreadOutcome}

theorem LockInv.alone (h : LockInv d (pre ++ v :: post) w) (hv : v.grip.isExclusive = true) :
    w.writer = true ∧ w.readers = 0 ∧ ∀ u ∈ pre ++ post, u.grip = .free := by
  have hw := h.writer
  simp only [List.countP_append, List.countP_cons, hv, if_true] at hw
  have hwriter : w.writer = true := by
    cases hb : w.writer with
    | true => rfl
    | false =>
      rw [hb] at hw
      simp at hw
  have hreaders := h.apart hwriter
  rw [hwriter] at hw
  have hr := h.readers
  rw [hreaders] at hr
  simp only [List.countP_append, List.countP_cons] at hr
  refine ⟨hwriter, hreaders, fun u hu => ?_⟩
  have hx : (pre ++ post).countP (·.grip.isExclusive) = 0 := by
    rw [List.countP_append]
    simp at hw
    omega
  have hs : (pre ++ post).countP (·.grip.isShared) = 0 := by
    rw [List.countP_append]
    omega
  have hux := List.countP_eq_zero.mp hx u hu
  have hus := List.countP_eq_zero.mp hs u hu
  cases hg : u.grip with
  | free => rfl
  | shared seen => simp [hg, Grip.isShared] at hus
  | exclusive seen => simp [hg, Grip.isExclusive] at hux
  | stopping => simp [hg, Grip.isExclusive] at hux

theorem LockInv.regrip (grip : Grip) (h : LockInv d (pre ++ v :: post) w)
    (hreaders : w'.readers + v.grip.isShared.toNat = w.readers + grip.isShared.toNat)
    (hwriter : w'.writer.toNat + v.grip.isExclusive.toNat = w.writer.toNat + grip.isExclusive.toNat)
    (hapart : w'.writer = true → w'.readers = 0) (hseen : ∀ s, grip.seen = some s → w'.device.state = s)
    (hothers : w'.device.state = w.device.state ∨ ∀ u ∈ pre ++ post, u.grip = .free)
    (hcancelled : w'.device.state = .stopped → grip ≠ .stopping →
      (∀ u ∈ pre ++ post, u.grip ≠ .stopping) → ∀ h, w'.waiting h = false)
    (hobjects : SameObjects d w'.device) (hthreads : w'.alive = w.alive ∧ w'.created = w.created) :
    LockInv d (pre ++ ⟨grip, v.self⟩ :: post) w' := by
  have htoNat (b : Bool) : (if b = true then 1 else 0) = b.toNat := by cases b <;> rfl
  constructor
  · have hr := h.readers
    simp only [List.countP_append, List.countP_cons, htoNat] at hr ⊢
    omega
  · have hw := h.writer
    simp only [List.countP_append, List.countP_cons, htoNat] at hw ⊢
    omega
  · exact hapart
  · intro u hu s hs
    rcases mem_beside hu with rfl | hu
    · exact hseen s hs
    · rcases hothers with hsame | hfree
      · rw [hsame]
        exact h.seen u (mem_of_mem_beside hu) s hs
      · rw [hfree u hu] at hs
        cases hs
  · intro hstopped hnone
    exact hcancelled hstopped (hnone ⟨grip, v.self⟩ (by simp)) fun u hu => hnone u (mem_of_mem_beside hu)
  · exact hobjects
  · have ha := h.alive
    rw [hthreads.1, hthreads.2, ha]
    simp [List.filterMap_append, List.filterMap_cons]
  · rw [hthreads.2]
    exact h.created

/-- Nothing changed that the views speak of. -/
structure SameLock (w w' : Shared) : Prop where
  device : w'.device = w.device
  lock : w'.readers = w.readers ∧ w'.writer = w.writer
  waiting : ∀ h, w.waiting h = false → w'.waiting h = false
  threads : w'.alive = w.alive ∧ w'.created = w.created

theorem LockInv.same (h : LockInv d vs w) (hw : SameLock w w') : LockInv d vs w' := by
  obtain ⟨hdevice, ⟨hreaders, hwriter⟩, hwaiting, halive, hcreated⟩ := hw
  constructor
  · rw [hreaders, h.readers]
  · rw [hwriter, h.writer]
  · rw [hreaders, hwriter]
    exact h.apart
  · rw [hdevice]
    exact h.seen
  · intro hstopped hnone op
    rw [hdevice] at hstopped
    exact hwaiting op (h.cancelled hstopped hnone op)
  · rw [hdevice]
    exact h.objects
  · rw [halive, hcreated]
    exact h.alive
  · rw [hcreated]
    exact h.created

/-- The calls that neither the lock nor the state of the device depends on. -/
def Call.idle : Call → Bool
  | .acquireShared => false
  | .releaseShared => false
  | .acquireExclusive => false
  | .releaseExclusive => false
  | .readDevice => false
  | .modifyDevice _ => false
  | .setState _ => false
  | .getNextEvent .. => false
  | .cancelIo _ none => false
  | .createThread _ => false
  | .exitThread _ => false
  | _ => true

theorem after_idle {c : Call} (hc : c.idle = true) (r : c.Resp) : v.after c r = v := by
  cases c with
  | cancelIo file event =>
    cases event with
    | none => cases hc
    | some h => rfl
  | acquireShared | releaseShared | acquireExclusive | releaseExclusive | readDevice | setState
  | exitThread => cases hc
  | _ => rfl

theorem after_self (v : View) (c : Call) (r : c.Resp) :
    (v.after c r).self = none ∨ (v.after c r).self = v.self := by
  cases c with
  | setState state => cases state <;> exact .inr rfl
  | cancelIo file event => cases event <;> exact .inr rfl
  | exitThread h => exact .inl rfl
  | _ => exact .inr rfl

theorem sameLock_of {pending : Option Event} {ready timer : Bool} {handles : Multiset Handle}
    {heap : Multiset Block} {ops : Multiset (Handle × Block)} {given : Multiset Event}
    (hw : w' = ⟨w.device, w.readers, w.writer, pending, ready, timer, handles, heap, ops, w.waiting, w.created,
      w.alive, given⟩) : SameLock w w' := by
  subst hw
  exact ⟨rfl, ⟨rfl, rfl⟩, fun _ hw => hw, ⟨rfl, rfl⟩⟩

theorem wait_same {h : Handle} {millis : UInt32} {b : Bool} (he : w.wait h millis = some (b, w')) :
    SameLock w w' := by
  obtain ⟨ready, timer, rfl⟩ := Shared.wait_eq he
  exact sameLock_of rfl

theorem newHandle_same {h h' : Option Handle} (he : w.newHandle h = some (h', w')) : SameLock w w' := by
  rcases Shared.newHandle_cases he with ⟨-, rfl⟩ | ⟨x, -, rfl⟩ <;> exact sameLock_of rfl

theorem newBlock_same {b b' : Option Block} (he : w.newBlock b = some (b', w')) : SameLock w w' := by
  rcases Shared.newBlock_cases he with ⟨-, rfl⟩ | ⟨x, -, -, rfl⟩ <;> exact sameLock_of rfl

theorem overlappedResult_same {event : Handle} {block : Block} {millis : UInt32} {r r' : IoResult}
    (he : w.overlappedResult event block millis r = some (r', w')) : SameLock w w' := by
  unfold Shared.overlappedResult Shared.endOp at he
  split_ifs at he
  · cases he
    exact sameLock_of rfl
  · cases r with
    | done e =>
      simp only at he
      split_ifs at he
      cases he
      exact sameLock_of rfl
    | tooSmall | failed =>
      cases he
      exact sameLock_of rfl
    | pending | timeout => cases he
  · cases he
    exact sameLock_of rfl

theorem SameLock.trans {u : Shared} (h : SameLock w w') (h' : SameLock w' u) : SameLock w u :=
  ⟨h'.device.trans h.device, ⟨h'.lock.1.trans h.lock.1, h'.lock.2.trans h.lock.2⟩,
    fun op hw => h'.waiting op (h.waiting op hw),
    ⟨h'.threads.1.trans h.threads.1, h'.threads.2.trans h.threads.2⟩⟩

theorem exec_idle {c : Call} {r : c.Resp} (hc : c.idle = true) (he : Shared.exec c o w = some (r, w')) :
    SameLock w w' := by
  cases c with
  | createEvent =>
    simp only [Shared.exec, Option.bind_eq_some_iff] at he
    obtain ⟨h, -, he⟩ := he
    exact newHandle_same he
  | heapAlloc size =>
    simp only [Shared.exec, Option.bind_eq_some_iff] at he
    obtain ⟨b, -, he⟩ := he
    exact newBlock_same he
  | heapReAlloc b size =>
    simp only [Shared.exec, Option.bind_eq_some_iff] at he
    obtain ⟨b', -, he⟩ := he
    cases b' with
    | none =>
      cases he
      exact sameLock_of rfl
    | some b' =>
      have hfreed : SameLock w { w with heap := w.heap.erase b } := sameLock_of rfl
      exact hfreed.trans (newBlock_same he)
  | waitForSingleObject h millis => exact wait_same (Shared.exec_waitForSingleObject he)
  | getOverlappedResult file event block millis =>
    simp only [Shared.exec, Option.bind_eq_some_iff] at he
    obtain ⟨x, -, he⟩ := he
    exact overlappedResult_same he
  | cancelIo file event =>
    cases event with
    | none => cases hc
    | some h =>
      rw [Shared.exec_cancelIo he]
      split_ifs
      · refine ⟨rfl, ⟨rfl, rfl⟩, fun op hw => ?_, ⟨rfl, rfl⟩⟩
        simp only [Shared.cancel, Function.update_apply]
        split_ifs
        · rfl
        · exact hw
      · exact sameLock_of rfl
  | acquireShared | releaseShared | acquireExclusive | releaseExclusive | readDevice | modifyDevice
  | setState | getNextEvent | createThread | exitThread => cases hc
  | createWaitableTimer | createFile | allocDevice | freeDevice | accessViolation | forever => cases he
  | _ =>
    simp only [Shared.exec, Option.map_eq_some_iff, Prod.mk.injEq] at he
    obtain ⟨-, -, -, rfl⟩ := he
    exact sameLock_of rfl

theorem LockInv.settled (h : LockInv d (pre ++ v :: post) w) (hv : v.grip ≠ .stopping)
    (hstopped : w.device.state = .stopped) (hnone : ∀ u ∈ pre ++ post, u.grip ≠ .stopping) :
    ∀ op, w.waiting op = false := by
  refine h.cancelled hstopped fun u hu => ?_
  rcases mem_beside hu with rfl | hu
  · exact hv
  · exact hnone u hu

theorem see_isShared (g : Grip) (s : DeviceState) : (g.see s).isShared = g.isShared := by cases g <;> rfl

theorem see_isExclusive (g : Grip) (s : DeviceState) : (g.see s).isExclusive = g.isExclusive := by
  cases g <;> rfl

theorem see_ne_stopping {g : Grip} {s : DeviceState} : g.see s ≠ .stopping ↔ g ≠ .stopping := by
  cases g <;> simp [Grip.see]

theorem LockInv.acquireShared (h : LockInv d (pre ++ v :: post) w) (hgrip : v.grip = .free)
    (hwriter : w.writer = false) :
    LockInv d (pre ++ ⟨.shared none, v.self⟩ :: post) { w with readers := w.readers + 1 } := by
  refine h.regrip (.shared none) ?_ ?_ ?_ nofun (.inl rfl) (fun hs _ => h.settled ?_ hs) h.objects ⟨rfl, rfl⟩
  · simp [hgrip, Grip.isShared]
  · simp [hgrip, Grip.isExclusive]
  · intro hw
    rw [hwriter] at hw
    cases hw
  · rw [hgrip]
    exact free_ne_stopping

theorem LockInv.acquireExclusive (h : LockInv d (pre ++ v :: post) w) (hgrip : v.grip = .free)
    (hwriter : w.writer = false) (hreaders : w.readers = 0) :
    LockInv d (pre ++ ⟨.exclusive none, v.self⟩ :: post) { w with writer := true } := by
  refine h.regrip (.exclusive none) ?_ ?_ (fun _ => hreaders) nofun (.inl rfl) (fun hs _ => h.settled ?_ hs)
    h.objects ⟨rfl, rfl⟩
  · simp [hgrip, Grip.isShared]
  · simp [hgrip, hwriter, Grip.isExclusive]
  · rw [hgrip]
    exact free_ne_stopping

theorem LockInv.releaseShared (h : LockInv d (pre ++ v :: post) w) (hgrip : v.grip.isShared = true) :
    LockInv d (pre ++ ⟨.free, v.self⟩ :: post) { w with readers := w.readers - 1 } := by
  have hr := h.readers
  simp only [List.countP_append, List.countP_cons, hgrip, if_true] at hr
  refine h.regrip .free ?_ ?_ (fun hw => ?_) nofun (.inl rfl) (fun hs _ => h.settled ?_ hs) h.objects ⟨rfl, rfl⟩
  · rw [hgrip]
    change w.readers - 1 + 1 = w.readers
    omega
  · cases hg : v.grip <;> simp [hg, Grip.isShared, Grip.isExclusive] at hgrip ⊢
  · have hzero := h.apart hw
    simp only
    omega
  · intro hg
    rw [hg] at hgrip
    cases hgrip

theorem LockInv.releaseExclusive (h : LockInv d (pre ++ v :: post) w) (hgrip : v.grip.isExclusive = true)
    (hsettled : v.grip ≠ .stopping) :
    LockInv d (pre ++ ⟨.free, v.self⟩ :: post) { w with writer := false } := by
  obtain ⟨hwriter, -, -⟩ := h.alone hgrip
  refine h.regrip .free ?_ ?_ nofun nofun (.inl rfl) (fun hs _ => h.settled hsettled hs) h.objects ⟨rfl, rfl⟩
  · cases hg : v.grip <;> simp [hg, Grip.isShared, Grip.isExclusive] at hgrip ⊢
  · rw [hgrip, hwriter]
    rfl

theorem LockInv.readDevice (h : LockInv d (pre ++ v :: post) w) :
    LockInv d (pre ++ ⟨v.grip.see w.device.state, v.self⟩ :: post) w := by
  refine h.regrip _ ?_ ?_ h.apart (fun s hs => ?_) (.inl rfl) (fun hs hg => h.settled (see_ne_stopping.mp hg) hs)
    h.objects ⟨rfl, rfl⟩
  · rw [see_isShared]
  · rw [see_isExclusive]
  · cases hg : v.grip with
    | free => simp [hg, Grip.see, Grip.seen] at hs
    | shared seen => simpa [hg, Grip.see, Grip.seen] using hs
    | exclusive seen => simpa [hg, Grip.see, Grip.seen] using hs
    | stopping =>
      rw [hg] at hs
      exact h.seen v (by simp) s (by rw [hg]; exact hs)

theorem LockInv.modifyDevice {f : Device → Device} (h : LockInv d (pre ++ v :: post) w)
    (hgrip : v.grip ≠ .stopping) (hf : Harmless v.grip f) :
    LockInv d (pre ++ v :: post) { w with device := f w.device } := by
  have hobjects := hf.objects w.device
  refine h.regrip v.grip rfl rfl h.apart (fun s hs => ?_) (.inl (hf.state _)) (fun hs _ => ?_) ?_ ⟨rfl, rfl⟩
  · simp only [hf.state]
    exact h.seen v (by simp) s hs
  · simp only [hf.state] at hs
    exact h.settled hgrip hs
  · exact ⟨hobjects.handle.trans h.objects.handle, hobjects.timer.trans h.objects.timer,
      hobjects.ready.trans h.objects.ready⟩

theorem LockInv.setState {grip : Grip} {state : DeviceState} (h : LockInv d (pre ++ v :: post) w)
    (hgrip : v.grip.isExclusive = true) (hnew : grip.isExclusive = true) (hseen : grip.seen = some state)
    (hstopped : state = .stopped → grip = .stopping) :
    LockInv d (pre ++ ⟨grip, v.self⟩ :: post) { w with device := { w.device with state := state } } := by
  obtain ⟨hwriter, hreaders, hfree⟩ := h.alone hgrip
  refine h.regrip grip ?_ ?_ h.apart (fun s hs => ?_) (.inr hfree) (fun hs hg => absurd (hstopped hs) hg) ?_
    ⟨rfl, rfl⟩
  · have hshared {g : Grip} (hg : g.isExclusive = true) : g.isShared = false := by
      cases g <;> simp [Grip.isShared, Grip.isExclusive] at hg ⊢
    rw [hshared hgrip, hshared hnew]
  · rw [hgrip, hnew]
  · rw [hseen] at hs
    exact Option.some.inj hs
  · exact ⟨h.objects.handle, h.objects.timer, h.objects.ready⟩

theorem LockInv.cancelAll (h : LockInv d (pre ++ v :: post) w) (hgrip : v.grip = .stopping) :
    LockInv d (pre ++ ⟨.exclusive (some .stopped), v.self⟩ :: post) { w with waiting := fun _ => false } := by
  have hstate : w.device.state = .stopped := h.seen v (by simp) .stopped (by rw [hgrip]; rfl)
  refine h.regrip _ ?_ ?_ h.apart (fun s hs => ?_) (.inl rfl) (fun _ _ _ _ => rfl) h.objects ⟨rfl, rfl⟩
  · rw [hgrip]
    rfl
  · rw [hgrip]
    rfl
  · rw [← Option.some.inj hs]
    exact hstate

/-- A request for an event is only made of a device that is started. -/
theorem LockInv.beginOp {heap : Multiset Block} {ops : Multiset (Handle × Block)} {waiting : Handle → Bool}
    (h : LockInv d (pre ++ v :: post) w) (hgrip : v.grip = .shared (some .started)) :
    LockInv d (pre ++ v :: post) { w with heap := heap, ops := ops, waiting := waiting } := by
  have hstate : w.device.state = .started := h.seen v (by simp) .started (by rw [hgrip]; rfl)
  refine h.regrip v.grip rfl rfl h.apart (h.seen v (by simp)) (.inl rfl) (fun hs => ?_) h.objects ⟨rfl, rfl⟩
  simp only [hstate] at hs
  cases hs

theorem LockInv.createThread {h' : Handle} {proc : ThreadProc} {handles : Multiset Handle}
    (h : LockInv d vs w) (hproc : proc = .read → d.throttlingTimer.isSome) :
    LockInv d vs { w with
      handles := handles
      created := (h', proc) ::ₘ w.created
      alive := h' ::ₘ w.alive } := by
  refine ⟨h.readers, h.writer, h.apart, h.seen, h.cancelled, h.objects, ?_, fun x hx => ?_⟩
  · simp [h.alive]
  · rcases Multiset.mem_cons.mp hx with rfl | hx
    · exact hproc
    · exact h.created x hx

theorem LockInv.exitThread {h' : Handle} (h : LockInv d (pre ++ v :: post) w) (hself : v.self = some h') :
    LockInv d (pre ++ ⟨v.grip, none⟩ :: post) { w with alive := w.alive.erase h' } := by
  have hmem (u : View) (hu : u ∈ pre ++ ⟨v.grip, none⟩ :: post) :
      ∃ u' ∈ pre ++ v :: post, u'.grip = u.grip := by
    rcases mem_beside hu with rfl | hu
    · exact ⟨v, by simp, rfl⟩
    · exact ⟨u, mem_of_mem_beside hu, rfl⟩
  constructor
  · have hr := h.readers
    simpa only [List.countP_append, List.countP_cons] using hr
  · have hw := h.writer
    simpa only [List.countP_append, List.countP_cons] using hw
  · exact h.apart
  · intro u hu s hs
    obtain ⟨u', hu', hgrip⟩ := hmem u hu
    exact h.seen u' hu' s (by rw [hgrip]; exact hs)
  · intro hstopped hnone
    refine h.cancelled hstopped fun u hu => ?_
    rcases mem_beside hu with rfl | hu
    · exact hnone ⟨u.grip, none⟩ (by simp)
    · exact hnone u (mem_of_mem_beside hu)
  · exact h.objects
  · have ha := h.alive
    simp only [List.filterMap_append, List.filterMap_cons, hself] at ha ⊢
    have hperm : (Multiset.ofList (pre.filterMap View.self ++ h' :: post.filterMap View.self)) =
        h' ::ₘ Multiset.ofList (pre.filterMap View.self ++ post.filterMap View.self) :=
      Multiset.coe_eq_coe.mpr List.perm_middle
    rw [ha, hperm, Multiset.cons_add, Multiset.erase_cons_head]
  · exact h.created

theorem lock_call {c : Call} {r : c.Resp} (h : LockInv d (pre ++ v :: post) w) (hmay : v.may d c)
    (he : Shared.exec c o w = some (r, w')) :
    v.fact d c r ∧ LockInv d (pre ++ v.after c r :: post) w' := by
  cases hidle : c.idle with
  | true =>
    rw [after_idle hidle]
    refine ⟨?_, h.same (exec_idle hidle he)⟩
    cases c with
    | readDevice => cases hidle
    | _ => trivial
  | false =>
    cases c with
    | acquireShared =>
      obtain ⟨hwriter, rfl⟩ := Shared.exec_acquireShared he
      exact ⟨trivial, h.acquireShared hmay hwriter⟩
    | acquireExclusive =>
      obtain ⟨hwriter, hreaders, rfl⟩ := Shared.exec_acquireExclusive he
      exact ⟨trivial, h.acquireExclusive hmay hwriter hreaders⟩
    | releaseShared =>
      simp only [Shared.exec, Option.map_eq_some_iff, Prod.mk.injEq] at he
      obtain ⟨-, -, -, rfl⟩ := he
      exact ⟨trivial, h.releaseShared hmay⟩
    | releaseExclusive =>
      simp only [Shared.exec, Option.map_eq_some_iff, Prod.mk.injEq] at he
      obtain ⟨-, -, -, rfl⟩ := he
      exact ⟨trivial, h.releaseExclusive hmay.1 hmay.2⟩
    | readDevice =>
      simp only [Shared.exec, Option.map_eq_some_iff, Prod.mk.injEq] at he
      obtain ⟨-, -, rfl, rfl⟩ := he
      exact ⟨⟨h.objects, fun s hs => h.seen v (by simp) s hs⟩, h.readDevice⟩
    | modifyDevice f =>
      simp only [Shared.exec, Option.map_eq_some_iff, Prod.mk.injEq] at he
      obtain ⟨-, -, -, rfl⟩ := he
      exact ⟨trivial, h.modifyDevice hmay.1 hmay.2⟩
    | setState state =>
      simp only [Shared.exec, Option.map_eq_some_iff, Prod.mk.injEq] at he
      obtain ⟨-, -, -, rfl⟩ := he
      refine ⟨trivial, ?_⟩
      cases state with
      | created => exact hmay.elim
      | started =>
        have hgrip : v.grip = .exclusive (some .created) := hmay
        exact h.setState (by rw [hgrip]; rfl) rfl rfl fun hs => by cases hs
      | stopped =>
        have hgrip : v.grip = .exclusive (some .started) := hmay
        exact h.setState (by rw [hgrip]; rfl) rfl rfl fun _ => rfl
    | getNextEvent file event block size =>
      obtain ⟨x, he⟩ := Shared.exec_getNextEvent he
      obtain ⟨heap, ops, waiting, rfl⟩ := Shared.beginOp_eq he
      exact ⟨trivial, h.beginOp hmay.1⟩
    | cancelIo file event =>
      cases event with
      | some op => cases hidle
      | none =>
        obtain ⟨hgrip, hfile⟩ := hmay
        rw [Shared.exec_cancelIo he, if_pos (by rw [hfile, h.objects.handle])]
        exact ⟨trivial, h.cancelAll hgrip⟩
    | createThread proc =>
      refine ⟨trivial, ?_⟩
      rcases Shared.exec_createThread he with ⟨-, rfl⟩ | ⟨x, -, -, rfl⟩
      · exact h
      · exact h.createThread hmay.2
    | exitThread x =>
      simp only [Shared.exec, Option.map_eq_some_iff, Prod.mk.injEq] at he
      obtain ⟨-, -, -, rfl⟩ := he
      exact ⟨trivial, h.exitThread hmay.2⟩
    | _ => cases hidle

theorem LockInv.begin (h : LockInv d vs w) : LockInv d (vs ++ [⟨.free, none⟩]) w := by
  have hmem (u : View) (hu : u ∈ vs ++ [⟨.free, none⟩]) : u ∈ vs ∨ u.grip = .free := by
    rcases List.mem_append.mp hu with hu | hu
    · exact .inl hu
    · rw [List.mem_singleton.mp hu]
      exact .inr rfl
  constructor
  · have hr := h.readers
    simpa [List.countP_append, Grip.isShared] using hr
  · have hw := h.writer
    simpa [List.countP_append, Grip.isExclusive] using hw
  · exact h.apart
  · intro u hu s hs
    rcases hmem u hu with hu | hfree
    · exact h.seen u hu s hs
    · rw [hfree] at hs
      cases hs
  · intro hstopped hnone
    exact h.cancelled hstopped fun u hu => hnone u (List.mem_append_left _ hu)
  · exact h.objects
  · simpa using h.alive
  · exact h.created

theorem LockInv.beginThread {x : Handle × ThreadProc} (h : LockInv d vs w) (hx : x ∈ w.created) :
    LockInv d (vs ++ [⟨.free, some x.1⟩]) { w with created := w.created.erase x } := by
  have hbegin : LockInv d (vs ++ [⟨.free, none⟩]) w := h.begin
  constructor
  · have hr := hbegin.readers
    simpa [List.countP_append] using hr
  · have hw := hbegin.writer
    simpa [List.countP_append] using hw
  · exact h.apart
  · intro u hu s hs
    rcases List.mem_append.mp hu with hu | hu
    · exact h.seen u hu s hs
    · rw [List.mem_singleton.mp hu] at hs
      cases hs
  · intro hstopped hnone
    exact h.cancelled hstopped fun u hu => hnone u (List.mem_append_left _ hu)
  · exact h.objects
  · have halive := h.alive
    rw [← Multiset.cons_erase hx, Multiset.map_cons] at halive
    rw [halive, List.filterMap_append, ← Multiset.coe_add]
    simp only [List.filterMap_cons, List.filterMap_nil, Multiset.coe_singleton]
    rw [add_assoc, Multiset.singleton_add]
  · intro y hy
    exact h.created y (Multiset.mem_of_mem_erase hy)

theorem lock_arrive {job : Job} (h : LockInv d vs w) (hb : job.begin w = some w') :
    LockInv d (vs ++ [job.view]) w' ∧ ∀ x, job = .thread x .read → d.throttlingTimer.isSome := by
  cases job with
  | start | stop | submit | poll =>
    cases hb
    exact ⟨h.begin, nofun⟩
  | completeWrite | completeRead =>
    simp only [Job.begin, Option.ite_none_right_eq_some, Option.some.injEq] at hb
    obtain ⟨-, rfl⟩ := hb
    exact ⟨(h.same (sameLock_of rfl)).begin, nofun⟩
  | thread x proc =>
    simp only [Job.begin, Option.ite_none_right_eq_some, Option.some.injEq] at hb
    obtain ⟨hx, rfl⟩ := hb
    refine ⟨h.beginThread hx, fun y hy => ?_⟩
    cases hy
    exact h.created _ hx rfl
  | completed event =>
    simp only [Job.begin, Option.ite_none_right_eq_some, Option.some.injEq] at hb
    obtain ⟨-, rfl⟩ := hb
    have hsame : SameLock w { w with waiting := Function.update w.waiting event false } := by
      refine ⟨rfl, ⟨rfl, rfl⟩, fun op hw => ?_, ⟨rfl, rfl⟩⟩
      simp only [Function.update_apply]
      split_ifs
      · rfl
      · exact hw
    exact ⟨(h.same hsame).begin, nofun⟩

theorem lockInv_init : LockInv d [] (Shared.init d) := by
  refine ⟨rfl, rfl, fun _ => rfl, nofun, fun _ _ _ => rfl, ⟨rfl, rfl, rfl⟩, rfl, nofun⟩

theorem Reachable.views {P : ThreadPool} (hd : JustCreated d) (h : Reachable rounds d P) :
    ∃ vs, (locking d).Agree P vs := by
  refine Reach.views h lockInv_init (fun job vs w w' hinv hb => ?_) ?_
  · obtain ⟨hinv', htimer⟩ := lock_arrive hinv hb
    exact ⟨job.view, run_has fun x hx => ⟨htimer x hx, hd.throttled ▸ htimer x hx⟩, hinv'⟩
  · intro job pre v post w c o r w' hof hinv hmay he
    obtain ⟨hfact, hinv'⟩ := lock_call hinv hmay he
    refine ⟨v.after c r, ⟨hfact, rfl⟩, ?_, hinv'⟩
    rcases after_self v c r with hself | hself
    · exact .inl hself
    · exact hof.imp (fun hnone => hself.trans hnone) fun hself' => hself.trans hself'

variable {P P' : ThreadPool} {t : Thread Job Call Call.Resp} {c : Call}

theorem agree_may {vs : List View} (h : (locking d).Agree P vs) (ht : t ∈ P.threads)
    (hc : t.prog.next? = some c) : ∃ v ∈ vs, v.may d c := by
  obtain ⟨v, hv, hhas⟩ := h.view ht
  have hfollows := hhas.follows
  cases hp : t.prog with
  | ret a =>
    rw [hp] at hc
    cases hc
  | call c' k =>
    rw [hp] at hc hfollows
    cases hc
    exact ⟨v, hv, hfollows.1⟩

/-- An event is only requested from a device that is started, and nobody changes it meanwhile. -/
theorem event_requests_only_started {file : Option Handle} {event : Handle} {block : Block} {size : UInt32}
    (hd : JustCreated d) (h : Reachable rounds d P) (ht : t ∈ P.threads)
    (hc : t.prog.next? = some (.getNextEvent file event block size)) :
    P.world.device.state = .started ∧ file = P.world.device.handle ∧ P.world.writer = false := by
  obtain ⟨vs, hagree⟩ := h.views hd
  obtain ⟨v, hv, hgrip, hfile⟩ := agree_may hagree ht hc
  have hinv : LockInv d vs P.world := hagree.inv
  refine ⟨hinv.seen v hv .started (by rw [hgrip]; rfl), by rw [hfile, hinv.objects.handle], ?_⟩
  have hpos : 0 < vs.countP (·.grip.isShared) := List.countP_pos_iff.mpr ⟨v, hv, by rw [hgrip]; rfl⟩
  rw [← hinv.readers] at hpos
  cases hw : P.world.writer with
  | false => rfl
  | true =>
    rw [hinv.apart hw] at hpos
    cases hpos

/-- Once the device is stopped and the lock is given back, no operation of it waits for an event. -/
theorem stopped_cancels_all (hd : JustCreated d) (h : Reachable rounds d P)
    (hstopped : P.world.device.state = .stopped) (hunlocked : P.world.writer = false) (op : Handle) :
    P.world.waiting op = false := by
  obtain ⟨vs, hagree⟩ := h.views hd
  have hinv : LockInv d vs P.world := hagree.inv
  refine hinv.cancelled hstopped (fun v hv hgrip => ?_) op
  have hwriter := hinv.writer
  rw [hunlocked] at hwriter
  have hnot := List.countP_eq_zero.mp hwriter v hv
  rw [hgrip] at hnot
  exact hnot rfl

/-- The event thread waits before `WinUHidStopDevice`, and not after it. -/
theorem stopped_cancels_all_polling :
    polling.world.waiting 9 = true ∧ stopCalled.world.waiting 9 = false :=
  ⟨by decide +kernel, stopped_cancels_all ⟨rfl, rfl, rfl⟩ stopCalled_reachable (by decide +kernel)
    (by decide +kernel) 9⟩

/-! ## What becomes of a device -/

def DeviceState.rank : DeviceState → ℕ
  | .created => 0
  | .started => 1
  | .stopped => 2

/-- From created to started to stopped. The objects stay, and the size hint does not shrink. -/
structure Advances (d d' : Device) : Prop where
  objects : SameObjects d d'
  state : d.state.rank ≤ d'.state.rank
  hint : d.eventBufferSizeHint ≤ d'.eventBufferSizeHint

theorem Advances.refl (d : Device) : Advances d d := ⟨⟨rfl, rfl, rfl⟩, le_rfl, UInt32.le_refl _⟩

theorem Advances.trans {d d' d'' : Device} (h : Advances d d') (h' : Advances d' d'') : Advances d d'' :=
  ⟨⟨h'.objects.handle.trans h.objects.handle, h'.objects.timer.trans h.objects.timer,
    h'.objects.ready.trans h.objects.ready⟩, h.state.trans h'.state, UInt32.le_trans h.hint h'.hint⟩

theorem exec_device {o : ThreadOutcome} {r : c.Resp} (he : Shared.exec c o w = some (r, w')) :
    w'.device = w.device ∨ (∃ f, c = .modifyDevice f ∧ w'.device = f w.device) ∨
      ∃ state, c = .setState state ∧ w'.device = { w.device with state := state } := by
  cases hidle : c.idle with
  | true => exact .inl (exec_idle hidle he).device
  | false =>
    cases c with
    | modifyDevice f =>
      simp only [Shared.exec, Option.map_eq_some_iff, Prod.mk.injEq] at he
      obtain ⟨-, -, -, rfl⟩ := he
      exact .inr (.inl ⟨f, rfl, rfl⟩)
    | setState state =>
      simp only [Shared.exec, Option.map_eq_some_iff, Prod.mk.injEq] at he
      obtain ⟨-, -, -, rfl⟩ := he
      exact .inr (.inr ⟨state, rfl, rfl⟩)
    | acquireShared =>
      obtain ⟨-, rfl⟩ := Shared.exec_acquireShared he
      exact .inl rfl
    | acquireExclusive =>
      obtain ⟨-, -, rfl⟩ := Shared.exec_acquireExclusive he
      exact .inl rfl
    | releaseShared | releaseExclusive | readDevice | exitThread =>
      simp only [Shared.exec, Option.map_eq_some_iff, Prod.mk.injEq] at he
      obtain ⟨-, -, -, rfl⟩ := he
      exact .inl rfl
    | getNextEvent =>
      obtain ⟨x, he⟩ := Shared.exec_getNextEvent he
      obtain ⟨heap, ops, waiting, rfl⟩ := Shared.beginOp_eq he
      exact .inl rfl
    | cancelIo file event =>
      obtain ⟨waiting, rfl⟩ := Shared.exec_cancelIo_eq he
      exact .inl rfl
    | createThread proc =>
      rcases Shared.exec_createThread he with ⟨-, rfl⟩ | ⟨x, -, -, rfl⟩ <;> exact .inl rfl
    | _ => cases hidle

/-- The state and the size hint change in the hands of the thread with the lock. -/
theorem call_advances {pre post : List View} {v : View} {o : ThreadOutcome} {r : c.Resp}
    (h : LockInv d (pre ++ v :: post) w) (hmay : v.may d c) (he : Shared.exec c o w = some (r, w')) :
    Advances w.device w'.device ∧ (w.writer = true ∨ w'.device.state = w.device.state ∧
      w'.device.eventBufferSizeHint = w.device.eventBufferSizeHint) := by
  rcases exec_device he with hsame | ⟨f, rfl, hf⟩ | ⟨state, rfl, hstate⟩
  · rw [hsame]
    exact ⟨.refl _, .inr ⟨rfl, rfl⟩⟩
  · obtain ⟨hgrip, hharmless⟩ := hmay
    rw [hf]
    refine ⟨⟨hharmless.objects _, le_of_eq ?_, hharmless.hint _⟩, ?_⟩
    · rw [hharmless.state]
    · rcases hharmless.locked with hlocked | hsame
      · exact .inl (h.alone hlocked).1
      · exact .inr ⟨hharmless.state _, hsame _⟩
  · have hbefore {s : DeviceState} (hgrip : v.grip = .exclusive (some s)) :
        w.writer = true ∧ w.device.state = s :=
      ⟨(h.alone (by rw [hgrip]; rfl)).1, h.seen v (by simp) s (by rw [hgrip]; rfl)⟩
    rw [hstate]
    cases state with
    | created => exact hmay.elim
    | started =>
      obtain ⟨hwriter, hcreated⟩ := hbefore hmay
      refine ⟨⟨⟨rfl, rfl, rfl⟩, ?_, UInt32.le_refl _⟩, .inl hwriter⟩
      rw [hcreated]
      exact Nat.le_succ 0
    | stopped =>
      obtain ⟨hwriter, hstarted⟩ := hbefore hmay
      refine ⟨⟨⟨rfl, rfl, rfl⟩, ?_, UInt32.le_refl _⟩, .inl hwriter⟩
      rw [hstarted]
      exact Nat.le_succ 1

theorem begin_device {job : Job} (hb : job.begin w = some w') : w'.device = w.device := by
  cases job with
  | start | stop | submit | poll =>
    cases hb
    rfl
  | completeWrite | completeRead | thread | completed =>
    simp only [Job.begin, Option.ite_none_right_eq_some, Option.some.injEq] at hb
    obtain ⟨-, rfl⟩ := hb
    rfl

theorem move_advances {m : Move Job ThreadOutcome} (hd : JustCreated d) (h : Reachable rounds d P)
    (hm : P.move (threads rounds) m = some P') :
    Advances P.world.device P'.world.device ∧ (P.world.writer = true ∨
      P'.world.device.state = P.world.device.state ∧
      P'.world.device.eventBufferSizeHint = P.world.device.eventBufferSizeHint) := by
  obtain ⟨vs, hagree⟩ := h.views hd
  rcases Pool.move_cases hm with ⟨job, w, rfl, hb, rfl⟩ |
    ⟨pre, job, c, k, post, o, r, w, rfl, ht, he, rfl⟩
  · have hsame : w.device = P.world.device := begin_device hb
    refine ⟨?_, .inr ⟨?_, ?_⟩⟩ <;> rw [hsame]
    exact .refl _
  · have hhas := hagree.has
    have hinv : LockInv d vs P.world := hagree.inv
    rw [ht] at hhas
    obtain ⟨vpre, v, vpost, rfl, -, hv, -⟩ := forall₂_append_cons hhas
    exact call_advances hinv hv.follows.1 he

theorem run_advances (hd : JustCreated d) (h : Reachable rounds d P)
    (h' : Runs rounds P P') : Advances P.world.device P'.world.device := by
  induction h' with
  | init => exact .refl _
  | move hrun _ hm ih => exact ih.trans (move_advances hd (h.trans hrun) hm).1

/-- Whatever the threads do, a device only advances, and its state and its size hint only change while the
lock is held exclusively. -/
theorem device_advances (hd : JustCreated d) (h : Reachable rounds d P)
    (h' : Runs rounds P P') :
    Advances P.world.device P'.world.device ∧
      ∀ m P'', P'.move (threads rounds) m = some P'' → P'.world.writer = true ∨
        P''.world.device.state = P'.world.device.state ∧
        P''.world.device.eventBufferSizeHint = P'.world.device.eventBufferSizeHint :=
  ⟨run_advances hd h h', fun _ _ hm => (move_advances hd (h.trans h') hm).2⟩

/-- While the event thread polls, the device is stopped. -/
theorem device_advances_stopped : Advances polling.world.device stopCalled.world.device :=
  (device_advances ⟨rfl, rfl, rfl⟩ polling_reachable stopCalled_runs).1

/-- After a device was stopped no event is requested from it. -/
theorem no_request_after_stop {file : Option Handle} {event : Handle} {block : Block} {size : UInt32}
    (hd : JustCreated d) (h : Reachable rounds d P) (hstopped : P.world.device.state = .stopped)
    (h' : Runs rounds P P') (ht : t ∈ P'.threads) :
    t.prog.next? ≠ some (.getNextEvent file event block size) := by
  intro hc
  have hstarted := (event_requests_only_started hd (h.trans h') ht hc).1
  have hstate := (run_advances hd h h').state
  rw [hstarted, hstopped] at hstate
  exact absurd hstate (by decide)

/-- Handles and blocks that nobody has. -/
def polls : Call → ThreadOutcome
  | .createEvent _ => .handle 13
  | .heapAlloc _ => .block 3
  | c => proceeds c

/-- A client polls the stopped device, as far as to what the state check says. -/
def refusedPoll : ThreadPool := drive 2 polls 3 6 (begin 2 (.poll 0) stopCalled)

def saysBadCommand : Call → Bool
  | .setLastError code => code == Error.badCommand
  | _ => false

theorem no_request_after_stop_poll :
    (refusedPoll.nextCall 3).any saysBadCommand = true ∧ ∀ P', Runs 2 refusedPoll P' →
      ∀ t ∈ P'.threads, t.prog.next? ≠ some (.getNextEvent (some 1) 13 3 128) := by
  have hpoll : Runs 2 stopCalled refusedPoll :=
    (show Runs 2 stopCalled stopCalled from Reach.init).begin.drive
  refine ⟨by decide +kernel, fun P' hP' t ht => ?_⟩
  exact no_request_after_stop ⟨rfl, rfl, rfl⟩ stopCalled_reachable (by decide +kernel) (hpoll.trans hP') ht

end

end VirtualGun.WinUHid
