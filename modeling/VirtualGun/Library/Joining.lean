import VirtualGun.Library.Locking

/-!
# Who waits for the threads of the library

`WinUHidStartDevice` creates the event thread and the read thread. If it fails it waits for those that it
created, and otherwise `WinUHidStopDevice` does. As long as one call of `WinUHidStartDevice` follows the
other, none of the threads is forgotten.
-/

open VirtualGun.Program

namespace VirtualGun.WinUHid

/-! ## Roles -/

def threadOf : ThreadProc → Device → Option Handle
  | .event => Device.eventThread
  | .read => Device.readThread

def forgetThread : ThreadProc → Device → Device
  | .event => forgetEventThread
  | .read => forgetReadThread

/-- What the function in charge of the threads knows of them. -/
structure Charge where
  /-- It starts the device, or else it stops it. -/
  starts : Bool
  /-- The handles that the device has. -/
  stored : ThreadProc → Option Handle
  /-- The threads that may not have ended. -/
  running : List Handle

/-- The device has the handles of the threads that may be running. -/
def Charge.Keeps (c : Charge) : Prop := ∀ h ∈ c.running, ∃ p, c.stored p = some h

inductive Role where
  | other
  /-- Starts the device, and has not looked at its state. -/
  | starter
  /-- Stops the device, and has not changed its state. -/
  | stopper
  | charge (c : Charge)

def Job.starts : Job → Bool
  | .start .. => true
  | _ => false

def Job.role : Job → Role
  | .start .. => .starter
  | .stop => .stopper
  | _ => .other

namespace Role

def starts : Role → Bool
  | starter => true
  | charge c => c.starts
  | _ => false

def inCharge : Role → Bool
  | charge _ => true
  | _ => false

def may (role : Role) : Call → Prop
  | .createThread _ => role.inCharge = true
  | .setState .created => False
  | .setState .started =>
    ∃ c, role = .charge c ∧ c.starts = true ∧ c.Keeps
  | .setState .stopped => role = .stopper
  | .modifyDevice f => role.inCharge = false → ∀ p d, threadOf p (f d) = threadOf p d
  | _ => True

/-- What the function in charge knows after a call. -/
def learns (c : Charge) : (call : Call) → call.Resp → Charge → Prop
  | .readDevice, d, c' => (∀ p, threadOf p d = c.stored p) ∧ c' = c
  | .modifyDevice f, _, c' =>
    ∃ d, (∀ p, threadOf p d = c.stored p) ∧ c' = { c with stored := fun p => threadOf p (f d) }
  | .createThread _, h, c' => c' = { c with running := h.toList ++ c.running }
  | .waitForSingleObject h millis, _, c' =>
    c' = if millis = infinite then { c with running := c.running.filter (· ≠ h) } else c
  | _, _, c' => c' = c

def next : Role → (call : Call) → call.Resp → Role → Prop
  | charge _, .setState _, _, role' => role' = other
  | charge c, call, r, role' => ∃ c', learns c call r c' ∧ role' = charge c'
  | starter, .readDevice, d, role' =>
    role' = if d.state = .created then charge ⟨true, fun p => threadOf p d, []⟩ else other
  | stopper, .setState _, _, role' =>
    ∃ stored : ThreadProc → Option Handle,
      role' = charge ⟨false, stored, (stored .event).toList ++ (stored .read).toList⟩
  | role, _, _, role' => role' = role

def fin : Role → Prop
  | charge c => c.running = []
  | _ => True

/-- The roles a thread can have. -/
def of (job : Job) : Role → Prop
  | other => True
  | starter => job.starts = true
  | stopper => job = .stop
  | charge c => if c.starts then job.starts = true else job = .stop

end Role

/-- What the roles say of the threads of the library. -/
structure JoinInv (roles : List Role) (w : Shared) : Prop where
  starts : roles.countP Role.starts ≤ 1
  charges : roles.countP Role.inCharge ≤ 1
  idle : (∀ role ∈ roles, role.inCharge = false) →
    ∀ h ∈ w.alive, w.device.state = .started ∧ ∃ p, threadOf p w.device = some h
  charge : ∀ c, .charge c ∈ roles → w.device.state = (if c.starts then .created else .stopped) ∧
    (∀ p, threadOf p w.device = c.stored p) ∧ ∀ h ∈ w.alive, h ∈ c.running
  apart : ∀ h ∈ w.alive, some h ≠ w.device.throttlingTimer ∧ some h ≠ w.device.readReportReadyEvent

def joining : Views Job Call Call.Resp Shared Role where
  of := Role.of
  may := Role.may
  next := Role.next
  fin := Role.fin
  inv := JoinInv

section
variable {α β : Type} {Q : α → Role → Prop} {role : Role} {c : Charge}

/-! ## The functions that have nothing to do with the threads -/

/-- The calls that leave every role as it is. -/
def Call.steady : Call → Bool
  | .readDevice => false
  | .modifyDevice _ => false
  | .createThread _ => false
  | .setState _ => false
  | .waitForSingleObject .. => false
  | _ => true

/-- The calls that leave those alone that are not in charge. -/
def plainCall : Call → Prop
  | .modifyDevice f => ∀ p d, threadOf p (f d) = threadOf p d
  | .createThread _ => False
  | .setState _ => False
  | _ => True

abbrev Plain (p : Lib α) : Prop := p.Calls plainCall fun _ _ => True

theorem steady_next {call : Call} {r : call.Resp} {role' : Role} (hc : call.steady = true)
    (h : role.next call r role') : role' = role := by
  cases role with
  | charge c =>
    cases call with
    | readDevice | modifyDevice | createThread | setState | waitForSingleObject => cases hc
    | _ =>
      obtain ⟨c', rfl, rfl⟩ := h
      rfl
  | _ =>
    cases call with
    | readDevice | modifyDevice | createThread | setState | waitForSingleObject => cases hc
    | _ => exact h

theorem steady_may {call : Call} (hc : call.steady = true) : role.may call := by
  cases call with
  | readDevice | modifyDevice | createThread | setState | waitForSingleObject => cases hc
  | _ => trivial

theorem follows_steady {call : Call} {k : call.Resp → Lib α} (hc : call.steady = true)
    (hk : ∀ r, joining.Follows Q (k r) role) : joining.Follows Q (.call call k) role := by
  refine ⟨steady_may hc, fun r role' hnext => ?_⟩
  rw [steady_next hc hnext]
  exact hk r

theorem follows_calls {p : Lib α} (hp : p.Calls (fun call => call.steady = true) fun _ _ => True) :
    joining.Follows (fun _ role' => role' = role) p role := by
  induction p with
  | ret a => rfl
  | call call k ih => exact follows_steady hp.1 fun r => ih r (hp.2 r trivial)

theorem Plain.follows {p : Lib α} (hp : Plain p) : joining.Follows (fun _ role => role = .other) p .other := by
  induction p with
  | ret a => rfl
  | call call k ih =>
    obtain ⟨hplain, hk⟩ := hp
    have hnext : ∀ r role', Role.next .other call r role' → role' = .other := fun _ _ h => h
    refine ⟨?_, fun r role' h => ?_⟩
    · cases call with
      | modifyDevice f => exact fun _ => hplain
      | createThread | setState => exact hplain.elim
      | _ => trivial
    · rw [hnext r role' h]
      exact ih r (hk r trivial)

theorem plain_call {call : Call} {k : call.Resp → Lib α} (hc : plainCall call) (hk : ∀ r, Plain (k r)) :
    Plain (.call call k) :=
  ⟨hc, fun r _ => hk r⟩

theorem deviceIoControlInSync_steady {handle event : Option Handle} {code : Driver.RequestCode}
    {input : List Byte} :
    (deviceIoControlInSync handle event code input).Calls (fun call => call.steady = true)
      fun _ _ => True := by
  unfold deviceIoControlInSync
  cases event with
  | some event => exact ⟨rfl, fun _ _ => ⟨rfl, fun _ _ => trivial⟩⟩
  | none =>
    refine ⟨rfl, fun created _ => ?_⟩
    cases created with
    | none => trivial
    | some event => exact ⟨rfl, fun _ _ => ⟨rfl, fun _ _ => trivial⟩⟩

theorem steady_plain {call : Call} (hc : call.steady = true) : plainCall call := by
  cases call with
  | modifyDevice | createThread | setState => cases hc
  | _ => trivial

theorem deviceIoControlInSync_plain {handle event : Option Handle} {code : Driver.RequestCode}
    {input : List Byte} : Plain (deviceIoControlInSync handle event code input) :=
  Prog.calls_mono (fun _ => steady_plain) (fun _ _ _ => trivial) deviceIoControlInSync_steady

theorem winUHidCompleteWriteEvent_plain {event : Event} {success : Bool} :
    Plain (winUHidCompleteWriteEvent event success) := by
  simp only [winUHidCompleteWriteEvent, perform, Prog.perform_bind]
  refine plain_call trivial fun d => Prog.calls_bind deviceIoControlInSync_plain fun _ => ?_
  exact plain_call trivial fun _ => trivial

theorem winUHidCompleteReadEvent_plain {stack : Byte} {event : Event} {data : Option (List Byte)}
    {dataLength : UInt32} : Plain (winUHidCompleteReadEvent stack event data dataLength) := by
  simp only [winUHidCompleteReadEvent, perform, Prog.perform_bind]
  refine plain_call trivial fun d => plain_call trivial fun block => ?_
  cases block with
  | none =>
    refine Prog.calls_bind deviceIoControlInSync_plain fun _ => ?_
    exact plain_call trivial fun _ => trivial
  | some block =>
    refine Prog.calls_bind deviceIoControlInSync_plain fun _ => ?_
    exact plain_call trivial fun _ => plain_call trivial fun _ => trivial

theorem winUHidSubmitInputReport_plain {device : Bool} {report : Option (List Byte)} {reportSize : UInt32}
    {stack : Byte} : Plain (winUHidSubmitInputReport device report reportSize stack) := by
  unfold winUHidSubmitInputReport
  simp only [perform, Prog.perform_bind]
  cases report with
  | none => exact plain_call trivial fun _ => trivial
  | some report =>
    refine Prog.calls_ite (fun _ => plain_call trivial fun _ => trivial) fun _ =>
      plain_call trivial fun d => ?_
    cases d.readReportReadyEvent with
    | none =>
      refine plain_call trivial fun created => ?_
      cases created with
      | none => trivial
      | some event => exact plain_call trivial fun _ => plain_call trivial fun _ => trivial
    | some ready =>
      refine plain_call trivial fun signalled => Prog.calls_ite (fun _ => ?_) fun _ => ?_
      · refine plain_call trivial fun pending => ?_
        cases pending with
        | none => exact plain_call trivial fun _ => trivial
        | some event =>
          refine Prog.calls_bind winUHidCompleteReadEvent_plain fun _ => ?_
          exact plain_call trivial fun _ => trivial
      · exact plain_call trivial fun _ => trivial

theorem requestEvent_plain {file : Option Handle} {overlapped : Handle} {block : Block}
    {bufferSize millis : UInt32} : Plain (requestEvent file overlapped block bufferSize millis) := by
  simp only [requestEvent, awaitEvent, perform, Prog.perform_bind]
  refine plain_call trivial fun _ => plain_call trivial fun first => plain_call trivial fun _ => ?_
  refine Prog.calls_ite (fun _ => plain_call trivial fun waited => ?_) fun _ => trivial
  refine Prog.calls_ite (fun _ => plain_call trivial fun _ => plain_call trivial fun r => ?_) fun _ => trivial
  cases r <;> trivial

theorem growBuffer_plain {bufferSize : UInt32} : Plain (growBuffer bufferSize) := by
  have hgrow {size : UInt32} : plainCall (.modifyDevice (growHint size)) := by
    intro p d
    unfold growHint
    split
    · cases p <;> rfl
    · rfl
  simp only [growBuffer, perform, Prog.perform_bind]
  refine plain_call trivial fun _ => plain_call trivial fun _ => ?_
  exact plain_call hgrow fun _ => plain_call trivial fun _ => trivial

theorem failPollWith_plain {code : UInt32} {block : Block} : Plain (failPollWith code block) :=
  plain_call trivial fun _ => plain_call trivial fun _ => trivial

theorem pollLoop_plain {rounds : ℕ} {overlapped : Handle} {block : Block} {bufferSize millis : UInt32} :
    Plain (pollLoop rounds overlapped block bufferSize millis) := by
  induction rounds generalizing block bufferSize with
  | zero => exact plain_call trivial nofun
  | succ rounds ih =>
    simp only [pollLoop, perform, Prog.perform_bind]
    refine plain_call trivial fun d => Prog.calls_ite (fun _ => ?_) fun _ => ?_
    · exact plain_call trivial fun _ => failPollWith_plain
    refine Prog.calls_bind requestEvent_plain fun r => ?_
    cases r with
    | done event => trivial
    | tooSmall =>
      refine Prog.calls_bind growBuffer_plain fun _ => plain_call trivial fun r => ?_
      cases r with
      | none => exact failPollWith_plain
      | some block => exact plain_call trivial fun _ => ih
    | timeout => exact failPollWith_plain
    | pending | failed => exact plain_call trivial fun _ => trivial

theorem winUHidPollEvent_plain {rounds : ℕ} {device : Bool} {timeoutMillis : UInt32} :
    Plain (winUHidPollEvent rounds device timeoutMillis) := by
  simp only [winUHidPollEvent, pollWith, perform, Prog.perform_bind]
  refine Prog.calls_ite (fun _ => plain_call trivial fun _ => trivial) fun _ =>
    plain_call trivial fun created => ?_
  cases created with
  | none => trivial
  | some overlapped =>
    refine Prog.calls_bind (plain_call trivial fun _ => plain_call trivial fun d =>
      plain_call trivial fun r => ?_) fun _ => plain_call trivial fun _ => trivial
    cases r with
    | none => exact plain_call trivial fun _ => plain_call trivial fun _ => trivial
    | some block => exact pollLoop_plain

theorem eventThreadProc_plain {rounds n : ℕ} : Plain (eventThreadProc rounds n) := by
  induction n with
  | zero => exact plain_call trivial nofun
  | succ n ih =>
    refine Prog.calls_bind winUHidPollEvent_plain fun event => ?_
    cases event with
    | none => trivial
    | some event =>
      refine Prog.calls_bind (plain_call trivial fun d => Prog.calls_ite (fun _ => ?_) fun _ => ?_) fun _ => ih
      · exact plain_call trivial fun _ => plain_call trivial fun _ => trivial
      · exact plain_call trivial fun _ => trivial

theorem readLoop_plain {rounds : ℕ} : Plain (readLoop rounds) := by
  induction rounds with
  | zero => exact plain_call trivial nofun
  | succ rounds ih =>
    simp only [readLoop, perform, Prog.perform_bind]
    refine plain_call trivial fun d => Prog.calls_ite (fun _ => trivial) fun _ => plain_call trivial fun _ => ?_
    refine plain_call trivial fun _ => plain_call trivial fun _ => plain_call trivial fun d => ?_
    refine Prog.calls_ite (fun _ => trivial) fun _ => plain_call trivial fun pending => ?_
    cases pending with
    | none => exact ih
    | some event =>
      refine plain_call trivial fun _ => plain_call trivial fun _ => plain_call trivial fun _ => ?_
      exact plain_call trivial fun _ => plain_call trivial fun _ => ih

theorem readThreadProc_plain {rounds : ℕ} : Plain (readThreadProc rounds) := by
  simp only [readThreadProc, perform, Prog.perform_bind]
  refine plain_call trivial fun _ => Prog.calls_bind readLoop_plain fun _ => ?_
  exact plain_call trivial fun _ => trivial

/-! ## The functions in charge -/

/-- A thread of the device was waited for and forgotten. -/
structure Charge.Joined (p : ThreadProc) (c c' : Charge) : Prop where
  starts : c'.starts = c.starts
  stored : ∀ q, q ≠ p → c'.stored q = c.stored q
  running : ∀ h ∈ c'.running, h ∈ c.running ∧ c.stored p ≠ some h

theorem follows_readDevice_charge {k : Device → Lib α}
    (hk : ∀ d, (∀ p, threadOf p d = c.stored p) → joining.Follows Q (k d) (.charge c)) :
    joining.Follows Q (.call .readDevice k) (.charge c) := by
  refine ⟨trivial, fun d role' hnext => ?_⟩
  obtain ⟨c', ⟨hd, rfl⟩, rfl⟩ := hnext
  exact hk d hd

theorem follows_modifyDevice {f : Device → Device} {k : Unit → Lib α}
    (hk : ∀ d, (∀ p, threadOf p d = c.stored p) →
      joining.Follows Q (k ()) (.charge { c with stored := fun p => threadOf p (f d) })) :
    joining.Follows Q (.call (.modifyDevice f) k) (.charge c) := by
  refine ⟨nofun, fun r role' hnext => ?_⟩
  obtain ⟨c', ⟨d, hd, rfl⟩, rfl⟩ := hnext
  exact hk d hd

theorem threadOf_forget {p q : ThreadProc} {d : Device} (hq : q ≠ p) :
    threadOf q (forgetThread p d) = threadOf q d := by
  cases p <;> cases q <;> first | rfl | exact absurd rfl hq

theorem follows_wait {h : Handle} {k : Bool → Lib α}
    (hk : ∀ b, joining.Follows Q (k b) (.charge { c with running := c.running.filter (· ≠ h) })) :
    joining.Follows Q (.call (.waitForSingleObject h infinite) k) (.charge c) := by
  refine ⟨trivial, fun b role' hnext => ?_⟩
  obtain ⟨c', hc', rfl⟩ := hnext
  rw [Role.learns, if_pos rfl] at hc'
  subst hc'
  exact hk b

theorem forget_joins {p : ThreadProc} {d : Device} (hd : ∀ q, threadOf q d = c.stored q) :
    joining.Follows (fun _ role => ∃ c', role = .charge c' ∧ c.Joined p c')
      (.call .readDevice fun d => .call (.closeHandle ((threadOf p d).getD 0)) fun _ =>
        perform (.modifyDevice (forgetThread p)))
      (.charge { c with running := c.running.filter (· ≠ (threadOf p d).getD 0) }) := by
  refine follows_readDevice_charge fun _ _ => follows_steady rfl fun _ => follows_modifyDevice fun d' hd' => ?_
  refine ⟨_, rfl, rfl, fun q hq => ?_, fun h hh => ?_⟩
  · exact (threadOf_forget hq).trans (hd' q)
  · obtain ⟨hmem, hne⟩ := List.mem_filter.mp hh
    refine ⟨hmem, fun hstored => ?_⟩
    rw [hd p, hstored] at hne
    simp at hne

theorem joinThread_joins {p : ThreadProc} :
    joining.Follows (fun _ role => ∃ c', role = .charge c' ∧ c.Joined p c')
      (joinThread (threadOf p) (forgetThread p)) (.charge c) := by
  simp only [joinThread, perform, Prog.perform_bind]
  refine follows_readDevice_charge fun d hd => Views.follows_ite (fun hnone => ?_) fun _ => ?_
  · refine ⟨c, rfl, rfl, fun _ _ => rfl, fun h hh => ⟨hh, ?_⟩⟩
    rw [← hd p, Option.isNone_iff_eq_none.mp hnone]
    simp
  · exact follows_readDevice_charge fun d hd => follows_wait fun _ => forget_joins hd

theorem stopThread_joins {p : ThreadProc} {wake : Lib Unit}
    (hwake : joining.Follows (fun _ role => role = .charge c) wake (.charge c)) :
    joining.Follows (fun _ role => ∃ c', role = .charge c' ∧ c.Joined p c')
      (stopThread (threadOf p) (forgetThread p) wake) (.charge c) := by
  simp only [stopThread, perform, Prog.perform_bind]
  refine follows_readDevice_charge fun d hd => Views.follows_ite (fun hnone => ?_) fun _ => ?_
  · refine ⟨c, rfl, rfl, fun _ _ => rfl, fun h hh => ⟨hh, ?_⟩⟩
    rw [← hd p, Option.isNone_iff_eq_none.mp hnone]
    simp
  · refine follows_steady rfl fun _ => Views.follows_bind hwake ?_
    rintro _ _ rfl
    refine follows_readDevice_charge fun d hd => follows_wait fun _ => follows_steady rfl fun _ => ?_
    exact forget_joins hd

theorem wakeReadThread_charge : joining.Follows (fun _ role => role = .charge c) wakeReadThread (.charge c) := by
  simp only [wakeReadThread, perform, Prog.perform_bind]
  refine follows_readDevice_charge fun d _ => ?_
  exact follows_steady rfl fun _ => follows_steady rfl fun _ => rfl

theorem Charge.joined_both {c' c'' : Charge} (hboth : c.Keeps)
    (hevent : c.Joined .event c') (hread : c'.Joined .read c'') : c''.running = [] := by
  refine List.eq_nil_iff_forall_not_mem.mpr fun h hh => ?_
  obtain ⟨hmem', hnotRead⟩ := hread.running h hh
  obtain ⟨hmem, hnotEvent⟩ := hevent.running h hmem'
  rw [hevent.stored .read (by simp)] at hnotRead
  obtain ⟨p, hp⟩ := hboth h hmem
  cases p with
  | event => exact hnotEvent hp
  | read => exact hnotRead hp

theorem winUHidStopDevice_joins :
    joining.Follows (fun _ role => role.fin) (winUHidStopDevice true) .stopper := by
  have hrelease {role : Role} (hrole : role.fin) :
      joining.Follows (fun _ role => role.fin) (perform .releaseExclusive) role :=
    follows_steady rfl fun _ => hrole
  simp only [winUHidStopDevice, perform, Prog.perform_bind, Bool.not_true, Bool.false_eq_true, if_false]
  refine follows_steady rfl fun _ => ⟨trivial, fun d role' hnext => ?_⟩
  rw [show role' = .stopper from hnext]
  refine Views.follows_ite (fun _ => ?_) fun _ => hrelease trivial
  refine ⟨rfl, fun _ role' hnext => ?_⟩
  obtain ⟨stored, rfl⟩ := hnext
  refine follows_steady rfl fun _ => Views.follows_bind (stopThread_joins (p := .event) rfl) ?_
  rintro _ _ ⟨c, rfl, hevent⟩
  refine Views.follows_bind (stopThread_joins (p := .read) wakeReadThread_charge) ?_
  rintro _ _ ⟨c', rfl, hread⟩
  refine hrelease (Charge.joined_both (fun h hh => ?_) hevent hread)
  rcases List.mem_append.mp hh with hh | hh
  · exact ⟨.event, Option.mem_toList.mp hh⟩
  · exact ⟨.read, Option.mem_toList.mp hh⟩

theorem follows_createThread {p : ThreadProc} {k : Option Handle → Lib α}
    (hk : ∀ h, joining.Follows Q (k h) (.charge { c with running := h.toList ++ c.running })) :
    joining.Follows Q (.call (.createThread p) k) (.charge c) := by
  refine ⟨rfl, fun h role' hnext => ?_⟩
  obtain ⟨c', hc', rfl⟩ := hnext
  rw [show c' = { c with running := h.toList ++ c.running } from hc']
  exact hk h

theorem startEventThread_keeps {eventCallback : Option ℕ} {callbackContext : ℕ} (hstarts : c.starts = true)
    (hrunning : c.running = []) :
    joining.Follows (fun b role => ∃ c', role = .charge c' ∧ c'.starts = true ∧
        (∀ h ∈ c'.running, c'.stored .event = some h) ∧ (b = false → c'.running = []))
      (startEventThread eventCallback callbackContext) (.charge c) := by
  simp only [startEventThread, perform, Prog.perform_bind]
  refine follows_modifyDevice fun d _ => Views.follows_ite (fun _ => ?_) fun _ => ?_
  · refine ⟨_, rfl, hstarts, fun h hh => ?_, fun _ => hrunning⟩
    rw [show _ = c.running from rfl, hrunning] at hh
    cases hh
  · refine follows_createThread fun thread => follows_modifyDevice fun d _ => ⟨_, rfl, hstarts, fun h hh => ?_, ?_⟩
    · rw [hrunning, List.append_nil, Option.mem_toList] at hh
      exact hh
    · intro hnone
      rw [Option.isSome_eq_false_iff, Option.isNone_iff_eq_none] at hnone
      rw [hnone, hrunning]
      rfl

theorem startReadThread_keeps (hstarts : c.starts = true) (hevent : ∀ h ∈ c.running, c.stored .event = some h) :
    joining.Follows (fun b role => ∃ c', role = .charge c' ∧ c'.starts = true ∧ c'.Keeps ∧
        (b = false → ∀ h ∈ c'.running, c'.stored .event = some h))
      startReadThread (.charge c) := by
  simp only [startReadThread, perform, Prog.perform_bind]
  refine follows_readDevice_charge fun d _ => Views.follows_ite (fun _ => ?_) fun _ => ?_
  · exact ⟨c, rfl, hstarts, fun h hh => ⟨.event, hevent h hh⟩, nofun⟩
  · refine follows_createThread fun thread => follows_modifyDevice fun d hd => ⟨_, rfl, hstarts, fun h hh => ?_, ?_⟩
    · rcases List.mem_append.mp hh with hh | hh
      · exact ⟨.read, Option.mem_toList.mp hh⟩
      · exact ⟨.event, (hd .event).trans (hevent h hh)⟩
    · intro hnone h hh
      rw [Option.isSome_eq_false_iff, Option.isNone_iff_eq_none] at hnone
      rw [hnone] at hh
      exact (hd .event).trans (hevent h hh)

theorem winUHidStartDevice_joins {eventCallback : Option ℕ} {callbackContext : ℕ} :
    joining.Follows (fun _ role => role.fin) (winUHidStartDevice true eventCallback callbackContext)
      .starter := by
  have hrelease {role : Role} {b : Bool} (hrole : role.fin) :
      joining.Follows (fun _ role => role.fin) (do perform .releaseExclusive; return b) role :=
    follows_steady rfl fun _ => hrole
  simp only [winUHidStartDevice, perform, Prog.perform_bind, Bool.not_true, Bool.false_eq_true, if_false]
  refine follows_steady rfl fun _ => ⟨trivial, fun d role' hnext => ?_⟩
  refine Views.follows_ite (fun hstate => ?_) fun hstate => ?_
  · have hrole : role' = .other := hnext.trans (if_neg hstate)
    rw [hrole]
    exact follows_steady rfl fun _ => follows_steady rfl fun _ => trivial
  have hrole : role' = .charge ⟨true, fun p => threadOf p d, []⟩ := hnext.trans (if_pos (not_not.mp hstate))
  rw [hrole]
  refine Views.follows_bind (startEventThread_keeps rfl rfl) ?_
  rintro started _ ⟨c, rfl, hstarts, hevent, hnone⟩
  refine Views.follows_ite (fun hfailed => ?_) fun _ => ?_
  · exact follows_steady rfl fun _ => hnone (by simpa using hfailed)
  refine Views.follows_bind (startReadThread_keeps hstarts hevent) ?_
  rintro started' _ ⟨c', rfl, hstarts', hboth, honly⟩
  refine Views.follows_ite (fun hfailed => follows_steady rfl fun _ => ?_) fun _ => ?_
  · refine Views.follows_bind (joinThread_joins (p := .event)) ?_
    rintro _ _ ⟨c'', rfl, hjoined⟩
    refine List.eq_nil_iff_forall_not_mem.mpr fun h hh => ?_
    obtain ⟨hmem, hne⟩ := hjoined.running h hh
    exact hne (honly (by simpa using hfailed) h hmem)
  refine follows_readDevice_charge fun d _ => Views.follows_bind (follows_calls deviceIoControlInSync_steady) ?_
  rintro ok _ rfl
  refine Views.follows_ite (fun _ => follows_steady rfl fun _ => ?_) fun _ => ?_
  · refine Views.follows_bind (joinThread_joins (p := .event)) ?_
    rintro _ _ ⟨c₁, rfl, hjoined⟩
    refine Views.follows_bind (joinThread_joins (p := .read)) ?_
    rintro _ _ ⟨c₂, rfl, hjoined'⟩
    exact Charge.joined_both hboth hjoined hjoined'
  · refine ⟨⟨c', rfl, hstarts', hboth⟩, fun _ role' hnext => ?_⟩
    rw [show role' = .other from hnext]
    exact hrelease trivial

theorem run_joins (rounds : ℕ) (job : Job) : joining.Has ⟨job, job.run rounds⟩ job.role := by
  have hplain {p : Lib Unit} (hp : Plain p) : joining.Follows (fun _ role => role.fin) p .other := by
    refine Views.follows_mono ?_ hp.follows
    rintro _ _ rfl
    trivial
  cases job with
  | start eventCallback callbackContext =>
    exact ⟨rfl, Views.follows_bind winUHidStartDevice_joins fun _ _ hfin => hfin⟩
  | stop => exact ⟨rfl, winUHidStopDevice_joins⟩
  | submit => exact ⟨trivial, hplain (Prog.calls_bind winUHidSubmitInputReport_plain fun _ => trivial)⟩
  | poll millis =>
    refine ⟨trivial, hplain (Prog.calls_bind winUHidPollEvent_plain fun event => ?_)⟩
    cases event with
    | none => trivial
    | some event => exact plain_call trivial fun _ => trivial
  | completeWrite => exact ⟨trivial, hplain winUHidCompleteWriteEvent_plain⟩
  | completeRead => exact ⟨trivial, hplain winUHidCompleteReadEvent_plain⟩
  | thread h proc =>
    refine ⟨trivial, hplain ?_⟩
    cases proc with
    | event => exact Prog.calls_bind eventThreadProc_plain fun _ => plain_call trivial fun _ => trivial
    | read => exact Prog.calls_bind readThreadProc_plain fun _ => plain_call trivial fun _ => trivial
  | completed => exact ⟨trivial, trivial⟩

end

/-! ## What a call does to the roles -/

section
variable {pre post roles : List Role} {role : Role} {c : Charge} {w w' : Shared} {o : ThreadOutcome}

theorem JoinInv.shrink (h : JoinInv roles w) (hstate : w'.device.state = w.device.state)
    (hobjects : SameObjects w.device w'.device) (hthreads : ∀ p, threadOf p w'.device = threadOf p w.device)
    (halive : ∀ x ∈ w'.alive, x ∈ w.alive) : JoinInv roles w' := by
  refine ⟨h.starts, h.charges, fun hnone x hx => ?_, fun c hc => ?_, fun x hx => ?_⟩
  · obtain ⟨hstarted, p, hp⟩ := h.idle hnone x (halive x hx)
    exact ⟨hstate.trans hstarted, p, (hthreads p).trans hp⟩
  · obtain ⟨hcharge, hstored, hrunning⟩ := h.charge c hc
    exact ⟨hstate.trans hcharge, fun p => (hthreads p).trans (hstored p), fun x hx => hrunning x (halive x hx)⟩
  · rw [hobjects.timer, hobjects.ready]
    exact h.apart x (halive x hx)

theorem JoinInv.apart_of (h : JoinInv roles w) (hobjects : SameObjects w.device w'.device)
    (halive : ∀ x ∈ w'.alive, x ∈ w.alive) :
    ∀ x ∈ w'.alive, some x ≠ w'.device.throttlingTimer ∧ some x ≠ w'.device.readReportReadyEvent := by
  intro x hx
  rw [hobjects.timer, hobjects.ready]
  exact h.apart x (halive x hx)

theorem countP_beside {p : Role → Bool} (hle : (pre ++ role :: post).countP p ≤ 1) (hp : p role = true)
    {r : Role} (hr : r ∈ pre ++ post) : p r = false := by
  have hzero : (pre ++ post).countP p = 0 := by
    simp only [List.countP_append, List.countP_cons, hp, if_true] at hle ⊢
    omega
  simpa using List.countP_eq_zero.mp hzero r hr

theorem countP_swap {p : Role → Bool} {role' : Role} (hle : (pre ++ role :: post).countP p ≤ 1)
    (hp : p role' = true → p role = true) : (pre ++ role' :: post).countP p ≤ 1 := by
  have hcount : (if p role' = true then 1 else 0) ≤ if p role = true then 1 else 0 := by
    split_ifs with hnew hold
    · exact le_rfl
    · exact absurd (hp hnew) hold
    · exact Nat.zero_le _
    · exact le_rfl
  simp only [List.countP_append, List.countP_cons] at hle ⊢
  omega

theorem JoinInv.alone (h : JoinInv (pre ++ role :: post) w) (hrole : role.inCharge = true) {r : Role}
    (hr : r ∈ pre ++ post) : r.inCharge = false :=
  countP_beside h.charges hrole hr

theorem JoinInv.take (h : JoinInv (pre ++ role :: post) w) (hothers : ∀ r ∈ pre ++ post, r.inCharge = false)
    (hstarts : c.starts = true → role.starts = true)
    (hstate : w'.device.state = if c.starts then .created else .stopped)
    (hstored : ∀ p, threadOf p w'.device = c.stored p) (hrunning : ∀ x ∈ w'.alive, x ∈ c.running)
    (hapart : ∀ x ∈ w'.alive,
      some x ≠ w'.device.throttlingTimer ∧ some x ≠ w'.device.readReportReadyEvent) :
    JoinInv (pre ++ .charge c :: post) w' := by
  refine ⟨countP_swap h.starts hstarts, ?_, fun hnone => ?_, fun c' hc' => ?_, hapart⟩
  · have hzero : (pre ++ post).countP Role.inCharge = 0 :=
      List.countP_eq_zero.mpr fun r hr => by simp [hothers r hr]
    simp only [List.countP_append, List.countP_cons] at hzero ⊢
    split_ifs <;> omega
  · exact absurd (hnone (.charge c) (by simp)) (by simp [Role.inCharge])
  · rcases mem_beside hc' with heq | hmem
    · cases heq
      exact ⟨hstate, hstored, hrunning⟩
    · exact absurd (hothers _ hmem) (by simp [Role.inCharge])

theorem JoinInv.drop (h : JoinInv (pre ++ .charge c :: post) w)
    (hidle : ∀ x ∈ w'.alive, w'.device.state = .started ∧ ∃ p, threadOf p w'.device = some x)
    (hapart : ∀ x ∈ w'.alive,
      some x ≠ w'.device.throttlingTimer ∧ some x ≠ w'.device.readReportReadyEvent) :
    JoinInv (pre ++ .other :: post) w' := by
  refine ⟨countP_swap h.starts nofun, countP_swap h.charges nofun, fun _ => hidle, fun c' hc' => ?_, hapart⟩
  rcases mem_beside hc' with heq | hmem
  · cases heq
  · exact absurd (h.alone rfl hmem) (by simp [Role.inCharge])

theorem JoinInv.leave (h : JoinInv (pre ++ role :: post) w) (hrole : role.inCharge = false) :
    JoinInv (pre ++ .other :: post) w := by
  refine ⟨countP_swap h.starts nofun, countP_swap h.charges nofun, fun hnone => h.idle fun r hr => ?_,
    fun c' hc' => ?_, h.apart⟩
  · rcases mem_beside hr with rfl | hr
    · exact hrole
    · exact hnone r (mem_of_mem_beside hr)
  · rcases mem_beside hc' with heq | hmem
    · cases heq
    · exact h.charge c' (mem_of_mem_beside hmem)

theorem JoinInv.finish (h : JoinInv (pre ++ role :: post) w) (hfin : role.fin) :
    JoinInv (pre ++ .other :: post) w := by
  cases role with
  | charge c =>
    refine h.drop (fun x hx => ?_) h.apart
    have hrunning := (h.charge c (by simp)).2.2 x hx
    rw [show c.running = [] from hfin] at hrunning
    cases hrunning
  | _ => exact h.leave rfl

theorem SameObjects.refl (d : Device) : SameObjects d d := ⟨rfl, rfl, rfl⟩

theorem exec_alive {call : Call} {r : call.Resp} (hc : ∀ p, call ≠ .createThread p)
    (he : Shared.exec call o w = some (r, w')) : ∀ x ∈ w'.alive, x ∈ w.alive := by
  cases hidle : call.idle with
  | true =>
    rw [(exec_idle hidle he).threads.1]
    exact fun _ hx => hx
  | false =>
    cases call with
    | createThread p => exact absurd rfl (hc p)
    | exitThread x =>
      simp only [Shared.exec, Option.map_eq_some_iff, Prod.mk.injEq] at he
      obtain ⟨-, -, -, rfl⟩ := he
      exact fun _ hx => Multiset.mem_of_mem_erase hx
    | acquireShared =>
      obtain ⟨-, rfl⟩ := Shared.exec_acquireShared he
      exact fun _ hx => hx
    | acquireExclusive =>
      obtain ⟨-, -, rfl⟩ := Shared.exec_acquireExclusive he
      exact fun _ hx => hx
    | getNextEvent =>
      obtain ⟨x, he⟩ := Shared.exec_getNextEvent he
      obtain ⟨heap, ops, waiting, rfl⟩ := Shared.beginOp_eq he
      exact fun _ hx => hx
    | cancelIo file event =>
      obtain ⟨waiting, rfl⟩ := Shared.exec_cancelIo_eq he
      exact fun _ hx => hx
    | releaseShared | releaseExclusive | readDevice | modifyDevice | setState =>
      simp only [Shared.exec, Option.map_eq_some_iff, Prod.mk.injEq] at he
      obtain ⟨-, -, -, rfl⟩ := he
      exact fun _ hx => hx
    | _ => cases hidle

/-- A wait for a thread that comes back without a timeout: the thread has ended. -/
theorem wait_ended {x : Handle} {b : Bool} (h : JoinInv roles w) (he : w.wait x infinite = some (b, w')) :
    x ∉ w.alive := by
  intro hx
  obtain ⟨htimer, hready⟩ := h.apart x hx
  rw [Shared.wait, if_neg hready, if_neg htimer, if_pos hx, if_pos rfl] at he
  cases he

theorem next_steady {call : Call} (hc : call.steady = true) (r : call.Resp) : role.next call r role := by
  cases role with
  | charge c =>
    cases call with
    | readDevice | modifyDevice | createThread | setState | waitForSingleObject => cases hc
    | _ => exact ⟨c, rfl, rfl⟩
  | _ =>
    cases call with
    | readDevice | modifyDevice | createThread | setState | waitForSingleObject => cases hc
    | _ => rfl

/-- The first to look at a device that was just created takes charge. -/
theorem JoinInv.look {d : Device} (h : JoinInv (pre ++ .starter :: post) w) (hd : d = w.device) :
    JoinInv (pre ++ (if d.state = .created then .charge ⟨true, fun p => threadOf p d, []⟩ else .other) :: post)
      w := by
  subst hd
  split_ifs with hcreated
  · have hothers : ∀ r ∈ pre ++ post, r.inCharge = false := by
      intro r hr
      cases r with
      | charge c =>
        exfalso
        have hnot : c.starts = false := countP_beside h.starts rfl hr
        have hstate := (h.charge c (mem_of_mem_beside hr)).1
        rw [hcreated, hnot] at hstate
        cases hstate
      | _ => rfl
    refine h.take hothers (fun _ => rfl) hcreated (fun _ => rfl) (fun x hx => ?_) h.apart
    have hnone : ∀ r ∈ pre ++ .starter :: post, r.inCharge = false := by
      intro r hr
      rcases mem_beside hr with rfl | hr
      · rfl
      · exact hothers r hr
    have hstarted := (h.idle hnone x hx).1
    rw [hcreated] at hstarted
    cases hstarted
  · exact h.leave rfl

/-- The first to set the device to stopped takes charge. -/
theorem JoinInv.stop (h : JoinInv (pre ++ .stopper :: post) w) (hstarted : w.device.state = .started) :
    JoinInv (pre ++ .charge ⟨false, fun p => threadOf p w.device,
      (threadOf .event w.device).toList ++ (threadOf .read w.device).toList⟩ :: post)
      { w with device := { w.device with state := .stopped } } := by
  have hothers : ∀ r ∈ pre ++ .stopper :: post, r.inCharge = false := by
    intro r hr
    cases r with
    | charge c =>
      have hstate := (h.charge c hr).1
      rw [hstarted] at hstate
      split_ifs at hstate
    | _ => rfl
  refine h.take (fun r hr => hothers r (mem_of_mem_beside hr)) nofun rfl (fun p => by cases p <;> rfl)
    (fun x hx => ?_) h.apart
  obtain ⟨-, p, hp⟩ := h.idle hothers x hx
  cases p with
  | event => exact List.mem_append.mpr (.inl (Option.mem_toList.mpr hp))
  | read => exact List.mem_append.mpr (.inr (Option.mem_toList.mpr hp))

theorem JoinInv.modify {f : Device → Device} (h : JoinInv (pre ++ .charge c :: post) w)
    (hobjects : SameObjects w.device (f w.device)) (hstate : (f w.device).state = w.device.state) :
    JoinInv (pre ++ .charge { c with stored := fun p => threadOf p (f w.device) } :: post)
      { w with device := f w.device } := by
  obtain ⟨hcharge, -, hrunning⟩ := h.charge c (by simp)
  exact h.take (fun r hr => h.alone rfl hr) (fun hstarts => hstarts) (hstate.trans hcharge) (fun _ => rfl)
    hrunning (h.apart_of hobjects fun _ hx => hx)

theorem JoinInv.create {p : ThreadProc} {x : Option Handle} (h : JoinInv (pre ++ .charge c :: post) w)
    (he : Shared.exec (.createThread p) o w = some (x, w')) :
    JoinInv (pre ++ .charge { c with running := x.toList ++ c.running } :: post) w' := by
  obtain ⟨hcharge, hstored, hrunning⟩ := h.charge c (by simp)
  rcases Shared.exec_createThread he with ⟨rfl, rfl⟩ | ⟨x, rfl, hfresh, rfl⟩
  · exact h
  · refine h.take (fun r hr => h.alone rfl hr) (fun hstarts => hstarts) hcharge hstored ?_ ?_
    · intro y hy
      rcases Multiset.mem_cons.mp hy with rfl | hy
      · exact List.mem_cons_self
      · exact List.mem_cons_of_mem _ (hrunning y hy)
    · intro y hy
      rcases Multiset.mem_cons.mp hy with rfl | hy
      · simp only [Shared.fresh, Bool.and_eq_true, decide_eq_true_eq, List.mem_cons, not_or] at hfresh
        exact ⟨hfresh.2.2.1, hfresh.2.2.2.1⟩
      · exact h.apart y hy

theorem JoinInv.start (h : JoinInv (pre ++ .charge c :: post) w) (hkeeps : c.Keeps) :
    JoinInv (pre ++ .other :: post) { w with device := { w.device with state := .started } } := by
  obtain ⟨-, hstored, hrunning⟩ := h.charge c (by simp)
  refine h.drop (fun x hx => ⟨rfl, ?_⟩) h.apart
  obtain ⟨p, hp⟩ := hkeeps x (hrunning x hx)
  refine ⟨p, ?_⟩
  rw [← hp, ← hstored p]
  cases p <;> rfl

theorem JoinInv.wait {x : Handle} {millis : UInt32} {b : Bool} (h : JoinInv roles w)
    (he : w.wait x millis = some (b, w')) : JoinInv roles w' := by
  have hsame := wait_same he
  refine h.shrink ?_ ?_ ?_ ?_
  · rw [hsame.device]
  · rw [hsame.device]
    exact .refl _
  · rw [hsame.device]
    exact fun _ => rfl
  · rw [hsame.threads.1]
    exact fun _ hx => hx

theorem JoinInv.waited {x : Handle} {b : Bool} (h : JoinInv (pre ++ .charge c :: post) w)
    (he : w.wait x infinite = some (b, w')) :
    JoinInv (pre ++ .charge { c with running := c.running.filter (· ≠ x) } :: post) w' := by
  have hended := wait_ended h he
  have hsame := h.wait he
  obtain ⟨hcharge, hstored, hrunning⟩ := hsame.charge c (by simp)
  refine hsame.take (fun r hr => h.alone rfl hr) (fun hstarts => hstarts) hcharge hstored ?_ hsame.apart
  intro y hy
  refine List.mem_filter.mpr ⟨hrunning y hy, ?_⟩
  rw [(wait_same he).threads.1] at hy
  simp only [ne_eq, decide_not, Bool.not_eq_true', decide_eq_false_iff_not]
  rintro rfl
  exact hended hy

theorem join_call {job : Job} {call : Call} {r : call.Resp} (h : JoinInv (pre ++ role :: post) w)
    (hof : Role.of job role) (hmay : role.may call)
    (hstopping : call = .setState .stopped → w.device.state = .started)
    (hmodify : ∀ f, call = .modifyDevice f → ∀ d, SameObjects d (f d) ∧ (f d).state = d.state)
    (he : Shared.exec call o w = some (r, w')) :
    ∃ role', role.next call r role' ∧ Role.of job role' ∧ JoinInv (pre ++ role' :: post) w' := by
  cases hsteady : call.steady with
  | true =>
    refine ⟨role, next_steady hsteady r, hof, ?_⟩
    have hdevice : w'.device = w.device := by
      rcases exec_device he with hsame | ⟨f, rfl, -⟩ | ⟨state, rfl, -⟩
      · exact hsame
      · cases hsteady
      · cases hsteady
    refine h.shrink ?_ ?_ ?_ (exec_alive ?_ he)
    · rw [hdevice]
    · rw [hdevice]
      exact .refl _
    · rw [hdevice]
      exact fun _ => rfl
    · rintro p rfl
      cases hsteady
  | false =>
    cases call with
    | readDevice =>
      simp only [Shared.exec, Option.map_eq_some_iff, Prod.mk.injEq] at he
      obtain ⟨-, -, rfl, rfl⟩ := he
      cases role with
      | other => exact ⟨.other, rfl, trivial, h⟩
      | stopper => exact ⟨.stopper, rfl, hof, h⟩
      | charge c => exact ⟨.charge c, ⟨c, ⟨(h.charge c (by simp)).2.1, rfl⟩, rfl⟩, hof, h⟩
      | starter =>
        refine ⟨_, rfl, ?_, h.look rfl⟩
        split_ifs
        · exact hof
        · trivial
    | modifyDevice f =>
      simp only [Shared.exec, Option.map_eq_some_iff, Prod.mk.injEq] at he
      obtain ⟨-, -, -, rfl⟩ := he
      obtain ⟨hobjects, hstate⟩ := hmodify f rfl w.device
      have hothers (hrole : role.inCharge = false) :
          JoinInv (pre ++ role :: post) { w with device := f w.device } :=
        h.shrink hstate hobjects (fun p => hmay hrole p w.device) fun _ hx => hx
      cases role with
      | charge c =>
        exact ⟨_, ⟨_, ⟨w.device, (h.charge c (by simp)).2.1, rfl⟩, rfl⟩, hof, h.modify hobjects hstate⟩
      | _ => exact ⟨_, rfl, hof, hothers rfl⟩
    | createThread p =>
      cases role with
      | charge c => exact ⟨_, ⟨_, rfl, rfl⟩, hof, h.create he⟩
      | _ => cases hmay
    | setState state =>
      simp only [Shared.exec, Option.map_eq_some_iff, Prod.mk.injEq] at he
      obtain ⟨-, -, -, rfl⟩ := he
      cases state with
      | created => exact hmay.elim
      | started =>
        obtain ⟨c, rfl, -, hkeeps⟩ := hmay
        exact ⟨.other, rfl, trivial, h.start hkeeps⟩
      | stopped =>
        have hrole : role = .stopper := hmay
        subst hrole
        exact ⟨_, ⟨fun p => threadOf p w.device, rfl⟩, hof, h.stop (hstopping rfl)⟩
    | waitForSingleObject x millis =>
      have hwait := Shared.exec_waitForSingleObject he
      cases role with
      | charge c =>
        refine ⟨_, ⟨_, rfl, rfl⟩, ?_, ?_⟩
        · split_ifs <;> exact hof
        split_ifs with hmillis
        · subst hmillis
          exact h.waited hwait
        · exact h.wait hwait
      | _ => exact ⟨_, rfl, hof, h.wait hwait⟩
    | _ => cases hsteady

theorem begin_alive {job : Job} (hb : job.begin w = some w') : w'.alive = w.alive := by
  cases job with
  | start | stop | submit | poll =>
    cases hb
    rfl
  | completeWrite | completeRead | thread | completed =>
    simp only [Job.begin, Option.ite_none_right_eq_some, Option.some.injEq] at hb
    obtain ⟨-, rfl⟩ := hb
    rfl

theorem JoinInv.begin {job : Job} (h : JoinInv roles w)
    (hone : job.starts = true → ∀ role ∈ roles, role.starts = false) (hb : job.begin w = some w') :
    JoinInv (roles ++ [job.role]) w' := by
  have hdevice := begin_device hb
  have hsame : JoinInv roles w' := by
    refine h.shrink (by rw [hdevice]) (by rw [hdevice]; exact .refl _) (fun _ => by rw [hdevice]) ?_
    rw [begin_alive hb]
    exact fun _ hx => hx
  have hcharge : job.role.inCharge = false := by cases job <;> rfl
  refine ⟨?_, ?_, fun hnone => hsame.idle fun role hr => hnone role (by simp [hr]), fun c hc => ?_, hsame.apart⟩
  · cases hstarts : job.starts with
    | true =>
      have hzero : roles.countP Role.starts = 0 :=
        List.countP_eq_zero.mpr fun role hr => by simp [hone hstarts role hr]
      rw [List.countP_append, hzero, Nat.zero_add]
      exact List.countP_le_length
    | false =>
      have hrole : job.role.starts = false := by cases job <;> first | rfl | cases hstarts
      simpa [List.countP_append, hrole] using hsame.starts
  · simpa [List.countP_append, hcharge] using hsame.charges
  · refine hsame.charge c ?_
    rcases List.mem_append.mp hc with hc | hc
    · exact hc
    · rw [← List.mem_singleton.mp hc] at hcharge
      cases hcharge

/-- A thread that has come to its end has no part any more. -/
def Settled (t : Thread Job Call Call.Resp) (role : Role) : Prop :=
  joining.Has t role ∧ (t.prog.isRet = true → role = .other)

theorem JoinInv.settle {ts : List (Thread Job Call Call.Resp)} (h : JoinInv (pre ++ roles) w)
    (hhas : List.Forall₂ joining.Has ts roles) :
    ∃ roles', List.Forall₂ Settled ts roles' ∧ JoinInv (pre ++ roles') w := by
  induction hhas generalizing pre with
  | nil => exact ⟨[], .nil, h⟩
  | @cons t role ts roles ht _ ih =>
    obtain ⟨job, prog⟩ := t
    cases prog with
    | ret a =>
      have hother : JoinInv (pre ++ .other :: roles) w := h.finish ht.follows
      rw [← List.singleton_append, ← List.append_assoc] at hother
      obtain ⟨roles', hsettled, h'⟩ := ih hother
      rw [List.append_assoc, List.singleton_append] at h'
      exact ⟨.other :: roles', .cons ⟨⟨trivial, trivial⟩, fun _ => rfl⟩ hsettled, h'⟩
    | call c k =>
      rw [← List.singleton_append, ← List.append_assoc] at h
      obtain ⟨roles', hsettled, h'⟩ := ih h
      rw [List.append_assoc, List.singleton_append] at h'
      exact ⟨role :: roles', .cons ⟨ht, nofun⟩ hsettled, h'⟩

end

/-! ## Any interleaving -/

/-- `WinUHidStartDevice` is not called while it runs. -/
def OneStart (P : ThreadPool) : Move Job ThreadOutcome → Bool
  | .arrive (.start ..) => P.threads.all fun t => !t.label.starts || t.prog.isRet
  | _ => true

section
variable {rounds : ℕ} {d : Device} {P : ThreadPool} {roles : List Role}

theorem joinInv_init : JoinInv [] (Shared.init d) :=
  ⟨Nat.zero_le _, Nat.zero_le _, fun _ _ hx => absurd hx (Multiset.notMem_zero _), nofun,
    fun _ hx => absurd hx (Multiset.notMem_zero _)⟩

theorem none_starts {ts : List (Thread Job Call Call.Resp)} (h : List.Forall₂ Settled ts roles)
    (hone : ts.all (fun t => !t.label.starts || t.prog.isRet) = true) :
    ∀ role ∈ roles, role.starts = false := by
  induction h with
  | nil => nofun
  | @cons t role ts roles ht _ ih =>
    simp only [List.all_cons, Bool.and_eq_true, Bool.or_eq_true, Bool.not_eq_true'] at hone
    obtain ⟨hlabel, hone⟩ := hone
    intro r hr
    rcases List.mem_cons.mp hr with rfl | hr
    · rcases hlabel with hlabel | hret
      · have hof : Role.of t.label r := ht.1.of
        cases r with
        | starter => exact absurd hof (by simp [Role.of, hlabel])
        | charge c =>
          cases hstarts : c.starts with
          | true => simp [Role.of, hstarts, hlabel] at hof
          | false => exact hstarts
        | _ => rfl
      · rw [ht.2 hret]
        rfl
    · exact ih hone r hr

theorem join_agree (hd : JustCreated d)
    (hP : Reach (threads rounds) (fun P m => OneStart P m) ⟨[], Shared.init d⟩ P) :
    ∃ roles, joining.Agree P roles := by
  refine hP.agree joinInv_init (fun P roles job w _ hagree hone hb => ?_) ?_
  · have hroles : JoinInv ([] ++ roles) P.world := hagree.inv
    obtain ⟨roles', hsettled, hinv⟩ := hroles.settle hagree.has
    refine ⟨roles' ++ [job.role], ?_, ?_⟩
    · exact List.rel_append (hsettled.imp fun _ _ h => h.1) (.cons (run_joins rounds job) .nil)
    · refine hinv.begin (fun hstarts => ?_) hb
      cases job with
      | start => exact none_starts hsettled hone
      | _ => cases hstarts
  · intro P job c k pre role post o r w hP ht hhas hinv he
    have hreach : Reachable rounds d P := hP.mono fun _ _ _ => trivial
    obtain ⟨vs, hviews⟩ := Reachable.views hd hreach
    obtain ⟨v, hv, hmay⟩ := agree_may hviews ht rfl
    have hlock : LockInv d vs P.world := hviews.inv
    have hstopping (hc : c = .setState .stopped) : P.world.device.state = .started := by
      subst hc
      have hgrip : v.grip = .exclusive (some .started) := hmay
      exact hlock.seen v hv .started (by rw [hgrip]; rfl)
    have hmodify (f : Device → Device) (hc : c = .modifyDevice f) (d : Device) :
        SameObjects d (f d) ∧ (f d).state = d.state := by
      subst hc
      exact ⟨hmay.2.objects d, hmay.2.state d⟩
    obtain ⟨role', hnext, hof, hinv'⟩ := join_call hinv hhas.of hhas.follows.1 hstopping hmodify he
    exact ⟨role', ⟨hof, hhas.follows.2 r role' hnext⟩, hinv'⟩

/-- Nobody is in charge of a device that is stopped, or has still to wait for a thread. -/
theorem ended_of_stopped (hagree : joining.Agree P roles) (hstopped : P.world.device.state = .stopped)
    (hdone : ∀ t ∈ P.threads, t.label = .stop → t.prog.isRet = true) : P.world.alive = 0 := by
  have hinv : JoinInv roles P.world := hagree.inv
  refine Multiset.eq_zero_of_forall_notMem fun x hx => ?_
  by_cases hnone : ∀ role ∈ roles, role.inCharge = false
  · have hstarted := (hinv.idle hnone x hx).1
    rw [hstopped] at hstarted
    cases hstarted
  · push Not at hnone
    obtain ⟨role, hrole, hcharge⟩ := hnone
    cases role with
    | charge c =>
      obtain ⟨hstate, -, hrunning⟩ := hinv.charge c hrole
      have hstops : c.starts = false := by
        cases hc : c.starts with
        | false => rfl
        | true =>
          rw [hstopped, hc] at hstate
          cases hstate
      obtain ⟨⟨job, prog⟩, ht, hof, hfollows⟩ := hagree.thread hrole
      have hjob : job = .stop := by simpa [joining, Role.of, hstops] using hof
      obtain ⟨a, ha⟩ := (Prog.isRet_iff _).mp (hdone _ ht hjob)
      rw [show prog = .ret a from ha] at hfollows
      have hnone : c.running = [] := hfollows
      have hmem := hrunning x hx
      rw [hnone] at hmem
      cases hmem
    | _ => exact absurd rfl hcharge

theorem none_left {vs : List View} (hagree : (locking d).Agree P vs) (hended : P.world.alive = 0) :
    P.world.created = 0 ∧ ∀ t ∈ P.threads, ∀ e, t.prog.next? ≠ some (.eventCallback e) := by
  have halive := (show LockInv d vs P.world from hagree.inv).alive
  rw [hended] at halive
  obtain ⟨hself, hcreated⟩ := add_eq_zero.mp halive.symm
  refine ⟨Multiset.map_eq_zero.mp hcreated, fun t ht e hc => ?_⟩
  obtain ⟨v, hv, -, hsome⟩ := agree_may hagree ht hc
  obtain ⟨x, hx⟩ := Option.isSome_iff_exists.mp hsome
  have hmem : x ∈ vs.filterMap View.self := List.mem_filterMap.mpr ⟨v, hv, hx⟩
  rw [(Multiset.coe_eq_zero _).mp hself] at hmem
  cases hmem

/-- When the device is stopped and every `WinUHidStopDevice` has returned, the threads of the library have
ended: none is left to begin, and none calls the client back. -/
theorem stop_joins (hd : JustCreated d)
    (hP : Reach (threads rounds) (fun P m => OneStart P m) ⟨[], Shared.init d⟩ P)
    (hstopped : P.world.device.state = .stopped)
    (hdone : ∀ t ∈ P.threads, t.label = .stop → t.prog.isRet = true) :
    P.world.alive = 0 ∧ P.world.created = 0 ∧
      ∀ t ∈ P.threads, ∀ e, t.prog.next? ≠ some (.eventCallback e) := by
  obtain ⟨roles, hagree⟩ := join_agree hd hP
  have hended := ended_of_stopped hagree hstopped hdone
  have hreach : Reachable rounds d P := hP.mono fun _ _ _ => trivial
  obtain ⟨vs, hviews⟩ := Reachable.views hd hreach
  exact ⟨hended, none_left hviews hended⟩

/-- The device is stopped while the event thread polls and the read thread has not begun. -/
theorem stop_joins_stored :
    ∃ P, Reach (threads 2) (fun P m => OneStart P m) ⟨[], Shared.init throttledDevice⟩ P ∧
      P.threads.length = 4 ∧ P.world.device.state = .stopped ∧ P.world.alive = 0 := by
  have hplay : (Pool.replay (threads 2) OneStart storedEventRun ⟨[], Shared.init throttledDevice⟩).any
      (fun P => decide (P.threads.length = 4) && decide (P.world.device.state = .stopped) && P.quiet) = true := by
    decide +kernel
  obtain ⟨P, hP, hfacts⟩ := (Option.any_eq_true _ _).mp hplay
  simp only [Bool.and_eq_true, decide_eq_true_eq] at hfacts
  obtain ⟨⟨hlength, hstopped⟩, hquiet⟩ := hfacts
  have hreach : Reach (threads 2) (fun P m => OneStart P m) ⟨[], Shared.init throttledDevice⟩ P :=
    .replay .init hP
  refine ⟨P, hreach, hlength, hstopped, ?_⟩
  exact (stop_joins ⟨rfl, rfl, rfl⟩ hreach hstopped fun t ht _ => List.all_eq_true.mp hquiet t ht).1

end

end VirtualGun.WinUHid
