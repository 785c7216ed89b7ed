import VirtualGun.Library.Locking

/-!
# Stopping a device

No thread waits with the lock, so the lock is always given back; and once a device is stopped, only the
wait of its read thread can last.
-/

open VirtualGun.Program

namespace VirtualGun.WinUHid

/-! ## Threads that cannot go on -/

/-- No outcome lets the call come back now. -/
def Call.blocked (c : Call) (w : Shared) : Bool :=
  match c with
  | .acquireShared => w.writer
  | .acquireExclusive => w.writer || w.readers != 0
  | .waitForSingleObject h millis => (w.wait h millis).isNone
  | .getOverlappedResult _ event _ millis => millis == infinite && w.waiting event
  | _ => false

/-- No thread can go on and none can begin, unless a client calls something or the driver ends an
operation. -/
structure Stuck (rounds : ℕ) (P : ThreadPool) : Prop where
  step : ∀ i o, P.move (threads rounds) (.step i o) = none
  begin : ∀ h proc, P.move (threads rounds) (.arrive (.thread h proc)) = none

section
variable {d : Device} {v : View} {vs : List View} {w : Shared} {c : Call} {rounds : ℕ} {P : ThreadPool}
  {t : Thread Job Call Call.Resp}

theorem exec_blocked (hc : c.blocked w = true) (o : ThreadOutcome) : Shared.exec c o w = none := by
  cases c with
  | acquireShared =>
    have hwriter : w.writer = true := hc
    cases o <;> simp [Shared.exec, ThreadOutcome.ok?, hwriter]
  | acquireExclusive =>
    have hheld : (w.writer || w.readers != 0) = true := hc
    cases o <;> simp only [Shared.exec, ThreadOutcome.ok?, hheld, if_true, Option.bind_none, Option.bind_some]
  | waitForSingleObject h millis =>
    have hwait : w.wait h millis = none := Option.isNone_iff_eq_none.mp hc
    cases o <;> simp [Shared.exec, ThreadOutcome.ok?, hwait]
  | getOverlappedResult file event block millis =>
    simp only [Call.blocked, Bool.and_eq_true, beq_iff_eq] at hc
    cases o <;> simp [Shared.exec, ThreadOutcome.result?, Shared.overlappedResult, hc.1, hc.2]
  | _ => cases hc

/-- Every call that a view allows can come back, but for those that are blocked. -/
theorem exec_of_may (hmay : v.may d c) (hc : c ≠ .forever) (hfree : c.blocked w = false) :
    ∃ o, Shared.exec c o w ≠ none := by
  cases c with
  | getLastError => exact ⟨.code 0, by simp [Shared.exec, ThreadOutcome.code?]⟩
  | createEvent | heapAlloc | heapReAlloc | createThread =>
    exact ⟨.fail, by
      simp [Shared.exec, ThreadOutcome.handle?, ThreadOutcome.block?, Shared.newHandle, Shared.newBlock,
        Shared.newThread]⟩
  | deviceIoControl | writeFile => exact ⟨.flag true, by simp [Shared.exec, ThreadOutcome.flag?]⟩
  | acquireShared =>
    have hwriter : w.writer = false := hfree
    exact ⟨.ok, by simp [Shared.exec, ThreadOutcome.ok?, hwriter]⟩
  | acquireExclusive =>
    have hheld : (w.writer || w.readers != 0) = false := hfree
    refine ⟨.ok, ?_⟩
    simp only [Shared.exec, ThreadOutcome.ok?, hheld, Option.bind_some]
    simp
  | waitForSingleObject h millis =>
    have hwait : w.wait h millis ≠ none := fun hnone => by
      simp [Call.blocked, hnone] at hfree
    exact ⟨.ok, by simpa [Shared.exec, ThreadOutcome.ok?] using hwait⟩
  | getNextEvent => exact ⟨.result .failed, by simp [Shared.exec, ThreadOutcome.result?, Shared.beginOp]⟩
  | getOverlappedResult file event block millis =>
    cases hwaiting : w.waiting event with
    | true =>
      have hmillis : millis ≠ infinite := by simpa [Call.blocked, hwaiting] using hfree
      exact ⟨.result .timeout, by
        simp [Shared.exec, ThreadOutcome.result?, Shared.overlappedResult, hwaiting, hmillis]⟩
    | false =>
      refine ⟨.result .failed, ?_⟩
      simp only [Shared.exec, ThreadOutcome.result?, Shared.overlappedResult, hwaiting, Shared.endOp, Option.bind_some]
      by_cases hop : (event, block) ∈ w.ops <;> simp [hop]
  | createWaitableTimer | createFile | allocDevice | freeDevice | accessViolation => exact hmay.elim
  | forever => exact absurd rfl hc
  | _ => exact ⟨.ok, by simp [Shared.exec, ThreadOutcome.ok?]⟩

theorem Stuck.exec (h : Stuck rounds P) (ht : t ∈ P.threads) (hc : t.prog.next? = some c)
    (o : ThreadOutcome) : Shared.exec c o P.world = none := by
  obtain ⟨job, prog⟩ := t
  cases prog with
  | ret a => cases hc
  | call c' k =>
    cases hc
    obtain ⟨i, hi, hget⟩ := List.getElem_of_mem ht
    have hstep := h.step i o
    simpa [Pool.move, List.getElem?_eq_getElem hi, hget, threads] using hstep

theorem Stuck.begun (h : Stuck rounds P) : P.world.created = 0 := by
  refine Multiset.eq_zero_of_forall_notMem fun x hx => ?_
  have hbegin := h.begin x.1 x.2
  simp [Pool.move, threads, Job.begin, hx] at hbegin

theorem Stuck.waits (h : Stuck rounds P) (ht : t ∈ P.threads) (hc : t.prog.next? = some c)
    (hmay : v.may d c) (hfollowed : t.prog.next? ≠ some .forever) : c.blocked P.world = true := by
  cases hb : c.blocked P.world with
  | true => rfl
  | false =>
    have hne : c ≠ .forever := fun he => hfollowed (hc.trans (congrArg some he))
    obtain ⟨o, ho⟩ := exec_of_may hmay hne hb
    exact absurd (h.exec ht hc o) ho

theorem grip_of_blocked (hmay : v.may d c) (hc : c.blocked w = true) : v.grip = .free := by
  cases c with
  | acquireShared | acquireExclusive | getOverlappedResult => exact hmay
  | waitForSingleObject => exact hmay.1
  | _ => cases hc

/-- In a pool that is stuck each thread has come to an end or is blocked, and none has the lock. -/
theorem Stuck.thread (h : Stuck rounds P) (hagree : (locking d).Agree P vs)
    (hfollowed : ∀ t ∈ P.threads, t.prog.next? ≠ some .forever) (hv : v ∈ vs) :
    v.grip = .free ∧ ∃ t ∈ P.threads, (locking d).of t.label v ∧
      (v.self = none ∨ ∃ c, t.prog.next? = some c ∧ v.may d c ∧ c.blocked P.world = true) := by
  obtain ⟨⟨job, prog⟩, ht, hof, hfollows⟩ := hagree.thread hv
  cases prog with
  | ret a => exact ⟨hfollows.1, _, ht, hof, .inl hfollows.2⟩
  | call c k =>
    have hmay : v.may d c := hfollows.1
    have hblocked := h.waits ht rfl hmay (hfollowed _ ht)
    exact ⟨grip_of_blocked hmay hblocked, _, ht, hof, .inr ⟨c, rfl, hmay, hblocked⟩⟩

/-- An object of the read thread that nobody signalled. -/
def Silent (w : Shared) (h : Handle) : Prop :=
  some h = w.device.readReportReadyEvent ∧ w.ready = false ∨ some h = w.device.throttlingTimer ∧ w.timer = false

theorem wait_none {h : Handle} {millis : UInt32} (hw : w.wait h millis = none) :
    Silent w h ∨ some h ≠ w.device.readReportReadyEvent ∧ some h ≠ w.device.throttlingTimer ∧ h ∈ w.alive := by
  unfold Shared.wait at hw
  split_ifs at hw with hready hsignalled hmillis htimer hset hmillis halive hmillis
  · exact .inl (.inl ⟨hready, by simpa using hsignalled⟩)
  · exact .inl (.inr ⟨htimer, by simpa using hset⟩)
  · exact .inr ⟨hready, htimer, halive⟩

/-- The thread waits for an object of the read thread, in vain. -/
def AwaitsRead (w : Shared) (t : Thread Job Call Call.Resp) : Prop :=
  ∃ h millis, t.prog.next? = some (.waitForSingleObject h millis) ∧ Silent w h

theorem stopped_blocked (hinv : LockInv d vs P.world) (hfree : ∀ v ∈ vs, v.grip = .free)
    (hstopped : P.world.device.state = .stopped) (hc : c.blocked P.world = true) :
    ∃ h millis, c = .waitForSingleObject h millis ∧ P.world.wait h millis = none := by
  have hwriter : P.world.writer = false := by
    have hw := hinv.writer
    rw [List.countP_eq_zero.mpr fun v hv => by simp [hfree v hv, Grip.isExclusive]] at hw
    simpa using hw.symm
  have hreaders : P.world.readers = 0 := by
    rw [hinv.readers]
    exact List.countP_eq_zero.mpr fun v hv => by simp [hfree v hv, Grip.isShared]
  cases c with
  | acquireShared => simp [Call.blocked, hwriter] at hc
  | acquireExclusive => simp [Call.blocked, hwriter, hreaders] at hc
  | waitForSingleObject h millis => exact ⟨h, millis, rfl, Option.isNone_iff_eq_none.mp hc⟩
  | getOverlappedResult file event block millis =>
    have hwaiting : P.world.waiting event = false :=
      hinv.cancelled hstopped (fun v hv => by rw [hfree v hv]; exact free_ne_stopping) event
    simp [Call.blocked, hwaiting] at hc
  | _ => cases hc

theorem thread_of_view {job : Job} {x : Handle} (h : job.view.self = some x) :
    ∃ proc, job = .thread x proc := by
  cases job with
  | thread y proc =>
    cases h
    exact ⟨proc, rfl⟩
  | _ => cases h

theorem Stuck.stopped (hstuck : Stuck rounds P) (hagree : (locking d).Agree P vs)
    (hstopped : P.world.device.state = .stopped)
    (hfollowed : ∀ t ∈ P.threads, t.prog.next? ≠ some .forever) (ht : t ∈ P.threads) :
    t.prog.isRet = true ∨ AwaitsRead P.world t ∨
      ∃ x millis, t.prog.next? = some (.waitForSingleObject x millis) ∧
        ∃ t' ∈ P.threads, (∃ proc, t'.label = .thread x proc) ∧ AwaitsRead P.world t' := by
  have hinv : LockInv d vs P.world := hagree.inv
  have hfree (v : View) (hv : v ∈ vs) : v.grip = .free := (hstuck.thread hagree hfollowed hv).1
  cases hp : t.prog with
  | ret a => exact .inl rfl
  | call c k =>
    have hc : t.prog.next? = some c := by rw [hp]; rfl
    obtain ⟨v, -, hmay⟩ := agree_may hagree ht hc
    have hblocked := hstuck.waits ht hc hmay (hfollowed t ht)
    obtain ⟨x, millis, rfl, hwait⟩ := stopped_blocked hinv hfree hstopped hblocked
    rw [← hp]
    rcases wait_none hwait with hsilent | ⟨-, -, halive⟩
    · exact .inr (.inl ⟨x, millis, hc, hsilent⟩)
    · -- The thread that is waited for has not ended, and does not wait for a thread itself.
      rw [hinv.alive, hstuck.begun, Multiset.map_zero, add_zero, Multiset.mem_coe, List.mem_filterMap] at halive
      obtain ⟨v', hv', hself⟩ := halive
      obtain ⟨-, t', ht', hof, hend⟩ := hstuck.thread hagree hfollowed hv'
      rcases hend with hnone | ⟨c', hc', hmay', hblocked'⟩
      · rw [hself] at hnone
        cases hnone
      · obtain ⟨y, millis', rfl, hwait'⟩ := stopped_blocked hinv hfree hstopped hblocked'
        have hown := hmay'.2 (by rw [hself]; rfl)
        rw [← hinv.objects.ready, ← hinv.objects.timer] at hown
        refine .inr (.inr ⟨x, millis, hc, t', ht', ?_, y, millis', hc', ?_⟩)
        · have hlabel : v'.self = none ∨ v'.self = t'.label.view.self := hof
          rw [hself] at hlabel
          exact thread_of_view (hlabel.resolve_left (by simp)).symm
        · rcases wait_none hwait' with hsilent | ⟨hready, htimer, -⟩
          · exact hsilent
          · exact absurd hown (not_or.mpr ⟨hready, htimer⟩)

/-- If a device is stopped and yet the threads are stuck, those that have not ended wait for an object of
the read thread, or for a thread that does. -/
theorem stuck_waits_for_read (hd : JustCreated d) (h : Reachable rounds d P)
    (hstopped : P.world.device.state = .stopped) (hstuck : Stuck rounds P)
    (hfollowed : ∀ t ∈ P.threads, t.prog.next? ≠ some .forever) (ht : t ∈ P.threads) :
    t.prog.isRet = true ∨ AwaitsRead P.world t ∨
      ∃ x millis, t.prog.next? = some (.waitForSingleObject x millis) ∧
        ∃ t' ∈ P.threads, (∃ proc, t'.label = .thread x proc) ∧ AwaitsRead P.world t' := by
  obtain ⟨vs, hagree⟩ := h.views hd
  exact hstuck.stopped hagree hstopped hfollowed ht

/-- A device without throttling is stopped for good: every function that was called on it returns, and the
threads of the library end. -/
theorem stop_ends (hd : JustCreated d) (hplain : d.throttlingTimer = none) (h : Reachable rounds d P)
    (hstopped : P.world.device.state = .stopped) (hstuck : Stuck rounds P)
    (hfollowed : ∀ t ∈ P.threads, t.prog.next? ≠ some .forever) : P.quiet = true := by
  obtain ⟨vs, hagree⟩ := h.views hd
  have hobjects : SameObjects d P.world.device := (show LockInv d vs P.world from hagree.inv).objects
  have hready : d.readReportReadyEvent = none := by
    have hboth := hd.throttled
    rw [hplain] at hboth
    exact Option.isNone_iff_eq_none.mp (Option.isSome_eq_false_iff.mp hboth.symm)
  have hnever (u : Thread Job Call Call.Resp) : ¬ AwaitsRead P.world u := by
    rintro ⟨x, millis, -, ⟨hx, -⟩ | ⟨hx, -⟩⟩
    · rw [hobjects.ready, hready] at hx
      cases hx
    · rw [hobjects.timer, hplain] at hx
      cases hx
  refine List.all_eq_true.mpr fun t ht => ?_
  rcases hstuck.stopped hagree hstopped hfollowed ht with hret | hread | ⟨_, _, -, u, -, -, hread⟩
  · exact hret
  · exact absurd hread (hnever t)
  · exact absurd hread (hnever u)

end

/-! ## Runs -/

section
variable {rounds : ℕ} {P : ThreadPool}

/-- Every thread has begun, and has ended or is blocked. -/
def halted (P : ThreadPool) : Bool :=
  P.world.created.card == 0 && P.threads.all fun t => t.prog.next?.all (·.blocked P.world)

theorem halted_next (h : halted P = true) {t : Thread Job Call Call.Resp} (ht : t ∈ P.threads) {c : Call}
    (hc : t.prog.next? = some c) : c.blocked P.world = true := by
  simp only [halted, Bool.and_eq_true, List.all_eq_true] at h
  have hall := h.2 t ht
  rwa [hc] at hall

theorem halted_stuck (h : halted P = true) : Stuck rounds P := by
  constructor
  · intro i o
    cases ht : P.threads[i]? with
    | none => simp [Pool.move, ht]
    | some t =>
      obtain ⟨job, prog⟩ := t
      cases prog with
      | ret a => simp [Pool.move, ht]
      | call c k =>
        have hblocked := halted_next h (List.mem_of_getElem? ht) (c := c) rfl
        simp [Pool.move, ht, threads, exec_blocked hblocked]
  · intro x proc
    simp only [halted, Bool.and_eq_true, beq_iff_eq, Multiset.card_eq_zero] at h
    simp [Pool.move, threads, Job.begin, h.1]

theorem halted_followed (h : halted P = true) : ∀ t ∈ P.threads, t.prog.next? ≠ some .forever :=
  fun _ ht hc => absurd (halted_next h ht hc) (by simp [Call.blocked])

end

/-- A device is started with a callback, and stopped while its event thread waits for an event. -/
def stoppedWhilePolling : ThreadPool := go 2 (go 1 stopCalled)

theorem stop_ends_polling : Reachable 2 plainDevice stoppedWhilePolling ∧
    stoppedWhilePolling.threads.length = 3 ∧ stoppedWhilePolling.quiet = true := by
  have hreach : Reachable 2 plainDevice stoppedWhilePolling := stopCalled_reachable.drive.drive
  have hhalted : halted stoppedWhilePolling = true := by decide +kernel
  refine ⟨hreach, by decide +kernel, ?_⟩
  exact stop_ends ⟨rfl, rfl, rfl⟩ rfl hreach (by decide +kernel) (halted_stuck hhalted) (halted_followed hhalted)

/-- A report is submitted after `WinUHidStopDevice` has signalled the event of the read thread, and takes
the signal. -/
def stoppedWhileSubmitting : ThreadPool :=
  let waiting := go 1 (begin 2 (.thread 11 .read) (go 0 (begin 2 (.start none 0)
    ⟨[], Shared.init throttledDevice⟩)))
  go 1 (go 3 (begin 2 (.submit (some [0]) 1 0) (go 2 (begin 2 .stop waiting))))

/-- The thread is in `WinUHidStopDevice`, and waits for another. -/
def stopWaitsFor (x : Handle) (t : Thread Job Call Call.Resp) : Bool :=
  match t.label, t.prog.next? with
  | .stop, some (.waitForSingleObject h _) => h == x
  | _, _ => false

theorem stopWaitsFor_call {x : Handle} {t : Thread Job Call Call.Resp} (h : stopWaitsFor x t = true) :
    ∃ millis, t.prog.next? = some (.waitForSingleObject x millis) := by
  unfold stopWaitsFor at h
  split at h
  · next hc =>
    rw [beq_iff_eq] at h
    subst h
    exact ⟨_, hc⟩
  · cases h

/-- Then `WinUHidStopDevice` waits for the read thread, and the read thread for the event. -/
theorem stop_waits_for_read : Stuck 2 stoppedWhileSubmitting ∧
    ∃ t ∈ stoppedWhileSubmitting.threads, stopWaitsFor 11 t = true ∧
      ∃ t' ∈ stoppedWhileSubmitting.threads, (∃ proc, t'.label = .thread 11 proc) ∧
        AwaitsRead stoppedWhileSubmitting.world t' := by
  have hreach : Reachable 2 throttledDevice stoppedWhileSubmitting :=
    (show Runs 2 _ _ from Reach.init).begin.drive.begin.drive.begin.drive.begin.drive.drive
  have hhalted : halted stoppedWhileSubmitting = true := by decide +kernel
  have hstuck : Stuck 2 stoppedWhileSubmitting := halted_stuck hhalted
  obtain ⟨t, ht, hwaits⟩ := List.any_eq_true.mp
    (show stoppedWhileSubmitting.threads.any (stopWaitsFor 11) = true by decide +kernel)
  obtain ⟨millis, hc⟩ := stopWaitsFor_call hwaits
  refine ⟨hstuck, t, ht, hwaits, ?_⟩
  rcases stuck_waits_for_read ⟨rfl, rfl, rfl⟩ hreach (by decide +kernel) hstuck (halted_followed hhalted) ht with
    hret | ⟨x, _, hx, hsilent⟩ | ⟨x, _, hx, hread⟩
  · obtain ⟨a, ha⟩ := (Prog.isRet_iff _).mp hret
    rw [ha] at hc
    cases hc
  · rw [hc] at hx
    cases hx
    rcases hsilent with ⟨hx, -⟩ | ⟨hx, -⟩
    · exact absurd hx (by decide +kernel)
    · exact absurd hx (by decide +kernel)
  · rw [hc] at hx
    cases hx
    exact hread

end VirtualGun.WinUHid
