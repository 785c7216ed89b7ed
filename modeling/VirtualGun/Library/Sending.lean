import VirtualGun.Library.Creation

/-!
# Sending reports

A started device takes reports until it is destroyed. No callback is given and reads are not throttled,
so the device has no threads.
-/

open VirtualGun.Program VirtualGun.Driver

namespace VirtualGun.WinUHid

/-! ## The device in VHF -/

/-- VHF has the device of the configuration for this handle, and these reports of it. -/
structure Alive (config : DeviceConfig) (sent : List (List Byte)) (d : World) : Prop where
  created : ∃ status, d.vhf.filter VhfCall.createsDevice = [.create (vhfConfigOf config) false status]
  kept : ∀ c ∈ d.vhf, c.isDelete = false
  handle : d.file.vhfHandle.isSome
  accepted : d.acceptedReports = sent
  valid : d.file.lastReportValid = true ↔ sent ≠ []
  last : ∀ report, sent.getLast? = some report → d.file.lastReport = report
  length : d.file.lastReportValid = true → d.file.lastReport.length = vgunReportBytes

/-- The device is gone, and no button is down as far as VHF would have it. -/
structure Retired (d : World) : Prop where
  gone : d.deviceLive = false
  released : ∀ report, d.acceptedReports.getLast? = some report → pressed report →
    ∃ handle packet status, .submit handle packet status ∈ d.vhf ∧ ntSuccess status = false ∧
      packet.report = release report

section
variable {config : DeviceConfig} {sent : List (List Byte)} {d d' : World}

theorem Made.alive (h : Made config d) : Alive config [] d := by
  obtain ⟨status, hs, hvhf, hhandle⟩ := h.vhf
  obtain ⟨_, handle, hs', hcore⟩ := h.created
  have hvalid : d.file.lastReportValid = false := by
    have hfile := congrArg (·.file.lastReportValid) hcore
    rw [World.created, if_pos hs'] at hfile
    exact hfile.trans (configuredFile_spec config).2.2
  refine ⟨⟨status, ?_⟩, ?_, hhandle, ?_, by simp [hvalid], by simp, by simp [hvalid]⟩
  · simp [hvhf, VhfCall.createsDevice, hs]
  · simp [hvhf, VhfCall.isDelete]
  · simp [World.acceptedReports, hvhf, VhfCall.acceptedReport]

theorem Alive.live (h : Alive config sent d) : d.deviceLive = true := by
  obtain ⟨status, hcreated⟩ := h.created
  have hmem : VhfCall.create (vhfConfigOf config) false status ∈ d.vhf.filter VhfCall.createsDevice := by
    rw [hcreated]
    exact List.mem_singleton_self _
  obtain ⟨hmem, hs⟩ := List.mem_filter.mp hmem
  have hany : d.vhf.any VhfCall.createsDevice = true := List.any_eq_true.mpr ⟨_, hmem, hs⟩
  have hkept : d.vhf.any VhfCall.isDelete = false := by
    rw [List.any_eq_false]
    intro c hc
    rw [h.kept c hc]
    simp
  rw [World.deviceLive, hany, hkept]
  rfl

theorem Alive.calls (h : Alive config sent d) (hfile : (core d').file = (core d).file)
    {calls : List VhfCall} (hvhf : (core d').vhf = (core d).vhf ++ calls)
    (hcalls : ∀ c ∈ calls, c.createsDevice = false ∧ c.isDelete = false ∧ c.acceptedReport = none) :
    Alive config sent d' := by
  have hfile : d'.file = d.file := hfile
  have hvhf : d'.vhf = d.vhf ++ calls := hvhf
  have hnone : calls.filter VhfCall.createsDevice = [] :=
    List.filter_eq_nil_iff.mpr fun c hc => by simp [(hcalls c hc).1]
  have hreports : calls.filterMap VhfCall.acceptedReport = [] :=
    List.filterMap_eq_nil_iff.mpr fun c hc => (hcalls c hc).2.2
  refine ⟨?_, fun c hc => ?_, by rw [hfile]; exact h.handle, ?_, by rw [hfile]; exact h.valid,
    by rw [hfile]; exact h.last, by rw [hfile]; exact h.length⟩
  · rw [hvhf, List.filter_append, hnone, List.append_nil]
    exact h.created
  · rw [hvhf] at hc
    rcases List.mem_append.mp hc with hc | hc
    · exact h.kept c hc
    · exact (hcalls c hc).2.1
  · rw [World.acceptedReports, hvhf, List.filterMap_append, hreports, List.append_nil]
    exact h.accepted

theorem Alive.refused (h : Alive config sent d) (hd : core d' = core d ∨ Refused (core d) (core d')) :
    Alive config sent d' := by
  rcases hd with hd | hd
  · have hvhf : (core d').vhf = (core d).vhf ++ [] := by rw [hd, List.append_nil]
    exact h.calls (by rw [hd]) hvhf (by simp)
  · obtain ⟨hfile, calls, hvhf, hcalls⟩ := hd
    exact h.calls hfile hvhf hcalls

theorem Alive.send (h : Alive config sent d) {report : List Byte} (hlen : report.length = vgunReportBytes)
    {status : NTSTATUS} {handle : VhfHandle} (hs : ntSuccess status = true)
    (hcore : core d' = { (core d).call (.submit handle (writePacket report (core d).file) status) with
      file := stored report (core d).file }) :
    Alive config (sent ++ [report]) d' := by
  have hvhf : d'.vhf = d.vhf ++ [.submit handle (writePacket report d.file) status] :=
    congrArg World.vhf hcore
  have hfile : d'.file = { d.file with lastReport := report, lastReportValid := true } := by
    have hfile : d'.file = stored report d.file := congrArg World.file hcore
    rw [hfile, stored, if_pos hlen]
  have hpacket : (writePacket report d.file).report = report :=
    writePacket_report (by rw [hlen]; decide)
  refine ⟨?_, fun c hc => ?_, by rw [hfile]; exact h.handle, ?_, by simp [hfile], ?_, by simp [hfile, hlen]⟩
  · rw [hvhf, List.filter_append]
    simpa [VhfCall.createsDevice] using h.created
  · rw [hvhf] at hc
    rcases List.mem_append.mp hc with hc | hc
    · exact h.kept c hc
    · rw [List.mem_singleton.mp hc]
      rfl
  · rw [World.acceptedReports, hvhf, List.filterMap_append, ← World.acceptedReports, h.accepted]
    simp [VhfCall.acceptedReport, hs, hpacket]
  · simp [hfile]

/-- The close deletes the device, and releases its buttons unless VHF refuses that. -/
theorem Alive.close (h : Alive config sent d) {os : List Driver.Outcome}
    (hclose : driver.handle .close os d = some ((), d')) : Retired d' := by
  obtain ⟨status, hvhf⟩ := close_vhf hclose
  obtain ⟨handle, hhandle⟩ := Option.isSome_iff_exists.mp h.handle
  have hrundown : (rundownSection d.file).2.1.filterMap VhfCall.acceptedReport = [] := by
    refine List.filterMap_eq_nil_iff.mpr fun c hc => ?_
    obtain ⟨_, _, rfl⟩ := rundown_completes _ _ hc
    rfl
  have haccepted : d'.acceptedReports = sent ++ (closeCalls d.file status).filterMap VhfCall.acceptedReport := by
    rw [World.acceptedReports, hvhf, List.filterMap_append, List.filterMap_append, hrundown, List.append_nil,
      ← World.acceptedReports, h.accepted]
  constructor
  · have hdelete : VhfCall.delete handle ∈ closeCalls d.file status := by
      simp only [closeCalls, hhandle]
      split <;> simp
    have hany : d'.vhf.any VhfCall.isDelete = true :=
      List.any_eq_true.mpr ⟨_, by rw [hvhf]; exact List.mem_append_right _ hdelete, rfl⟩
    rw [World.deviceLive, hany]
    simp
  · intro report hlast hpressed
    by_cases hr : d.file.lastReportValid && pressed d.file.lastReport
    · -- the release was submitted, and was not the last report VHF accepted
      have hlen := h.length (by simpa using (Bool.and_eq_true_iff.mp hr).1)
      have hne : d.file.lastReport ≠ [] := by
        intro he
        simp [he, vgunReportBytes] at hlen
      have hrelease := releasePacket_report hlen
      have hcalls : closeCalls d.file status = [.submit handle (releasePacket d.file) status, .delete handle] := by
        simp only [closeCalls, hhandle, if_pos hr]
      have hs : ntSuccess status = false := by
        by_contra hs
        simp only [haccepted, hcalls, List.filterMap_cons, List.filterMap_nil, VhfCall.acceptedReport,
          (Bool.not_eq_false _).mp hs, if_true, hrelease, List.getLast?_append, List.getLast?_singleton,
          Option.some_or, Option.some.injEq] at hlast
        rw [← hlast, release_unpressed hne] at hpressed
        cases hpressed
      have hsent : d'.acceptedReports = sent := by
        simp [haccepted, hcalls, VhfCall.acceptedReport, hs]
      rw [hsent] at hlast
      refine ⟨handle, releasePacket d.file, status, ?_, hs, ?_⟩
      · rw [hvhf, hcalls]
        simp
      · rw [hrelease, h.last report hlast]
    · -- nothing was released: the last report has no button down
      have hcalls : closeCalls d.file status = [.delete handle] := by
        simp only [closeCalls, hhandle, if_neg hr]
      have hsent : d'.acceptedReports = sent := by
        simp [haccepted, hcalls, VhfCall.acceptedReport]
      rw [hsent] at hlast
      refine absurd ?_ hr
      have hne : sent ≠ [] := by
        rintro rfl
        cases hlast
      rw [h.valid.mpr hne, h.last report hlast, hpressed]
      rfl

end

/-! ## The device of a session -/

/-- The session has a device in this state, made for the configuration, that sent these reports. It has no
thread and no timer. -/
structure Session.Gun (config : DeviceConfig) (state : DeviceState) (sent : List (List Byte))
    (hs : Multiset Handle) (s : Session) : Prop where
  has : ∃ dev, s.Has dev hs ∧ dev.state = state ∧ dev.eventThread = none ∧ dev.readThread = none ∧
    dev.throttlingTimer = none ∧ dev.readReportReadyEvent = none
  alive : ∃ h d, s.file = some (h, d) ∧ Alive config sent d

/-- Sessions with the same blocks and the same closed handles. -/
def Session.Same (s s' : Session) : Prop := s'.blocks = s.blocks ∧ s'.closed = s.closed

section
variable {config : DeviceConfig} {sent : List (List Byte)} {s : Session} {hs : Multiset Handle}
  {h : Handle} {d : World} {Q : Bool → Session → Prop}

theorem gun_of_made {dev : Device} (hhas : s.Has dev hs) (hfresh : Fresh config dev)
    (hthrottles : throttles config = false) (hfile : s.file = some (h, d)) (hmade : Made config d) :
    s.Gun config .created [] hs := by
  obtain ⟨htimer, hready⟩ := hfresh.throttled hthrottles
  exact ⟨⟨dev, hhas, hfresh.state, hfresh.threads.1, hfresh.threads.2, htimer, hready⟩, h, d, hfile, hmade.alive⟩

theorem sync_own_does {code : RequestCode} {input : List Byte} {done failed : World → World → Prop}
    (hrun : Handles .ioctl code input done failed) (hfile : s.file = some (h, d))
    (hyes : ∀ d', done (core d) (core d') → Q true { s with file := some (h, d') })
    (hno : ∀ d', core d' = core d ∨ failed (core d) (core d') → Q false { s with file := some (h, d') }) :
    Does Q (deviceIoControlInSync (some h) none code input) s := by
  unfold deviceIoControlInSync perform
  rw [Prog.perform_bind]
  refine does_createEvent ?_ fun event hevent => ?_
  · have hend := hno d (.inl rfl)
    rw [← hfile] at hend
    exact ⟨trivial, hend⟩
  · simp only [Prog.perform_bind]
    refine ⟨trivial, fun o b s' he => ?_⟩
    obtain ⟨d', rfl, hcase⟩ := request_cases (s := { s with handles := event ::ₘ s.handles }) hrun hfile he
    refine does_closeHandle ?_ ⟨trivial, ?_⟩
    · rintro d'' ⟨⟩
      exact (holds_eq_false.mp hevent).2 d hfile
    · simp only [Multiset.erase_cons_head]
      cases b with
      | true => exact hyes d' (by simpa using hcase)
      | false => exact hno d' (by simpa using hcase)

theorem startEventThread_does
    (hQ : Q true { s with device := s.device.map fun d => { d with eventCallback := none, callbackContext := 0 } }) :
    Does Q (startEventThread none 0) s := by
  unfold startEventThread perform
  rw [Prog.perform_bind]
  exact does_modifyDevice ⟨trivial, hQ⟩

theorem startReadThread_does {dev : Device} (hdev : s.device = some dev) (htimer : dev.throttlingTimer = none)
    (hQ : Q true s) : Does Q startReadThread s := by
  unfold startReadThread perform
  rw [Prog.perform_bind]
  refine does_readDevice hdev ?_
  rw [htimer]
  exact ⟨trivial, hQ⟩

theorem joinThread_does {dev : Device} {thread : Device → Option Handle} {forget : Device → Device}
    {Q : Unit → Session → Prop} (hdev : s.device = some dev) (hnone : thread dev = none) (hQ : Q () s) :
    Does Q (joinThread thread forget) s := by
  unfold joinThread perform
  rw [Prog.perform_bind]
  refine does_readDevice hdev ?_
  rw [hnone]
  exact ⟨trivial, hQ⟩

theorem stopThread_does {dev : Device} {thread : Device → Option Handle} {forget : Device → Device}
    {wake : Lib Unit} {Q : Unit → Session → Prop} (hdev : s.device = some dev) (hnone : thread dev = none)
    (hQ : Q () s) : Does Q (stopThread thread forget wake) s := by
  unfold stopThread perform
  rw [Prog.perform_bind]
  refine does_readDevice hdev ?_
  rw [hnone]
  exact ⟨trivial, hQ⟩

theorem winUHidStartDevice_does (hgun : s.Gun config .created sent hs) :
    Does (fun b s' => s'.Gun config (if b then .started else .created) sent hs ∧ s.Same s')
      (winUHidStartDevice true none 0) s := by
  obtain ⟨⟨⟨handle, _, hint, _, callback, context, _, _, period, _⟩, hhas, rfl, rfl, rfl, rfl, rfl⟩,
    h, d, hfile, halive⟩ := hgun
  obtain rfl : handle = some h := by rw [show handle = _ from hhas.file, hfile]; rfl
  have hgun' (state : DeviceState) (d' : World) (halive' : Alive config sent d') :
      Session.Gun config state sent hs
        { s with
          device := some ⟨some h, state, hint, none, none, 0, none, none, period, none⟩
          file := some (h, d') } := by
    refine ⟨⟨_, ⟨rfl, rfl, hhas.handles, hhas.pending, ?_⟩, rfl, rfl, rfl, rfl, rfl⟩, h, d', rfl, halive'⟩
    rintro _ _ ⟨⟩
    exact hhas.apart h d hfile
  unfold winUHidStartDevice perform
  simp only [Bool.not_true, Bool.false_eq_true, if_false, Prog.perform_bind]
  refine does_idle rfl fun _ => does_readDevice hhas.device ?_
  rw [if_neg (by simp)]
  refine (wp_bind _ _).mpr (startEventThread_does ?_)
  simp only [Bool.not_true, Bool.false_eq_true, if_false, hhas.device, Option.map_some]
  refine (wp_bind _ _).mpr (startReadThread_does rfl rfl ?_)
  simp only [Bool.not_true, Bool.false_eq_true, if_false]
  refine does_readDevice rfl ((wp_bind _ _).mpr ?_)
  refine sync_own_does startDevice_handles hfile (fun d' hd' => ?_) fun d' hd' => ?_
  · obtain ⟨status, handle, -, -, hcore⟩ := hd'
    simp only [Bool.not_true, Bool.false_eq_true, if_false]
    refine does_setState (does_idle rfl fun _ => ⟨trivial, hgun' .started d' ?_, rfl, rfl⟩)
    have hvhf : (core d').vhf = (core d).vhf ++ [.start handle status] := by
      rw [hcore]
      rfl
    exact halive.calls (by rw [hcore]; rfl) hvhf
      (by simp [VhfCall.createsDevice, VhfCall.isDelete, VhfCall.acceptedReport])
  · simp only [Bool.not_false, if_true]
    refine does_idle rfl fun _ => (wp_bind _ _).mpr (joinThread_does rfl rfl ?_)
    refine (wp_bind _ _).mpr (joinThread_does rfl rfl ⟨trivial, ?_, rfl, rfl⟩)
    exact hgun' .created d' (halive.refused hd')

theorem winUHidSubmitInputReport_does {state : DeviceState} {report : List Byte} {stack : Byte}
    (hgun : s.Gun config state sent hs) (hlen : report.length = vgunReportBytes) :
    Does (fun b s' => s'.Gun config state (if b then sent ++ [report] else sent) hs ∧ s.Same s')
      (winUHidSubmitInputReport true (some report) vgunReportBytes.toUInt32 stack) s := by
  obtain ⟨⟨⟨handle, _, hint, _, callback, context, _, _, period, _⟩, hhas, hstate, rfl, rfl, rfl, rfl⟩,
    h, d, hfile, halive⟩ := hgun
  obtain rfl : handle = some h := by rw [show handle = _ from hhas.file, hfile]; rfl
  have hgun' {sent' : List (List Byte)} (d' : World) (halive' : Alive config sent' d') :
      Session.Gun config state sent' hs { s with file := some (h, d') } := by
    refine ⟨⟨_, ⟨hhas.device, rfl, hhas.handles, hhas.pending, ?_⟩, hstate, rfl, rfl, rfl, rfl⟩, h, d', rfl, halive'⟩
    rintro _ _ ⟨⟩
    exact hhas.apart h d hfile
  have hwhole : report.take vgunReportBytes.toUInt32.toNat = report :=
    List.take_of_length_le (by rw [hlen]; decide)
  have hsize : (!true || decide (vgunReportBytes.toUInt32 = 0)) = false := rfl
  unfold winUHidSubmitInputReport perform
  simp only [hsize, Bool.false_eq_true, if_false, Prog.perform_bind]
  refine does_readDevice hhas.device ?_
  simp only
  refine does_createEvent ⟨trivial, ?_, rfl, rfl⟩ fun event hevent => ?_
  · have hsame := hgun' d halive
    rw [← hfile] at hsame
    exact hsame
  · let s₁ : Session := { s with handles := event ::ₘ s.handles }
    refine ⟨trivial, fun o b s' he => ?_⟩
    have hrequest : request .write .write (report.take vgunReportBytes.toUInt32.toNat) (some h) s₁ o =
        some (b, s') := he
    rw [hwhole] at hrequest
    obtain ⟨d', rfl, hcase⟩ := request_cases (s := s₁) write_handles hfile hrequest
    refine does_closeHandle ?_ ⟨trivial, ?_⟩
    · rintro d'' ⟨⟩
      exact (holds_eq_false.mp hevent).2 d hfile
    · simp only [s₁, Multiset.erase_cons_head]
      cases b with
      | true =>
        simp only [if_true] at hcase
        obtain ⟨status, handle, hs, -, -, hcore⟩ := hcase
        exact ⟨hgun' d' (halive.send hlen hs hcore), rfl, rfl⟩
      | false => exact ⟨hgun' d' (halive.refused (by simpa using hcase)), rfl, rfl⟩

theorem winUHidStopDevice_does (hgun : s.Gun config .started sent hs) :
    Does (fun _ s' => s'.Gun config .stopped sent hs ∧ s.Same s') (winUHidStopDevice true) s := by
  obtain ⟨⟨⟨handle, _, hint, _, callback, context, _, _, period, _⟩, hhas, rfl, rfl, rfl, rfl, rfl⟩, hfile⟩ := hgun
  unfold winUHidStopDevice perform
  simp only [Bool.not_true, Bool.false_eq_true, if_false, Prog.perform_bind]
  refine does_idle rfl fun _ => does_readDevice hhas.device ?_
  simp only [if_true]
  refine does_setState (does_idle rfl fun _ => ?_)
  unfold stopEventThread stopReadThread
  simp only [hhas.device, Option.map_some]
  refine (wp_bind _ _).mpr (stopThread_does rfl rfl ?_)
  refine (wp_bind _ _).mpr (stopThread_does rfl rfl (does_idle rfl fun _ => ⟨trivial, ?_, rfl, rfl⟩))
  exact ⟨⟨_, ⟨rfl, hhas.file, hhas.handles, hhas.pending, hhas.apart⟩, rfl, rfl, rfl, rfl, rfl⟩, hfile⟩

theorem Session.Gun.destroy {state : DeviceState} {stack : Byte} (hgun : s.Gun config state sent hs)
    (hstate : state ≠ .started) :
    Does (fun _ s' => ∃ d, s' = s.destroyed hs [d] ∧ Retired d) (winUHidDestroyDevice true stack) s := by
  obtain ⟨⟨dev, hhas, rfl, -⟩, h, d, hfile, halive⟩ := hgun
  refine destroy_does hhas hstate (fun hnone => ?_) fun f d' os u hf hclose => ⟨u, rfl, ?_⟩
  · rw [hfile] at hnone
    cases hnone
  · obtain ⟨rfl, rfl⟩ := Prod.mk.inj (Option.some.inj (hfile.symm.trans hf))
    exact halive.close hclose

end

end VirtualGun.WinUHid
