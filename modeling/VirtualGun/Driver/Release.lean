import VirtualGun.Driver.Reports

/-!
# Releasing the buttons when the handle closes

Requests are handled one at a time. The close releases the buttons that are down, as long as
`COMPLETE_READ_EVENT` submits no pressed report the snapshot does not know of.
-/

open VirtualGun.Program

namespace VirtualGun.Driver

/-- VHF accepts no input report of another length than the lightgun's. -/
def gunReportsOnly : Call → Outcome → Bool
  | .vhfReadReportSubmit _ packet, .status s =>
    !ntSuccess s || packet.reportBufferLen == vgunReportBytes.toUInt32
  | _, _ => true

abbrev gunDriver : System Event Call Call.Resp Outcome World Unit := driver.only gunReportsOnly

/-- The close ended with the release of this report and the deletion of the device. -/
def Released (report : List Byte) (v w' : World) : Prop :=
  ∃ before handle packet s,
    w'.vhf = v.vhf ++ before ++ [.submit handle packet s, .delete handle] ∧
      (∀ c ∈ before, c.isDelete = false) ∧ packet.report = release report

/-- Closing the handle releases the buttons of the last report VHF accepted. -/
def CloseReleases (w : World) : Prop :=
  ∀ v w' report, gunDriver.arrive .close w = some v →
    Steps gunDriver.exec (gunDriver.handler .close) v (.ret ()) w' →
    w.acceptedReports.getLast? = some report → pressed report → Released report v w'

/-- The pressed report VHF accepted last is the snapshot, up to its buttons. -/
def SnapshotReleases (w : World) : Prop :=
  ∀ report, w.acceptedReports.getLast? = some report → pressed report → w.file.Releases report

/-- A report VHF accepts from a `COMPLETE_READ_EVENT` has no button down, or the snapshot of the
moment before has one down at the same coordinates. -/
def KeepsSnapshot (l : Event) (v w' : World) : Prop :=
  ∀ request, l = .ioctl request → request.code = .completeReadEvent →
    ∀ report, w'.acceptedReports = v.acceptedReports ++ [report] → pressed report →
      v.file.Releases report

/-! ## What holds between runs -/

def OnlyGunReports (w : World) : Prop :=
  ∀ report ∈ w.acceptedReports, report.length = vgunReportBytes

structure ReleaseRest (w : World) : Prop where
  parked : ParkedEvents w
  reports : OnlyGunReports w
  length : w.closing = false → w.file.lastReport.length = vgunReportBytes
  handle : w.closing = false → w.acceptedReports ≠ [] → w.file.vhfHandle.isSome

theorem ReleaseRest.opened : ReleaseRest World.opened where
  parked := by simp [ParkedEvents, World.opened]
  reports := by simp [OnlyGunReports, World.acceptedReports, World.opened]
  length _ := rfl
  handle _ h := absurd rfl h

section
variable {l : Event} {v w w' : World}

/-- VHF accepts reports of one length only, whatever handler submits them. -/
theorem exec_onlyGunReports {c : Call} {o : Outcome} {r : c.Resp} (hw : OnlyGunReports w)
    (he : gunDriver.exec c o w = some (r, w')) : OnlyGunReports w' := by
  obtain ⟨hok, he⟩ := Exec.only_eq_some.mp he
  by_cases hc : ∃ handle packet, c = .vhfReadReportSubmit handle packet
  · obtain ⟨handle, packet, rfl⟩ := hc
    obtain ⟨rfl, rfl⟩ := exec_submit.mp he
    by_cases hs : ntSuccess r = true
    · rw [OnlyGunReports, submit_accepted hs]
      have hlen : packet.reportBufferLen = vgunReportBytes.toUInt32 := by
        simpa [gunReportsOnly, hs] using hok
      simpa [or_imp, forall_and, HidXferPacket.report_length, hlen] using ⟨hw, by decide⟩
    · rw [OnlyGunReports, (submit_refused (by simpa using hs)).reports]
      exact hw
  · rw [OnlyGunReports, exec_reports (by simpa using hc) he]
    exact hw

theorem gun_steps {p q : Handler Unit}
    (hs : Steps gunDriver.exec p v q w') : Steps exec p v q w' :=
  hs.of_only

theorem ReleaseRest.arrive (hw : ReleaseRest w) (ha : gunDriver.arrive l w = some v) :
    v.file = w.file ∧ v.acceptedReports = w.acceptedReports ∧ ParkedEvents v ∧
      (v.closing = false → w.closing = false) ∧ (l = .close → v.closing = true) ∧
      (∀ request, l = .ioctl request → v.closing = false) := by
  have hp := hw.parked
  cases l <;> simp only [System.only, driver, VirtualGun.Driver.arrive, World.accept,
    Option.ite_none_left_eq_some, Option.ite_none_right_eq_some, Option.some.injEq] at ha <;>
    grind [ParkedEvents, World.acceptedReports]

theorem ReleaseRest.run (hw : ReleaseRest w) (ha : gunDriver.arrive l w = some v)
    (hs : Steps gunDriver.exec (gunDriver.handler l) v (.ret ()) w') :
    ReleaseRest w' ∧ RunReports l v w' := by
  obtain ⟨hfile, hreports, hparked, hclosing, hclose, -⟩ := hw.arrive ha
  have hlen : OnlyGunReports w' := hs.keeps (fun _ _ _ _ _ => exec_onlyGunReports)
    (by rw [OnlyGunReports, hreports]; exact hw.reports)
  obtain ⟨hparked', hrun⟩ := (gun_steps hs).post (handler_reports l hparked)
  have hsame (h : SameReports v w') : ReleaseRest w' :=
    ⟨hparked', hlen, fun hc => h.lastReport ▸ hfile ▸ hw.length (hclosing (h.closing ▸ hc)),
      fun hc hne => h.handle (hfile ▸ hw.handle (hclosing (h.closing ▸ hc)) (hreports ▸ h.reports ▸ hne))⟩
  refine ⟨?_, hrun⟩
  cases l with
  | ioctl request =>
    have hrun := hrun.2
    simp only at hrun
    split at hrun
    · rcases hrun with h | h
      · exact hsame h
      · exact ⟨hparked', hlen,
          fun hc => h.lastReport ▸ hfile ▸ hw.length (hclosing (h.closing ▸ hc)),
          fun _ _ => h.handle.2⟩
    · exact hsame hrun
  | write request =>
    rcases hrun.2 with h | h
    · exact hsame h
    · refine ⟨hparked', hlen, fun hc => ?_, fun _ _ => h.handle.2⟩
      rw [h.lastReport, stored]
      split
      · next hin => exact hin
      · exact hfile ▸ hw.length (hclosing (h.closing ▸ hc))
  | asyncOperation | readyForNextReadReport => exact hsame hrun.2
  | close =>
    have hc : w'.closing = true := hrun.1.trans (hclose rfl)
    exact ⟨hparked', hlen, by simp [hc], by simp [hc]⟩

/-! ## The close -/

theorem release_length (report : List Byte) : (release report).length = report.length := by
  simp [release]

theorem releasePacket_report {f : FileContext} (h : f.lastReport.length = vgunReportBytes) :
    (releasePacket f).report = release f.lastReport := by
  have hlen : vgunReportBytes.toUInt32.toNat = (release f.lastReport).length := by
    rw [release_length, h]
    rfl
  rw [HidXferPacket.report, releasePacket, hlen, Ptr.bytes_whole]

theorem rundown_completes (f : FileContext) :
    ∀ c ∈ (rundownSection f).2.1, ∃ handle s, c = .complete handle s := by
  simp only [rundownSection, List.mem_append, List.mem_filterMap, rundownCall]
  grind

/-- A close runs to its end when VHF takes the release. -/
theorem close_finishes (ok : Call → Outcome → Bool) {handle : VhfHandle}
    (hh : v.file.vhfHandle = some handle) (hok : ∀ c, ok c .ok = true)
    (hsubmit : ok (.vhfReadReportSubmit handle (releasePacket v.file)) (.status Status.success)) :
    ∃ w', Steps (driver.only ok).exec (driver.handler .close) v (.ret ()) w' ∧
      w'.vhf = v.afterRundown.vhf ++ closeCalls v.file Status.success := by
  have hcall {c : Call} {r : c.Resp} {u u' : World} (h : exec c .ok u = some (r, u')) :
      (driver.only ok).exec c .ok u = some (r, u') :=
    Exec.only_eq_some.mpr ⟨hok c, h⟩
  have hres : (rundownSection v.file).1.vhfHandle = some handle := hh
  by_cases hr : (v.file.lastReportValid && pressed v.file.lastReport) = true
  · refine ⟨(v.afterRundown.call (.submit handle (releasePacket v.file) Status.success)).call
      (.delete handle), .call (hcall rfl) ?_, by simp [closeCalls, hh, hr, World.call]⟩
    have hrel : (rundownSection v.file).1.releaseButtons = true := hr
    simp only [Prog.bind, hres, hrel, if_true]
    exact .call (Exec.only_eq_some.mpr ⟨hsubmit, rfl⟩) (.call (hcall rfl) .refl)
  · refine ⟨v.afterRundown.call (.delete handle), .call (hcall rfl) ?_,
      by simp only [closeCalls, hh, if_neg hr, World.call]⟩
    have hrel : (rundownSection v.file).1.releaseButtons = false := (Bool.not_eq_true _).mp hr
    simp only [Prog.bind, hres, hrel, Bool.false_eq_true, if_false]
    exact .call (hcall rfl) .refl

theorem closeReleases_iff (hw : ReleaseRest w) (hopen : w.closing = false) :
    CloseReleases w ↔ SnapshotReleases w := by
  constructor
  · intro h report hlast hpressed
    have hne : w.acceptedReports ≠ [] := by rintro he; simp [he] at hlast
    obtain ⟨handle, hh⟩ := Option.isSome_iff_exists.mp (hw.handle hopen hne)
    obtain ⟨w', hs, hvhf⟩ := close_finishes gunReportsOnly (v := { w with closing := true }) hh
      (by intro c; cases c <;> rfl) (by simp [gunReportsOnly, releasePacket])
    have harrive : gunDriver.arrive .close w = some { w with closing := true } := by
      simp [driver, System.only, VirtualGun.Driver.arrive, hopen]
    obtain ⟨before, handle', packet, s, hvhf', hbefore, hpacket⟩ :=
      h _ w' report harrive hs hlast hpressed
    rw [hvhf] at hvhf'
    by_cases hr : (w.file.lastReportValid && pressed w.file.lastReport) = true
    · simp only [closeCalls, hh, hr, if_true] at hvhf'
      have heq := List.append_inj_right' hvhf' rfl
      simp only [List.cons.injEq, VhfCall.submit.injEq] at heq
      rw [← heq.1.2.1, releasePacket_report (hw.length hopen)] at hpacket
      rw [Bool.and_eq_true] at hr
      exact ⟨hr.1, hr.2, hpacket⟩
    · -- no release is submitted, so the submission would be one of the rundown's calls
      simp only [closeCalls, hh, if_neg hr, World.afterRundown, List.append_assoc] at hvhf'
      have hmem : VhfCall.submit handle' packet s ∈ (rundownSection w.file).2.1 ++ [.delete handle] := by
        rw [List.append_cancel_left hvhf']
        simp
      rw [List.mem_append, List.mem_singleton] at hmem
      rcases hmem with hmem | hmem
      · obtain ⟨_, _, hc⟩ := rundown_completes _ _ hmem
        cases hc
      · cases hmem
  · intro h v w' report ha hs hlast hpressed
    obtain ⟨hfile, -⟩ := hw.arrive ha
    have hrel := h report hlast hpressed
    have hne : w.acceptedReports ≠ [] := by rintro he; simp [he] at hlast
    obtain ⟨handle, hh⟩ := Option.isSome_iff_exists.mp (hw.handle hopen hne)
    obtain ⟨-, -, s, hvhf⟩ := (gun_steps hs).post winUHidEvtDeviceFileClose_run
    refine ⟨(rundownSection v.file).2.1, handle, releasePacket v.file, s, ?_, ?_, ?_⟩
    · simp [hvhf, closeCalls, hfile, hh, hrel.1, hrel.2.1, World.afterRundown]
    · intro c hc
      obtain ⟨_, _, rfl⟩ := rundown_completes _ _ hc
      rfl
    · rw [hfile, releasePacket_report (hw.length hopen), hrel.2.2]

/-! ## Over every run -/

theorem SnapshotReleases.same (hw : SnapshotReleases v) (h : SameReports v w') :
    SnapshotReleases w' := by
  intro report hlast hpressed
  rw [h.reports] at hlast
  simpa only [FileContext.Releases, h.lastReport, h.lastReportValid] using hw report hlast hpressed

/-- After VHF accepted a report, the snapshot has to be up to it. -/
theorem Submits.snapshotReleases {report : List Byte} {f : FileContext}
    (h : Submits v w' report f) : SnapshotReleases w' ↔ (pressed report → f.Releases report) := by
  simp [SnapshotReleases, h.reports, FileContext.Releases, h.lastReport, h.lastReportValid]

/-- A run keeps the promise of the close, except one that submits behind the snapshot's back. -/
theorem closeReleases_run (hw : ReleaseRest w) (hrel : CloseReleases w)
    (ha : gunDriver.arrive l w = some v)
    (hs : Steps gunDriver.exec (gunDriver.handler l) v (.ret ()) w') :
    CloseReleases w' ↔ KeepsSnapshot l v w' := by
  obtain ⟨hw', hrun⟩ := hw.run ha hs
  obtain ⟨hfile, hreports, -, hclosing, hclose, hioctl⟩ := hw.arrive ha
  by_cases hc : w'.closing = true
  · -- the handle is being closed, and no other close follows
    refine iff_of_true ?_ ?_
    · intro v' u report ha'
      simp [driver, System.only, VirtualGun.Driver.arrive, hc] at ha'
    · rintro request rfl
      simp [← hrun.1, hc] at hioctl
  have hopen : w'.closing = false := (Bool.not_eq_true _).mp hc
  have hsnap : SnapshotReleases v := by
    have hw := (closeReleases_iff hw (hclosing (hrun.1 ▸ hopen))).mp hrel
    rwa [SnapshotReleases, hreports, hfile]
  rw [closeReleases_iff hw' hopen]
  cases l with
  | ioctl request =>
    have hrun := hrun.2
    by_cases hcode : request.code = .completeReadEvent
    · simp only [hcode, if_true] at hrun
      rcases hrun with h | h
      · refine iff_of_true (hsnap.same h) ?_
        rintro _ _ _ report happ
        simp [h.reports] at happ
      · rw [h.snapshotReleases]
        simp [KeepsSnapshot, hcode, h.reports]
    · simp only [hcode, if_false] at hrun
      refine iff_of_true (hsnap.same hrun) ?_
      rintro _ ⟨rfl⟩ h
      exact absurd h hcode
  | write request =>
    refine iff_of_true ?_ (by rintro _ ⟨⟩)
    rcases hrun.2 with h | h
    · exact hsnap.same h
    · have hlen : request.input.length = vgunReportBytes :=
        hw'.reports _ (by simp [h.reports])
      rw [h.snapshotReleases]
      intro hpressed
      simp [FileContext.Releases, stored, hlen, hpressed]
  | asyncOperation | readyForNextReadReport => exact iff_of_true (hsnap.same hrun.2) (by rintro _ ⟨⟩)
  | close => simp [hclose rfl, hrun.1] at hc

theorem rest_reports {fin : Event → World → World → Prop}
    (hw : Rest gunDriver fin Never World.opened w) : ReleaseRest w := by
  induction hw with
  | init => exact ReleaseRest.opened
  | finish _ ha hs _ ih => exact (ih.run ha hs).1
  | killed _ _ _ hk => exact hk.elim

theorem rest_closeReleases (hw : Rest gunDriver KeepsSnapshot Never World.opened w) :
    CloseReleases w := by
  induction hw with
  | init =>
    refine (closeReleases_iff ReleaseRest.opened rfl).mpr ?_
    simp [SnapshotReleases, World.acceptedReports, World.opened]
  | finish hr ha hs hk ih => exact (closeReleases_run (rest_reports hr) ih ha hs).mpr hk
  | killed _ _ _ hk => exact hk.elim

/-- After runs that keep the snapshot, the close releases the buttons that are down. One more run
keeps it so exactly if it keeps the snapshot. -/
theorem close_releases_buttons (hw : Rest gunDriver KeepsSnapshot Never World.opened w) :
    CloseReleases w ∧
      ∀ l v w', gunDriver.arrive l w = some v →
        Steps gunDriver.exec (gunDriver.handler l) v (.ret ()) w' →
        (CloseReleases w' ↔ KeepsSnapshot l v w') :=
  ⟨rest_closeReleases hw, fun _ _ _ ha hs =>
    closeReleases_run (rest_reports hw) (rest_closeReleases hw) ha hs⟩

end

/-! ## A trigger held through a read event -/

/-- A client writes a report with the trigger held. -/
def writePressed : List (Event × List Outcome) :=
  [(.write ⟨5, .write, [1, 2, 0, 3, 0], []⟩, [.ok, fine, .ok, fine, .ok, .ok])]

/-- A client answers a ready-for-read event with the trigger held. -/
def answerPressed : List (Event × List Outcome) :=
  [(.readyForNextReadReport, [.made Status.success 1, fine, .status Status.notFound]),
    (.ioctl ⟨5, .getNextEvent, [], List.replicate 14 0⟩, [.ok, .tried TryOutcome.fine, .ok]),
    (.ioctl ⟨6, .completeReadEvent, u32Bytes 0 ++ u32Bytes 0 ++ u32Bytes 5 ++ [1, 2, 0, 3, 0], []⟩,
      [.ok, fine, .ok, .ok, fine, .ok, .ok])]

theorem close_releases_buttons_written :
    ∃ w, gunDriver.play (createGun ++ writePressed) World.opened = some w ∧
      w.acceptedReports = [[1, 2, 0, 3, 0]] ∧ CloseReleases w := by
  have hplay : (gunDriver.play (createGun ++ writePressed) World.opened).map
      World.acceptedReports = some [[1, 2, 0, 3, 0]] := by decide +kernel
  obtain ⟨w, hw, hreports⟩ := Option.map_eq_some_iff.mp hplay
  refine ⟨w, hw, hreports, (close_releases_buttons (Rest.play .init hw ?_)).1⟩
  intro e he v v' request hl hcode
  simp [createGun, writePressed] at he
  grind

/-- The close of the handle submits nothing: the trigger stays held. -/
theorem close_leaves_trigger :
    ¬ ∀ w, Rest gunDriver Always Never World.opened w → CloseReleases w := by
  intro h
  have hplay : (gunDriver.play (createGun ++ answerPressed) World.opened).map
      (fun w => (w.acceptedReports, w.file.lastReportValid, w.closing)) =
        some ([[1, 2, 0, 3, 0]], false, false) := by decide +kernel
  obtain ⟨w, hw, hfacts⟩ := Option.map_eq_some_iff.mp hplay
  simp only [Prod.mk.injEq] at hfacts
  obtain ⟨hreports, hvalid, hopen⟩ := hfacts
  have hrest : Rest gunDriver Always Never World.opened w :=
    Rest.play .init hw fun _ _ _ _ => trivial
  have hrel := (closeReleases_iff (rest_reports hrest) hopen).mp (h w hrest) [1, 2, 0, 3, 0]
    (by rw [hreports]; rfl) (by decide)
  simp [FileContext.Releases, hvalid] at hrel

end VirtualGun.Driver
