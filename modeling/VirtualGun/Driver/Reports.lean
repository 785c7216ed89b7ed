import VirtualGun.Driver.Plain

/-!
# Input reports and their snapshot

Two handlers submit input reports: `WriteFile`, and a `COMPLETE_READ_EVENT` that answers a
ready-for-read event. The close releases the buttons of the snapshot in `LastReport`.
-/

open VirtualGun.Program

namespace VirtualGun.Driver

/-! ## Reports -/

/-- The input report VHF accepted in a call. -/
def VhfCall.acceptedReport : VhfCall → Option (List Byte)
  | .submit _ packet status => if ntSuccess status then some packet.report else none
  | _ => none

def World.acceptedReports (w : World) : List (List Byte) := w.vhf.filterMap VhfCall.acceptedReport

def pressed (report : List Byte) : Bool := byteAt report 0 != 0

/-- The report with the same coordinates and no button. -/
def release (report : List Byte) : List Byte := report.set 0 0

/-- Releasing the snapshot releases this report. -/
def FileContext.Releases (f : FileContext) (report : List Byte) : Prop :=
  f.lastReportValid = true ∧ pressed f.lastReport = true ∧ release f.lastReport = release report

theorem Ptr.bytes_length (p : Ptr) (len : ℕ) : (p.bytes len).length = len := by
  simp [Ptr.bytes]

theorem Ptr.bytes_whole (l : List Byte) : Ptr.bytes ⟨l, 0⟩ l.length = l := by
  refine List.ext_getElem (by simp [Ptr.bytes]) fun i h₁ h₂ => ?_
  simp [Ptr.bytes, byteAt, h₂]

theorem HidXferPacket.report_length (p : HidXferPacket) :
    p.report.length = p.reportBufferLen.toNat :=
  p.reportBuffer.bytes_length _

/-! ## Runs that submit nothing -/

structure SameReports (w w' : World) : Prop where
  lastReport : w'.file.lastReport = w.file.lastReport
  lastReportValid : w'.file.lastReportValid = w.file.lastReportValid
  handle : w.file.vhfHandle.isSome → w'.file.vhfHandle.isSome
  reports : w'.acceptedReports = w.acceptedReports
  closing : w'.closing = w.closing

theorem SameReports.refl (w : World) : SameReports w w := ⟨rfl, rfl, id, rfl, rfl⟩

theorem SameReports.trans {u v w : World} (h : SameReports u v) (h' : SameReports v w) :
    SameReports u w where
  lastReport := h'.lastReport.trans h.lastReport
  lastReportValid := h'.lastReportValid.trans h.lastReportValid
  handle := h'.handle ∘ h.handle
  reports := h'.reports.trans h.reports
  closing := h'.closing.trans h.closing

/-- Calls that submit no report, store none and close nothing. -/
def keepsReports : Call → Prop
  | .modifyContext f => ∀ g, (f g).lastReport = g.lastReport ∧
      (f g).lastReportValid = g.lastReportValid ∧ (f g).vhfHandle = g.vhfHandle
  | .vhfReadReportSubmit _ _ | .vhfDelete _ | .storeLastReport _ | .rundownSection => False
  | .wdfRequestForwardToIoQueue request | .wdfRequestRequeue request => request.code.isSetup = false
  | _ => True

abbrev KeepsReports {α : Type} (p : Handler α) : Prop := p.Calls keepsReports givesEventRequest

theorem Configuring.keepsReports {α : Type} {p : Handler α} (h : Configuring p) : KeepsReports p := by
  refine Prog.calls_mono (fun c hc => ?_) (fun _ _ _ => trivial) h
  cases c with
  | modifyContext f => exact fun g => ⟨hc.lastReport g, hc.lastReportValid g, hc.vhfHandle g⟩
  | _ => trivial

theorem Quiet.keepsReports {α : Type} {p : Handler α} (h : Quiet p) : KeepsReports p :=
  Prog.calls_mono (fun c hc => by cases c <;> trivial) (fun _ _ hr => hr) h

section
variable {c : Call} {o : Outcome} {r : c.Resp} {w w' : World}

theorem exec_closing (he : exec c o w = some (r, w')) : w'.closing = w.closing := by
  cases c <;> cases o <;> simp only [exec, reduceCtorEq] at he <;>
    grind [World.call, World.afterQueue, World.afterTry, World.afterRundown, World.created]

theorem exec_lastReport (hc : keepsReports c) (he : exec c o w = some (r, w')) :
    w'.file.lastReport = w.file.lastReport ∧ w'.file.lastReportValid = w.file.lastReportValid ∧
      (w.file.vhfHandle.isSome → w'.file.vhfHandle.isSome) := by
  cases c with
  | storeLastReport | rundownSection => exact hc.elim
  | modifyContext f =>
    obtain ⟨-, rfl⟩ := exec_modifyContext.mp he
    exact ⟨(hc w.file).1, (hc w.file).2.1, fun h => by simpa only [(hc w.file).2.2] using h⟩
  | interlockedIncrement =>
    obtain ⟨-, -, rfl⟩ := exec_increment.mp he
    exact ⟨rfl, rfl, id⟩
  | queueSection op =>
    obtain ⟨add, -, -, rfl⟩ := exec_queueSection.mp he
    simp only [World.afterQueue, VirtualGun.Driver.queueSection]
    split
    · exact ⟨rfl, rfl, id⟩
    · split <;> exact ⟨rfl, rfl, id⟩
  | tryCompleteSection request =>
    obtain ⟨t, -, -, rfl⟩ := exec_tryComplete.mp he
    simp only [World.afterTry, VirtualGun.Driver.tryCompleteSection]
    grind
  | takeOutstandingRequestById id =>
    obtain ⟨-, -, rfl⟩ := exec_take.mp he
    exact ⟨rfl, rfl, fun h => h⟩
  | vhfCreate =>
    obtain ⟨handle, -, rfl⟩ := exec_create.mp he
    simp only [World.created]
    split
    · exact ⟨rfl, rfl, fun _ => rfl⟩
    · exact ⟨rfl, rfl, id⟩
  | _ => rw [exec_file he rfl]; exact ⟨rfl, rfl, id⟩

theorem rundown_no_report (f : FileContext) :
    (VirtualGun.Driver.rundownSection f).2.1.filterMap VhfCall.acceptedReport = [] := by
  simp only [VirtualGun.Driver.rundownSection, List.filterMap_eq_nil_iff, List.mem_append,
    List.mem_filterMap, rundownCall]
  grind [VhfCall.acceptedReport]

theorem exec_reports (hc : ∀ handle packet, c ≠ .vhfReadReportSubmit handle packet)
    (he : exec c o w = some (r, w')) : w'.acceptedReports = w.acceptedReports := by
  have hcall (v : VhfCall) (hv : v.acceptedReport = none) :
      (w.call v).acceptedReports = w.acceptedReports := by
    simp [World.acceptedReports, World.call, hv]
  cases c with
  | vhfReadReportSubmit handle packet => exact absurd rfl (hc handle packet)
  | vhfCreate =>
    obtain ⟨handle, -, rfl⟩ := exec_create.mp he
    simp only [World.created]
    split <;> exact hcall _ rfl
  | vhfStart handle => obtain ⟨-, rfl⟩ := exec_start.mp he; exact hcall _ rfl
  | vhfAsyncOperationComplete => obtain ⟨-, rfl⟩ := exec_asyncComplete.mp he; exact hcall _ rfl
  | vhfDelete => obtain ⟨-, rfl⟩ := exec_delete.mp he; exact hcall _ rfl
  | rtlCopyMemory => obtain ⟨-, rfl⟩ := exec_copyMemory.mp he; exact hcall _ rfl
  | rtlZeroMemory => obtain ⟨-, rfl⟩ := exec_zeroMemory.mp he; exact hcall _ rfl
  | rundownSection =>
    obtain ⟨-, -, rfl⟩ := exec_rundown.mp he
    simp [World.acceptedReports, World.afterRundown, rundown_no_report]
  | _ => rw [World.acceptedReports, exec_vhf he rfl, World.acceptedReports]

theorem exec_keepsReports (hp : ParkedEvents w) (hc : keepsReports c)
    (he : exec c o w = some (r, w')) :
    givesEventRequest c r ∧ ParkedEvents w' ∧ SameReports w w' := by
  obtain ⟨hr, hp'⟩ := exec_parkedEvents hp (by rintro request (rfl | rfl) <;> exact hc) he
  obtain ⟨hl, hv, hh⟩ := exec_lastReport hc he
  exact ⟨hr, hp', hl, hv, hh, exec_reports (by rintro handle packet rfl; exact hc) he,
    exec_closing he⟩

end

section
variable {request : Request}

theorem wdfRequestComplete_reports {s : NTSTATUS} : KeepsReports (wdfRequestComplete request s) :=
  ⟨trivial, fun _ _ => trivial⟩

end

/-! ## What a run does to the reports -/

/-- A run that VHF accepted a report from, and the snapshot it leaves. -/
structure Submits (v w' : World) (report : List Byte) (f : FileContext) : Prop where
  reports : w'.acceptedReports = v.acceptedReports ++ [report]
  lastReport : w'.file.lastReport = f.lastReport
  lastReportValid : w'.file.lastReportValid = f.lastReportValid
  handle : v.file.vhfHandle.isSome ∧ w'.file.vhfHandle.isSome
  closing : w'.closing = v.closing

theorem Submits.trans {v w w' : World} {report : List Byte} {f : FileContext}
    (h : Submits v w report f) (h' : SameReports w w') : Submits v w' report f where
  reports := h'.reports.trans h.reports
  lastReport := h'.lastReport.trans h.lastReport
  lastReportValid := h'.lastReportValid.trans h.lastReportValid
  handle := ⟨h.handle.1, h'.handle h.handle.2⟩
  closing := h'.closing.trans h.closing

/-- The snapshot after `WriteFile`: only a report of the lightgun's length is stored. -/
def stored (input : List Byte) (f : FileContext) : FileContext :=
  if input.length = vgunReportBytes then { f with lastReport := input, lastReportValid := true }
  else f

/-- What a handler that may submit a report does to the reports: nothing, or VHF accepts `report`. -/
def MaySubmit (v : World) (report : List Byte) (f : FileContext) : Unit → World → Prop :=
  fun _ w' => SameReports v w' ∨ Submits v w' report f

section
variable {request : Request} {v w : World} {report : List Byte} {f : FileContext}

theorem wp_keepsReports {α : Type} {p : Handler α} (hw : ParkedEvents w) (h : KeepsReports p) :
    wp exec ParkedEvents (fun _ w' => ParkedEvents w' ∧ SameReports w w') p w :=
  wp_mono (fun _ hi => hi.1) (fun _ _ hi _ => hi)
    (wp_frame SameReports.refl SameReports.trans exec_keepsReports hw h)

theorem SameReports.ends {p : Handler Unit} (hw : ParkedEvents w) (hvw : SameReports v w)
    (h : KeepsReports p) : wp exec ParkedEvents (MaySubmit v report f) p w :=
  wp_post (fun _ _ _ hq => .inl (hvw.trans hq.2)) (wp_keepsReports hw h)

theorem Submits.ends {p : Handler Unit} (hw : ParkedEvents w) (hvw : Submits v w report f)
    (h : KeepsReports p) : wp exec ParkedEvents (MaySubmit v report f) p w :=
  wp_post (fun _ _ _ hq => .inr (hvw.trans hq.2)) (wp_keepsReports hw h)

theorem submit_refused {handle : VhfHandle} {packet : HidXferPacket} {s : NTSTATUS}
    (hs : ntSuccess s = false) : SameReports v (v.call (.submit handle packet s)) where
  lastReport := rfl
  lastReportValid := rfl
  handle := id
  reports := by simp [World.acceptedReports, World.call, VhfCall.acceptedReport, hs]
  closing := rfl

theorem submit_accepted {handle : VhfHandle} {packet : HidXferPacket} {s : NTSTATUS}
    (hs : ntSuccess s) :
    (v.call (.submit handle packet s)).acceptedReports = v.acceptedReports ++ [packet.report] := by
  simp [World.acceptedReports, World.call, VhfCall.acceptedReport, hs]

theorem writePacket_report {input : List Byte} {reportId : UInt8}
    (h : ¬ input.length > 0xFFFFFFFF) :
    HidXferPacket.report ⟨⟨input, 0⟩, input.length.toUInt32, reportId⟩ = input := by
  have hlen : input.length.toUInt32.toNat = input.length := by
    rw [Nat.toUInt32, UInt32.toNat_ofNat_of_lt' (by simp only [UInt32.size]; omega)]
  rw [HidXferPacket.report, hlen, Ptr.bytes_whole]

theorem winUHidEvtIoWrite_run (hv : ParkedEvents v) :
    wp exec ParkedEvents (MaySubmit v request.input (stored request.input v.file))
      (winUHidEvtIoWrite request) v := by
  have hfail {s} : wp exec ParkedEvents (MaySubmit v request.input (stored request.input v.file))
      (wdfRequestComplete request s) v :=
    (SameReports.refl v).ends hv wdfRequestComplete_reports
  simp only [winUHidEvtIoWrite, perform, Prog.perform_bind, wp_readContext]
  refine ⟨hv, ?_⟩
  cases hh : v.file.vhfHandle with
  | none => exact hfail
  | some handle =>
    refine wp_retrieveInput hv fun s _ => wp_ite (fun _ => hfail) fun _ => wp_ite (fun _ => hfail)
      fun hmax => wp_readContext.mpr ⟨hv, hv, fun o s w' he => ?_⟩
    obtain ⟨-, rfl⟩ := exec_submit.mp he
    refine wp_ite (fun hs => (submit_refused (by simpa using hs)).ends hv wdfRequestComplete_reports)
      fun hs => ?_
    have hacc : (v.call (.submit (v.file.vhfHandle.getD 0)
        ⟨⟨request.input, 0⟩, request.input.length.toUInt32,
          if v.file.numberedReports then byteAt request.input 0 else 0⟩ s)).acceptedReports =
        v.acceptedReports ++ [request.input] := by
      rw [submit_accepted (by simpa using hs), writePacket_report hmax]
    refine wp_ite (fun hlen => ⟨hv, fun o r w' he => ?_⟩) fun hlen => ?_
    · obtain ⟨-, rfl⟩ := exec_storeLastReport.mp he
      refine Submits.ends hv ?_ ⟨trivial, fun _ _ => trivial⟩
      exact ⟨hacc, by simp [stored, hlen], by simp [stored, hlen], by simp [World.call, hh], rfl⟩
    · refine Submits.ends hv ?_ ⟨trivial, fun _ _ => trivial⟩
      exact ⟨hacc, by simp [stored, hlen, World.call], by simp [stored, hlen, World.call],
        by simp [World.call, hh], rfl⟩

/-- The bytes a `COMPLETE_READ_EVENT` brings. -/
def readData (request : Request) : List Byte :=
  let readComplete := ReadEventComplete.decode request.input
  readComplete.data.bytes readComplete.dataLength.toNat

theorem takeOutstanding_same (id : UInt32) (w : World) :
    SameReports w { w with file := (takeOutstandingRequestById id w.file).2 } :=
  ⟨rfl, rfl, fun h => h, rfl, rfl⟩

theorem completeReadEvent_run (hv : ParkedEvents v) :
    wp exec ParkedEvents (MaySubmit v (readData request) v.file) (completeReadEvent request) v := by
  have hfail {s} : wp exec ParkedEvents (MaySubmit v (readData request) v.file)
      (wdfRequestComplete request s) v :=
    (SameReports.refl v).ends hv wdfRequestComplete_reports
  simp only [completeReadEvent, perform, Prog.perform_bind, wp_readContext]
  refine ⟨hv, wp_ite (fun _ => hfail) fun hh => wp_retrieveInput hv fun s _ =>
    wp_ite (fun _ => hfail) fun _ => wp_ite (fun _ => hfail) fun _ => ⟨hv, fun o r w' he => ?_⟩⟩
  obtain ⟨-, -, rfl⟩ := exec_take.mp he
  have hsame := takeOutstanding_same (ReadEventComplete.decode request.input).requestId v
  have hend {op : OperationContext} {s : NTSTATUS} : KeepsReports
      (.call (.wdfObjectDelete op.object) fun _ => wdfRequestComplete request s) :=
    ⟨trivial, fun _ _ => wdfRequestComplete_reports⟩
  cases r with
  | none => exact hsame.ends hv wdfRequestComplete_reports
  | some op =>
    refine wp_ite (fun _ => ?_) fun _ => wp_ite (fun _ => ?_) fun _ => ?_
    · -- a ready-for-read event: the one branch that submits
      simp only [answerReadyForRead, perform, Prog.perform_bind]
      rw [wp_bind]
      refine wp_ite (fun _ => wp_readContext.mpr ⟨hv, hv, fun o s w' he => ?_⟩) fun _ => ?_
      · obtain ⟨-, rfl⟩ := exec_submit.mp he
        refine ⟨hv, ?_⟩
        by_cases hs : ntSuccess s = true
        · refine Submits.ends hv ⟨submit_accepted hs, rfl, rfl, ?_, rfl⟩ hend
          have hsome := Option.isSome_iff_ne_none.mpr (by simpa using hh)
          exact ⟨hsome, hsome⟩
        · exact (hsame.trans (submit_refused (by simpa using hs))).ends hv hend
      · refine wp_ite (fun _ => ?_) fun _ => ⟨hv, hsame.ends hv hend⟩
        rw [wp_bind]
        refine wp_post (fun _ _ hp hq => ⟨hp, (hsame.trans hq.2).ends hp hend⟩)
          (wp_keepsReports hv (dispatchAsyncOperation_quiet none none .readReport).keepsReports)
    · rw [wp_bind]
      exact wp_post (fun _ _ hp hq => (hsame.trans hq.2).ends hp ⟨trivial, fun _ _ => hend⟩)
        (wp_keepsReports hv (fillReportBuffer_quiet op _).keepsReports)
    · exact hsame.ends hv ⟨trivial, fun _ _ => hend⟩

/-! ## The close -/

/-- The packet that releases the buttons of the snapshot. -/
def releasePacket (f : FileContext) : HidXferPacket :=
  ⟨⟨release f.lastReport, 0⟩, vgunReportBytes.toUInt32, 0⟩

/-- What the close asks of VHF. `s` is what VHF makes of the release. -/
def closeCalls (f : FileContext) (s : NTSTATUS) : List VhfCall :=
  match f.vhfHandle with
  | none => []
  | some handle =>
    if f.lastReportValid && pressed f.lastReport then
      [.submit handle (releasePacket f) s, .delete handle]
    else [.delete handle]

/-- `ok` says what VHF may make of the release. -/
theorem winUHidEvtDeviceFileClose_only (ok : Call → Outcome → Bool) :
    wp (exec.only ok) (fun _ => True)
      (fun _ w' => w'.closing = v.closing ∧ w'.parked = v.parked ∧
        ∃ s, w'.vhf = v.afterRundown.vhf ++ closeCalls v.file s ∧
          ∀ handle, v.file.vhfHandle = some handle → v.file.lastReportValid && pressed v.file.lastReport →
            ok (.vhfReadReportSubmit handle (releasePacket v.file)) (.status s))
      winUHidEvtDeviceFileClose v := by
  simp only [winUHidEvtDeviceFileClose, perform, Prog.perform_bind]
  refine ⟨trivial, fun o r w' he => ?_⟩
  obtain ⟨-, rfl, rfl⟩ := exec_rundown.mp (Exec.only_eq_some.mp he).2
  have hhandle : (rundownSection v.file).1.vhfHandle = v.file.vhfHandle := rfl
  beta_reduce
  rw [hhandle]
  cases hh : v.file.vhfHandle with
  | none => exact ⟨trivial, rfl, rfl, 0, by simp [closeCalls, hh], by simp⟩
  | some handle =>
    refine wp_ite (fun hr => ⟨trivial, fun o s w' he => ?_⟩) fun hr => ⟨trivial, fun o s w' he => ?_⟩
    · obtain ⟨hok, he⟩ := Exec.only_eq_some.mp he
      obtain ⟨rfl, rfl⟩ := exec_submit.mp he
      refine ⟨trivial, fun o r w' he => ?_⟩
      obtain ⟨-, rfl⟩ := exec_delete.mp (Exec.only_eq_some.mp he).2
      have hv : (v.file.lastReportValid && pressed v.file.lastReport) = true := hr
      refine ⟨trivial, rfl, rfl, s, by simp [closeCalls, hh, hv, World.call, releasePacket,
        VirtualGun.Driver.rundownSection, release], ?_⟩
      rintro _ ⟨rfl⟩ _
      exact hok
    · obtain ⟨-, rfl⟩ := exec_delete.mp (Exec.only_eq_some.mp he).2
      have hv : ¬ (v.file.lastReportValid && pressed v.file.lastReport) = true := hr
      exact ⟨trivial, rfl, rfl, 0, by simp only [closeCalls, hh, if_neg hv, World.call],
        fun _ _ h => absurd h hv⟩

theorem winUHidEvtDeviceFileClose_run :
    wp exec (fun _ => True)
      (fun _ w' => w'.closing = v.closing ∧ w'.parked = v.parked ∧
        ∃ s, w'.vhf = v.afterRundown.vhf ++ closeCalls v.file s)
      winUHidEvtDeviceFileClose v := by
  have h := winUHidEvtDeviceFileClose_only (v := v) fun _ _ => true
  rw [Exec.only_true] at h
  exact wp_post (fun _ _ _ ⟨hc, hp, s, hvhf, _⟩ => ⟨hc, hp, s, hvhf⟩) h

/-! ## Over every run -/

/-- What a run does to the reports. -/
def RunReports (l : Event) (v w' : World) : Prop :=
  w'.closing = v.closing ∧
  match l with
  | .ioctl request =>
    if request.code = .completeReadEvent then MaySubmit v (readData request) v.file () w'
    else SameReports v w'
  | .write request => MaySubmit v request.input (stored request.input v.file) () w'
  | .asyncOperation .. | .readyForNextReadReport => SameReports v w'
  | .close => True

theorem ioctl_reports (hv : ParkedEvents v) (hcode : request.code ≠ .completeReadEvent) :
    wp exec ParkedEvents (fun _ => SameReports v) (winUHidEvtIoDeviceControl request) v := by
  have hend {p : Handler Unit} (h : KeepsReports p) : wp exec ParkedEvents (fun _ => SameReports v) p v :=
    wp_post (fun _ _ _ hq => hq.2) (wp_keepsReports hv h)
  unfold winUHidEvtIoDeviceControl
  cases h : request.code with
  | setDeviceInfo => exact hend setDeviceInfo_configuring.keepsReports
  | setReportDescriptor => exact hend setReportDescriptor_configuring.keepsReports
  | setInstanceId =>
    exact hend setInstanceId_configuring.keepsReports
  | setHardwareIds =>
    exact hend setHardwareIds_configuring.keepsReports
  | createDevice => exact hend createDevice_configuring.keepsReports
  | startDevice => exact hend (startDevice_quiet (by rw [h]; rfl)).keepsReports
  | getNextEvent => exact hend (getNextEvent_quiet (by rw [h]; rfl)).keepsReports
  | completeWriteEvent => exact hend (completeWriteEvent_quiet (by rw [h]; rfl)).keepsReports
  | completeReadEvent => exact absurd h hcode
  | getInterfaceVersion => exact hend (getInterfaceVersion_quiet (by rw [h]; rfl)).keepsReports
  | other | write => exact hend wdfRequestComplete_reports

theorem MaySubmit.closing {w' : World} (h : MaySubmit v report f () w') : w'.closing = v.closing := by
  rcases h with h | h
  · exact h.closing
  · exact h.closing

theorem handler_reports (l : Event) (hv : ParkedEvents v) :
    wp exec (fun _ => True) (fun _ w' => ParkedEvents w' ∧ RunReports l v w') (handler l) v := by
  have hend {Q : Unit → World → Prop} {p : Handler Unit} (h : wp exec ParkedEvents Q p v)
      (hQ : ∀ w', Q () w' → RunReports l v w') :
      wp exec (fun _ => True) (fun _ w' => ParkedEvents w' ∧ RunReports l v w') p v :=
    wp_mono (fun _ _ => trivial) (fun _ w' hp hq => ⟨hp, hQ w' hq⟩) h
  cases l with
  | ioctl request =>
    by_cases hcode : request.code = .completeReadEvent
    · have h : wp exec ParkedEvents (MaySubmit v (readData request) v.file) (completeReadEvent request) v :=
        completeReadEvent_run hv
      refine hend (Q := MaySubmit v (readData request) v.file) ?_ fun w' hq =>
        ⟨hq.closing, by simpa [hcode] using hq⟩
      simpa only [handler, winUHidEvtIoDeviceControl, hcode] using h
    · exact hend (ioctl_reports hv hcode) fun w' hq => ⟨hq.closing, by simpa [hcode] using hq⟩
  | write request => exact hend (winUHidEvtIoWrite_run hv) fun w' hq => ⟨hq.closing, hq⟩
  | asyncOperation handle packet type =>
    exact hend (wp_keepsReports hv
      (dispatchAsyncOperation_quiet (some handle) (some packet) type).keepsReports)
      fun w' hq => ⟨hq.2.closing, hq.2⟩
  | readyForNextReadReport =>
    exact hend (wp_keepsReports hv (dispatchAsyncOperation_quiet none none .readReport).keepsReports)
      fun w' hq => ⟨hq.2.closing, hq.2⟩
  | close =>
    exact wp_post (fun _ w' _ hq => ⟨by rw [ParkedEvents, hq.2.1]; exact hv, hq.1, trivial⟩)
      winUHidEvtDeviceFileClose_run

end

end VirtualGun.Driver
