import VirtualGun.Driver.Release
import VirtualGun.Program.Views

/-!
# Writers side by side

`WriteFile` requests run on a parallel queue. Each submits its report to VHF and then, in a step of
its own, stores it as the snapshot.
-/

open VirtualGun.Program

namespace VirtualGun.Driver

/-- Reports of the lightgun's length are written, and nothing else arrives. -/
def Writers (_ : Pool Event Call Call.Resp World) : Move Event Outcome → Bool
  | .arrive (.write request) => request.input.length == vgunReportBytes
  | .arrive _ => false
  | .step _ _ => true

/-- A device was created, and nothing was written yet. -/
structure Unwritten (w : World) : Prop where
  handle : w.file.vhfHandle.isSome
  reports : w.acceptedReports = []
  length : w.file.lastReport.length = vgunReportBytes

/-- VHF refuses no report. -/
def takesReports : Call → Outcome → Bool
  | .vhfReadReportSubmit _ _, .status s => ntSuccess s
  | _, _ => true

/-- No button is down in the last report VHF accepted. -/
def NothingHeld (w : World) : Prop :=
  ∀ report, w.acceptedReports.getLast? = some report → pressed report = false

instance (w : World) : Decidable (NothingHeld w) :=
  inferInstanceAs (Decidable (∀ report ∈ w.acceptedReports.getLast?, pressed report = false))

/-! ## The order of the stores -/

/-- The report that a call stores. -/
def Call.stores : Call → Option (List Byte)
  | .storeLastReport report => some report
  | _ => none

/-- The report that a program stores next. -/
def owes (p : Handler Unit) : Option (List Byte) := p.next?.bind Call.stores

/-- A thread that is to store a report with a button. -/
def OwesPressed (t : Thread Event Call Call.Resp) : Prop := ∃ report ∈ owes t.prog, pressed report = true

instance (t : Thread Event Call Call.Resp) : Decidable (OwesPressed t) := by
  unfold OwesPressed
  infer_instance

/-- A writer stores a report without buttons only if the last report VHF accepted has none either, or
another writer is still to store a report with a button. -/
def StoresInOrder (P : Pool Event Call Call.Resp World) : Move Event Outcome → Prop
  | .arrive _ => True
  | .step i _ => ∀ t ∈ P.threads[i]?, ∀ report ∈ owes t.prog, pressed report = false →
      NothingHeld P.world ∨ ∃ other ∈ P.threads.eraseIdx i, OwesPressed other

instance (P : Pool Event Call Call.Resp World) (m : Move Event Outcome) : Decidable (StoresInOrder P m) := by
  cases m <;> unfold StoresInOrder <;> infer_instance

/-- VHF accepts no report. -/
def AcceptsNone (P : Pool Event Call Call.Resp World) : Move Event Outcome → Prop
  | .arrive _ => True
  | .step i o => ∀ handle packet s, P.nextCall i = some (.vhfReadReportSubmit handle packet) →
      o = .status s → ntSuccess s = false

/-! ## The writers -/

/-- The calls of a writer. -/
def writerCall : Call → Prop
  | .readContext | .wdfRequestRetrieveInputBuffer _ _ | .wdfRequestComplete .. => True
  | .vhfReadReportSubmit _ _ => True
  | .storeLastReport report => report.length = vgunReportBytes
  | _ => False

/-- The report that VHF accepted with a call. -/
def accepts : (c : Call) → c.Resp → Option (List Byte)
  | .vhfReadReportSubmit _ packet, s => if ntSuccess s then some packet.report else none
  | _, _ => none

/-- A writer stores a report exactly when VHF has just accepted it. -/
def Stores : Handler Unit → Prop
  | .ret _ => True
  | .call c k => writerCall c ∧ ∀ r, owes (k r) = accepts c r ∧ Stores (k r)

theorem winUHidEvtIoWrite_stores {request : Request} (hlen : request.input.length = vgunReportBytes) :
    Stores (winUHidEvtIoWrite request) := by
  have hmax : ¬ request.input.length > 0xFFFFFFFF := by
    rw [hlen]
    decide
  have hcomplete {s} : owes (wdfRequestComplete request s) = none ∧ Stores (wdfRequestComplete request s) :=
    ⟨rfl, trivial, fun _ => ⟨rfl, trivial⟩⟩
  simp only [winUHidEvtIoWrite, perform, Prog.perform_bind]
  refine ⟨trivial, fun f => ?_⟩
  beta_reduce
  cases f.vhfHandle with
  | none => exact hcomplete
  | some handle =>
    refine ⟨rfl, trivial, fun s => ?_⟩
    by_cases hs : ntSuccess s = true
    · simp only [hs, Bool.not_true, Bool.false_eq_true, if_false, if_neg hmax]
      refine ⟨rfl, trivial, fun f => ⟨rfl, trivial, fun s => ?_⟩⟩
      by_cases hs : ntSuccess s = true
      · simp only [hs, Bool.not_true, Bool.false_eq_true, if_false, if_pos hlen, accepts, if_true]
        refine ⟨?_, hlen, fun _ => ⟨rfl, trivial, fun _ => ⟨rfl, trivial⟩⟩⟩
        rw [writePacket_report hmax]
        rfl
      · simpa [hs, accepts] using hcomplete
    · simpa [hs, accepts] using hcomplete

/-- The lightgun was created, and the snapshot has the length of a report. -/
structure Written (w : World) : Prop where
  handle : w.file.vhfHandle.isSome
  length : w.file.lastReport.length = vgunReportBytes

/-- The close would release a button. -/
def World.releases (w : World) : Bool := w.file.lastReportValid && pressed w.file.lastReport

section
variable {c : Call} {o : Outcome} {r : c.Resp} {w w' : World}

/-- What a call of a writer does. -/
structure WriterStep (c : Call) (r : c.Resp) (w w' : World) : Prop where
  written : Written w'
  accepted : w'.acceptedReports = w.acceptedReports ++ (accepts c r).toList
  stored : w'.releases = (c.stores.map pressed).getD w.releases

theorem Written.call (hw : Written w) (hc : writerCall c) (he : exec c o w = some (r, w')) :
    WriterStep c r w w' := by
  cases c with
  | storeLastReport report =>
    obtain ⟨-, rfl⟩ := exec_storeLastReport.mp he
    exact ⟨⟨hw.handle, hc⟩, (List.append_nil _).symm, rfl⟩
  | vhfReadReportSubmit handle packet =>
    obtain ⟨-, rfl⟩ := exec_submit.mp he
    refine ⟨⟨hw.handle, hw.length⟩, ?_, rfl⟩
    by_cases hs : ntSuccess r = true <;>
      simp [World.acceptedReports, World.call, VhfCall.acceptedReport, accepts, hs]
  | readContext | wdfRequestRetrieveInputBuffer | wdfRequestComplete =>
    have hfile := exec_file he rfl
    refine ⟨⟨hfile ▸ hw.handle, hfile ▸ hw.length⟩, ?_, ?_⟩
    · simp [World.acceptedReports, exec_vhf he rfl, accepts]
    · rw [World.releases, hfile]
      rfl
  | _ => exact hc.elim

end

/-- The threads are writers. -/
structure WritersAt (P : Pool Event Call Call.Resp World) : Prop where
  written : Written P.world
  stores : ∀ t ∈ P.threads, Stores t.prog

section
variable {P P' Q : Pool Event Call Call.Resp World} {m : Move Event Outcome}

theorem writers_move (h : WritersAt P) (hwrite : Writers P m) (hm : P.move driver m = some P') :
    WritersAt P' ∧
      ((∃ l, m = .arrive l ∧ ∃ p, P'.threads = P.threads ++ [⟨l, p⟩] ∧ owes p = none ∧ P'.world.file = P.world.file ∧
        P'.world.acceptedReports = P.world.acceptedReports) ∨
      ∃ pre l c k post o r, m = .step pre.length o ∧ P.threads = pre ++ ⟨l, .call c k⟩ :: post ∧
        driver.exec c o P.world = some (r, P'.world) ∧ P'.threads = pre ++ ⟨l, k r⟩ :: post ∧
        owes (k r) = accepts c r ∧ WriterStep c r P.world P'.world) := by
  rcases Pool.move_cases hm with ⟨l, w, rfl, ha, rfl⟩ |
    ⟨pre, l, c, k, post, o, r, w, rfl, ht, he, rfl⟩
  · cases l with
    | write request =>
      have hlen : request.input.length = vgunReportBytes := by simpa [Writers] using hwrite
      have hstores := winUHidEvtIoWrite_stores hlen
      simp only [driver, arrive, World.accept, Option.ite_none_left_eq_some,
        Option.ite_none_right_eq_some, Option.some.injEq] at ha
      obtain ⟨-, -, -, rfl⟩ := ha
      refine ⟨⟨⟨h.written.handle, h.written.length⟩, fun t ht => ?_⟩,
        .inl ⟨_, rfl, _, rfl, rfl, rfl, rfl⟩⟩
      rcases List.mem_append.mp ht with ht | ht
      · exact h.stores t ht
      · rw [List.mem_singleton.mp ht]
        exact hstores
    | _ => cases hwrite
  · obtain ⟨hcall, hk⟩ := h.stores ⟨l, .call c k⟩ (by simp [ht])
    have hstep := h.written.call hcall he
    refine ⟨⟨hstep.written, fun t hmem => ?_⟩,
      .inr ⟨pre, l, c, k, post, o, r, rfl, ht, he, rfl, (hk r).1, hstep⟩⟩
    rcases List.mem_append.mp hmem with hmem | hmem
    · exact h.stores t (by simp [ht, hmem])
    · rcases List.mem_cons.mp hmem with rfl | hmem
      · exact (hk r).2
      · exact h.stores t (by simp [ht, hmem])

theorem eraseIdx_middle {α : Type} (pre : List α) (x : α) (post : List α) :
    (pre ++ x :: post).eraseIdx pre.length = pre ++ post := by
  rw [List.eraseIdx_append_of_length_le le_rfl, Nat.sub_self, List.eraseIdx_cons_zero]

/-- What the order of the stores asks of a thread. -/
theorem storesInOrder_step {pre post : List (Thread Event Call Call.Resp)} {l : Event} {c : Call}
    {k : c.Resp → Handler Unit} {o : Outcome} (ht : P.threads = pre ++ ⟨l, .call c k⟩ :: post) :
    StoresInOrder P (.step pre.length o) ↔ ∀ report ∈ c.stores, pressed report = false →
      NothingHeld P.world ∨ ∃ other ∈ pre ++ post, OwesPressed other := by
  simp only [StoresInOrder, ht, List.getElem?_append_right le_rfl, Nat.sub_self, List.getElem?_cons_zero,
    Option.mem_def, Option.some.injEq, forall_eq', eraseIdx_middle]
  rfl

/-- What the close is to release is in the snapshot, or on its way there. -/
def Releasable (P : Pool Event Call Call.Resp World) : Prop :=
  NothingHeld P.world ∨ P.world.releases = true ∨ ∃ t ∈ P.threads, OwesPressed t

theorem NothingHeld.congr {w w' : World} (h : NothingHeld w) (hw : w'.acceptedReports = w.acceptedReports) :
    NothingHeld w' := by
  rwa [NothingHeld, hw]

/-- VHF accepted a report: it holds nothing, or the writer is to store it. -/
theorem releasable_accepted {pre post : List (Thread Event Call Call.Resp)} {l : Event} {p : Handler Unit}
    {report : List Byte} {reports : List (List Byte)} (hP : P.threads = pre ++ ⟨l, p⟩ :: post)
    (howes : owes p = some report) (hreports : P.world.acceptedReports = reports ++ [report]) :
    Releasable P := by
  by_cases hp : pressed report = true
  · exact .inr (.inr ⟨⟨l, p⟩, by simp [hP], report, howes, hp⟩)
  · refine .inl fun last hlast => ?_
    rw [hreports, List.getLast?_append_of_ne_nil _ (by simp)] at hlast
    obtain rfl := Option.some.inj hlast
    simpa using hp

theorem Releasable.move (h : WritersAt P) (hr : Releasable P) (hwrite : Writers P m)
    (hstores : StoresInOrder P m) (hm : P.move driver m = some P') : Releasable P' := by
  obtain ⟨-, ⟨l, -, p, ht, hp, hfile, hreports⟩ |
    ⟨pre, l, c, k, post, o, r, rfl, ht, -, ht', howes, hstep⟩⟩ := writers_move h hwrite hm
  · rcases hr with hr | hr | ⟨t, hmem, hr⟩
    · exact .inl (hr.congr hreports)
    · exact .inr (.inl (by rwa [World.releases, hfile]))
    · exact .inr (.inr ⟨t, by simp [ht, hmem], hr⟩)
  have haccepted := hstep.accepted
  have hstored := hstep.stored
  cases hacc : accepts c r with
  | some report =>
    rw [hacc] at howes haccepted
    exact releasable_accepted ht' howes haccepted
  | none =>
    rw [hacc, Option.toList_none, List.append_nil] at haccepted
    have hother (t : Thread Event Call Call.Resp) (hmem : t ∈ pre ++ post) (ho : OwesPressed t) :
        Releasable P' := by
      refine .inr (.inr ⟨t, ?_, ho⟩)
      rw [ht']
      exact mem_of_mem_beside hmem
    -- the thread stores a report with a button, or one without, or none
    by_cases hp : ∃ report ∈ c.stores, pressed report = true
    · obtain ⟨report, hreport, hp⟩ := hp
      refine .inr (.inl ?_)
      rw [hstored, Option.mem_def.mp hreport]
      exact hp
    rcases hr with hr | hr | ⟨t, hmem, hr⟩
    · exact .inl (hr.congr haccepted)
    · cases hc : c.stores with
      | none => exact .inr (.inl (by rwa [hstored, hc]))
      | some report =>
        have hunpressed : pressed report = false := by
          simpa using fun hpr => hp ⟨report, hc, hpr⟩
        rcases (storesInOrder_step ht).mp hstores report hc hunpressed with hn | ⟨t, hmem, ho⟩
        · exact .inl (hn.congr haccepted)
        · exact hother t hmem ho
    · rw [ht] at hmem
      rcases mem_beside hmem with rfl | hmem
      · exact absurd hr hp
      · exact hother t hmem hr

/-- VHF holds a button that neither the snapshot nor a writer on its way knows of. -/
structure Lost (P : Pool Event Call Call.Resp World) : Prop where
  held : ¬ NothingHeld P.world
  snapshot : P.world.releases = false
  threads : ∀ t ∈ P.threads, ¬ OwesPressed t

theorem lost_of_move (h : WritersAt P) (hwrite : Writers P m) (hstores : ¬ StoresInOrder P m)
    (hm : P.move driver m = some P') : Lost P' := by
  obtain ⟨-, ⟨l, rfl, -⟩ | ⟨pre, l, c, k, post, o, r, rfl, ht, -, ht', howes, hstep⟩⟩ :=
    writers_move h hwrite hm
  · exact absurd trivial hstores
  rw [storesInOrder_step ht] at hstores
  push Not at hstores
  obtain ⟨report, hreport, hunpressed, hheld, hothers⟩ := hstores
  have hacc : accepts c r = none := by
    cases c with
    | vhfReadReportSubmit => cases hreport
    | _ => rfl
  have haccepted := hstep.accepted
  rw [hacc, Option.toList_none, List.append_nil] at haccepted
  refine ⟨fun hn => hheld (hn.congr haccepted.symm), ?_, fun t hmem => ?_⟩
  · rw [hstep.stored, Option.mem_def.mp hreport]
    exact hunpressed
  · rw [ht'] at hmem
    rcases mem_beside hmem with rfl | hmem
    · rintro ⟨other, hother, -⟩
      rw [howes, hacc] at hother
      cases hother
    · exact hothers t hmem

theorem Lost.move (h : WritersAt P) (hl : Lost P) (hwrite : Writers P m) (hnone : AcceptsNone P m)
    (hm : P.move driver m = some P') : Lost P' := by
  obtain ⟨-, ⟨l, -, p, ht, hp, hfile, hreports⟩ |
    ⟨pre, l, c, k, post, o, r, rfl, ht, he, ht', howes, hstep⟩⟩ := writers_move h hwrite hm
  · refine ⟨fun hn => hl.held (hn.congr hreports.symm), ?_, fun t hmem => ?_⟩
    · rw [World.releases, hfile]
      exact hl.snapshot
    · rw [ht] at hmem
      rcases List.mem_append.mp hmem with hmem | hmem
      · exact hl.threads t hmem
      · rintro ⟨report, hreport, -⟩
        rw [List.mem_singleton.mp hmem, hp] at hreport
        cases hreport
  have hacc : accepts c r = none := by
    cases c with
    | vhfReadReportSubmit handle packet =>
      obtain ⟨rfl, -⟩ := exec_submit.mp he
      have hs := hnone handle packet r (by simp [Pool.nextCall, ht]) rfl
      simp [accepts, hs]
    | _ => rfl
  have haccepted := hstep.accepted
  rw [hacc, Option.toList_none, List.append_nil] at haccepted
  refine ⟨fun hn => hl.held (hn.congr haccepted.symm), ?_, fun t hmem => ?_⟩
  · rw [hstep.stored]
    cases hc : c.stores with
    | none => exact hl.snapshot
    | some report =>
      have hself := hl.threads ⟨l, .call c k⟩ (by simp [ht])
      simpa using fun hp => hself ⟨report, hc, hp⟩
  · rw [ht'] at hmem
    rcases mem_beside hmem with rfl | hmem
    · rintro ⟨other, hother, -⟩
      rw [howes, hacc] at hother
      cases hother
    · exact hl.threads t (by rw [ht]; exact mem_of_mem_beside hmem)

/-! ## Whole runs -/

theorem Unwritten.writersAt {w₀ : World} (h₀ : Unwritten w₀) : WritersAt ⟨[], w₀⟩ :=
  ⟨⟨h₀.handle, h₀.length⟩, nofun⟩

theorem WritersAt.run {ok : Pool Event Call Call.Resp World → Move Event Outcome → Prop}
    (hok : ∀ P m, ok P m → Writers P m) (h : WritersAt P) (hQ : Reach driver ok P Q) : WritersAt Q := by
  induction hQ with
  | init => exact h
  | move _ hm hmove ih => exact (writers_move ih (hok _ _ hm) hmove).1

theorem releasable_run {w₀ : World} (h₀ : Unwritten w₀)
    (hP : Reach driver (fun P m => Writers P m ∧ StoresInOrder P m) ⟨[], w₀⟩ P) : Releasable P := by
  induction hP with
  | init => exact .inl fun report hr => by simp [h₀.reports] at hr
  | move hP hm hmove ih => exact ih.move (h₀.writersAt.run (fun _ _ h => h.1) hP) hm.1 hm.2 hmove

theorem Lost.run (h : WritersAt P) (hl : Lost P)
    (hQ : Reach driver (fun P m => Writers P m ∧ AcceptsNone P m) P Q) : Lost Q := by
  induction hQ with
  | init => exact hl
  | move hP hm hmove ih => exact ih.move (h.run (fun _ _ h => h.1) hP) hm.1 hm.2 hmove

end

/-! ## The close after them -/

theorem acceptedReports_append {v w : World} {calls : List VhfCall} (h : w.vhf = v.vhf ++ calls) :
    w.acceptedReports = v.acceptedReports ++ calls.filterMap VhfCall.acceptedReport := by
  simp [World.acceptedReports, h]

theorem close_reports {v w' : World} (hv : Written v)
    (hs : Steps (driver.only takesReports).exec (driver.handler .close) v (.ret ()) w') :
    w'.acceptedReports = v.acceptedReports ++
      if v.file.lastReportValid && pressed v.file.lastReport then [release v.file.lastReport]
      else [] := by
  obtain ⟨handle, hh⟩ := Option.isSome_iff_exists.mp hv.handle
  obtain ⟨-, -, s, hvhf, hok⟩ := hs.post (winUHidEvtDeviceFileClose_only takesReports)
  rw [World.afterRundown] at hvhf
  rw [acceptedReports_append (hvhf.trans (List.append_assoc ..)), List.filterMap_append,
    rundown_no_report, List.nil_append]
  congr 1
  by_cases hr : (v.file.lastReportValid && pressed v.file.lastReport) = true
  · have hs : ntSuccess s = true := hok handle hh hr
    simp [closeCalls, hh, hr, VhfCall.acceptedReport, hs, releasePacket_report hv.length]
  · simp only [closeCalls, hh, if_neg hr]
    rfl

theorem release_unpressed {report : List Byte} (h : report ≠ []) : pressed (release report) = false := by
  cases report with
  | nil => exact absurd rfl h
  | cons b bs => rfl

theorem arrive_close {v w : World} (ha : driver.arrive .close w = some v) :
    v.file = w.file ∧ v.acceptedReports = w.acceptedReports := by
  simp only [driver, arrive, Option.ite_none_left_eq_some, Option.some.injEq] at ha
  rw [← ha.2]
  exact ⟨rfl, rfl⟩

/-- Nothing is held after the close if the close releases it, or nothing was held. -/
theorem nothingHeld_closed {w v w' : World} (hw : Written w) (ha : driver.arrive .close w = some v)
    (hs : Steps (driver.only takesReports).exec (driver.handler .close) v (.ret ()) w') :
    NothingHeld w' ↔ w.releases = true ∨ NothingHeld w := by
  obtain ⟨hfile, hvreports⟩ := arrive_close ha
  have hreports := close_reports ⟨hfile ▸ hw.handle, hfile ▸ hw.length⟩ hs
  rw [hfile, hvreports] at hreports
  by_cases hr : w.releases = true
  · have hne : w.file.lastReport ≠ [] := List.ne_nil_of_length_pos (by rw [hw.length]; decide)
    refine iff_of_true ?_ (.inl hr)
    rw [World.releases] at hr
    simp [NothingHeld, hreports, hr, release_unpressed hne]
  · rw [World.releases] at hr
    rw [if_neg hr, List.append_nil] at hreports
    simp only [NothingHeld, hreports, World.releases, or_iff_right hr]

/-- Nothing is held after the close if the writers store in order. A store that is not in order leaves a
button held, unless VHF accepts another report after it. -/
theorem writers_released {w₀ : World} {P : Pool Event Call Call.Resp World} (h₀ : Unwritten w₀)
    (hP : Reach driver (fun P m => Writers P m ∧ StoresInOrder P m) ⟨[], w₀⟩ P) :
    (P.quiet = true → ∀ v w', driver.arrive .close P.world = some v →
      Steps (driver.only takesReports).exec (driver.handler .close) v (.ret ()) w' → NothingHeld w') ∧
    ∀ m P' Q v w', Writers P m → ¬ StoresInOrder P m → P.move driver m = some P' →
      Reach driver (fun P m => Writers P m ∧ AcceptsNone P m) P' Q → Q.quiet = true →
      driver.arrive .close Q.world = some v →
      Steps (driver.only takesReports).exec (driver.handler .close) v (.ret ()) w' → ¬ NothingHeld w' := by
  have hw := h₀.writersAt.run (fun _ _ h => h.1) hP
  constructor
  · intro hquiet v w' ha hs
    rw [nothingHeld_closed hw.written ha hs]
    rcases releasable_run h₀ hP with hn | hr | ⟨t, ht, report, hreport, -⟩
    · exact .inr hn
    · exact .inl hr
    · -- no thread is left that is to store a report
      obtain ⟨a, hret⟩ := (Prog.isRet_iff _).mp (List.all_eq_true.mp hquiet t ht)
      rw [owes, hret] at hreport
      cases hreport
  · intro m P' Q v w' hwrite hstores hm hQ _ ha hs
    have hw' := (writers_move hw hwrite hm).1
    have hlost := (lost_of_move hw hwrite hstores hm).run hw' hQ
    rw [nothingHeld_closed (hw'.run (fun _ _ h => h.1) hQ).written ha hs, hlost.snapshot]
    simpa using hlost.held

/-! ## Given writers -/

theorem writers_play (ok : Pool Event Call Call.Resp World → Move Event Outcome → Bool)
    (hok : ∀ P m, ok P m → Writers P m) (ms : List (Move Event Outcome)) (reports : List (List Byte))
    (last : List Byte)
    (hplay : ((driver.play createGun World.opened).bind fun w₀ =>
      (Pool.replay driver ok ms ⟨[], w₀⟩).map fun P => (P.quiet, P.world.closing,
        P.world.acceptedReports, P.world.file.lastReport)) = some (true, false, reports, last)) :
    ∃ w₀ P v w', Unwritten w₀ ∧ Reach driver (fun P m => ok P m) ⟨[], w₀⟩ P ∧ P.quiet = true ∧
      driver.arrive .close P.world = some v ∧
      Steps (driver.only takesReports).exec (driver.handler .close) v (.ret ()) w' ∧
      P.world.acceptedReports = reports ∧ P.world.file.lastReport = last := by
  have hcreate : (driver.play createGun World.opened).map (fun w =>
      (w.file.vhfHandle.isSome, w.acceptedReports, w.file.lastReport.length)) =
        some (true, [], vgunReportBytes) := by decide +kernel
  obtain ⟨w₀, hw₀, h₀⟩ := Option.map_eq_some_iff.mp hcreate
  simp only [Prod.mk.injEq] at h₀
  have h₀ : Unwritten w₀ := ⟨h₀.1, h₀.2.1, h₀.2.2⟩
  rw [hw₀, Option.bind_some] at hplay
  obtain ⟨P, hP, hfacts⟩ := Option.map_eq_some_iff.mp hplay
  simp only [Prod.mk.injEq] at hfacts
  obtain ⟨hquiet, hclosing, hreports, hlast⟩ := hfacts
  have hreach : Reach driver (fun P m => ok P m) ⟨[], w₀⟩ P := Reach.replay .init hP
  obtain ⟨v, ha⟩ : ∃ v, driver.arrive .close P.world = some v := by
    simp [driver, arrive, hclosing]
  obtain ⟨handle, hh⟩ := Option.isSome_iff_exists.mp (h₀.writersAt.run hok hreach).written.handle
  obtain ⟨w', hs, -⟩ := close_finishes takesReports (v := v) ((arrive_close ha).1 ▸ hh)
    (by intro c; cases c <;> rfl) rfl
  exact ⟨w₀, P, v, w', h₀, hreach, hquiet, ha, hs, hreports, hlast⟩

/-- A press and a release side by side: VHF sees the release first. -/
def besideWrites : List (Move Event Outcome) :=
  [.arrive (.write ⟨5, .write, [1, 2, 0, 3, 0], []⟩), .arrive (.write ⟨6, .write, [0, 2, 0, 3, 0], []⟩),
    .step 0 .ok, .step 0 fine, .step 0 .ok, .step 1 .ok, .step 1 fine, .step 1 .ok, .step 1 fine,
    .step 0 fine]

/-- The reports are stored as VHF accepted them. -/
def orderedWrites : List (Move Event Outcome) :=
  besideWrites ++ [.step 1 .ok, .step 1 .ok, .step 0 .ok, .step 0 .ok]

/-- The press is stored before the release. -/
def crossingWrites : List (Move Event Outcome) :=
  besideWrites ++ [.step 0 .ok, .step 0 .ok, .step 1 .ok, .step 1 .ok]

/-- Two writers side by side that store in order: the close releases the trigger. -/
theorem writers_released_two :
    ∃ (P : Pool Event Call Call.Resp World) (w' : World),
      P.world.acceptedReports = [[0, 2, 0, 3, 0], [1, 2, 0, 3, 0]] ∧
      (∃ v, Steps (driver.only takesReports).exec (driver.handler .close) v (.ret ()) w') ∧
      NothingHeld w' := by
  obtain ⟨w₀, P, v, w', h₀, hP, hquiet, ha, hs, hreports, -⟩ :=
    writers_play (fun P m => Writers P m && decide (StoresInOrder P m))
      (fun _ _ hm => (Bool.and_eq_true_iff.mp hm).1) orderedWrites [[0, 2, 0, 3, 0], [1, 2, 0, 3, 0]]
      [1, 2, 0, 3, 0] (by decide +kernel)
  have hP : Reach driver (fun P m => Writers P m ∧ StoresInOrder P m) ⟨[], w₀⟩ P := hP.mono (by simp)
  exact ⟨P, w', hreports, ⟨v, hs⟩, (writers_released h₀ hP).1 hquiet v w' ha hs⟩

theorem writers_leave_trigger :
    ¬ ∀ w₀ v w' P, Unwritten w₀ → Reach driver (fun P m => Writers P m) ⟨[], w₀⟩ P → P.quiet = true →
      driver.arrive .close P.world = some v →
      Steps (driver.only takesReports).exec (driver.handler .close) v (.ret ()) w' →
      NothingHeld w' := by
  intro h
  obtain ⟨w₀, P, v, w', h₀, hP, hquiet, ha, hs, hreports, hlast⟩ :=
    writers_play Writers (fun _ _ hm => hm) crossingWrites [[0, 2, 0, 3, 0], [1, 2, 0, 3, 0]]
      [0, 2, 0, 3, 0] (by decide +kernel)
  have hheld := h w₀ v w' P h₀ hP hquiet ha hs
  rw [nothingHeld_closed (h₀.writersAt.run (fun _ _ hm => hm) hP).written ha hs] at hheld
  simp [World.releases, NothingHeld, hlast, hreports, pressed, byteAt] at hheld

end VirtualGun.Driver
