import VirtualGun.Driver.Quiet

/-!
# The configuration a client can make

The setup IOCTLs, handled one at a time. A client makes the virtual lightgun or nothing, and it
makes it once.
-/

open VirtualGun.Program

namespace VirtualGun.Driver

/-! ## What is configured -/

/-- Whether the item a setup IOCTL sets is set. -/
def isSet : RequestCode → FileContext → Bool
  | .setDeviceInfo, f => f.deviceInfoSet
  | .setReportDescriptor, f => f.vhfConfig.reportDescriptor.isSome
  | .setInstanceId, f => f.vhfConfig.instanceID.isSome
  | .setHardwareIds, f => f.vhfConfig.hardwareIDs.isSome
  | _, _ => false

/-- `DeviceInfoSet` and `VhfConfig`. -/
def effectiveConfig (f : FileContext) : Bool × VhfConfig := (f.deviceInfoSet, f.vhfConfig)

/-- How many requests of a kind completed with success. -/
def World.accepted (w : World) (code : RequestCode) : ℕ :=
  w.completed.countP fun c => c.request.code == code && ntSuccess c.status

def VhfCall.isCreate : VhfCall → Bool
  | .create .. => true
  | _ => false

def World.creates (w : World) : List VhfCall := w.vhf.filter VhfCall.isCreate

/-- The configuration of the virtual lightgun. -/
structure Lightgun (config : VhfConfig) : Prop where
  vendorID : config.vendorID = vgunVid
  productID : config.productID = vgunPid
  reportDescriptor : config.reportDescriptor = some vgunReportDescriptor
  reportDescriptorLength : config.reportDescriptorLength.toNat = vgunReportDescriptor.length

/-- Each part of the configuration is empty or the lightgun's. -/
structure Checked (f : FileContext) : Prop where
  identity : f.deviceInfoSet → f.vhfConfig.vendorID = vgunVid ∧ f.vhfConfig.productID = vgunPid
  descriptor :
    f.vhfConfig.reportDescriptor = none ∧ f.vhfConfig.reportDescriptorLength = 0 ∨
    f.vhfConfig.reportDescriptor = some vgunReportDescriptor ∧
      f.vhfConfig.reportDescriptorLength.toNat = vgunReportDescriptor.length

theorem Checked.created : Checked FileContext.created :=
  ⟨nofun, .inl ⟨rfl, rfl⟩⟩

theorem isSet_congr {f g : FileContext} (h : effectiveConfig g = effectiveConfig f)
    (code : RequestCode) : isSet code g = isSet code f := by
  simp only [effectiveConfig, Prod.mk.injEq] at h
  cases code <;> simp [isSet, h]

theorem Checked.congr {f g : FileContext} (h : effectiveConfig g = effectiveConfig f)
    (hf : Checked f) : Checked g := by
  simp only [effectiveConfig, Prod.mk.injEq] at h
  exact ⟨h.1 ▸ h.2 ▸ hf.identity, h.2 ▸ hf.descriptor⟩

/-- `CREATE_DEVICE` looks at the descriptor's length and at `DeviceInfoSet`. -/
theorem Checked.lightgun {f : FileContext} (h : Checked f)
    (hlen : f.vhfConfig.reportDescriptorLength ≠ 0) (hinfo : f.deviceInfoSet) :
    Lightgun f.vhfConfig := by
  rcases h.descriptor with ⟨_, h0⟩ | ⟨hd, hl⟩
  · exact absurd h0 hlen
  · exact ⟨(h.identity hinfo).1, (h.identity hinfo).2, hd, hl⟩

/-! ## A run of a setup IOCTL -/

/-- One item goes from unset to set. -/
structure Sets (code : RequestCode) (f f' : FileContext) : Prop where
  before : isSet code f = false
  after : isSet code f' = true
  others : ∀ c, c ≠ code → isSet c f' = isSet c f
  checked : Checked f → Checked f'

/-- What a status says of the configuration before and after: accepted with the item set, or failed
with nothing changed. -/
def Settles (code : RequestCode) (s : NTSTATUS) (f f' : FileContext) : Prop :=
  if ntSuccess s then Sets code f f' else effectiveConfig f' = effectiveConfig f

/-- The worlds a setup IOCTL passes through before it completes its request: only the file context
changes, and nothing of it while a device exists. -/
structure SetupInstant (request : Request) (w w' : World) : Prop where
  only_file : { w' with file := w.file, completed := w.completed } = w
  handle : w'.file.vhfHandle = w.file.vhfHandle
  frozen : w.file.vhfHandle.isSome → w'.file = w.file
  config : effectiveConfig w'.file = effectiveConfig w.file ∨ Sets request.code w.file w'.file
  completed : w'.completed = w.completed ∨
    ∃ s, w'.completed = w.completed ++ [⟨request, s, 0, request.output⟩] ∧
      Settles request.code s w.file w'.file

def SetupDone (request : Request) (w w' : World) : Prop :=
  ∃ s, w'.completed = w.completed ++ [⟨request, s, 0, request.output⟩] ∧
    Settles request.code s w.file w'.file

abbrev SetupRun (request : Request) (w : World) : Handler Unit → World → Prop :=
  wp exec (SetupInstant request w) fun _ => SetupDone request w

section
variable {request : Request} {w : World} {g : FileContext}

theorem SetupInstant.file (hh : g.vhfHandle = w.file.vhfHandle)
    (hf : w.file.vhfHandle.isSome → g = w.file)
    (hc : effectiveConfig g = effectiveConfig w.file ∨ Sets request.code w.file g) :
    SetupInstant request w { w with file := g } :=
  ⟨rfl, hh, hf, hc, .inl rfl⟩

theorem SetupInstant.refl : SetupInstant request w w :=
  .file rfl (fun _ => rfl) (.inl rfl)

theorem Settles.config {code : RequestCode} {s : NTSTATUS} {f f' : FileContext}
    (h : Settles code s f f') : effectiveConfig f' = effectiveConfig f ∨ Sets code f f' := by
  unfold Settles at h
  split at h
  · exact .inr h
  · exact .inl h

theorem setup_complete {s : NTSTATUS} (hh : g.vhfHandle = w.file.vhfHandle)
    (hf : w.file.vhfHandle.isSome → g = w.file) (hs : Settles request.code s w.file g) :
    SetupRun request w (wdfRequestComplete request s) { w with file := g } :=
  wp_complete.mpr ⟨.file hh hf hs.config,
    ⟨rfl, hh, hf, hs.config, .inr ⟨s, rfl, hs⟩⟩, s, rfl, hs⟩

theorem setup_fail {s : NTSTATUS} (hs : ntSuccess s = false) :
    SetupRun request w (wdfRequestComplete request s) w :=
  setup_complete (g := w.file) rfl (fun _ => rfl) (by simp [Settles, hs])

theorem storeDeviceInfo_sets {info : DeviceInfo} {f : FileContext} (hset : f.deviceInfoSet = false)
    (hvid : info.vendorID = vgunVid) (hpid : info.productID = vgunPid) :
    Sets .setDeviceInfo f (storeDeviceInfo info f) where
  before := hset
  after := rfl
  others c hc := by cases c <;> first | contradiction | rfl
  checked h := ⟨fun _ => ⟨hvid, hpid⟩, h.descriptor⟩

theorem guard_open {b : Bool} (h : ¬ (b || w.file.vhfHandle.isSome) = true) :
    b = false ∧ w.file.vhfHandle = none := by
  simpa using h

theorem setDeviceInfo_run (hcode : request.code = .setDeviceInfo) :
    SetupRun request w (setDeviceInfo request) w := by
  simp only [setDeviceInfo, perform, Prog.perform_bind, wp_readContext]
  refine ⟨.refl, wp_ite (fun _ => setup_fail rfl) fun hguard => ?_⟩
  obtain ⟨hset, hh⟩ := guard_open hguard
  refine wp_retrieveInput .refl fun s _ => wp_ite (fun hs => setup_fail (by simpa using hs))
    fun _ => wp_ite (fun _ => setup_fail rfl) fun _ => wp_ite (fun _ => setup_fail rfl) fun hid =>
      wp_modifyContext.mpr ⟨.refl, ?_⟩
  simp only [Bool.or_eq_true, bne_iff_ne, ne_eq, not_or, not_not] at hid
  refine setup_complete rfl (by simp [hh]) ?_
  simp only [Settles, hcode]
  exact storeDeviceInfo_sets hset hid.1 hid.2

/-- The memory objects of the file context are no part of the configuration. -/
theorem copyIntoMemory_run {setMem : Option (List Byte) → FileContext → FileContext}
    {input : List Byte} {k : NTSTATUS → Handler Unit} (hw : w.file.vhfHandle = none)
    (hh : ∀ mem f, (setMem mem f).vhfHandle = f.vhfHandle)
    (hc : ∀ mem f, effectiveConfig (setMem mem f) = effectiveConfig f)
    (hk : ∀ s g, g.vhfHandle = none → effectiveConfig g = effectiveConfig w.file →
      SetupRun request w (k s) { w with file := g }) :
    SetupRun request w (copyIntoMemory setMem input >>= k) w := by
  have hmem (mem f) (hf : f.vhfHandle = none) (he : effectiveConfig f = effectiveConfig w.file) :
      (setMem mem f).vhfHandle = none ∧
        effectiveConfig (setMem mem f) = effectiveConfig w.file :=
    ⟨(hh mem f).trans hf, (hc mem f).trans he⟩
  have hin (g) (hg : g.vhfHandle = none ∧ effectiveConfig g = effectiveConfig w.file) :
      SetupInstant request w { w with file := g } :=
    .file (hg.1.trans hw.symm) (by simp [hw]) (.inl hg.2)
  rw [SetupRun, wp_bind]
  refine wp_memoryCreate .refl fun s => wp_ite (fun _ => ?_) fun _ => ?_
  · exact ⟨.refl, hk s w.file hw rfl⟩
  · have h₁ := hmem (some (List.replicate input.length 0)) w.file hw rfl
    refine wp_modifyContext.mpr ⟨.refl, wp_memoryCopy (hin _ h₁) fun s => ?_⟩
    have h₂ := hmem (if ntSuccess s then some input else none) _ h₁.1 h₁.2
    exact wp_modifyContext.mpr ⟨hin _ h₁, hin _ h₂, hk s _ h₂.1 h₂.2⟩

theorem storeReportDescriptor_vhfHandle (input : List Byte) (f : FileContext) :
    (storeReportDescriptor input f).vhfHandle = f.vhfHandle := by
  simp only [storeReportDescriptor]
  split <;> rfl

/-- A parse that fails takes back what was stored before it. -/
theorem storeReportDescriptor_settles {f g : FileContext}
    (hf : Checked f) (hset : f.vhfConfig.reportDescriptor = none)
    (hg : effectiveConfig g = effectiveConfig f) :
    Settles .setReportDescriptor
      (parseReportDescriptor vgunReportDescriptor vgunReportDescriptor.length.toUInt16).status f
      (storeReportDescriptor vgunReportDescriptor g) := by
  have hinfo : g.deviceInfoSet = f.deviceInfoSet := congrArg Prod.fst hg
  have hconf : g.vhfConfig = f.vhfConfig := congrArg Prod.snd hg
  by_cases hs : ntSuccess
      (parseReportDescriptor vgunReportDescriptor vgunReportDescriptor.length.toUInt16).status
  · simp only [Settles, storeReportDescriptor, if_pos hs]
    refine ⟨by simp [isSet, hset], rfl, fun c hc => ?_, fun h => ⟨?_, .inr ⟨rfl, rfl⟩⟩⟩
    · cases c <;> first | contradiction | simp [isSet, hinfo, hconf]
    · simpa [hinfo, hconf] using h.identity
  · have hlen : f.vhfConfig.reportDescriptorLength = 0 := by
      rcases hf.descriptor with h | h
      · exact h.2
      · simp [hset] at h
    simp only [Settles, storeReportDescriptor, if_neg hs]
    simp [effectiveConfig, hinfo, hconf, ← hset, ← hlen]

theorem setReportDescriptor_run (hcode : request.code = .setReportDescriptor)
    (hw : Checked w.file) : SetupRun request w (setReportDescriptor request) w := by
  simp only [setReportDescriptor, perform, Prog.perform_bind, wp_readContext]
  refine ⟨.refl, wp_ite (fun _ => setup_fail rfl) fun hguard => ?_⟩
  obtain ⟨hset, hh⟩ := guard_open hguard
  refine wp_retrieveInput .refl fun s _ => wp_ite (fun hs => setup_fail (by simpa using hs))
    fun _ => wp_ite (fun _ => setup_fail rfl) fun hin => wp_ite (fun _ => setup_fail rfl) fun _ =>
      ?_
  simp only [Bool.or_eq_true, bne_iff_ne, ne_eq, not_or, not_not] at hin
  refine copyIntoMemory_run hh (fun _ _ => rfl) (fun _ _ => rfl) fun s g hg hc => ?_
  have hcomplete {s} (hs : Settles request.code s w.file g) :
      SetupRun request w (wdfRequestComplete request s) { w with file := g } :=
    setup_complete (hg.trans hh.symm) (by simp [hh]) hs
  refine wp_ite (fun hs => hcomplete (by simpa [Settles, show ntSuccess s = false by simpa using hs]))
    fun _ => wp_modifyContext.mpr ⟨.file (hg.trans hh.symm) (by simp [hh]) (.inl hc), ?_⟩
  rw [hin.2]
  have hstore : (storeReportDescriptor vgunReportDescriptor g).vhfHandle = w.file.vhfHandle := by
    rw [storeReportDescriptor_vhfHandle, hg, hh]
  refine setup_complete hstore (by simp [hh]) ?_
  rw [hcode]
  exact storeReportDescriptor_settles hw (by simpa using hset) hc

theorem setIdString_run {s : IdString} (hcode : isSet request.code = s.isSet)
    (hh : ∀ mem f, (s.setMem mem f).vhfHandle = f.vhfHandle)
    (hc : ∀ mem f, effectiveConfig (s.setMem mem f) = effectiveConfig f)
    (hstore : ∀ f, (s.store request.input f).vhfHandle = f.vhfHandle)
    (hsets : ∀ f g, effectiveConfig g = effectiveConfig f → isSet request.code f = false →
      Sets request.code f (s.store request.input g)) :
    SetupRun request w (setIdString s request) w := by
  simp only [setIdString, perform, Prog.perform_bind, wp_readContext]
  refine ⟨.refl, wp_ite (fun _ => setup_fail rfl) fun hguard => ?_⟩
  obtain ⟨hset, hw⟩ := guard_open hguard
  refine wp_retrieveInput .refl fun s _ => wp_ite (fun hs => setup_fail (by simpa using hs))
    fun _ => wp_ite (fun _ => setup_fail rfl) fun _ => wp_ite (fun _ => setup_fail rfl) fun _ =>
      wp_ite (fun _ => setup_fail rfl) fun _ => copyIntoMemory_run hw hh hc fun s g hg he => ?_
  have hin : SetupInstant request w { w with file := g } :=
    .file (hg.trans hw.symm) (by simp [hw]) (.inl he)
  refine wp_ite (fun hs => ?_) fun hs => wp_modifyContext.mpr ⟨hin, ?_⟩
  · refine setup_complete (hg.trans hw.symm) (by simp [hw]) ?_
    simpa [Settles, show ntSuccess s = false by simpa using hs] using he
  · refine setup_complete ((hstore g).trans (hg.trans hw.symm)) (by simp [hw]) ?_
    simp only [Settles, show ntSuccess s = true by simpa using hs]
    exact hsets _ _ he (by rw [hcode]; exact hset)

theorem setInstanceId_run (hcode : request.code = .setInstanceId) :
    SetupRun request w (setInstanceId request) w := by
  refine setIdString_run (by rw [hcode]; rfl) (fun _ _ => rfl) (fun _ _ => rfl) (fun _ => rfl) ?_
  intro f g hg hset
  rw [hcode] at hset ⊢
  have hinfo : g.deviceInfoSet = f.deviceInfoSet := congrArg Prod.fst hg
  have hconf : g.vhfConfig = f.vhfConfig := congrArg Prod.snd hg
  refine ⟨hset, rfl, fun c hc => ?_, fun h => ⟨?_, ?_⟩⟩
  · cases c <;> first | contradiction | simp [isSet, instanceIdString, hinfo, hconf]
  · simpa [instanceIdString, hinfo, hconf] using h.identity
  · simpa [instanceIdString, hconf] using h.descriptor

theorem setHardwareIds_run (hcode : request.code = .setHardwareIds) :
    SetupRun request w (setHardwareIds request) w := by
  refine setIdString_run (by rw [hcode]; rfl) (fun _ _ => rfl) (fun _ _ => rfl) (fun _ => rfl) ?_
  intro f g hg hset
  rw [hcode] at hset ⊢
  have hinfo : g.deviceInfoSet = f.deviceInfoSet := congrArg Prod.fst hg
  have hconf : g.vhfConfig = f.vhfConfig := congrArg Prod.snd hg
  refine ⟨hset, rfl, fun c hc => ?_, fun h => ⟨?_, ?_⟩⟩
  · cases c <;> first | contradiction | simp [isSet, hardwareIdsString, hinfo, hconf]
  · simpa [hardwareIdsString, hinfo, hconf] using h.identity
  · simpa [hardwareIdsString, hconf] using h.descriptor

end

/-! ## Every other handler -/

/-- Calls that neither configure nor create, and complete no setup request. -/
def keepsConfig : Call → Prop
  | .modifyContext _ | .vhfCreate => False
  | .wdfRequestComplete request _ _ _ => request.code.isSetup = false
  | .wdfRequestForwardToIoQueue request | .wdfRequestRequeue request => request.code.isSetup = false
  | _ => True

structure SameConfig (w w' : World) : Prop where
  config : effectiveConfig w'.file = effectiveConfig w.file
  handle : w'.file.vhfHandle = w.file.vhfHandle ∨ w'.file.vhfHandle = none
  creates : w'.creates = w.creates
  accepted : ∀ code, code.isSetup → w'.accepted code = w.accepted code

theorem SameConfig.refl (w : World) : SameConfig w w := ⟨rfl, .inl rfl, rfl, fun _ _ => rfl⟩

theorem SameConfig.trans {u v w : World} (h : SameConfig u v) (h' : SameConfig v w) :
    SameConfig u w where
  config := h'.config.trans h.config
  handle := by
    rcases h'.handle with e | e
    · rw [e]; exact h.handle
    · exact .inr e
  creates := h'.creates.trans h.creates
  accepted code hc := (h'.accepted code hc).trans (h.accepted code hc)

theorem tryCompleteSection_keeps (t : TryOutcome) (output : List Byte) (f : FileContext) :
    effectiveConfig (tryCompleteSection t output f).2 = effectiveConfig f ∧
      (tryCompleteSection t output f).2.vhfHandle = f.vhfHandle := by
  unfold tryCompleteSection
  split
  · exact ⟨rfl, rfl⟩
  · grind [effectiveConfig]

theorem queueSection_keeps (op : OperationContext) (add : NTSTATUS) (f : FileContext) :
    effectiveConfig (queueSection op add f).2 = effectiveConfig f ∧
      (queueSection op add f).2.vhfHandle = f.vhfHandle := by
  unfold queueSection
  split
  · exact ⟨rfl, rfl⟩
  · split <;> exact ⟨rfl, rfl⟩

section
variable {c : Call} {o : Outcome} {r : c.Resp} {w w' : World}

theorem exec_config (hc : keepsConfig c) (he : exec c o w = some (r, w')) :
    effectiveConfig w'.file = effectiveConfig w.file ∧
      (w'.file.vhfHandle = w.file.vhfHandle ∨ w'.file.vhfHandle = none) := by
  cases c with
  | modifyContext | vhfCreate => exact hc.elim
  | interlockedIncrement =>
    obtain ⟨-, -, rfl⟩ := exec_increment.mp he
    exact ⟨rfl, .inl rfl⟩
  | queueSection op =>
    obtain ⟨add, -, -, rfl⟩ := exec_queueSection.mp he
    exact ⟨(queueSection_keeps op add w.file).1, .inl (queueSection_keeps op add w.file).2⟩
  | tryCompleteSection request =>
    obtain ⟨t, -, -, rfl⟩ := exec_tryComplete.mp he
    exact ⟨(tryCompleteSection_keeps t _ w.file).1, .inl (tryCompleteSection_keeps t _ w.file).2⟩
  | takeOutstandingRequestById id =>
    obtain ⟨-, -, rfl⟩ := exec_take.mp he
    exact ⟨rfl, .inl rfl⟩
  | storeLastReport report =>
    obtain ⟨-, rfl⟩ := exec_storeLastReport.mp he
    exact ⟨rfl, .inl rfl⟩
  | rundownSection =>
    obtain ⟨-, -, rfl⟩ := exec_rundown.mp he
    exact ⟨rfl, .inr rfl⟩
  | _ => rw [exec_file he rfl]; exact ⟨rfl, .inl rfl⟩

theorem rundown_no_create (f : FileContext) :
    ∀ c ∈ (VirtualGun.Driver.rundownSection f).2.1, c.isCreate = false := by
  simp only [VirtualGun.Driver.rundownSection, List.mem_append, List.mem_filterMap, rundownCall]
  grind [VhfCall.isCreate]

theorem exec_creates (hc : keepsConfig c) (he : exec c o w = some (r, w')) :
    w'.creates = w.creates := by
  have hcall (v : VhfCall) (hv : v.isCreate = false) : (w.call v).creates = w.creates := by
    simp [World.creates, World.call, hv]
  cases c with
  | vhfCreate => exact hc.elim
  | vhfStart handle => obtain ⟨-, rfl⟩ := exec_start.mp he; exact hcall _ rfl
  | vhfReadReportSubmit => obtain ⟨-, rfl⟩ := exec_submit.mp he; exact hcall _ rfl
  | vhfAsyncOperationComplete => obtain ⟨-, rfl⟩ := exec_asyncComplete.mp he; exact hcall _ rfl
  | vhfDelete => obtain ⟨-, rfl⟩ := exec_delete.mp he; exact hcall _ rfl
  | rtlCopyMemory => obtain ⟨-, rfl⟩ := exec_copyMemory.mp he; exact hcall _ rfl
  | rtlZeroMemory => obtain ⟨-, rfl⟩ := exec_zeroMemory.mp he; exact hcall _ rfl
  | rundownSection =>
    obtain ⟨-, -, rfl⟩ := exec_rundown.mp he
    simpa [World.creates, World.afterRundown] using rundown_no_create w.file
  | _ => rw [World.creates, exec_vhf he rfl, World.creates]

theorem exec_accepted (hc : keepsConfig c) (he : exec c o w = some (r, w')) (code : RequestCode)
    (hcode : code.isSetup) : w'.accepted code = w.accepted code := by
  cases c with
  | wdfRequestComplete request s information output =>
    obtain ⟨-, rfl⟩ := exec_complete.mp he
    have hne : request.code ≠ code := by rintro rfl; simp [keepsConfig, hcode] at hc
    simp [World.accepted, hne]
  | _ => rw [World.accepted, exec_completed he rfl, World.accepted]

theorem exec_keepsConfig (hp : ParkedEvents w) (hc : keepsConfig c)
    (he : exec c o w = some (r, w')) :
    givesEventRequest c r ∧ ParkedEvents w' ∧ SameConfig w w' := by
  obtain ⟨hr, hp'⟩ := exec_parkedEvents hp (by rintro request (rfl | rfl) <;> exact hc) he
  obtain ⟨hconf, hh⟩ := exec_config hc he
  exact ⟨hr, hp', hconf, hh, exec_creates hc he, exec_accepted hc he⟩

end

/-- The handler makes only such calls. -/
abbrev KeepsConfig {α : Type} (p : Handler α) : Prop := p.Calls keepsConfig givesEventRequest

theorem Quiet.keepsConfig {α : Type} {p : Handler α} (h : Quiet p) : KeepsConfig p :=
  Prog.calls_mono (fun c hc => by cases c <;> trivial) (fun _ _ hr => hr) h

theorem wdfRequestComplete_keeps {request : Request} {s : NTSTATUS}
    (h : request.code.isSetup = false) : KeepsConfig (wdfRequestComplete request s) :=
  (wdfRequestComplete_quiet h).keepsConfig

section
variable {request : Request}

theorem answerReadyForRead_keeps (readComplete : ReadEventComplete) :
    KeepsConfig (answerReadyForRead readComplete) := by
  simp only [answerReadyForRead, perform, Prog.perform_bind]
  refine Prog.calls_ite (fun _ => ⟨trivial, fun _ _ => ⟨trivial, fun _ _ => trivial⟩⟩) fun _ =>
    Prog.calls_ite (fun _ => ?_) fun _ => trivial
  exact Prog.calls_bind (dispatchAsyncOperation_quiet _ _ _).keepsConfig fun _ => trivial

theorem completeReadEvent_keeps (h : request.code.isSetup = false) :
    KeepsConfig (completeReadEvent request) := by
  simp only [completeReadEvent, perform, Prog.perform_bind]
  refine ⟨trivial, fun f _ => Prog.calls_ite (fun _ => wdfRequestComplete_keeps h) fun _ =>
    ⟨trivial, fun s _ => Prog.calls_ite (fun _ => wdfRequestComplete_keeps h) fun _ =>
    Prog.calls_ite (fun _ => wdfRequestComplete_keeps h) fun _ => ⟨trivial, fun op _ => ?_⟩⟩⟩
  have hend {op : OperationContext} {s : NTSTATUS} : KeepsConfig
      (.call (.wdfObjectDelete op.object) fun _ => wdfRequestComplete request s) :=
    ⟨trivial, fun _ _ => wdfRequestComplete_keeps h⟩
  cases op with
  | none => exact wdfRequestComplete_keeps h
  | some op =>
    refine Prog.calls_ite (fun _ => ?_) fun _ => Prog.calls_ite (fun _ => ?_) fun _ => ?_
    · exact Prog.calls_bind (answerReadyForRead_keeps _) fun _ => hend
    · exact Prog.calls_bind (fillReportBuffer_quiet _ _).keepsConfig fun _ => ⟨trivial, fun _ _ => hend⟩
    · exact ⟨trivial, fun _ _ => hend⟩

theorem winUHidEvtIoWrite_keeps (h : request.code.isSetup = false) :
    KeepsConfig (winUHidEvtIoWrite request) := by
  simp only [winUHidEvtIoWrite, perform, Prog.perform_bind]
  refine ⟨trivial, fun f _ => ?_⟩
  beta_reduce
  cases f.vhfHandle with
  | none => exact wdfRequestComplete_keeps h
  | some handle =>
    refine ⟨trivial, fun _ _ => Prog.calls_ite (fun _ => wdfRequestComplete_keeps h) fun _ =>
      Prog.calls_ite (fun _ => wdfRequestComplete_keeps h) fun _ => ⟨trivial, fun _ _ =>
      ⟨trivial, fun s _ => Prog.calls_ite (fun _ => wdfRequestComplete_keeps h) fun _ =>
      Prog.calls_ite (fun _ => ?_) fun _ => ?_⟩⟩⟩
    · exact ⟨trivial, fun _ _ => ⟨h, fun _ _ => trivial⟩⟩
    · exact ⟨h, fun _ _ => trivial⟩

theorem winUHidEvtDeviceFileClose_keeps : KeepsConfig winUHidEvtDeviceFileClose := by
  simp only [winUHidEvtDeviceFileClose, perform, Prog.perform_bind]
  refine ⟨trivial, fun r _ => ?_⟩
  beta_reduce
  cases r.vhfHandle with
  | none => trivial
  | some handle =>
    exact Prog.calls_ite (fun _ => ⟨trivial, fun _ _ => ⟨trivial, fun _ _ => trivial⟩⟩)
      fun _ => ⟨trivial, fun _ _ => trivial⟩

end

/-! ## Over every run -/

def OnlyLightguns (w : World) : Prop :=
  ∀ config handleSet status, .create config handleSet status ∈ w.vhf →
    Lightgun config ∧ handleSet = false

/-- What holds at every instant of a run. -/
structure ConfigInstant (w : World) : Prop where
  checked : Checked w.file
  creates : OnlyLightguns w
  accepted : ∀ code, code.isSetup → w.accepted code ≤ 1
  parked : ParkedEvents w

/-- Between runs an item that is not set was never accepted. -/
structure ConfigRest (w : World) : Prop extends ConfigInstant w where
  never : ∀ code, code.isSetup → isSet code w.file = false → w.accepted code = 0

theorem OnlyLightguns.congr {w w' : World} (h : w'.creates = w.creates) (hw : OnlyLightguns w) :
    OnlyLightguns w' := by
  intro config handleSet status hmem
  have hc : VhfCall.create config handleSet status ∈ w'.creates := by
    simpa [World.creates, VhfCall.isCreate] using hmem
  rw [h] at hc
  exact hw _ _ _ (List.mem_of_mem_filter hc)

section
variable {request : Request} {v w w' : World}

theorem ConfigRest.opened : ConfigRest World.opened where
  checked := Checked.created
  creates := by simp [OnlyLightguns, World.opened]
  accepted := by simp [World.accepted, World.opened]
  parked := by simp [ParkedEvents, World.opened]
  never := by simp [World.accepted, World.opened]

theorem ConfigRest.same (hw : ConfigRest w) (hp : ParkedEvents w') (h : SameConfig w w') :
    ConfigRest w' where
  checked := hw.checked.congr h.config
  creates := hw.creates.congr h.creates
  accepted code hc := h.accepted code hc ▸ hw.accepted code hc
  parked := hp
  never code hc hset := by
    rw [h.accepted code hc]
    exact hw.never code hc (isSet_congr h.config code ▸ hset)

theorem accepted_append {s : NTSTATUS} {output : List Byte}
    (h : w'.completed = w.completed ++ [⟨request, s, 0, output⟩]) (code : RequestCode) :
    w'.accepted code =
      w.accepted code + if request.code = code ∧ ntSuccess s = true then 1 else 0 := by
  simp [World.accepted, h, List.countP_cons]

theorem SetupInstant.checked (h : SetupInstant request w w') (hw : Checked w.file) :
    Checked w'.file := by
  rcases h.config with hc | hc
  · exact hw.congr hc
  · exact hc.checked hw

theorem SetupInstant.configInstant (h : SetupInstant request w w') (hw : ConfigRest w) :
    ConfigInstant w' where
  checked := h.checked hw.checked
  creates := hw.creates.congr (by rw [World.creates, World.creates, ← h.only_file])
  accepted code hcode := by
    rcases h.completed with hc | ⟨s, hc, hs⟩
    · rw [World.accepted, hc]
      exact hw.accepted code hcode
    · rw [accepted_append hc]
      split
      · next hacc =>
        obtain ⟨rfl, hsucc⟩ := hacc
        simp only [Settles, hsucc, if_true] at hs
        have := hw.never _ hcode hs.before
        omega
      · exact hw.accepted code hcode
  parked := by
    rw [ParkedEvents, ← show w.parked = w'.parked by rw [← h.only_file]]
    exact hw.parked

theorem SetupDone.configRest (hi : SetupInstant request w w') (h : SetupDone request w w')
    (hw : ConfigRest w) : ConfigRest w' where
  toConfigInstant := hi.configInstant hw
  never code hcode hset := by
    obtain ⟨s, hc, hs⟩ := h
    rw [accepted_append hc]
    by_cases hsucc : ntSuccess s = true
    · simp only [Settles, hsucc, if_true] at hs
      have hne : code ≠ request.code := by
        rintro rfl
        simp [hs.after] at hset
      simpa [Ne.symm hne] using hw.never code hcode (hs.others code hne ▸ hset)
    · simp only [Settles, hsucc] at hs
      simpa [hsucc] using hw.never code hcode (isSet_congr hs code ▸ hset)

/-- Where a run of an IOCTL begun in `v` may be. -/
def IoctlInstant (v w' : World) : Prop :=
  ConfigInstant w' ∧
    (v.file.vhfHandle.isSome → effectiveConfig w'.file = effectiveConfig v.file)

def IoctlDone (request : Request) (v w' : World) : Prop :=
  ConfigRest w' ∧ (request.code.isSetup → SetupDone request v w')

theorem setup_ioctl {p : Handler Unit} (hv : ConfigRest v) (h : SetupRun request v p v) :
    wp exec (IoctlInstant v) (fun _ => IoctlDone request v) p v :=
  wp_mono (fun _ hi => ⟨hi.configInstant hv, fun hh => by rw [hi.frozen hh]⟩)
    (fun _ _ hi hd => ⟨hd.configRest hi hv, fun _ => hd⟩) h

theorem KeepsConfig.ioctl {p : Handler Unit} (hv : ConfigRest v)
    (hcode : request.code.isSetup = false) (h : KeepsConfig p) :
    wp exec (IoctlInstant v) (fun _ => IoctlDone request v) p v :=
  wp_mono (fun _ hi => ⟨(hv.same hi.1 hi.2).toConfigInstant, fun _ => hi.2.config⟩)
    (fun _ _ hi _ => ⟨hv.same hi.1 hi.2, by simp [hcode]⟩)
    (wp_frame SameConfig.refl SameConfig.trans exec_keepsConfig hv.parked h)

theorem created_effectiveConfig (w : World) (s : NTSTATUS) (handle : VhfHandle) :
    effectiveConfig (w.created s handle).file = effectiveConfig w.file := by
  simp only [World.created]
  split <;> rfl

theorem created_onlyLightguns {s : NTSTATUS} {handle : VhfHandle} (hw : OnlyLightguns w)
    (hl : Lightgun w.file.vhfConfig) (hh : w.file.vhfHandle = none) :
    OnlyLightguns (w.created s handle) := by
  have hvhf : (w.created s handle).vhf = w.vhf ++ [.create w.file.vhfConfig false s] := by
    simp only [World.created]
    split <;> simp [World.call, hh]
  intro config handleSet status hmem
  rw [hvhf, List.mem_append, List.mem_singleton, VhfCall.create.injEq] at hmem
  rcases hmem with hmem | ⟨rfl, rfl, -⟩
  · exact hw _ _ _ hmem
  · exact ⟨hl, rfl⟩

theorem createDevice_ioctl (hv : ConfigRest v) (hcode : request.code = .createDevice) :
    wp exec (IoctlInstant v) (fun _ => IoctlDone request v) (createDevice request) v := by
  have hsetup : request.code.isSetup = false := by rw [hcode]; rfl
  simp only [createDevice, perform, Prog.perform_bind, wp_readContext]
  refine ⟨⟨hv.toConfigInstant, fun _ => rfl⟩, wp_ite
    (fun _ => KeepsConfig.ioctl hv hsetup (wdfRequestComplete_keeps hsetup)) fun hguard => ?_⟩
  simp only [Bool.or_eq_true, not_or, Bool.not_eq_true', Bool.not_eq_false, decide_eq_true_eq,
    Bool.not_eq_true, Option.isSome_eq_false_iff, Option.isNone_iff_eq_none] at hguard
  obtain ⟨⟨hh, hlen⟩, hinfo⟩ := hguard
  refine ⟨⟨hv.toConfigInstant, fun _ => rfl⟩, fun o s w' he => ?_⟩
  obtain ⟨handle, -, rfl⟩ := exec_create.mp he
  have hcompleted : (v.created s handle).completed = v.completed := by
    simp only [World.created]
    split <;> rfl
  have hparked : (v.created s handle).parked = v.parked := by
    simp only [World.created]
    split <;> rfl
  have hrest : ConfigRest (v.created s handle) :=
    { checked := hv.checked.congr (created_effectiveConfig v s handle)
      creates := created_onlyLightguns hv.creates (hv.checked.lightgun hlen hinfo) hh
      accepted := by simpa only [World.accepted, hcompleted] using hv.accepted
      parked := by simpa only [ParkedEvents, hparked] using hv.parked
      never := fun code hc hset => by
        rw [isSet_congr (created_effectiveConfig v s handle)] at hset
        simpa only [World.accepted, hcompleted] using hv.never code hc hset }
  refine wp_mono (fun _ hi => ⟨hi.1, by simp [hh]⟩) (fun _ _ _ hd => ⟨hd.1, by simp [hsetup]⟩)
    (KeepsConfig.ioctl hrest hsetup (wdfRequestComplete_keeps hsetup))

theorem ioctl_run (request : Request) (hv : ConfigRest v) :
    wp exec (IoctlInstant v) (fun _ => IoctlDone request v) (winUHidEvtIoDeviceControl request) v := by
  have hframe {p : Handler Unit} (hsetup : request.code.isSetup = false) (h : KeepsConfig p) :
      wp exec (IoctlInstant v) (fun _ => IoctlDone request v) p v :=
    KeepsConfig.ioctl hv hsetup h
  unfold winUHidEvtIoDeviceControl
  cases hcode : request.code with
  | setDeviceInfo => exact setup_ioctl hv (setDeviceInfo_run hcode)
  | setReportDescriptor => exact setup_ioctl hv (setReportDescriptor_run hcode hv.checked)
  | setInstanceId => exact setup_ioctl hv (setInstanceId_run hcode)
  | setHardwareIds => exact setup_ioctl hv (setHardwareIds_run hcode)
  | createDevice => exact createDevice_ioctl hv hcode
  | startDevice => exact hframe (by rw [hcode]; rfl) (startDevice_quiet (by rw [hcode]; rfl)).keepsConfig
  | getNextEvent => exact hframe (by rw [hcode]; rfl) (getNextEvent_quiet (by rw [hcode]; rfl)).keepsConfig
  | completeWriteEvent =>
    exact hframe (by rw [hcode]; rfl) (completeWriteEvent_quiet (by rw [hcode]; rfl)).keepsConfig
  | completeReadEvent =>
    exact hframe (by rw [hcode]; rfl) (completeReadEvent_keeps (by rw [hcode]; rfl))
  | getInterfaceVersion =>
    exact hframe (by rw [hcode]; rfl) (getInterfaceVersion_quiet (by rw [hcode]; rfl)).keepsConfig
  | other | write =>
    exact hframe (by rw [hcode]; rfl) (wdfRequestComplete_keeps (by rw [hcode]; rfl))

theorem arrive_same {l : Event} (ha : driver.arrive l w = some v) :
    v.parked = w.parked ∧ SameConfig w v := by
  cases l <;> simp only [driver, arrive, World.accept, Option.ite_none_left_eq_some,
    Option.ite_none_right_eq_some, Option.some.injEq] at ha <;>
    grind [SameConfig, World.creates, World.accepted]

theorem ConfigRest.arrive {l : Event} (hw : ConfigRest w) (ha : driver.arrive l w = some v) :
    ConfigRest v :=
  hw.same (by rw [ParkedEvents, (arrive_same ha).1]; exact hw.parked) (arrive_same ha).2

theorem handler_run {l : Event} (hw : ConfigRest w) (ha : driver.arrive l w = some v) :
    wp exec ConfigInstant (fun _ => ConfigRest) (driver.handler l) v := by
  have hv := hw.arrive ha
  have hframe {p : Handler Unit} (h : KeepsConfig p) :
      wp exec ConfigInstant (fun _ => ConfigRest) p v :=
    wp_mono (fun _ hi => (hv.same hi.1 hi.2).toConfigInstant) (fun _ _ hi _ => hv.same hi.1 hi.2)
      (wp_frame SameConfig.refl SameConfig.trans exec_keepsConfig hv.parked h)
  cases l with
  | ioctl request =>
    exact wp_mono (fun _ hi => hi.1) (fun _ _ _ hd => hd.1)
      (ioctl_run request hv)
  | write request =>
    have hcode : request.code = .write := by
      by_contra hne
      simp [driver, VirtualGun.Driver.arrive, hne] at ha
    exact hframe (winUHidEvtIoWrite_keeps (by rw [hcode]; rfl))
  | asyncOperation handle packet type =>
    exact hframe (dispatchAsyncOperation_quiet (some handle) (some packet) type).keepsConfig
  | readyForNextReadReport => exact hframe (dispatchAsyncOperation_quiet none none .readReport).keepsConfig
  | close => exact hframe winUHidEvtDeviceFileClose_keeps

theorem rest_config (hw : Rest driver Always Never World.opened w) : ConfigRest w :=
  hw.inv ConfigRest.opened (fun _ _ _ h ha => wp_post (fun _ _ _ h _ => h) (handler_run h ha))
    (fun _ _ _ _ h => h.elim)

/-- Whatever was handled before on the handle, and wherever the handler of an IOCTL has got to:
only lightguns were created, none beside another, each setup IOCTL was accepted at most once, and a
handle with a device keeps its configuration. A setup IOCTL that failed left the configuration as
it was. -/
theorem only_lightguns_created {p : Handler Unit}
    (hw : Rest driver Always Never World.opened w)
    (ha : driver.arrive (.ioctl request) w = some v)
    (hs : Steps driver.exec (driver.handler (.ioctl request)) v p w') :
    OnlyLightguns w' ∧ (∀ code, code.isSetup → w'.accepted code ≤ 1) ∧
      (w.file.vhfHandle.isSome → effectiveConfig w'.file = effectiveConfig w.file) ∧
      (p = .ret () → request.code.isSetup →
        ∃ s, w'.completed = w.completed ++ [⟨request, s, 0, request.output⟩] ∧
          (ntSuccess s = false → effectiveConfig w'.file = effectiveConfig w.file)) := by
  have hv := (rest_config hw).arrive ha
  have hrun := ioctl_run request hv
  have hvw : v.file = w.file ∧ v.completed = w.completed := by
    simp only [driver, VirtualGun.Driver.arrive, World.accept, Option.ite_none_left_eq_some,
      Option.some.injEq] at ha
    rw [← ha.2.2]
    exact ⟨rfl, rfl⟩
  have hi : IoctlInstant v w' := hs.inv hrun
  refine ⟨hi.1.creates, hi.1.accepted, hvw.1 ▸ hi.2, ?_⟩
  rintro rfl hsetup
  obtain ⟨s, hc, hset⟩ := (hs.post hrun).2 hsetup
  refine ⟨s, hvw.2 ▸ hc, fun hfail => ?_⟩
  rw [Settles, hfail, hvw.1] at hset
  simpa using hset

/-- A client that has made the lightgun sets the report descriptor again. -/
def setAgain : Request := ⟨5, .setReportDescriptor, vgunReportDescriptor, []⟩

/-- The device is created once, with the lightgun's configuration, and what comes later is refused. -/
theorem only_lightguns_created_refused :
    ∃ w w', driver.play createGun World.opened = some w ∧
      driver.play [(.ioctl setAgain, [.ok, .ok])] w = some w' ∧
      w'.vhf = [.create w.file.vhfConfig false Status.success, .start 1 Status.success] ∧
      OnlyLightguns w' ∧ w'.accepted .setReportDescriptor = 1 ∧ effectiveConfig w'.file = effectiveConfig w.file := by
  have hplay : ((driver.play createGun World.opened).bind fun w =>
      (driver.play [(.ioctl setAgain, [.ok, .ok])] w).map fun w' =>
        (decide (w'.vhf = [.create w.file.vhfConfig false Status.success, .start 1 Status.success]),
          w.file.vhfHandle.isSome, w'.accepted .setReportDescriptor)) = some (true, true, 1) := by
    decide +kernel
  obtain ⟨w, hw, hplay⟩ := Option.bind_eq_some_iff.mp hplay
  obtain ⟨w', hw', hfacts⟩ := Option.map_eq_some_iff.mp hplay
  simp only [Prod.mk.injEq, decide_eq_true_eq] at hfacts
  obtain ⟨hvhf, hmade, haccepted⟩ := hfacts
  obtain ⟨v, a, ha, hs⟩ := System.play_single hw'
  obtain ⟨hguns, -, hconfig, -⟩ :=
    only_lightguns_created (Rest.play .init hw fun _ _ _ _ => trivial) ha hs
  exact ⟨w, w', hw, hw', hvhf, hguns, haccepted, hconfig hmade⟩

end

end VirtualGun.Driver
