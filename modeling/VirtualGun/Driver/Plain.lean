import VirtualGun.Driver.Quiet

/-!
# What the other handlers call

The setup IOCTLs change the configuration and nothing else of the file context. They and the plain
handlers number and queue no operation, take and complete none, and submit no report.
-/

open VirtualGun.Program

namespace VirtualGun.Driver

/-- What parsing the lightgun's descriptor finds. -/
def gunFormat : ParseResult :=
  parseReportDescriptor vgunReportDescriptor vgunReportDescriptor.length.toUInt16

/-- A change of the configuration. The only descriptor it brings in is the lightgun's. -/
structure Configures (f : FileContext → FileContext) : Prop where
  waitingRequests : ∀ g, (f g).waitingRequests = g.waitingRequests
  outstandingRequests : ∀ g, (f g).outstandingRequests = g.outstandingRequests
  lastReport : ∀ g, (f g).lastReport = g.lastReport
  lastReportValid : ∀ g, (f g).lastReportValid = g.lastReportValid
  nextRequestId : ∀ g, (f g).nextRequestId = g.nextRequestId
  vhfHandle : ∀ g, (f g).vhfHandle = g.vhfHandle
  format : ∀ g, (f g).reportSizes = g.reportSizes ∧ (f g).numberedReports = g.numberedReports ∨
    (f g).reportSizes = gunFormat.reportSizes ∧ (f g).numberedReports = gunFormat.numberedReports

theorem storeReportDescriptor_configures :
    Configures (storeReportDescriptor vgunReportDescriptor) := by
  constructor <;> intro g <;> simp only [storeReportDescriptor] <;> split <;>
    first | rfl | exact .inr ⟨rfl, rfl⟩

/-- The calls of the setup IOCTLs. -/
def configuring : Call → Prop
  | .modifyContext f => Configures f
  | .readContext | .wdfRequestRetrieveInputBuffer _ _ | .wdfRequestComplete .. => True
  | .wdfMemoryCreate _ | .wdfMemoryCopyFromBuffer | .vhfCreate => True
  | _ => False

abbrev Configuring {α : Type} (p : Handler α) : Prop := p.Calls configuring fun _ _ => True

def plain : Call → Prop
  | .modifyContext f => Configures f
  | .interlockedIncrement | .queueSection _ | .takeOutstandingRequestById _ => False
  | .vhfAsyncOperationComplete _ _ | .rtlCopyMemory .. | .rtlZeroMemory .. => False
  | .vhfReadReportSubmit _ _ | .storeLastReport _ | .rundownSection | .vhfDelete _ => False
  | _ => True

abbrev Plain {α : Type} (p : Handler α) : Prop := p.Calls plain fun _ _ => True

theorem Configuring.plain {α : Type} {p : Handler α} (h : Configuring p) : Plain p :=
  Prog.calls_mono (fun c hc => by cases c <;> trivial) (fun _ _ hr => hr) h

section
variable {request : Request} {s : NTSTATUS}

theorem wdfRequestComplete_configuring : Configuring (wdfRequestComplete request s) :=
  ⟨trivial, fun _ _ => trivial⟩

theorem setDeviceInfo_configuring : Configuring (setDeviceInfo request) := by
  simp only [setDeviceInfo, perform, Prog.perform_bind]
  refine ⟨trivial, fun f _ => Prog.calls_ite (fun _ => wdfRequestComplete_configuring) fun _ =>
    ⟨trivial, fun s _ => Prog.calls_ite (fun _ => wdfRequestComplete_configuring) fun _ =>
    Prog.calls_ite (fun _ => wdfRequestComplete_configuring) fun _ =>
    Prog.calls_ite (fun _ => wdfRequestComplete_configuring) fun _ =>
    ⟨?_, fun _ _ => wdfRequestComplete_configuring⟩⟩⟩
  constructor <;> intro g <;> first | rfl | exact .inl ⟨rfl, rfl⟩

theorem copyIntoMemory_configuring {setMem : Option (List Byte) → FileContext → FileContext}
    {input : List Byte} (h : ∀ mem, Configures (setMem mem)) :
    Configuring (copyIntoMemory setMem input) := by
  simp only [copyIntoMemory, perform, Prog.perform_bind]
  exact ⟨trivial, fun s _ => Prog.calls_ite (fun _ => trivial) fun _ =>
    ⟨h _, fun _ _ => ⟨trivial, fun s _ => ⟨h _, fun _ _ => trivial⟩⟩⟩⟩

theorem setReportDescriptor_configuring : Configuring (setReportDescriptor request) := by
  simp only [setReportDescriptor, perform, Prog.perform_bind]
  refine ⟨trivial, fun f _ => Prog.calls_ite (fun _ => wdfRequestComplete_configuring) fun _ =>
    ⟨trivial, fun s _ => Prog.calls_ite (fun _ => wdfRequestComplete_configuring) fun _ =>
    Prog.calls_ite (fun _ => wdfRequestComplete_configuring) fun hinput =>
    Prog.calls_ite (fun _ => wdfRequestComplete_configuring) fun _ =>
    Prog.calls_bind (copyIntoMemory_configuring fun _ => ?_) fun s =>
    Prog.calls_ite (fun _ => wdfRequestComplete_configuring) fun _ =>
    ⟨?_, fun _ _ => wdfRequestComplete_configuring⟩⟩⟩
  · constructor <;> intro g <;> first | rfl | exact .inl ⟨rfl, rfl⟩
  · simp only [Bool.or_eq_true, bne_iff_ne, not_or, not_not] at hinput
    rw [hinput.2]
    exact storeReportDescriptor_configures

theorem setIdString_configuring {s : IdString} (hmem : ∀ mem, Configures (s.setMem mem))
    (hstore : ∀ input, Configures (s.store input)) : Configuring (setIdString s request) := by
  simp only [setIdString, perform, Prog.perform_bind]
  exact ⟨trivial, fun f _ => Prog.calls_ite (fun _ => wdfRequestComplete_configuring) fun _ =>
    ⟨trivial, fun s _ => Prog.calls_ite (fun _ => wdfRequestComplete_configuring) fun _ =>
    Prog.calls_ite (fun _ => wdfRequestComplete_configuring) fun _ =>
    Prog.calls_ite (fun _ => wdfRequestComplete_configuring) fun _ =>
    Prog.calls_ite (fun _ => wdfRequestComplete_configuring) fun _ =>
    Prog.calls_bind (copyIntoMemory_configuring hmem) fun s =>
    Prog.calls_ite (fun _ => wdfRequestComplete_configuring) fun _ =>
    ⟨hstore _, fun _ _ => wdfRequestComplete_configuring⟩⟩⟩

theorem setInstanceId_configuring : Configuring (setInstanceId request) := by
  apply setIdString_configuring <;> intro x <;> constructor <;> intro g <;>
    first | rfl | exact .inl ⟨rfl, rfl⟩

theorem setHardwareIds_configuring : Configuring (setHardwareIds request) := by
  apply setIdString_configuring <;> intro x <;> constructor <;> intro g <;>
    first | rfl | exact .inl ⟨rfl, rfl⟩

theorem createDevice_configuring : Configuring (createDevice request) := by
  simp only [createDevice, perform, Prog.perform_bind]
  exact ⟨trivial, fun f _ => Prog.calls_ite (fun _ => wdfRequestComplete_configuring) fun _ =>
    ⟨trivial, fun s _ => wdfRequestComplete_configuring⟩⟩

theorem wdfRequestComplete_plain : Plain (wdfRequestComplete request s) :=
  ⟨trivial, fun _ _ => trivial⟩

theorem tryCompleteGetNextEvent_plain : Plain (tryCompleteGetNextEvent request) := by
  simp only [tryCompleteGetNextEvent, perform, Prog.perform_bind]
  exact ⟨trivial, fun r _ => Prog.calls_ite (fun _ => ⟨trivial, fun _ _ => trivial⟩) fun _ => trivial⟩

theorem serviceWaitingRequest_plain : Plain serviceWaitingRequest := by
  simp only [serviceWaitingRequest, perform, Prog.perform_bind]
  refine ⟨trivial, fun r _ => ?_⟩
  cases r with
  | none => trivial
  | some request =>
    exact Prog.calls_bind tryCompleteGetNextEvent_plain fun b => Prog.calls_ite
      (fun _ => ⟨trivial, fun s _ => Prog.calls_ite (fun _ => wdfRequestComplete_plain)
        fun _ => trivial⟩) fun _ => trivial

theorem getInterfaceVersion_plain : Plain (getInterfaceVersion request) := by
  simp only [getInterfaceVersion, perform, Prog.perform_bind]
  exact ⟨trivial, fun s _ => Prog.calls_ite (fun _ => wdfRequestComplete_plain)
    fun _ => ⟨trivial, fun _ _ => trivial⟩⟩

theorem startDevice_plain : Plain (startDevice request) := by
  simp only [startDevice, perform, Prog.perform_bind]
  refine ⟨trivial, fun f _ => ?_⟩
  beta_reduce
  split
  · exact wdfRequestComplete_plain
  · exact ⟨trivial, fun _ _ => wdfRequestComplete_plain⟩

theorem getNextEvent_plain : Plain (getNextEvent request) := by
  simp only [getNextEvent, perform, Prog.perform_bind]
  exact ⟨trivial, fun f _ => Prog.calls_ite (fun _ => wdfRequestComplete_plain) fun _ =>
    Prog.calls_bind tryCompleteGetNextEvent_plain fun b => Prog.calls_ite
      (fun _ => ⟨trivial, fun s _ => Prog.calls_ite (fun _ => wdfRequestComplete_plain)
        fun _ => trivial⟩) fun _ => trivial⟩

end

end VirtualGun.Driver
