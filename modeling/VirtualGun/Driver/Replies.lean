import VirtualGun.Driver.Config
import VirtualGun.Driver.Reports

/-!
# What a completion tells the client

A client sees the status its request was completed with. For the setup IOCTLs, `START_DEVICE` and
`WriteFile`, success means that the request took effect, and a failure that it did not.
-/

open VirtualGun.Program

namespace VirtualGun.Driver

/-- The run completed its request, with success where it is `done`, and else where it `failed`. -/
def Replies (request : Request) (v : World) (done failed : World → Prop) : Unit → World → Prop :=
  fun _ w' => ∃ s information output,
    w'.completed = v.completed ++ [⟨request, s, information, output⟩] ∧
      if ntSuccess s then done w' else failed w'

/-- The world but for the requests that were completed. -/
def But (w w' : World) : Prop := w' = { w with completed := w'.completed }

/-- Neither VHF nor `VhfHandle` saw anything of the run. -/
structure Still (v w' : World) : Prop where
  handle : w'.file.vhfHandle = v.file.vhfHandle
  rest : But { v with file := w'.file } w'

section
variable {request : Request} {v w w' : World} {done failed : World → Prop} {s : NTSTATUS}

theorem But.refl (w : World) : But w w := rfl

theorem Still.refl (w : World) : Still w w := ⟨rfl, rfl⟩

theorem replies_complete {information : ℕ} {output : List Byte} (hc : w.completed = v.completed)
    (hd : ∀ u, But w u → ntSuccess s → done u) (hf : ∀ u, But w u → ntSuccess s = false → failed u) :
    wp exec (fun _ => True) (Replies request v done failed)
      (.call (.wdfRequestComplete request s information output) .ret) w := by
  refine wp_complete.mpr ⟨trivial, trivial, s, information, output, by rw [hc], ?_⟩
  split
  · next hs => exact hd _ rfl hs
  · next hs => exact hf _ rfl (by simpa using hs)

theorem replies_fail (hs : ntSuccess s = false) (hf : ∀ u, But v u → failed u) :
    wp exec (fun _ => True) (Replies request v done failed) (wdfRequestComplete request s) v :=
  replies_complete rfl (fun _ _ h => by rw [hs] at h; cases h) fun u hu _ => hf u hu

theorem But.still (h : But v w') : Still v w' := by
  rw [But] at h
  rw [h]
  exact ⟨rfl, rfl⟩

theorem replies_done (hc : w.completed = v.completed) (hs : ntSuccess s = true)
    (hd : ∀ u, But w u → done u) :
    wp exec (fun _ => True) (Replies request v done failed) (wdfRequestComplete request s) w :=
  replies_complete hc (fun u hu _ => hd u hu) fun _ _ h => by rw [hs] at h; cases h

theorem setDeviceInfo_replies :
    wp exec (fun _ => True)
      (Replies request v
        (fun w' => (DeviceInfo.decode request.input).vendorID = vgunVid ∧
          (DeviceInfo.decode request.input).productID = vgunPid ∧
          But { v with file := storeDeviceInfo (DeviceInfo.decode request.input) v.file } w')
        (Still v))
      (setDeviceInfo request) v := by
  simp only [setDeviceInfo, perform, Prog.perform_bind, wp_readContext]
  refine ⟨trivial, wp_ite (fun _ => replies_fail rfl fun _ => But.still) fun _ => ?_⟩
  refine wp_retrieveInput trivial fun s _ => wp_ite (fun hs => ?_) fun _ => ?_
  · exact replies_fail (by simpa using hs) fun _ => But.still
  refine wp_ite (fun _ => replies_fail rfl fun _ => But.still) fun _ =>
    wp_ite (fun _ => replies_fail rfl fun _ => But.still) fun hid => ?_
  simp only [Bool.or_eq_true, bne_iff_ne, ne_eq, not_or, not_not] at hid
  exact wp_modifyContext.mpr ⟨trivial, replies_done rfl rfl fun _ h => ⟨hid.1, hid.2, h⟩⟩

theorem wp_copyIntoMemory {setMem : Option (List Byte) → FileContext → FileContext}
    {input : List Byte} {k : NTSTATUS → Handler Unit} {Q : Unit → World → Prop}
    (hmem : ∀ a b f, setMem a (setMem b f) = setMem a f)
    (hk : ∀ s g, (if ntSuccess s then g = setMem (some input) w.file
      else g = w.file ∨ g = setMem none w.file) → wp exec (fun _ => True) Q (k s) { w with file := g }) :
    wp exec (fun _ => True) Q (copyIntoMemory setMem input >>= k) w := by
  rw [wp_bind]
  refine wp_memoryCreate trivial fun s => wp_ite (fun hs => ?_) fun _ => ?_
  · refine ⟨trivial, hk s w.file ?_⟩
    rw [if_neg (by simpa using hs)]
    exact .inl rfl
  · refine wp_modifyContext.mpr ⟨trivial, wp_memoryCopy trivial fun s => ?_⟩
    refine wp_modifyContext.mpr ⟨trivial, trivial, hk s _ ?_⟩
    split
    · rw [hmem]
    · rw [hmem]
      exact .inr rfl

/-- The file after an input that is no descriptor was taken for one, or could not be copied. -/
theorem still_of_handle {g : FileContext} (h : g.vhfHandle = v.file.vhfHandle)
    (hu : But { v with file := g } w') : Still v w' := by
  rw [But] at hu
  rw [hu]
  exact ⟨h, rfl⟩

theorem setReportDescriptor_replies :
    wp exec (fun _ => True)
      (Replies request v
        (fun w' => request.input = vgunReportDescriptor ∧
          But { v with
            file := storeReportDescriptor vgunReportDescriptor
              (setReportDescriptorMem (some vgunReportDescriptor) v.file) } w')
        (Still v))
      (setReportDescriptor request) v := by
  simp only [setReportDescriptor, perform, Prog.perform_bind, wp_readContext]
  refine ⟨trivial, wp_ite (fun _ => replies_fail rfl fun _ => But.still) fun _ => ?_⟩
  refine wp_retrieveInput trivial fun s _ => wp_ite (fun hs => ?_) fun _ => ?_
  · exact replies_fail (by simpa using hs) fun _ => But.still
  refine wp_ite (fun _ => replies_fail rfl fun _ => But.still) fun hin =>
    wp_ite (fun _ => replies_fail rfl fun _ => But.still) fun _ => ?_
  simp only [Bool.or_eq_true, bne_iff_ne, ne_eq, not_or, not_not] at hin
  refine wp_copyIntoMemory (fun _ _ _ => rfl) fun s g hg => wp_ite (fun hs => ?_) fun hs => ?_
  · rw [if_neg (by simpa using hs)] at hg
    refine replies_complete rfl (fun _ _ h => ?_) fun u hu _ => still_of_handle ?_ hu
    · rw [h] at hs
      cases hs
    · rcases hg with rfl | rfl <;> rfl
  · rw [if_pos (by simpa using hs)] at hg
    subst hg
    refine wp_modifyContext.mpr ⟨trivial, ?_⟩
    rw [hin.2]
    refine replies_complete rfl (fun _ hu _ => ⟨rfl, hu⟩) fun u hu _ => ?_
    let g := storeReportDescriptor vgunReportDescriptor
      (setReportDescriptorMem (some vgunReportDescriptor) v.file)
    have hg : g.vhfHandle = v.file.vhfHandle := storeReportDescriptor_vhfHandle _ _
    exact still_of_handle hg hu

/-- The inputs that are taken for an ID string. -/
structure IdString.Takes (t : IdString) (input : List Byte) : Prop where
  minimum : t.minimum ≤ input.length
  fits : input.length ≤ 0xFFFF
  even : input.length % 2 = 0
  wellFormed : t.wellFormed input = true

theorem setIdString_replies {t : IdString} (hmem : ∀ a b f, t.setMem a (t.setMem b f) = t.setMem a f)
    (hh : ∀ mem f, (t.setMem mem f).vhfHandle = f.vhfHandle) :
    wp exec (fun _ => True)
      (Replies request v
        (fun w' => t.Takes request.input ∧
          But { v with file := t.store request.input (t.setMem (some request.input) v.file) } w')
        (Still v))
      (setIdString t request) v := by
  simp only [setIdString, perform, Prog.perform_bind, wp_readContext]
  refine ⟨trivial, wp_ite (fun _ => replies_fail rfl fun _ => But.still) fun _ => ?_⟩
  refine wp_retrieveInput trivial fun s hminimum => wp_ite (fun hs => ?_) fun hs => ?_
  · exact replies_fail (by simpa using hs) fun _ => But.still
  refine wp_ite (fun _ => replies_fail rfl fun _ => But.still) fun hfits =>
    wp_ite (fun _ => replies_fail rfl fun _ => But.still) fun heven =>
    wp_ite (fun _ => replies_fail rfl fun _ => But.still) fun hformed => ?_
  have htakes : t.Takes request.input :=
    ⟨hminimum (by simpa using hs), by omega, by simpa using heven, by simpa using hformed⟩
  refine wp_copyIntoMemory hmem fun s g hg => wp_ite (fun hs => ?_) fun hs => ?_
  · rw [if_neg (by simpa using hs)] at hg
    refine replies_complete rfl (fun _ _ h => ?_) fun u hu _ => still_of_handle ?_ hu
    · rw [h] at hs
      cases hs
    · rcases hg with rfl | rfl
      · rfl
      · exact hh _ _
  · rw [if_pos (by simpa using hs)] at hg
    subst hg
    exact wp_modifyContext.mpr ⟨trivial, replies_done rfl (by simpa using hs) fun _ hu => ⟨htakes, hu⟩⟩

theorem createDevice_replies :
    wp exec (fun _ => True)
      (Replies request v
        (fun w' => ∃ s handle, ntSuccess s ∧ v.file.vhfHandle = none ∧ But (v.created s handle) w')
        (fun w' => ∃ u, But u w' ∧
          (u = v ∨ ∃ s handle, ntSuccess s = false ∧ u = v.created s handle)))
      (createDevice request) v := by
  simp only [createDevice, perform, Prog.perform_bind, wp_readContext]
  refine ⟨trivial, wp_ite (fun _ => replies_fail rfl fun _ h => ⟨v, h, .inl rfl⟩) fun hguard => ?_⟩
  have hnone : v.file.vhfHandle = none := by
    simp only [Bool.or_eq_true, not_or, Bool.not_eq_true, Option.isSome_eq_false_iff,
      Option.isNone_iff_eq_none] at hguard
    exact hguard.1.1
  refine ⟨trivial, fun o s w' he => ?_⟩
  obtain ⟨handle, -, rfl⟩ := exec_create.mp he
  refine replies_complete ?_ (fun u hu hs => ⟨s, handle, hs, hnone, hu⟩)
    fun u hu hs => ⟨_, hu, .inr ⟨s, handle, hs, rfl⟩⟩
  simp only [World.created]
  split <;> rfl

theorem startDevice_replies :
    wp exec (fun _ => True)
      (Replies request v
        (fun w' => ∃ s handle, ntSuccess s ∧ v.file.vhfHandle = some handle ∧
          But (v.call (.start handle s)) w')
        (fun w' => ∃ u, But u w' ∧
          (u = v ∨ ∃ s handle, ntSuccess s = false ∧ u = v.call (.start handle s))))
      (startDevice request) v := by
  simp only [startDevice, perform, Prog.perform_bind, wp_readContext]
  refine ⟨trivial, ?_⟩
  cases hh : v.file.vhfHandle with
  | none => exact replies_fail rfl fun _ h => ⟨v, h, .inl rfl⟩
  | some handle =>
    refine ⟨trivial, fun o s w' he => ?_⟩
    obtain ⟨-, rfl⟩ := exec_start.mp he
    exact replies_complete rfl (fun u hu hs => ⟨s, handle, hs, rfl, hu⟩)
      fun u hu hs => ⟨_, hu, .inr ⟨s, handle, hs, rfl⟩⟩

/-- The packet that `WriteFile` submits. -/
def writePacket (input : List Byte) (f : FileContext) : HidXferPacket :=
  ⟨⟨input, 0⟩, input.length.toUInt32, if f.numberedReports then byteAt input 0 else 0⟩

theorem winUHidEvtIoWrite_replies :
    wp exec (fun _ => True)
      (Replies request v
        (fun w' => ∃ s handle, ntSuccess s ∧ v.file.vhfHandle = some handle ∧
          request.input.length ≤ 0xFFFFFFFF ∧
          But { v.call (.submit handle (writePacket request.input v.file) s) with
            file := stored request.input v.file } w')
        (fun w' => ∃ u, But u w' ∧
          (u = v ∨ ∃ s handle, ntSuccess s = false ∧
            u = v.call (.submit handle (writePacket request.input v.file) s))))
      (winUHidEvtIoWrite request) v := by
  simp only [winUHidEvtIoWrite, perform, Prog.perform_bind, wp_readContext]
  refine ⟨trivial, ?_⟩
  cases hh : v.file.vhfHandle with
  | none => exact replies_fail rfl fun _ h => ⟨v, h, .inl rfl⟩
  | some handle =>
    refine wp_retrieveInput trivial fun s _ => wp_ite (fun hs => ?_) fun _ => ?_
    · exact replies_fail (by simpa using hs) fun _ h => ⟨v, h, .inl rfl⟩
    refine wp_ite (fun _ => replies_fail rfl fun _ h => ⟨v, h, .inl rfl⟩) fun hmax =>
      wp_readContext.mpr ⟨trivial, trivial, fun o s w' he => ?_⟩
    obtain ⟨-, rfl⟩ := exec_submit.mp he
    simp only [hh, Option.getD_some]
    refine wp_ite (fun hs => ?_) fun hs => ?_
    · have hs : ntSuccess s = false := by simpa using hs
      refine replies_complete rfl (fun _ _ h => ?_) fun u hu _ => ⟨_, hu, .inr ⟨s, handle, hs, rfl⟩⟩
      rw [h] at hs
      cases hs
    · have hs : ntSuccess s = true := by simpa using hs
      have hle : request.input.length ≤ 0xFFFFFFFF := by omega
      refine wp_ite (fun hlen => ⟨trivial, fun o r w' he => ?_⟩) fun hlen => ?_
      · obtain ⟨-, rfl⟩ := exec_storeLastReport.mp he
        refine replies_complete rfl (fun u hu _ => ⟨s, handle, hs, rfl, hle, ?_⟩) fun _ _ h => ?_
        · rw [stored, if_pos hlen]
          exact hu
        · rw [h] at hs
          cases hs
      · refine replies_complete rfl (fun u hu _ => ⟨s, handle, hs, rfl, hle, ?_⟩) fun _ _ h => ?_
        · rw [stored, if_neg hlen]
          exact hu
        · rw [h] at hs
          cases hs

end

end VirtualGun.Driver
