import VirtualGun.Setup.Reinstall
import VirtualGun.Setup.Ownership
import VirtualGun.Setup.Thumbprints

/-!
# What setup leaves alone

Setup removes by what it finds recorded or listed: a certificate by its hash, a device by its
hardware ID, a file by its directory. What is not its own stays.
-/

open VirtualGun.Program

namespace VirtualGun.Setup

/-- `DefaultInstallDir`, by what `%ProgramFiles%` was found to be. -/
def installDirOf : Option WString → WString
  | some base => base ++ wide "\\VRLF Virtual Lightgun"
  | none => wide "C:\\Program Files\\VRLF Virtual Lightgun"

/-- What is setup's: its certificates and directories, and a device that is not. -/
structure Limits where
  /-- The certificates that setup generates. -/
  made : Certificate → Prop
  device : Option DevNode
  /-- Where setup installs to. -/
  dirs : WString → Prop
  /-- Where setup writes to. -/
  inside : WString → Prop
  foreign : ∀ d, device = some d → ¬ sameName d.hardwareIds hardwareId
  noLane : ∀ d, device = some d → ∀ p lane, ¬ sameName d.instanceId (vhfInstanceId (laneKeyName p lane))
  joined : ∀ dir, dirs dir → ∀ rel, inside (joinPath dir rel)
  below : ∀ dir, dirs dir → ∀ rel, inside (dir ++ 92 :: rel)
  listed : ∀ dir, dirs dir → ∀ path, foldCase dir ++ wide "\\" <+: foldCase path → inside path
  aside : ∀ path, inside path → inside (path ++ wide ".old")
  folded : ∀ a b, sameName a b → inside a → inside b
  stopped : ∀ dir, dirs dir → dirs (cStr dir)
  recorded : ∀ v dir, v = [] ∨ dirs v → dirs dir → sameName v dir → dirs v

namespace Limits

variable {B : Limits}

/-- A value that setup may have recorded. -/
def Fine (B : Limits) (name : ValueName) (v : WString) : Prop :=
  (∀ s : Slot, certName s = name → ∀ hash, hashBytes 20 v = some hash →
    ∃ c, B.made c ∧ c.hash.bytes = hash) ∧ (name = .installDir → v = [] ∨ B.dirs v)

def Listed (B : Limits) (id : WString) : Prop :=
  ∀ d, B.device = some d → ¬ sameName d.instanceId id

/-- The calls that keep to the limits. -/
def Call (B : Limits) : Call → Prop
  | .regSetValue name v => B.Fine name (cStr v)
  | .certAddEncodedCertificateToStore _ encoded => B.made encoded
  | .certDeleteCertificateFromStore _ found => ∃ c, B.made c ∧ c.hash = found.hash
  | .diUninstallDevice id | .setupDiRemoveDevice id => B.Listed id
  | .updateDriverForPlugAndPlayDevices id _ => id = hardwareId
  | .copyFile _ target => B.inside target
  | .deleteFile path | .signerSignEx2 _ path => B.inside path
  | .moveFile source target => B.inside source ∧ B.inside target
  | .moveFileDelayed path => B.inside path ∨ B.dirs path
  | _ => True

/-- What Windows answers, where setup goes by it. -/
def Told (B : Limits) : (c : Setup.Call) → c.Resp → Prop
  | .regGetValue name, r => ∀ v, r = some v → B.Fine name (cStr v)
  | .certCreateSelfSignCertificate _, r => ∀ c, r = some c → B.made c
  | .certFindCertificateInStore _ hash, r => ∀ c, r = some c → c.hash.bytes = hash
  | .setupDiGetClassDevs _, r =>
    ∀ devs, r = some devs → ∀ d ∈ devs, sameName d.hardwareIds hardwareId → B.Listed d.instanceId
  | .setupDiRegisterDevice _, r => ∀ id, r = some id → B.Listed id
  | .recursiveDirectoryIterator dir, r =>
    ∀ paths, r = some paths → ∀ path ∈ paths, foldCase dir ++ wide "\\" <+: foldCase path
  | .getEnvironmentVariable, r => B.dirs (installDirOf r)
  | _, _ => True

end Limits

/-- `w` has all that `u` has and is not setup's. -/
structure Kept (B : Limits) (u w : World) : Prop where
  values : ∀ name, B.Fine name (w.value name)
  certificates : ∀ s, ∀ c ∈ u.stores s, (∀ g, B.made g → g.hash ≠ c.hash) → c ∈ w.stores s
  trusted : ∀ s, ∀ c ∈ w.stores s, c ∈ u.stores s ∨ B.made c
  device : ∀ d, B.device = some d → d ∈ w.machine.devices
  devices : ∀ d ∈ w.machine.devices, sameName d.hardwareIds hardwareId → B.Listed d.instanceId
  files : ∀ f, ¬ B.inside f.path → (f ∈ w.machine.files ↔ f ∈ u.machine.files)
  delayed : ∀ path ∈ w.machine.delayed, path ∈ u.machine.delayed ∨ B.inside path ∨ B.dirs path

/-- Setup generated a certificate that it should not have. -/
def Lost (B : Limits) (w : World) : Prop := ∃ c ∈ w.keys.generated, ¬ B.made c

section
variable {B : Limits} {u w w' : World}

theorem Limits.fine_nil (name : ValueName) : B.Fine name [] :=
  ⟨fun _ _ _ => nofun, fun _ => .inl rfl⟩

namespace Kept

theorem refl (hv : ∀ name, B.Fine name (w.value name)) (hd : ∀ d, B.device = some d → d ∈ w.machine.devices)
    (hds : ∀ d ∈ w.machine.devices, sameName d.hardwareIds hardwareId → B.Listed d.instanceId) :
    Kept B w w :=
  ⟨hv, fun _ _ hc _ => hc, fun _ _ hc => .inl hc, hd, hds, fun _ _ => Iff.rfl, fun _ hp => .inl hp⟩

theorem frame {effects : Effect → Prop} (h : Kept B u w) (hf : Frame effects w w')
    (hr : ¬ effects .registry) (ht : ¬ effects .trust) (hu : ¬ effects .untrust)
    (hfiles : ¬ effects .files) (hd : ¬ effects .devices) : Kept B u w' where
  values name := by rw [hf.value hr]; exact h.values name
  certificates := by rw [hf.stores ht hu]; exact h.certificates
  trusted := by rw [hf.stores ht hu]; exact h.trusted
  device := by rw [hf.machine hfiles hd]; exact h.device
  devices := by rw [hf.machine hfiles hd]; exact h.devices
  files := by rw [hf.machine hfiles hd]; exact h.files
  delayed := by rw [hf.machine hfiles hd]; exact h.delayed

theorem writes (h : Kept B u w) (hv : ∀ name, B.Fine name (w'.value name)) (hs : w'.stores = w.stores)
    (hm : w'.machine = w.machine) : Kept B u w' where
  values := hv
  certificates := by rw [hs]; exact h.certificates
  trusted := by rw [hs]; exact h.trusted
  device := by rw [hm]; exact h.device
  devices := by rw [hm]; exact h.devices
  files := by rw [hm]; exact h.files
  delayed := by rw [hm]; exact h.delayed

theorem stored (h : Kept B u w) {store : StoreName} {l : List Certificate}
    (hl : ∀ c ∈ w.stores store, (∀ g, B.made g → g.hash ≠ c.hash) → c ∈ l)
    (hnew : ∀ c ∈ l, c ∈ w.stores store ∨ B.made c) : Kept B u (w.setStore store l) where
  values := h.values
  certificates := by
    intro s c hc hh
    have hmem := h.certificates s c hc hh
    by_cases hs : s = store
    · subst hs
      simpa [World.setStore] using hl c hmem hh
    · simpa [World.setStore, hs] using hmem
  trusted := by
    intro s c hc
    by_cases hs : s = store
    · subst hs
      simp only [World.setStore, Function.update_self] at hc
      exact (hnew c hc).elim (h.trusted s c) .inr
    · simp only [World.setStore, Function.update_of_ne hs] at hc
      exact h.trusted s c hc
  device := h.device
  devices := h.devices
  files := h.files
  delayed := h.delayed

theorem machine (h : Kept B u w) {m : Machine} (hd : ∀ d, B.device = some d → d ∈ m.devices)
    (hds : ∀ d ∈ m.devices, sameName d.hardwareIds hardwareId → B.Listed d.instanceId)
    (hf : ∀ f, ¬ B.inside f.path → (f ∈ m.files ↔ f ∈ w.machine.files))
    (hl : ∀ path ∈ m.delayed, path ∈ w.machine.delayed ∨ B.inside path ∨ B.dirs path) :
    Kept B u { w with machine := m } where
  values := h.values
  certificates := h.certificates
  trusted := h.trusted
  device := hd
  devices := hds
  files f hout := (hf f hout).trans (h.files f hout)
  delayed path hp := (hl path hp).elim (h.delayed path) .inr

theorem deleteFile (h : Kept B u w) {path : WString} (hin : B.inside path) :
    Kept B u { w with machine := w.machine.deleteFile path } := by
  refine h.machine h.device h.devices (fun f hout => ?_) fun p hp => .inl hp
  simp only [Machine.deleteFile, List.mem_filter, Bool.not_eq_true', and_iff_left_iff_imp]
  intro _
  by_contra hsame
  have hfold := (sameName_iff _ _).mp (Bool.of_not_eq_false hsame)
  exact hout (B.folded path f.path ((sameName_iff _ _).mpr hfold.symm) hin)

theorem putFile (h : Kept B u w) {f : File} (hin : B.inside f.path) :
    Kept B u { w with machine := w.machine.putFile f } := by
  have hdelete := h.deleteFile hin
  refine hdelete.machine hdelete.device hdelete.devices (fun f' hout => ?_) fun p hp => .inl hp
  simp only [Machine.putFile, List.mem_cons, or_iff_right_iff_imp]
  rintro rfl
  exact absurd hin hout

theorem moveDelayed (h : Kept B u w) {path : WString} (hin : B.inside path ∨ B.dirs path) :
    Kept B u { w with machine := { w.machine with delayed := w.machine.delayed ++ [path] } } := by
  refine h.machine h.device h.devices (fun _ _ => Iff.rfl) fun p hp => ?_
  rcases List.mem_append.mp hp with hp | hp
  · exact .inl hp
  · rw [List.mem_singleton.mp hp]
    exact .inr hin

theorem deleteDevice (h : Kept B u w) {id : WString} (hid : B.Listed id) :
    Kept B u { w with machine := w.machine.deleteDevice id } := by
  refine h.machine (fun d hd => ?_) (fun d hd => ?_) (fun _ _ => Iff.rfl) fun p hp => .inl hp
  · refine List.mem_filter.mpr ⟨h.device d hd, ?_⟩
    rw [Bool.not_eq_true']
    exact eq_false_of_ne_true (hid d hd)
  · exact h.devices d (List.mem_filter.mp hd).1

theorem mapDevices (h : Kept B u w) {vhf : List VhfNode} {g : DevNode → DevNode}
    (hid : ∀ d, (g d).instanceId = d.instanceId) (hids : ∀ d, (g d).hardwareIds = d.hardwareIds)
    (hg : ∀ d, ¬ sameName d.hardwareIds hardwareId → g d = d) :
    Kept B u { w with machine := { w.machine with vhf := vhf, devices := w.machine.devices.map g } } := by
  refine h.machine (fun d hd => ?_) (fun d hd => ?_) (fun _ _ => Iff.rfl) fun p hp => .inl hp
  · exact List.mem_map.mpr ⟨d, h.device d hd, hg d (B.foreign d hd)⟩
  · obtain ⟨d', hd', rfl⟩ := List.mem_map.mp hd
    rw [hid, hids]
    exact h.devices d' hd'

theorem register (h : Kept B u w) {dev : DevNode} (hid : B.Listed dev.instanceId) :
    Kept B u { w with machine := { w.machine with devices := w.machine.devices ++ [dev] } } := by
  refine h.machine (fun d hd => ?_) (fun d hd => ?_) (fun _ _ => Iff.rfl) fun p hp => .inl hp
  · exact List.mem_append_left _ (h.device d hd)
  · rcases List.mem_append.mp hd with hd | hd
    · exact h.devices d hd
    · rw [List.mem_singleton.mp hd]
      exact fun _ => hid

end Kept

theorem Lost.call {c : Setup.Call} {o : Outcome} {r : c.Resp} (h : Lost B w)
    (he : exec c o w = some (r, w')) : Lost B w' := by
  have hsub : w.keys.generated ⊆ w'.keys.generated := by
    by_cases hk : c.effect = some .keys
    · cases c with
      | ncryptCreatePersistedKey name machine =>
        cases o with
        | ok =>
          simp only [exec, Option.ite_none_left_eq_some, Option.some.injEq, Prod.mk.injEq] at he
          obtain ⟨-, -, rfl⟩ := he
          exact List.Subset.refl _
        | fail => cases he; exact List.Subset.refl _
        | _ => cases he
      | certCreateSelfSignCertificate key =>
        cases o with
        | certificate hash => cases he; exact List.subset_append_left _ _
        | fail => cases he; exact List.Subset.refl _
        | _ => cases he
      | ncryptFinalizeKey key =>
        obtain ⟨-, -, rfl⟩ | ⟨-, -, rfl⟩ := tried_eq_some.mp he <;> exact List.Subset.refl _
      | ncryptDeleteKey key =>
        obtain ⟨-, -, rfl⟩ | ⟨-, -, rfl⟩ := tried_eq_some.mp he <;> exact List.Subset.refl _
      | _ => cases hk
    · rw [(exec_frame he).keys hk]
      exact List.Subset.refl _
  obtain ⟨g, hg, hh⟩ := h
  exact ⟨g, hsub hg, hh⟩

theorem Kept.of_tried {o : Outcome} {v : World} {r : Bool} (he : tried o w v = some (r, w'))
    (h : Kept B u w) (hv : Kept B u v) : Kept B u w' := by
  obtain ⟨-, -, rfl⟩ | ⟨-, -, rfl⟩ := tried_eq_some.mp he
  · exact hv
  · exact h

theorem Kept.keeps {c : Setup.Call} {o : Outcome} {r : c.Resp} (h : Kept B u w) (hc : B.Call c)
    (he : exec c o w = some (r, w')) : Kept B u w' := by
  have hidle (hr : c.effect ≠ some .registry) (ht : c.effect ≠ some .trust)
      (hu : c.effect ≠ some .untrust) (hf : c.effect ≠ some .files) (hd : c.effect ≠ some .devices) :
      Kept B u w' := h.frame (exec_frame he) hr ht hu hf hd
  cases c with
  | regCreateKey =>
    exact .of_tried he h (h.writes (fun name => by rw [World.value_createKey]; exact h.values name) rfl rfl)
  | regSetValue name v =>
    refine .of_tried he h (h.writes (fun other => ?_) rfl rfl)
    rcases value_setValue_cases w name v with hv | hv
    · rw [hv]
      exact h.values other
    · rw [hv, Function.update_apply]
      split
      · next hname => exact hname ▸ hc
      · exact h.values other
  | regDeleteKeyValue name =>
    refine .of_tried he h (h.writes (fun other => ?_) rfl rfl)
    rw [World.value_deleteValue]
    split
    · exact Limits.fine_nil _
    · exact h.values other
  | regDeleteKey =>
    refine .of_tried he h (h.writes (fun other => ?_) rfl rfl)
    rw [World.value_deleteKey]
    exact Limits.fine_nil _
  | certAddEncodedCertificateToStore store encoded =>
    refine .of_tried he h (h.stored (fun c hmem _ => ?_) fun c hmem => ?_)
    · by_cases hsame : c = encoded
      · exact hsame ▸ List.mem_cons_self ..
      · exact List.mem_cons_of_mem _ ((List.mem_erase_of_ne hsame).mpr hmem)
    · rcases List.mem_cons.mp hmem with rfl | hmem
      · exact .inr hc
      · exact .inl (List.mem_of_mem_erase hmem)
  | certDeleteCertificateFromStore store found =>
    refine .of_tried he h (h.stored (fun c hmem hh => ?_) fun c hmem => .inl (List.mem_of_mem_erase hmem))
    refine (List.mem_erase_of_ne ?_).mpr hmem
    rintro rfl
    obtain ⟨g, hg, hsame⟩ := hc
    exact hh g hg hsame
  | signerSignEx2 certificate path =>
    simp only [exec] at he
    split at he
    · next f hf =>
      simp only [Option.ite_none_right_eq_some, Option.some.injEq, Prod.mk.injEq] at he
      obtain ⟨-, -, rfl⟩ := he
      have hpath : sameName f.path path = true := by simpa [Machine.fileAt] using List.find?_some hf
      refine h.putFile (f := { f with signer := some certificate }) ?_
      exact B.folded path f.path ((sameName_iff _ _).mpr ((sameName_iff _ _).mp hpath).symm) hc
    · cases he
      exact h
    · cases he
  | diUninstallDevice id =>
    refine .of_tried he h ?_
    have hd := h.deleteDevice hc
    exact hd.machine hd.device hd.devices (fun _ _ => Iff.rfl) fun p hp => .inl hp
  | setupDiRegisterDevice ids =>
    cases o with
    | text id =>
      simp only [exec, Option.ite_none_left_eq_some, Option.some.injEq, Prod.mk.injEq] at he
      obtain ⟨hnew, -, rfl⟩ := he
      refine h.register fun d hd hsame => hnew ?_
      exact List.any_eq_true.mpr ⟨d, h.device d hd, hsame⟩
    | fail => cases he; exact h
    | _ => cases he
  | setupDiRemoveDevice id => exact .of_tried he h (h.deleteDevice hc)
  | updateDriverForPlugAndPlayDevices id inf =>
    obtain rfl : id = hardwareId := hc
    simp only [exec] at he
    split at he
    · cases he
      exact h.mapDevices (fun d => by split <;> rfl) (fun d => by split <;> rfl) fun d hd => if_neg hd
    · cases he
      exact h
    · cases he
  | copyFile source target =>
    simp only [exec] at he
    split at he
    · next f hf => cases he; exact h.putFile (f := { f with path := target }) hc
    · cases he
      exact h
    · cases he
  | deleteFile path => exact .of_tried he h (h.deleteFile hc)
  | moveFile source target =>
    simp only [exec] at he
    split at he
    · next f hf => cases he; exact (h.deleteFile hc.1).putFile (f := { f with path := target }) hc.2
    · cases he
      exact h
    · cases he
  | moveFileDelayed path => exact .of_tried he h (h.moveDelayed hc)
  | regSetVhfPrefix name value =>
    exact .of_tried he h (h.machine h.device h.devices (fun _ _ => Iff.rfl) fun p hp => .inl hp)
  | winUHidStartDevice lane =>
    cases o with
    | pnp started vhf root =>
      cases he
      refine h.mapDevices (fun d => by split <;> rfl) (fun d => by split <;> rfl) fun d hd => if_neg ?_
      rw [Bool.and_eq_true]
      exact fun hboth => hd hboth.2
    | _ => cases he
  | _ => apply hidle <;> intro heffect <;> cases heffect

/-- What is known of an answer, unless setup generated a certificate that it should not have. -/
theorem Kept.told {E : Exec Setup.Call Call.Resp Outcome World} (hE : E.Sub exec)
    (henv : ∀ o r w w', E .getEnvironmentVariable o w = some (r, w') → B.dirs (installDirOf r))
    {c : Setup.Call} {o : Outcome} {r : c.Resp} (h : Kept B u w) (he : E c o w = some (r, w')) :
    Lost B w' ∨ B.Told c r := by
  have hexec := hE _ _ _ _ he
  cases c with
  | regGetValue name =>
    right
    rintro v rfl
    obtain ⟨⟨-, hr⟩ | ⟨-, hr⟩, rfl⟩ := looked_eq_some.mp hexec
    · have hv : w'.value name = cStr v := by
        unfold World.value
        rw [← hr]
        rfl
      rw [← hv]
      exact h.values name
    · cases hr
  | certCreateSelfSignCertificate key =>
    cases o with
    | certificate hash =>
      cases hexec
      by_cases hmade : B.made ⟨hash, key.id⟩
      · right
        rintro c ⟨rfl⟩
        exact hmade
      · exact .inl ⟨⟨hash, key.id⟩, by simp, hmade⟩
    | fail => cases hexec; exact .inr nofun
    | _ => cases hexec
  | certFindCertificateInStore store hash =>
    right
    rintro c rfl
    obtain ⟨⟨-, hr⟩ | ⟨-, hr⟩, rfl⟩ := looked_eq_some.mp hexec
    · simpa using List.find?_some hr.symm
    · cases hr
  | setupDiGetClassDevs presentOnly =>
    right
    rintro devs rfl d hd hours
    obtain ⟨⟨-, hr⟩ | ⟨-, hr⟩, rfl⟩ := looked_eq_some.mp hexec
    · cases hr
      exact h.devices d (List.mem_filter.mp hd).1 hours
    · cases hr
  | setupDiRegisterDevice ids =>
    right
    rintro id rfl d hd hsame
    cases o with
    | text id' =>
      simp only [exec, Option.ite_none_left_eq_some, Option.some.injEq, Prod.mk.injEq] at hexec
      obtain ⟨hnew, hid, -⟩ := hexec
      cases hid
      exact hnew (List.any_eq_true.mpr ⟨d, h.device d hd, hsame⟩)
    | fail => cases hexec
    | _ => cases hexec
  | recursiveDirectoryIterator dir =>
    right
    rintro paths rfl path hpath
    cases o with
    | ok =>
      cases hexec
      simpa using (List.mem_filter.mp hpath).2
    | fail => cases hexec; cases hpath
    | thrown => cases hexec
    | _ => cases hexec
  | getEnvironmentVariable => exact .inr (henv o r w w' he)
  | _ => exact .inr trivial

end

/-! ## The calls of setup -/

/-- A program that keeps to the limits as long as it is told the truth. -/
abbrev Limited {α : Type} (B : Limits) (p : Flow α) : Prop := p.Calls B.Call B.Told

/-- A program that keeps to the limits takes nothing that is not setup's. -/
theorem Limited.run {E : Exec Call Call.Resp Outcome World} (hE : E.Sub exec) {B : Limits}
    (henv : ∀ o r w w', E .getEnvironmentVariable o w = some (r, w') → B.dirs (installDirOf r))
    {α : Type} {p : Flow α} (hp : Limited B p) {u w : World} (h : Kept B u w) :
    wp E (fun w' => Lost B w' ∨ Kept B u w') (fun _ _ => True) p w := by
  refine wp_lost_or (fun c o r v v' hv he => hv.call (hE _ _ _ _ he)) (fun hJ hc he => ?_) h hp
  rcases hJ.told hE henv he with hl | ht
  · exact .inl hl
  · exact .inr ⟨ht, hJ.keeps hc (hE _ _ _ _ he)⟩

section
variable {B : Limits}

/-- Effects that the limits do not speak of. -/
abbrev Unlimited : Effect → Prop := fun e => e = .keys ∨ e = .stage ∨ e = .unstage

theorem limited_of_effects {α : Type} {p : Flow α} (hp : Effects Unlimited p) : Limited B p := by
  refine Prog.calls_mono (fun c hc => ?_) (fun _ _ _ => trivial) hp
  cases c with
  | regSetValue name v => simpa [Unlimited] using hc _ rfl
  | certAddEncodedCertificateToStore store encoded => simpa [Unlimited] using hc _ rfl
  | certDeleteCertificateFromStore store found => simpa [Unlimited] using hc _ rfl
  | diUninstallDevice id => simpa [Unlimited] using hc _ rfl
  | setupDiRemoveDevice id => simpa [Unlimited] using hc _ rfl
  | updateDriverForPlugAndPlayDevices id inf => simpa [Unlimited] using hc _ rfl
  | copyFile source target => simpa [Unlimited] using hc _ rfl
  | deleteFile path => simpa [Unlimited] using hc _ rfl
  | signerSignEx2 certificate path => simpa [Unlimited] using hc _ rfl
  | moveFile source target => simpa [Unlimited] using hc _ rfl
  | moveFileDelayed path => simpa [Unlimited] using hc _ rfl
  | _ => trivial

/-! ### The state key -/

theorem Limits.fine_other {name : ValueName} (hslot : ∀ s, certName s ≠ name) (hdir : name ≠ .installDir)
    (v : WString) : B.Fine name v :=
  ⟨fun s hs => absurd hs (hslot s), fun hname => absurd hname hdir⟩

theorem Limits.fine_thumbprint {c : Certificate} (h : B.made c) (s : Slot) :
    B.Fine (certName s) (cStr (thumbprintOf c)) := by
  constructor
  · intro _ _ hash hbytes
    have hround := hashBytes_hexUpper c.hash.bytes
    rw [c.hash.length_eq] at hround
    rw [cStr_thumbprintOf, thumbprintOf, hround] at hbytes
    exact ⟨c, h, Option.some.inj hbytes⟩
  · intro hname
    exact absurd hname (noSlot_installDir s)

theorem Limits.fine_slot {v : WString} {s : Slot} (h : B.Fine (certName s) v) (s' : Slot) :
    B.Fine (certName s') v :=
  ⟨fun _ _ => h.1 s rfl, fun hname => absurd hname (noSlot_installDir s')⟩

/-- A state that was read. -/
def FineState (B : Limits) (state : Option InstallState) : Prop :=
  ∀ s, state = some s → ∀ name, B.Fine name (s.get name) ∧ cStr (s.get name) = s.get name

theorem readString_fine (name : ValueName) :
    (readString name).Ends (fun v => B.Fine name v ∧ cStr v = v) B.Told := by
  simp only [readString, perform, Prog.perform_bind, Prog.ends_call]
  refine fun _ _ => Prog.ends_ite (fun _ => ?_) fun _ => ⟨Limits.fine_nil name, rfl⟩
  rintro (_ | v) hv
  · exact ⟨Limits.fine_nil name, rfl⟩
  · exact ⟨hv v rfl, cStr_cStr v⟩

theorem readState_fine : readState.Ends (FineState B) B.Told := by
  simp only [readState, perform, Prog.perform_bind, Prog.ends_call]
  refine fun _ _ => Prog.ends_ite (fun _ => ?_) fun _ _ hs => nomatch hs
  refine Prog.ends_bind (readString_fine .version) fun _ hversion => ?_
  refine Prog.ends_bind (readString_fine .installDir) fun _ hdir => ?_
  refine Prog.ends_bind (readString_fine .certThumbprint) fun _ hcert => ?_
  refine Prog.ends_bind (readString_fine .driverInf) fun _ hinf => ?_
  refine Prog.ends_bind (readString_fine .pendingCertThumbprint) fun _ hpendingCert => ?_
  refine Prog.ends_bind (readString_fine .pendingDriverInf) fun _ hpendingInf => ?_
  refine Prog.ends_bind (readString_fine .previousCertThumbprint) fun _ hpreviousCert => ?_
  refine Prog.ends_bind (readString_fine .previousDriverInf) fun _ hpreviousInf => ?_
  rintro s ⟨rfl⟩ name
  cases name <;> assumption

theorem readState_limited : Limited B readState := limited_of_effects readState_effects

theorem writeValue_limited {name : ValueName} {v : WString} (h : B.Fine name (cStr v)) :
    Limited B (writeValue name v) := by
  simp only [writeValue, perform, Prog.perform_bind, Prog.calls_call]
  exact ⟨trivial, fun _ _ => Prog.calls_ite (fun _ => ⟨h, fun _ _ => trivial⟩) fun _ => trivial⟩

theorem deleteValue_limited (name : ValueName) : Limited B (deleteValue name) := ⟨trivial, fun _ _ => trivial⟩

theorem deleteState_limited : Limited B deleteState := ⟨trivial, fun _ _ => trivial⟩

/-! ### Certificates -/

theorem trustIn_limited {encoded : Option Certificate} (h : ∀ c, encoded = some c → B.made c)
    (stores : List StoreName) : Limited B (trustIn encoded stores) := by
  induction stores with
  | nil => trivial
  | cons store stores ih =>
    simp only [trustIn, perform, Prog.perform_bind, Prog.calls_call]
    refine ⟨trivial, ?_⟩
    rintro (_ | size) -
    · trivial
    · cases encoded with
      | none => trivial
      | some c => exact ⟨h c rfl, fun _ _ => Prog.calls_ite (fun _ => ih) fun _ => trivial⟩

theorem removeFound_limited {c : Certificate} (h : B.made c) (store : StoreName) (n : ℕ) :
    Limited B (removeFound store c.hash.bytes n) := by
  induction n with
  | zero => trivial
  | succ n ih =>
    simp only [removeFound, perform, Prog.perform_bind, Prog.calls_call]
    refine ⟨trivial, ?_⟩
    rintro (_ | found) hfound
    · trivial
    · refine ⟨⟨c, h, ?_⟩, fun _ _ => Prog.calls_ite (fun _ => ih) fun _ => trivial⟩
      have hbytes := hfound found rfl
      rw [Sha1.mk.injEq]
      exact hbytes.symm

theorem removeFrom_limited {c : Certificate} (h : B.made c) (stores : List StoreName) :
    Limited B (removeFrom c.hash.bytes stores) := by
  induction stores with
  | nil => trivial
  | cons store stores ih =>
    simp only [removeFrom, perform, Prog.perform_bind, Prog.calls_call]
    refine ⟨trivial, ?_⟩
    rintro (_ | size) -
    · exact ih
    · exact Prog.calls_bind (removeFound_limited h store _) fun _ => ih

/-- A thumbprint that setup recorded names none but its own certificates. -/
theorem removeTrustedCertificate_limited {thumbprint : WString} {s : Slot}
    (h : B.Fine (certName s) thumbprint) : Limited B (removeTrustedCertificate thumbprint) := by
  refine Prog.calls_ite (fun _ => ?_) fun _ => trivial
  cases hh : hashBytes 20 thumbprint with
  | none => exact ⟨trivial, fun r => r.elim⟩
  | some hash =>
    obtain ⟨c, hc, rfl⟩ := h.1 s rfl hash hh
    exact removeFrom_limited hc _

/-! ### Files -/

theorem copyFiles_limited {target : WString} (h : B.dirs target) (source : WString) (rels : List WString) :
    Limited B (copyFiles source target rels) := by
  induction rels with
  | nil => trivial
  | cons rel rels ih =>
    simp only [copyFiles, perform, Prog.perform_bind, Prog.calls_call]
    exact ⟨B.joined target h rel, fun _ _ => Prog.calls_ite (fun _ => ih) fun _ => trivial⟩

theorem copyPayload_limited {target : WString} (h : B.dirs target) (source : WString) :
    Limited B (copyPayload source target) := by
  simp only [copyPayload, attempt, perform, Prog.perform_bind, Prog.calls_call]
  refine ⟨trivial, fun _ _ => Prog.calls_ite (fun _ => trivial) fun _ => ⟨trivial, fun _ _ => ?_⟩⟩
  exact Prog.calls_ite (fun _ => copyFiles_limited h source _) fun _ => trivial

theorem deleteOld_limited {paths : List WString} (h : ∀ path ∈ paths, B.inside path) :
    Limited B (deleteOld paths) := by
  induction paths with
  | nil => trivial
  | cons path paths ih =>
    have ih := ih fun p hp => h p (List.mem_cons_of_mem _ hp)
    exact Prog.calls_ite (fun _ => ⟨h path List.mem_cons_self, fun _ _ => ih⟩) fun _ => ih

theorem moveAside_limited {path : WString} (h : B.inside path) : Limited B (moveAside path) := by
  have haside := B.aside path h
  simp only [moveAside, perform, Prog.perform_bind, Prog.calls_call]
  exact ⟨⟨h, haside⟩, fun _ _ => Prog.calls_ite (fun _ => ⟨.inl haside, fun _ _ => trivial⟩)
    fun _ => ⟨.inl h, fun _ _ => trivial⟩⟩

theorem deleteFiles_limited {paths : List WString} (h : ∀ path ∈ paths, B.inside path) :
    Limited B (deleteFiles paths) := by
  induction paths with
  | nil => trivial
  | cons path paths ih =>
    have hpath := h path List.mem_cons_self
    have ih := ih fun p hp => h p (List.mem_cons_of_mem _ hp)
    simp only [deleteFiles, perform, Prog.perform_bind]
    refine Prog.calls_ite (fun _ => ih) fun _ => ⟨hpath, fun _ _ => ?_⟩
    exact Prog.calls_ite (fun _ => ih) fun _ => Prog.calls_bind (moveAside_limited hpath) fun _ => ih

theorem removeInstallDir_limited {dir : WString} (h : B.dirs dir) : Limited B (removeInstallDir dir) := by
  simp only [removeInstallDir, attempt, perform, Prog.perform_bind, Prog.calls_call]
  refine ⟨trivial, ?_⟩
  rintro (_ | entries) hentries
  · exact ⟨trivial, fun r => r.elim⟩
  · have hinside : ∀ path ∈ entries, B.inside path := fun path hp =>
      B.listed dir h path (hentries entries rfl path hp)
    refine Prog.calls_seq (limited_of_effects (regularFiles_effects _)) (regularFiles_subset entries)
      fun files hfiles => ?_
    have hfiles : ∀ path ∈ files, B.inside path := fun path hp => hinside path (hfiles hp)
    refine Prog.calls_bind (deleteOld_limited hfiles) fun _ => ?_
    refine Prog.calls_bind (deleteFiles_limited hfiles) fun _ => ⟨trivial, fun _ _ => ⟨trivial, fun _ _ => ?_⟩⟩
    exact Prog.calls_ite (fun _ => trivial) fun _ => ⟨.inr h, fun _ _ => trivial⟩

theorem signFile_limited {path : WString} (h : B.inside path) (cert : SigningCert) :
    Limited B (signFile cert path) := by
  simp only [signFile, attempt, perform, Prog.perform_bind, Prog.calls_call]
  refine ⟨trivial, fun _ _ => Prog.calls_ite (fun _ => ?_) fun _ => trivial⟩
  refine ⟨trivial, fun _ _ => ⟨trivial, fun _ _ => Prog.calls_ite (fun _ => ?_) fun _ => trivial⟩⟩
  cases cert.context with
  | none => trivial
  | some context => exact ⟨h, fun _ _ => trivial⟩

theorem signDriver_limited {dir : WString} (h : B.dirs dir) :
    Limited B (signDriver (dir ++ wide "\\driver")) := by
  have hinside (rel : WString) : B.inside (dir ++ wide "\\driver" ++ rel) := by
    rw [List.append_assoc]
    exact B.below dir h _
  refine Prog.calls_bind (limited_of_effects (createSigningCert_effects (.inl rfl) true)) fun cert => ?_
  cases cert with
  | none => trivial
  | some cert =>
    refine Prog.calls_bind ?_ fun _ =>
      Prog.calls_bind (limited_of_effects (destroySigningKey_effects (.inl rfl) cert)) fun _ => trivial
    exact Prog.calls_bind (signFile_limited (hinside _) cert) fun _ =>
      Prog.calls_ite (fun _ => signFile_limited (hinside _) cert) fun _ => trivial

/-! ### Devices -/

theorem removeIn_limited {devs : List DevNode}
    (h : ∀ d ∈ devs, sameName d.hardwareIds hardwareId → B.Listed d.instanceId) : Limited B (removeIn devs) := by
  induction devs with
  | nil => trivial
  | cons dev devs ih =>
    have ih := ih fun d hd => h d (List.mem_cons_of_mem _ hd)
    simp only [removeIn, attempt, perform, Prog.perform_bind, Prog.calls_call]
    refine ⟨trivial, fun _ _ => Prog.calls_ite (fun _ => ?_) fun _ => trivial⟩
    refine Prog.calls_seq (Q := fun ours => ours = true → B.Listed dev.instanceId)
      (limited_of_effects (isOurDevice_effects dev)) ?_ fun ours hours => ?_
    · intro b _
      cases b with
      | true => exact h dev List.mem_cons_self
      | false =>
        intro hfalse
        cases hfalse
    · exact Prog.calls_ite (fun hb => ⟨hours hb, fun _ _ => Prog.calls_bind ih fun _ => trivial⟩) fun _ => ih

theorem removeDevices_limited : Limited B removeDevices := by
  simp only [removeDevices, perform, Prog.perform_bind, Prog.calls_call]
  refine ⟨trivial, ?_⟩
  rintro (_ | devs) hdevs
  · trivial
  · exact removeIn_limited (hdevs devs rfl)

theorem uninstallDriver_limited (publishedInf : WString) : Limited B (uninstallDriver publishedInf) :=
  Prog.calls_bind removeDevices_limited fun _ =>
    Prog.calls_bind (limited_of_effects (unstagePackage_effects (.inr (.inr rfl)) _)) fun _ => trivial

theorem dropPackage_limited (publishedInf : WString) : Limited B (dropPackage publishedInf) :=
  limited_of_effects (dropPackage_effects (.inr (.inr rfl)) _)

theorem registerDevice_limited :
    Limited B registerDevice ∧ registerDevice.Ends (fun r => ∀ id, r = some id → B.Listed id) B.Told := by
  simp only [registerDevice, attempt, perform, Prog.perform_bind]
  constructor
  · refine ⟨trivial, fun _ _ => Prog.calls_ite (fun _ => ⟨trivial, fun _ _ => ?_⟩) fun _ => trivial⟩
    exact Prog.calls_ite (fun _ => ⟨trivial, fun _ _ => trivial⟩) fun _ => trivial
  · refine fun _ _ => Prog.ends_ite (fun _ _ _ => ?_) fun _ _ hid => by cases hid
    exact Prog.ends_ite (fun _ r hr => hr) fun _ _ hid => by cases hid

theorem installDriver_limited (inf : WString) : Limited B (installDriver inf) := by
  refine Prog.calls_bind removeDevices_limited fun _ => ?_
  refine Prog.calls_bind (limited_of_effects (stagePackage_effects (.inr (.inl rfl)) _)) fun published => ?_
  cases published with
  | none => trivial
  | some published =>
    simp only [installPackage, attempt, perform, Prog.perform_bind, Prog.calls_call]
    refine ⟨trivial, fun _ _ => Prog.calls_ite (fun _ => ⟨trivial, fun _ _ => ?_⟩) fun _ => dropPackage_limited _⟩
    refine Prog.calls_ite (fun _ => ?_) fun _ => dropPackage_limited _
    refine Prog.calls_seq registerDevice_limited.1 registerDevice_limited.2 ?_
    rintro (_ | instanceId) hid
    · exact dropPackage_limited _
    · refine ⟨rfl, ?_⟩
      rintro (_ | reboot) -
      · exact ⟨hid instanceId rfl, fun _ _ => dropPackage_limited _⟩
      · exact ⟨trivial, fun _ _ => trivial⟩

/-! ### Lanes -/

theorem limited_of_looks {c : Call} (hc : B.Call c) {α : Type} {p : Flow α} (hp : LooksOr c p) : Limited B p := by
  refine Prog.calls_mono (fun d hd => ?_) (fun _ _ _ => trivial) hp
  rcases hd.2 with hnone | rfl
  · cases d <;> trivial
  · exact hc

theorem removeDeviceInstance_limited {id : WString} (h : B.Listed id) : Limited B (removeDeviceInstance id) :=
  limited_of_looks (c := .diUninstallDevice id) h (removeDeviceInstance_looks id)

theorem pinLane_limited (rootId : WString) (lane rounds : ℕ) : Limited B (pinLane rootId lane rounds) := by
  induction rounds with
  | zero => trivial
  | succ rounds ih =>
    have again : Limited B (createOnce lane >>= fun b => if b then pinLane rootId lane rounds else pure false) :=
      Prog.calls_bind (limited_of_looks (c := .winUHidStartDevice lane) trivial (createOnce_looks lane))
        fun _ => Prog.calls_ite (fun _ => ih) fun _ => trivial
    simp only [pinLane, perform, Prog.perform_bind, Prog.calls_call]
    refine ⟨trivial, fun root _ => Prog.calls_ite (fun _ => again) fun _ => ?_⟩
    refine Prog.calls_bind (limited_of_looks (c := .terminate) trivial (readLaneKey_looks _)) fun _ => ?_
    refine Prog.calls_bind (limited_of_looks (c := .terminate) trivial readVhfKeys_looks) fun _ => ?_
    split
    · trivial
    · exact ⟨trivial, fun _ _ => trivial⟩
    · exact again
    · refine Prog.calls_bind (removeDeviceInstance_limited ?_) fun _ => ?_
      · exact fun d hd => B.noLane d hd _ _
      · exact Prog.calls_ite (fun _ => again) fun _ => trivial
    · trivial

theorem pinFrom_limited (rootId : WString) (lanes : List ℕ) : Limited B (pinFrom rootId lanes) := by
  induction lanes with
  | nil => trivial
  | cons lane lanes ih =>
    exact Prog.calls_bind (pinLane_limited _ _ _) fun _ => Prog.calls_bind ih fun _ => trivial

theorem pinLanes_limited : Limited B pinLanes := by
  have hopen : Limited B (attempt .winUHidGetDriverInterfaceVersion) := ⟨trivial, fun _ _ => trivial⟩
  have hwait (polls : ℕ) : Limited B (waitFor (attempt .winUHidGetDriverInterfaceVersion) polls) := by
    induction polls with
    | zero => exact hopen
    | succ polls ih =>
      refine Prog.calls_bind hopen fun _ => Prog.calls_ite (fun _ => trivial) fun _ => ?_
      exact ⟨trivial, fun _ _ => Prog.calls_ite (fun _ => ih) fun _ => trivial⟩
  refine Prog.calls_bind (hwait _) fun _ => Prog.calls_ite (fun _ => ?_) fun _ => trivial
  refine Prog.calls_bind (limited_of_effects liveRootInstanceId_effects) fun rootId => ?_
  exact Prog.calls_ite (fun _ => trivial) fun _ => Prog.calls_bind (pinFrom_limited rootId _) fun _ => trivial

theorem finishWithPins_limited (installCode : ℕ) : Limited B (finishWithPins installCode) :=
  Prog.calls_bind pinLanes_limited fun _ => trivial

/-! ### Install and uninstall -/

theorem unstageOther_limited (inf driverInf : WString) : Limited B (unstageOther inf driverInf) :=
  limited_of_effects (unstageOther_effects (.inr (.inr rfl)) inf driverInf)

theorem uninstallRecorded_limited {state : Option InstallState} (h : FineState B state) :
    Limited B (uninstallRecorded state) := by
  cases state with
  | none => trivial
  | some s =>
    refine Prog.calls_bind (unstageOther_limited _ _) fun _ => Prog.calls_bind (unstageOther_limited _ _) fun _ => ?_
    refine Prog.calls_bind (removeTrustedCertificate_limited (s := .current) (h s rfl .certThumbprint).1) fun _ => ?_
    refine Prog.calls_bind (removeTrustedCertificate_limited (s := .pending) (h s rfl .pendingCertThumbprint).1) fun _ => ?_
    refine Prog.calls_bind (removeTrustedCertificate_limited (s := .previous) (h s rfl .previousCertThumbprint).1) fun _ => ?_
    refine Prog.calls_ite (fun hne => ?_) fun _ => trivial
    rcases (h s rfl .installDir).1.2 rfl with hnil | hdir
    · have hnil : s.installDir = [] := hnil
      simp [hnil] at hne
    · exact removeInstallDir_limited hdir

theorem runUninstall_limited : Limited B runUninstall :=
  Prog.calls_seq readState_limited readState_fine fun _ hstate =>
    Prog.calls_bind (uninstallDriver_limited _) fun _ =>
      Prog.calls_bind (uninstallRecorded_limited hstate) fun _ =>
        Prog.calls_bind deleteState_limited fun _ => trivial

theorem failInstall_limited : Limited B failInstall := Prog.calls_bind runUninstall_limited fun _ => trivial

theorem failUpdate_limited {old : InstallState} {cert : WString} (inf : WString)
    (h : B.Fine (certName .pending) cert) : Limited B (failUpdate old cert inf) :=
  Prog.calls_bind (unstageOther_limited _ _) fun _ =>
    Prog.calls_bind (removeTrustedCertificate_limited h) fun _ =>
      Prog.calls_bind (deleteValue_limited _) fun _ => Prog.calls_bind (deleteValue_limited _) fun _ => trivial

theorem retirePrevious_limited {s : InstallState} (h : B.Fine (certName .previous) s.previousCertThumbprint) :
    Limited B (retirePrevious s) := by
  refine Prog.calls_bind ?_ fun _ => ?_
  · exact Prog.calls_ite (fun _ => Prog.calls_bind (removeTrustedCertificate_limited h)
      fun _ => deleteValue_limited _) fun _ => trivial
  · refine Prog.calls_ite (fun _ => ?_) fun _ => trivial
    exact Prog.calls_bind (limited_of_effects (unstagePackage_effects (.inr (.inr rfl)) _)) fun _ =>
      Prog.calls_ite (fun _ => deleteValue_limited _) fun _ => trivial

theorem finish_limited {p : Flow ℕ} (hp : Limited B p) (version : WString) (installCode : ℕ) :
    Limited B (writeValue .version version >>= fun b => if b then finishWithPins installCode else p) :=
  Prog.calls_bind (writeValue_limited (Limits.fine_other noSlot_version nofun _)) fun _ =>
    Prog.calls_ite (fun _ => finishWithPins_limited _) fun _ => hp

theorem retireFirst_limited : Limited B retireFirst := by
  refine Prog.calls_seq readState_limited readState_fine fun state hstate => ?_
  cases state with
  | none => trivial
  | some s =>
    refine Prog.calls_ite (fun _ => ?_) fun _ => trivial
    exact Prog.calls_bind (retirePrevious_limited (hstate s rfl .previousCertThumbprint).1) fun _ => readState_limited

theorem retireFirst_fine : retireFirst.Ends (FineState B) B.Told := by
  refine Prog.ends_bind readState_fine fun state hstate => ?_
  cases state with
  | none => exact fun _ hs => nomatch hs
  | some s => exact Prog.ends_ite (fun _ => Prog.ends_bind (Prog.ends_true _) fun _ _ => readState_fine) fun _ => hstate

theorem keepPackage_limited {cert : SigningCert} (h : B.Fine (certName .pending) cert.thumbprint)
    (version : WString) (reboot : Bool) : Limited B (keepPackage cert version reboot) :=
  Prog.calls_bind (removeTrustedCertificate_limited h) fun _ =>
    Prog.calls_bind (deleteValue_limited _) fun _ => Prog.calls_bind (deleteValue_limited _) fun _ =>
      finish_limited (p := .ret 1) trivial version _

theorem promoteValues_limited {old : InstallState} {cert : SigningCert} (published : WString)
    (hold : FineState B (some old)) (hcert : B.Fine (certName .pending) (cStr cert.thumbprint)) :
    Limited B (promoteValues old cert published) := by
  have hprevious : B.Fine (certName .previous) (cStr old.certThumbprint) := by
    obtain ⟨hfine, hc⟩ := hold old rfl .certThumbprint
    have hc : cStr old.certThumbprint = old.certThumbprint := hc
    rw [hc]
    exact Limits.fine_slot (s := .current) hfine .previous
  refine Prog.calls_bind (writeValue_limited hprevious) fun _ => Prog.calls_ite (fun _ => ?_) fun _ => trivial
  refine Prog.calls_bind (writeValue_limited (Limits.fine_other noSlot_previousDriverInf nofun _)) fun _ =>
    Prog.calls_ite (fun _ => ?_) fun _ => trivial
  refine Prog.calls_bind (writeValue_limited (Limits.fine_slot hcert .current)) fun _ =>
    Prog.calls_ite (fun _ => ?_) fun _ => trivial
  exact writeValue_limited (Limits.fine_other noSlot_driverInf nofun _)

theorem promote_limited {old : InstallState} {cert : SigningCert} (published version : WString)
    (reboot : Bool) (hold : FineState B (some old))
    (hcert : B.Fine (certName .pending) (cStr cert.thumbprint)) :
    Limited B (promote old cert published version reboot) := by
  refine Prog.calls_bind (promoteValues_limited published hold hcert) fun _ =>
    Prog.calls_ite (fun _ => ?_) fun _ => trivial
  refine Prog.calls_bind (deleteValue_limited _) fun _ => Prog.calls_bind (deleteValue_limited _) fun _ => ?_
  refine Prog.calls_seq readState_limited readState_fine fun promoted hpromoted => ?_
  refine Prog.calls_bind ?_ fun _ => finish_limited (p := .ret 1) trivial version _
  cases promoted with
  | none => trivial
  | some promoted => exact retirePrevious_limited (hpromoted promoted rfl .previousCertThumbprint).1

theorem swapPackage_limited {old : InstallState} {cert : SigningCert} (driverDir version : WString)
    (hold : FineState B (some old)) (hcert : B.Fine (certName .pending) cert.thumbprint)
    (hc : cStr cert.thumbprint = cert.thumbprint) : Limited B (swapPackage old cert driverDir version) := by
  refine Prog.calls_bind (limited_of_effects (stagePackage_effects (.inr (.inl rfl)) _)) fun published => ?_
  cases published with
  | none => exact failUpdate_limited _ hcert
  | some published =>
    refine Prog.calls_bind (writeValue_limited (Limits.fine_other noSlot_pendingDriverInf nofun _)) fun _ =>
      Prog.calls_ite (fun _ => ?_) fun _ => failUpdate_limited _ hcert
    refine Prog.calls_bind ⟨rfl, fun _ _ => trivial⟩ fun reboot => ?_
    cases reboot with
    | none => exact failUpdate_limited _ hcert
    | some reboot =>
      exact Prog.calls_ite (fun _ => keepPackage_limited hcert version reboot)
        fun _ => promote_limited published version reboot hold (by rwa [hc])

theorem signDriver_fine (driverDir : WString) :
    (signDriver driverDir).Ends (Generated B.made) B.Told :=
  signDriver_ends (fun _ c hc => hc c rfl) driverDir

theorem runUpdate_limited {old : InstallState} (payloadDir version : WString)
    (hold : FineState B (some old)) (hdir : B.dirs old.installDir) :
    Limited B (runUpdate old payloadDir version) := by
  have hnil : B.Fine (certName .pending) [] := Limits.fine_nil _
  refine Prog.calls_bind (copyPayload_limited hdir payloadDir) fun _ =>
    Prog.calls_ite (fun _ => ?_) fun _ => failUpdate_limited _ hnil
  refine Prog.calls_seq (signDriver_limited hdir) (signDriver_fine _) fun cert hmade => ?_
  cases cert with
  | none => exact failUpdate_limited _ hnil
  | some cert =>
    obtain ⟨c, hencoded, hthumb, hfound⟩ := hmade cert rfl
    have htrust : ∀ c', cert.encoded = some c' → B.made c' := by
      intro c' hc'
      rw [hencoded] at hc'
      exact Option.some.inj hc' ▸ hfound
    have hc : cStr cert.thumbprint = cert.thumbprint := by rw [hthumb]; exact cStr_thumbprintOf c
    have hcert : B.Fine (certName .pending) cert.thumbprint := by
      rw [← hc, hthumb]
      exact Limits.fine_thumbprint hfound .pending
    have hwritten : B.Fine .pendingCertThumbprint (cStr cert.thumbprint) := hc.symm ▸ hcert
    refine Prog.calls_bind (writeValue_limited hwritten) fun _ => Prog.calls_ite (fun _ => ?_) fun _ => failUpdate_limited _ hnil
    refine Prog.calls_bind (trustIn_limited htrust _) fun _ =>
      Prog.calls_ite (fun _ => ?_) fun _ => failUpdate_limited _ hcert
    exact swapPackage_limited _ version hold hcert hc

theorem installNode_limited (driverDir version : WString) : Limited B (installNode driverDir version) := by
  refine Prog.calls_bind (installDriver_limited _) fun installed => ?_
  rcases installed with _ | ⟨published, reboot⟩
  · exact failInstall_limited
  · refine Prog.calls_bind (writeValue_limited (Limits.fine_other noSlot_driverInf nofun _)) fun _ =>
      Prog.calls_ite (fun _ => finish_limited failInstall_limited version _) fun _ => ?_
    exact Prog.calls_bind (uninstallDriver_limited _) fun _ => failInstall_limited

theorem installFresh_limited {dir : WString} (payloadDir version : WString) (hdir : B.dirs dir) :
    Limited B (installFresh payloadDir dir version) := by
  have hrecord : B.Fine .installDir (cStr dir) :=
    ⟨fun s hs => absurd hs (noSlot_installDir s), fun _ => .inr (B.stopped dir hdir)⟩
  refine Prog.calls_bind (writeValue_limited hrecord) fun _ => Prog.calls_ite (fun _ => ?_) fun _ => failInstall_limited
  refine Prog.calls_bind (copyPayload_limited hdir payloadDir) fun _ =>
    Prog.calls_ite (fun _ => ?_) fun _ => failInstall_limited
  refine Prog.calls_seq (signDriver_limited hdir) (signDriver_fine _) fun cert hmade => ?_
  cases cert with
  | none => exact failInstall_limited
  | some cert =>
    obtain ⟨c, hencoded, hthumb, hfound⟩ := hmade cert rfl
    have htrust : ∀ c', cert.encoded = some c' → B.made c' := by
      intro c' hc'
      rw [hencoded] at hc'
      exact Option.some.inj hc' ▸ hfound
    have hcert : B.Fine (certName .current) (cStr cert.thumbprint) := by
      rw [hthumb]
      exact Limits.fine_thumbprint hfound .current
    refine Prog.calls_bind (writeValue_limited hcert) fun _ => Prog.calls_ite (fun _ => ?_) fun _ => failInstall_limited
    refine Prog.calls_bind (trustIn_limited htrust _) fun _ =>
      Prog.calls_ite (fun _ => installNode_limited _ version) fun _ => failInstall_limited

theorem installMode_chosen {can : (c : Call) → c.Resp → Prop} (state : Option InstallState) (dir : WString) :
    (installMode state dir).Ends (Chosen state dir) can :=
  Prog.ends_bind (Prog.ends_true _) fun _ _ => Prog.ends_bind (Prog.ends_true _) fun _ _ =>
    chooseInstallMode_chosen _ _ _ _ _ rfl

theorem defaultInstallDir_told : defaultInstallDir.Ends B.dirs B.Told := by
  simp only [defaultInstallDir, perform, Prog.perform_bind, Prog.ends_call]
  intro r hr
  cases r with
  | none => exact hr
  | some base => exact hr

theorem runInstall_limited (payloadDir version : WString) : Limited B (runInstall payloadDir version) := by
  refine Prog.calls_seq retireFirst_limited retireFirst_fine fun state hstate => ?_
  refine Prog.calls_seq (limited_of_effects defaultInstallDir_effects) defaultInstallDir_told fun dir hdir => ?_
  refine Prog.calls_seq (limited_of_effects (installMode_effects state dir)) (installMode_chosen state dir)
    fun mode hmode => ?_
  have hfresh : Limited B (installFresh payloadDir dir version) := installFresh_limited payloadDir version hdir
  cases mode with
  | fresh => exact hfresh
  | reinstall => exact Prog.calls_bind runUninstall_limited fun _ => hfresh
  | update =>
    cases state with
    | none => exact hfresh
    | some old =>
      refine runUpdate_limited payloadDir version hstate (B.recorded _ dir ?_ hdir hmode.updated.2.2)
      exact (hstate old rfl .installDir).1.2 rfl

theorem handler_limited (event : Event) : Limited B (handler event) := by
  cases event with
  | install payloadDir version => exact runInstall_limited payloadDir version
  | uninstall => exact runUninstall_limited
  | meanwhile m => trivial

end

/-! ## Certificates -/

/-- The limits of a history that generated these certificates. -/
def Limits.generating (made : Certificate → Prop) : Limits where
  made := made
  device := none
  dirs _ := True
  inside _ := True
  foreign := nofun
  noLane := nofun
  joined _ _ _ := trivial
  below _ _ _ := trivial
  listed _ _ _ _ := trivial
  aside _ _ := trivial
  folded _ _ _ _ := trivial
  stopped _ _ := trivial
  recorded _ _ _ _ _ := trivial

theorem Clean.value {w : World} (h : Clean w) (name : ValueName) : w.value name = [] := by
  unfold World.value
  rw [h.registry]
  rfl

/-- However many installs and uninstalls there were, and wherever they were killed: the certificates of
others are still trusted, and besides them only certificates that setup generated. -/
theorem foreign_certificates_kept {w₀ w : World} (h₀ : Clean w₀)
    (hw : Instant setup Always Always w₀ w) (s : StoreName) :
    (∀ c ∈ w₀.stores s, (∀ g ∈ w.keys.generated, g.hash ≠ c.hash) → c ∈ w.stores s) ∧
      ∀ c ∈ w.stores s, c ∈ w₀.stores s ∨ c ∈ w.keys.generated := by
  have hkept : Lost (.generating (· ∈ w.keys.generated)) w ∨
      Kept (.generating (· ∈ w.keys.generated)) w₀ w := by
    refine hw.inv_of_wp (I := fun v => Lost _ v ∨ Kept _ w₀ v) (.inr ?_) ?_
    · exact .refl (fun name => by rw [h₀.value]; exact Limits.fine_nil name) nofun fun _ _ _ => nofun
    · intro l u v hu ha
      have hv : Lost (.generating (· ∈ w.keys.generated)) v ∨
          Kept (.generating (· ∈ w.keys.generated)) w₀ v := by
        cases l with
        | meanwhile m =>
          cases ha
          exact hu.imp id fun hu => hu.machine nofun (fun _ _ _ => nofun) (fun _ hout => absurd trivial hout)
            fun _ _ => .inr (.inl trivial)
        | install payloadDir version => cases ha; exact hu
        | uninstall => cases ha; exact hu
      rcases hv with hv | hv
      · exact wp_mono (fun _ hl => .inl hl) (fun _ _ _ _ => trivial)
          (wp_keeps (fun c o r v v' hl he => hl.call he) (handler l) hv)
      · exact (handler_limited l).run (fun _ _ _ _ he => he) (fun _ _ _ _ _ => trivial) hv
  rcases hkept with ⟨g, hg, hnot⟩ | hkept
  · exact absurd hg hnot
  · exact ⟨fun c hc hforeign => hkept.certificates s c hc fun g hg => hforeign g hg, hkept.trusted s⟩

/-- A PC that trusts a certificate of others. -/
def companyPc : World := { newPc with stores := fun _ => [⟨sha1Of 9, 0⟩], keys := ⟨[], 1, []⟩ }

theorem companyPc_clean : Clean companyPc :=
  ⟨rfl, rfl, by simp [companyPc, newPc], ⟨by simp [companyPc], by simp [companyPc], by simp [companyPc]⟩⟩

/-- The certificate that the install trusted is gone, and it was not that of the others. -/
def ownGone (before after : World) : Bool :=
  (before.stores .root).length = 2 && (after.stores .root).length = 1 &&
    after.keys.generated.all fun g => g.hash ≠ sha1Of 9

/-- The uninstall removes the certificate of setup, and leaves the other. -/
theorem foreign_certificates_kept_company :
    ∃ v w, Rest setup Always Always companyPc v ∧ Instant setup Always Always companyPc w ∧
      (v.stores .root).length = 2 ∧ w.stores .root = [⟨sha1Of 9, 0⟩] := by
  have hplay : ((setup.playUntil firstInstall companyPc).any fun v =>
      ((handler .uninstall).playUntil exec (succeed (sha1Of 1) []) (fun _ => false) v).any
        fun x => ownGone v x.2) = true := by
    decide +kernel
  obtain ⟨v, hv, hrun⟩ := (Option.any_eq_true _ _).mp hplay
  obtain ⟨⟨p, w⟩, hp, hgone⟩ := (Option.any_eq_true _ _).mp hrun
  simp only [ownGone, Bool.and_eq_true, decide_eq_true_eq, List.all_eq_true] at hgone
  obtain ⟨⟨htwo, hone⟩, hforeign⟩ := hgone
  have hrest : Rest setup Always Always companyPc v := Rest.playUntil .init hv fun _ _ _ => trivial
  have hi : Instant setup Always Always companyPc w :=
    ⟨v, v, .uninstall, p, hrest, rfl, Prog.playUntil_steps hp⟩
  have hkept := (foreign_certificates_kept companyPc_clean hi .root).1 ⟨sha1Of 9, 0⟩ (by simp [companyPc]) hforeign
  obtain ⟨c, hc⟩ := List.length_eq_one_iff.mp hone
  rw [hc, List.mem_singleton] at hkept
  exact ⟨v, w, hrest, hi, htwo, by rw [hc, hkept]⟩

/-! ## Devices -/

theorem exists_certificate {v : WString} {hash : List Byte} (h : hashBytes 20 v = some hash) :
    ∃ c : Certificate, True ∧ c.hash.bytes = hash :=
  ⟨⟨⟨hash, length_hashBytes h⟩, 0⟩, trivial, rfl⟩

/-- The limits that a device sets which is not setup's. -/
def Limits.beside (d : DevNode) (hids : ¬ sameName d.hardwareIds hardwareId)
    (hlane : ∀ p lane, ¬ sameName d.instanceId (vhfInstanceId (laneKeyName p lane))) : Limits where
  made _ := True
  device := some d
  dirs _ := True
  inside _ := True
  foreign := by rintro _ ⟨rfl⟩; exact hids
  noLane := by rintro _ ⟨rfl⟩; exact hlane
  joined _ _ _ := trivial
  below _ _ _ := trivial
  listed _ _ _ _ := trivial
  aside _ _ := trivial
  folded _ _ _ _ := trivial
  stopped _ _ := trivial
  recorded _ _ _ _ _ := trivial

/-- A device with another hardware ID that is no lane is there after any run from any state, and at
every instant of it, with the driver it had. -/
theorem foreign_devices_kept {w w' : World} {event : Event} {p : Flow ℕ} {d : DevNode}
    (hs : Steps exec (handler event) w p w') (hd : d ∈ w.machine.devices)
    (hids : ¬ sameName d.hardwareIds hardwareId)
    (hlane : ∀ q lane, ¬ sameName d.instanceId (vhfInstanceId (laneKeyName q lane)))
    (hother : ∀ d' ∈ w.machine.devices, sameName d'.hardwareIds hardwareId →
      ¬ sameName d.instanceId d'.instanceId) : d ∈ w'.machine.devices := by
  have hkept : Kept (.beside d hids hlane) w w := by
    refine .refl (fun name => ⟨fun _ _ _ hh => exists_certificate hh, fun _ => .inr trivial⟩) ?_ ?_
    · rintro _ ⟨rfl⟩
      exact hd
    · rintro d' hd' hours _ ⟨rfl⟩
      exact hother d' hd' hours
  rcases hs.inv ((handler_limited event).run (fun _ _ _ _ he => he) (fun _ _ _ _ _ => trivial) hkept) with
    ⟨g, -, hnot⟩ | hkept
  · exact absurd trivial hnot
  · exact hkept.device d rfl

def keyboard : DevNode := ⟨wide "HID\\KBD", wide "HID\\VID_04D9", true, some (wide "oem7.inf"), []⟩

/-- A PC with a keyboard, and a node of ours. -/
def keyboardPc : World :=
  { newPc with machine := ⟨[], [], [keyboard, ⟨wide "ROOT\\SYSTEM\\0000", multiSz [hardwareId], true, none, []⟩], []⟩ }

theorem foreign_devices_kept_keyboard :
    ∃ w p, Steps exec (handler .uninstall) keyboardPc p w ∧ w.machine.devices.length = 1 ∧
      keyboard ∈ w.machine.devices := by
  have hplay : ((handler .uninstall).playUntil exec (succeed (sha1Of 1) []) (fun _ => false)
      keyboardPc).any (fun x => x.2.machine.devices.length = 1) = true := by decide +kernel
  obtain ⟨⟨p, w⟩, hp, hlen⟩ := (Option.any_eq_true _ _).mp hplay
  have hs := Prog.playUntil_steps hp
  refine ⟨w, p, hs, of_decide_eq_true hlen, foreign_devices_kept hs (by decide) (by decide) ?_ (by decide)⟩
  intro q lane h
  rw [sameName_iff] at h
  have hhead := congrArg List.head? h
  have hvhf : (foldCase (vhfInstanceId (laneKeyName q lane))).head? = some 118 := rfl
  rw [hvhf] at hhead
  exact absurd hhead (by decide)

/-! ## Files -/

/-- The install directories, for what `%ProgramFiles%` may be. -/
def installDirs (bases : List WString) : List WString :=
  installDirOf none :: bases.map fun base => installDirOf (some (cStr base))

/-- `%ProgramFiles%` is one of `bases`, or cannot be read. -/
def programFiles (bases : List WString) : Call → Outcome → Bool
  | .getEnvironmentVariable, .text base => bases.any fun b => cStr b == cStr base
  | _, _ => true

/-- The file lies in an install directory. -/
def InInstallDir (bases : List WString) (path : WString) : Prop :=
  ∃ dir ∈ installDirs bases, foldCase dir ++ wide "\\" <+: foldCase path

instance (bases : List WString) (path : WString) : Decidable (InInstallDir bases path) := by
  unfold InInstallDir
  infer_instance

section
variable {bases : List WString} {dir : WString}

theorem installDirs_spec (h : dir ∈ installDirs bases) :
    ∃ base, 0 ∉ base ∧ dir = base ++ wide "\\VRLF Virtual Lightgun" := by
  rcases List.mem_cons.mp h with rfl | h
  · exact ⟨wide "C:\\Program Files", by decide, by rfl⟩
  · obtain ⟨base, -, rfl⟩ := List.mem_map.mp h
    exact ⟨cStr base, zero_notMem_cStr base, rfl⟩

theorem installDirs_no_nul (h : dir ∈ installDirs bases) : 0 ∉ dir := by
  obtain ⟨base, hbase, rfl⟩ := installDirs_spec h
  rw [List.mem_append, not_or]
  exact ⟨hbase, by decide⟩

theorem inInstallDir_below (h : dir ∈ installDirs bases) (rel : WString) : InInstallDir bases (dir ++ 92 :: rel) := by
  refine ⟨dir, h, ?_⟩
  rw [foldCase_append _ (installDirs_no_nul h)]
  exact (List.prefix_append_right_inj _).mpr ⟨foldCase rel, rfl⟩

theorem inInstallDir_joined (h : dir ∈ installDirs bases) (rel : WString) :
    InInstallDir bases (joinPath dir rel) := by
  have hlast : dir.getLast? = some 110 := by
    obtain ⟨base, -, rfl⟩ := installDirs_spec h
    rw [List.getLast?_append]
    rfl
  unfold joinPath
  rw [hlast, if_neg (by decide), List.append_assoc]
  exact inInstallDir_below h rel

theorem prefix_foldCase_append (path rel : WString) : foldCase path <+: foldCase (path ++ rel) := by
  apply List.IsPrefix.map
  unfold cStr
  rw [List.takeWhile_append]
  split
  · exact (List.takeWhile_prefix _).trans (List.prefix_append _ _)
  · exact List.prefix_refl _

end

/-- The limits that the install directories set. -/
def Limits.installing (bases : List WString) : Limits where
  made _ := True
  device := none
  dirs dir := dir ∈ installDirs bases
  inside := InInstallDir bases
  foreign := nofun
  noLane := nofun
  joined _ h := inInstallDir_joined h
  below _ h := inInstallDir_below h
  listed dir h _ hpath := ⟨dir, h, hpath⟩
  aside path := by
    rintro ⟨dir, h, hpath⟩
    exact ⟨dir, h, hpath.trans (prefix_foldCase_append path _)⟩
  folded a b h := by
    rintro ⟨dir, hdir, hpath⟩
    exact ⟨dir, hdir, (sameName_iff a b).mp h ▸ hpath⟩
  stopped dir h := by rwa [cStr_of_no_nul (installDirs_no_nul h)]
  recorded v dir hv h hsame := by
    rcases hv with rfl | hv
    · have hnil : foldCase dir = [] := ((sameName_iff [] dir).mp hsame).symm
      rw [foldCase_eq_nil, cStr_of_no_nul (installDirs_no_nul h)] at hnil
      obtain ⟨base, -, hdir⟩ := installDirs_spec h
      rw [hnil] at hdir
      cases base <;> cases hdir
    · exact hv

/-- No run that a history leads to, wherever it is killed, changes a file outside the install
directories, puts one there or has Windows delete one later. The log is none of these files. -/
theorem files_outside_kept {bases : List WString} {w₀ u v w : World} {event : Event} {p : Flow ℕ}
    (h₀ : Clean w₀) (hu : Rest (setup.only (programFiles bases)) Always Always w₀ u)
    (ha : arrive event u = some v) (hs : Steps (exec.only (programFiles bases)) (handler event) v p w) :
    (∀ f : File, ¬ InInstallDir bases f.path → (f ∈ w.machine.files ↔ f ∈ v.machine.files)) ∧
      ∀ path ∈ w.machine.delayed,
        path ∈ v.machine.delayed ∨ InInstallDir bases path ∨ path ∈ installDirs bases := by
  have hE : (exec.only (programFiles bases)).Sub exec := fun _ _ _ _ he => (Exec.only_eq_some.mp he).2
  have henv : ∀ o r w w', exec.only (programFiles bases) .getEnvironmentVariable o w = some (r, w') →
      (Limits.installing bases).dirs (installDirOf r) := by
    intro o r w w' he
    obtain ⟨hok, he⟩ := Exec.only_eq_some.mp he
    cases o with
    | text base =>
      cases he
      obtain ⟨b, hb, hsame⟩ := List.any_eq_true.mp hok
      refine List.mem_cons_of_mem _ (List.mem_map.mpr ⟨b, hb, ?_⟩)
      rw [eq_of_beq hsame]
    | fail => cases he; exact List.mem_cons_self ..
    | _ => cases he
  -- What a run may have recorded carries over to the next; the machine need not.
  have hfresh {x : World} (hx : ∀ name, (Limits.installing bases).Fine name (x.value name)) :
      Kept (.installing bases) x x := .refl hx nofun fun _ _ _ => nofun
  have hrun {x : World} (l : Event) (hx : ∀ name, (Limits.installing bases).Fine name (x.value name)) :
      wp (exec.only (programFiles bases)) (fun y => Kept (.installing bases) x y) (fun _ _ => True)
        (handler l) x := by
    refine wp_mono (fun y hy => ?_) (fun _ _ _ _ => trivial) ((handler_limited l).run hE henv (hfresh hx))
    rcases hy with ⟨g, -, hnot⟩ | hy
    · exact absurd trivial hnot
    · exact hy
  have harrive {l : Event} {x y : World} (hy : arrive l x = some y) (name : ValueName) :
      y.value name = x.value name := by
    cases l <;> cases hy <;> rfl
  have hvalues : ∀ name, (Limits.installing bases).Fine name (u.value name) := by
    refine hu.inv_of_wp (I := fun x => ∀ name, (Limits.installing bases).Fine name (x.value name)) ?_ ?_
    · intro name
      rw [h₀.value]
      exact Limits.fine_nil name
    · intro l x y hx hy
      refine wp_mono (fun _ hz => hz.values) (fun _ _ _ _ => trivial) (hrun l fun name => ?_)
      rw [harrive hy]
      exact hx name
  have hkept := hs.inv (hrun event fun name => by rw [harrive ha]; exact hvalues name)
  exact ⟨hkept.files, hkept.delayed⟩

theorem files_outside_kept_uninstall :
    ∃ u w p, Rest (setup.only (programFiles [])) Always Always newPc u ∧
      Steps (exec.only (programFiles [])) (handler .uninstall) u p w ∧
      w.machine.files.length < u.machine.files.length ∧
      ∀ f : File, ¬ InInstallDir [] f.path → (f ∈ w.machine.files ↔ f ∈ u.machine.files) := by
  have hplay : (((setup.only (programFiles [])).playUntil
      [(.install releaseDir (wide "1"), succeed (sha1Of 1) (wide "oem1.inf"), fun _ => false)] newPc).any
        fun u => ((handler .uninstall).playUntil (exec.only (programFiles []))
          (succeed (sha1Of 1) []) (fun _ => false) u).any fun x =>
            x.2.machine.files.length < u.machine.files.length) = true := by decide +kernel
  obtain ⟨u, hu, hx⟩ := (Option.any_eq_true _ _).mp hplay
  obtain ⟨⟨p, w⟩, hp, hlen⟩ := (Option.any_eq_true _ _).mp hx
  have hrest : Rest (setup.only (programFiles [])) Always Always newPc u :=
    Rest.playUntil .init hu fun _ _ _ => trivial
  have hs := Prog.playUntil_steps hp
  exact ⟨u, w, p, hrest, hs, of_decide_eq_true hlen, (files_outside_kept newPc_clean hrest (by rfl) hs).1⟩

end VirtualGun.Setup
