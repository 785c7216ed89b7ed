import VirtualGun.Setup.Trust

/-!
# What an uninstall removes

Where Windows lets setup remove what it attempts to, `RunUninstall` leaves nothing of what is
recorded.
-/

open VirtualGun.Program

namespace VirtualGun.Setup

/-! ## Windows lets setup remove -/

/-- The install directory, when `ProgramFiles` is read with the outcome `env`. -/
def installDirFor (env : Outcome) : WString :=
  match env with
  | .text s => cStr s ++ wide "\\VRLF Virtual Lightgun"
  | _ => wide "C:\\Program Files\\VRLF Virtual Lightgun"

theorem installDirFor_ne_nil (env : Outcome) : installDirFor env ≠ [] := by
  cases env <;> simp [installDirFor, wide]

theorem cStr_installDirFor (env : Outcome) : cStr (installDirFor env) = installDirFor env := by
  apply cStr_of_no_nul
  cases env with
  | text s =>
    intro h
    rcases List.mem_append.mp h with h | h
    · simpa using List.mem_takeWhile_imp h
    · revert h
      decide
  | _ =>
    change 0 ∉ wide "C:\\Program Files\\VRLF Virtual Lightgun"
    decide

/-- `ProgramFiles` is read with the outcome `env`, reads of the state key succeed, and so does what a
removal attempts. -/
def removalsWork (env : Outcome) : Call → Outcome → Bool
  | .getEnvironmentVariable, o => o = env
  | .regOpenKey, o | .regGetValueSize _, o | .regGetValue _, o => o ≠ .fail
  | .regDeleteKey, o | .regDeleteKeyValue _, o => o ≠ .fail
  | .certOpenStore _ (some _), o | .certFindCertificateInStore _ _, o => o ≠ .fail
  | .certDeleteCertificateFromStore _ _, o | .setupUninstallOEMInf _, o => o ≠ .fail
  | .diUninstallDevice _, o | .setupDiRemoveDevice _, o => o ≠ .fail
  | .recursiveDirectoryIterator _, o => o = .ok
  | .attempt (.isRegularFile _), o | .deleteFile _, o => o ≠ .fail
  | _, _ => true

/-- Windows lists the devices. -/
def listsDevices : Call → Outcome → Bool
  | .setupDiGetClassDevs _, o | .attempt .setupDiEnumDeviceInfo, o => o ≠ .fail
  | .attempt .setupDiGetDeviceRegistryProperty, o => o ≠ .fail
  | _, _ => true

/-- Removals work, and with them the listing of the devices to remove. -/
abbrev removingExec (env : Outcome) : Exec Call Call.Resp Outcome World :=
  exec.only fun c o => removalsWork env c o && listsDevices c o

theorem removingExec_eq_some {env : Outcome} {c : Call} {o : Outcome} {w : World}
    {x : c.Resp × World} :
    removingExec env c o w = some x ↔
      (removalsWork env c o = true ∧ listsDevices c o = true) ∧ exec c o w = some x := by
  rw [removingExec, Exec.only_eq_some, Bool.and_eq_true]

theorem removingExec_sub (env : Outcome) : (removingExec env).Sub exec :=
  fun _ _ _ _ h => (removingExec_eq_some.mp h).2

theorem removingExec_reads (env : Outcome) : ReadsWell (removingExec env) := by
  rintro c o w x hc h rfl
  have hr := (removingExec_eq_some.mp h).1.1
  cases c <;> simp [Call.isRead, removalsWork] at hc hr

theorem removingExec_finding (env : Outcome) : Finding (removingExec env) where
  sub := removingExec_sub env
  finds c o w x h := by
    have hr := (removingExec_eq_some.mp h).1.1
    cases c with
    | certOpenStore store sought => cases sought <;> simp_all [findsTrusted, removalsWork]
    | certFindCertificateInStore store hash => simp_all [findsTrusted, removalsWork]
    | _ => rfl
  deletes store found w x h := by
    have hr := (removingExec_eq_some.mp h).1.1
    simp [removalsWork] at hr

theorem defaultInstallDir_spec {env : Outcome} {E : Exec Call Call.Resp Outcome World}
    (hE : E.Sub exec) (henv : ∀ o w x, E .getEnvironmentVariable o w = some x → o = env) (w : World) :
    wp E (· = w) (fun dir _ => dir = installDirFor env) defaultInstallDir w := by
  simp only [defaultInstallDir, perform, Prog.perform_bind]
  refine ⟨rfl, fun o r w' he => ?_⟩
  have ho := henv o w _ he
  have hx := hE _ _ _ _ he
  cases o <;> simp only [exec, Option.some.injEq, Prod.mk.injEq, reduceCtorEq] at hx
  all_goals
    obtain ⟨rfl, rfl⟩ := hx
    rw [← ho]
    exact ⟨rfl, rfl⟩

/-! ## What the removals leave -/

section
variable {env : Outcome} {w : World}

/-- No device node has our hardware ID. -/
def NoDevice (w : World) : Prop := ∀ d ∈ w.machine.devices, ¬ sameName d.hardwareIds hardwareId

/-- No package was staged by setup. -/
def NoOurs (w : World) : Prop := ∀ p ∈ w.packages, p.ours = false

theorem isOurDevice_spec (dev : DevNode) :
    wp (removingExec env) (· = w) (fun ours _ => ours = sameName dev.hardwareIds hardwareId)
      (isOurDevice dev) w := by
  simp only [isOurDevice, attempt, perform, Prog.perform_bind]
  refine ⟨rfl, fun o r w' he => ?_⟩
  obtain ⟨⟨-, hlists⟩, hx⟩ := removingExec_eq_some.mp he
  obtain ⟨rfl, rfl, rfl⟩ | ⟨rfl, -, -⟩ := tried_eq_some.mp hx
  · exact ⟨rfl, rfl⟩
  · simp [listsDevices] at hlists

/-- The devices that are left, and what they are not. -/
structure Remains (devs : List DevNode) (w w' : World) : Prop where
  subset : w'.machine.devices ⊆ w.machine.devices
  gone : ∀ dev ∈ devs, sameName dev.hardwareIds hardwareId →
    ∀ d ∈ w'.machine.devices, ¬ sameName d.instanceId dev.instanceId

theorem removeIn_spec (devs : List DevNode) (w : World) :
    wp (removingExec env) (fun _ => True) (fun _ => Remains devs w) (removeIn devs) w := by
  induction devs generalizing w with
  | nil => exact ⟨trivial, List.Subset.refl _, fun _ hd => absurd hd List.not_mem_nil⟩
  | cons dev devs ih =>
    simp only [removeIn, attempt, perform, Prog.perform_bind]
    refine ⟨trivial, fun o r w' he => ?_⟩
    obtain ⟨⟨-, hlists⟩, hx⟩ := removingExec_eq_some.mp he
    obtain ⟨rfl, rfl, rfl⟩ | ⟨rfl, -, -⟩ := tried_eq_some.mp hx
    rotate_left
    · simp [listsDevices] at hlists
    apply wp_seq_of (fun _ _ => trivial) (isOurDevice_spec dev)
    rintro ours u rfl rfl
    apply wp_ite
    · intro hours
      refine ⟨trivial, fun o r v he => ?_⟩
      obtain ⟨⟨hworks, -⟩, hx⟩ := removingExec_eq_some.mp he
      obtain ⟨rfl, rfl, rfl⟩ | ⟨rfl, -, -⟩ := tried_eq_some.mp hx
      rotate_left
      · simp [removalsWork] at hworks
      refine wp_seq (ih _) fun _ v _ hv => ⟨trivial, ?_, ?_⟩
      · exact List.Subset.trans hv.subset fun d hd => (List.mem_filter.mp hd).1
      · intro d hd hsame d' hd'
        rcases List.mem_cons.mp hd with rfl | hd
        · exact not_sameName (List.mem_filter.mp (hv.subset hd')).2
        · exact hv.gone d hd hsame d' hd'
    · intro hother
      apply wp_post _ (ih u)
      intro _ v _ hv
      refine ⟨hv.subset, fun d hd hsame d' hd' => ?_⟩
      rcases List.mem_cons.mp hd with rfl | hd
      · exact absurd hsame hother
      · exact hv.gone d hd hsame d' hd'

theorem removeDevices_spec (w : World) :
    wp (removingExec env) (fun _ => True) (fun _ => NoDevice) removeDevices w := by
  simp only [removeDevices, perform, Prog.perform_bind]
  refine ⟨trivial, fun o r w' he => ?_⟩
  obtain ⟨⟨-, hlists⟩, hx⟩ := removingExec_eq_some.mp he
  obtain ⟨⟨-, rfl⟩ | ⟨rfl, -⟩, rfl⟩ := looked_eq_some.mp hx
  · apply wp_post _ (removeIn_spec _ w')
    intro _ v _ hv d hd hsame
    have hall : devicesOf w' false = w'.machine.devices := by simp [devicesOf]
    exact hv.gone d (hall ▸ hv.subset hd) hsame d hd (by simp)
  · simp [listsDevices] at hlists

theorem unstagePackage_spec (publishedInf : WString) (w : World) :
    wp (removingExec env) (fun _ => True)
      (fun _ w' => ∀ p ∈ w'.packages, publishedInf ≠ [] → ¬ sameName p.published publishedInf)
      (unstagePackage publishedInf) w := by
  apply wp_ite
  · exact fun hn => ⟨trivial, fun _ _ hne => absurd hn hne⟩
  · refine fun _ => ⟨trivial, fun o r w' he => ?_⟩
    obtain ⟨⟨hworks, -⟩, hx⟩ := removingExec_eq_some.mp he
    obtain ⟨-, -, rfl⟩ | ⟨rfl, -, -⟩ := tried_eq_some.mp hx
    · exact ⟨trivial, fun p hp _ => not_sameName (List.mem_filter.mp hp).2⟩
    · simp [removalsWork] at hworks

/-! ## The install directory -/

theorem regularFiles_spec (paths : List WString) (w : World) :
    wp (removingExec env) (· = w) (fun files _ => files = paths) (regularFiles paths) w := by
  induction paths with
  | nil => exact ⟨rfl, rfl⟩
  | cons path paths ih =>
    simp only [regularFiles, attempt, perform, Prog.perform_bind]
    refine ⟨rfl, fun o r w' he => ?_⟩
    obtain ⟨⟨hworks, -⟩, hx⟩ := removingExec_eq_some.mp he
    obtain ⟨rfl, rfl, rfl⟩ | ⟨rfl, -, -⟩ := tried_eq_some.mp hx
    · apply wp_seq ih
      rintro files u rfl rfl
      exact ⟨rfl, rfl⟩
    · simp [removalsWork] at hworks

/-- Of the files there are, those of `paths` that `del` is true of are gone. -/
structure Deleted (del : WString → Bool) (paths : List WString) (w w' : World) : Prop where
  subset : w'.machine.files ⊆ w.machine.files
  gone : ∀ f ∈ w'.machine.files, f.path ∈ paths → del f.path = false

theorem Deleted.cons {del : WString → Bool} {path : WString} {paths : List WString} {w u w' : World}
    (hsub : u.machine.files ⊆ w.machine.files)
    (hgone : ∀ f ∈ u.machine.files, f.path = path → del path = false)
    (h : Deleted del paths u w') : Deleted del (path :: paths) w w' := by
  refine ⟨List.Subset.trans h.subset hsub, fun f hf hp => ?_⟩
  rcases List.mem_cons.mp hp with hp | hp
  · rw [hp]
    exact hgone f (h.subset hf) hp
  · exact h.gone f hf hp

theorem deleteFile_gone {w : World} {path : WString} {f : File}
    (hf : f ∈ (w.machine.deleteFile path).files) : f.path ≠ path := by
  rintro rfl
  exact not_sameName (List.mem_filter.mp hf).2 (by simp)

theorem deleteOld_spec (paths : List WString) (w : World) :
    wp (removingExec env) (fun _ => True) (fun _ => Deleted isOld paths w) (deleteOld paths) w := by
  induction paths generalizing w with
  | nil => exact ⟨trivial, List.Subset.refl _, fun _ _ hp => absurd hp List.not_mem_nil⟩
  | cons path paths ih =>
    apply wp_ite
    · refine fun _ => ⟨trivial, fun o r w' he => ?_⟩
      obtain ⟨⟨hworks, -⟩, hx⟩ := removingExec_eq_some.mp he
      obtain ⟨-, -, rfl⟩ | ⟨rfl, -, -⟩ := tried_eq_some.mp hx
      · apply wp_post _ (ih _)
        exact fun _ v _ hv => hv.cons (fun f hf => (List.mem_filter.mp hf).1)
          fun f hf hp => absurd hp (deleteFile_gone hf)
      · simp [removalsWork] at hworks
    · intro hnot
      apply wp_post _ (ih w)
      exact fun _ v _ hv => hv.cons (List.Subset.refl _) fun _ _ _ => eq_false_of_ne_true hnot

theorem deleteFiles_spec (paths : List WString) (w : World) :
    wp (removingExec env) (fun _ => True) (fun _ => Deleted (fun path => !isOld path) paths w)
      (deleteFiles paths) w := by
  induction paths generalizing w with
  | nil => exact ⟨trivial, List.Subset.refl _, fun _ _ hp => absurd hp List.not_mem_nil⟩
  | cons path paths ih =>
    simp only [deleteFiles, perform, Prog.perform_bind]
    apply wp_ite
    · intro hold
      apply wp_post _ (ih w)
      exact fun _ v _ hv => hv.cons (List.Subset.refl _) fun _ _ _ => by simp [hold]
    · refine fun _ => ⟨trivial, fun o r w' he => ?_⟩
      obtain ⟨⟨hworks, -⟩, hx⟩ := removingExec_eq_some.mp he
      obtain ⟨-, rfl, rfl⟩ | ⟨rfl, -, -⟩ := tried_eq_some.mp hx
      · apply wp_post _ (ih _)
        exact fun _ v _ hv => hv.cons (fun f hf => (List.mem_filter.mp hf).1)
          fun f hf hp => absurd hp (deleteFile_gone hf)
      · simp [removalsWork] at hworks

theorem removeInstallDir_spec (dir : WString) (w : World) :
    wp (removingExec env) (fun _ => True) (fun _ w' => filesUnder w' dir = [])
      (removeInstallDir dir) w := by
  simp only [removeInstallDir, attempt, perform, Prog.perform_bind]
  refine ⟨trivial, fun o r w' he => ?_⟩
  obtain ⟨⟨hworks, -⟩, hx⟩ := removingExec_eq_some.mp he
  obtain rfl : o = .ok := by simpa [removalsWork] using hworks
  simp only [exec, Option.some.injEq, Prod.mk.injEq] at hx
  obtain ⟨rfl, rfl⟩ := hx
  apply wp_seq_of (fun _ _ => trivial) (regularFiles_spec _ w)
  rintro files u rfl rfl
  apply wp_seq (deleteOld_spec _ u)
  intro _ v _ hv
  apply wp_seq (deleteFiles_spec _ v)
  intro _ x _ hx
  have hempty : filesUnder x dir = [] := by
    rw [List.eq_nil_iff_forall_not_mem]
    intro path hp
    obtain ⟨hp, hunder⟩ := List.mem_filter.mp hp
    obtain ⟨f, hf, rfl⟩ := List.mem_map.mp hp
    have hlisted : f.path ∈ filesUnder u dir :=
      List.mem_filter.mpr ⟨List.mem_map_of_mem (hv.subset (hx.subset hf)), hunder⟩
    have hold := hv.gone f (hx.subset hf) hlisted
    have hnew := hx.gone f hf hlisted
    simp [hold] at hnew
  apply wp_attempt_of (removingExec_sub env) trivial
  intro _
  apply wp_attempt_of (removingExec_sub env) trivial
  intro _
  apply wp_ite
  · exact fun _ => ⟨trivial, hempty⟩
  · refine fun _ => ⟨trivial, fun o r y he => ?_⟩
    obtain ⟨-, -, rfl⟩ | ⟨-, -, rfl⟩ := tried_eq_some.mp (removingExec_eq_some.mp he).2
    · exact ⟨trivial, hempty⟩
    · exact ⟨trivial, hempty⟩

/-! ## Rolling back -/

/-- Nothing is left of an install in `dir`. -/
structure RolledBack (dir : WString) (w : World) : Prop where
  registry : w.registry = none
  untrusted : ∀ c, ¬ Trusted w c
  unstaged : NoOurs w
  noDevice : NoDevice w
  noFiles : filesUnder w dir = []

/-- What there is of an install in `dir` is recorded. -/
structure Uninstallable (dir : WString) (w : World) : Prop where
  cert : ∀ c, Trusted w c → w.value .certThumbprint = thumbprintOf c
  inf : ∀ p ∈ w.packages, p.ours = true →
    w.value .driverInf ≠ [] ∧ sameName p.published (w.value .driverInf)
  files : w.value .installDir = dir ∨ w.value .installDir = [] ∧ filesUnder w dir = []

theorem wp_drop {α : Type} (effects : Effect → Prop) {p : Flow α} (hp : Effects effects p)
    (w : World) : wp (removingExec env) (fun _ => True) (fun _ => Frame effects w) p w :=
  wp_keep (removingExec_sub env) hp fun _ _ => trivial

theorem wp_aside {α : Type} {I : World → Prop} {Q : α → World → Prop} {p : Flow α}
    (effects : Effect → Prop) (hp : Effects effects p) (hd : ¬ effects .devices)
    (h : wp (removingExec env) I Q p w) :
    wp (removingExec env) (fun _ => True)
      (fun a w' => Q a w' ∧ Frame effects w w' ∧ SameDevices w w') p w :=
  wp_end (wp_and h (wp_sub (removingExec_sub env) (wp_and (wp_effects hp w) (wp_devices hp hd w))))

theorem filesUnder_frame {effects : Effect → Prop} {w w' : World} (hf : Frame effects w w')
    (hn : ¬ effects .files) (dir : WString) : filesUnder w' dir = filesUnder w dir := by
  unfold filesUnder
  rw [hf.files hn]

theorem NoOurs.frame {effects : Effect → Prop} {w w' : World} (h : NoOurs w)
    (hf : Frame effects w w') (hn : ¬ effects .stage) : NoOurs w' :=
  fun p hp => h p (hf.unstages hn hp)

theorem NoDevice.same {w w' : World} (h : NoDevice w) (hs : SameDevices w w') : NoDevice w' := by
  unfold NoDevice
  rw [hs]
  exact h

theorem uninstallDriver_spec (publishedInf : WString) (w : World) :
    wp (removingExec env) (fun _ => True)
      (fun _ w' => Frame (fun e => e = .devices ∨ e = .unstage) w w' ∧ NoDevice w' ∧
        ∀ p ∈ w'.packages, publishedInf ≠ [] → ¬ sameName p.published publishedInf)
      (uninstallDriver publishedInf) w := by
  have heffects : Effects (fun e => e = .devices ∨ e = .unstage) removeDevices :=
    removeDevices_effects (.inl rfl)
  have hdevices := wp_and (@removeDevices_spec env w)
    (wp_sub (removingExec_sub env) (wp_effects heffects w))
  apply wp_seq_of (fun _ _ => trivial) hdevices
  rintro _ u - ⟨hnone, hu⟩
  apply wp_seq (wp_aside (fun e => e = .unstage) (unstagePackage_effects (by rfl) publishedInf) (by decide)
    (unstagePackage_spec publishedInf u))
  rintro _ v - ⟨hgone, hv, hsame⟩
  exact ⟨trivial, hu.trans (hv.mono fun _ he => .inr he), hnone.same hsame, hgone⟩

theorem uninstallRecorded_spec {dir : WString} {state : Option InstallState} (hdir : dir ≠ [])
    (hs : Reads w state) (h : Uninstallable dir w) :
    wp (removingExec env) (fun _ => True)
      (fun _ w' => (∀ c, ¬ Trusted w' c) ∧ filesUnder w' dir = []) (uninstallRecorded state) w := by
  have hsub := removingExec_sub env
  cases state with
  | none =>
    refine ⟨trivial, fun c hc => thumbprintOf_ne_nil c ?_, ?_⟩
    · rw [← h.cert c hc, hs]
    · rcases h.files with hd | ⟨-, hempty⟩
      · exact absurd (hd.symm.trans (hs _)) hdir
      · exact hempty
  | some s =>
    apply wp_seq (wp_drop (fun e => e = .unstage) (unstageOther_effects (by rfl) _ _) w)
    intro _ w₁ _ f₁
    apply wp_seq (wp_drop (fun e => e = .unstage) (unstageOther_effects (by rfl) _ _) w₁)
    intro _ w₂ _ f₂
    apply wp_seq_of (fun _ _ => trivial) (removeTrustedCertificate_spec (removingExec_finding env) _)
    rintro _ w₃ - ⟨f₃, hgone⟩
    apply wp_seq (wp_drop (fun e => e = .untrust) (removeTrustedCertificate_effects (by rfl) _) w₃)
    intro _ w₄ _ f₄
    apply wp_seq (wp_drop (fun e => e = .untrust) (removeTrustedCertificate_effects (by rfl) _) w₄)
    intro _ w₅ _ f₅
    have before : Frame (fun e => e = .unstage ∨ e = .untrust) w w₅ :=
      ((((f₁.trans f₂).mono fun _ he => .inl he).trans (f₃.mono fun _ he => .inr he)).trans
        (f₄.mono fun _ he => .inr he)).trans (f₅.mono fun _ he => .inr he)
    have hnone : ∀ c, ¬ Trusted w₅ c := by
      intro c hc
      have hc₃ : Trusted w₃ c := trusted_frame ((f₄.trans f₅).mono fun e he => by subst he; decide) hc
      have hcw : Trusted w c := trusted_frame (before.mono fun e he => by
        rcases he with rfl | rfl <;> decide) hc
      exact hgone c hc₃ ((hs _).trans (h.cert c hcw))
    have hfiles := filesUnder_frame before (by decide) dir
    apply wp_ite
    · intro hne
      apply wp_post _ (wp_aside (fun e => e = .files) (removeInstallDir_effects (by rfl)
        s.installDir) (by decide) (removeInstallDir_spec s.installDir w₅))
      rintro _ x - ⟨hempty, hf, -⟩
      have hx : ∀ c, ¬ Trusted x c := fun c hc =>
        hnone c (trusted_frame (hf.mono fun e he => by subst he; decide) hc)
      refine ⟨hx, ?_⟩
      rcases h.files with hd | ⟨hd, -⟩
      · rw [← hd, ← hs .installDir]
        exact hempty
      · have hnil : s.installDir = [] := (hs .installDir).trans hd
        simp [hnil] at hne
    · intro hnil
      refine ⟨trivial, hnone, hfiles.trans ?_⟩
      rcases h.files with hd | ⟨-, hempty⟩
      · have hne : s.installDir = dir := (hs .installDir).trans hd
        simp [hne, hdir] at hnil
      · exact hempty

theorem Uninstallable.frame {dir : WString} {w w' : World} (h : Uninstallable dir w)
    (hf : Frame (fun e => e = .devices ∨ e = .unstage) w w') : Uninstallable dir w' where
  cert c hc := by
    rw [hf.value (by decide)]
    exact h.cert c (trusted_frame (hf.mono fun e he => by rcases he with rfl | rfl <;> decide) hc)
  inf p hp hours := by
    rw [hf.value (by decide)]
    exact h.inf p (hf.unstages (by decide) hp) hours
  files := by
    rw [hf.value (by decide), filesUnder_frame hf (by decide)]
    exact h.files

theorem runUninstall_rolledBack {dir : WString} (hdir : dir ≠ []) (h : Uninstallable dir w) :
    wp (removingExec env) (fun _ => True) (fun _ => RolledBack dir) runUninstall w := by
  apply wp_seq_of (fun _ _ => trivial) (readState_spec (removingExec_sub env) (removingExec_reads env))
  rintro state u rfl hs
  apply wp_seq (uninstallDriver_spec _ u)
  rintro _ v - ⟨hv, hdevice, hgone⟩
  have hours : NoOurs v := by
    intro p hp
    by_contra hne
    rw [Bool.not_eq_false] at hne
    obtain ⟨hinf, hsame⟩ := h.inf p (hv.unstages (by decide) hp) hne
    have hname : (state.map (·.driverInf)).getD [] = u.value .driverInf := by
      cases state with
      | none => exact (hs .driverInf).symm
      | some s => exact hs .driverInf
    rw [hname] at hgone
    exact hgone p hp hinf hsame
  apply wp_seq (wp_aside (fun e => e = .untrust ∨ e = .unstage ∨ e = .files)
    (uninstallRecorded_effects (.inl rfl) (.inr (.inl rfl)) (.inr (.inr rfl)) state) (by decide)
    (uninstallRecorded_spec hdir (hs.frame hv (by decide)) (h.frame hv)))
  rintro _ x - ⟨⟨htrusted, hfiles⟩, hx, hsame⟩
  refine ⟨trivial, fun o r y he => ?_⟩
  obtain ⟨⟨hworks, -⟩, hy⟩ := removingExec_eq_some.mp he
  obtain ⟨-, -, rfl⟩ | ⟨rfl, -, -⟩ := tried_eq_some.mp hy
  · have hours' : NoOurs x := hours.frame hx (by decide)
    exact ⟨trivial, rfl, htrusted, hours', hdevice.same hsame, hfiles⟩
  · simp [removalsWork] at hworks

end

end VirtualGun.Setup
