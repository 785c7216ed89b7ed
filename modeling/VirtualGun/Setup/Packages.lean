import VirtualGun.Setup.Ownership

/-!
# Staged packages are recorded

`DriverInf`, `PendingDriverInf` and `PreviousDriverInf` are a journal of the packages that setup
stages. Only the driver store knows what a package is called, so that the name is written down after
the package was staged and not before.
-/

open VirtualGun.Program

namespace VirtualGun.Setup

/-! ## The journal -/

/-- Setup staged the package, and the driver store holds it. -/
def Staged (w : World) (p : Package) : Prop := p ∈ w.packages ∧ p.ours = true

/-- Every package that setup has staged is named in the state key. -/
def PackagesRecorded (w : World) : Prop :=
  ∀ p, Staged w p → ∃ s, sameName (w.value (infName s)) p.published

def infSlots (values : ValueName → WString) : Slot → WString := foldCase ∘ values ∘ infName

theorem infSlots_apply (values : ValueName → WString) (s : Slot) :
    infSlots values s = foldCase (values (infName s)) := rfl

def packageName (p : Package) : WString := foldCase p.published

/-- The values name what is staged. -/
def NamesStaged (values : ValueName → WString) (w : World) : Prop :=
  Covered (infSlots values) packageName (Staged w)

/-- What the slot names, another slot names too. -/
abbrev SpareInf (w : World) (s : Slot) : Prop := Spare (infSlots w.value) packageName (Staged w) s

structure PackageInv (w : World) : Prop where
  proper : ∀ p, Staged w p → packageName p ≠ []
  names : NamesStaged w.value w

/-- What crash safety of packages takes for granted: reads of the state key, and the removal of
packages and devices, do not fail. -/
def sturdy : Call → Outcome → Bool
  | .regOpenKey, o | .regGetValueSize _, o | .regGetValue _, o => o ≠ .fail
  | .setupUninstallOEMInf _, o | .diUninstallDevice _, o | .setupDiRemoveDevice _, o => o ≠ .fail
  | _, _ => true

def sturdySetup : System Event Call Call.Resp Outcome World ℕ := setup.only sturdy

/-- The OS calls of `sturdySetup`. -/
abbrev sturdyExec : Exec Call Call.Resp Outcome World := exec.only sturdy

theorem sturdyExec_sub : sturdyExec.Sub exec := fun _ _ _ _ h => (Exec.only_eq_some.mp h).2

theorem sturdyExec_reads : ReadsWell sturdyExec := by
  rintro c o w x hc h rfl
  have hr := (Exec.only_eq_some.mp h).1
  cases c <;> simp [Call.isRead, sturdy] at hc hr

theorem infName_injective : Function.Injective infName := by
  intro s s' h
  cases s <;> cases s' <;> first | rfl | cases h

theorem infSlots_update (values : ValueName → WString) (s : Slot) (v : WString) :
    infSlots (Function.update values (infName s) v) = Function.update (infSlots values) s (foldCase v) := by
  unfold infSlots
  rw [Function.update_comp_eq_of_injective _ infName_injective, Function.comp_update]

theorem infSlots_update_other (values : ValueName → WString) {name : ValueName}
    (hn : ∀ s, infName s ≠ name) (v : WString) :
    infSlots (Function.update values name v) = infSlots values := by
  unfold infSlots
  rw [Function.update_comp_eq_of_forall_ne _ _ hn]

section
variable {w w' : World} {values : ValueName → WString}

theorem PackageInv.recorded (h : PackageInv w) : PackagesRecorded w := by
  intro p hp
  obtain ⟨s, hs⟩ := h.names p hp
  exact ⟨s, (sameName_iff _ _).mpr hs⟩

theorem Sets.staged (hs : Sets w values w') {p : Package} : Staged w' p ↔ Staged w p := by
  unfold Staged
  rw [hs.packages]

theorem PackageInv.sets (h : PackageInv w) (hs : Sets w values w') (hn : NamesStaged values w) :
    PackageInv w' where
  proper p hp := h.proper p (hs.staged.mp hp)
  names := by
    have hv : w'.value = values := funext hs.value
    rw [hv]
    exact Covered.give hn fun p hp => hs.staged.mp hp

/-- The effects that leave the state key alone and stage nothing. -/
abbrev Unstaging : Effect → Prop := fun e => e ≠ .registry ∧ e ≠ .stage

theorem staged_frame (hf : Frame Unstaging w w') {p : Package} (hp : Staged w' p) : Staged w p :=
  ⟨hf.unstages (by decide) hp.1, hp.2⟩

theorem value_frame (hf : Frame Unstaging w w') : w'.value = w.value :=
  funext fun name => hf.value (by decide) name

theorem PackageInv.frame (h : PackageInv w) (hf : Frame Unstaging w w') : PackageInv w' where
  proper p hp := h.proper p (staged_frame hf hp)
  names := by
    rw [value_frame hf]
    exact Covered.give h.names fun p hp => staged_frame hf hp

theorem spareInf_of_unnamed {s : Slot} (h : ∀ p, Staged w p → infSlots w.value s ≠ packageName p) :
    SpareInf w s :=
  .of_unheld h

theorem PackageInv.spare_empty {s : Slot} (h : PackageInv w) (hv : w.value (infName s) = []) :
    SpareInf w s := by
  apply spareInf_of_unnamed
  intro p hp hs
  apply h.proper p hp
  rw [← hs, infSlots_apply, hv, foldCase_nil]

theorem PackageInv.none_of_unrecorded (h : PackageInv w) (hs : Reads w none) : ∀ p, ¬ Staged w p := by
  refine h.names.unheld fun s p hp hn => h.proper p hp ?_
  rw [← hn, infSlots_apply, hs, foldCase_nil]

theorem spareInf_slot {s : Slot} (h : SpareInf w s) : ∀ s', infName s' = infName s → SpareInf w s' :=
  fun _ hs => infName_injective hs ▸ h

theorem spareInf_none {name : ValueName} (hn : ∀ s, infName s ≠ name) :
    ∀ s, infName s = name → SpareInf w s :=
  fun s hs => absurd hs (hn s)

theorem namesStaged_update (h : NamesStaged w.value w) {name : ValueName} {v : WString}
    (hs : ∀ s, infName s = name → SpareInf w s) : NamesStaged (Function.update w.value name v) w := by
  unfold NamesStaged
  by_cases hn : ∃ s, infName s = name
  · obtain ⟨s, rfl⟩ := hn
    rw [infSlots_update]
    exact Covered.write h (hs s rfl)
  · rw [infSlots_update_other _ fun s hs => hn ⟨s, hs⟩]
    exact h

/-! ## Steps -/

theorem unstaging_run {α : Type} {p : Flow α} (hp : Effects Unstaging p) (h : PackageInv w) :
    wp sturdyExec PackageInv (fun _ w' => Frame Unstaging w w') p w :=
  wp_keep sturdyExec_sub hp fun _ hf => h.frame hf

theorem unstaging_end {α : Type} {p : Flow α} (hp : Effects Unstaging p) (h : PackageInv w) :
    wp sturdyExec PackageInv (fun _ _ => True) p w :=
  wp_post (fun _ _ _ _ => trivial) (unstaging_run hp h)

theorem readState_packages (h : PackageInv w) :
    wp sturdyExec PackageInv (fun s w' => w' = w ∧ Reads w s) readState w :=
  wp_mono (fun w' (hw : w' = w) => hw ▸ h) (fun _ _ hw hs => ⟨hw, hs⟩)
    (readState_spec sturdyExec_sub sturdyExec_reads)

theorem writeValue_packages {name : ValueName} (v : WString) (h : PackageInv w)
    (hs : ∀ s, infName s = name → SpareInf w s) :
    wp sturdyExec PackageInv
      (fun ok w' => Sets w (if ok then Function.update w.value name (cStr v) else w.value) w')
      (writeValue name v) w := by
  refine wp_mono (fun w' hw' => ?_) (fun _ _ _ hw => hw) (writeValue_spec sturdyExec_sub name v)
  exact hw'.elim (h.sets · h.names) (h.sets · (namesStaged_update h.names hs))

theorem deleteValue_packages {name : ValueName} (h : PackageInv w)
    (hs : ∀ s, infName s = name → SpareInf w s) :
    wp sturdyExec PackageInv
      (fun _ w' => Sets w w.value w' ∨ Sets w (Function.update w.value name []) w')
      (deleteValue name) w := by
  refine wp_mono (fun w' hw' => ?_) (fun _ _ _ hw => hw) (deleteValue_spec sturdyExec_sub name)
  exact hw'.elim (h.sets · h.names) (h.sets · (namesStaged_update h.names hs))

theorem forget_packages {name : ValueName} (h : PackageInv w)
    (hs : ∀ s, infName s = name → SpareInf w s) :
    wp sturdyExec PackageInv (fun _ _ => True) (deleteValue name) w :=
  wp_post (fun _ _ _ _ => trivial) (deleteValue_packages h hs)

theorem unstagePackage_gone (published : WString) (h : ∀ p, Staged w p → packageName p ≠ []) :
    wp sturdyExec (Frame Unstaging w)
      (fun _ w' => Frame Unstaging w w' ∧ ∀ p, Staged w' p → foldCase published ≠ packageName p)
      (unstagePackage published) w := by
  unfold unstagePackage
  apply wp_ite
  · rintro rfl
    exact ⟨.refl _ _, .refl _ _, fun p hp hn => h p hp hn.symm⟩
  · refine fun _ => ⟨.refl _ _, fun o r w' he => ?_⟩
    obtain ⟨hsturdy, hx⟩ := Exec.only_eq_some.mp he
    have hf : Frame Unstaging w w' := (exec_frame hx).mono fun e he => by
      obtain rfl := Option.some.inj he
      decide
    obtain ⟨-, -, rfl⟩ | ⟨rfl, -, -⟩ := tried_eq_some.mp hx
    · refine ⟨hf, hf, fun p hp hn => ?_⟩
      exact not_sameName (List.mem_filter.mp hp.1).2 ((sameName_iff _ _).mpr hn.symm)
    · simp [sturdy] at hsturdy

theorem unstagePackage_packages (published : WString) (h : PackageInv w) :
    wp sturdyExec PackageInv
      (fun _ w' => Frame Unstaging w w' ∧ ∀ p, Staged w' p → foldCase published ≠ packageName p)
      (unstagePackage published) w :=
  wp_mono (fun _ hf => h.frame hf) (fun _ _ _ hq => hq) (unstagePackage_gone published h.proper)

theorem unstageOther_packages (inf driverInf : WString) (h : PackageInv w) :
    wp sturdyExec PackageInv
      (fun _ w' => Frame Unstaging w w' ∧
        ∀ p, Staged w' p → foldCase inf = packageName p → foldCase driverInf = packageName p)
      (unstageOther inf driverInf) w := by
  unfold unstageOther
  apply wp_ite
  · intro _
    apply wp_seq (unstagePackage_packages inf h)
    intro _ u hu hgone
    exact ⟨hu, hgone.1, fun p hp hn => absurd hn (hgone.2 p hp)⟩
  · intro hsame
    have heq : foldCase inf = foldCase driverInf := by simpa using hsame
    exact ⟨h, .refl _ _, fun p _ hn => heq ▸ hn⟩

/-! ## Uninstall -/

theorem uninstallRecorded_packages {state : Option InstallState} (h : PackageInv w) (hs : Reads w state)
    (hgone : ∀ p, Staged w p → infSlots w.value .current ≠ packageName p) :
    wp sturdyExec PackageInv (fun _ w' => ∀ p, ¬ Staged w' p) (uninstallRecorded state) w := by
  cases state with
  | none => exact ⟨h, h.none_of_unrecorded hs⟩
  | some s =>
    apply wp_seq (unstageOther_packages s.pendingDriverInf s.driverInf h)
    rintro _ w₁ h₁ ⟨f₁, hpending⟩
    apply wp_seq (unstageOther_packages s.previousDriverInf s.driverInf h₁)
    rintro _ w₂ h₂ ⟨f₂, hprevious⟩
    have hv : ∀ slot, infSlots w₂.value slot = foldCase (s.get (infName slot)) := by
      intro slot
      rw [value_frame (f₁.trans f₂), infSlots_apply, hs]
    have hcurrent : ∀ p, Staged w₂ p → foldCase s.driverInf ≠ packageName p := by
      intro p hp hn
      refine hgone p (staged_frame (f₁.trans f₂) hp) ?_
      rw [← hn, infSlots_apply, ← hs]
      rfl
    have hnone : ∀ p, ¬ Staged w₂ p := by
      refine h₂.names.unheld fun slot p hp hn => ?_
      rw [hv] at hn
      cases slot with
      | current => exact hcurrent p hp hn
      | pending => exact hcurrent p hp (hpending p (staged_frame f₂ hp) hn)
      | previous => exact hcurrent p hp (hprevious p hp hn)
    -- Nothing behind it stages a package.
    apply wp_seq (unstaging_run (removeTrustedCertificate_effects (by decide) _) h₂)
    intro _ w₃ h₃ f₃
    apply wp_seq (unstaging_run (removeTrustedCertificate_effects (by decide) _) h₃)
    intro _ w₄ h₄ f₄
    apply wp_seq (unstaging_run (removeTrustedCertificate_effects (by decide) _) h₄)
    intro _ w₅ h₅ f₅
    have hnone₅ : ∀ p, ¬ Staged w₅ p := fun p hp => hnone p (staged_frame ((f₃.trans f₄).trans f₅) hp)
    apply wp_ite
    · intro _
      apply wp_post _ (unstaging_run (removeInstallDir_effects (by decide) _) h₅)
      exact fun _ u _ hu p hp => hnone₅ p (staged_frame hu hp)
    · exact fun _ => ⟨h₅, hnone₅⟩

theorem PackageInv.of_none (h : ∀ p, ¬ Staged w p) : PackageInv w :=
  ⟨fun p hp => absurd hp (h p), fun p hp => absurd hp (h p)⟩

theorem deleteState_packages (hn : ∀ p, ¬ Staged w p) :
    wp sturdyExec PackageInv (fun _ w' => ∀ p, ¬ Staged w' p) deleteState w := by
  refine ⟨.of_none hn, fun o r w' he => ?_⟩
  obtain ⟨-, -, rfl⟩ | ⟨-, -, rfl⟩ := tried_eq_some.mp (sturdyExec_sub _ _ _ _ he)
  · exact ⟨.of_none hn, hn⟩
  · exact ⟨.of_none hn, hn⟩

/-- An uninstall that is not killed leaves no package of setup's. -/
theorem runUninstall_packages (h : PackageInv w) :
    wp sturdyExec PackageInv (fun _ w' => ∀ p, ¬ Staged w' p) runUninstall w := by
  apply wp_seq (readState_packages h)
  rintro state w h ⟨rfl, hs⟩
  have huninstall : wp sturdyExec PackageInv (fun _ w' => Frame Unstaging w w' ∧
      ∀ p, Staged w' p → infSlots w'.value .current ≠ packageName p)
      (uninstallDriver ((state.map (·.driverInf)).getD [])) w := by
    apply wp_seq (unstaging_run (removeDevices_effects (by decide)) h)
    intro _ u hu fu
    apply wp_seq (unstagePackage_packages _ hu)
    rintro _ v hv ⟨fv, hgone⟩
    refine ⟨hv, fu.trans fv, fun p hp hn => hgone p hp ?_⟩
    rw [← hn, value_frame (fu.trans fv), infSlots_apply]
    cases state with
    | none => rw [hs]; rfl
    | some s => rw [← hs]; rfl
  apply wp_seq huninstall
  rintro _ u hu ⟨fu, hgone⟩
  apply wp_seq (uninstallRecorded_packages hu (hs.frame fu (by decide)) hgone)
  intro _ v _ hnone
  apply wp_seq (deleteState_packages hnone)
  exact fun _ x hx hnone => ⟨hx, hnone⟩

theorem failInstall_packages (h : PackageInv w) :
    wp sturdyExec PackageInv (fun _ _ => True) failInstall w :=
  wp_seq (runUninstall_packages h) fun _ _ hu _ => ⟨hu, trivial⟩

/-! ## Retirement and roll-back -/

theorem noInf_certThumbprint (s : Slot) : infName s ≠ .certThumbprint := by cases s <;> nofun

theorem noInf_pendingCertThumbprint (s : Slot) : infName s ≠ .pendingCertThumbprint := by
  cases s <;> nofun

theorem noInf_previousCertThumbprint (s : Slot) : infName s ≠ .previousCertThumbprint := by
  cases s <;> nofun

theorem noInf_version (s : Slot) : infName s ≠ .version := by cases s <;> nofun

theorem retireCert_packages (state : InstallState) (h : PackageInv w) :
    wp sturdyExec PackageInv (fun _ w' => w'.value .previousDriverInf = w.value .previousDriverInf)
      (retireCert state) w := by
  apply wp_ite
  · intro _
    apply wp_seq (unstaging_run (removeTrustedCertificate_effects (by decide) _) h)
    intro _ u hu fu
    apply wp_post _ (deleteValue_packages hu (spareInf_none noInf_previousCertThumbprint))
    rintro _ v - (hv | hv) <;> rw [hv.value, ← value_frame fu]
    exact Function.update_of_ne (by decide) _ _
  · exact fun _ => ⟨h, rfl⟩

/-- The package that `PreviousDriverInf` names is unstaged before the value is deleted. -/
theorem retireInf_packages {state : InstallState} (h : PackageInv w)
    (hv : w.value .previousDriverInf = state.previousDriverInf) :
    wp sturdyExec PackageInv (fun _ _ => True) (retireInf state) w := by
  apply wp_ite
  · intro _
    apply wp_seq (unstagePackage_packages state.previousDriverInf h)
    rintro _ u hu ⟨fu, hgone⟩
    apply wp_ite
    · intro _
      refine forget_packages hu (spareInf_slot (s := .previous) (spareInf_of_unnamed fun p hp hn => hgone p hp ?_))
      rw [← hn, value_frame fu, infSlots_apply, infName, hv]
    · exact fun _ => ⟨hu, trivial⟩
  · exact fun _ => ⟨h, trivial⟩

theorem retirePrevious_packages {state : InstallState} (h : PackageInv w)
    (hv : w.value .previousDriverInf = state.previousDriverInf) :
    wp sturdyExec PackageInv (fun _ _ => True) (retirePrevious state) w :=
  wp_seq (retireCert_packages state h) fun _ _ hu hs => retireInf_packages hu (hs.trans hv)

theorem retireFirst_packages (h : PackageInv w) :
    wp sturdyExec PackageInv (fun state w' => Reads w' state) retireFirst w := by
  apply wp_seq (readState_packages h)
  rintro (_ | s) u hu ⟨rfl, hs⟩
  · exact ⟨hu, hs⟩
  · apply wp_ite
    · intro _
      apply wp_seq (retirePrevious_packages hu (hs _).symm)
      intro _ v hv _
      apply wp_post _ (readState_packages hv)
      rintro _ x - ⟨rfl, hx⟩
      exact hx
    · exact fun _ => ⟨hu, hs⟩

theorem dropPending_packages (pendingCert : WString) (h : PackageInv w) (hs : SpareInf w .pending) :
    wp sturdyExec PackageInv (fun _ _ => True)
      (do
        removeTrustedCertificate pendingCert
        deleteValue .pendingDriverInf
        deleteValue .pendingCertThumbprint
        return 1 : Flow ℕ) w := by
  apply wp_seq (unstaging_run (removeTrustedCertificate_effects (by decide) _) h)
  intro _ u hu fu
  have hspare : SpareInf u .pending := by
    intro p hp hn
    rw [value_frame fu] at hn ⊢
    exact hs p (staged_frame fu hp) hn
  apply wp_seq (forget_packages hu (spareInf_slot (s := .pending) hspare))
  intro _ v hv _
  apply wp_seq (forget_packages hv (spareInf_none noInf_pendingCertThumbprint))
  exact fun _ x hx _ => ⟨hx, trivial⟩

/-- The package that `PendingDriverInf` names goes, or `DriverInf` names it too. -/
theorem failUpdate_packages {old : InstallState} (pendingCert : WString) {pendingInf : WString}
    (h : PackageInv w) (hold : old.driverInf = w.value .driverInf)
    (hv : w.value .pendingDriverInf = [] ∨ infSlots w.value .pending = foldCase pendingInf) :
    wp sturdyExec PackageInv (fun _ _ => True) (failUpdate old pendingCert pendingInf) w := by
  apply wp_seq (unstageOther_packages pendingInf old.driverInf h)
  rintro _ u hu ⟨fu, hcurrent⟩
  apply dropPending_packages pendingCert hu
  rcases hv with hv | hv
  · exact hu.spare_empty (by rw [value_frame fu]; exact hv)
  · intro p hp hn
    refine ⟨.current, by decide, ?_⟩
    rw [value_frame fu] at hn ⊢
    rw [← hcurrent p hp (hv.symm.trans hn), hold]
    rfl

/-! ## Update -/

theorem finish_packages (version : WString) (installCode : ℕ) (failed : Flow ℕ) (h : PackageInv w)
    (hfailed : ∀ {u}, PackageInv u → wp sturdyExec PackageInv (fun _ _ => True) failed u) :
    wp sturdyExec PackageInv (fun _ _ => True)
      (do if ← writeValue .version version then finishWithPins installCode else failed) w := by
  apply wp_seq (writeValue_packages version h (spareInf_none noInf_version))
  intro _ u hu _
  apply wp_ite
  · exact fun _ => unstaging_end (finishWithPins_effects (by decide) _) hu
  · exact fun _ => hfailed hu

/-- `PendingDriverInf` can go when `DriverInf` names the same package. -/
theorem settle_packages {rest : Flow ℕ} (h : PackageInv w)
    (hcopy : infSlots w.value .current = infSlots w.value .pending)
    (hrest : ∀ {u}, PackageInv u → wp sturdyExec PackageInv (fun _ _ => True) rest u) :
    wp sturdyExec PackageInv (fun _ _ => True)
      (do
        deleteValue .pendingCertThumbprint
        deleteValue .pendingDriverInf
        rest) w := by
  apply wp_seq (deleteValue_packages h (spareInf_none noInf_pendingCertThumbprint))
  intro _ u hu hs
  have hslots : infSlots u.value = infSlots w.value := by
    rcases hs with hs | hs <;> rw [funext hs.value]
    exact infSlots_update_other _ noInf_pendingCertThumbprint _
  rw [← hslots] at hcopy
  apply wp_seq (forget_packages hu (spareInf_slot (Spare.of_copy (by decide) hcopy)))
  exact fun _ v hv _ => hrest hv

theorem keepPackage_packages (cert : SigningCert) (version : WString) (reboot : Bool) (h : PackageInv w)
    (hcopy : infSlots w.value .current = infSlots w.value .pending) :
    wp sturdyExec PackageInv (fun _ _ => True) (keepPackage cert version reboot) w := by
  apply wp_seq (unstaging_run (removeTrustedCertificate_effects (by decide) _) h)
  intro _ u hu fu
  rw [← value_frame fu] at hcopy
  apply settle_packages hu hcopy
  intro v hv
  exact finish_packages version _ (pure 1) hv fun hx => ⟨hx, trivial⟩

/-- The old package is named twice before its slot takes the new one. -/
theorem promoteValues_packages {old : InstallState} (cert : SigningCert) {published : WString}
    (h : PackageInv w) (hold : old.driverInf = w.value .driverInf)
    (hprevious : w.value .previousDriverInf = [])
    (hpending : infSlots w.value .pending = foldCase published) :
    wp sturdyExec PackageInv
      (fun ok w' => ok = true → infSlots w'.value .current = infSlots w'.value .pending)
      (promoteValues old cert published) w := by
  have failed : ∀ {u : World}, PackageInv u → wp sturdyExec PackageInv
      (fun ok w' => ok = true → infSlots w'.value .current = infSlots w'.value .pending)
      (.ret false) u := fun hu => ⟨hu, fun hf => nomatch hf⟩
  apply wp_seq (writeValue_packages _ h (spareInf_none noInf_previousCertThumbprint))
  intro ok₁ w₁ h₁ s₁
  apply wp_ite _ fun _ => failed h₁
  intro hok
  simp only [hok, if_true] at s₁
  have hprevious₁ : w₁.value .previousDriverInf = [] := by
    rw [s₁.value, Function.update_of_ne (by decide), hprevious]
  apply wp_seq (writeValue_packages _ h₁ (spareInf_slot (s := .previous) (h₁.spare_empty hprevious₁)))
  intro ok₂ w₂ h₂ s₂
  apply wp_ite _ fun _ => failed h₂
  intro hok
  simp only [hok, if_true] at s₂
  apply wp_seq (writeValue_packages _ h₂ (spareInf_none noInf_certThumbprint))
  intro ok₃ w₃ h₃ s₃
  apply wp_ite _ fun _ => failed h₃
  intro hok
  simp only [hok, if_true] at s₃
  have hslots : infSlots w₃.value =
      Function.update (infSlots w.value) .previous (foldCase (cStr old.driverInf)) := by
    rw [funext s₃.value, infSlots_update_other _ noInf_certThumbprint, funext s₂.value,
      infSlots_update, funext s₁.value,
      infSlots_update_other _ noInf_previousCertThumbprint]
  have hcopy : infSlots w₃.value .previous = infSlots w₃.value .current := by
    rw [hslots, Function.update_self, Function.update_of_ne (by decide), foldCase_cStr, hold]
    rfl
  apply wp_post _ (writeValue_packages published h₃ (spareInf_slot (s := .current)
    (Spare.of_copy (by decide) hcopy)))
  intro ok₄ w₄ _ s₄ hok
  simp only [hok, if_true] at s₄
  rw [funext s₄.value, infSlots_update,
    Function.update_self, Function.update_of_ne (by decide), hslots, Function.update_of_ne (by decide),
    hpending, foldCase_cStr]

theorem promote_packages {old : InstallState} (cert : SigningCert) {published : WString}
    (version : WString) (reboot : Bool) (h : PackageInv w) (hold : old.driverInf = w.value .driverInf)
    (hprevious : w.value .previousDriverInf = [])
    (hpending : infSlots w.value .pending = foldCase published) :
    wp sturdyExec PackageInv (fun _ _ => True) (promote old cert published version reboot) w := by
  apply wp_seq (promoteValues_packages cert h hold hprevious hpending)
  intro ok u hu hcopy
  refine wp_ite (fun hok => ?_) fun _ => ⟨hu, trivial⟩
  apply settle_packages hu (hcopy hok)
  intro x hx
  apply wp_seq (readState_packages hx)
  rintro promoted y hy ⟨rfl, hs⟩
  have hretire : wp sturdyExec PackageInv (fun _ _ => True) (retirePromoted promoted) y := by
    cases promoted with
    | none => exact ⟨hy, trivial⟩
    | some s => exact retirePrevious_packages hy (hs _).symm
  apply wp_seq hretire
  exact fun _ z hz _ => finish_packages version _ (pure 1) hz fun hu => ⟨hu, trivial⟩

end

/-! ## Between staging and recording -/

/-- Whether a new package waits for its name to be recorded, after one more call. -/
def waits (waiting : Bool) : Call × Outcome → Bool
  | (.setupCopyOEMInf _, .staged _) => true
  | (.setupUninstallOEMInf _, .ok) => false
  | (.regSetValue .driverInf _, .ok) => false
  | (.regSetValue .pendingDriverInf _, .ok) => false
  | _ => waiting

/-- The run has staged a new package, and has not recorded or unstaged one since. -/
def awaiting (l : Log Call Outcome) : Bool := l.foldl waits false

theorem awaiting_append (l : Log Call Outcome) (e : Call × Outcome) :
    awaiting (l ++ [e]) = waits (awaiting l) e := by
  simp [awaiting, List.foldl_append]

theorem waits_elsewhere {c : Call} (hc : ∀ e, c.effect = some e → Elsewhere e) (waiting : Bool)
    (o : Outcome) : waits waiting (c, o) = waiting := by
  cases c with
  | regSetValue => exact absurd rfl (hc .registry rfl).1
  | setupCopyOEMInf => exact absurd rfl (hc .stage rfl).2.1
  | setupUninstallOEMInf => exact absurd rfl (hc .unstage rfl).2.2
  | _ => rfl

/-- Every package but the one that waits is recorded. -/
structure Staging (published : WString) (x : World × Log Call Outcome) : Prop where
  proper : ∀ p, Staged x.1 p → packageName p ≠ []
  names : ∀ p, Staged x.1 p → (∃ s, infSlots x.1.value s = packageName p) ∨
    (awaiting x.2 = true ∧ foldCase published = packageName p)

/-- Where no package waits, all are recorded. -/
def Accounted (x : World × Log Call Outcome) : Prop := awaiting x.2 = false → PackageInv x.1

section
variable {x y z : World × Log Call Outcome} {published : WString}

theorem Staging.accounted (h : Staging published x) : Accounted x := by
  intro hw
  refine ⟨h.proper, fun p hp => ?_⟩
  rcases h.names p hp with hs | ⟨hw', -⟩
  · exact hs
  · simp [hw] at hw'

theorem PackageInv.accounted {w : World} {l : Log Call Outcome} (h : PackageInv w) : Accounted (w, l) :=
  fun _ => h

theorem PackageInv.staging {w : World} {l : Log Call Outcome} (h : PackageInv w) (published : WString) :
    Staging published (w, l) :=
  ⟨h.proper, fun p hp => .inl (h.names p hp)⟩

/-- What has a name at every call needs no look at the log. -/
theorem wp_accounted {α : Type} {Q : α → World → Prop} {p : Flow α}
    (h : wp sturdyExec PackageInv Q p x.1) :
    wp sturdyExec.logged Accounted (fun a y => PackageInv y.1 ∧ Q a y.1) p x :=
  wp_mono (fun _ hy => hy.1.accounted) (fun _ _ hy hq => ⟨hy.1, hq.1⟩)
    (wp_logged (List.prefix_refl x.2) h)

theorem accounted_end {p : Flow ℕ} (h : wp sturdyExec PackageInv (fun _ _ => True) p x.1) :
    wp sturdyExec.logged Accounted (fun _ y => PackageInv y.1) p x :=
  wp_post (fun _ _ _ hq => hq.1) (wp_accounted h)

/-- The state key and the packages are as they were. -/
def Aside (x y : World × Log Call Outcome) : Prop := Frame Elsewhere x.1 y.1

theorem Aside.refl (x : World × Log Call Outcome) : Aside x x := Frame.refl _ _

theorem Aside.trans (h : Aside x y) (h' : Aside y z) : Aside x z := Frame.trans h h'

theorem elsewhere_staging {c : Call} {o : Outcome} {r : c.Resp} (h : Staging published x)
    (hc : ∀ e, c.effect = some e → Elsewhere e) (he : sturdyExec.logged c o x = some (r, y)) :
    Staging published y ∧ Aside x y := by
  obtain ⟨v, hv, rfl⟩ := Exec.logged_eq_some.mp he
  have hf : Frame Elsewhere x.1 v := (exec_frame (sturdyExec_sub _ _ _ _ hv)).mono hc
  have hu : Frame Unstaging x.1 v := hf.mono fun e he => ⟨he.1, he.2.1⟩
  refine ⟨⟨fun p hp => h.proper p (staged_frame hu hp), fun p hp => ?_⟩, hf⟩
  simp only [awaiting_append, waits_elsewhere hc]
  rw [value_frame hu]
  exact h.names p (staged_frame hu hp)

theorem staging_run {α : Type} {p : Flow α} (hp : Effects Elsewhere p) (h : Staging published x) :
    wp sturdyExec.logged Accounted (fun _ y => Staging published y ∧ Aside x y) p x := by
  have hrun : wp sturdyExec.logged (fun y => Staging published y ∧ Aside x y) (fun _ _ => True) p x := by
    refine wp_frame Aside.refl Aside.trans (fun hJ hc he => ?_) h hp
    exact ⟨trivial, elsewhere_staging hJ hc he⟩
  exact wp_mono (fun _ hy => hy.1.accounted) (fun _ _ hy _ => hy) hrun

/-- `SetupCopyOEMInf` hands back a new package, which waits, or one that is recorded. -/
theorem stagePackage_staging (inf : WString) (h : PackageInv x.1) :
    wp sturdyExec.logged Accounted
      (fun r y => Frame (· = .stage) x.1 y.1 ∧ (r = none → PackageInv y.1) ∧
        ∀ published, r = some published → Staging published y ∧
          ∀ p, Staged y.1 p → Staged x.1 p ∨ foldCase published = packageName p)
      (stagePackage inf) x := by
  refine ⟨h.accounted, fun o r y he => ?_⟩
  obtain ⟨v, hv, hy⟩ := Exec.logged_eq_some.mp he
  simp only at hy
  subst hy
  have hx := sturdyExec_sub _ _ _ _ hv
  have hf : Frame (· = .stage) x.1 v := (exec_frame hx).mono fun e he => (Option.some.inj he).symm
  obtain ⟨-, rfl, rfl⟩ | ⟨f, name, rfl, -, -, hfresh, rfl, rfl⟩ | ⟨f, name, p, -, -, -, -, -, rfl, rfl⟩ :=
    copyOEMInf_eq_some.mp hx
  · exact ⟨h.accounted, hf, fun _ => h, fun _ hr => (by cases hr)⟩
  · have hnew : ∀ p, Staged { x.1 with packages := x.1.packages ++ [x.1.packageFrom f name] } p →
        Staged x.1 p ∨ foldCase name = packageName p := by
      rintro p ⟨hp, hours⟩
      rcases List.mem_append.mp hp with hp | hp
      · exact .inl ⟨hp, hours⟩
      · rw [List.mem_singleton.mp hp]
        exact .inr rfl
    have hname : foldCase name ≠ [] := by
      rw [Ne, foldCase_eq_nil, cStr_of_no_nul hfresh.2.1]
      exact hfresh.1
    have hstaging : Staging name ({ x.1 with packages := x.1.packages ++ [x.1.packageFrom f name] },
        x.2 ++ [(.setupCopyOEMInf inf, .staged name)]) := by
      refine ⟨fun p hp => ?_, fun p hp => ?_⟩ <;> rcases hnew p hp with hold | heq
      · exact h.proper p hold
      · exact heq ▸ hname
      · exact .inl (h.names p hold)
      · exact .inr ⟨by rw [awaiting_append]; rfl, heq⟩
    refine ⟨hstaging.accounted, hf, fun hr => (by cases hr), ?_⟩
    rintro _ ⟨⟩
    exact ⟨hstaging, hnew⟩
  · refine ⟨h.accounted, hf, fun hr => (by cases hr), ?_⟩
    rintro _ ⟨⟩
    exact ⟨PackageInv.staging h _, fun p hp => .inl hp⟩

theorem unstagePackage_staging (h : Staging published x) :
    wp sturdyExec.logged Accounted (fun _ y => PackageInv y.1 ∧ Frame Unstaging x.1 y.1)
      (unstagePackage published) x := by
  have hgone := wp_log (unstagePackage_gone published h.proper)
  unfold unstagePackage at hgone ⊢
  apply wp_ite
  · rintro rfl
    have hinv : PackageInv x.1 := by
      refine ⟨h.proper, fun p hp => (h.names p hp).resolve_right ?_⟩
      rintro ⟨-, hn⟩
      exact h.proper p hp hn.symm
    exact ⟨hinv.accounted, hinv, .refl _ _⟩
  · intro hne
    rw [if_neg hne] at hgone
    refine ⟨h.accounted, fun o r y he => ?_⟩
    obtain ⟨-, ⟨hf, hnone⟩, -⟩ := hgone.2 o r y he
    have hinv : PackageInv y.1 := by
      refine ⟨fun p hp => h.proper p (staged_frame hf hp), fun p hp => ?_⟩
      rw [value_frame hf]
      refine (h.names p (staged_frame hf hp)).resolve_right ?_
      rintro ⟨-, hn⟩
      exact hnone p hp hn
    exact ⟨hinv.accounted, hinv, hf⟩

theorem writeValue_staging {s : Slot} (h : Staging published x)
    (hspare : ∀ p, Staged x.1 p → infSlots x.1.value s = packageName p →
      foldCase published = packageName p) :
    wp sturdyExec.logged Accounted
      (fun ok y => (ok = true → PackageInv y.1 ∧
          Sets x.1 (Function.update x.1.value (infName s) (cStr published)) y.1) ∧
        (ok = false → Staging published y ∧ Sets x.1 x.1.value y.1))
      (writeValue (infName s) published) x := by
  -- As long as nothing is written, the package waits.
  have unwritten : ∀ {l : Log Call Outcome} {v : World}, Sets x.1 x.1.value v →
      awaiting l = awaiting x.2 → Staging published (v, l) := by
    intro l v hv hw
    refine ⟨fun p hp => h.proper p (hv.staged.mp hp), fun p hp => ?_⟩
    simp only [hw]
    rw [funext hv.value]
    exact h.names p (hv.staged.mp hp)
  have hcreate : ∀ o, awaiting (x.2 ++ [(.regCreateKey, o)]) = awaiting x.2 := fun o => awaiting_append _ _
  simp only [writeValue, perform, Prog.perform_bind]
  refine ⟨h.accounted, fun o r y he => ?_⟩
  obtain ⟨v, hv, hy⟩ := Exec.logged_eq_some.mp he
  simp only at hy
  subst hy
  obtain ⟨-, rfl, rfl⟩ | ⟨-, rfl, rfl⟩ := tried_eq_some.mp (sturdyExec_sub _ _ _ _ hv)
  · have hcreated := unwritten (createKey_sets x.1) (hcreate o)
    refine ⟨hcreated.accounted, fun o' r y he => ?_⟩
    obtain ⟨v, hv, hy⟩ := Exec.logged_eq_some.mp he
    simp only at hy
    subst hy
    obtain ⟨rfl, rfl, rfl⟩ | ⟨rfl, rfl, rfl⟩ := tried_eq_some.mp (sturdyExec_sub _ _ _ _ hv)
    · have hsets := setValue_sets x.1 (infName s) published
      have hinv : PackageInv (x.1.createKey.setValue (infName s) published) := by
        refine ⟨fun p hp => h.proper p (hsets.staged.mp hp), fun p hp => ?_⟩
        rw [funext hsets.value, infSlots_update, foldCase_cStr]
        rcases h.names p (hsets.staged.mp hp) with ⟨s', hs'⟩ | ⟨-, hn⟩
        · by_cases hne : s' = s
          · subst hne
            exact ⟨s', by rw [Function.update_self, hspare p (hsets.staged.mp hp) hs']⟩
          · exact ⟨s', by rw [Function.update_of_ne hne, hs']⟩
        · exact ⟨s, by rw [Function.update_self, hn]⟩
      exact ⟨hinv.accounted, fun _ => ⟨hinv, hsets⟩, fun hf => (by cases hf)⟩
    · have hfailed : awaiting (x.2 ++ [(.regCreateKey, o)] ++ [(.regSetValue (infName s) published, .fail)]) =
          awaiting x.2 := by
        rw [awaiting_append, hcreate]
        cases s <;> rfl
      have hsame := unwritten (createKey_sets x.1) hfailed
      exact ⟨hsame.accounted, fun hf => (by cases hf), fun _ => ⟨hsame, createKey_sets _⟩⟩
  · have hsame := unwritten (.refl x.1) (hcreate o)
    exact ⟨hsame.accounted, fun hf => (by cases hf), fun _ => ⟨hsame, .refl _⟩⟩

/-! ## The device takes the package -/

theorem failUpdate_staging {old : InstallState} (pendingCert : WString) (h : Staging published x)
    (hold : old.driverInf = x.1.value .driverInf) (hv : x.1.value .pendingDriverInf = []) :
    wp sturdyExec.logged Accounted (fun _ y => PackageInv y.1) (failUpdate old pendingCert published) x := by
  have hother : wp sturdyExec.logged Accounted (fun _ y => PackageInv y.1 ∧ Frame Unstaging x.1 y.1)
      (unstageOther published old.driverInf) x := by
    unfold unstageOther
    apply wp_ite
    · intro _
      apply wp_seq (unstagePackage_staging h)
      exact fun _ y hy hq => ⟨hy, hq⟩
    · intro hsame
      have heq : foldCase published = foldCase old.driverInf := by simpa using hsame
      have hinv : PackageInv x.1 := by
        refine ⟨h.proper, fun p hp => ?_⟩
        rcases h.names p hp with hs | ⟨-, hn⟩
        · exact hs
        · exact ⟨.current, by rw [← hn, heq, hold]; rfl⟩
      exact ⟨hinv.accounted, hinv, .refl _ _⟩
  apply wp_seq hother
  rintro _ y - ⟨hy, hf⟩
  apply accounted_end
  apply dropPending_packages pendingCert hy
  exact hy.spare_empty (by rw [value_frame hf]; exact hv)

theorem swapPackage_packages {old : InstallState} (cert : SigningCert) (driverDir version : WString)
    (h : PackageInv x.1) (hold : old.driverInf = x.1.value .driverInf)
    (hprevious : x.1.value .previousDriverInf = []) (hpending : x.1.value .pendingDriverInf = []) :
    wp sturdyExec.logged Accounted (fun _ y => PackageInv y.1) (swapPackage old cert driverDir version) x := by
  apply wp_seq (stagePackage_staging _ h)
  rintro r y - ⟨fy, hnone, hsome⟩
  have hvy : y.1.value = x.1.value := funext fun name => fy.value (by decide) name
  have hold : old.driverInf = y.1.value .driverInf := by rw [hvy, hold]
  have hpending : y.1.value .pendingDriverInf = [] := by rw [hvy, hpending]
  cases r with
  | none => exact accounted_end (failUpdate_packages _ (hnone rfl) hold (.inl hpending))
  | some published =>
    obtain ⟨hy, -⟩ := hsome published rfl
    have hfree : ∀ p, Staged y.1 p → infSlots y.1.value .pending = packageName p →
        foldCase published = packageName p := by
      intro p hp hn
      refine absurd ?_ (hy.proper p hp)
      rw [← hn, infSlots_apply, infName, hpending, foldCase_nil]
    apply wp_seq (writeValue_staging (s := .pending) hy hfree)
    rintro ok z - ⟨hok, hfail⟩
    refine wp_ite (fun hb => ?_) fun hb => ?_
    · obtain ⟨hz, sz⟩ := hok hb
      have hold : old.driverInf = z.1.value .driverInf := by
        rw [sz.value, Function.update_of_ne (by decide), hold]
      have hpending : infSlots z.1.value .pending = foldCase published := by
        rw [funext sz.value, infSlots_update, Function.update_self, foldCase_cStr]
      have hprevious : z.1.value .previousDriverInf = [] := by
        rw [sz.value, Function.update_of_ne (by decide), hvy, hprevious]
      apply wp_seq (wp_accounted (unstaging_run (updateDevice_effects (by decide) _) hz))
      rintro reboot u - ⟨hu, fu⟩
      rw [← value_frame fu] at hold hpending hprevious
      cases reboot with
      | none => exact accounted_end (failUpdate_packages _ hu hold (.inr hpending))
      | some reboot =>
        refine wp_ite (fun hsame => ?_) fun _ => ?_
        · apply accounted_end
          apply keepPackage_packages cert version reboot hu
          rw [hpending, (sameName_iff _ _).mp hsame, hold]
          rfl
        · exact accounted_end (promote_packages cert version reboot hu hold hprevious hpending)
    · obtain ⟨hz, sz⟩ := hfail (by simpa using hb)
      exact failUpdate_staging _ hz (by rw [sz.value, hold]) (by rw [sz.value, hpending])

/-! ## The runs -/

theorem runUpdate_packages {old : InstallState} (payloadDir version : WString) (h : PackageInv x.1)
    (hs : Reads x.1 (some old)) (hsettled : old.settled = true) :
    wp sturdyExec.logged Accounted (fun _ y => PackageInv y.1) (runUpdate old payloadDir version) x := by
  simp only [InstallState.settled, Bool.and_eq_true, List.isEmpty_iff] at hsettled
  obtain ⟨⟨⟨-, hpending⟩, -⟩, hprevious⟩ := hsettled
  have hold : old.driverInf = x.1.value .driverInf := hs .driverInf
  have hpending : x.1.value .pendingDriverInf = [] := (hs _).symm.trans hpending
  have hprevious : x.1.value .previousDriverInf = [] := (hs _).symm.trans hprevious
  apply wp_seq (wp_accounted (unstaging_run (copyPayload_effects (by decide) _ _) h))
  rintro ok y - ⟨hy, fy⟩
  rw [← value_frame fy] at hold hpending hprevious
  refine wp_ite (fun _ => ?_) fun _ => accounted_end (failUpdate_packages _ hy hold (.inl hpending))
  apply wp_seq (wp_accounted (unstaging_run (signDriver_effects (by decide) (by decide) _) hy))
  rintro cert z - ⟨hz, fz⟩
  rw [← value_frame fz] at hold hpending hprevious
  cases cert with
  | none => exact accounted_end (failUpdate_packages _ hz hold (.inl hpending))
  | some cert =>
    apply wp_seq (wp_accounted (writeValue_packages _ hz (spareInf_none noInf_pendingCertThumbprint)))
    rintro ok u - ⟨hu, su⟩
    have hvalue : ∀ name, name ≠ .pendingCertThumbprint → u.1.value name = z.1.value name := by
      intro name hn
      rw [su.value]
      cases ok with
      | true => exact Function.update_of_ne hn _ _
      | false => rfl
    rw [← hvalue _ (by decide)] at hold hpending hprevious
    refine wp_ite (fun _ => ?_) fun _ => accounted_end (failUpdate_packages _ hu hold (.inl hpending))
    apply wp_seq (wp_accounted (unstaging_run (trustIn_effects (by decide) _ _) hu))
    rintro ok v - ⟨hv, fv⟩
    rw [← value_frame fv] at hold hpending hprevious
    apply wp_ite
    · exact fun _ => swapPackage_packages cert _ version hv hold hprevious hpending
    · exact fun _ => accounted_end (failUpdate_packages _ hv hold (.inl hpending))

/-- `InstallDriver` leaves the package that it staged, or none. -/
def Installed (x : World × Log Call Outcome) (published : WString) (r : Option (WString × Bool))
    (y : World × Log Call Outcome) : Prop :=
  (r = none → PackageInv y.1) ∧ ∀ s, r = some s → s.1 = published ∧ Staging published y ∧ Aside x y

theorem dropPackage_packages (h : Staging published y) :
    wp sturdyExec.logged Accounted (Installed x published) (dropPackage published) y := by
  apply wp_seq (unstagePackage_staging h)
  rintro _ z hz ⟨hinv, -⟩
  exact ⟨hz, fun _ => hinv, fun _ hr => (by cases hr)⟩

theorem installPackage_packages (inf : WString) (h : Staging published x) :
    wp sturdyExec.logged Accounted (Installed x published) (installPackage inf published) x := by
  have hclass : Effects Elsewhere (attempt (.setupDiGetINFClass inf)) := by
    simp [attempt, Prog.perform, Call.effect]
  apply wp_seq (staging_run hclass h)
  rintro _ y - ⟨hy, fy⟩
  refine wp_ite (fun _ => ?_) fun _ => dropPackage_packages hy
  have hlist : Effects Elsewhere (attempt .setupDiCreateDeviceInfoList) := by
    simp [attempt, Prog.perform, Call.effect]
  apply wp_seq (staging_run hlist hy)
  rintro _ z - ⟨hz, fz⟩
  refine wp_ite (fun _ => ?_) fun _ => dropPackage_packages hz
  apply wp_seq (staging_run (registerDevice_effects (by decide)) hz)
  rintro id u - ⟨hu, fu⟩
  cases id with
  | none => exact dropPackage_packages hu
  | some id =>
    refine ⟨hu.accounted, fun o r v he => ?_⟩
    obtain ⟨hv, fv⟩ := elsewhere_staging hu (fun e he => by cases he; decide) he
    cases r with
    | none =>
      refine ⟨hv.accounted, fun o r v' he => ?_⟩
      obtain ⟨hv', -⟩ := elsewhere_staging hv (fun e he => by cases he; decide) he
      exact dropPackage_packages hv'
    | some reboot =>
      refine ⟨hv.accounted, fun o r v' he => ?_⟩
      obtain ⟨hv', fv'⟩ := elsewhere_staging hv (by simp [Call.effect]) he
      refine ⟨hv'.accounted, fun hr => (by cases hr), ?_⟩
      rintro _ ⟨⟩
      exact ⟨rfl, hv', (((fy.trans fz).trans fu).trans fv).trans fv'⟩

theorem unstaged_run {α : Type} {w : World} {p : Flow α} (hp : Effects (fun e => e ≠ .stage) p)
    (h : ∀ p, ¬ Staged w p) : wp sturdyExec PackageInv (fun _ w' => ∀ p, ¬ Staged w' p) p w := by
  have hnone : ∀ {w'}, Frame (fun e => e ≠ .stage) w w' → ∀ p, ¬ Staged w' p := fun hf p hp =>
    h p ⟨hf.unstages (by decide) hp.1, hp.2⟩
  exact wp_mono (fun _ hf => .of_none (hnone hf)) (fun _ _ _ hf => hnone hf)
    (wp_sub sturdyExec_sub (wp_effects hp w))

theorem installNode_packages (driverDir version : WString) (h : ∀ p, ¬ Staged x.1 p) :
    wp sturdyExec.logged Accounted (fun _ y => PackageInv y.1) (installNode driverDir version) x := by
  have hinstall : wp sturdyExec.logged Accounted
      (fun r y => (r = none → PackageInv y.1) ∧ ∀ s, r = some s → Staging s.1 y ∧
        ∀ p, Staged y.1 p → foldCase s.1 = packageName p)
      (installDriver (infPath driverDir)) x := by
    apply wp_seq (wp_accounted (unstaged_run (removeDevices_effects (by decide)) h))
    rintro _ y - ⟨hy, hnone⟩
    apply wp_seq (stagePackage_staging _ hy)
    rintro r z hz ⟨-, hfailed, hstaged⟩
    cases r with
    | none => exact ⟨hz, fun _ => hfailed rfl, fun _ hr => (by cases hr)⟩
    | some published =>
      obtain ⟨hst, honly⟩ := hstaged published rfl
      apply wp_post _ (installPackage_packages (infPath driverDir) hst)
      rintro r u - ⟨hdropped, hkept⟩
      refine ⟨hdropped, fun s hr => ?_⟩
      obtain ⟨hname, hu, fu⟩ := hkept s hr
      rw [hname]
      refine ⟨hu, fun p hp => (honly p ?_).resolve_left (hnone p)⟩
      exact staged_frame (Frame.mono (fun e he => ⟨he.1, he.2.1⟩) fu) hp
  apply wp_seq hinstall
  rintro r y - ⟨hnone, hsome⟩
  cases r with
  | none => exact accounted_end (failInstall_packages (hnone rfl))
  | some installed =>
    obtain ⟨published, reboot⟩ := installed
    obtain ⟨hy, honly⟩ := hsome _ rfl
    apply wp_seq (writeValue_staging (s := .current) hy fun p hp _ => honly p hp)
    rintro ok z - ⟨hok, hfail⟩
    refine wp_ite (fun hb => ?_) fun hb => ?_
    · exact accounted_end (finish_packages version _ failInstall (hok hb).1 failInstall_packages)
    · obtain ⟨hz, -⟩ := hfail (by simpa using hb)
      have huninstall : wp sturdyExec.logged Accounted (fun _ y => PackageInv y.1)
          (uninstallDriver published) z := by
        apply wp_seq (staging_run (removeDevices_effects (by decide)) hz)
        rintro _ u - ⟨hu, -⟩
        apply wp_seq (unstagePackage_staging hu)
        exact fun _ v hv hq => ⟨hv, hq.1⟩
      apply wp_seq huninstall
      exact fun _ u _ hu => accounted_end (failInstall_packages hu)

theorem installFresh_packages (payloadDir dir version : WString) (h : ∀ p, ¬ Staged x.1 p) :
    wp sturdyExec.logged Accounted (fun _ y => PackageInv y.1) (installFresh payloadDir dir version) x := by
  have failed : ∀ {y : World × Log Call Outcome}, (∀ p, ¬ Staged y.1 p) →
      wp sturdyExec.logged Accounted (fun _ z => PackageInv z.1) failInstall y := fun hy =>
    accounted_end (failInstall_packages (.of_none hy))
  apply wp_seq (wp_accounted (unstaged_run (writeValue_effects (by decide) _ _) h))
  rintro _ y - ⟨-, hy⟩
  refine wp_ite (fun _ => ?_) fun _ => failed hy
  apply wp_seq (wp_accounted (unstaged_run (copyPayload_effects (by decide) _ _) hy))
  rintro _ z - ⟨-, hz⟩
  refine wp_ite (fun _ => ?_) fun _ => failed hz
  apply wp_seq (wp_accounted (unstaged_run (signDriver_effects (by decide) (by decide) _) hz))
  rintro cert u - ⟨-, hu⟩
  cases cert with
  | none => exact failed hu
  | some cert =>
    apply wp_seq (wp_accounted (unstaged_run (writeValue_effects (by decide) _ _) hu))
    rintro _ v - ⟨-, hv⟩
    refine wp_ite (fun _ => ?_) fun _ => failed hv
    apply wp_seq (wp_accounted (unstaged_run (trustIn_effects (by decide) _ _) hv))
    rintro _ t - ⟨-, ht⟩
    exact wp_ite (fun _ => installNode_packages _ version ht) fun _ => failed ht

theorem runInstall_packages (payloadDir version : WString) (h : PackageInv x.1) :
    wp sturdyExec.logged Accounted (fun _ y => PackageInv y.1) (runInstall payloadDir version) x := by
  apply wp_seq (wp_accounted (retireFirst_packages h))
  rintro state y - ⟨hy, hs⟩
  apply wp_seq (wp_accounted (unstaging_run defaultInstallDir_effects hy))
  rintro dir z - ⟨hz, fz⟩
  have hs := hs.frame fz (by decide)
  have hmode : wp sturdyExec PackageInv (fun mode w' => w' = z.1 ∧ Chosen state dir mode)
      (installMode state dir) z.1 := by
    apply wp_mono _ _ (wp_sub sturdyExec_sub (installMode_spec state dir z.1))
    · intro _ hf
      rw [hf.eq]
      exact hz
    · exact fun _ _ _ hf => ⟨hf.1.eq, hf.2⟩
  apply wp_seq (wp_accounted hmode)
  rintro mode u - ⟨hu, heq, hchosen⟩
  have hs : Reads u.1 state := heq ▸ hs
  split
  · exact runUpdate_packages payloadDir version hu hs hchosen.updated.2.1
  · apply wp_seq (wp_accounted (runUninstall_packages hu))
    rintro _ v - ⟨-, hnone⟩
    exact installFresh_packages payloadDir dir version hnone
  · next m st hreinstall hupdate =>
    obtain rfl := hchosen.none_of_rest hreinstall hupdate
    exact installFresh_packages payloadDir dir version (hu.none_of_unrecorded hs)

end

/-! ## Histories -/

/-- No run is killed while a package that it staged waits for its name to be recorded. -/
def RecordsFirst (_ : Event) (_ y : World × Log Call Outcome) : Prop := awaiting y.2 = false

theorem Clean.packageInv {w : World} (h : Clean w) : PackageInv w :=
  .of_none fun p hp => by
    obtain ⟨hmem, hours⟩ := hp
    rw [h.packages p hmem] at hours
    cases hours

theorem handler_packages {x y : World × Log Call Outcome} {event : Event} (h : PackageInv x.1)
    (ha : sturdySetup.logged.arrive event x = some y) :
    wp sturdyExec.logged Accounted (fun _ z => PackageInv z.1) (handler event) y := by
  obtain ⟨w, hw, rfl⟩ := Option.map_eq_some_iff.mp ha
  cases event with
  | install payloadDir version =>
    obtain rfl := Option.some.inj hw
    exact runInstall_packages payloadDir version h
  | uninstall =>
    obtain rfl := Option.some.inj hw
    exact accounted_end (wp_post (fun _ _ _ _ => trivial) (runUninstall_packages h))
  | meanwhile machine =>
    obtain rfl := Option.some.inj hw
    have hinv : PackageInv { x.1 with machine := machine } := ⟨h.proper, h.names⟩
    exact ⟨hinv.accounted, hinv⟩

theorem instant_accounted {w₀ : World} {x : World × Log Call Outcome} (h₀ : Clean w₀)
    (hx : Instant sturdySetup.logged Always RecordsFirst (w₀, []) x) : Accounted x := by
  have hinv : PackageInv w₀ := h₀.packageInv
  refine Instant.inv (J := fun y => PackageInv y.1) hx hinv (fun event y z hy ha => ?_) fun _ _ y hy hk => hy hk
  exact wp_post (fun _ _ _ hz _ => hz) (handler_packages hy ha)

/-- As long as no run is killed while a package waits for its name to be recorded, every package that
setup has staged is recorded wherever none waits, and an uninstall from there leaves none. -/
theorem packages_recorded {w₀ : World} {x : World × Log Call Outcome} (h₀ : Clean w₀)
    (hx : Instant sturdySetup.logged Always RecordsFirst (w₀, []) x) (hw : awaiting x.2 = false) :
    PackagesRecorded x.1 ∧
      ∀ w' a, Steps sturdySetup.exec runUninstall x.1 (.ret a) w' → ∀ p ∈ w'.packages, p.ours = false := by
  have hinv : PackageInv x.1 := instant_accounted h₀ hx hw
  refine ⟨hinv.recorded, fun w' a hs p hp => ?_⟩
  have hnone := hs.post (runUninstall_packages hinv)
  by_contra hours
  exact hnone p ⟨hp, by simpa using hours⟩

/-- A package of setup's is staged, and none waits. -/
def holdsPackage (x : World × Log Call Outcome) : Bool :=
  (x.1.packages.any fun p => p.ours) && !awaiting x.2

theorem packages_recorded_installed :
    ∃ x, Instant sturdySetup.logged Always RecordsFirst (newPc, []) x ∧ (∃ p, Staged x.1 p) ∧
      PackagesRecorded x.1 ∧
      ∀ w' a, Steps sturdySetup.exec runUninstall x.1 (.ret a) w' → ∀ p ∈ w'.packages, p.ours = false := by
  obtain ⟨x, hi, hc⟩ := Instant.of_play (S := sturdySetup.logged) (.install releaseDir (wide "1"))
    (succeed (sha1Of 1) (wide "oem1.inf")) (fun _ => false) holdsPackage
    (Rest.init : Rest _ Always RecordsFirst (newPc, []) _) rfl (by decide +kernel)
  rw [holdsPackage, Bool.and_eq_true, List.any_eq_true, Bool.not_eq_true'] at hc
  obtain ⟨⟨p, hp⟩, hw⟩ := hc
  exact ⟨x, hi, ⟨p, hp⟩, packages_recorded newPc_clean hi hw⟩

/-- Where the driver store has just taken the package. -/
def justStaged : Call → Bool
  | .attempt (.setupDiGetINFClass _) => true
  | _ => false

/-- Setup's package is there, and an uninstall leaves it there. -/
def outlivesUninstall (w : World) : Bool :=
  runUninstall.endsWith sturdyExec (succeed (sha1Of 1) []) (fun _ w' => w'.packages.any fun p => p.ours) w

/-- A first install that is killed before it can record the name of its package leaves it for good. -/
theorem package_forgotten :
    Clean newPc ∧ ∃ w, Instant sturdySetup Always Always newPc w ∧ ¬ PackagesRecorded w ∧
      ∃ w' a, Steps sturdySetup.exec runUninstall w (.ret a) w' ∧ ∃ p ∈ w'.packages, p.ours = true := by
  obtain ⟨w, hi, hc⟩ := Instant.of_play (S := sturdySetup) (.install releaseDir (wide "1"))
    (succeed (sha1Of 1) (wide "oem1.inf")) justStaged
    (fun w => outlivesUninstall w && w.packages.any fun p => p.ours && [Slot.current, .pending, .previous].all
      fun s => !sameName (w.value (infName s)) p.published)
    (Rest.init : Rest _ Always Always newPc _) rfl (by decide +kernel)
  rw [Bool.and_eq_true, List.any_eq_true] at hc
  obtain ⟨hleft, p, hp, hunnamed⟩ := hc
  rw [Bool.and_eq_true, List.all_eq_true] at hunnamed
  obtain ⟨a, w', hs, hend⟩ := Prog.endsWith_steps hleft
  obtain ⟨q, hq, hours⟩ := List.any_eq_true.mp hend
  refine ⟨newPc_clean, w, hi, fun hr => ?_, w', a, hs, q, hq, hours⟩
  obtain ⟨s, hn⟩ := hr p ⟨hp, hunnamed.1⟩
  exact not_sameName (hunnamed.2 s (by cases s <;> simp)) hn

end VirtualGun.Setup
