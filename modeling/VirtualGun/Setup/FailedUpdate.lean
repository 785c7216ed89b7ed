import VirtualGun.Setup.Uninstall

/-!
# A failed update

`FailUpdate` drops the pending certificate and the pending package, and leaves the recorded install
as it was. The package it unstages is not the recorded one, even where the driver store handed that
one back.
-/

open VirtualGun.Program

namespace VirtualGun.Setup

/-! ## Steps that only add -/

/-- `w'` has what `w` has, and may have more certificates, packages, keys and files. -/
structure Grows (w w' : World) : Prop where
  value : w'.value = w.value
  stores : ∀ s, w.stores s ⊆ w'.stores s
  packages : w.packages ⊆ w'.packages
  devices : SameDevices w w'

abbrev Adding : Effect → Prop := fun e => e ≠ .registry ∧ e ≠ .untrust ∧ e ≠ .unstage ∧ e ≠ .devices

section
variable {u v w w' : World}

theorem Grows.refl (w : World) : Grows w w :=
  ⟨rfl, fun _ => List.Subset.refl _, List.Subset.refl _, rfl⟩

theorem Grows.trans (h : Grows u v) (h' : Grows v w) : Grows u w :=
  ⟨h'.value.trans h.value, fun s => List.Subset.trans (h.stores s) (h'.stores s),
    List.Subset.trans h.packages h'.packages, h.devices.trans h'.devices⟩

theorem subset_trusted (store s : StoreName) (c : Certificate) :
    w.stores s ⊆ (w.setStore store (c :: (w.stores store).erase c)).stores s := by
  intro c' hc'
  by_cases hs : s = store
  · subst hs
    by_cases hc : c' = c
    · simp [World.setStore, hc]
    · simpa [World.setStore, hc] using (List.mem_erase_of_ne hc).mpr hc'
  · simpa [World.setStore, hs] using hc'

theorem grows_step {c : Call} {o : Outcome} {r : c.Resp} (he : exec c o w = some (r, w'))
    (hc : ∀ e, c.effect = some e → Adding e) : Grows w w' := by
  have hn : ∀ e, ¬ Adding e → c.effect ≠ some e := fun e he hx => he (hc e hx)
  have hf := exec_frame he
  have hdevices := exec_devices he (hn .devices (by decide))
  have hvalue : w'.value = w.value := funext fun n => hf.value (hn .registry (by decide)) n
  by_cases ht : c.effect = some .trust
  · have hpackages := hf.packages (by simp [ht]) (hn .unstage (by decide))
    cases c with
    | certAddEncodedCertificateToStore store encoded =>
      obtain ⟨-, -, rfl⟩ | ⟨-, -, rfl⟩ := tried_eq_some.mp he
      · exact ⟨hvalue, fun s => subset_trusted store s encoded, List.Subset.refl _, hdevices⟩
      · exact .refl _
    | _ => simp [Call.effect] at ht
  · have hstores := hf.stores ht (hn .untrust (by decide))
    by_cases hs : c.effect = some .stage
    · cases c with
      | setupCopyOEMInf inf =>
        obtain ⟨-, -, rfl⟩ | ⟨_, _, -, -, -, -, -, rfl⟩ | ⟨_, _, _, -, -, -, -, -, -, rfl⟩ :=
          copyOEMInf_eq_some.mp he
        · exact .refl _
        · exact ⟨hvalue, fun s => List.Subset.refl _, List.subset_append_left _ _, hdevices⟩
        · exact .refl _
      | _ => simp [Call.effect] at hs
    · have hpackages := hf.packages hs (hn .unstage (by decide))
      exact ⟨hvalue, fun s => by rw [hstores]; exact List.Subset.refl _,
        by rw [hpackages]; exact List.Subset.refl _, hdevices⟩

theorem wp_grows {α : Type} {E : Exec Call Call.Resp Outcome World} (hE : E.Sub exec) {p : Flow α}
    (hp : Effects Adding p) (w : World) : wp E (fun _ => True) (fun _ => Grows w) p w := by
  have h : wp exec (fun w' => True ∧ Grows w w') (fun _ _ => True) p w := by
    refine wp_frame Grows.refl Grows.trans (fun _ hc he => ?_) trivial hp
    exact ⟨trivial, trivial, grows_step he hc⟩
  exact wp_mono (fun _ _ => trivial) (fun _ _ hw _ => hw.2) (wp_sub hE h)

end

/-! ## The recorded install -/

/-- The install that `w₀` records is there in `w`, and the state key is as it was but for the values
`but`. -/
structure KeepsInstall (but : ValueName → Prop) (w₀ w : World) : Prop where
  value : ∀ name, ¬ but name → w.value name = w₀.value name
  trusted : ∀ store, ∀ c ∈ w₀.stores store, thumbprintOf c = w₀.value .certThumbprint → c ∈ w.stores store
  staged : ∀ p ∈ w₀.packages, sameName p.published (w₀.value .driverInf) → p ∈ w.packages
  devices : SameDevices w₀ w

/-- The values that an update writes before the device takes the package. -/
abbrev IsPending : ValueName → Prop := fun n => n = .pendingCertThumbprint ∨ n = .pendingDriverInf

/-- `DeleteValue` succeeds. -/
def deletesValues : Call → Outcome → Bool
  | .regDeleteKeyValue _, o => o ≠ .fail
  | _, _ => true

/-- A new certificate has another thumbprint. -/
def otherThumbprint (thumbprint : WString) : Call → Outcome → World → Bool
  | .certCreateSelfSignCertificate _, .certificate hash, _ => hexUpper hash.bytes != thumbprint
  | _, _, _ => true

/-- The OS calls of an update over an install with the thumbprint. -/
abbrev updatingExec (thumbprint : WString) : Exec Call Call.Resp Outcome World :=
  (exec.only deletesValues).within (otherThumbprint thumbprint)

theorem updatingExec_eq_some {thumbprint : WString} {c : Call} {o : Outcome} {w : World}
    {x : c.Resp × World} :
    updatingExec thumbprint c o w = some x ↔
      otherThumbprint thumbprint c o w = true ∧ deletesValues c o = true ∧ exec c o w = some x := by
  rw [updatingExec, Exec.within_eq_some, Exec.only_eq_some]

theorem updatingExec_sub (thumbprint : WString) : (updatingExec thumbprint).Sub exec :=
  fun _ _ _ _ h => (updatingExec_eq_some.mp h).2.2

section
variable {but : ValueName → Prop} {w₀ w w' : World} {old : InstallState}

theorem KeepsInstall.refl (but : ValueName → Prop) (w : World) : KeepsInstall but w w :=
  ⟨fun _ _ => rfl, fun _ _ hc _ => hc, fun _ hp _ => hp, rfl⟩

theorem KeepsInstall.grows (h : KeepsInstall but w₀ w) (hg : Grows w w') : KeepsInstall but w₀ w' where
  value n hn := by rw [hg.value, h.value n hn]
  trusted s c hc ht := hg.stores s (h.trusted s c hc ht)
  staged p hp hn := hg.packages (h.staged p hp hn)
  devices := h.devices.trans hg.devices

theorem KeepsInstall.sets {values : ValueName → WString} (h : KeepsInstall but w₀ w)
    (hs : Sets w values w') {but' : ValueName → Prop}
    (hv : ∀ name, ¬ but' name → values name = w₀.value name) : KeepsInstall but' w₀ w' where
  value n hn := (hs.value n).trans (hv n hn)
  trusted s c hc ht := by rw [hs.stores]; exact h.trusted s c hc ht
  staged p hp hn := by rw [hs.packages]; exact h.staged p hp hn
  devices := h.devices.trans (by rw [SameDevices, hs.machine])

theorem writePending_keeps {name : ValueName} (hn : IsPending name) (v : WString)
    (h : KeepsInstall IsPending w₀ w) :
    wp (updatingExec (w₀.value .certThumbprint)) (fun _ => True)
      (fun _ => KeepsInstall IsPending w₀) (writeValue name v) w := by
  refine wp_mono (fun _ _ => trivial) (fun ok w' _ hs => ?_)
    (writeValue_spec (updatingExec_sub _) name v)
  refine h.sets hs fun n hne => ?_
  cases ok with
  | false => exact h.value n hne
  | true =>
    have hother : n ≠ name := by
      rintro rfl
      exact hne hn
    exact (Function.update_of_ne hother _ _).trans (h.value n hne)

/-- `DeleteValue` puts a value back that was not there. -/
theorem deleteValue_keeps {name : ValueName} (hempty : w₀.value name = [])
    {but' : ValueName → Prop} (hbut : ∀ n, n ≠ name → ¬ but' n → ¬ but n)
    (h : KeepsInstall but w₀ w) :
    wp (updatingExec (w₀.value .certThumbprint)) (fun _ => True)
      (fun _ => KeepsInstall but' w₀) (deleteValue name) w := by
  refine ⟨trivial, fun o r w' he => ?_⟩
  obtain ⟨-, hdel, hx⟩ := updatingExec_eq_some.mp he
  obtain ⟨-, -, rfl⟩ | ⟨rfl, -, -⟩ := tried_eq_some.mp hx
  · refine ⟨trivial, h.sets (deleteValue_sets w name) fun n hn => ?_⟩
    by_cases he : n = name
    · rw [he, Function.update_self, hempty]
    · rw [Function.update_of_ne he, h.value n (hbut n he hn)]
  · simp [deletesValues] at hdel

/-- Neither the recorded certificate nor the recorded package goes with what `FailUpdate` drops. -/
theorem removeOther_keeps {thumbprint : WString} (h : KeepsInstall but w₀ w)
    (ht : thumbprint = [] ∨ ∃ c, thumbprint = thumbprintOf c ∧ thumbprint ≠ w₀.value .certThumbprint) :
    wp (updatingExec (w₀.value .certThumbprint)) (fun _ => True)
      (fun _ => KeepsInstall but w₀) (removeTrustedCertificate thumbprint) w := by
  rcases ht with rfl | ⟨c, rfl, hne⟩
  · exact ⟨trivial, h⟩
  have hbytes : hashBytes 20 (thumbprintOf c) = some c.hash.bytes := by
    rw [thumbprintOf, ← c.hash.length_eq, hashBytes_hexUpper]
  have heff : Effects (· = .untrust) (removeTrustedCertificate (thumbprintOf c)) :=
    removeTrustedCertificate_effects (by rfl) _
  refine wp_mono (fun _ _ => trivial) (fun _ w' _ hq => ?_) (wp_sub (updatingExec_sub _)
    (wp_and (removeTrustedCertificate_others hbytes w)
      (wp_and (wp_effects heff w) (wp_devices heff (by decide) w))))
  obtain ⟨hothers, hf, hdevices⟩ := hq
  refine ⟨fun n hn => ?_, fun s c' hc' ht => ?_, fun p hp hn => ?_, h.devices.trans hdevices⟩
  · rw [hf.value (by decide), h.value n hn]
  · refine hothers s c' (h.trusted s c' hc' ht) fun e => hne ?_
    rw [← ht, thumbprintOf, thumbprintOf, e]
  · rw [hf.packages (by decide) (by decide)]
    exact h.staged p hp hn

theorem unstageOther_keeps (inf : WString) (hold : old.driverInf = w₀.value .driverInf)
    (h : KeepsInstall but w₀ w) :
    wp (updatingExec (w₀.value .certThumbprint)) (fun _ => True)
      (fun _ => KeepsInstall but w₀) (unstageOther inf old.driverInf) w := by
  refine wp_ite (fun hne => ?_) fun _ => ⟨trivial, h⟩
  have heff : Effects (· = .unstage) (unstagePackage inf) := unstagePackage_effects (by rfl) _
  have hspec := wp_sub (updatingExec_sub (w₀.value .certThumbprint))
    (wp_and (unstagePackage_others inf w) (wp_and (wp_effects heff w) (wp_devices heff (by decide) w)))
  refine wp_seq_of (fun _ _ => trivial) hspec fun _ w' hq _ => ⟨trivial, ?_⟩
  obtain ⟨hothers, hf, hdevices⟩ := hq
  refine ⟨fun n hn => ?_, fun s c hc ht => ?_, fun p hp hn => ?_, h.devices.trans hdevices⟩
  · rw [hf.value (by decide), h.value n hn]
  · rw [hf.stores (by decide) (by decide)]
    exact h.trusted s c hc ht
  · refine hothers p (h.staged p hp hn) fun e => ?_
    rw [sameName_iff] at e hn
    have hsame : sameName inf old.driverInf = true := by rw [sameName_iff, hold, ← e, hn]
    simp [hsame] at hne

/-- `FailUpdate` puts the state key back, and keeps what it records. -/
theorem failUpdate_keeps {cert : WString} (inf : WString) (h : KeepsInstall IsPending w₀ w)
    (hold : old.driverInf = w₀.value .driverInf) (hempty : ∀ name, IsPending name → w₀.value name = [])
    (hc : cert = [] ∨ ∃ c, cert = thumbprintOf c ∧ cert ≠ w₀.value .certThumbprint) :
    wp (updatingExec (w₀.value .certThumbprint)) (fun _ => True)
      (fun code w' => code = 1 ∧ KeepsInstall (fun _ => False) w₀ w') (failUpdate old cert inf) w := by
  refine wp_seq (unstageOther_keeps inf hold h) fun _ u _ hu => ?_
  refine wp_seq (removeOther_keeps hu hc) fun _ v _ hv => ?_
  have hinf : ∀ n, n ≠ .pendingDriverInf → ¬ n = .pendingCertThumbprint → ¬ IsPending n :=
    fun n hn hn' hp => hp.elim hn' hn
  refine wp_seq (deleteValue_keeps (hempty _ (.inr rfl)) hinf hv) fun _ x _ hx => ?_
  have hcert : ∀ n : ValueName, n ≠ .pendingCertThumbprint → ¬ False → ¬ n = .pendingCertThumbprint :=
    fun _ hn _ => hn
  refine wp_seq (deleteValue_keeps (hempty _ (.inl rfl)) hcert hx) fun _ y _ hy => ?_
  exact ⟨trivial, rfl, hy⟩

end

theorem signDriver_other (thumbprint driverDir : WString) (w : World) :
    wp (updatingExec thumbprint) (fun _ => True)
      (fun r _ => Generated (fun c => thumbprintOf c ≠ thumbprint) r) (signDriver driverDir) w := by
  refine wp_ends (signDriver_ends ?_ driverDir) w
  rintro key c ⟨o, u, u', he⟩
  obtain ⟨hother, -, hx⟩ := updatingExec_eq_some.mp he
  cases o <;> simp [exec] at hx
  obtain ⟨rfl, -⟩ := hx
  simpa [otherThumbprint, thumbprintOf] using hother

/-! ## The update -/

def takesPackage : Call × Outcome → Bool
  | (.updateDriverForPlugAndPlayDevices _ _, .reboot _) => true
  | _ => false

/-- The device took the new package. -/
def Updated (l : Log Call Outcome) : Prop := l.any takesPackage = true

section
variable {w₀ : World} {old : InstallState} {x : World × Log Call Outcome}

/-- What `RunUpdate` leaves if the device did not take the package. -/
def Undone (w₀ : World) (code : ℕ) (x : World × Log Call Outcome) : Prop :=
  ¬ Updated x.2 → code = 1 ∧ KeepsInstall (fun _ => False) w₀ x.1

theorem undone_of_updated {p : Flow ℕ} (h : Updated x.2) :
    wp (updatingExec (w₀.value .certThumbprint)).logged (fun _ => True) (Undone w₀) p x := by
  refine wp_post (fun _ y _ hy hn => absurd ?_ hn) (wp_log (wp_true p x.1))
  obtain ⟨e, he, ht⟩ := List.any_eq_true.mp h
  exact List.any_eq_true.mpr ⟨e, hy.2.subset he, ht⟩

theorem failUpdate_undone {cert : WString} (inf : WString) (h : KeepsInstall IsPending w₀ x.1)
    (hold : old.driverInf = w₀.value .driverInf) (hempty : ∀ name, IsPending name → w₀.value name = [])
    (hc : cert = [] ∨ ∃ c, cert = thumbprintOf c ∧ cert ≠ w₀.value .certThumbprint) :
    wp (updatingExec (w₀.value .certThumbprint)).logged (fun _ => True) (Undone w₀)
      (failUpdate old cert inf) x :=
  wp_post (fun _ _ _ hy _ => hy.1) (wp_log (failUpdate_keeps inf h hold hempty hc))

theorem swapPackage_undone {cert : SigningCert} (driverDir version : WString)
    (h : KeepsInstall IsPending w₀ x.1) (hold : old.driverInf = w₀.value .driverInf)
    (hempty : ∀ name, IsPending name → w₀.value name = [])
    (hc : ∃ c, cert.thumbprint = thumbprintOf c ∧ cert.thumbprint ≠ w₀.value .certThumbprint) :
    wp (updatingExec (w₀.value .certThumbprint)).logged (fun _ => True) (Undone w₀)
      (swapPackage old cert driverDir version) x := by
  have hstage := wp_grows (updatingExec_sub (w₀.value .certThumbprint))
    (stagePackage_effects (by decide) (infPath driverDir)) x.1
  refine wp_seq (wp_log hstage) ?_
  rintro (_ | published) y - ⟨hy, -⟩
  · exact failUpdate_undone _ (h.grows hy) hold hempty (.inr hc)
  refine wp_seq (wp_log (writePending_keeps (.inr rfl) published (h.grows hy))) fun ok z _ hz => ?_
  refine wp_ite (fun _ => ?_) fun _ => failUpdate_undone _ hz.1 hold hempty (.inr hc)
  simp only [updateDevice, perform, Prog.perform_bind]
  refine ⟨trivial, fun o r v he => ?_⟩
  obtain ⟨v', hv, rfl⟩ := Exec.logged_eq_some.mp he
  have hx := updatingExec_sub _ _ _ _ _ hv
  simp only [exec] at hx
  split at hx
  · simp only [Option.some.injEq, Prod.mk.injEq] at hx
    obtain ⟨rfl, -⟩ := hx
    exact undone_of_updated (by simp [Updated, takesPackage])
  · simp only [Option.some.injEq, Prod.mk.injEq] at hx
    obtain ⟨rfl, rfl⟩ := hx
    exact failUpdate_undone _ hz.1 hold hempty (.inr hc)
  · cases hx

theorem runUpdate_undone (payloadDir version : WString) (h : KeepsInstall IsPending w₀ x.1)
    (hold : old.driverInf = w₀.value .driverInf)
    (hempty : ∀ name, IsPending name → w₀.value name = []) :
    wp (updatingExec (w₀.value .certThumbprint)).logged (fun _ => True) (Undone w₀)
      (runUpdate old payloadDir version) x := by
  have hsub := updatingExec_sub (w₀.value .certThumbprint)
  have hfail : ∀ {y : World × Log Call Outcome}, KeepsInstall IsPending w₀ y.1 →
      wp (updatingExec (w₀.value .certThumbprint)).logged (fun _ => True) (Undone w₀)
        (failUpdate old [] []) y := fun hy => failUpdate_undone _ hy hold hempty (.inl rfl)
  refine wp_seq (wp_log (wp_grows hsub (copyPayload_effects (by decide) _ _) x.1)) fun ok y _ hy => ?_
  refine wp_ite (fun _ => ?_) fun _ => hfail (h.grows hy.1)
  have hy := h.grows hy.1
  have hsign := wp_and (wp_grows hsub (signDriver_effects (by decide) (by decide) _) y.1)
    (signDriver_other (w₀.value .certThumbprint) (old.installDir ++ wide "\\driver") y.1)
  refine wp_seq (wp_log hsign) ?_
  rintro (_ | cert) z - ⟨⟨hz, hgenerated⟩, -⟩ <;> have hz := hy.grows hz
  · exact hfail hz
  obtain ⟨c, he, ht, hne⟩ := hgenerated cert rfl
  have hcert : ∃ c, cert.thumbprint = thumbprintOf c ∧ cert.thumbprint ≠ w₀.value .certThumbprint :=
    ⟨c, ht, ht ▸ hne⟩
  refine wp_seq (wp_log (writePending_keeps (.inl rfl) cert.thumbprint hz)) fun ok u _ hu => ?_
  refine wp_ite (fun _ => ?_) fun _ => hfail hu.1
  refine wp_seq (wp_log (wp_grows hsub (trustIn_effects (by decide) cert.encoded storeNames) u.1))
    fun ok v _ hv => ?_
  have hv := hu.1.grows hv.1
  exact wp_ite (fun _ => swapPackage_undone _ version hv hold hempty hcert) fun _ =>
    failUpdate_undone _ hv hold hempty (.inr hcert)

/-- An update that fails before the device takes the package returns 1, and leaves the state key, the
recorded certificate and package and the device nodes as they were. -/
theorem failed_update_undone {w w' : World} {devices presentDevices code : ℕ}
    {payloadDir version : WString} {l : Log Call Outcome} (hs : Reads w (some old))
    (hmode : chooseInstallMode (some old) devices presentDevices = .update)
    (hrun : Steps (updatingExec (w.value .certThumbprint)).logged (runUpdate old payloadDir version)
      (w, []) (.ret code) (w', l)) (hfail : ¬ Updated l) :
    code = 1 ∧ KeepsInstall (fun _ => False) w w' := by
  have hsettled : old.settled = true := by
    cases hset : old.settled with
    | true => rfl
    | false => simp [chooseInstallMode, hset] at hmode
  simp only [InstallState.settled, Bool.and_eq_true, List.isEmpty_iff] at hsettled
  have hempty : ∀ name, IsPending name → w.value name = [] := by
    rintro name (rfl | rfl)
    · exact (hs _).symm.trans hsettled.1.1.1
    · exact (hs _).symm.trans hsettled.1.1.2
  exact hrun.post (runUpdate_undone payloadDir version (.refl IsPending w) (hs .driverInf) hempty) hfail

end

/-- The device does not take the package. -/
def refuseDevice (hash : Sha1) (published : WString) : Call → Outcome
  | .updateDriverForPlugAndPlayDevices _ _ => .fail
  | c => succeed hash published c

theorem failed_update_undone_refused :
    ∃ w w' l, Rest setup Always Always newPcWithUpdate w ∧
      Steps (updatingExec (w.value .certThumbprint)).logged
        (runUpdate w.state nextReleaseDir (wide "2")) (w, []) (.ret 1) (w', l) ∧
      KeepsInstall (fun _ => False) w w' := by
  have hplay : ((setup.playUntil firstInstall newPcWithUpdate).any fun w =>
      chooseInstallMode (some w.state) 1 1 == .update &&
        (runUpdate w.state nextReleaseDir (wide "2")).endsWith
          (updatingExec (w.value .certThumbprint)).logged (refuseDevice (sha1Of 2) (wide "oem2.inf"))
          (fun _ x => !x.2.any takesPackage) (w, [])) = true := by decide +kernel
  obtain ⟨w, hw, hc⟩ := (Option.any_eq_true _ _).mp hplay
  simp only [Bool.and_eq_true, beq_iff_eq] at hc
  obtain ⟨code, ⟨w', l⟩, hs, hend⟩ := Prog.endsWith_steps hc.2
  have hfail : ¬ Updated l := by simpa [Updated] using hend
  obtain ⟨rfl, hkeeps⟩ := failed_update_undone (reads_state w) hc.1 hs hfail
  exact ⟨w, w', l, Rest.playUntil .init hw fun _ _ _ => trivial, hs, hkeeps⟩

end VirtualGun.Setup
