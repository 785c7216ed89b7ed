import VirtualGun.Setup.Removal
import VirtualGun.Setup.FailedUpdate

/-!
# A failed first install

`Fail` runs `RunUninstall`, which removes what the state key names. Each step of an install is
recorded before it is made, but the staging of the package: that one `InstallDriver` undoes itself,
or `RunInstall` does.
-/

open VirtualGun.Program

namespace VirtualGun.Setup

section
variable {env : Outcome} {w : World}

/-! ## The steps of an install -/

/-- Of an install in `dir`, the directory and the certificate are recorded. -/
structure Placed (dir : WString) (w : World) : Prop where
  dir : w.value .installDir = dir
  cert : ∀ c, Trusted w c → w.value .certThumbprint = thumbprintOf c

/-- Setup staged no package but the one with the name. -/
def OnlyOurs (publishedInf : WString) (w : World) : Prop :=
  ∀ p ∈ w.packages, p.ours = true → cStr publishedInf ≠ [] ∧ sameName p.published publishedInf

/-- What `InstallDriver` leaves in the driver store. -/
def LeftStaged : Option (WString × Bool) → World → Prop
  | none, w => NoOurs w
  | some (publishedInf, _), w => OnlyOurs publishedInf w

theorem Placed.uninstallable {dir : WString} (h : Placed dir w) (hn : NoOurs w) :
    Uninstallable dir w :=
  ⟨h.cert, fun p hp hours => absurd hours (by rw [hn p hp]; decide), .inl h.dir⟩

theorem Placed.frame {dir : WString} {w' : World} (h : Placed dir w) (hf : Frame Untrusting w w') :
    Placed dir w' where
  dir := (hf.value (by decide) _).trans h.dir
  cert c hc := (hf.value (by decide) _).trans (h.cert c (trusted_frame hf hc))

theorem Placed.sets {dir : WString} {values : ValueName → WString} {w' : World} (h : Placed dir w)
    (hs : Sets w values w') (hd : values .installDir = w.value .installDir)
    (hc : values .certThumbprint = w.value .certThumbprint) : Placed dir w' where
  dir := by rw [hs.value, hd, h.dir]
  cert c ht := by rw [hs.value, hc, h.cert c (hs.trusted.mp ht)]

theorem NoOurs.onlyOurs (h : NoOurs w) (publishedInf : WString) : OnlyOurs publishedInf w :=
  fun p hp hours => absurd hours (by rw [h p hp]; decide)

theorem OnlyOurs.subset {publishedInf : WString} {w' : World} (h : OnlyOurs publishedInf w)
    (hs : w'.packages ⊆ w.packages) : OnlyOurs publishedInf w' :=
  fun p hp => h p (hs hp)

theorem OnlyOurs.unstaged {publishedInf : WString} {w' : World} (h : OnlyOurs publishedInf w)
    (hs : w'.packages ⊆ w.packages)
    (hgone : ∀ p ∈ w'.packages, publishedInf ≠ [] → ¬ sameName p.published publishedInf) :
    NoOurs w' := by
  intro p hp
  by_contra hne
  rw [Bool.not_eq_false] at hne
  obtain ⟨hname, hsame⟩ := h p (hs hp) hne
  refine hgone p hp ?_ hsame
  rintro rfl
  exact hname rfl

theorem dropPackage_spec {publishedInf : WString} (h : OnlyOurs publishedInf w) :
    wp (removingExec env) (fun _ => True) LeftStaged (dropPackage publishedInf) w := by
  apply wp_seq (wp_aside (fun e => e = .unstage) (unstagePackage_effects (by rfl) publishedInf)
    (by decide) (unstagePackage_spec publishedInf w))
  rintro _ u - ⟨hgone, hu, -⟩
  exact ⟨trivial, h.unstaged (hu.unstages (by decide)) hgone⟩

theorem installPackage_spec (inf : WString) {publishedInf : WString} (h : OnlyOurs publishedInf w) :
    wp (removingExec env) (fun _ => True) LeftStaged (installPackage inf publishedInf) w := by
  have hsub := removingExec_sub env
  simp only [installPackage, attempt, perform, Prog.perform_bind]
  apply wp_attempt_of hsub trivial
  intro _
  apply wp_ite _ fun _ => dropPackage_spec h
  intro _
  apply wp_attempt_of hsub trivial
  intro _
  apply wp_ite _ fun _ => dropPackage_spec h
  intro _
  apply wp_seq (wp_drop (fun e => e = .devices) (registerDevice_effects (by rfl)) w)
  rintro (_ | instanceId) u - hu
  · exact dropPackage_spec (h.subset (hu.unstages (by decide)))
  have h := h.subset (hu.unstages (by decide))
  refine ⟨trivial, fun o r v he => ?_⟩
  have hv := exec_frame (hsub _ _ _ _ he)
  have h := h.subset (hv.unstages (by simp [Call.effect]))
  cases r with
  | some reboot =>
    refine ⟨trivial, fun o r x he => ?_⟩
    have hx := exec_frame (hsub _ _ _ _ he)
    exact ⟨trivial, h.subset (hx.unstages (by simp [Call.effect]))⟩
  | none =>
    refine ⟨trivial, fun o r x he => ?_⟩
    have hx := exec_frame (hsub _ _ _ _ he)
    exact dropPackage_spec (h.subset (hx.unstages (by simp [Call.effect])))

theorem installDriver_spec (inf : WString) (h : NoOurs w) :
    wp (removingExec env) (fun _ => True) LeftStaged (installDriver inf) w := by
  have hsub := removingExec_sub env
  apply wp_seq (wp_drop (fun e => e = .devices) (removeDevices_effects (by rfl)) w)
  intro _ u _ hu
  have h := h.frame hu (by decide)
  refine ⟨trivial, fun o r v he => ?_⟩
  obtain ⟨-, rfl, rfl⟩ | ⟨f, name, -, -, -, hfresh, rfl, rfl⟩ | ⟨f, name, p, -, -, -, -, -, rfl, rfl⟩ :=
    copyOEMInf_eq_some.mp (hsub _ _ _ _ he)
  · exact ⟨trivial, h⟩
  · apply installPackage_spec
    intro p hp hours
    rcases List.mem_append.mp hp with hp | hp
    · exact h.onlyOurs name p hp hours
    · rw [List.mem_singleton.mp hp]
      exact ⟨by rw [cStr_of_no_nul hfresh.2.1]; exact hfresh.1, by simp [World.packageFrom]⟩
  · exact installPackage_spec inf (h.onlyOurs name)

theorem trustIn_spec {c : Certificate} (stores : List StoreName) (w : World) :
    wp (removingExec env) (fun _ => True) (fun _ w' => ∀ c', Trusted w' c' → c' = c ∨ Trusted w c')
      (trustIn (some c) stores) w := by
  induction stores generalizing w with
  | nil => exact ⟨trivial, fun _ => .inr⟩
  | cons store stores ih =>
    simp only [trustIn, perform, Prog.perform_bind]
    refine ⟨trivial, fun o r w' he => ?_⟩
    obtain ⟨-, rfl⟩ := looked_eq_some.mp (removingExec_sub env _ _ _ _ he)
    cases r with
    | none => exact ⟨trivial, fun _ => .inr⟩
    | some size =>
      refine ⟨trivial, fun o r v he => ?_⟩
      obtain ⟨-, rfl, rfl⟩ | ⟨-, rfl, rfl⟩ := tried_eq_some.mp (removingExec_sub env _ _ _ _ he)
      · apply wp_post _ (ih _)
        intro _ v _ hv c' hc'
        rcases hv c' hc' with rfl | ⟨hg, s, hs⟩
        · exact .inl rfl
        · exact (mem_trusted hs).imp_right fun hs => ⟨hg, s, hs⟩
      · exact ⟨trivial, fun _ => .inr⟩

/-! ## A run that fails -/

/-- The program returns through `Fail`. -/
def ThroughFail {W : Type} (E : Exec Call Call.Resp Outcome W) (p : Flow ℕ) (x : W) (code : ℕ) (y : W) :
    Prop :=
  ∃ u, Steps E p x failInstall u ∧ Steps E failInstall u (.ret code) y

/-- The last step forward was made. -/
def VersionRecorded (l : Log Call Outcome) : Prop := ∃ v, (Call.regSetValue .version v, Outcome.ok) ∈ l

/-- The run went through `RunUninstall`. -/
def RollsBack (l : Log Call Outcome) : Prop := ∃ o, (Call.regDeleteKey, o) ∈ l

/-- A run that is rolled back, or does not get to its last step, leaves nothing. -/
def Rolls (dir : WString) (code : ℕ) (x : World × Log Call Outcome) : Prop :=
  RollsBack x.2 ∨ ¬ VersionRecorded x.2 → code = 1 ∧ RolledBack dir x.1

variable {x : World × Log Call Outcome} {dir : WString}

theorem not_rollsBack {l l' m : Log Call Outcome} (h : ¬ RollsBack l) (hl : l' = l ++ m)
    (hm : ∀ e ∈ m, e.1 ≠ .regDeleteKey) : ¬ RollsBack l' := by
  rintro ⟨o, ho⟩
  rw [hl] at ho
  rcases List.mem_append.mp ho with ho | ho
  · exact h ⟨o, ho⟩
  · exact hm _ ho rfl

theorem wp_forth {α : Type} {Q : α → World → Prop} {p : Flow α} (hx : ¬ RollsBack x.2)
    (hp : p.Calls (· ≠ .regDeleteKey) fun _ _ => True)
    (h : wp (removingExec env) (fun _ => True) Q p x.1) :
    wp (removingExec env).logged (fun _ => True) (fun a y => Q a y.1 ∧ ¬ RollsBack y.2) p x := by
  apply wp_post _ (wp_log_calls hp h)
  rintro a y - ⟨hq, m, hm, hcalls⟩
  exact ⟨hq, not_rollsBack hx hm hcalls⟩

theorem VersionRecorded.grow {l l' : Log Call Outcome} (h : VersionRecorded l) (hl : l <+: l') :
    VersionRecorded l' :=
  h.imp fun _ hv => hl.subset hv

theorem writeVersion_recorded (version : WString) :
    wp (removingExec env).logged (fun _ => True) (fun ok y => ok = true → VersionRecorded y.2)
      (writeValue .version version) x := by
  simp only [writeValue, perform, Prog.perform_bind]
  refine ⟨trivial, fun o r y _ => wp_ite (fun _ => ⟨trivial, fun o r z he => ⟨trivial, fun ht => ?_⟩⟩)
    fun _ => ⟨trivial, fun h => by cases h⟩⟩
  obtain ⟨v, hv, hz⟩ := Exec.logged_eq_some.mp he
  obtain ⟨rfl, -, -⟩ | ⟨-, hr, -⟩ := tried_eq_some.mp (removingExec_sub env _ _ _ _ hv)
  · exact ⟨version, by rw [show z.2 = _ from congrArg Prod.snd hz]; simp⟩
  · exact absurd (Eq.trans (Eq.symm hr) ht) (by decide)

theorem failInstall_rollsBack {E : Exec Call Call.Resp Outcome (World × Log Call Outcome)}
    (hE : E.Sub exec.logged) (x : World × Log Call Outcome) :
    wp E (fun _ => True) (fun _ y => RollsBack y.2) failInstall x := by
  apply wp_sub hE
  refine wp_seq ?_ fun _ _ _ h => ⟨trivial, h⟩
  refine wp_seq (wp_true readState x) fun state u _ _ => ?_
  refine wp_seq (wp_true (uninstallDriver _) u) fun _ v _ _ => ?_
  refine wp_seq (wp_true (uninstallRecorded state) v) fun _ z _ _ => ⟨trivial, fun o r y he => ?_⟩
  obtain ⟨_, -, hy⟩ := Exec.logged_eq_some.mp he
  exact ⟨trivial, o, by rw [show y.2 = _ from congrArg Prod.snd hy]; simp⟩

theorem forth_of_effects {α : Type} {p : Flow α} (hp : Effects (fun e => e ≠ .registry) p) :
    p.Calls (· ≠ .regDeleteKey) fun _ _ => True :=
  Prog.calls_mono (fun _ hc hk => hc .registry (by rw [hk]; rfl) rfl) (fun _ _ h => h) hp

theorem writeValue_forth (name : ValueName) (v : WString) :
    (writeValue name v).Calls (· ≠ .regDeleteKey) fun _ _ => True := by
  simp only [writeValue, perform, Prog.perform_bind, Prog.calls_call]
  exact ⟨by simp, fun _ _ => Prog.calls_ite (fun _ => by simp [Prog.perform]) fun _ => trivial⟩

theorem failInstall_rolls (hdir : dir ≠ []) (h : Uninstallable dir x.1) :
    wp (removingExec env).logged (fun _ => True) (Rolls dir) failInstall x := by
  have hfail : wp (removingExec env) (fun _ => True) (fun code w' => code = 1 ∧ RolledBack dir w')
      failInstall x.1 := wp_seq (runUninstall_rolledBack hdir h) fun _ _ _ hu => ⟨trivial, rfl, hu⟩
  exact wp_post (fun _ _ _ hq _ => hq.1) (wp_log hfail)

theorem installNode_rolls (driverDir version : WString) (hdir : dir ≠ []) (hx : ¬ RollsBack x.2)
    (h : Placed dir x.1) (hn : NoOurs x.1) :
    wp (removingExec env).logged (fun _ => True) (Rolls dir) (installNode driverDir version) x := by
  have hsub := removingExec_sub env
  have heffects : Effects Untrusting (installDriver (infPath driverDir)) :=
    installDriver_effects (by decide) (by decide) (by decide) _
  have hinstall := wp_and (@installDriver_spec env x.1 (infPath driverDir) hn)
    (wp_sub hsub (wp_effects heffects x.1))
  apply wp_seq (wp_forth hx (forth_of_effects (installDriver_effects (by decide) (by decide)
    (by decide) _)) (wp_end hinstall))
  rintro (_ | ⟨publishedInf, reboot⟩) y - ⟨⟨hstaged, hf⟩, hy⟩
  · exact failInstall_rolls hdir ((h.frame hf).uninstallable hstaged)
  have h := h.frame hf
  apply wp_seq (wp_forth hy (writeValue_forth _ _) (wp_end (writeValue_spec hsub .driverInf publishedInf)))
  rintro ok ⟨z, l⟩ - ⟨hsets, hz⟩
  cases ok with
  | true =>
    have hinf : z.value .driverInf = cStr publishedInf := by
      rw [hsets.value, if_pos rfl, Function.update_self]
    have hp : Placed dir z := h.sets hsets rfl rfl
    have honly : OnlyOurs publishedInf z := hstaged.subset (by rw [hsets.packages]; exact List.Subset.refl _)
    apply wp_seq (wp_end (wp_and (writeVersion_recorded version)
      (wp_forth hz (writeValue_forth _ _) (wp_end (writeValue_spec hsub .version version)))))
    rintro ok u - ⟨hversion, hsets', hu⟩
    apply wp_ite
    · intro hok
      have hforth := forth_of_effects (finishWithPins_effects (by decide) (if reboot then 3010 else 0))
      apply wp_post _ (wp_end (wp_and (wp_forth hu hforth (wp_true _ _)) (wp_log (wp_true _ _))))
      exact fun _ _ _ hq hr => absurd hr
        (not_or.mpr ⟨hq.1.2, not_not.mpr ((hversion hok).grow hq.2.2)⟩)
    · intro hfailed
      rw [Bool.not_eq_true] at hfailed
      rw [hfailed] at hsets'
      have hp' : Placed dir u.1 := hp.sets hsets' rfl rfl
      refine failInstall_rolls hdir ⟨hp'.cert, fun p hp hours => ?_, .inl hp'.dir⟩
      rw [hsets'.packages] at hp
      obtain ⟨hname, hsame⟩ := honly p hp hours
      rw [hsets'.value, if_neg (by decide), hinf]
      exact ⟨hname, by simpa using hsame⟩
  | false =>
    have hp : Placed dir z := h.sets hsets rfl rfl
    have honly : OnlyOurs publishedInf z := hstaged.subset (by rw [hsets.packages]; exact List.Subset.refl _)
    apply wp_seq (wp_forth hz (forth_of_effects (uninstallDriver_effects (by decide) (by decide) _))
      (uninstallDriver_spec publishedInf z))
    rintro _ u - ⟨⟨hf, -, hgone⟩, -⟩
    apply failInstall_rolls hdir
    have hp' : Placed dir u.1 := hp.frame (hf.mono fun e he => by rcases he with rfl | rfl <;> decide)
    exact hp'.uninstallable (honly.unstaged (hf.unstages (by decide)) hgone)

/-- Before the certificate is trusted, only the directory is recorded. -/
structure Bare (w : World) : Prop where
  numbered : Numbered w
  untrusted : ∀ c, ¬ Trusted w c
  noOurs : NoOurs w

theorem Bare.frame {w w' : World} (h : Bare w) (hf : Frame Untrusting w w')
    (hp : w'.packages ⊆ w.packages) : Bare w' where
  numbered := h.numbered.frame hf (by decide) (by decide)
  untrusted c hc := h.untrusted c (trusted_frame hf hc)
  noOurs p hm := h.noOurs p (hp hm)

theorem Bare.sets {w w' : World} {values : ValueName → WString} (h : Bare w) (hs : Sets w values w') :
    Bare w' where
  numbered := hs.numbered h.numbered
  untrusted c hc := h.untrusted c (hs.trusted.mp hc)
  noOurs := by
    unfold NoOurs
    rw [hs.packages]
    exact h.noOurs

theorem Bare.newKeys {w w' : World} (h : Bare w) (hk : NewKeys w w') : Bare w' where
  numbered := hk.numbered h.numbered
  untrusted c hc := h.untrusted c (trusted_newKeys h.numbered hk hc)
  noOurs := by
    unfold NoOurs
    rw [hk.frame.packages (by decide) (by decide)]
    exact h.noOurs

theorem Bare.placed {w : World} (h : Bare w) (hd : w.value .installDir = dir) : Placed dir w :=
  ⟨hd, fun c hc => absurd hc (h.untrusted c)⟩

theorem Bare.fails (hdir : dir ≠ []) (h : Bare x.1) (hd : x.1.value .installDir = dir) :
    wp (removingExec env).logged (fun _ => True) (Rolls dir) failInstall x :=
  failInstall_rolls hdir ((h.placed hd).uninstallable h.noOurs)

theorem signDriver_newKeys (driverDir : WString) (w : World) :
    wp (removingExec env) (fun _ => True)
      (fun r w' => NewKeys w w' ∧ ∀ cert, r = some cert → ∃ c, Signed w w' driverDir cert c)
      (signDriver driverDir) w :=
  wp_mono (fun _ _ => trivial) (fun _ _ hk hr => ⟨hk, hr⟩)
    (wp_sub (removingExec_sub env) (signDriver_spec driverDir _))

/-- `RunInstall` behind the signing of the driver. -/
def trustAndInstall (cert : SigningCert) (driverDir version : WString) : Flow ℕ := do
  if ← writeValue .certThumbprint cert.thumbprint then
    if ← trustCertificate cert.encoded then installNode driverDir version else failInstall
  else failInstall

theorem trustAndInstall_rolls {cert : SigningCert} {c : Certificate} (driverDir version : WString)
    (hdir : dir ≠ []) (hx : ¬ RollsBack x.2) (h : Bare x.1) (hd : x.1.value .installDir = dir)
    (hc : cert.encoded = some c) (ht : cert.thumbprint = hexUpper c.hash.bytes) :
    wp (removingExec env).logged (fun _ => True) (Rolls dir)
      (trustAndInstall cert driverDir version) x := by
  have hsub := removingExec_sub env
  apply wp_seq (wp_forth hx (writeValue_forth _ _) (wp_end (writeValue_spec hsub .certThumbprint cert.thumbprint)))
  rintro ok ⟨u, l⟩ - ⟨hsets, hu⟩
  cases ok with
  | false => exact (h.sets hsets).fails hdir ((hsets.value _).trans hd)
  | true =>
    have hdu : u.value .installDir = dir := by rw [hsets.value, if_pos rfl]; exact hd
    have hcu : u.value .certThumbprint = thumbprintOf c := by
      rw [hsets.value, if_pos rfl, Function.update_self, ht]
      exact cStr_thumbprintOf c
    have hb := h.sets hsets
    rw [if_pos rfl, trustCertificate, hc]
    have heffects : Effects (fun e => e = .trust) (trustIn (some c) storeNames) :=
      trustIn_effects (by rfl) _ _
    have htrust := wp_and (@trustIn_spec env c storeNames u) (wp_sub hsub (wp_effects heffects u))
    apply wp_seq (wp_forth hu (forth_of_effects (trustIn_effects (by decide) _ _))
      (wp_end htrust))
    rintro ok ⟨v, m⟩ - ⟨⟨htrusted, hf⟩, hv⟩
    have hplaced : Placed dir v := by
      refine ⟨(hf.value (by decide) _).trans hdu, fun c' hc' => ?_⟩
      rw [hf.value (by decide), hcu]
      rcases htrusted c' hc' with rfl | hc'
      · rfl
      · exact absurd hc' (hb.untrusted c')
    have hours : NoOurs v := hb.noOurs.frame hf (by decide)
    apply wp_ite
    · exact fun _ => installNode_rolls driverDir version hdir hv hplaced hours
    · exact fun _ => failInstall_rolls hdir (hplaced.uninstallable hours)

/-- A PC without a trace of setup. -/
structure Untouched (dir : WString) (w : World) : Prop where
  registry : w.registry = none
  bare : Bare w
  noFiles : filesUnder w dir = []

theorem installFresh_rolls (payloadDir version : WString) (hdir : dir ≠ []) (hnul : cStr dir = dir)
    (hx : ¬ RollsBack x.2) (h : Untouched dir x.1) :
    wp (removingExec env).logged (fun _ => True) (Rolls dir) (installFresh payloadDir dir version) x := by
  have hsub := removingExec_sub env
  have hempty : x.1.value .installDir = [] := by rw [World.value, h.registry]; rfl
  apply wp_seq (wp_forth hx (writeValue_forth _ _) (wp_end (writeValue_spec hsub .installDir dir)))
  rintro ok ⟨u, l⟩ - ⟨hsets, hu⟩
  have hb := h.bare.sets hsets
  cases ok with
  | false =>
    refine failInstall_rolls hdir ⟨fun c hc => absurd hc (hb.untrusted c),
      fun p hp hours => absurd hours (by rw [hb.noOurs p hp]; decide), .inr ⟨?_, ?_⟩⟩
    · exact (hsets.value _).trans hempty
    · unfold filesUnder
      rw [hsets.machine]
      exact h.noFiles
  | true =>
    have hd : u.value .installDir = dir := by rw [hsets.value, if_pos rfl, Function.update_self, hnul]
    have hcopy := @wp_drop env _ (fun e => e = .files) _ (copyPayload_effects (by rfl) payloadDir dir) u
    rw [if_pos rfl]
    apply wp_seq (wp_forth hu (forth_of_effects (copyPayload_effects (by decide) _ _)) hcopy)
    rintro ok ⟨v, m⟩ - ⟨hf, hv⟩
    have hf' : Frame Untrusting u v := hf.mono fun e he => by subst he; decide
    have hd : v.value .installDir = dir := (hf.value (by decide) _).trans hd
    have hb := hb.frame hf' (hf.unstages (by decide))
    apply wp_ite _ fun _ => hb.fails hdir hd
    intro _
    apply wp_seq (wp_forth hv (forth_of_effects (signDriver_effects (by decide) (by decide) _))
      (signDriver_newKeys _ _))
    rintro (_ | cert) ⟨y, n⟩ - ⟨⟨hk, hsigned⟩, hy⟩
    all_goals
      have hd : y.value .installDir = dir := (hk.frame.value (by decide) _).trans hd
      have hb := hb.newKeys hk
    · exact hb.fails hdir hd
    · obtain ⟨c, hc⟩ := hsigned cert rfl
      exact trustAndInstall_rolls _ version hdir hy hb hd hc.encoded hc.thumbprint

/-! ## The run -/

def createsKey : Call → Bool
  | .regCreateKey => true
  | _ => false

/-- Windows lets setup remove. Until the state key is first written nothing is removed, and the
listing of the devices may fail. -/
abbrev failingExec (env : Outcome) : Exec Call Call.Resp Outcome (World × Log Call Outcome) :=
  (exec.only (removalsWork env)).logged.within fun c o x =>
    !(x.2.any fun e => createsKey e.1) || listsDevices c o

theorem wp_writing {α : Type} {I : World × Log Call Outcome → Prop}
    {Q : α → World × Log Call Outcome → Prop} {p : Flow α}
    (hp : (x.2.any fun e => createsKey e.1) = true ∨ p.next?.any createsKey = true)
    (h : wp (removingExec env).logged I Q p x) : wp (failingExec env) I Q p x := by
  induction p generalizing x with
  | ret a => exact h
  | call c k ih =>
    refine ⟨h.1, fun o r y he => ?_⟩
    obtain ⟨hlists, hx⟩ := Exec.within_eq_some.mp he
    obtain ⟨v, hv, hy⟩ := Exec.logged_eq_some.mp hx
    obtain ⟨hworks, hexec⟩ := Exec.only_eq_some.mp hv
    have hl : listsDevices c o = true := by
      rcases hp with hp | hp
      · simpa [hp] using hlists
      · cases c <;> simp [createsKey] at hp
        rfl
    have hbegun : (y.2.any fun e => createsKey e.1) = true := by
      have hgrown : y.2 = x.2 ++ [(c, o)] := congrArg Prod.snd hy
      rw [hgrown, List.any_append]
      rcases hp with hp | hp
      · rw [hp, Bool.true_or]
      · have hc : createsKey c = true := hp
        simp [hc]
    refine ih r (.inl hbegun) (h.2 o r y (Exec.logged_eq_some.mpr ⟨v, ?_, hy⟩))
    exact removingExec_eq_some.mpr ⟨⟨hworks, hl⟩, hexec⟩

/-- Without a state key, one read of it is all. -/
theorem retireFirst_untouched (hx : ¬ RollsBack x.2) (h : x.1.registry = none) :
    wp (failingExec env) (fun _ => True)
      (fun state y => (state = none ∧ y.1 = x.1) ∧ ¬ RollsBack y.2) retireFirst x := by
  simp only [retireFirst, readState, perform, Prog.perform_bind, Prog.call_bind]
  refine ⟨trivial, fun o r y he => ?_⟩
  obtain ⟨v, hv, hy⟩ := Exec.logged_eq_some.mp (Exec.within_sub _ _ _ _ _ _ he)
  obtain ⟨hr, rfl⟩ := looked_eq_some.mp (Exec.only_eq_some.mp hv).2
  have hfalse : r = false := by
    rcases hr with ⟨-, rfl⟩ | ⟨-, rfl⟩
    · rw [h]
      rfl
    · rfl
  have hlog : ¬ RollsBack y.2 :=
    not_rollsBack hx (congrArg Prod.snd hy) fun e he => by rw [List.mem_singleton.mp he]; simp
  have hworld : y.1 = x.1 := by simpa using congrArg Prod.fst hy
  rw [hfalse]
  exact ⟨trivial, ⟨rfl, hworld⟩, hlog⟩

theorem wp_reading {α : Type} {Q : α → World → Prop} {p : Flow α} (hx : ¬ RollsBack x.2)
    (hp : p.Calls (· ≠ .regDeleteKey) fun _ _ => True)
    (h : wp (exec.only (removalsWork env)) (fun _ => True) Q p x.1) :
    wp (failingExec env) (fun _ => True) (fun a y => Q a y.1 ∧ ¬ RollsBack y.2) p x := by
  apply wp_sub (Exec.within_sub _ _)
  apply wp_post _ (wp_log_calls hp h)
  rintro a y - ⟨hq, m, hm, hcalls⟩
  exact ⟨hq, not_rollsBack hx hm hcalls⟩

theorem runInstall_rolls (payloadDir version : WString) (hx : ¬ RollsBack x.2)
    (h : Untouched (installDirFor env) x.1) :
    wp (failingExec env) (fun _ => True) (Rolls (installDirFor env)) (runInstall payloadDir version)
      x := by
  have hsub : (exec.only (removalsWork env)).Sub exec := fun _ _ _ _ h => (Exec.only_eq_some.mp h).2
  apply wp_seq (retireFirst_untouched hx h.registry)
  rintro _ ⟨y, l⟩ - ⟨⟨rfl, rfl⟩, hy⟩
  have hdefault : wp (exec.only (removalsWork env)) (fun _ => True)
      (fun dir w' => dir = installDirFor env ∧ w' = x.1) defaultInstallDir x.1 :=
    wp_mono (fun _ _ => trivial) (fun _ _ hw hq => ⟨hq, hw⟩) (defaultInstallDir_spec hsub
      (fun o u v he => by simpa [removalsWork] using (Exec.only_eq_some.mp he).1) x.1)
  apply wp_seq (wp_reading (x := (x.1, l)) hy (forth_of_effects defaultInstallDir_effects) hdefault)
  rintro _ ⟨z, m⟩ - ⟨⟨rfl, rfl⟩, hz⟩
  have hmode := wp_end (wp_sub hsub (installMode_spec none (installDirFor env) x.1))
  apply wp_seq (wp_reading (x := (x.1, m)) hz (forth_of_effects (installMode_effects _ _)) hmode)
  rintro mode ⟨u, n⟩ - ⟨⟨hf, hchosen⟩, hu⟩
  obtain rfl := hchosen.fresh.mpr rfl
  have hu' : Untouched (installDirFor env) u :=
    ⟨(hf.registry id).trans h.registry, h.bare.frame (hf.mono fun _ => False.elim) (hf.unstages id),
      (filesUnder_frame hf id _).trans h.noFiles⟩
  apply wp_writing (.inr rfl)
  exact installFresh_rolls payloadDir version (installDirFor_ne_nil env) (cStr_installDirFor env) hu hu'

end

theorem failingExec_sub (env : Outcome) : (failingExec env).Sub exec.logged := by
  intro c o x y he
  obtain ⟨v, hv, hy⟩ := Exec.logged_eq_some.mp (Exec.within_sub _ _ _ _ _ _ he)
  exact Exec.logged_eq_some.mpr ⟨v, (Exec.only_eq_some.mp hv).2, hy⟩

/-- A first install that returns through `Fail`, or short of its last step, is rolled back, whatever
fails of it but the removals. -/
theorem failed_install_rolled_back {env : Outcome} {w w' : World} {payloadDir version : WString}
    {code : ℕ} {l : Log Call Outcome} (h : Untouched (installDirFor env) w)
    (hs : Steps (failingExec env) (runInstall payloadDir version) (w, []) (.ret code) (w', l))
    (hr : ThroughFail (failingExec env) (runInstall payloadDir version) (w, []) code (w', l) ∨
      ¬ VersionRecorded l) : code = 1 ∧ RolledBack (installDirFor env) w' := by
  have hnot : ¬ RollsBack ([] : Log Call Outcome) := fun ⟨_, ho⟩ => List.not_mem_nil ho
  refine hs.post (runInstall_rolls payloadDir version hnot h) (hr.imp_left ?_)
  rintro ⟨u, -, hfail⟩
  exact hfail.post (failInstall_rollsBack (failingExec_sub env) u)

/-- The name of the package cannot be recorded. -/
def refuseDriverInf (hash : Sha1) (published : WString) : Call → Outcome
  | .regSetValue .driverInf _ => .fail
  | c => succeed hash published c

def recordsVersion : Call × Outcome → Bool
  | (.regSetValue .version _, .ok) => true
  | _ => false

theorem not_versionRecorded {l : Log Call Outcome} (h : (!l.any recordsVersion) = true) :
    ¬ VersionRecorded l := by
  rintro ⟨v, hv⟩
  rw [Bool.not_eq_true', List.any_eq_false] at h
  exact h _ hv rfl

theorem newPc_untouched : Untouched (installDirFor .fail) newPc where
  registry := rfl
  bare := ⟨newPc_clean.numbered, fun _ hc => absurd hc.1 List.not_mem_nil,
    newPc_clean.packages⟩
  noFiles := by decide

theorem failed_install_rolled_back_unrecorded :
    ∃ w' l, Steps (failingExec .fail) (runInstall releaseDir (wide "1")) (newPc, []) (.ret 1) (w', l) ∧
      ¬ VersionRecorded l ∧ RolledBack (installDirFor .fail) w' := by
  have hend : (runInstall releaseDir (wide "1")).endsWith (failingExec .fail)
      (refuseDriverInf (sha1Of 1) (wide "oem1.inf")) (fun _ x => !x.2.any recordsVersion)
      (newPc, []) = true := by decide +kernel
  obtain ⟨code, ⟨w', l⟩, hs, hc⟩ := Prog.endsWith_steps hend
  obtain ⟨rfl, hback⟩ := failed_install_rolled_back newPc_untouched hs (.inr (not_versionRecorded hc))
  exact ⟨w', l, hs, not_versionRecorded hc, hback⟩

end VirtualGun.Setup
