import VirtualGun.Setup.Removal
import VirtualGun.Setup.FailedUpdate

/-!
# Installing from the install directory

`CopyPayload` refuses the install directory as a payload folder. It does so behind the mode decision:
an update has done nothing yet, a reinstall has removed the old install, and a first install is rolled
back with the files it should have copied.
-/

open VirtualGun.Program

namespace VirtualGun.Setup

/-! ## Nothing fails -/

def writesWork : Call → Outcome → Bool
  | .regCreateKey, o | .regSetValue _ _, o => o ≠ .fail
  | _, _ => true

/-- A folder is the same as itself, as long as there is a file in it. -/
def sameFolder : Call → Outcome → World → Bool
  | .attempt (.equivalent _ dir), o, w => o = .ok || (filesUnder w dir).isEmpty
  | _, _, _ => true

/-- Reads, writes and removals work, and the payload folder is the install directory. -/
abbrev refusingExec (env : Outcome) : Exec Call Call.Resp Outcome World :=
  (removingExec env).within fun c o w => writesWork c o && sameFolder c o w

theorem refusingExec_eq_some {env : Outcome} {c : Call} {o : Outcome} {w : World}
    {x : c.Resp × World} :
    refusingExec env c o w = some x ↔
      (writesWork c o = true ∧ sameFolder c o w = true) ∧ removingExec env c o w = some x := by
  rw [refusingExec, Exec.within_eq_some, Bool.and_eq_true]

theorem refusingExec_removing (env : Outcome) : (refusingExec env).Sub (removingExec env) :=
  Exec.within_sub _ _

theorem refusingExec_sub (env : Outcome) : (refusingExec env).Sub exec :=
  fun _ _ _ _ h => removingExec_sub env _ _ _ _ (refusingExec_removing env _ _ _ _ h)

/-! ## What is kept -/

/-- The values that are no business of a refused install. -/
abbrev IsOther : ValueName → Prop :=
  fun n => n ≠ .installDir ∧ n ≠ .version ∧ n ≠ .certThumbprint ∧ n ≠ .driverInf

/-- The install that `w` records is there in `w'`, with the files in `dir`. -/
structure KeepsAll (dir : WString) (w w' : World) : Prop where
  install : KeepsInstall IsOther w w'
  files : ∀ f ∈ w.machine.files, f.path ∈ filesUnder w dir → f ∈ w'.machine.files

/-- `RunInstall` from the install directory ends with 1, and keeps the install. -/
def Refuses (env : Outcome) (payloadDir version : WString) (w : World) : Prop :=
  ∀ p w', Steps (refusingExec env) (runInstall payloadDir version) w p w' →
    p.next? ≠ some .terminate ∧
      ∀ code, p = .ret code → code = 1 ∧ KeepsAll (installDirFor env) w w'

/-! ## What is decided on -/

/-- The device nodes of ours. -/
def ourDevices (w : World) (presentOnly : Bool) : ℕ :=
  ((devicesOf w presentOnly).filter fun d => sameName d.hardwareIds hardwareId).length

/-- The mode that `RunInstall` takes. -/
def modeIn (w : World) (state : Option InstallState) (dir : WString) : InstallMode :=
  let mode := chooseInstallMode state (ourDevices w false) (ourDevices w true)
  if mode = .update ∧ !(state.any fun s => sameName s.installDir dir) then .reinstall else mode

/-- The state without what an update replaced. -/
def InstallState.retired (s : InstallState) : InstallState :=
  { s with previousCertThumbprint := [], previousDriverInf := [] }

/-- `RemoveTrustedCertificate` removes the certificate. -/
def Sought (thumbprint : WString) (c : Certificate) : Prop :=
  thumbprint.length = 40 ∧ hashBytes 20 thumbprint = some c.hash.bytes

/-- `RemoveTrustedCertificate` does not throw. -/
def Parses (thumbprint : WString) : Prop := thumbprint.length = 40 → hashBytes 20 thumbprint ≠ none

/-- The install can be updated, and what is retired before that is not part of it. -/
structure Updatable (dir : WString) (w : World) : Prop where
  recorded : w.registry ≠ none
  mode : modeIn w (some w.state.retired) dir = .update
  parses : Parses (w.value .previousCertThumbprint)
  cert : ∀ store, ∀ c ∈ w.stores store, thumbprintOf c = w.value .certThumbprint →
    ¬ Sought (w.value .previousCertThumbprint) c
  inf : ∀ p ∈ w.packages, sameName p.published (w.value .driverInf) →
    w.value .previousDriverInf ≠ [] → ¬ sameName p.published (w.value .previousDriverInf)

section
variable {env : Outcome} {w : World}

theorem countIn_spec (devs : List DevNode) (w : World) :
    wp (removingExec env) (· = w)
      (fun n _ => n = (devs.filter fun d => sameName d.hardwareIds hardwareId).length)
      (countIn devs) w := by
  induction devs with
  | nil => exact ⟨rfl, rfl⟩
  | cons dev devs ih =>
    simp only [countIn, attempt, perform, Prog.perform_bind]
    refine ⟨rfl, fun o r w' he => ?_⟩
    obtain ⟨⟨-, hlists⟩, hx⟩ := removingExec_eq_some.mp he
    obtain ⟨rfl, rfl, rfl⟩ | ⟨rfl, -, -⟩ := tried_eq_some.mp hx
    · apply wp_seq (isOurDevice_spec dev)
      rintro ours u rfl rfl
      apply wp_seq ih
      rintro count v rfl rfl
      refine ⟨rfl, ?_⟩
      rw [List.filter_cons]
      split <;> rfl
    · simp [listsDevices] at hlists

theorem countDevices_spec (presentOnly : Bool) (w : World) :
    wp (removingExec env) (· = w) (fun n _ => n = ourDevices w presentOnly)
      (countDevices presentOnly) w := by
  simp only [countDevices, perform, Prog.perform_bind]
  refine ⟨rfl, fun o r w' he => ?_⟩
  obtain ⟨⟨-, hlists⟩, hx⟩ := removingExec_eq_some.mp he
  obtain ⟨⟨-, rfl⟩ | ⟨rfl, -⟩, rfl⟩ := looked_eq_some.mp hx
  · exact countIn_spec _ w'
  · simp [listsDevices] at hlists

theorem installMode_decides (state : Option InstallState) (dir : WString) (w : World) :
    wp (removingExec env) (· = w) (fun mode _ => mode = modeIn w state dir)
      (installMode state dir) w := by
  apply wp_seq (countDevices_spec false w)
  rintro devices u rfl rfl
  apply wp_seq (countDevices_spec true u)
  rintro presentDevices v rfl rfl
  exact ⟨rfl, rfl⟩

/-! ## What is retired first -/

/-- The state as `ReadState` returns it. -/
def World.recorded (w : World) : Option InstallState :=
  if w.registry.isSome then some w.state else none

theorem state_of_reads {s : InstallState} (h : Reads w (some s)) : s = w.state := by
  obtain ⟨_, _, _, _, _, _, _, _⟩ := s
  simp only [World.state, InstallState.mk.injEq]
  exact ⟨h .version, h .installDir, h .certThumbprint, h .driverInf, h .pendingCertThumbprint,
    h .pendingDriverInf, h .previousCertThumbprint, h .previousDriverInf⟩

theorem readState_recorded (w : World) :
    wp (removingExec env) (· = w) (fun s _ => s = w.recorded) readState w := by
  have hopens : wp (removingExec env) (fun _ => True) (fun s _ => s.isSome = w.registry.isSome)
      readState w := by
    simp only [readState, perform, Prog.perform_bind]
    refine ⟨trivial, fun o r w' he => ?_⟩
    obtain ⟨⟨hworks, -⟩, hx⟩ := removingExec_eq_some.mp he
    obtain ⟨⟨-, rfl⟩ | ⟨rfl, -⟩, rfl⟩ := looked_eq_some.mp hx
    · apply wp_ite
      · intro hsome
        rw [hsome]
        refine wp_ends (Q := fun s : Option InstallState => s.isSome = true) ?_ _
        iterate 8 refine Prog.ends_bind (Prog.ends_true _) fun _ _ => ?_
        rfl
      · intro hnone
        rw [Bool.not_eq_true] at hnone
        exact ⟨trivial, hnone.symm⟩
    · simp [removalsWork] at hworks
  apply wp_mono (fun _ h => h.1) _
    (wp_and (readState_spec (removingExec_sub env) (removingExec_reads env)) hopens)
  rintro (_ | s) u - ⟨hreads, hsome⟩
  · rw [World.recorded, ← hsome]
    rfl
  · rw [World.recorded, ← hsome, state_of_reads hreads]
    rfl

theorem removeTrustedCertificate_exact (thumbprint : WString) (w : World) :
    wp (removingExec env) (fun _ => True)
      (fun _ w' => Frame (· = .untrust) w w' ∧ Parses thumbprint ∧
        ∀ store c, c ∈ w'.stores store ↔ c ∈ w.stores store ∧ ¬ Sought thumbprint c)
      (removeTrustedCertificate thumbprint) w := by
  have hsub := removingExec_sub env
  apply wp_ite
  · intro hlength
    cases hhash : hashBytes 20 thumbprint with
    | none => exact ⟨trivial, fun o r w' he => absurd (hsub _ _ _ _ he) (by simp [exec])⟩
    | some hash =>
      apply wp_mono (fun _ _ => trivial) _ (wp_and
        (removeFrom_spec (removingExec_finding env) hash storeNames)
        (wp_sub hsub (removeFrom_others hash storeNames w)))
      rintro _ w' - ⟨⟨hf, hgone⟩, hothers⟩
      refine ⟨hf, fun _ hn => absurd (hhash.symm.trans hn) (Option.some_ne_none hash), fun store c => ?_⟩
      have hstore : store ∈ storeNames := by cases store <;> simp [storeNames]
      constructor
      · intro hc
        refine ⟨hf.untrusts (by decide) store hc, fun hs => hgone store hstore c hc ?_⟩
        exact (Option.some.inj (hhash.symm.trans hs.2)).symm
      · rintro ⟨hc, hs⟩
        apply hothers store c hc
        rintro rfl
        exact hs ⟨hlength, hhash⟩
  · intro hlength
    exact ⟨trivial, .refl _ _, fun h => absurd h hlength,
      fun store c => ⟨fun hc => ⟨hc, fun hs => hlength hs.1⟩, fun hc => hc.1⟩⟩

theorem unstagePackage_exact (publishedInf : WString) (w : World) :
    wp (removingExec env) (fun _ => True)
      (fun gone w' => Frame (· = .unstage) w w' ∧ gone = true ∧
        ∀ p, p ∈ w'.packages ↔ p ∈ w.packages ∧
          ¬ (publishedInf ≠ [] ∧ sameName p.published publishedInf))
      (unstagePackage publishedInf) w := by
  apply wp_ite
  · intro hnil
    exact ⟨trivial, .refl _ _, rfl, fun p => ⟨fun hp => ⟨hp, fun hn => hn.1 hnil⟩, fun hp => hp.1⟩⟩
  · intro hne
    refine ⟨trivial, fun o r w' he => ?_⟩
    have hf := exec_frame (removingExec_sub env _ _ _ _ he)
    obtain ⟨⟨hworks, -⟩, hx⟩ := removingExec_eq_some.mp he
    obtain ⟨-, rfl, rfl⟩ | ⟨rfl, -, -⟩ := tried_eq_some.mp hx
    · refine ⟨trivial, hf.mono fun _ h => (Option.some.inj h).symm, rfl, fun p => ?_⟩
      rw [List.mem_filter, Bool.not_eq_true', ← Bool.not_eq_true]
      constructor
      · exact fun hp => ⟨hp.1, fun hn => hp.2 hn.2⟩
      · exact fun hp => ⟨hp.1, fun hn => hp.2 ⟨hne, hn⟩⟩
    · simp [removalsWork] at hworks

theorem deleteValue_works (name : ValueName) (w : World) :
    wp (removingExec env) (fun _ => True) (fun _ w' => w' = w.deleteValue name)
      (deleteValue name) w := by
  refine ⟨trivial, fun o r w' he => ?_⟩
  obtain ⟨⟨hworks, -⟩, hx⟩ := removingExec_eq_some.mp he
  obtain ⟨-, -, rfl⟩ | ⟨rfl, -, -⟩ := tried_eq_some.mp hx
  · exact ⟨trivial, rfl⟩
  · simp [removalsWork] at hworks

/-- What `RetirePrevious` leaves. -/
structure Retired (w w' : World) : Prop where
  machine : w'.machine = w.machine
  registry : w'.registry.isSome = w.registry.isSome
  state : w'.state = w.state.retired
  parses : Parses (w.value .previousCertThumbprint)
  cert : ∀ store c, c ∈ w'.stores store ↔
    c ∈ w.stores store ∧ ¬ Sought (w.value .previousCertThumbprint) c
  inf : ∀ p, p ∈ w'.packages ↔ p ∈ w.packages ∧
    ¬ (w.value .previousDriverInf ≠ [] ∧ sameName p.published (w.value .previousDriverInf))

theorem state_eq {w w' : World} (h : ∀ name, w'.value name = w.value name) : w'.state = w.state := by
  simp only [World.state, h]

theorem Frame.state {effects : Effect → Prop} {w w' : World} (hf : Frame effects w w')
    (hn : ¬ effects .registry) : w'.state = w.state :=
  state_eq fun name => hf.value hn name

theorem registry_deleteValue (w : World) (name : ValueName) :
    (w.deleteValue name).registry.isSome = w.registry.isSome := by
  simp [World.deleteValue]

theorem parses_nil : Parses [] := by
  intro hlength
  cases hlength

theorem not_sought_nil (c : Certificate) : ¬ Sought [] c := by
  rintro ⟨hlength, -⟩
  cases hlength

theorem retireCert_spec (w : World) :
    wp (removingExec env) (fun _ => True)
      (fun _ w' => w'.machine = w.machine ∧ w'.registry.isSome = w.registry.isSome ∧
        w'.state = { w.state with previousCertThumbprint := [] } ∧ w'.packages = w.packages ∧
        Parses (w.value .previousCertThumbprint) ∧
        ∀ store c, c ∈ w'.stores store ↔
          c ∈ w.stores store ∧ ¬ Sought (w.value .previousCertThumbprint) c)
      (retireCert w.state) w := by
  apply wp_ite
  · intro _
    apply wp_seq (removeTrustedCertificate_exact _ w)
    rintro _ u - ⟨hf, hparses, hcert⟩
    apply wp_post _ (deleteValue_works .previousCertThumbprint u)
    rintro _ _ - rfl
    refine ⟨hf.machine (by decide) (by decide), ?_, ?_, hf.packages (by decide) (by decide), hparses,
      hcert⟩
    · rw [registry_deleteValue, hf.registry (by decide)]
    · rw [← hf.state (by decide)]
      simp [World.state, World.value_deleteValue]
  · intro hempty
    have hnil : w.value .previousCertThumbprint = [] := by simpa [World.state] using hempty
    have hstate : w.state = { w.state with previousCertThumbprint := [] } := by
      simp [World.state, hnil]
    rw [hnil]
    exact ⟨trivial, rfl, rfl, hstate, rfl, parses_nil,
      fun store c => ⟨fun hc => ⟨hc, not_sought_nil c⟩, fun hc => hc.1⟩⟩

theorem retirePrevious_spec (w : World) :
    wp (removingExec env) (fun _ => True) (fun _ w' => Retired w w') (retirePrevious w.state) w := by
  apply wp_seq (retireCert_spec w)
  rintro _ u - ⟨hmachine, hregistry, hstate, hpackages, hparses, hcert⟩
  apply wp_ite
  · intro _
    apply wp_seq (unstagePackage_exact _ u)
    rintro gone v - ⟨hf, rfl, hinf⟩
    apply wp_post _ (deleteValue_works .previousDriverInf v)
    rintro _ _ - rfl
    refine ⟨(hf.machine (by decide) (by decide)).trans hmachine, ?_, ?_, hparses, ?_, fun p => ?_⟩
    · rw [registry_deleteValue, hf.registry (by decide), hregistry]
    · have hv := (hf.state (by decide)).trans hstate
      have hd : (v.deleteValue .previousDriverInf).state = { v.state with previousDriverInf := [] } := by
        simp [World.state, World.value_deleteValue]
      rw [hd, hv]
      rfl
    · intro store c
      have hstores : (v.deleteValue .previousDriverInf).stores = u.stores :=
        hf.stores (by decide) (by decide)
      rw [hstores]
      exact hcert store c
    · have hp := hinf p
      rw [hpackages] at hp
      exact hp
  · intro hempty
    have hnil : w.value .previousDriverInf = [] := by simpa [World.state] using hempty
    refine ⟨trivial, hmachine, hregistry, ?_, hparses, hcert, fun p => ?_⟩
    · rw [hstate]
      simp [World.state, InstallState.retired, hnil]
    · rw [hpackages, hnil]
      exact ⟨fun hp => ⟨hp, fun hn => hn.1 rfl⟩, fun hp => hp.1⟩

/-- Of the states that can be recorded, `RunInstall` retires only some. -/
inductive RetiredFirst (w : World) : Option InstallState → World → Prop
  | fresh : w.registry = none → RetiredFirst w none w
  | pending : w.state.settled = false → w.state.retired.settled = false →
      RetiredFirst w (some w.state) w
  | retired {w'} : w.registry ≠ none → Retired w w' → RetiredFirst w (some w.state.retired) w'

theorem retireFirst_spec (w : World) :
    wp (removingExec env) (fun _ => True) (RetiredFirst w) retireFirst w := by
  apply wp_seq_of (fun _ _ => trivial) (readState_recorded w)
  rintro state u rfl rfl
  cases hregistry : u.registry with
  | none =>
    have hrecorded : u.recorded = none := by rw [World.recorded, hregistry]; rfl
    rw [hrecorded]
    exact ⟨trivial, .fresh hregistry⟩
  | some values =>
    have hrecorded : u.recorded = some u.state := by rw [World.recorded, hregistry]; rfl
    have hne : u.registry ≠ none := by rw [hregistry]; exact Option.some_ne_none values
    rw [hrecorded]
    apply wp_ite
    · intro _
      apply wp_seq (retirePrevious_spec u)
      rintro _ v - hv
      apply wp_mono (fun _ _ => trivial) _ (readState_recorded v)
      rintro _ _ rfl rfl
      rw [World.recorded, hv.registry, hregistry, hv.state]
      exact .retired hne hv
    · intro hnot
      refine ⟨trivial, ?_⟩
      by_cases hpending : u.value .pendingCertThumbprint = [] ∧ u.value .pendingDriverInf = []
      · have hprevious : u.value .previousCertThumbprint = [] ∧ u.value .previousDriverInf = [] := by
          simpa [World.state, hpending] using hnot
        have hsame : u.state.retired = u.state := by
          simp [World.state, InstallState.retired, hprevious]
        rw [← hsame]
        refine .retired hne ⟨rfl, rfl, hsame.symm, ?_, fun store c => ?_, fun p => ?_⟩
        · rw [hprevious.1]
          exact parses_nil
        · rw [hprevious.1]
          exact ⟨fun hc => ⟨hc, not_sought_nil c⟩, fun hc => hc.1⟩
        · rw [hprevious.2]
          exact ⟨fun hp => ⟨hp, fun hn => hn.1 rfl⟩, fun hp => hp.1⟩
      · have hsettled : u.state.settled = false ∧ u.state.retired.settled = false := by
          simp only [World.state, InstallState.retired, InstallState.settled]
          grind
        exact .pending hsettled.1 hsettled.2

/-! ## What is refused -/

theorem copyPayload_rejects {payloadDir target : WString} (h : filesUnder w target ≠ []) :
    wp (refusingExec env) (fun _ => True) (fun ok w' => ok = false ∧ w' = w)
      (copyPayload payloadDir target) w := by
  simp only [copyPayload, attempt, perform, Prog.perform_bind]
  refine ⟨trivial, fun o r w' he => ?_⟩
  obtain ⟨⟨-, hsame⟩, hx⟩ := refusingExec_eq_some.mp he
  have hok : o = .ok := by simpa [sameFolder, h] using hsame
  subst hok
  have hexec := removingExec_sub env _ _ _ _ hx
  simp only [exec, tried, Option.some.injEq, Prod.mk.injEq] at hexec
  obtain ⟨rfl, rfl⟩ := hexec
  exact ⟨trivial, rfl, rfl⟩

theorem installDirFor_getLast (env : Outcome) : (installDirFor env).getLast? = some 110 := by
  cases env with
  | text s =>
    change (cStr s ++ wide "\\VRLF Virtual Lightgun").getLast? = some 110
    have hlast : (wide "\\VRLF Virtual Lightgun").getLast? = some 110 := by decide
    rw [List.getLast?_append, hlast]
    rfl
  | _ =>
    change (wide "C:\\Program Files\\VRLF Virtual Lightgun").getLast? = some 110
    decide

theorem joinPath_eq {dir : WString} (hnul : 0 ∉ dir) (hsame : sameName dir (installDirFor env))
    (rel : WString) : joinPath dir rel = dir ++ wide "\\" ++ rel := by
  rw [sameName_iff] at hsame
  have hlast : (dir.map toLower).getLast? = some 110 := by
    have hp : foldCase dir = dir.map toLower := by rw [foldCase, cStr_of_no_nul hnul]
    rw [← hp, hsame, foldCase, cStr_installDirFor, List.getLast?_map, installDirFor_getLast]
    rfl
  rw [List.getLast?_map, Option.map_eq_some_iff] at hlast
  obtain ⟨c, hc, hlower⟩ := hlast
  have hsep : ¬ (dir.getLast?.all fun c => c == 92 || c == 47 || c == 58) = true := by
    rw [hc]
    intro hall
    simp only [Option.all_some, Bool.or_eq_true, beq_iff_eq] at hall
    rcases hall with (rfl | rfl) | rfl <;> exact absurd hlower (by decide)
  rw [joinPath, if_neg hsep]

/-- A file of the payload folder is one of the install directory, however the folder is spelled. -/
theorem joinPath_under {payloadDir : WString} (hnul : 0 ∉ payloadDir)
    (hsame : sameName payloadDir (installDirFor env)) (rel : WString) :
    foldCase (joinPath payloadDir rel) =
      foldCase (installDirFor env) ++ (92 :: foldCase rel) := by
  rw [joinPath_eq hnul hsame, List.append_assoc, foldCase_append _ hnul, (sameName_iff _ _).mp hsame]
  congr 1

theorem copyPayload_gone {payloadDir : WString} (hnul : 0 ∉ payloadDir)
    (hsame : sameName payloadDir (installDirFor env)) (h : filesUnder w (installDirFor env) = []) :
    wp (refusingExec env) (fun _ => True)
      (fun ok w' => ok = false ∧ w' = w) (copyPayload payloadDir (installDirFor env)) w := by
  have hsub := refusingExec_sub env
  simp only [copyPayload, attempt, perform, Prog.perform_bind]
  apply wp_attempt_of hsub trivial
  intro _
  refine wp_ite (fun _ => ⟨trivial, rfl, rfl⟩) fun _ => ?_
  apply wp_attempt_of hsub trivial
  intro _
  refine wp_ite (fun _ => ?_) fun _ => ⟨trivial, rfl, rfl⟩
  refine ⟨trivial, fun o r w' he => ?_⟩
  have hnone : ∀ rel, w.machine.fileAt (joinPath payloadDir rel) = none := by
    intro rel
    refine List.find?_eq_none.mpr fun f hf hname => ?_
    have hunder : f.path ∈ filesUnder w (installDirFor env) := by
      refine List.mem_filter.mpr ⟨List.mem_map_of_mem hf, ?_⟩
      rw [(sameName_iff _ _).mp hname, joinPath_under hnul hsame]
      exact List.isPrefixOf_iff_prefix.mpr ⟨foldCase rel, by rw [List.append_assoc]; rfl⟩
    rw [h] at hunder
    exact List.not_mem_nil hunder
  have hx := hsub _ _ _ _ he
  simp only [exec, hnone] at hx
  cases o <;> simp only [Option.some.injEq, Prod.mk.injEq, reduceCtorEq] at hx
  obtain ⟨rfl, rfl⟩ := hx
  exact ⟨trivial, rfl, rfl⟩

/-! ## What is lost -/

theorem runUninstall_empties {dir : WString} (hdir : dir ≠ []) (h : w.value .installDir = dir) :
    wp (removingExec env) (fun _ => True) (fun _ w' => filesUnder w' dir = []) runUninstall w := by
  apply wp_seq_of (fun _ _ => trivial) (readState_spec (removingExec_sub env) (removingExec_reads env))
  rintro (_ | s) u rfl hs
  · exact absurd (h.symm.trans (hs .installDir)) hdir
  have hs : s.installDir = dir := (hs .installDir).trans h
  have hempty : (!s.installDir.isEmpty) = true := by simp [hs, hdir]
  apply wp_seq (wp_true _ u)
  intro _ w₁ _ _
  have recorded : wp (removingExec env) (fun _ => True) (fun _ w' => filesUnder w' dir = [])
      (uninstallRecorded (some s)) w₁ := by
    apply wp_seq (wp_true _ w₁)
    intro _ w₂ _ _
    apply wp_seq (wp_true _ w₂)
    intro _ w₃ _ _
    apply wp_seq (wp_true _ w₃)
    intro _ w₄ _ _
    apply wp_seq (wp_true _ w₄)
    intro _ w₅ _ _
    apply wp_seq (wp_true _ w₅)
    intro _ w₆ _ _
    rw [if_pos hempty, hs]
    exact removeInstallDir_spec dir w₆
  apply wp_seq recorded
  intro _ v _ hv
  apply wp_seq (wp_drop (fun e => e = .registry) (deleteState_effects (by rfl)) v)
  intro _ x _ hx
  exact ⟨trivial, (filesUnder_frame hx (by decide) dir).trans hv⟩

theorem writeValue_works (name : ValueName) (v : WString) (w : World) :
    wp (refusingExec env) (fun _ => True)
      (fun ok w' => ok = true ∧ Sets w (Function.update w.value name (cStr v)) w')
      (writeValue name v) w := by
  have hsub := refusingExec_sub env
  simp only [writeValue, perform, Prog.perform_bind]
  refine ⟨trivial, fun o r u he => ?_⟩
  have hworks := (refusingExec_eq_some.mp he).1.1
  obtain ⟨-, rfl, rfl⟩ | ⟨rfl, -, -⟩ := tried_eq_some.mp (hsub _ _ _ _ he)
  rotate_left
  · simp [writesWork] at hworks
  refine ⟨trivial, fun o r v he => ?_⟩
  have hworks := (refusingExec_eq_some.mp he).1.1
  obtain ⟨-, rfl, rfl⟩ | ⟨rfl, -, -⟩ := tried_eq_some.mp (hsub _ _ _ _ he)
  · exact ⟨trivial, rfl, setValue_sets w name _⟩
  · simp [writesWork] at hworks

/-- An install that is no update is rolled back, and the payload with it. -/
theorem installFresh_empties {payloadDir : WString} (version : WString) (hnul : 0 ∉ payloadDir)
    (hsame : sameName payloadDir (installDirFor env)) (w : World) :
    wp (refusingExec env) (fun _ => True) (fun _ w' => filesUnder w' (installDirFor env) = [])
      (installFresh payloadDir (installDirFor env) version) w := by
  apply wp_seq (writeValue_works .installDir (installDirFor env) w)
  rintro _ u - ⟨rfl, hsets⟩
  have hdir : u.value .installDir = installDirFor env := by
    rw [hsets.value, Function.update_self, cStr_installDirFor]
  have hcopy : wp (refusingExec env) (fun _ => True) (fun ok w' => ok = false ∧ w' = u)
      (copyPayload payloadDir (installDirFor env)) u := by
    by_cases hfiles : filesUnder u (installDirFor env) = []
    · exact copyPayload_gone hnul hsame hfiles
    · exact copyPayload_rejects hfiles
  rw [if_pos rfl]
  apply wp_seq hcopy
  rintro _ v - ⟨rfl, rfl⟩
  exact wp_seq (wp_sub (refusingExec_removing env) (runUninstall_empties (installDirFor_ne_nil env) hdir))
    fun _ x _ hx => ⟨trivial, hx⟩

/-! ## What is kept -/

theorem failUpdate_nothing (old : InstallState) (w : World) :
    wp (removingExec env) (fun _ => True)
      (fun code w' => code = 1 ∧ w' = (w.deleteValue .pendingDriverInf).deleteValue .pendingCertThumbprint)
      (failUpdate old [] []) w := by
  have hother : ∀ inf, wp (removingExec env) (fun _ => True) (fun _ w' => w' = w)
      (unstageOther [] inf) w := fun inf =>
    wp_ite (fun _ => ⟨trivial, rfl⟩) fun _ => ⟨trivial, rfl⟩
  apply wp_seq (hother old.driverInf)
  rintro _ u - rfl
  have hremove : wp (removingExec env) (fun _ => True) (fun _ w' => w' = u)
      (removeTrustedCertificate []) u := ⟨trivial, rfl⟩
  apply wp_seq hremove
  rintro _ v - rfl
  apply wp_seq (deleteValue_works .pendingDriverInf v)
  rintro _ x - rfl
  apply wp_seq (deleteValue_works .pendingCertThumbprint _)
  rintro _ y - rfl
  exact ⟨trivial, rfl, rfl⟩

theorem runUpdate_refused {old : InstallState} (payloadDir version : WString)
    (hplace : sameName old.installDir (installDirFor env))
    (h : filesUnder w (installDirFor env) ≠ []) :
    wp (refusingExec env) (fun _ => True)
      (fun code w' => code = 1 ∧ w' = (w.deleteValue .pendingDriverInf).deleteValue .pendingCertThumbprint)
      (runUpdate old payloadDir version) w := by
  have hfiles : filesUnder w old.installDir ≠ [] := by
    unfold filesUnder
    rw [(sameName_iff _ _).mp hplace]
    exact h
  apply wp_seq (copyPayload_rejects hfiles)
  rintro _ u - ⟨rfl, rfl⟩
  exact wp_sub (refusingExec_removing env) (failUpdate_nothing old u)

/-! ## The run -/

theorem modeIn_chosen (state : Option InstallState) (dir : WString) (w : World) :
    Chosen state dir (modeIn w state dir) :=
  chooseInstallMode_chosen state dir _ _ _ rfl

theorem RetiredFirst.machine {state : Option InstallState} {w' : World} (h : RetiredFirst w state w') :
    w'.machine = w.machine := by
  cases h with
  | fresh => rfl
  | pending => rfl
  | retired _ hr => exact hr.machine

theorem modeIn_machine {w w' : World} (h : w'.machine = w.machine) : modeIn w' = modeIn w := by
  unfold modeIn ourDevices devicesOf
  rw [h]

/-- What is retired first decides on an update where the install can be updated, and only there. -/
theorem RetiredFirst.update {state : Option InstallState} {w' : World} {dir : WString}
    (h : RetiredFirst w state w') (hmode : modeIn w' state dir = .update) :
    w.registry ≠ none ∧ state = some w.state.retired ∧ Retired w w' := by
  obtain ⟨s, hs, -, hsettled, -⟩ := (modeIn_chosen state dir w').update hmode
  cases h with
  | fresh => cases hs
  | pending hn =>
    cases hs
    rw [hsettled] at hn
    cases hn
  | retired hne hr => exact ⟨hne, rfl, hr⟩

theorem RetiredFirst.updatable {state : Option InstallState} {w' : World} {dir : WString}
    (h : RetiredFirst w state w') (hu : Updatable dir w) : modeIn w' state dir = .update := by
  rw [modeIn_machine h.machine]
  cases h with
  | fresh hnone => exact absurd hnone hu.recorded
  | pending _ hn =>
    obtain ⟨s, hs, -, hsettled, -⟩ := (modeIn_chosen _ dir w).update hu.mode
    cases hs
    rw [hsettled] at hn
    cases hn
  | retired => exact hu.mode

theorem Retired.value {w' : World} (h : Retired w w') {name : ValueName} (hn : ¬ IsOther name) :
    w'.value name = w.value name := by
  have hs := h.state
  simp only [World.state, InstallState.retired, InstallState.mk.injEq] at hs
  obtain ⟨hversion, hdir, hcert, hinf, -⟩ := hs
  simp only [IsOther, ne_eq, not_and_or, not_not] at hn
  rcases hn with rfl | rfl | rfl | rfl
  · exact hdir
  · exact hversion
  · exact hcert
  · exact hinf

theorem Retired.keeps {w' : World} {dir : WString} (h : Retired w w') (hu : Updatable dir w) :
    KeepsAll dir w ((w'.deleteValue .pendingDriverInf).deleteValue .pendingCertThumbprint) where
  install := by
    refine ⟨fun name hn => ?_, fun store c hc ht => ?_, fun p hp hs => ?_, ?_⟩
    · rw [World.value_deleteValue, World.value_deleteValue, if_neg, if_neg, h.value hn]
      · rintro rfl
        exact hn (by decide)
      · rintro rfl
        exact hn (by decide)
    · exact (h.cert store c).mpr ⟨hc, hu.cert store c hc ht⟩
    · exact (h.inf p).mpr ⟨hp, fun hn => hu.inf p hp hs hn.1 hn.2⟩
    · exact congrArg Machine.devices h.machine
  files f hf _ := by
    change f ∈ w'.machine.files
    rw [h.machine]
    exact hf

theorem Retired.updatable {w' : World} {dir : WString} (h : Retired w w') (hne : w.registry ≠ none)
    (hmode : modeIn w (some w.state.retired) dir = .update)
    (hk : KeepsAll dir w ((w'.deleteValue .pendingDriverInf).deleteValue .pendingCertThumbprint)) :
    Updatable dir w where
  recorded := hne
  mode := hmode
  parses := h.parses
  cert store c hc ht := ((h.cert store c).mp (hk.install.trusted store c hc ht)).2
  inf p hp hs hn hn' := ((h.inf p).mp (hk.install.staged p hp hs)).2 ⟨hn, hn'⟩

theorem not_keepsAll {dir : WString} {w' : World} (h : filesUnder w dir ≠ [])
    (h' : filesUnder w' dir = []) : ¬ KeepsAll dir w w' := by
  intro hk
  obtain ⟨path, hp⟩ := List.exists_mem_of_ne_nil _ h
  obtain ⟨hm, hunder⟩ := List.mem_filter.mp hp
  obtain ⟨f, hf, rfl⟩ := List.mem_map.mp hm
  have hf' : f.path ∈ filesUnder w' dir :=
    List.mem_filter.mpr ⟨List.mem_map_of_mem (hk.files f hf hp), hunder⟩
  rw [h'] at hf'
  exact List.not_mem_nil hf'

theorem runInstall_refused {payloadDir : WString} (version : WString) (hnul : 0 ∉ payloadDir)
    (hsame : sameName payloadDir (installDirFor env)) (h : filesUnder w (installDirFor env) ≠ []) :
    wp (refusingExec env) (fun _ => True)
      (fun code w' => (Updatable (installDirFor env) w → code = 1 ∧ KeepsAll (installDirFor env) w w') ∧
        (KeepsAll (installDirFor env) w w' → Updatable (installDirFor env) w))
      (runInstall payloadDir version) w := by
  have hremoving := refusingExec_removing env
  have hsub := refusingExec_sub env
  apply wp_seq (wp_sub hremoving (retireFirst_spec w))
  intro state u _ hr
  have hdefault := wp_mono (fun _ _ => trivial) (fun _ _ hw hq => And.intro hw hq)
    (@defaultInstallDir_spec env _ hsub (fun o v x he => by
      simpa [removalsWork] using (removingExec_eq_some.mp (hremoving _ _ _ _ he)).1.1) u)
  apply wp_seq hdefault
  rintro _ u - ⟨rfl, rfl⟩
  apply wp_seq_of (fun _ _ => trivial) (wp_sub hremoving (installMode_decides state _ _))
  rintro mode u rfl hmode
  -- Whatever is no update loses the files, and could not have been updated.
  have lost : ∀ {p : Flow ℕ}, mode ≠ .update →
      wp (refusingExec env) (fun _ => True) (fun _ w' => filesUnder w' (installDirFor env) = []) p u →
      wp (refusingExec env) (fun _ => True)
        (fun code w' => (Updatable (installDirFor env) w → code = 1 ∧ KeepsAll (installDirFor env) w w') ∧
          (KeepsAll (installDirFor env) w w' → Updatable (installDirFor env) w)) p u := by
    intro p hne hp
    apply wp_post _ hp
    intro code w' _ hempty
    refine ⟨fun hu => absurd (hmode.trans (hr.updatable hu)) hne, fun hk => ?_⟩
    exact absurd hk (not_keepsAll h hempty)
  have hinstall := @installFresh_empties env payloadDir version hnul hsame
  cases mode with
  | update =>
    obtain ⟨hne, rfl, hretired⟩ := hr.update hmode.symm
    obtain ⟨s, hs, -, -, hplace⟩ := (modeIn_chosen _ _ u).update hmode.symm
    cases hs
    have hfiles : filesUnder u (installDirFor env) ≠ [] := by
      unfold filesUnder
      rw [hretired.machine]
      exact h
    apply wp_post _ (runUpdate_refused payloadDir version hplace hfiles)
    rintro code w' - ⟨rfl, rfl⟩
    refine ⟨fun hu => ⟨rfl, hretired.keeps hu⟩, hretired.updatable hne ?_⟩
    rw [← modeIn_machine hretired.machine]
    exact hmode.symm
  | reinstall =>
    apply lost (by decide)
    exact wp_seq (wp_true _ u) fun _ x _ _ => hinstall x
  | fresh => exact lost (by decide) (hinstall u)

/-! ## No exception -/

/-- The program throws no exception. -/
abbrev Calm {α : Type} (p : Flow α) : Prop := p.Calls (fun c => c ≠ .terminate) fun _ _ => True

theorem readString_calm (name : ValueName) : Calm (readString name) := by
  simp only [readString, perform, Prog.perform_bind, Prog.calls_call]
  refine ⟨by simp, fun r _ => Prog.calls_ite (fun _ => ⟨by simp, ?_⟩) fun _ => trivial⟩
  rintro (_ | value) - <;> trivial

theorem readState_calm : Calm readState := by
  simp only [readState, perform, Prog.perform_bind, Prog.calls_call]
  refine ⟨by simp, fun r _ => Prog.calls_ite (fun _ => ?_) fun _ => trivial⟩
  iterate 8 refine Prog.calls_bind (readString_calm _) fun _ => ?_
  trivial

theorem deleteValue_calm (name : ValueName) : Calm (deleteValue name) := by
  simp [deleteValue]

theorem unstagePackage_calm (publishedInf : WString) : Calm (unstagePackage publishedInf) :=
  Prog.calls_ite (fun _ => trivial) fun _ => by simp [Prog.perform]

theorem removeFound_calm (store : StoreName) (hash : List Byte) (n : ℕ) :
    Calm (removeFound store hash n) := by
  induction n with
  | zero => trivial
  | succ n ih =>
    simp only [removeFound, perform, Prog.perform_bind, Prog.calls_call]
    refine ⟨by simp, ?_⟩
    rintro (_ | found) -
    · trivial
    · exact ⟨by simp, fun _ _ => Prog.calls_ite (fun _ => ih) fun _ => trivial⟩

theorem removeFrom_calm (hash : List Byte) (stores : List StoreName) :
    Calm (removeFrom hash stores) := by
  induction stores with
  | nil => trivial
  | cons store stores ih =>
    simp only [removeFrom, perform, Prog.perform_bind, Prog.calls_call]
    refine ⟨by simp, ?_⟩
    rintro (_ | size) -
    · exact ih
    · exact Prog.calls_bind (removeFound_calm _ _ _) fun _ => ih

theorem removeTrustedCertificate_calm {thumbprint : WString} (h : Parses thumbprint) :
    Calm (removeTrustedCertificate thumbprint) := by
  refine Prog.calls_ite (fun hlength => ?_) fun _ => trivial
  cases hhash : hashBytes 20 thumbprint with
  | none => exact absurd hhash (h hlength)
  | some hash => exact removeFrom_calm hash storeNames

theorem retirePrevious_calm {state : InstallState} (h : Parses state.previousCertThumbprint) :
    Calm (retirePrevious state) := by
  refine Prog.calls_bind (Prog.calls_ite (fun _ => ?_) fun _ => trivial) fun _ => ?_
  · exact Prog.calls_bind (removeTrustedCertificate_calm h) fun _ => deleteValue_calm _
  · refine Prog.calls_ite (fun _ => ?_) fun _ => trivial
    exact Prog.calls_bind (unstagePackage_calm _) fun _ =>
      Prog.calls_ite (fun _ => deleteValue_calm _) fun _ => trivial

theorem countDevices_calm (presentOnly : Bool) : Calm (countDevices presentOnly) := by
  simp only [countDevices, perform, Prog.perform_bind, Prog.calls_call]
  refine ⟨by simp, ?_⟩
  rintro (_ | devs) -
  · trivial
  · induction devs with
    | nil => trivial
    | cons dev devs ih =>
      simp only [countIn, isOurDevice, attempt, perform, Prog.perform_bind, Prog.calls_call]
      refine ⟨by simp, fun _ _ => Prog.calls_ite (fun _ => ⟨by simp, fun _ _ => ?_⟩) fun _ => trivial⟩
      exact Prog.calls_bind (Prog.calls_ite (fun _ => trivial) fun _ => trivial) fun _ =>
        Prog.calls_bind ih fun _ => trivial

theorem installMode_calm (state : Option InstallState) (dir : WString) :
    Calm (installMode state dir) :=
  Prog.calls_bind (countDevices_calm false) fun _ =>
    Prog.calls_bind (countDevices_calm true) fun _ => trivial

theorem copyPayload_calm (source target : WString) : Calm (copyPayload source target) := by
  have copies : ∀ rels, Calm (copyFiles source target rels) := by
    intro rels
    induction rels with
    | nil => trivial
    | cons rel rels ih =>
      simp only [copyFiles, perform, Prog.perform_bind, Prog.calls_call]
      exact ⟨by simp, fun _ _ => Prog.calls_ite (fun _ => ih) fun _ => trivial⟩
  simp only [copyPayload, attempt, perform, Prog.perform_bind, Prog.calls_call]
  refine ⟨by simp, fun _ _ => Prog.calls_ite (fun _ => trivial) fun _ => ⟨by simp, fun _ _ => ?_⟩⟩
  exact Prog.calls_ite (fun _ => copies _) fun _ => trivial

theorem failUpdate_calm (old : InstallState) : Calm (failUpdate old [] []) := by
  refine Prog.calls_bind (Prog.calls_ite (fun _ => trivial) fun _ => trivial) fun _ => ?_
  exact Prog.calls_bind (removeTrustedCertificate_calm parses_nil) fun _ =>
    Prog.calls_bind (deleteValue_calm _) fun _ => Prog.calls_bind (deleteValue_calm _) fun _ => trivial

theorem defaultInstallDir_calm : Calm defaultInstallDir := by
  simp only [defaultInstallDir, perform, Prog.perform_bind, Prog.calls_call]
  refine ⟨by simp, ?_⟩
  rintro (_ | base) - <;> trivial

theorem retireFirst_meets (hparses : Parses (w.value .previousCertThumbprint)) :
    retireFirst.Meets (refusingExec env) (fun c => c ≠ .terminate) w := by
  apply meets_seq (meets_of_calls readState_calm w)
    (wp_sub (refusingExec_removing env) (readState_recorded w))
  rintro state u rfl rfl
  cases hregistry : u.registry with
  | none =>
    have hrecorded : u.recorded = none := by rw [World.recorded, hregistry]; rfl
    rw [hrecorded]
    trivial
  | some values =>
    have hrecorded : u.recorded = some u.state := by rw [World.recorded, hregistry]; rfl
    rw [hrecorded]
    apply meets_of_calls
    refine Prog.calls_ite (fun _ => ?_) fun _ => trivial
    exact Prog.calls_bind (retirePrevious_calm hparses) fun _ => readState_calm

theorem runInstall_meets (payloadDir version : WString) (h : filesUnder w (installDirFor env) ≠ [])
    (hu : Updatable (installDirFor env) w) :
    (runInstall payloadDir version).Meets (refusingExec env) (fun c => c ≠ .terminate) w := by
  have hremoving := refusingExec_removing env
  have hsub := refusingExec_sub env
  apply meets_seq (retireFirst_meets hu.parses) (wp_sub hremoving (retireFirst_spec w))
  intro state u _ hr
  have hdefault := @defaultInstallDir_spec env _ hsub (fun o v x he => by
    simpa [removalsWork] using (removingExec_eq_some.mp (hremoving _ _ _ _ he)).1.1) u
  apply meets_seq (meets_of_calls defaultInstallDir_calm u) hdefault
  rintro _ u rfl rfl
  apply meets_seq (meets_of_calls (installMode_calm _ _) u)
    (wp_sub hremoving (installMode_decides state _ u))
  rintro mode u rfl hmode
  have hupdate := hr.updatable hu
  rw [hupdate] at hmode
  obtain ⟨-, rfl, hretired⟩ := hr.update hupdate
  obtain ⟨s, hs, -, -, hplace⟩ := (modeIn_chosen _ _ u).update hupdate
  cases hs
  subst hmode
  have hfiles : filesUnder u w.state.retired.installDir ≠ [] := by
    unfold filesUnder
    rw [hretired.machine, (sameName_iff _ _).mp hplace]
    exact h
  apply meets_seq (meets_of_calls (copyPayload_calm _ _) u) (copyPayload_rejects hfiles)
  rintro _ u - ⟨rfl, rfl⟩
  exact meets_of_calls (failUpdate_calm _) u

/-- Of what Windows can answer when nothing fails. -/
def answer (env : Outcome) : Call → Outcome
  | .getEnvironmentVariable => env
  | .coCreateGuid => .text []
  | .winUHidStartDevice _ => .pnp false [] []
  | .cmGetDeviceIdList _ => .ids .failed
  | .ncryptCreatePersistedKey _ _ | .certCreateSelfSignCertificate _ | .signerSignEx2 _ _ => .fail
  | .setupCopyOEMInf _ | .setupDiRegisterDevice _ | .updateDriverForPlugAndPlayDevices _ _ => .fail
  | .setupDiGetDriverInfPath | .copyFile _ _ | .moveFile _ _ => .fail
  | .cmGetDeviceIdListSize _ | .cmGetDeviceId => .fail
  | _ => .ok

theorem refusingExec_answers {env : Outcome} (henv : env = .fail ∨ ∃ s, env = .text s) (c : Call)
    (w : World) (hc : c ≠ .terminate) : ∃ o r w', refusingExec env c o w = some (r, w') := by
  have answers : ∀ x : c.Resp × World, writesWork c (answer env c) = true →
      sameFolder c (answer env c) w = true → removalsWork env c (answer env c) = true →
      listsDevices c (answer env c) = true → exec c (answer env c) w = some x →
      ∃ o r w', refusingExec env c o w = some (r, w') := by
    intro x h₁ h₂ h₃ h₄ hx
    refine ⟨answer env c, x.1, x.2, ?_⟩
    exact refusingExec_eq_some.mpr ⟨⟨h₁, h₂⟩, removingExec_eq_some.mpr ⟨⟨h₃, h₄⟩, hx⟩⟩
  cases c with
  | terminate => exact absurd rfl hc
  | getEnvironmentVariable =>
    rcases henv with rfl | ⟨s, rfl⟩ <;> exact answers _ rfl rfl (by simp [removalsWork, answer]) rfl rfl
  | attempt what => cases what <;> exact answers _ rfl rfl rfl rfl rfl
  | certOpenStore store sought => cases sought <;> exact answers _ rfl rfl rfl rfl rfl
  | setupCopyOEMInf inf =>
    have hfail : copyOEMInf inf .fail w = some (none, w) :=
      copyOEMInf_eq_some.mpr (.inl ⟨rfl, rfl, rfl⟩)
    exact answers (none, w) rfl rfl rfl rfl hfail
  | _ => exact answers _ rfl rfl rfl rfl rfl

end

/-- With files in the install directory, an install from there keeps everything exactly if it is an
update. -/
theorem refused_install_keeps {env : Outcome} {payloadDir version : WString} {w : World}
    (henv : env = .fail ∨ ∃ s, env = .text s) (hnul : 0 ∉ payloadDir)
    (hsame : sameName payloadDir (installDirFor env)) (h : filesUnder w (installDirFor env) ≠ []) :
    Refuses env payloadDir version w ↔ Updatable (installDirFor env) w := by
  have hrun := runInstall_refused version hnul hsame h
  constructor
  · intro hrefuses
    obtain ⟨code, w', hs⟩ := Steps.exists_end (refusingExec_answers henv · ·) fun q w' hs c hq hc =>
      (hrefuses q w' hs).1 (hc ▸ hq)
    exact (hs.post hrun).2 ((hrefuses _ w' hs).2 code rfl).2
  · rintro hu p w' hs
    refine ⟨fun hp => hs.meets (runInstall_meets payloadDir version h hu) hp rfl, ?_⟩
    rintro code rfl
    exact (hs.post hrun).1 hu

/-- The install is there, and would be updated. -/
def installed (w : World) : Bool :=
  w.registry.isSome && modeIn w (some w.state.retired) (installDirFor .fail) == .update &&
    (w.value .previousCertThumbprint).isEmpty && (w.value .previousDriverInf).isEmpty &&
    !(filesUnder w (installDirFor .fail)).isEmpty

theorem refused_install_keeps_first :
    ∃ w, Rest setup Always Always newPc w ∧
      Refuses .fail (installDirFor .fail) (wide "1") w := by
  have hplay : ((setup.playUntil firstInstall newPc).any installed) = true := by decide +kernel
  obtain ⟨w, hw, hc⟩ := (Option.any_eq_true _ _).mp hplay
  simp only [installed, Bool.and_eq_true, Bool.not_eq_true', List.isEmpty_eq_false_iff, beq_iff_eq,
    List.isEmpty_iff, Option.isSome_iff_ne_none] at hc
  obtain ⟨⟨⟨⟨hrecorded, hmode⟩, hcert⟩, hinf⟩, hfiles⟩ := hc
  have hu : Updatable (installDirFor .fail) w := by
    refine ⟨hrecorded, hmode, ?_, fun store c _ _ => ?_, fun p _ _ hne => absurd hinf hne⟩
    · rw [hcert]
      exact parses_nil
    · rw [hcert]
      exact not_sought_nil c
  exact ⟨w, Rest.playUntil .init hw fun _ _ _ => trivial,
    (refused_install_keeps (.inl rfl) (by decide) (by decide) hfiles).mpr hu⟩

/-- Behind a removal there is nothing left to copy. -/
def nothingToCopy : Call → Outcome
  | .copyFile _ _ => .fail
  | c => succeed (sha1Of 2) [] c

/-- The device node was removed, and everything else is as setup left it. -/
def withoutDevices (w : World) : World := { w with machine := { w.machine with devices := [] } }

def emptied (w : World) (code : ℕ) (w' : World) : Bool :=
  code == 1 && !(filesUnder w (installDirFor .fail)).isEmpty &&
    (filesUnder w' (installDirFor .fail)).isEmpty

/-- An install without its device node is removed, before it turns out that there is nothing to
install it from. -/
theorem refused_install_removes :
    ∃ w, Rest setup Always Always newPc w ∧
      ¬ Refuses .fail (installDirFor .fail) (wide "1") w := by
  have hplay : ((setup.playUntil firstInstall newPc).any fun w =>
      (runInstall (installDirFor .fail) (wide "1")).endsWith (refusingExec .fail) nothingToCopy
        (emptied (withoutDevices w)) (withoutDevices w)) = true := by decide +kernel
  obtain ⟨w, hw, hc⟩ := (Option.any_eq_true _ _).mp hplay
  obtain ⟨code, w', hs, hend⟩ := Prog.endsWith_steps hc
  simp only [emptied, Bool.and_eq_true, Bool.not_eq_true', List.isEmpty_eq_false_iff,
    List.isEmpty_iff] at hend
  have hrest : Rest setup Always Always newPc w := Rest.playUntil .init hw fun _ _ _ => trivial
  refine ⟨withoutDevices w, hrest.finish (l := .meanwhile (withoutDevices w).machine) rfl .refl trivial,
    fun hr => ?_⟩
  exact not_keepsAll hend.1.2 hend.2 ((hr _ w' hs).2 code rfl).2

end VirtualGun.Setup
