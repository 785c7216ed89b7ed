import VirtualGun.Setup.Uninstall

/-!
# The recorded package and its certificate

`DriverInf` and `CertThumbprint` are a pair: the package of that name is signed by that certificate,
which is trusted. Setup takes the pair apart when it uninstalls and when it promotes an update. It puts
it together again, unless Windows does not let it read what it recorded or remove the package.
-/

open VirtualGun.Program

namespace VirtualGun.Setup

/-! ## The pair -/

/-- The certificate that `CertThumbprint` names signed the catalog of the package, and is trusted. -/
def Vouched (w : World) (p : Package) : Prop :=
  ∃ c ∈ p.signer, thumbprintOf c = w.value .certThumbprint ∧ ∀ store, c ∈ w.stores store

def Paired (w : World) : Prop :=
  w.value .driverInf ≠ [] → ∀ p ∈ w.packages, sameName p.published (w.value .driverInf) → Vouched w p

/-- There is no package that `DriverInf` names. -/
def DriverGone (w : World) : Prop :=
  w.value .driverInf ≠ [] → ∀ p ∈ w.packages, ¬ sameName p.published (w.value .driverInf)

/-- A promotion recorded the old package as the previous one, and not yet the new one. -/
def Midway (w : World) : Prop :=
  w.value .previousDriverInf ≠ [] ∧ sameName (w.value .previousDriverInf) (w.value .driverInf)

instance (w : World) : Decidable (Midway w) := by
  unfold Midway
  infer_instance

/-- What is to be retired is not the recorded certificate. -/
def RetiresOther (w : World) : Prop :=
  ∀ c, thumbprintOf c = w.value .certThumbprint →
    hashBytes 20 (w.value .previousCertThumbprint) ≠ some c.hash.bytes

structure Firm (w : World) : Prop where
  paired : Paired w
  other : RetiresOther w

/-- A promotion takes the pair apart, and an update is pending until it is together again. -/
structure SoundPair (w : World) : Prop where
  apart : ¬ Midway w → Paired w
  settled : w.value .pendingCertThumbprint = [] → Firm w

/-- What an uninstall leaves: the certificate is free to go. -/
structure Razed (w : World) : Prop where
  gone : DriverGone w
  settled : w.value .pendingCertThumbprint = [] → RetiresOther w

/-- The recorded values are as they were, no package came, and the recorded certificate is trusted
where it was. -/
structure SparesPair (w w' : World) : Prop where
  value : w'.value = w.value
  packages : w'.packages ⊆ w.packages
  stores : ∀ c, thumbprintOf c = w.value .certThumbprint → ∀ store, c ∈ w.stores store → c ∈ w'.stores store

section
variable {u v w w' : World} {values : ValueName → WString}

theorem SparesPair.refl (w : World) : SparesPair w w :=
  ⟨rfl, List.Subset.refl _, fun _ _ _ h => h⟩

theorem SparesPair.trans (h : SparesPair u v) (h' : SparesPair v w) : SparesPair u w where
  value := h'.value.trans h.value
  packages := List.Subset.trans h'.packages h.packages
  stores c hc store hin := h'.stores c (by rw [h.value]; exact hc) store (h.stores c hc store hin)

theorem DriverGone.paired (h : DriverGone w) : Paired w :=
  fun hne p hp hsame => absurd hsame (h hne p hp)

theorem Firm.sound (h : Firm w) : SoundPair w := ⟨fun _ => h.paired, fun _ => h⟩

theorem Razed.sound (h : Razed w) : SoundPair w :=
  ⟨fun _ => h.gone.paired, fun hp => ⟨h.gone.paired, h.settled hp⟩⟩

theorem Vouched.spares {p : Package} (h : Vouched w p) (hs : SparesPair w w') : Vouched w' p := by
  obtain ⟨c, hc, ht, hin⟩ := h
  exact ⟨c, hc, by rw [hs.value]; exact ht, fun store => hs.stores c ht store (hin store)⟩

theorem Paired.spares (h : Paired w) (hs : SparesPair w w') : Paired w' := by
  intro hne p hp hsame
  rw [hs.value] at hne hsame
  exact (h hne p (hs.packages hp) hsame).spares hs

theorem RetiresOther.of_value (h : RetiresOther w) (hv : w'.value = w.value) : RetiresOther w' := by
  unfold RetiresOther
  rw [hv]
  exact h

theorem Firm.spares (h : Firm w) (hs : SparesPair w w') : Firm w' :=
  ⟨h.paired.spares hs, h.other.of_value hs.value⟩

theorem SoundPair.spares (h : SoundPair w) (hs : SparesPair w w') : SoundPair w' where
  apart hm := (h.apart (by unfold Midway at hm ⊢; rwa [hs.value] at hm)).spares hs
  settled hp := (h.settled (by rwa [hs.value] at hp)).spares hs

theorem DriverGone.shrink (h : DriverGone w) (hv : w'.value = w.value) (hp : w'.packages ⊆ w.packages) :
    DriverGone w' := by
  intro hne p hmem
  rw [hv] at hne ⊢
  exact h hne p (hp hmem)

theorem Razed.shrink (h : Razed w) (hv : w'.value = w.value) (hp : w'.packages ⊆ w.packages) : Razed w' where
  gone := h.gone.shrink hv hp
  settled hpending := (h.settled (by rwa [hv] at hpending)).of_value hv

theorem razed_empty (h : ∀ name, w.value name = []) : Razed w where
  gone hne := absurd (h _) hne
  settled _ c hc := absurd ((h _).symm.trans hc.symm) (thumbprintOf_ne_nil c)

theorem Paired.sets (h : Paired w) (hs : Sets w values w') (hinf : values .driverInf = w.value .driverInf)
    (hcert : values .certThumbprint = w.value .certThumbprint) : Paired w' := by
  intro hne p hp hsame
  rw [hs.value, hinf] at hne hsame
  rw [hs.packages] at hp
  obtain ⟨c, hc, ht, hin⟩ := h hne p hp hsame
  exact ⟨c, hc, by rw [hs.value, hcert]; exact ht, fun store => by rw [hs.stores]; exact hin store⟩

theorem DriverGone.sets (h : DriverGone w) (hs : Sets w values w')
    (hinf : values .driverInf = w.value .driverInf) : DriverGone w' := by
  intro hne p hp
  rw [hs.value, hinf] at hne ⊢
  rw [hs.packages] at hp
  exact h hne p hp

theorem RetiresOther.sets (h : RetiresOther w) (hs : Sets w values w')
    (hcert : values .certThumbprint = w.value .certThumbprint)
    (hprevious : values .previousCertThumbprint = w.value .previousCertThumbprint ∨
      values .previousCertThumbprint = []) : RetiresOther w' := by
  intro c hc
  rw [hs.value, hcert] at hc
  rw [hs.value]
  rcases hprevious with hp | hp
  · rw [hp]
    exact h c hc
  · rw [hp]
    exact fun hnil => by cases hnil

theorem Firm.sets (h : Firm w) (hs : Sets w values w') (hinf : values .driverInf = w.value .driverInf)
    (hcert : values .certThumbprint = w.value .certThumbprint)
    (hprevious : values .previousCertThumbprint = w.value .previousCertThumbprint ∨
      values .previousCertThumbprint = []) : Firm w' :=
  ⟨h.paired.sets hs hinf hcert, h.other.sets hs hcert hprevious⟩

theorem hashBytes_thumbprintOf (c : Certificate) : hashBytes 20 (thumbprintOf c) = some c.hash.bytes := by
  rw [thumbprintOf, ← hashBytes_hexUpper c.hash.bytes, c.hash.length_eq]

end

/-! ## What became of it -/

inductive Standing where
  /-- Since the package was recorded, Windows let setup read and remove as it meant to. -/
  | sound
  /-- Setup could not read what is recorded, or not remove the package. -/
  | shaken
  /-- After that, the certificate was removed, or another one was recorded over it. -/
  | lost
  deriving DecidableEq, Repr

def shake (x : World × Standing) : Standing :=
  match x.2 with
  | .sound => if Midway x.1 then .lost else .shaken
  | standing => standing

def wreck : Standing → Standing
  | .shaken => .lost
  | standing => standing

/-- The standing of the pair behind a call. -/
def standing : Call → Outcome → World × Standing → Standing
  | .regSetValue .driverInf _, .ok, _ => .sound
  | .regOpenKey, .fail, x | .regGetValueSize _, .fail, x | .regGetValue _, .fail, x => shake x
  | .setupUninstallOEMInf published, .fail, x =>
    if sameName published (x.1.value .driverInf) then shake x else x.2
  | .regSetValue .certThumbprint _, .ok, x | .regDeleteKeyValue .certThumbprint, .ok, x => wreck x.2
  | .certDeleteCertificateFromStore _ found, .ok, x =>
    if thumbprintOf found = x.1.value .certThumbprint then wreck x.2 else x.2
  | _, _, x => x.2

/-- The calls of setup, with the standing of the pair beside the world. -/
def standingExec : Exec Call Call.Resp Outcome (World × Standing) :=
  fun c o x => (exec c o x.1).map fun y => (y.1, y.2, standing c o x)

/-- The catalog beside the INF is signed by the certificate that `CertThumbprint` names. -/
def signedByRecorded (inf : WString) (w : World) : Bool :=
  ((w.machine.fileAt (catalogOf inf)).bind (·.signer)).any fun c => thumbprintOf c == w.value .certThumbprint

/-- A new certificate has another hash than the recorded ones. -/
def otherHash : Call → Outcome → World → Bool
  | .certCreateSelfSignCertificate _, .certificate hash, w =>
    hashBytes 20 (w.value .certThumbprint) != some hash.bytes &&
      hashBytes 20 (w.value .previousCertThumbprint) != some hash.bytes
  | _, _, _ => true

/-- What `SetupCopyOEMInf` hands back is a new package, in an update not under the name that `DriverInf`
has, or it is the package that `DriverInf` names, and the pair is not lost. -/
def keepsSignature : Call → Outcome → World × Standing → Bool
  | .setupCopyOEMInf inf, .staged name, x =>
    signedByRecorded inf x.1 || !sameName name (x.1.value .driverInf)
  | .setupCopyOEMInf _, .kept name, x =>
    !(x.1.value .driverInf).isEmpty && sameName name (x.1.value .driverInf) && x.2 != .lost
  | c, o, x => otherHash c o x.1

abbrev signingExec : Exec Call Call.Resp Outcome (World × Standing) := standingExec.within keepsSignature

def signingSetup : System Event Call Call.Resp Outcome (World × Standing) ℕ where
  exec := signingExec
  arrive := fun event x => (arrive event x.1).map (·, x.2)
  handler := handler

/-- The calls that leave a sound pair sound. -/
abbrev soundExec : Exec Call Call.Resp Outcome World :=
  exec.within fun c o w => standing c o (w, .sound) == .sound

abbrev hashingExec : Exec Call Call.Resp Outcome World := exec.within otherHash

/-- The pair is as its standing says. -/
structure PairInv (x : World × Standing) : Prop where
  sound : x.2 = .sound → SoundPair x.1
  shaken : x.2 = .shaken → Paired x.1

/-- A call that neither stages nor records a package. -/
def Quiet : Call → Prop
  | .setupCopyOEMInf _ | .regSetValue .driverInf _ => False
  | _ => True

section
variable {x y : World × Standing} {w w' : World} {c : Call} {o : Outcome} {r : c.Resp}

theorem soundExec_sub : soundExec.Sub exec := Exec.within_sub _ _

theorem hashingExec_sub : hashingExec.Sub exec := Exec.within_sub _ _

theorem signing_call (he : signingExec c o x = some (r, y)) :
    keepsSignature c o x = true ∧ exec c o x.1 = some (r, y.1) ∧ y.2 = standing c o x := by
  obtain ⟨hok, hx⟩ := Exec.within_eq_some.mp he
  obtain ⟨⟨r', w'⟩, hexec, hy⟩ := Option.map_eq_some_iff.mp hx
  simp only [Prod.mk.injEq] at hy
  obtain ⟨rfl, rfl⟩ := hy
  exact ⟨hok, hexec, rfl⟩

theorem otherHash_of_quiet (hc : Quiet c) (hok : keepsSignature c o x = true) : otherHash c o x.1 = true := by
  cases c with
  | setupCopyOEMInf => exact hc.elim
  | _ => exact hok

theorem shake_ne_sound (x : World × Standing) : shake x ≠ .sound := by
  unfold shake
  split
  · split <;> simp
  · next h => exact h

theorem wreck_eq_sound {s : Standing} (h : wreck s = .sound) : s = .sound := by
  cases s <;> first | rfl | cases h

theorem wreck_ne_shaken (s : Standing) : wreck s ≠ .shaken := by
  cases s <;> simp [wreck]

/-- No call but the recording of a package makes a pair sound. -/
theorem standing_sound (hc : Quiet c) (h : standing c o x = .sound) : x.2 = .sound := by
  unfold standing at h
  split at h
  · exact hc.elim
  · exact absurd h (shake_ne_sound x)
  · exact absurd h (shake_ne_sound x)
  · exact absurd h (shake_ne_sound x)
  · split at h
    · exact absurd h (shake_ne_sound x)
    · exact h
  · exact wreck_eq_sound h
  · exact wreck_eq_sound h
  · split at h
    · exact wreck_eq_sound h
    · exact h
  · exact h

theorem exec_fail (he : exec c .fail w = some (r, w')) : w' = w := by
  cases c with
  | terminate => exact r.elim
  | _ =>
    simp [exec, tried, looked, copyOEMInf] at he
    try exact he.2.symm

theorem shake_eq_shaken (h : shake x = .shaken) (hx : x.2 = .sound) : ¬ Midway x.1 := by
  rw [shake, hx] at h
  intro hm
  rw [if_pos hm] at h
  cases h

/-- A call after which a sound pair is shaken failed. -/
theorem standing_shakes (hc : Quiet c) (hx : x.2 = .sound) (h : standing c o x = .shaken) :
    o = .fail ∧ ¬ Midway x.1 := by
  unfold standing at h
  split at h
  · exact hc.elim
  · exact ⟨rfl, shake_eq_shaken h hx⟩
  · exact ⟨rfl, shake_eq_shaken h hx⟩
  · exact ⟨rfl, shake_eq_shaken h hx⟩
  · split at h
    · exact ⟨rfl, shake_eq_shaken h hx⟩
    · rw [hx] at h
      cases h
  · exact absurd h (wreck_ne_shaken _)
  · exact absurd h (wreck_ne_shaken _)
  · split at h
    · exact absurd h (wreck_ne_shaken _)
    · rw [hx] at h
      cases h
  · rw [hx] at h
    cases h

theorem standing_lost (hc : Quiet c) (hx : x.2 = .lost) : standing c o x = .lost := by
  have hshake : shake x = .lost := by rw [shake, hx]
  have hwreck : wreck x.2 = .lost := by rw [hx]; rfl
  unfold standing
  split
  · exact hc.elim
  · exact hshake
  · exact hshake
  · exact hshake
  · rw [hshake, hx, ite_self]
  · exact hwreck
  · exact hwreck
  · rw [hwreck, hx, ite_self]
  · exact hx

theorem Paired.update (h : Paired w) {name : ValueName} {v : WString} (hinf : name ≠ .driverInf)
    (hcert : name ≠ .certThumbprint) (hs : Sets w (Function.update w.value name v) w') : Paired w' :=
  h.sets hs (Function.update_of_ne hinf.symm _ _) (Function.update_of_ne hcert.symm _ _)

theorem setValue_sets_or (w : World) (name : ValueName) (v : WString) :
    Sets w (Function.update w.value name (cStr v)) (w.setValue name v) ∨ Sets w w.value (w.setValue name v) := by
  cases hr : w.registry with
  | none =>
    refine .inr ⟨rfl, rfl, rfl, rfl, fun other => ?_⟩
    simp [World.value, World.setValue, hr]
  | some values =>
    refine .inl ⟨rfl, rfl, rfl, rfl, fun other => ?_⟩
    rw [World.value_setValue _ _ _ _ (by rw [hr]; rfl), Function.update_apply]

theorem mem_setStore {store s : StoreName} {c : Certificate} {l : List Certificate} (h : c ∈ w.stores s)
    (hl : s = store → c ∈ l) : c ∈ (w.setStore store l).stores s := by
  by_cases hs : s = store
  · subst hs
    simpa [World.setStore] using hl rfl
  · simpa [World.setStore, hs] using h

/-- What a call outside of the state key does to the pair: it may take the certificate away. -/
theorem call_spares (hc : Quiet c) (hr : c.effect ≠ some .registry) (he : exec c o w = some (r, w'))
    (hdelete : ∀ store found, c = .certDeleteCertificateFromStore store found → o = .ok →
      thumbprintOf found ≠ w.value .certThumbprint) : SparesPair w w' := by
  have hf := exec_frame he
  refine ⟨funext fun n => hf.value hr n, hf.unstages ?_, fun cert hcert store hin => ?_⟩
  · cases c <;> simp [Call.effect, Quiet] at hc ⊢
  · by_cases heffect : c.effect = some .trust ∨ c.effect = some .untrust
    · cases c with
      | certAddEncodedCertificateToStore s encoded =>
        obtain ⟨-, -, rfl⟩ | ⟨-, -, rfl⟩ := tried_eq_some.mp he
        · refine mem_setStore hin ?_
          rintro rfl
          by_cases heq : cert = encoded
          · exact heq ▸ List.mem_cons_self
          · exact List.mem_cons_of_mem _ ((List.mem_erase_of_ne heq).mpr hin)
        · exact hin
      | certDeleteCertificateFromStore s found =>
        obtain ⟨rfl, -, rfl⟩ | ⟨-, -, rfl⟩ := tried_eq_some.mp he
        · refine mem_setStore hin ?_
          rintro rfl
          refine (List.mem_erase_of_ne ?_).mpr hin
          rintro rfl
          exact hdelete _ _ rfl rfl hcert
        · exact hin
      | _ => simp [Call.effect] at heffect
    · rw [not_or] at heffect
      rw [hf.stores heffect.1 heffect.2]
      exact hin

theorem shaken_call (hc : Quiet c) (h : Paired x.1) (he : exec c o x.1 = some (r, w'))
    (hy : standing c o x = .shaken) : Paired w' := by
  by_cases hr : c.effect = some .registry
  · cases c with
    | regCreateKey =>
      obtain ⟨-, -, rfl⟩ | ⟨-, -, rfl⟩ := tried_eq_some.mp he
      · exact h.sets (createKey_sets _) rfl rfl
      · exact h
    | regSetValue name v =>
      obtain ⟨rfl, -, rfl⟩ | ⟨-, -, rfl⟩ := tried_eq_some.mp he
      · rcases setValue_sets_or x.1 name v with hs | hs
        · refine h.update ?_ ?_ hs
          · rintro rfl
            exact hc.elim
          · rintro rfl
            exact wreck_ne_shaken _ hy
        · exact h.sets hs rfl rfl
      · exact h
    | regDeleteKeyValue name =>
      obtain ⟨rfl, -, rfl⟩ | ⟨-, -, rfl⟩ := tried_eq_some.mp he
      · have hs := deleteValue_sets x.1 name
        by_cases hinf : name = .driverInf
        · subst hinf
          exact fun hne => absurd (by rw [hs.value, Function.update_self]) hne
        · refine h.update hinf ?_ hs
          rintro rfl
          exact wreck_ne_shaken _ hy
      · exact h
    | regDeleteKey =>
      obtain ⟨-, -, rfl⟩ | ⟨-, -, rfl⟩ := tried_eq_some.mp he
      · exact fun hne => absurd rfl hne
      · exact h
    | _ => simp [Call.effect] at hr
  · refine h.spares (call_spares hc hr he ?_)
    rintro store found rfl rfl hfound
    rw [standing, if_pos hfound] at hy
    exact wreck_ne_shaken _ hy

/-- The standing tells what a run does to the pair, but for staging and recording a package. -/
theorem quiet_run {α : Type} {p : Flow α} {Q Q' : α → World → Prop} (hp : p.Calls Quiet fun _ _ => True)
    (hx : PairInv x) (hsound : x.2 = .sound → wp soundExec SoundPair Q p x.1)
    (h : wp hashingExec (fun _ => True) Q' p x.1) :
    wp signingExec PairInv (fun a y => (y.2 = .sound → Q a y.1) ∧ Q' a y.1) p x := by
  induction p generalizing x with
  | ret a => exact ⟨hx, fun hs => (hsound hs).2, h.2⟩
  | call c k ih =>
    refine ⟨hx, fun o r y he => ?_⟩
    obtain ⟨hok, hexec, hy⟩ := signing_call he
    have hsound' : y.2 = .sound → wp soundExec SoundPair Q (k r) y.1 := by
      intro hs
      rw [hy] at hs
      have hxs := standing_sound hp.1 hs
      refine (hsound hxs).2 o r y.1 (Exec.within_eq_some.mpr ⟨?_, hexec⟩)
      rw [beq_iff_eq, ← hxs]
      exact hs.trans hxs.symm
    refine ih r (hp.2 r trivial) ⟨fun hs => wp_inv (hsound' hs), fun hs => ?_⟩ hsound'
      (h.2 o r y.1 (Exec.within_eq_some.mpr ⟨otherHash_of_quiet hp.1 hok, hexec⟩))
    rw [hy] at hs
    cases hstand : x.2 with
    | sound =>
      obtain ⟨rfl, hm⟩ := standing_shakes hp.1 hstand hs
      rw [exec_fail hexec]
      exact (hx.sound hstand).apart hm
    | shaken => exact shaken_call hp.1 (hx.shaken hstand) hexec hs
    | lost =>
      rw [standing_lost hp.1 hstand] at hs
      cases hs

end

/-! ## What keeps the pair together -/

/-- The effects that leave the pair alone. -/
abbrev SparesAll : Effect → Prop := fun e => e ≠ .registry ∧ e ≠ .stage ∧ e ≠ .untrust

section
variable {α : Type} {w w' : World} {p : Flow α}

theorem soundExec_reads : ReadsWell soundExec := by
  rintro c o w x hc he rfl
  have hs := (Exec.within_eq_some.mp he).1
  rw [beq_iff_eq] at hs
  cases c <;> simp only [Call.isRead, Bool.false_eq_true] at hc <;>
    exact shake_ne_sound (w, .sound) hs

theorem quiet_of_effects (hp : Effects (fun e => e ≠ .registry ∧ e ≠ .stage) p) :
    p.Calls Quiet fun _ _ => True := by
  refine Prog.calls_mono (fun c hc => ?_) (fun _ _ h => h) hp
  cases c with
  | setupCopyOEMInf => exact absurd rfl (hc _ rfl).2
  | regSetValue name => exact absurd rfl (hc _ rfl).1
  | _ => trivial

theorem spares_run (hp : Effects SparesAll p) (w : World) : wp exec (SparesPair w) (fun _ => SparesPair w) p w := by
  have h : wp exec (fun w' => True ∧ SparesPair w w') (fun _ _ => True) p w := by
    refine wp_frame .refl .trans (fun {c o r u v} _ hc he => ⟨trivial, trivial, ?_⟩) trivial hp
    refine call_spares ?_ (fun hr => (hc _ hr).1 rfl) he ?_
    · cases c with
      | setupCopyOEMInf => exact absurd rfl (hc _ rfl).2.1
      | regSetValue name => exact absurd rfl (hc _ rfl).1
      | _ => trivial
    · rintro store found rfl -
      exact absurd rfl (hc _ rfl).2.2
  exact wp_mono (fun _ hw => hw.2) (fun _ _ hw _ => hw.2) h

theorem firm_run (hp : Effects SparesAll p) (h : Firm w) :
    wp soundExec SoundPair (fun _ => Firm) p w :=
  wp_mono (fun _ hs => (h.spares hs).sound) (fun _ _ _ hs => h.spares hs)
    (wp_sub soundExec_sub (spares_run hp w))

theorem sound_run (hp : Effects SparesAll p) (h : SoundPair w) :
    wp soundExec SoundPair (fun _ => SparesPair w) p w :=
  wp_mono (fun _ hs => h.spares hs) (fun _ _ _ hs => hs) (wp_sub soundExec_sub (spares_run hp w))

theorem razed_run (hp : Effects (fun e => e ≠ .registry ∧ e ≠ .stage) p) (h : Razed w) :
    wp soundExec SoundPair (fun _ => Razed) p w := by
  have hraze : ∀ {w' : World}, Frame (fun e => e ≠ .registry ∧ e ≠ .stage) w w' → Razed w' := fun hf =>
    h.shrink (funext fun n => hf.value (by decide) n) (hf.unstages (by decide))
  exact wp_mono (fun _ hf => (hraze hf).sound) (fun _ _ _ hf => hraze hf)
    (wp_sub soundExec_sub (wp_effects hp w))

/-! ### Values -/

theorem writeValue_firm {name : ValueName} (v : WString) (hinf : name ≠ .driverInf)
    (hcert : name ≠ .certThumbprint) (hprevious : name ≠ .previousCertThumbprint) (h : Firm w) :
    wp soundExec SoundPair (fun _ => Firm) (writeValue name v) w := by
  have hupdate : ∀ {w'}, Sets w (Function.update w.value name (cStr v)) w' → Firm w' := fun hs =>
    h.sets hs (Function.update_of_ne hinf.symm _ _) (Function.update_of_ne hcert.symm _ _)
      (.inl (Function.update_of_ne hprevious.symm _ _))
  have hkeep : ∀ {w'}, Sets w w.value w' → Firm w' := fun hs => h.sets hs rfl rfl (.inl rfl)
  refine wp_mono (fun _ hs => ?_) (fun ok _ _ hs => ?_) (writeValue_spec soundExec_sub name v)
  · exact (hs.elim hkeep hupdate).sound
  · cases ok with
    | true => exact hupdate hs
    | false => exact hkeep hs

theorem deleteValue_firm {name : ValueName} (hinf : name ≠ .driverInf) (hcert : name ≠ .certThumbprint)
    (h : Firm w) : wp soundExec SoundPair (fun _ => Firm) (deleteValue name) w := by
  have hfirm : ∀ {w'}, Sets w w.value w' ∨ Sets w (Function.update w.value name []) w' → Firm w' := by
    rintro w' (hs | hs)
    · exact h.sets hs rfl rfl (.inl rfl)
    · refine h.sets hs (Function.update_of_ne hinf.symm _ _) (Function.update_of_ne hcert.symm _ _) ?_
      by_cases hp : name = .previousCertThumbprint
      · exact .inr (by rw [hp, Function.update_self])
      · exact .inl (Function.update_of_ne (Ne.symm hp) _ _)
  exact wp_mono (fun _ hs => (hfirm hs).sound) (fun _ _ _ hs => hfirm hs)
    (deleteValue_spec soundExec_sub name)

/-! ### Certificates -/

/-- The thumbprint names another certificate than `CertThumbprint` does. -/
def OtherThan (w : World) (thumbprint : WString) : Prop :=
  ∀ c, thumbprintOf c = w.value .certThumbprint → hashBytes 20 thumbprint ≠ some c.hash.bytes

theorem removeOther_spares {thumbprint : WString} (hother : OtherThan w thumbprint) :
    wp exec (SparesPair w) (fun _ => SparesPair w) (removeTrustedCertificate thumbprint) w := by
  have heffects : Effects (· = .untrust) (removeTrustedCertificate thumbprint) :=
    removeTrustedCertificate_effects (by rfl) thumbprint
  cases hh : hashBytes 20 thumbprint with
  | none =>
    refine wp_ite (fun _ => ?_) fun _ => ⟨.refl w, .refl w⟩
    rw [hh]
    exact ⟨.refl w, fun o r v he => by simp [exec] at he⟩
  | some hash =>
    have hspares : ∀ {v : World}, KeepsOthers hash w v → Frame (· = .untrust) w v → SparesPair w v := by
      intro v hk hf
      refine ⟨funext fun n => hf.value (by decide) n, hf.unstages (by decide), fun c hc store hin => ?_⟩
      refine hk store c hin fun heq => hother c hc ?_
      rw [hh, heq]
    exact wp_mono (fun _ h => hspares h.1 h.2) (fun _ _ _ h => hspares h.1 h.2)
      (wp_and (removeTrustedCertificate_others hh w) (wp_effects heffects w))

theorem removeOther_firm {thumbprint : WString} (h : Firm w) (hother : OtherThan w thumbprint) :
    wp soundExec SoundPair (fun _ w' => SparesPair w w' ∧ Firm w') (removeTrustedCertificate thumbprint) w :=
  wp_mono (fun _ hs => (h.spares hs).sound) (fun _ _ _ hs => ⟨hs, h.spares hs⟩)
    (wp_sub soundExec_sub (removeOther_spares hother))

/-! ### Flows -/

theorem retirePrevious_firm {s : InstallState} (h : Firm w) (hs : Reads w (some s)) :
    wp soundExec SoundPair (fun _ => Firm) (retirePrevious s) w := by
  have hcert : wp soundExec SoundPair (fun _ => Firm) (retireCert s) w := by
    refine wp_ite (fun _ => ?_) fun _ => ⟨h.sound, h⟩
    have hother : OtherThan w s.previousCertThumbprint := by
      rw [show s.previousCertThumbprint = _ from hs .previousCertThumbprint]
      exact h.other
    refine wp_seq (removeOther_firm h hother) fun _ u _ hu => ?_
    exact deleteValue_firm (by decide) (by decide) hu.2
  refine wp_seq hcert fun _ u _ hu => wp_ite (fun _ => ?_) fun _ => ⟨hu.sound, hu⟩
  refine wp_seq (firm_run (unstagePackage_effects (by decide) _) hu) fun gone v _ hv => ?_
  exact wp_ite (fun _ => deleteValue_firm (by decide) (by decide) hv) fun _ => ⟨hv.sound, hv⟩

theorem readState_sound (h : SoundPair w) :
    wp soundExec SoundPair (fun s w' => w' = w ∧ Reads w s) readState w :=
  wp_mono (fun w' (hw : w' = w) => hw ▸ h) (fun _ _ hw hs => ⟨hw, hs⟩)
    (readState_spec soundExec_sub soundExec_reads)

theorem retireFirst_sound (h : SoundPair w) :
    wp soundExec SoundPair (fun state w' => Reads w' state) retireFirst w := by
  have hread : ∀ {u : World}, SoundPair u →
      wp soundExec SoundPair (fun state w' => Reads w' state) readState u := by
    intro u hu
    refine wp_post ?_ (readState_sound hu)
    rintro state v - ⟨rfl, hs⟩
    exact hs
  refine wp_seq (readState_sound h) ?_
  rintro state u - ⟨rfl, hs⟩
  cases state with
  | none => exact ⟨h, hs⟩
  | some s =>
    refine wp_ite (fun hretire => ?_) fun _ => ⟨h, hs⟩
    have hpending : u.value .pendingCertThumbprint = [] := by
      rw [← hs .pendingCertThumbprint]
      simp only [Bool.and_eq_true, List.isEmpty_iff] at hretire
      exact hretire.1.1
    refine wp_seq (retirePrevious_firm (h.settled hpending) hs) fun _ v hv _ => hread hv

theorem soundExec_unstages {published : WString} {x : Bool × World}
    (hsame : sameName published (w.value .driverInf) = true) :
    soundExec (.setupUninstallOEMInf published) .fail w ≠ some x := by
  intro he
  have hs := (Exec.within_eq_some.mp he).1
  rw [beq_iff_eq, standing, if_pos hsame] at hs
  exact shake_ne_sound (w, .sound) hs

/-- The package goes before its certificate does. -/
theorem unstageDriver_razed (h : SoundPair w) :
    wp soundExec SoundPair (fun _ => Razed) (unstagePackage (w.value .driverInf)) w := by
  have hraze : ∀ {w' : World}, SparesPair w w' → DriverGone w' → Razed w' := fun hs hgone =>
    ⟨hgone, fun hp => (h.settled (by rwa [hs.value] at hp)).other.of_value hs.value⟩
  refine wp_ite (fun hnil => ?_) fun _ => ⟨h, fun o r w' he => ?_⟩
  · exact ⟨h, hraze (.refl w) fun hne => absurd hnil hne⟩
  · have hs : SparesPair w w' := call_spares (by trivial) (fun hc => by cases hc) (soundExec_sub _ _ _ _ he)
      fun _ _ hc => by cases hc
    obtain ⟨-, -, rfl⟩ | ⟨rfl, -, -⟩ := tried_eq_some.mp (soundExec_sub _ _ _ _ he)
    · have hr := hraze hs fun _ p hp => not_sameName (List.mem_filter.mp hp).2
      exact ⟨hr.sound, hr⟩
    · exact absurd he (soundExec_unstages (by simp))

theorem runUninstall_razed (h : SoundPair w) : wp soundExec SoundPair (fun _ => Razed) runUninstall w := by
  refine wp_seq (readState_sound h) ?_
  rintro state u - ⟨rfl, hs⟩
  have hname : (state.map (·.driverInf)).getD [] = u.value .driverInf := by
    cases state with
    | none => exact (hs .driverInf).symm
    | some s => exact hs .driverInf
  rw [hname]
  have hdriver : wp soundExec SoundPair (fun _ => Razed) (uninstallDriver (u.value .driverInf)) u := by
    refine wp_seq (sound_run (removeDevices_effects (by decide)) h) fun _ v hv hspares => ?_
    rw [← hspares.value]
    exact wp_seq (unstageDriver_razed hv) fun _ x hx hr => ⟨hx, hr⟩
  refine wp_seq hdriver fun _ v _ hv => ?_
  refine wp_seq (razed_run (uninstallRecorded_effects (by decide) (by decide) (by decide) state) hv)
    fun _ x _ hx => ?_
  refine ⟨hx.sound, fun o r y he => ?_⟩
  obtain ⟨-, -, rfl⟩ | ⟨-, -, rfl⟩ := tried_eq_some.mp (soundExec_sub _ _ _ _ he)
  · have hempty : Razed x.deleteKey := razed_empty fun _ => rfl
    exact ⟨hempty.sound, hempty⟩
  · exact ⟨hx.sound, hx⟩

theorem failInstall_sound (h : SoundPair w) : wp soundExec SoundPair (fun _ _ => True) failInstall w :=
  wp_seq (runUninstall_razed h) fun _ _ hu _ => ⟨hu, trivial⟩

theorem failUpdate_sound {old : InstallState} {thumbprint inf : WString} (h : Firm w)
    (hother : OtherThan w thumbprint) :
    wp soundExec SoundPair (fun _ _ => True) (failUpdate old thumbprint inf) w := by
  have hunstage : wp soundExec SoundPair (fun _ u => SparesPair w u) (unstageOther inf old.driverInf) w :=
    sound_run (unstageOther_effects (by decide) _ _) h.sound
  refine wp_seq hunstage fun _ u _ hu => ?_
  have hother : OtherThan u thumbprint := by
    unfold OtherThan
    rw [hu.value]
    exact hother
  refine wp_seq (removeOther_firm (h.spares hu) hother) fun _ v _ hv => ?_
  refine wp_seq (deleteValue_firm (by decide) (by decide) hv.2) fun _ x _ hx => ?_
  exact wp_seq (deleteValue_firm (by decide) (by decide) hx) fun _ y hy _ => ⟨hy, trivial⟩

/-! ### Calls -/

theorem writeValue_quiet {name : ValueName} (v : WString) (hinf : name ≠ .driverInf) :
    (writeValue name v).Calls Quiet fun _ _ => True := by
  simp only [writeValue, perform, Prog.perform_bind, Prog.calls_call]
  refine ⟨trivial, fun _ _ => Prog.calls_ite (fun _ => ⟨?_, fun _ _ => trivial⟩) fun _ => trivial⟩
  cases name <;> trivial

theorem deleteValue_quiet (name : ValueName) : (deleteValue name).Calls Quiet fun _ _ => True := by
  simp only [deleteValue, perform, Prog.perform_bind, Prog.calls_call]
  exact ⟨trivial, fun _ _ => trivial⟩

theorem retirePrevious_quiet (s : InstallState) : (retirePrevious s).Calls Quiet fun _ _ => True := by
  refine Prog.calls_bind (Prog.calls_ite (fun _ => ?_) fun _ => trivial) fun _ =>
    Prog.calls_ite (fun _ => ?_) fun _ => trivial
  · exact Prog.calls_bind (quiet_of_effects (removeTrustedCertificate_effects (by decide) _)) fun _ =>
      deleteValue_quiet _
  · exact Prog.calls_bind (quiet_of_effects (unstagePackage_effects (by decide) _)) fun _ =>
      Prog.calls_ite (fun _ => deleteValue_quiet _) fun _ => trivial

theorem retireFirst_quiet : retireFirst.Calls Quiet fun _ _ => True := by
  refine Prog.calls_bind (quiet_of_effects readState_effects) fun state => ?_
  cases state with
  | none => trivial
  | some s =>
    refine Prog.calls_ite (fun _ => ?_) fun _ => trivial
    exact Prog.calls_bind (retirePrevious_quiet s) fun _ => quiet_of_effects readState_effects

theorem runUninstall_quiet : runUninstall.Calls Quiet fun _ _ => True := by
  refine Prog.calls_bind (quiet_of_effects readState_effects) fun state => ?_
  refine Prog.calls_bind (quiet_of_effects (uninstallDriver_effects (by decide) (by decide) _)) fun _ => ?_
  refine Prog.calls_bind (quiet_of_effects
    (uninstallRecorded_effects (by decide) (by decide) (by decide) state)) fun _ => ?_
  exact ⟨trivial, fun _ _ => trivial⟩

theorem failInstall_quiet : failInstall.Calls Quiet fun _ _ => True :=
  Prog.calls_bind runUninstall_quiet fun _ => trivial

theorem failUpdate_quiet (old : InstallState) (thumbprint inf : WString) :
    (failUpdate old thumbprint inf).Calls Quiet fun _ _ => True :=
  Prog.calls_bind (quiet_of_effects (unstageOther_effects (by decide) _ _)) fun _ =>
    Prog.calls_bind (quiet_of_effects (removeTrustedCertificate_effects (by decide) _)) fun _ =>
      Prog.calls_bind (deleteValue_quiet _) fun _ => Prog.calls_bind (deleteValue_quiet _) fun _ => trivial

end

/-! ## Runs -/

section
variable {α β : Type} {x : World × Standing} {w w' : World} {p : Flow α} {f : α → Flow β}

theorem quiet_seq {Q Q' : α → World → Prop} {R : β → World × Standing → Prop}
    (hp : p.Calls Quiet fun _ _ => True) (hx : PairInv x)
    (hsound : x.2 = .sound → wp soundExec SoundPair Q p x.1) (h : wp hashingExec (fun _ => True) Q' p x.1)
    (hf : ∀ a y, PairInv y → (y.2 = .sound → Q a y.1) → Q' a y.1 → wp signingExec PairInv R (f a) y) :
    wp signingExec PairInv R (p >>= f) x :=
  wp_seq (quiet_run hp hx hsound h) fun a y hy hq => hf a y hy hq.1 hq.2

theorem Sets.spares (hs : Sets w w.value w') : SparesPair w w' where
  value := funext hs.value
  packages := by
    rw [hs.packages]
    exact List.Subset.refl _
  stores c _ store hin := by
    rw [hs.stores]
    exact hin

theorem PairInv.spares {y : World × Standing} (h : PairInv x) (hs : SparesPair x.1 y.1) (hy : y.2 = x.2) :
    PairInv y where
  sound hsound := (h.sound (hy ▸ hsound)).spares hs
  shaken hshaken := (h.shaken (hy ▸ hshaken)).spares hs

/-- The pair is together: a package is recorded that the recorded certificate vouches for. -/
theorem writeDriver_pair {published : WString} (hx : PairInv x) (hother : RetiresOther x.1)
    (hall : ∀ p ∈ x.1.packages, sameName p.published published → Vouched x.1 p) :
    wp signingExec PairInv
      (fun ok y => Sets x.1 (if ok then Function.update x.1.value .driverInf (cStr published) else x.1.value) y.1 ∧
        (ok = true → Firm y.1))
      (writeValue .driverInf published) x := by
  simp only [writeValue, perform, Prog.perform_bind]
  refine ⟨hx, fun o r y he => ?_⟩
  obtain ⟨-, hexec, hy⟩ := signing_call he
  have unchanged {z : World × Standing} (hs : Sets x.1 x.1.value z.1) (hz : z.2 = x.2) : PairInv z :=
    hx.spares hs.spares hz
  obtain ⟨-, rfl, hy'⟩ | ⟨-, rfl, hy'⟩ := tried_eq_some.mp hexec
  · have hs : Sets x.1 x.1.value y.1 := hy' ▸ createKey_sets x.1
    refine wp_ite (fun _ => ⟨unchanged hs hy, fun o r z he => ?_⟩) fun h => absurd rfl h
    obtain ⟨-, hexec, hz⟩ := signing_call he
    obtain ⟨rfl, rfl, hz'⟩ | ⟨rfl, rfl, hz'⟩ := tried_eq_some.mp hexec
    · have hset : Sets x.1 (Function.update x.1.value .driverInf (cStr published)) z.1 := by
        rw [hz', hy']
        exact setValue_sets x.1 .driverInf published
      have hfirm : Firm z.1 := by
        refine ⟨fun _ p hp hsame => ?_, hother.sets hset rfl (.inl rfl)⟩
        rw [hset.value, Function.update_self] at hsame
        rw [hset.packages] at hp
        obtain ⟨c, hc, ht, hin⟩ := hall p hp (by simpa using hsame)
        exact ⟨c, hc, by rw [hset.value]; exact ht, fun store => by rw [hset.stores]; exact hin store⟩
      refine ⟨⟨fun _ => hfirm.sound, fun hshaken => ?_⟩, hset, fun _ => hfirm⟩
      rw [hz] at hshaken
      cases hshaken
    · have hs' : Sets x.1 x.1.value z.1 := hz' ▸ hs
      exact ⟨unchanged hs' (hz.trans hy), hs', fun h => by cases h⟩
  · have hs : Sets x.1 x.1.value y.1 := hy' ▸ Sets.refl x.1
    exact ⟨unchanged hs hy, hs, fun h => by cases h⟩

/-! ### A promotion -/

theorem writeValue_pending {name : ValueName} (v : WString) (hinf : name ≠ .driverInf)
    (hcert : name ≠ .certThumbprint) (hname : name ≠ .pendingCertThumbprint) (h : Paired w)
    (hpending : w.value .pendingCertThumbprint ≠ []) :
    wp soundExec SoundPair (fun _ => Paired) (writeValue name v) w := by
  have hpaired : ∀ {values : ValueName → WString} {w'}, Sets w values w' →
      values .driverInf = w.value .driverInf → values .certThumbprint = w.value .certThumbprint →
      values .pendingCertThumbprint = w.value .pendingCertThumbprint → Paired w' ∧ SoundPair w' := by
    intro values w' hs hi hc hp
    have hw' := h.sets hs hi hc
    exact ⟨hw', fun _ => hw', fun hnil => absurd (by rw [← hp, ← hs.value, hnil]) hpending⟩
  have hset : ∀ {w'}, Sets w w.value w' ∨ Sets w (Function.update w.value name (cStr v)) w' →
      Paired w' ∧ SoundPair w' := by
    rintro w' (hs | hs)
    · exact hpaired hs rfl rfl rfl
    · exact hpaired hs (Function.update_of_ne hinf.symm _ _) (Function.update_of_ne hcert.symm _ _)
        (Function.update_of_ne hname.symm _ _)
  refine wp_mono (fun _ hs => (hset hs).2) (fun ok _ _ hs => ?_) (writeValue_spec soundExec_sub name v)
  cases ok with
  | true => exact (hset (.inr hs)).1
  | false => exact (hset (.inl hs)).1

theorem writeCert_midway (v : WString) (hm : Midway w) (hpending : w.value .pendingCertThumbprint ≠ []) :
    wp soundExec SoundPair (fun _ _ => True) (writeValue .certThumbprint v) w := by
  have hsound : ∀ {values : ValueName → WString} {w'}, Sets w values w' →
      (∀ name, name ≠ .certThumbprint → values name = w.value name) → SoundPair w' := by
    intro values w' hs hv
    have hvalue : ∀ name, name ≠ .certThumbprint → w'.value name = w.value name := fun name hn => by
      rw [hs.value, hv name hn]
    refine ⟨fun hnot => absurd ?_ hnot, fun hnil => absurd ?_ hpending⟩
    · unfold Midway
      rw [hvalue _ (by decide), hvalue _ (by decide)]
      exact hm
    · rw [← hvalue _ (by decide), hnil]
  refine wp_mono (fun w' hs => ?_) (fun _ _ _ _ => trivial) (writeValue_spec soundExec_sub .certThumbprint v)
  rcases hs with hs | hs
  · exact hsound hs fun _ _ => rfl
  · exact hsound hs fun name hn => Function.update_of_ne hn _ _

/-! ### A fresh install -/

theorem writeDir_razed (v : WString) (h : Razed w) :
    wp soundExec SoundPair (fun _ => Razed) (writeValue .installDir v) w := by
  have hrazed : ∀ {values : ValueName → WString} {w'}, Sets w values w' →
      (∀ name, name ≠ .installDir → values name = w.value name) → Razed w' := by
    intro values w' hs hv
    refine ⟨h.gone.sets hs (hv _ (by decide)), fun hnil => ?_⟩
    rw [hs.value, hv _ (by decide)] at hnil
    exact (h.settled hnil).sets hs (hv _ (by decide)) (.inl (hv _ (by decide)))
  have hset : ∀ {w'}, Sets w w.value w' ∨ Sets w (Function.update w.value .installDir (cStr v)) w' → Razed w' := by
    rintro w' (hs | hs)
    · exact hrazed hs fun _ _ => rfl
    · exact hrazed hs fun name hn => Function.update_of_ne hn _ _
  refine wp_mono (fun _ hs => (hset hs).sound) (fun ok _ _ hs => ?_) (writeValue_spec soundExec_sub .installDir v)
  cases ok with
  | true => exact hset (.inr hs)
  | false => exact hset (.inl hs)

theorem writeCert_razed {c : Certificate} (h : Razed w)
    (hc : hashBytes 20 (w.value .previousCertThumbprint) ≠ some c.hash.bytes) :
    wp soundExec SoundPair (fun ok w' => ok = true → Firm w') (writeValue .certThumbprint (thumbprintOf c)) w := by
  have hfirm : ∀ {w'}, Sets w (Function.update w.value .certThumbprint (cStr (thumbprintOf c))) w' → Firm w' := by
    intro w' hs
    refine ⟨(h.gone.sets hs (Function.update_of_ne (by decide) _ _)).paired, fun c' hc' => ?_⟩
    rw [hs.value, Function.update_self, cStr_thumbprintOf] at hc'
    have hsame := congrArg (hashBytes 20) hc'
    rw [hashBytes_thumbprintOf, hashBytes_thumbprintOf] at hsame
    rw [hs.value, Function.update_of_ne (by decide), hsame]
    exact hc
  refine wp_mono (fun w' hs => ?_) (fun ok _ _ hs hok => ?_)
    (writeValue_spec soundExec_sub .certThumbprint (thumbprintOf c))
  · rcases hs with hs | hs
    · exact (h.shrink (funext hs.value) (by rw [hs.packages]; exact List.Subset.refl _)).sound
    · exact (hfirm hs).sound
  · rw [if_pos hok] at hs
    exact hfirm hs

end

end VirtualGun.Setup
