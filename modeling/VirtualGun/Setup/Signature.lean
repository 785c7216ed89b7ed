import VirtualGun.Setup.Packages
import VirtualGun.Setup.Reinstall
import VirtualGun.Setup.RefusedInstall
import VirtualGun.Setup.Pair

/-!
# Who signed the driver

The driver store keeps the catalog of a package that it already holds. An update that is handed back
the recorded package keeps its certificate; a fresh install records the new one whatever it is handed
back.
-/

open VirtualGun.Program

namespace VirtualGun.Setup

/-! ## The driver of an install -/

/-- The driver store holds, under the name, a package with a catalog that the certificate signed, and
the certificate is trusted. -/
structure Backed (w : World) (published : WString) (c : Certificate) : Prop where
  package : ∃ p ∈ w.packages, sameName p.published published = true ∧ p.signer = some c
  only : ∀ p ∈ w.packages, sameName p.published published = true → p.signer = some c
  trusted : ∀ store, c ∈ w.stores store

/-- The package that `DriverInf` names is staged, and the certificate that `CertThumbprint` names
signed its catalog and is trusted. -/
def DriverSigned (w : World) : Prop :=
  ∃ p ∈ w.packages, sameName p.published (w.value .driverInf) = true ∧
    ∃ c ∈ p.signer, thumbprintOf c = w.value .certThumbprint ∧
      c ∈ w.stores .root ∧ c ∈ w.stores .trustedPublisher

instance (w : World) : Decidable (DriverSigned w) := by
  unfold DriverSigned
  infer_instance

section
variable {w w' : World} {published : WString} {c : Certificate}

theorem driverSigned_iff :
    DriverSigned w ↔ ∃ p ∈ w.packages, sameName p.published (w.value .driverInf) = true ∧ Vouched w p := by
  unfold DriverSigned Vouched
  constructor
  · rintro ⟨p, hp, hname, c, hc, hthumb, hroot, hpublisher⟩
    refine ⟨p, hp, hname, c, hc, hthumb, fun store => ?_⟩
    cases store with
    | root => exact hroot
    | trustedPublisher => exact hpublisher
  · rintro ⟨p, hp, hname, c, hc, hthumb, htrusted⟩
    exact ⟨p, hp, hname, c, hc, hthumb, htrusted _, htrusted _⟩

theorem Backed.vouched (h : Backed w published c) (hthumb : thumbprintOf c = w.value .certThumbprint)
    {p : Package} (hp : p ∈ w.packages) (hname : sameName p.published published) : Vouched w p :=
  ⟨c, h.only p hp hname, hthumb, h.trusted⟩

theorem Backed.driverSigned {name : WString} (h : Backed w published c)
    (hthumb : thumbprintOf c = w.value .certThumbprint) (hname : w.value .driverInf = name)
    (hn : foldCase name = foldCase published) : DriverSigned w := by
  obtain ⟨p, hp, hpname, -⟩ := h.package
  refine driverSigned_iff.mpr ⟨p, hp, ?_, h.vouched hthumb hp hpname⟩
  rw [sameName_iff] at hpname ⊢
  rw [hpname, hname, hn]

theorem Backed.sets {values : ValueName → WString} (h : Backed w published c) (hs : Sets w values w') :
    Backed w' published c where
  package := by
    rw [hs.packages]
    exact h.package
  only := by
    rw [hs.packages]
    exact h.only
  trusted store := by
    rw [hs.stores]
    exact h.trusted store

theorem Backed.devices (h : Backed w published c) (hf : Frame (· = .devices) w w') :
    Backed w' published c where
  package := by
    rw [hf.packages (by decide) (by decide)]
    exact h.package
  only := by
    rw [hf.packages (by decide) (by decide)]
    exact h.only
  trusted store := by
    rw [hf.stores (by decide) (by decide)]
    exact h.trusted store

theorem DriverSigned.spares (h : DriverSigned w) (hs : SparesPair w w') (hp : w'.packages = w.packages) :
    DriverSigned w' := by
  rw [driverSigned_iff] at h ⊢
  obtain ⟨p, hmem, hname, hv⟩ := h
  exact ⟨p, by rw [hp]; exact hmem, by rw [hs.value]; exact hname, hv.spares hs⟩

theorem DriverSigned.sets {values : ValueName → WString} (h : DriverSigned w) (hs : Sets w values w')
    (hinf : values .driverInf = w.value .driverInf) (hcert : values .certThumbprint = w.value .certThumbprint) :
    DriverSigned w' := by
  rw [driverSigned_iff] at h ⊢
  obtain ⟨p, hp, hname, c, hc, hthumb, hin⟩ := h
  refine ⟨p, by rw [hs.packages]; exact hp, by rw [hs.value, hinf]; exact hname, c, hc, ?_, fun store => ?_⟩
  · rw [hs.value, hcert]
    exact hthumb
  · rw [hs.stores]
    exact hin store

end

/-! ## The files that are signed -/

theorem catalogOf_infPath (driverDir : WString) : catalogOf (infPath driverDir) = catPath driverDir := by
  have hdrop : (wide "\\VRLFVirtualGun.inf").reverse.dropWhile (· != 92) = [92] := by decide
  have hname : wide "\\vrlfvirtualgun.cat" = 92 :: wide "vrlfvirtualgun.cat" := by decide
  unfold catalogOf infPath catPath
  rw [List.reverse_append, List.dropWhile_append, hdrop, hname]
  simp

/-- A file that goes by the path is at the path to the letter. -/
def AtPath (path : WString) (m : Machine) : Prop := ∀ f ∈ m.files, sameName f.path path = true → f.path = path

theorem AtPath.putFile {m : Machine} {path : WString} {f : File} (h : AtPath path m)
    (hf : sameName f.path path = true → f.path = path) : AtPath path (m.putFile f) := by
  intro g hg hsame
  rcases List.mem_cons.mp hg with rfl | hg
  · exact hf hsame
  · exact h g (List.mem_filter.mp hg).1 hsame

theorem atPath_putFile (m : Machine) (f : File) : AtPath f.path (m.putFile f) := by
  intro g hg hsame
  rcases List.mem_cons.mp hg with rfl | hg
  · rfl
  · exact absurd hsame (not_sameName (List.mem_filter.mp hg).2)

section
variable {w : World} {source dir rel path : WString}

theorem copyFiles_atPath (hd : 0 ∉ dir) (hrel : rel ∈ payloadFiles) {rels : List WString}
    (hsub : rels ⊆ payloadFiles) (w : World) :
    wp exec (fun _ => True)
      (fun ok w' => ok = true → (rel ∈ rels ∨ AtPath (joinPath dir rel) w.machine) →
        AtPath (joinPath dir rel) w'.machine)
      (copyFiles source dir rels) w := by
  induction rels generalizing w with
  | nil => exact ⟨trivial, fun _ h => h.resolve_left List.not_mem_nil⟩
  | cons rel' rels ih =>
    simp only [copyFiles, perform, Prog.perform_bind]
    refine ⟨trivial, fun o r v he => ?_⟩
    have hrel' : rel' ∈ payloadFiles := hsub List.mem_cons_self
    have hsub : rels ⊆ payloadFiles := fun _ hr => hsub (List.mem_cons_of_mem _ hr)
    simp only [exec] at he
    split at he
    · next f hf =>
      simp only [Option.some.injEq, Prod.mk.injEq] at he
      obtain ⟨rfl, rfl⟩ := he
      refine wp_ite (fun _ => ?_) fun h => absurd rfl h
      apply wp_post _ (ih hsub _)
      intro ok w' _ hw' hok hor
      apply hw' hok
      rcases hor with hmem | hat
      · rcases List.mem_cons.mp hmem with rfl | hmem
        · exact .inr (atPath_putFile _ { f with path := joinPath dir rel })
        · exact .inl hmem
      · refine .inr (hat.putFile fun hsame => ?_)
        rw [joinPath_payload hd hd hrel' hrel hsame]
    · simp only [Option.some.injEq, Prod.mk.injEq] at he
      obtain ⟨rfl, rfl⟩ := he
      exact ⟨trivial, fun h => (by cases h)⟩
    · cases he

theorem copyPayload_atPath (hd : 0 ∉ dir) (hrel : rel ∈ payloadFiles) (w : World) :
    wp exec (fun _ => True) (fun ok w' => ok = true → AtPath (joinPath dir rel) w'.machine)
      (copyPayload source dir) w := by
  simp only [copyPayload, attempt, perform, Prog.perform_bind]
  apply wp_attempt trivial
  intro _
  refine wp_ite (fun _ => ⟨trivial, fun h => (by cases h)⟩) fun _ => ?_
  apply wp_attempt trivial
  intro _
  refine wp_ite (fun _ => ?_) fun _ => ⟨trivial, fun h => (by cases h)⟩
  apply wp_post _ (copyFiles_atPath hd hrel (List.Subset.refl _) w)
  exact fun _ _ _ hw' hok => hw' hok (.inl hrel)

theorem signFile_atPath (cert : SigningCert) (target : WString) (h : AtPath path w.machine) :
    wp exec (fun _ => True) (fun _ w' => AtPath path w'.machine) (signFile cert target) w := by
  simp only [signFile, attempt, perform, Prog.perform_bind]
  apply wp_attempt trivial
  intro _
  refine wp_ite (fun _ => ?_) fun _ => ⟨trivial, h⟩
  apply wp_attempt trivial
  intro _
  apply wp_attempt trivial
  intro _
  refine wp_ite (fun _ => ?_) fun _ => ⟨trivial, h⟩
  cases cert.context with
  | none => exact ⟨trivial, h⟩
  | some context =>
    refine ⟨trivial, fun o r v he => ?_⟩
    simp only [exec] at he
    split at he
    · next f hf =>
      split at he
      · simp only [Option.some.injEq, Prod.mk.injEq] at he
        obtain ⟨-, rfl⟩ := he
        exact ⟨trivial, h.putFile fun hsame => h f (List.mem_of_find?_eq_some hf) hsame⟩
      · cases he
    · simp only [Option.some.injEq, Prod.mk.injEq] at he
      obtain ⟨-, rfl⟩ := he
      exact ⟨trivial, h⟩
    · cases he

theorem signDriver_atPath (driverDir : WString) (h : AtPath path w.machine) :
    wp exec (fun _ => True) (fun _ w' => AtPath path w'.machine) (signDriver driverDir) w := by
  have keys : ∀ {u v : World}, AtPath path u.machine → Frame (· = .keys) u v → AtPath path v.machine := by
    intro u v hu hf
    rw [hf.machine (by decide) (by decide)]
    exact hu
  have hcreate : Effects (· = .keys) (createSigningCert true) := createSigningCert_effects (by rfl) true
  apply wp_seq_of (fun _ _ => trivial) (wp_effects hcreate w)
  intro cert u _ hu
  have hu := keys h hu
  cases cert with
  | none => exact ⟨trivial, hu⟩
  | some cert =>
    have hfiles : wp exec (fun _ => True) (fun _ w' => AtPath path w'.machine) (signFiles cert driverDir) u := by
      apply wp_seq (signFile_atPath cert _ hu)
      intro _ v _ hv
      apply wp_ite
      · exact fun _ => signFile_atPath cert _ hv
      · exact fun _ => ⟨trivial, hv⟩
    apply wp_seq hfiles
    intro _ v _ hv
    have hdestroy : Effects (· = .keys) (destroySigningKey cert) := destroySigningKey_effects (by rfl) cert
    apply wp_seq_of (fun _ _ => trivial) (wp_effects hdestroy v)
    exact fun _ x _ hx => ⟨trivial, keys hv hx⟩

/-- What `signDriver` returns: a certificate that signed the catalog. -/
structure SignsCatalog (driverDir : WString) (w : World) (cert : SigningCert) (c : Certificate) : Prop where
  encoded : cert.encoded = some c
  thumbprint : cert.thumbprint = thumbprintOf c
  catalog : SignedBy w (catPath driverDir) c

/-- The hash is not one that is recorded. -/
def NewHash (w : World) (c : Certificate) : Prop :=
  hashBytes 20 (w.value .certThumbprint) ≠ some c.hash.bytes ∧
    hashBytes 20 (w.value .previousCertThumbprint) ≠ some c.hash.bytes

/-- What `hashingExec` answers as long as the values are those of `w`. -/
def AnswersNew (w : World) : (c : Call) → c.Resp → Prop
  | .certCreateSelfSignCertificate _, r => ∀ c, r = some c → NewHash w c
  | _, _ => True

theorem hashing_answers {c : Call} {o : Outcome} {r : c.Resp} {u v : World} (hu : u.value = w.value)
    (he : hashingExec c o u = some (r, v)) : AnswersNew w c r := by
  cases c with
  | certCreateSelfSignCertificate key =>
    rintro c rfl
    obtain ⟨hnew, hx⟩ := Exec.within_eq_some.mp he
    cases o <;> simp [exec] at hx
    obtain ⟨rfl, -⟩ := hx
    rw [NewHash, ← hu]
    simpa [otherHash] using hnew
  | _ => trivial

theorem signDriver_newHash (driverDir : WString) (w : World) :
    wp hashingExec (fun w' => w'.value = w.value) (fun r _ => Generated (NewHash w) r) (signDriver driverDir) w := by
  have hcalls : (signDriver driverDir).Calls (fun c => ∀ e, c.effect = some e → e ≠ .registry) (AnswersNew w) :=
    Prog.calls_mono (fun _ hc => hc) (fun _ _ _ => trivial)
      (signDriver_effects (by decide) (by decide) driverDir)
  refine wp_ends_of (fun {c o r u v} hu hc he => ⟨hashing_answers hu he, ?_⟩) rfl hcalls
    (signDriver_ends (fun _ c hc => hc c rfl) driverDir)
  have hf := exec_frame (hashingExec_sub _ _ _ _ he)
  exact (funext fun n => hf.value (fun hr => hc _ hr rfl) n).trans hu

theorem signDriver_catalog (driverDir : WString) (h : AtPath path w.machine) :
    wp hashingExec (fun _ => True)
      (fun r w' => w'.value = w.value ∧ AtPath path w'.machine ∧
        ∀ cert, r = some cert → ∃ c, SignsCatalog driverDir w' cert c ∧ NewHash w c)
      (signDriver driverDir) w := by
  apply wp_mono _ _ (wp_and (signDriver_newHash driverDir w)
    (wp_sub hashingExec_sub (wp_and (signDriver_spec driverDir w) (signDriver_atPath driverDir h))))
  · exact fun _ _ => trivial
  · rintro r v ⟨hvalue, -, -⟩ ⟨hnew, hsigned, hat⟩
    refine ⟨hvalue, hat, fun cert hr => ?_⟩
    obtain ⟨c, hc⟩ := hsigned cert hr
    obtain ⟨c', hc', -, hn⟩ := hnew cert hr
    obtain rfl : c = c' := Option.some.inj (hc.encoded.symm.trans hc')
    exact ⟨c, ⟨hc.encoded, hc.thumbprint, hc.catalog⟩, hn⟩

theorem SignsCatalog.frame {w' : World} {driverDir : WString} {cert : SigningCert}
    {c : Certificate} (h : SignsCatalog driverDir w cert c) (hf : w'.machine.files = w.machine.files) :
    SignsCatalog driverDir w' cert c where
  encoded := h.encoded
  thumbprint := h.thumbprint
  catalog := by
    obtain ⟨f, hfile, hs⟩ := h.catalog
    refine ⟨f, ?_, hs⟩
    rw [← hfile]
    unfold Machine.fileAt
    rw [hf]

theorem trustIn_trusts (c : Certificate) (stores : List StoreName) (w : World) :
    wp exec (fun _ => True)
      (fun ok w' => (∀ store, w.stores store ⊆ w'.stores store) ∧
        (ok = true → ∀ store ∈ stores, c ∈ w'.stores store))
      (trustIn (some c) stores) w := by
  induction stores generalizing w with
  | nil => exact ⟨trivial, fun _ => List.Subset.refl _, fun _ _ hs => absurd hs List.not_mem_nil⟩
  | cons store stores ih =>
    have failed : ∀ {v : World}, v = w → wp exec (fun _ => True)
        (fun ok w' => (∀ store, w.stores store ⊆ w'.stores store) ∧
          (ok = true → ∀ s ∈ store :: stores, c ∈ w'.stores s)) (.ret false) v := by
      rintro v rfl
      exact ⟨trivial, fun _ => List.Subset.refl _, fun h => (by cases h)⟩
    simp only [trustIn, perform, Prog.perform_bind]
    refine ⟨trivial, fun o r v he => ?_⟩
    obtain ⟨-, rfl⟩ := looked_eq_some.mp he
    cases r with
    | none => exact failed rfl
    | some size =>
      refine ⟨trivial, fun o r u he => ?_⟩
      obtain ⟨-, rfl, rfl⟩ | ⟨-, rfl, rfl⟩ := tried_eq_some.mp he
      · refine wp_ite (fun _ => ?_) fun h => absurd rfl h
        apply wp_post _ (ih _)
        rintro ok x - ⟨hsub, hin⟩
        refine ⟨fun s => List.Subset.trans (subset_trusted store s c) (hsub s), fun hok s hs => ?_⟩
        rcases List.mem_cons.mp hs with rfl | hs
        · apply hsub s
          simp [World.setStore]
        · exact hin hok s hs
      · exact failed rfl

/-! ## The staging -/

/-- What `SetupCopyOEMInf` hands back: a package that the new certificate signed, or the recorded one,
that the recorded certificate vouches for. -/
inductive HandedBack (w : World) (c : Certificate) (published : WString) : Prop where
  | new (backed : Backed w published c)
      (named : thumbprintOf c = w.value .certThumbprint ∨ ¬ sameName published (w.value .driverInf) = true)
  | old (signed : DriverSigned w) (same : sameName published (w.value .driverInf) = true)
      (vouched : ∀ p ∈ w.packages, sameName p.published published → Vouched w p)

theorem Paired.stage {f : File} {name : WString} (h : Paired w)
    (hnew : sameName name (w.value .driverInf) → Vouched w (w.packageFrom f name)) :
    Paired { w with packages := w.packages ++ [w.packageFrom f name] } := by
  intro hne p hp hsame
  rcases List.mem_append.mp hp with hp | hp
  · exact h hne p hp hsame
  · obtain rfl := List.mem_singleton.mp hp
    exact hnew hsame

theorem stagePackage_signs {driverDir : WString} {cert : SigningCert} (hx : PairInv x)
    (hfirm : x.2 = .sound → Firm x.1) (hat : AtPath (infPath driverDir) x.1.machine)
    (hsigns : SignsCatalog driverDir x.1 cert c) (htrusted : ∀ store, c ∈ x.1.stores store) :
    wp signingExec PairInv
      (fun r y => (y.2 = .sound → Firm y.1) ∧ y.1.value = x.1.value ∧
        ∀ published, r = some published → 0 ∉ published ∧ HandedBack y.1 c published)
      (stagePackage (infPath driverDir)) x := by
  refine ⟨hx, fun o r y he => ?_⟩
  obtain ⟨hkeeps, hexec, hy⟩ := signing_call he
  obtain ⟨w, s⟩ := x
  obtain ⟨w', s'⟩ := y
  obtain ⟨f, hfile, hsigner⟩ := hsigns.catalog
  obtain ⟨rfl, rfl, rfl⟩ | ⟨g, name, rfl, hg, -, hfresh, rfl, rfl⟩ | ⟨g, name, p, rfl, -, hp, hname, hnul, rfl, rfl⟩ :=
    copyOEMInf_eq_some.mp hexec
  · obtain rfl : s' = s := hy
    exact ⟨hx, hfirm, rfl, fun _ hr => (by cases hr)⟩
  · -- a new package
    obtain rfl : s' = s := hy
    have hpath : g.path = infPath driverDir :=
      hat g (List.mem_of_find?_eq_some hg) (Machine.sameName_fileAt hg)
    have hpackage : (w.packageFrom g name).signer = some c := by
      rw [World.packageFrom, hpath, catalogOf_infPath, hfile]
      exact hsigner
    have hrecorded : thumbprintOf c = w.value .certThumbprint ∨ ¬ sameName name (w.value .driverInf) = true := by
      rw [keepsSignature, signedByRecorded, catalogOf_infPath, hfile, Bool.or_eq_true] at hkeeps
      refine hkeeps.imp (fun hr => ?_) not_sameName
      simpa [hsigner] using hr
    have hvouched : sameName name (w.value .driverInf) → Vouched w (w.packageFrom g name) := fun hsame =>
      ⟨c, hpackage, hrecorded.resolve_right (not_not.mpr hsame), htrusted⟩
    have hfirm' : s' = .sound → Firm { w with packages := w.packages ++ [w.packageFrom g name] } := fun hs =>
      ⟨(hfirm hs).paired.stage hvouched, (hfirm hs).other⟩
    refine ⟨⟨fun hs => (hfirm' hs).sound, fun hs => (hx.shaken hs).stage hvouched⟩, hfirm', rfl, ?_⟩
    rintro _ ⟨⟩
    refine ⟨hfresh.2.1, .new ⟨⟨w.packageFrom g name, by simp, by simp [World.packageFrom], hpackage⟩, ?_, htrusted⟩
      hrecorded⟩
    intro q hq hsame
    rcases List.mem_append.mp hq with hq | hq
    · exact absurd hsame (hfresh.2.2 q hq)
    · rw [List.mem_singleton.mp hq]
      exact hpackage
  · -- the package that is there
    obtain rfl : s' = s := hy
    simp only [keepsSignature, Bool.and_eq_true, Bool.not_eq_true', List.isEmpty_eq_false_iff, bne_iff_ne] at hkeeps
    obtain ⟨⟨hne, hsame⟩, hnotlost⟩ := hkeeps
    have hpaired : Paired w' := by
      cases hs : s' with
      | sound => exact (hfirm hs).paired
      | shaken => exact hx.shaken hs
      | lost => exact absurd hs hnotlost
    have hvouched : ∀ q ∈ w'.packages, sameName q.published name → Vouched w' q := by
      intro q hq hqname
      refine hpaired hne q hq ?_
      rw [sameName_iff] at hqname hsame ⊢
      rw [hqname, hsame]
    refine ⟨hx, hfirm, rfl, ?_⟩
    rintro _ ⟨⟩
    have hmem : p ∈ w'.packages := List.mem_of_find?_eq_some hp
    have hpname : sameName p.published (w'.value .driverInf) = true := by
      rw [sameName_iff] at hname hsame ⊢
      rw [← hname, hsame]
    exact ⟨hnul, .old (driverSigned_iff.mpr ⟨p, hmem, hpname, hpaired hne p hmem hpname⟩) hsame hvouched⟩

end

/-! ## What follows the device -/

/-- A run that succeeds ends with a driver that is signed. -/
def SignedEnd (code : ℕ) (x : World × Standing) : Prop := code ≠ 1 → DriverSigned x.1

section
variable {x : World × Standing} {w w' : World} {published : WString} {c : Certificate}

theorem failInstall_fails {can : (c : Call) → c.Resp → Prop} : failInstall.Ends (· = 1) can :=
  Prog.ends_bind (Prog.ends_true _) fun _ _ => rfl

theorem failUpdate_fails {can : (c : Call) → c.Resp → Prop} (old : InstallState) (cert inf : WString) :
    (failUpdate old cert inf).Ends (· = 1) can :=
  Prog.ends_bind (Prog.ends_true _) fun _ _ => Prog.ends_bind (Prog.ends_true _) fun _ _ =>
    Prog.ends_bind (Prog.ends_true _) fun _ _ => Prog.ends_bind (Prog.ends_true _) fun _ _ => rfl

theorem failInstall_signed (hx : PairInv x) : wp signingExec PairInv SignedEnd failInstall x :=
  wp_post (fun _ _ _ hq hne => absurd hq.2 hne) (quiet_run failInstall_quiet hx
    (fun hs => failInstall_sound (hx.sound hs)) (wp_ends failInstall_fails x.1))

theorem failUpdate_signed {old : InstallState} {thumbprint inf : WString} (hx : PairInv x)
    (hfirm : x.2 = .sound → Firm x.1) (hother : OtherThan x.1 thumbprint) :
    wp signingExec PairInv SignedEnd (failUpdate old thumbprint inf) x :=
  wp_post (fun _ _ _ hq hne => absurd hq.2 hne) (quiet_run (failUpdate_quiet old thumbprint inf) hx
    (fun hs => failUpdate_sound (hfirm hs) hother) (wp_ends (failUpdate_fails old thumbprint inf) x.1))

theorem return_signed (hx : PairInv x) : wp signingExec PairInv SignedEnd (return 1) x :=
  ⟨hx, fun h => absurd rfl h⟩

theorem finish_signed (version : WString) (installCode : ℕ) {failed : Flow ℕ} (hx : PairInv x)
    (hfirm : x.2 = .sound → Firm x.1) (h : DriverSigned x.1)
    (hfailed : ∀ {y}, PairInv y → wp signingExec PairInv SignedEnd failed y) :
    wp signingExec PairInv SignedEnd
      (do if ← writeValue .version version then finishWithPins installCode else failed) x := by
  have hwrite := wp_end (writeValue_spec hashingExec_sub (w := x.1) .version version)
  apply quiet_seq (writeValue_quiet _ (by decide)) hx
    (fun hs => writeValue_firm version (by decide) (by decide) (by decide) (hfirm hs)) hwrite
  intro ok y hy hfirm hs
  refine wp_ite (fun hok => ?_) fun _ => hfailed hy
  rw [if_pos hok] at hs
  have hsigned : DriverSigned y.1 :=
    h.sets hs (Function.update_of_ne (by decide) _ _) (Function.update_of_ne (by decide) _ _)
  have hpins : Effects (· = .devices) (finishWithPins installCode) := finishWithPins_effects (by rfl) _
  have hdevices : wp hashingExec (fun _ => True) (fun _ w' => DriverSigned w') (finishWithPins installCode) y.1 := by
    refine wp_mono (fun _ _ => trivial) (fun _ w' _ hw => ?_)
      (wp_sub hashingExec_sub (wp_and (wp_effects hpins y.1) (spares_run (finishWithPins_effects (by decide) _) y.1)))
    exact hsigned.spares hw.2 (hw.1.packages (by decide) (by decide))
  apply wp_post _ (quiet_run (quiet_of_effects (finishWithPins_effects (by decide) _)) hy
    (fun hs => firm_run (finishWithPins_effects (by decide) _) (hfirm hs)) hdevices)
  exact fun _ _ _ hq _ => hq.2

theorem deleteValue_signed {name : ValueName} (hinf : name ≠ .driverInf) (hcert : name ≠ .certThumbprint)
    (h : DriverSigned w) :
    wp hashingExec (fun _ => True) (fun _ w' => DriverSigned w') (deleteValue name) w := by
  apply wp_mono (fun _ _ => trivial) _ (deleteValue_spec hashingExec_sub name)
  rintro _ v - (hs | hs)
  · exact h.sets hs rfl rfl
  · exact h.sets hs (Function.update_of_ne hinf.symm _ _) (Function.update_of_ne hcert.symm _ _)

theorem removeOther_backed {thumbprint : WString} (h : Backed w published c)
    (hother : hashBytes 20 thumbprint ≠ some c.hash.bytes) :
    wp hashingExec (fun _ => True) (fun _ w' => w'.value = w.value ∧ Backed w' published c)
      (removeTrustedCertificate thumbprint) w := by
  apply wp_sub hashingExec_sub
  have heffects : Effects (· = .untrust) (removeTrustedCertificate thumbprint) :=
    removeTrustedCertificate_effects (by rfl) thumbprint
  have hbacked : ∀ {v : World}, Frame (· = .untrust) w v → (∀ store, c ∈ v.stores store) →
      v.value = w.value ∧ Backed v published c := by
    intro v hf hstores
    refine ⟨funext fun name => hf.value (by decide) name, ?_, ?_, hstores⟩
    · rw [hf.packages (by decide) (by decide)]
      exact h.package
    · rw [hf.packages (by decide) (by decide)]
      exact h.only
  cases hh : hashBytes 20 thumbprint with
  | none =>
    apply wp_ite
    · intro _
      rw [hh]
      refine ⟨trivial, fun o r v he => ?_⟩
      simp [exec] at he
    · exact fun _ => ⟨trivial, rfl, h⟩
  | some hash =>
    have hne : c.hash.bytes ≠ hash := fun heq => hother (by rw [hh, heq])
    apply wp_mono (fun _ _ => trivial) _ (wp_and (wp_effects heffects w) (removeTrustedCertificate_others hh w))
    exact fun _ v _ hv => hbacked hv.1 fun store => hv.2 store c (h.trusted store) hne

theorem removeOther_signed {thumbprint : WString} (h : DriverSigned w) (hother : OtherThan w thumbprint) :
    wp hashingExec (fun _ => True) (fun _ w' => DriverSigned w') (removeTrustedCertificate thumbprint) w := by
  have heffects : Effects (· = .untrust) (removeTrustedCertificate thumbprint) :=
    removeTrustedCertificate_effects (by rfl) thumbprint
  apply wp_mono (fun _ _ => trivial) _
    (wp_sub hashingExec_sub (wp_and (removeOther_spares hother) (wp_effects heffects w)))
  exact fun _ v _ hv => h.spares hv.1 (hv.2.packages (by decide) (by decide))

theorem keepPackage_signed (cert : SigningCert) (version : WString) (reboot : Bool) (hx : PairInv x)
    (hfirm : x.2 = .sound → Firm x.1) (h : DriverSigned x.1) (hother : OtherThan x.1 cert.thumbprint) :
    wp signingExec PairInv SignedEnd (keepPackage cert version reboot) x := by
  apply quiet_seq (quiet_of_effects (removeTrustedCertificate_effects (by decide) _)) hx
    (fun hs => removeOther_firm (hfirm hs) hother) (removeOther_signed h hother)
  intro _ u hxu hfirmu hu
  apply quiet_seq (deleteValue_quiet _) hxu (fun hs => deleteValue_firm (by decide) (by decide) (hfirmu hs).2)
    (deleteValue_signed (by decide) (by decide) hu)
  intro _ v hxv hfirmv hv
  apply quiet_seq (deleteValue_quiet _) hxv (fun hs => deleteValue_firm (by decide) (by decide) (hfirmv hs))
    (deleteValue_signed (by decide) (by decide) hv)
  exact fun _ y hxy hfirmy hy => finish_signed version _ hxy hfirmy hy return_signed

theorem unstagePackage_backed {published publishedInf : WString} (h : Backed w published c)
    (hother : ¬ sameName published publishedInf = true) :
    wp hashingExec (fun _ => True) (fun _ w' => w'.value = w.value ∧ Backed w' published c)
      (unstagePackage publishedInf) w := by
  have heffects : Effects (· = .unstage) (unstagePackage publishedInf) :=
    unstagePackage_effects (by rfl) _
  apply wp_sub hashingExec_sub
  apply wp_mono (fun _ _ => trivial) _ (wp_and (unstagePackage_others _ w) (wp_effects heffects w))
  rintro _ v ⟨hothers, -⟩ ⟨-, hf⟩
  obtain ⟨p, hp, hpname, hsigner⟩ := h.package
  have hpkept : p ∈ v.packages := by
    refine hothers p hp fun hsame => hother ?_
    rw [sameName_iff] at hpname hsame ⊢
    rw [← hpname, hsame]
  refine ⟨funext fun name => hf.value (by decide) name, ⟨p, hpkept, hpname, hsigner⟩,
    fun q hq => h.only q (hf.unstages (by decide) hq), ?_⟩
  intro store
  rw [hf.stores (by decide) (by decide)]
  exact h.trusted store

theorem retireCert_backed {s : InstallState} {published : WString} (h : Backed w published c)
    (hr : Recalls w s) (hcert : hashBytes 20 (w.value .previousCertThumbprint) ≠ some c.hash.bytes) :
    wp hashingExec (fun _ => True)
      (fun _ w' => (∀ n, n ≠ .previousCertThumbprint → w'.value n = w.value n) ∧ Backed w' published c)
      (retireCert s) w := by
  refine wp_ite (fun hne => ?_) fun _ => ⟨trivial, fun _ _ => rfl, h⟩
  have hname : s.previousCertThumbprint = w.value .previousCertThumbprint :=
    hr.value .previousCertThumbprint (by simpa [InstallState.get] using hne)
  rw [hname]
  apply wp_seq (removeOther_backed h hcert)
  rintro _ u - ⟨hvalue, hu⟩
  apply wp_mono (fun _ _ => trivial) _ (deleteValue_spec hashingExec_sub .previousCertThumbprint)
  rintro _ v - (hs | hs)
  · exact ⟨fun n _ => by rw [hs.value, hvalue], hu.sets hs⟩
  · refine ⟨fun n hn => ?_, hu.sets hs⟩
    rw [hs.value, Function.update_of_ne hn, hvalue]

/-- Retiring what an update replaced keeps what it put in its place. -/
theorem retirePrevious_signed {s : InstallState} (hb : Backed w (w.value .driverInf) c)
    (hthumb : thumbprintOf c = w.value .certThumbprint) (hr : Recalls w s)
    (hcert : hashBytes 20 (w.value .previousCertThumbprint) ≠ some c.hash.bytes)
    (hinf : ¬ sameName (w.value .driverInf) (w.value .previousDriverInf) = true) :
    wp hashingExec (fun _ => True) (fun _ w' => DriverSigned w') (retirePrevious s) w := by
  apply wp_seq (retireCert_backed hb hr hcert)
  rintro _ u - ⟨hkept, hu⟩
  have hinfu : u.value .driverInf = w.value .driverInf := hkept _ (by decide)
  have hcertu : u.value .certThumbprint = w.value .certThumbprint := hkept _ (by decide)
  have hsigned {v : World} (hvalue : v.value = u.value) (hv : Backed v (w.value .driverInf) c) :
      DriverSigned v :=
    hv.driverSigned (by rw [hvalue, hcertu, hthumb]) (by rw [hvalue, hinfu]) rfl
  refine wp_ite (fun hne => ?_) fun _ => ⟨trivial, hsigned rfl hu⟩
  have hname : s.previousDriverInf = w.value .previousDriverInf :=
    hr.value .previousDriverInf (by simpa [InstallState.get] using hne)
  rw [hname]
  apply wp_seq (unstagePackage_backed hu hinf)
  rintro gone v - ⟨hvalue, hv⟩
  apply wp_ite
  · exact fun _ => deleteValue_signed (by decide) (by decide) (hsigned hvalue hv)
  · exact fun _ => ⟨trivial, hsigned hvalue hv⟩

/-! ## Update -/

theorem Sets.trans {v : World} {values values' : ValueName → WString} (h : Sets w values v)
    (h' : Sets v values' w') : Sets w values' w' :=
  ⟨h'.stores.trans h.stores, h'.keys.trans h.keys, h'.packages.trans h.packages,
    h'.machine.trans h.machine, h'.value⟩

/-- The values of the state key behind a promotion. -/
def promotedValues (old : InstallState) (cert : SigningCert) (published : WString)
    (values : ValueName → WString) : ValueName → WString
  | .previousCertThumbprint => cStr old.certThumbprint
  | .previousDriverInf => cStr old.driverInf
  | .certThumbprint => cStr cert.thumbprint
  | .driverInf => cStr published
  | name => values name

theorem promoteValues_sets {old : InstallState} {cert : SigningCert} (hx : PairInv x)
    (hfirm : x.2 = .sound → Firm x.1) (hpending : x.1.value .pendingCertThumbprint ≠ [])
    (hb : Backed x.1 published c) (hthumb : cert.thumbprint = thumbprintOf c)
    (hinf : old.driverInf = x.1.value .driverInf) (hne : old.driverInf ≠ [])
    (hcert : old.certThumbprint = x.1.value .certThumbprint)
    (hother : hashBytes 20 (x.1.value .certThumbprint) ≠ some c.hash.bytes) :
    wp signingExec PairInv
      (fun ok y => ok = true →
        Sets x.1 (promotedValues old cert published x.1.value) y.1 ∧ (y.2 = .sound → Firm y.1))
      (promoteValues old cert published) x := by
  have failed : ∀ {y}, PairInv y → wp signingExec PairInv
      (fun ok y => ok = true →
        Sets x.1 (promotedValues old cert published x.1.value) y.1 ∧ (y.2 = .sound → Firm y.1)) (.ret false) y :=
    fun hy => ⟨hy, fun h => (by cases h)⟩
  have write := fun (name : ValueName) (v : WString) (u : World) =>
    wp_end (@writeValue_spec hashingExec u hashingExec_sub name v)
  apply quiet_seq (writeValue_quiet _ (by decide)) hx
    (fun hs => writeValue_pending _ (by decide) (by decide) (by decide) (hfirm hs).paired hpending)
    (write .previousCertThumbprint _ x.1)
  intro ok₁ w₁ h₁ p₁ s₁
  refine wp_ite (fun hok => ?_) fun _ => failed h₁
  rw [if_pos hok] at s₁
  have hpending₁ : w₁.1.value .pendingCertThumbprint ≠ [] := by
    rw [s₁.value]
    exact hpending
  apply quiet_seq (writeValue_quiet _ (by decide)) h₁
    (fun hs => writeValue_pending _ (by decide) (by decide) (by decide) (p₁ hs) hpending₁)
    (write .previousDriverInf _ w₁.1)
  rintro ok₂ w₂ h₂ - s₂
  refine wp_ite (fun hok => ?_) fun _ => failed h₂
  rw [if_pos hok] at s₂
  have hmidway : Midway w₂.1 := by
    have hprevious : w₂.1.value .previousDriverInf = old.driverInf := by
      rw [s₂.value, Function.update_self, hinf, World.cStr_value]
    have hcurrent : w₂.1.value .driverInf = old.driverInf := by
      rw [s₂.value, Function.update_of_ne (by decide), s₁.value, Function.update_of_ne (by decide), hinf]
    rw [Midway, hprevious, hcurrent]
    exact ⟨hne, by simp⟩
  have hpending₂ : w₂.1.value .pendingCertThumbprint ≠ [] := by
    rw [s₂.value]
    exact hpending₁
  apply quiet_seq (writeValue_quiet _ (by decide)) h₂ (fun _ => writeCert_midway _ hmidway hpending₂)
    (write .certThumbprint _ w₂.1)
  rintro ok₃ w₃ h₃ - s₃
  refine wp_ite (fun hok => ?_) fun _ => failed h₃
  rw [if_pos hok] at s₃
  have hthumb₃ : w₃.1.value .certThumbprint = thumbprintOf c := by
    rw [s₃.value, Function.update_self, hthumb, cStr_thumbprintOf]
  have hb₃ : Backed w₃.1 published c := ((hb.sets s₁).sets s₂).sets s₃
  have hretires : RetiresOther w₃.1 := by
    intro c' hc'
    have hprevious : w₃.1.value .previousCertThumbprint = x.1.value .certThumbprint := by
      rw [s₃.value, Function.update_of_ne (by decide), s₂.value, Function.update_of_ne (by decide), s₁.value,
        Function.update_self, hcert, World.cStr_value]
    have hhash := congrArg (hashBytes 20) (hc'.trans hthumb₃)
    rw [hashBytes_thumbprintOf, hashBytes_thumbprintOf] at hhash
    rw [hprevious, hhash]
    exact hother
  apply wp_post _ (writeDriver_pair h₃ hretires fun p hp hsame => hb₃.vouched hthumb₃.symm hp hsame)
  rintro ok₄ w₄ - ⟨s₄, hfirm₄⟩ hok
  rw [if_pos hok] at s₄
  have hall := ((s₁.trans s₂).trans s₃).trans s₄
  refine ⟨⟨hall.stores, hall.keys, hall.packages, hall.machine, fun name => ?_⟩, fun _ => hfirm₄ hok⟩
  rw [s₄.value, funext s₃.value, funext s₂.value, funext s₁.value]
  cases name <;> rfl

theorem deleteValue_other (name : ValueName) (w : World) :
    wp hashingExec (fun _ => True)
      (fun _ w' => ∃ values, Sets w values w' ∧ ∀ other, other ≠ name → values other = w.value other)
      (deleteValue name) w := by
  apply wp_mono (fun _ _ => trivial) _ (deleteValue_spec hashingExec_sub name)
  rintro _ v - (hs | hs)
  · exact ⟨_, hs, fun _ _ => rfl⟩
  · exact ⟨_, hs, fun other hne => Function.update_of_ne hne _ _⟩

theorem promote_signed {old : InstallState} {cert : SigningCert} (version : WString) (reboot : Bool)
    (hx : PairInv x) (hfirm : x.2 = .sound → Firm x.1) (hpending : x.1.value .pendingCertThumbprint ≠ [])
    (hb : Backed x.1 published c) (hthumb : cert.thumbprint = thumbprintOf c) (hnul : 0 ∉ published)
    (hinf : old.driverInf = x.1.value .driverInf) (hne : old.driverInf ≠ [])
    (hcert : old.certThumbprint = x.1.value .certThumbprint)
    (hother : hashBytes 20 (x.1.value .certThumbprint) ≠ some c.hash.bytes)
    (hnew : ¬ sameName published (x.1.value .driverInf) = true) :
    wp signingExec PairInv SignedEnd (promote old cert published version reboot) x := by
  apply wp_seq (promoteValues_sets hx hfirm hpending hb hthumb hinf hne hcert hother)
  intro ok u hxu hok
  refine wp_ite (fun hb' => ?_) fun _ => return_signed hxu
  obtain ⟨hu, hfirmu⟩ := hok hb'
  apply quiet_seq (deleteValue_quiet _) hxu (fun hs => deleteValue_firm (by decide) (by decide) (hfirmu hs))
    (deleteValue_other .pendingCertThumbprint u.1)
  rintro _ v hxv hfirmv ⟨values, hv, hvalues⟩
  apply quiet_seq (deleteValue_quiet _) hxv (fun hs => deleteValue_firm (by decide) (by decide) (hfirmv hs))
    (deleteValue_other .pendingDriverInf v.1)
  rintro _ y hxy hfirmy ⟨values', hy, hvalues'⟩
  have hsame : ∀ name, name ≠ .pendingCertThumbprint → name ≠ .pendingDriverInf →
      y.1.value name = promotedValues old cert published x.1.value name := by
    intro name hne hne'
    rw [hy.value, hvalues' name hne', hv.value, hvalues name hne, hu.value]
  have hname : y.1.value .driverInf = published := by
    rw [hsame _ (by decide) (by decide), promotedValues, cStr_of_no_nul hnul]
  have hthumby : thumbprintOf c = y.1.value .certThumbprint := by
    rw [hsame _ (by decide) (by decide), promotedValues, hthumb, cStr_thumbprintOf]
  have hcerty : y.1.value .previousCertThumbprint = x.1.value .certThumbprint := by
    rw [hsame _ (by decide) (by decide), promotedValues, hcert, World.cStr_value]
  have hinfy : y.1.value .previousDriverInf = x.1.value .driverInf := by
    rw [hsame _ (by decide) (by decide), promotedValues, hinf, World.cStr_value]
  have hby : Backed y.1 (y.1.value .driverInf) c := by
    rw [hname]
    exact ((hb.sets hu).sets hv).sets hy
  have hread : y.2 = .sound → wp soundExec SoundPair (fun s w' => Firm w' ∧ Reads w' s) readState y.1 := by
    intro hs
    refine wp_post ?_ (readState_sound (hfirmy hs).sound)
    rintro s _ - ⟨rfl, hr⟩
    exact ⟨hfirmy hs, hr⟩
  apply quiet_seq (quiet_of_effects readState_effects) hxy hread
    (wp_mono (fun _ _ => trivial) (fun _ _ (hz : _ = y.1) hq => And.intro hz hq)
      (readState_recalls (readsFrom_eq hashingExec_sub y.1) rfl))
  rintro promoted z hxz hfirmz ⟨hzy, hrecalls⟩
  rw [← hzy] at hby hthumby hcerty hinfy hname hrecalls
  have finish : ∀ {z' : World × Standing}, PairInv z' → (z'.2 = .sound → Firm z'.1) → DriverSigned z'.1 →
      wp signingExec PairInv SignedEnd
        (do if ← writeValue .version version then finishWithPins (if reboot then 3010 else 0) else return 1) z' :=
    fun hxz' hfirmz' hz' => finish_signed version _ hxz' hfirmz' hz' return_signed
  cases promoted with
  | none => exact finish hxz (fun hs => (hfirmz hs).1) (hby.driverSigned hthumby rfl rfl)
  | some s =>
    have hretire := retirePrevious_signed hby hthumby (hrecalls s rfl) (by rw [hcerty]; exact hother)
      (by rw [hname, hinfy]; exact hnew)
    apply quiet_seq (retirePrevious_quiet s) hxz
      (fun hs => retirePrevious_firm (hfirmz hs).1 (hfirmz hs).2) hretire
    exact fun _ z' hxz' hfirmz' hz' => finish hxz' hfirmz' hz'

theorem otherThan_of {w : World} {thumbprint : WString} (ht : thumbprint = thumbprintOf c)
    (hother : hashBytes 20 (w.value .certThumbprint) ≠ some c.hash.bytes) : OtherThan w thumbprint := by
  rintro c' hc' hsame
  rw [ht, hashBytes_thumbprintOf] at hsame
  rw [← hc', hashBytes_thumbprintOf] at hother
  exact hother hsame.symm

theorem swapPackage_signed {old : InstallState} {cert : SigningCert} {driverDir : WString} (version : WString)
    (hx : PairInv x) (hfirm : x.2 = .sound → Firm x.1) (hpending : x.1.value .pendingCertThumbprint ≠ [])
    (hat : AtPath (infPath driverDir) x.1.machine) (hsigns : SignsCatalog driverDir x.1 cert c)
    (htrusted : ∀ store, c ∈ x.1.stores store) (hinf : old.driverInf = x.1.value .driverInf)
    (hne : old.driverInf ≠ []) (hcert : old.certThumbprint = x.1.value .certThumbprint)
    (hother : hashBytes 20 (x.1.value .certThumbprint) ≠ some c.hash.bytes) :
    wp signingExec PairInv SignedEnd (swapPackage old cert driverDir version) x := by
  apply wp_seq (stagePackage_signs hx hfirm hat hsigns htrusted)
  rintro r u hxu ⟨hfirmu, hvalue, hr⟩
  rw [← hvalue] at hinf hcert hother hpending
  have hthan : OtherThan u.1 cert.thumbprint := otherThan_of hsigns.thumbprint hother
  cases r with
  | none => exact failUpdate_signed hxu hfirmu hthan
  | some published =>
    obtain ⟨hnul, hstaged⟩ := hr published rfl
    apply quiet_seq (writeValue_quiet _ (by decide)) hxu
      (fun hs => writeValue_firm published (by decide) (by decide) (by decide) (hfirmu hs))
      (wp_end (writeValue_spec hashingExec_sub .pendingDriverInf published))
    intro ok v hxv hfirmv hs
    have hv : ∀ name, name ≠ .pendingDriverInf → v.1.value name = u.1.value name := fun name hn => by
      rw [hs.value]
      split
      · exact Function.update_of_ne hn _ _
      · rfl
    have hthanv : OtherThan v.1 cert.thumbprint := by
      unfold OtherThan
      rw [hv _ (by decide)]
      exact hthan
    refine wp_ite (fun hok => ?_) fun _ => failUpdate_signed hxv hfirmv hthanv
    rw [if_pos hok] at hs
    have hdevice : Effects (· = .devices) (updateDevice (infPath driverDir)) := updateDevice_effects (by rfl) _
    apply quiet_seq (quiet_of_effects (updateDevice_effects (by decide) _)) hxv
      (fun hs => firm_run (updateDevice_effects (by decide) _) (hfirmv hs))
      (wp_end (wp_sub hashingExec_sub (wp_effects hdevice v.1)))
    intro reboot y hxy hfirmy hf
    have hy : ∀ name, name ≠ .pendingDriverInf → y.1.value name = u.1.value name := fun name hn => by
      rw [hf.value (by decide), hv name hn]
    rw [← hy _ (by decide)] at hinf hcert hother hpending
    have hthany : OtherThan y.1 cert.thumbprint := otherThan_of hsigns.thumbprint hother
    cases reboot with
    | none => exact failUpdate_signed hxy hfirmy hthany
    | some reboot =>
      cases hstaged with
      | new hb hnew =>
        -- A new package has another name than the recorded one, and its own certificate.
        have hnew : ¬ sameName published (y.1.value .driverInf) = true := by
          rw [hy _ (by decide)]
          refine hnew.resolve_left fun heq => hother ?_
          rw [hy _ (by decide), ← heq, hashBytes_thumbprintOf]
        refine wp_ite (fun hsame => absurd (hinf ▸ hsame) hnew) fun _ => ?_
        exact promote_signed version reboot hxy hfirmy hpending ((hb.sets hs).devices hf) hsigns.thumbprint hnul
          hinf hne hcert hother hnew
      | old hsigned hsame _ =>
        have hsame : sameName published old.driverInf = true := by rw [hinf, hy _ (by decide), hsame]
        refine wp_ite (fun _ => ?_) fun hn => absurd hsame hn
        have hspares : SparesPair v.1 y.1 := ⟨funext fun n => hf.value (by decide) n, hf.unstages (by decide),
          fun c _ store hin => by rw [hf.stores (by decide) (by decide)]; exact hin⟩
        have hsignedv : DriverSigned v.1 := hsigned.sets hs (Function.update_of_ne (by decide) _ _)
          (Function.update_of_ne (by decide) _ _)
        exact keepPackage_signed cert version reboot hxy hfirmy
          (hsignedv.spares hspares (hf.packages (by decide) (by decide))) hthany

theorem AtPath.files {m m' : Machine} {path : WString} (h : AtPath path m) (hf : m'.files = m.files) :
    AtPath path m' := by
  intro f hmem
  rw [hf] at hmem
  exact h f hmem

theorem joinPath_inf {env : Outcome} {dir : WString} (hnul : 0 ∉ dir)
    (hplace : sameName dir (installDirFor env) = true) :
    joinPath dir (wide "driver\\VRLFVirtualGun.inf") = infPath (dir ++ wide "\\driver") := by
  have hwide : wide "\\" ++ wide "driver\\VRLFVirtualGun.inf" =
      wide "\\driver" ++ wide "\\VRLFVirtualGun.inf" := by decide
  rw [joinPath_eq hnul hplace, infPath, List.append_assoc, hwide, ← List.append_assoc]

theorem copyPayload_inf {env : Outcome} {source dir : WString} (hnul : 0 ∉ dir)
    (hplace : sameName dir (installDirFor env) = true) (w : World) :
    wp hashingExec (fun _ => True)
      (fun ok w' => w'.value = w.value ∧ (ok = true → AtPath (infPath (dir ++ wide "\\driver")) w'.machine))
      (copyPayload source dir) w := by
  have hfiles : Effects (· = .files) (copyPayload source dir) := copyPayload_effects (by rfl) source dir
  have hinf : wide "driver\\VRLFVirtualGun.inf" ∈ payloadFiles := by decide
  apply wp_sub hashingExec_sub
  apply wp_mono (fun _ _ => trivial) _ (wp_and (copyPayload_atPath hnul hinf w) (wp_effects hfiles w))
  rintro ok v - ⟨hat, hf⟩
  rw [joinPath_inf hnul hplace] at hat
  exact ⟨funext fun name => hf.value (by decide) name, hat⟩

theorem trustCertificate_signs {driverDir : WString} {cert : SigningCert}
    (hsigns : SignsCatalog driverDir w cert c) :
    wp hashingExec (fun _ => True)
      (fun ok w' => w'.value = w.value ∧ w'.machine = w.machine ∧ (ok = true → ∀ store, c ∈ w'.stores store))
      (trustCertificate cert.encoded) w := by
  have heffects : Effects (· = .trust) (trustIn (some c) storeNames) := trustIn_effects (by rfl) _ _
  rw [trustCertificate, hsigns.encoded]
  apply wp_sub hashingExec_sub
  apply wp_mono (fun _ _ => trivial) _ (wp_and (trustIn_trusts c storeNames w) (wp_effects heffects w))
  rintro ok v - ⟨⟨-, htrusted⟩, hf⟩
  refine ⟨funext fun name => hf.value (by decide) name, hf.machine (by decide) (by decide), fun hok store => ?_⟩
  exact htrusted hok store (by cases store <;> simp [storeNames])

theorem runUpdate_signed {env : Outcome} {old : InstallState} (payloadDir version : WString)
    (hx : PairInv x) (hfirm : x.2 = .sound → Firm x.1)
    (hnul : 0 ∉ old.installDir) (hplace : sameName old.installDir (installDirFor env) = true)
    (hinf : old.driverInf = x.1.value .driverInf) (hne : old.driverInf ≠ [])
    (hcert : old.certThumbprint = x.1.value .certThumbprint) :
    wp signingExec PairInv SignedEnd (runUpdate old payloadDir version) x := by
  have hnothing : ∀ {w : World}, OtherThan w [] := fun _ _ hnil => by cases hnil
  apply quiet_seq (quiet_of_effects (copyPayload_effects (by decide) _ _)) hx
    (fun hs => firm_run (copyPayload_effects (by decide) _ _) (hfirm hs)) (copyPayload_inf hnul hplace x.1)
  rintro ok u hxu hfirmu ⟨hu, hat⟩
  refine wp_ite (fun hok => ?_) fun _ => failUpdate_signed hxu hfirmu hnothing
  apply quiet_seq (quiet_of_effects (signDriver_effects (by decide) (by decide) _)) hxu
    (fun hs => firm_run (signDriver_effects (by decide) (by decide) _) (hfirmu hs)) (signDriver_catalog _ (hat hok))
  rintro cert v hxv hfirmv ⟨hv, hat, hsigned⟩
  cases cert with
  | none => exact failUpdate_signed hxv hfirmv hnothing
  | some cert =>
    obtain ⟨c, hsigns, hnew⟩ := hsigned cert rfl
    apply quiet_seq (writeValue_quiet _ (by decide)) hxv
      (fun hs => writeValue_firm cert.thumbprint (by decide) (by decide) (by decide) (hfirmv hs))
      (wp_end (writeValue_spec hashingExec_sub .pendingCertThumbprint cert.thumbprint))
    intro ok y hxy hfirmy hs
    refine wp_ite (fun hok => ?_) fun _ => failUpdate_signed hxy hfirmy hnothing
    rw [if_pos hok] at hs
    have hy : ∀ name, name ≠ .pendingCertThumbprint → y.1.value name = x.1.value name := fun name hn => by
      rw [hs.value, Function.update_of_ne hn, hv, hu]
    have hpending : y.1.value .pendingCertThumbprint ≠ [] := by
      rw [hs.value, Function.update_self, hsigns.thumbprint, cStr_thumbprintOf]
      exact fun hnil => thumbprintOf_ne_nil c hnil.symm
    have hothery : hashBytes 20 (y.1.value .certThumbprint) ≠ some c.hash.bytes := by
      rw [hy _ (by decide), ← hu]
      exact hnew.1
    have hsigns : SignsCatalog _ y.1 cert c := hsigns.frame (by rw [hs.machine])
    have htrust : Effects SparesAll (trustCertificate cert.encoded) := trustIn_effects (by decide) _ _
    apply quiet_seq (quiet_of_effects (trustIn_effects (by decide) _ _)) hxy
      (fun hs => firm_run htrust (hfirmy hs)) (trustCertificate_signs hsigns)
    rintro ok z hxz hfirmz ⟨hz, hmachine, htrusted⟩
    rw [← hz] at hpending hothery
    refine wp_ite (fun hok => ?_) fun _ =>
      failUpdate_signed hxz hfirmz (otherThan_of hsigns.thumbprint hothery)
    apply swapPackage_signed version hxz hfirmz hpending (c := c)
    · rw [hmachine, hs.machine]
      exact hat
    · exact hsigns.frame (by rw [hmachine])
    · exact htrusted hok
    · rw [hz, hy _ (by decide), hinf]
    · exact hne
    · rw [hz, hy _ (by decide), hcert]
    · exact hothery

/-! ## Fresh install -/

theorem dropPackage_none (inf : WString) (w : World) :
    wp hashingExec (fun _ => True) (fun r _ => r = none) (dropPackage inf) w :=
  wp_seq (wp_true _ w) fun _ _ _ _ => ⟨trivial, rfl⟩

theorem installPackage_devices (inf published : WString) (w : World) :
    wp hashingExec (fun _ => True)
      (fun r w' => ∀ s, r = some s → s.1 = published ∧ Frame (· = .devices) w w')
      (installPackage inf published) w := by
  have dropped : ∀ {u : World}, wp hashingExec (fun _ => True)
      (fun r w' => ∀ s, r = some s → s.1 = published ∧ Frame (· = .devices) w w')
      (dropPackage published) u := fun {u} =>
    wp_post (fun _ _ _ hnone s hs => by rw [hnone] at hs; cases hs) (dropPackage_none published u)
  simp only [installPackage, attempt, perform, Prog.perform_bind]
  apply wp_attempt_of hashingExec_sub trivial
  intro _
  refine wp_ite (fun _ => ?_) fun _ => dropped
  apply wp_attempt_of hashingExec_sub trivial
  intro _
  refine wp_ite (fun _ => ?_) fun _ => dropped
  have hregister : Effects (· = .devices) registerDevice := registerDevice_effects (by rfl)
  apply wp_seq_of (fun _ _ => trivial) (wp_sub hashingExec_sub (wp_effects hregister w))
  intro id u _ hu
  cases id with
  | none => exact dropped
  | some id =>
    refine ⟨trivial, fun o r v he => ?_⟩
    have hv : Frame (· = .devices) u v :=
      (exec_frame (hashingExec_sub _ _ _ _ he)).mono fun e he => (Option.some.inj he).symm
    cases r with
    | none => exact ⟨trivial, fun o r x _ => dropped⟩
    | some reboot =>
      refine ⟨trivial, fun o r x he => ⟨trivial, ?_⟩⟩
      have hx : Frame (· = .devices) v x :=
        (exec_frame (hashingExec_sub _ _ _ _ he)).mono fun e he => by cases he
      rintro _ ⟨⟩
      exact ⟨rfl, (hu.trans hv).trans hx⟩

/-- The package that the new node gets is vouched for by the recorded certificate. -/
theorem installDriver_signs {cert : SigningCert} {driverDir : WString} (hx : PairInv x)
    (hfirm : x.2 = .sound → Firm x.1) (hat : AtPath (infPath driverDir) x.1.machine)
    (hsigns : SignsCatalog driverDir x.1 cert c) (htrusted : ∀ store, c ∈ x.1.stores store)
    (hcert : x.1.value .certThumbprint = thumbprintOf c) :
    wp signingExec PairInv
      (fun r y => (y.2 = .sound → Firm y.1) ∧ y.1.value = x.1.value ∧ ∀ s, r = some s →
        0 ∉ s.1 ∧ (∃ p ∈ y.1.packages, sameName p.published s.1 = true) ∧
          ∀ p ∈ y.1.packages, sameName p.published s.1 → Vouched y.1 p)
      (installDriver (infPath driverDir)) x := by
  have hremove : Effects (· = .devices) removeDevices := removeDevices_effects (by rfl)
  apply quiet_seq (quiet_of_effects (removeDevices_effects (by decide))) hx
    (fun hs => firm_run (removeDevices_effects (by decide)) (hfirm hs))
    (wp_end (wp_sub hashingExec_sub (wp_effects hremove x.1)))
  intro _ u hxu hfirmu hu
  have hfiles : u.1.machine.files = x.1.machine.files := hu.files (by decide)
  have hvalueu : u.1.value = x.1.value := funext fun n => hu.value (by decide) n
  have htrusted : ∀ store, c ∈ u.1.stores store := fun store => by
    rw [hu.stores (by decide) (by decide)]
    exact htrusted store
  apply wp_seq (stagePackage_signs hxu hfirmu (hat.files hfiles) (hsigns.frame hfiles) htrusted)
  rintro r v hxv ⟨hfirmv, hvalue, hr⟩
  cases r with
  | none => exact ⟨hxv, hfirmv, hvalue.trans hvalueu, fun _ hs => (by cases hs)⟩
  | some published =>
    obtain ⟨hnul, hstaged⟩ := hr published rfl
    have hvouched : (∃ p ∈ v.1.packages, sameName p.published published = true) ∧
        ∀ p ∈ v.1.packages, sameName p.published published → Vouched v.1 p := by
      cases hstaged with
      | new hb _ =>
        obtain ⟨p, hp, hname, -⟩ := hb.package
        refine ⟨⟨p, hp, hname⟩, fun q hq hsame => hb.vouched ?_ hq hsame⟩
        rw [hvalue, hvalueu, hcert]
      | old hsigned hsame hall =>
        obtain ⟨p, hp, hname, -⟩ := driverSigned_iff.mp hsigned
        refine ⟨⟨p, hp, ?_⟩, hall⟩
        rw [sameName_iff] at hname hsame ⊢
        rw [hname, hsame]
    have hpackage : wp hashingExec (fun _ => True)
        (fun r w' => (∀ s, r = some s → s.1 = published ∧ Frame (· = .devices) v.1 w') ∧ SparesPair v.1 w')
        (installPackage (infPath driverDir) published) v.1 :=
      wp_end (wp_and (installPackage_devices (infPath driverDir) published v.1)
        (wp_sub hashingExec_sub (spares_run (installPackage_effects (by decide) (by decide) _ _) v.1)))
    apply wp_post _ (quiet_run (quiet_of_effects (installPackage_effects (by decide) (by decide) _ _)) hxv
      (fun hs => firm_run (installPackage_effects (by decide) (by decide) _ _) (hfirmv hs)) hpackage)
    rintro r y - ⟨hfirmy, hy, hspares⟩
    refine ⟨hfirmy, hspares.value.trans (hvalue.trans hvalueu), fun s hs => ?_⟩
    obtain ⟨hname, hf⟩ := hy s hs
    rw [hname, hf.packages (by decide) (by decide)]
    exact ⟨hnul, hvouched.1, fun p hp hsame => (hvouched.2 p hp hsame).spares hspares⟩

theorem installNode_signed {cert : SigningCert} {driverDir : WString} (version : WString) (hx : PairInv x)
    (hfirm : x.2 = .sound → Firm x.1) (hretires : RetiresOther x.1)
    (hat : AtPath (infPath driverDir) x.1.machine) (hsigns : SignsCatalog driverDir x.1 cert c)
    (htrusted : ∀ store, c ∈ x.1.stores store) (hcert : x.1.value .certThumbprint = thumbprintOf c) :
    wp signingExec PairInv SignedEnd (installNode driverDir version) x := by
  apply wp_seq (installDriver_signs hx hfirm hat hsigns htrusted hcert)
  rintro r u hxu ⟨hfirmu, hvalue, hr⟩
  cases r with
  | none => exact failInstall_signed hxu
  | some installed =>
    obtain ⟨published, reboot⟩ := installed
    obtain ⟨hnul, ⟨p, hp, hname⟩, hvouched⟩ := hr _ rfl
    apply wp_seq (writeDriver_pair hxu (hretires.of_value hvalue) hvouched)
    rintro ok v hxv ⟨hs, hfirmv⟩
    refine wp_ite (fun hok => ?_) fun _ => ?_
    · rw [if_pos hok] at hs
      have hv : DriverSigned v.1 := by
        have hinf : v.1.value .driverInf = published := by
          rw [hs.value, Function.update_self, cStr_of_no_nul hnul]
        have hmem : p ∈ v.1.packages := by
          rw [hs.packages]
          exact hp
        have hsame : sameName p.published (v.1.value .driverInf) = true := by
          rw [hinf]
          exact hname
        obtain ⟨c', hc', ht, hin⟩ := hvouched p hp hname
        refine driverSigned_iff.mpr ⟨p, hmem, hsame, c', hc', ?_, fun store => ?_⟩
        · rw [hs.value, Function.update_of_ne (by decide), ht]
        · rw [hs.stores]
          exact hin store
      exact finish_signed version _ hxv (fun _ => hfirmv hok) hv failInstall_signed
    · apply quiet_seq (quiet_of_effects (uninstallDriver_effects (by decide) (by decide) _)) hxv
        (fun hs => sound_run (uninstallDriver_effects (by decide) (by decide) _) (hxv.sound hs)) (wp_true _ v.1)
      exact fun _ y hxy _ _ => failInstall_signed hxy

theorem installFresh_signed {env : Outcome} (payloadDir version : WString) (hx : PairInv x)
    (hrazed : x.2 = .sound → Razed x.1) :
    wp signingExec PairInv SignedEnd (installFresh payloadDir (installDirFor env) version) x := by
  have hnul : 0 ∉ installDirFor env := by
    rw [← cStr_installDirFor]
    exact zero_notMem_cStr _
  apply quiet_seq (writeValue_quiet _ (by decide)) hx (fun hs => writeDir_razed _ (hrazed hs)) (wp_true _ x.1)
  intro _ u hxu hrazedu _
  refine wp_ite (fun _ => ?_) fun _ => failInstall_signed hxu
  have hplace : sameName (installDirFor env) (installDirFor env) = true := by simp
  apply quiet_seq (quiet_of_effects (copyPayload_effects (by decide) _ _)) hxu
    (fun hs => razed_run (copyPayload_effects (by decide) _ _) (hrazedu hs)) (copyPayload_inf hnul hplace u.1)
  rintro ok v hxv hrazedv ⟨-, hat⟩
  refine wp_ite (fun hok => ?_) fun _ => failInstall_signed hxv
  apply quiet_seq (quiet_of_effects (signDriver_effects (by decide) (by decide) _)) hxv
    (fun hs => razed_run (signDriver_effects (by decide) (by decide) _) (hrazedv hs)) (signDriver_catalog _ (hat hok))
  rintro cert y hxy hrazedy ⟨hvalue, hat, hsigned⟩
  cases cert with
  | none => exact failInstall_signed hxy
  | some cert =>
    obtain ⟨c, hsigns, hnew⟩ := hsigned cert rfl
    rw [NewHash, ← hvalue] at hnew
    apply quiet_seq (writeValue_quiet _ (by decide)) hxy
      (fun hs => hsigns.thumbprint ▸ writeCert_razed (hrazedy hs) hnew.2)
      (wp_end (writeValue_spec hashingExec_sub .certThumbprint cert.thumbprint))
    intro ok z hxz hfirmz hs
    refine wp_ite (fun hok => ?_) fun _ => failInstall_signed hxz
    rw [if_pos hok] at hs
    have hcertz : z.1.value .certThumbprint = thumbprintOf c := by
      rw [hs.value, Function.update_self, hsigns.thumbprint, cStr_thumbprintOf]
    have hretires : RetiresOther z.1 := by
      intro c' hc'
      have hhash := congrArg (hashBytes 20) (hc'.trans hcertz)
      rw [hashBytes_thumbprintOf, hashBytes_thumbprintOf] at hhash
      rw [hs.value, Function.update_of_ne (by decide), hhash]
      exact hnew.2
    have hz : SignsCatalog _ z.1 cert c := hsigns.frame (by rw [hs.machine])
    have htrust : Effects SparesAll (trustCertificate cert.encoded) := trustIn_effects (by decide) _ _
    apply quiet_seq (quiet_of_effects (trustIn_effects (by decide) _ _)) hxz
      (fun hs => firm_run htrust (hfirmz hs hok)) (trustCertificate_signs hz)
    rintro ok t hxt hfirmt ⟨ht, hmachine, htrusted⟩
    refine wp_ite (fun hok => ?_) fun _ => failInstall_signed hxt
    apply installNode_signed version hxt hfirmt (hretires.of_value ht) (c := c)
    · rw [hmachine, hs.machine]
      exact hat
    · exact hz.frame (by rw [hmachine])
    · exact htrusted hok
    · rw [ht, hcertz]

/-! ## The runs -/

theorem defaultInstallDir_for (w : World) :
    wp hashingExec (fun _ => True) (fun dir w' => w' = w ∧ ∃ env, dir = installDirFor env) defaultInstallDir w := by
  simp only [defaultInstallDir, perform, Prog.perform_bind]
  refine ⟨trivial, fun o r v he => ?_⟩
  have hx := hashingExec_sub _ _ _ _ he
  cases o <;> simp only [exec, Option.some.injEq, Prod.mk.injEq, reduceCtorEq] at hx <;> obtain ⟨rfl, rfl⟩ := hx
  · exact ⟨trivial, rfl, .fail, rfl⟩
  · next s => exact ⟨trivial, rfl, .text s, rfl⟩

theorem retireFirst_recalls (w : World) :
    wp hashingExec (fun _ => True) (fun state w' => ∀ s, state = some s → Recalls w' s) retireFirst w := by
  have read : ∀ u, wp hashingExec (fun _ => True) (fun state w' => ∀ s, state = some s → Recalls w' s)
      readState u := by
    intro u
    apply wp_mono (fun _ _ => trivial) _ (readState_recalls (readsFrom_eq hashingExec_sub u) rfl)
    rintro state _ rfl hs
    exact hs
  apply wp_seq (read w)
  intro state u _ hs
  cases state with
  | none => exact ⟨trivial, hs⟩
  | some s =>
    refine wp_ite (fun _ => ?_) fun _ => ⟨trivial, hs⟩
    apply wp_seq (wp_true _ u)
    exact fun _ v _ _ => read v

theorem Reads.of_value {state : Option InstallState} (h : Reads w state) (hv : w'.value = w.value) :
    Reads w' state := by
  cases state with
  | none => exact fun n => by rw [hv, h n]
  | some s => exact fun n => by rw [hv, h n]

theorem runInstall_signed (payloadDir version : WString) (hx : PairInv x) :
    wp signingExec PairInv SignedEnd (runInstall payloadDir version) x := by
  apply quiet_seq retireFirst_quiet hx (fun hs => retireFirst_sound (hx.sound hs)) (retireFirst_recalls x.1)
  intro state u hxu hreads hstate
  have still : ∀ {α : Type} {p : Flow α} {v : World × Standing}, PairInv v → (v.2 = .sound → Reads v.1 state) →
      Effects (fun _ => False) p → v.2 = .sound →
      wp soundExec SoundPair (fun _ w' => Reads w' state) p v.1 := by
    intro α p v hxv hreadsv hp hs
    refine wp_post (fun _ w' _ hw => (hreadsv hs).of_value hw.value) (sound_run ?_ (hxv.sound hs))
    exact Prog.calls_mono (fun _ hc e he => (hc e he).elim) (fun _ _ h => h) hp
  apply quiet_seq (quiet_of_effects defaultInstallDir_effects) hxu
    (fun hs => still hxu hreads defaultInstallDir_effects hs) (defaultInstallDir_for u.1)
  rintro dir v hxv hreadsv ⟨hvu, env, rfl⟩
  apply quiet_seq (quiet_of_effects (installMode_effects _ _)) hxv
    (fun hs => still hxv hreadsv (installMode_effects _ _) hs)
    (wp_end (wp_sub hashingExec_sub (installMode_spec state _ v.1)))
  rintro mode y hxy hreadsy ⟨hf, hchosen⟩
  have hyu : y.1 = u.1 := hf.eq.trans hvu
  rw [← hyu] at hstate
  split
  · next old =>
    obtain ⟨hcomplete, hsettled, hplace⟩ := hchosen.updated
    obtain ⟨-, hcert, hinf⟩ := old.complete_iff.mp hcomplete
    have hrecalls := hstate old rfl
    have hnul : 0 ∉ old.installDir := by
      rcases hrecalls .installDir with hdir | hdir <;> rw [show old.installDir = _ from hdir]
      · exact List.not_mem_nil
      · exact zero_notMem_cStr _
    have hfirm : y.2 = .sound → Firm y.1 := by
      intro hs
      refine (hxy.sound hs).settled ?_
      rw [← hreadsy hs .pendingCertThumbprint]
      simp only [InstallState.settled, Bool.and_eq_true, List.isEmpty_iff] at hsettled
      exact hsettled.1.1.1
    exact runUpdate_signed payloadDir version hxy hfirm hnul hplace (hrecalls.value .driverInf hinf) hinf
      (hrecalls.value .certThumbprint hcert)
  · apply quiet_seq runUninstall_quiet hxy (fun hs => runUninstall_razed (hxy.sound hs)) (wp_true _ y.1)
    exact fun _ z hxz hrazed _ => installFresh_signed payloadDir version hxz hrazed
  · next hrest hrest' =>
    obtain rfl := hchosen.none_of_rest hrest hrest'
    exact installFresh_signed payloadDir version hxy fun hs => razed_empty (hreadsy hs)

theorem runUninstall_pair (hx : PairInv x) : wp signingExec PairInv (fun _ _ => True) runUninstall x :=
  wp_post (fun _ _ _ _ => trivial) (quiet_run runUninstall_quiet hx
    (fun hs => runUninstall_razed (hx.sound hs)) (wp_true _ x.1))

theorem arrive_pair {event : Event} {y : World × Standing} (hx : PairInv x)
    (ha : signingSetup.arrive event x = some y) : PairInv y := by
  obtain ⟨w, hw, rfl⟩ := Option.map_eq_some_iff.mp ha
  have hspares : SparesPair x.1 w := by
    cases event <;> simp only [arrive, Option.some.injEq] at hw <;> subst hw
    · exact .refl _
    · exact .refl _
    · exact ⟨rfl, List.Subset.refl _, fun _ _ _ h => h⟩
  exact hx.spares hspares rfl

theorem handler_pair (event : Event) (hx : PairInv x) :
    wp signingSetup.exec PairInv (fun _ _ => True) (signingSetup.handler event) x := by
  cases event with
  | install payloadDir version => exact wp_post (fun _ _ _ _ => trivial) (runInstall_signed payloadDir version hx)
  | uninstall => exact runUninstall_pair hx
  | meanwhile machine => exact ⟨hx, trivial⟩

/-- After any history, an install that succeeds ends with the recorded package in the driver store,
signed by the recorded certificate, which is trusted. -/
theorem install_keeps_signature {payloadDir version : WString} {w₀ : World} {y z : World × Standing} {code : ℕ}
    (h : Rest signingSetup Always Always (w₀, .lost) x)
    (ha : signingSetup.arrive (.install payloadDir version) x = some y)
    (hs : Steps signingExec (runInstall payloadDir version) y (.ret code) z)
    (hcode : code = 0 ∨ code = 3010) : DriverSigned z.1 := by
  have hx : PairInv x := h.inv_of_wp ⟨fun hs => (by cases hs), fun hs => (by cases hs)⟩
    fun event u v hu hv => handler_pair event (arrive_pair hu hv)
  apply hs.post (runInstall_signed payloadDir version (arrive_pair hx ha))
  omega

end

/-- The driver store already holds the package. -/
def handBack (hash : Sha1) (published : WString) : Call → Outcome
  | .setupCopyOEMInf _ => .kept published
  | c => succeed hash published c

/-- The device does not take the package. -/
def refuseUpdate (hash : Sha1) (published : WString) : Call → Outcome
  | .updateDriverForPlugAndPlayDevices _ _ => .fail
  | c => handBack hash published c

/-- A first install, and the same release again, which the device does not take. -/
def installThenFail : List (Event × (Call → Outcome) × (Call → Bool)) :=
  firstInstall ++ [(.install releaseDir (wide "1"), refuseUpdate (sha1Of 2) (wide "oem1.inf"), fun _ => false)]

/-- The same release a third time: the driver store hands back the recorded package. -/
theorem install_keeps_signature_again :
    ∃ x y, Rest signingSetup Always Always (newPc, .lost) x ∧
      Steps signingExec (runInstall releaseDir (wide "1")) x (.ret 3010) y ∧ DriverSigned y.1 := by
  have hplay : ((signingSetup.playUntil installThenFail (newPc, .lost)).any fun x =>
      (runInstall releaseDir (wide "1")).endsWith signingExec (handBack (sha1Of 3) (wide "oem1.inf"))
        (fun code _ => code == 3010) x) = true := by decide +kernel
  obtain ⟨x, hx, hend⟩ := (Option.any_eq_true _ _).mp hplay
  obtain ⟨code, y, hs, hcode⟩ := Prog.endsWith_steps hend
  obtain rfl : code = 3010 := by simpa using hcode
  have hrest : Rest signingSetup Always Always (newPc, .lost) x := Rest.playUntil .init hx fun _ _ _ => trivial
  exact ⟨x, y, hrest, hs, install_keeps_signature hrest rfl hs (.inr rfl)⟩

/-- A first install, and an uninstall that cannot unstage its package. -/
def installThenKeep : List (Event × (Call → Outcome) × (Call → Bool)) :=
  firstInstall ++ [(.uninstall, refuseUnstage (sha1Of 1), fun _ => false)]

/-- The fresh install behind it is handed back a package that another certificate signed. -/
theorem install_loses_signature :
    Clean newPc ∧ ∃ w w', Rest setup Always Always newPc w ∧
      Steps setup.exec (runInstall releaseDir (wide "1")) w (.ret 3010) w' ∧ ¬ DriverSigned w' := by
  have hplay : ((setup.playUntil installThenKeep newPc).any fun w =>
      (runInstall releaseDir (wide "1")).endsWith setup.exec (handBack (sha1Of 2) (wide "oem1.inf"))
        (fun code w' => code == 3010 && !decide (DriverSigned w')) w) = true := by decide +kernel
  obtain ⟨w, hw, hend⟩ := (Option.any_eq_true _ _).mp hplay
  obtain ⟨code, w', hs, hc⟩ := Prog.endsWith_steps hend
  simp only [Bool.and_eq_true, beq_iff_eq, Bool.not_eq_true', decide_eq_false_iff_not] at hc
  obtain ⟨rfl, hunsigned⟩ := hc
  exact ⟨newPc_clean, w, w', Rest.playUntil .init hw fun _ _ _ => trivial, hs, hunsigned⟩

end VirtualGun.Setup
