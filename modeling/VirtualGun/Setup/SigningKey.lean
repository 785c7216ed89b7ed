import VirtualGun.Setup.Signing

/-!
# No private key behind a trusted certificate

Setup deletes its signing key before it trusts the certificate, but it does so too where Windows
did not delete the key.
-/

open VirtualGun.Program

namespace VirtualGun.Setup

/-- The private keys of the certificates that setup generated and that are trusted are gone. -/
def KeysGone (w : World) : Prop :=
  ∀ c ∈ w.keys.generated, (∃ store, c ∈ w.stores store) → ∀ k ∈ w.keys.persisted, k.id ≠ c.key

/-- Windows kept a key in this run, and yet a store took a certificate. -/
def TrustsKeptKey (l : Log Call Outcome) : Prop :=
  KeptKey l ∧ ∃ store c, (Call.certAddEncodedCertificateToStore store c, Outcome.ok) ∈ l

theorem KeptKey.mono {l m : Log Call Outcome} (h : KeptKey l) (hl : l <+: m) : KeptKey m :=
  h.imp fun _ hk => hl.subset hk

theorem TrustsKeptKey.mono {l m : Log Call Outcome} (h : TrustsKeptKey l) (hl : l <+: m) :
    TrustsKeptKey m :=
  ⟨h.1.mono hl, h.2.imp fun _ hs => hs.imp fun _ hc => hl.subset hc⟩

structure KeyInv (x : World × Log Call Outcome) : Prop where
  numbered : Numbered x.1
  gone : ¬ TrustsKeptKey x.2 → KeysGone x.1

section
variable {x y : World × Log Call Outcome}

/-- The effects of everything but the making and the trusting of a certificate. -/
abbrev Undoing : Effect → Prop := fun e => e ≠ .trust ∧ e ≠ .keys

theorem KeyInv.undoing (h : KeyInv x) (hf : Frame Undoing x.1 y.1) (hl : x.2 <+: y.2) :
    KeyInv y where
  numbered := h.numbered.frame hf (by decide) (by decide)
  gone hy c hc hs k hk := by
    rw [hf.keys (by decide)] at hc hk
    exact h.gone (fun ht => hy (ht.mono hl)) c hc (hs.imp fun s hs => hf.untrusts (by decide) s hs) k hk

/-- A new key is no key of a certificate that was there before, and a new certificate is trusted
nowhere. -/
theorem KeyInv.newKeys (h : KeyInv x) (hn : NewKeys x.1 y.1) (hl : x.2 <+: y.2) : KeyInv y where
  numbered := hn.numbered h.numbered
  gone hy c hc hs k hk := by
    rw [hn.stores_eq] at hs
    obtain ⟨s, hs⟩ := hs
    have hold := h.numbered.stores s c hs
    rcases hn.generated c hc with hc | hc
    · rcases hn.persisted k hk with hk | hk
      · exact h.gone (fun ht => hy (ht.mono hl)) c hc ⟨s, hs⟩ k hk
      · omega
    · omega

theorem undoing_run {α : Type} {p : Flow α} (hp : Effects Undoing p) (h : KeyInv x) :
    wp exec.logged KeyInv (fun _ y => Frame Undoing x.1 y.1 ∧ x.2 <+: y.2) p x :=
  wp_mono (fun _ hy => h.undoing hy.1 hy.2) (fun _ _ _ hy => hy)
    (wp_logged (List.prefix_refl x.2) (wp_effects hp x.1))

theorem undoing_end {α : Type} {p : Flow α} (hp : Effects Undoing p) (h : KeyInv x) :
    wp exec.logged KeyInv (fun _ _ => True) p x :=
  wp_post (fun _ _ _ _ => trivial) (undoing_run hp h)

/-! ## Trusting -/

theorem KeyDropped.mono {c : Certificate} (h : KeyDropped c x) (hk : y.1.keys = x.1.keys)
    (hl : x.2 <+: y.2) : KeyDropped c y :=
  h.imp (fun h => hk ▸ h) fun h => h.mono hl

theorem KeyInv.trust {c : Certificate} {store : StoreName} (h : KeyInv x)
    (hc : c ∈ x.1.keys.generated) (hd : KeyDropped c x) :
    KeyInv (x.1.setStore store (c :: (x.1.stores store).erase c),
      x.2 ++ [(.certAddEncodedCertificateToStore store c, .ok)]) := by
  refine ⟨h.numbered.trust store hc, fun hy c' hg hs k hk => ?_⟩
  have hkept : ¬ KeptKey x.2 := fun hk => hy ⟨hk.mono (List.prefix_append _ _), store, c, by simp⟩
  obtain ⟨s, hs⟩ := hs
  rcases mem_trusted hs with rfl | hs
  · exact hd.resolve_right hkept k hk
  · exact h.gone (fun ht => hkept ht.1) c' hg ⟨s, hs⟩ k hk

theorem trustIn_keys {c : Certificate} (stores : List StoreName) (h : KeyInv x)
    (hc : c ∈ x.1.keys.generated) (hd : KeyDropped c x) :
    wp exec.logged KeyInv (fun _ _ => True) (trustIn (some c) stores) x := by
  induction stores generalizing x with
  | nil => exact ⟨h, trivial⟩
  | cons store stores ih =>
    simp only [trustIn, perform, Prog.perform_bind]
    refine ⟨h, fun opened r y he => ?_⟩
    obtain ⟨v, hv, rfl⟩ := Exec.logged_eq_some.mp he
    obtain ⟨-, rfl⟩ := looked_eq_some.mp hv
    have hl := List.prefix_append x.2 [(Call.certOpenStore store none, opened)]
    have h' : KeyInv (x.1, x.2 ++ [(Call.certOpenStore store none, opened)]) := h.undoing (.refl _ _) hl
    have hd' : KeyDropped c (x.1, x.2 ++ [(Call.certOpenStore store none, opened)]) := hd.mono rfl hl
    cases r with
    | none => exact ⟨h', trivial⟩
    | some size =>
      refine ⟨h', fun o r y he => ?_⟩
      obtain ⟨v, hv, rfl⟩ := Exec.logged_eq_some.mp he
      have hl' := List.prefix_append (x.2 ++ [(Call.certOpenStore store none, opened)])
        [(Call.certAddEncodedCertificateToStore store c, o)]
      obtain ⟨rfl, rfl, rfl⟩ | ⟨rfl, rfl, rfl⟩ := tried_eq_some.mp hv
      · exact ih (h'.trust hc hd') hc (hd'.mono rfl hl')
      · exact ⟨h'.undoing (.refl _ _) hl', trivial⟩

/-! ## The runs -/

theorem runUpdate_keys (old : InstallState) (payloadDir version : WString) (h : KeyInv x) :
    wp exec.logged KeyInv (fun _ _ => True) (runUpdate old payloadDir version) x := by
  have fails : ∀ {y : World × Log Call Outcome} (cert inf : WString), KeyInv y →
      wp exec.logged KeyInv (fun _ _ => True) (failUpdate old cert inf) y := fun cert inf hy =>
    undoing_end (failUpdate_effects (by decide) (by decide) (by decide) old cert inf) hy
  refine wp_seq (undoing_run (copyPayload_effects (by decide) _ _) h) fun _ y hy _ => ?_
  refine wp_ite (fun _ => ?_) fun _ => fails _ _ hy
  refine wp_seq (wp_mono (fun z hz => hy.newKeys hz.1 hz.2) (fun _ _ _ hr => hr)
    (signDriver_logged _ y.2 _)) ?_
  rintro (_ | cert) z hz hsigned
  · exact fails _ _ hz
  · obtain ⟨c, hc, hd⟩ := hsigned cert rfl
    refine wp_seq (undoing_run (writeValue_effects (by decide) _ _) hz) fun _ u hu hf => ?_
    refine wp_ite (fun _ => ?_) fun _ => fails _ _ hu
    have hk : u.1.keys = z.1.keys := hf.1.keys (by decide)
    rw [trustCertificate, hc.encoded]
    refine wp_seq (trustIn_keys storeNames hu (hk ▸ hc.generated) (hd.mono hk hf.2)) fun _ t ht _ => ?_
    refine wp_ite (fun _ => ?_) fun _ => fails _ _ ht
    exact undoing_end (swapPackage_effects (by decide) (by decide) (by decide) (by decide) (by decide) _ _ _ _) ht

theorem installFresh_keys (payloadDir dir version : WString) (h : KeyInv x) :
    wp exec.logged KeyInv (fun _ _ => True) (installFresh payloadDir dir version) x := by
  have fails : ∀ {y : World × Log Call Outcome}, KeyInv y →
      wp exec.logged KeyInv (fun _ _ => True) failInstall y := fun hy =>
    undoing_end (failInstall_effects (by decide) (by decide) (by decide) (by decide) (by decide)) hy
  refine wp_seq (undoing_run (writeValue_effects (by decide) _ _) h) fun _ v hv _ => ?_
  refine wp_ite (fun _ => ?_) fun _ => fails hv
  refine wp_seq (undoing_run (copyPayload_effects (by decide) _ _) hv) fun _ y hy _ => ?_
  refine wp_ite (fun _ => ?_) fun _ => fails hy
  refine wp_seq (wp_mono (fun z hz => hy.newKeys hz.1 hz.2) (fun _ _ _ hr => hr)
    (signDriver_logged _ y.2 _)) ?_
  rintro (_ | cert) z hz hsigned
  · exact fails hz
  · obtain ⟨c, hc, hd⟩ := hsigned cert rfl
    refine wp_seq (undoing_run (writeValue_effects (by decide) _ _) hz) fun _ u hu hf => ?_
    refine wp_ite (fun _ => ?_) fun _ => fails hu
    have hk : u.1.keys = z.1.keys := hf.1.keys (by decide)
    rw [trustCertificate, hc.encoded]
    refine wp_seq (trustIn_keys storeNames hu (hk ▸ hc.generated) (hd.mono hk hf.2)) fun _ t ht _ => ?_
    refine wp_ite (fun _ => ?_) fun _ => fails ht
    exact undoing_end (installNode_effects (by decide) (by decide) (by decide) (by decide) (by decide)
      (by decide) _ _) ht

theorem runInstall_keys (payloadDir version : WString) (h : KeyInv x) :
    wp exec.logged KeyInv (fun _ _ => True) (runInstall payloadDir version) x := by
  refine wp_seq (undoing_run (retireFirst_effects (by decide) (by decide) (by decide)) h) fun state y hy _ => ?_
  refine wp_seq (undoing_run defaultInstallDir_effects hy) fun dir y hy _ => ?_
  refine wp_seq (undoing_run (installMode_effects state dir) hy) fun mode y hy _ => ?_
  split
  · exact runUpdate_keys _ _ _ hy
  · refine wp_seq (undoing_run (runUninstall_effects (by decide) (by decide) (by decide) (by decide)
      (by decide)) hy)
      fun _ y hy _ => installFresh_keys _ _ _ hy
  · exact installFresh_keys _ _ _ hy

end

/-! ## Histories -/

/-- A run may end, or be killed, anywhere but behind a trusted certificate whose key was kept. -/
def DropsKeys : Event → World × Log Call Outcome → World × Log Call Outcome → Prop :=
  fun _ _ x => ¬ TrustsKeptKey x.2

/-- As long as no run trusts a certificate after Windows kept its key, the private key of every
trusted certificate of setup's is gone, at every instant of every history. -/
theorem trusted_keys_gone {w₀ w : World} {l : Log Call Outcome} (h₀ : Clean w₀)
    (hw : Instant setup.logged DropsKeys DropsKeys (w₀, []) (w, l)) (hl : ¬ TrustsKeptKey l) :
    KeysGone w := by
  have hinv : KeyInv (w, l) := by
    refine hw.inv (J := fun x => Numbered x.1 ∧ KeysGone x.1) ⟨h₀.numbered, ?_⟩ ?_ ?_
    · intro c hc
      simp [h₀.generated] at hc
    · rintro event x y ⟨hn, hg⟩ ha
      obtain ⟨v, hv, rfl⟩ := Option.map_eq_some_iff.mp ha
      have run : ∀ {p : Flow ℕ} {v : World}, wp exec.logged KeyInv (fun _ _ => True) p (v, []) →
          wp exec.logged KeyInv (fun _ y => DropsKeys event (v, []) y → Numbered y.1 ∧ KeysGone y.1)
            p (v, []) :=
        fun h => wp_post (fun _ y hy _ hd => ⟨hy.numbered, hy.gone hd⟩) h
      cases event with
      | install payloadDir version =>
        obtain rfl := Option.some.inj hv
        exact run (runInstall_keys _ _ ⟨hn, fun _ => hg⟩)
      | uninstall =>
        obtain rfl := Option.some.inj hv
        exact run (undoing_end (runUninstall_effects (by decide) (by decide) (by decide) (by decide)
          (by decide)) ⟨hn, fun _ => hg⟩)
      | meanwhile machine =>
        obtain rfl := Option.some.inj hv
        exact run ⟨⟨hn.machine _, fun _ => hg⟩, trivial⟩
    · exact fun _ _ y hy hd => ⟨hy.numbered, hy.gone hd⟩
  exact hinv.gone hl

/-- No key deletion failed. -/
def deletesKeys (l : Log Call Outcome) : Bool :=
  l.all fun
    | (.ncryptDeleteKey _, .fail) => false
    | _ => true

theorem not_keptKey {l : Log Call Outcome} (h : deletesKeys l = true) : ¬ KeptKey l := by
  rintro ⟨key, hk⟩
  simpa using List.all_eq_true.mp h _ hk

theorem trusted_keys_gone_installed :
    ∃ w l, Instant setup.logged DropsKeys DropsKeys (newPc, []) (w, l) ∧ ¬ TrustsKeptKey l ∧
      trustsOwn w ∧ KeysGone w := by
  obtain ⟨⟨w, l⟩, hi, hc⟩ := Instant.of_play (S := setup.logged) (.install releaseDir (wide "1"))
    (succeed (sha1Of 1) (wide "oem1.inf")) rootTrusted (fun x => trustsOwn x.1 && deletesKeys x.2)
    (Rest.init : Rest _ DropsKeys DropsKeys (newPc, []) _) rfl (by decide +kernel)
  rw [Bool.and_eq_true] at hc
  have hl : ¬ TrustsKeptKey l := fun ht => not_keptKey hc.2 ht.1
  exact ⟨w, l, hi, hl, hc.1, trusted_keys_gone newPc_clean hi hl⟩

def keepKey (hash : Sha1) (published : WString) : Call → Outcome
  | .ncryptDeleteKey _ => .fail
  | c => succeed hash published c

/-- Root holds a certificate of setup's whose private key is there. -/
def trustsHeldKey (w : World) : Bool :=
  w.keys.generated.any fun c => (w.stores .root).contains c && w.keys.persisted.any (·.id == c.key)

/-- A first install whose key Windows keeps trusts the certificate of that key. -/
theorem kept_key_trusted :
    Clean newPc ∧ ∃ x, Instant setup.logged Always Always (newPc, []) x ∧ ¬ KeysGone x.1 := by
  obtain ⟨x, hi, hc⟩ := Instant.of_play (S := setup.logged) (.install releaseDir (wide "1"))
    (keepKey (sha1Of 1) (wide "oem1.inf")) rootTrusted (fun x => trustsHeldKey x.1)
    (Rest.init : Rest _ Always Always (newPc, []) _) rfl (by decide +kernel)
  simp only [trustsHeldKey, Bool.and_eq_true, List.any_eq_true, List.contains_iff_mem, beq_iff_eq] at hc
  obtain ⟨c, hc, hs, k, hk, hid⟩ := hc
  exact ⟨newPc_clean, x, hi, fun hg => hg c hc ⟨.root, hs⟩ k hk hid⟩

end VirtualGun.Setup
