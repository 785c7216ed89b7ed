import VirtualGun.Setup.Trust

/-!
# What an update replaced

`RetirePrevious` removes what `PreviousCertThumbprint` and `PreviousDriverInf` name. A promotion
writes the old pair there before it overwrites it; as long as the pair stands in both places,
`PendingCertThumbprint` is recorded too, and nothing is retired.
-/

open VirtualGun.Program

namespace VirtualGun.Setup

/-- No `Previous*` value names what `CertThumbprint` and `DriverInf` name. -/
structure Apart (values : ValueName → WString) : Prop where
  cert : values .previousCertThumbprint ≠ [] →
    values .previousCertThumbprint ≠ values .certThumbprint
  inf : values .previousDriverInf ≠ [] →
    ¬ sameName (values .previousDriverInf) (values .driverInf)

/-- Where they name the same, a `Pending*` value is recorded. -/
def Hidden (values : ValueName → WString) : Prop :=
  values .pendingCertThumbprint = [] → values .pendingDriverInf = [] → Apart values

/-- No two certificates that setup generated have one hash. -/
def Distinct (w : World) : Prop :=
  ∀ c ∈ w.keys.generated, ∀ c' ∈ w.keys.generated, c.hash = c'.hash → c = c'

/-- Empty, or the thumbprint of a certificate that setup generated. -/
def NamesMade (w : World) (v : WString) : Prop := v = [] ∨ ∃ c ∈ w.keys.generated, v = thumbprintOf c

structure RetireInv (w : World) : Prop where
  numbered : Numbered w
  distinct : Distinct w
  made : ∀ s, NamesMade w (w.value (certName s))
  hidden : Hidden w.value

/-- Neither a read of the state key nor its deletion fails. -/
def readable : Call → Outcome → Bool
  | .regOpenKey, o | .regGetValueSize _, o | .regGetValue _, o | .regDeleteKey, o => o ≠ .fail
  | _, _ => true

/-- A new certificate has a hash of its own. -/
def freshHash : Call → Outcome → World → Bool
  | .certCreateSelfSignCertificate _, .certificate hash, w =>
    !w.keys.generated.any fun c => c.hash == hash
  | _, _, _ => true

def retiringSetup : System Event Call Call.Resp Outcome World ℕ :=
  (setup.only readable).within freshHash

/-- The OS calls of `retiringSetup`. -/
abbrev retiringExec : Exec Call Call.Resp Outcome World := (exec.only readable).within freshHash

theorem retiringExec_eq_some {c : Call} {o : Outcome} {w : World} {x : c.Resp × World} :
    retiringExec c o w = some x ↔
      freshHash c o w = true ∧ readable c o = true ∧ exec c o w = some x := by
  rw [retiringExec, Exec.within_eq_some, Exec.only_eq_some]

theorem retiringExec_sub : retiringExec.Sub exec :=
  fun _ _ _ _ h => (retiringExec_eq_some.mp h).2.2

theorem retiringExec_reads : ReadsWell retiringExec := by
  rintro c o w x hc h rfl
  have hr := (retiringExec_eq_some.mp h).2.1
  cases c <;> simp [Call.isRead, readable] at hc hr

/-! ## Hashes stay distinct -/

section
variable {w w' : World}

theorem Distinct.keys (h : Distinct w) (hk : w'.keys.generated = w.keys.generated) : Distinct w' := by
  unfold Distinct
  rw [hk]
  exact h

theorem Distinct.generate {c : Certificate} (h : Distinct w)
    (hc : ∀ c' ∈ w.keys.generated, c'.hash ≠ c.hash) :
    Distinct { w with keys := { w.keys with generated := w.keys.generated ++ [c] } } := by
  intro a ha b hb hab
  rcases List.mem_append.mp ha with ha | ha <;> rcases List.mem_append.mp hb with hb | hb
  · exact h a ha b hb hab
  · exact absurd (List.mem_singleton.mp hb ▸ hab) (hc a ha)
  · exact absurd (List.mem_singleton.mp ha ▸ hab.symm) (hc b hb)
  · rw [List.mem_singleton.mp ha, List.mem_singleton.mp hb]

theorem distinct_step (c : Call) (o : Outcome) (r : c.Resp) (w w' : World) (h : Distinct w)
    (he : retiringExec c o w = some (r, w')) : Distinct w' := by
  obtain ⟨hfresh, -, hx⟩ := retiringExec_eq_some.mp he
  by_cases hk : c.effect = some .keys
  · cases c with
    | certCreateSelfSignCertificate key =>
      cases o with
      | certificate hash =>
        simp only [exec, Option.some.injEq, Prod.mk.injEq] at hx
        obtain ⟨-, rfl⟩ := hx
        refine h.generate fun c' hc' => ?_
        simp only [freshHash, Bool.not_eq_true', List.any_eq_false, beq_iff_eq] at hfresh
        exact hfresh c' hc'
      | fail =>
        simp only [exec, Option.some.injEq, Prod.mk.injEq] at hx
        exact h.keys (by rw [← hx.2])
      | _ => simp [exec] at hx
    | ncryptCreatePersistedKey name machine =>
      refine h.keys ?_
      simp only [exec] at hx
      repeat' split at hx
      all_goals cases hx
      all_goals rfl
    | ncryptFinalizeKey key =>
      obtain ⟨-, -, rfl⟩ | ⟨-, -, rfl⟩ := tried_eq_some.mp hx <;> exact h
    | ncryptDeleteKey key =>
      obtain ⟨-, -, rfl⟩ | ⟨-, -, rfl⟩ := tried_eq_some.mp hx <;> exact h
    | _ => simp [Call.effect] at hk
  · exact h.keys (by rw [(exec_frame hx).keys hk])

/-! ## What keeps the invariant -/

theorem NamesMade.keys {v : WString} (h : NamesMade w v) (hk : w.keys.generated ⊆ w'.keys.generated) :
    NamesMade w' v :=
  h.imp_right fun ⟨c, hc, hv⟩ => ⟨c, hk hc, hv⟩

theorem RetireInv.frame (h : RetireInv w) (hf : Frame Untrusting w w') : RetireInv w' := by
  have hv : w'.value = w.value := funext fun n => hf.value (by decide) n
  have hk : w'.keys = w.keys := hf.keys (by decide)
  refine ⟨h.numbered.frame hf (by decide) (by decide), h.distinct.keys (by rw [hk]), fun s => ?_, ?_⟩
  · rw [hv]
    exact (h.made s).keys (by rw [hk]; exact List.Subset.refl _)
  · rw [hv]
    exact h.hidden

theorem RetireInv.newKeys (h : RetireInv w) (hk : NewKeys w w') (hd : Distinct w') : RetireInv w' := by
  have hv : w'.value = w.value := funext fun n => hk.frame.value (by decide) n
  refine ⟨hk.numbered h.numbered, hd, fun s => ?_, ?_⟩
  · rw [hv]
    exact (h.made s).keys hk.kept
  · rw [hv]
    exact h.hidden

theorem Sets.numbered {values : ValueName → WString} (hs : Sets w values w') (h : Numbered w) :
    Numbered w' := by
  refine ⟨?_, ?_, ?_⟩ <;> simp only [hs.keys, hs.stores]
  exacts [h.persisted, h.generated, h.stores]

theorem RetireInv.sets {values : ValueName → WString} (h : RetireInv w) (hs : Sets w values w')
    (hm : ∀ s, NamesMade w (values (certName s))) (hh : Hidden values) : RetireInv w' := by
  have hv : w'.value = values := funext hs.value
  refine ⟨hs.numbered h.numbered, h.distinct.keys (by rw [hs.keys]), fun s => ?_, ?_⟩
  · rw [hv]
    exact (hm s).keys (by rw [hs.keys]; exact List.Subset.refl _)
  · rw [hv]
    exact hh

theorem made_update {name : ValueName} {v : WString} (h : RetireInv w)
    (hm : ∀ s, certName s = name → NamesMade w v) (s : Slot) :
    NamesMade w (Function.update w.value name v (certName s)) := by
  by_cases hs : certName s = name
  · rw [hs, Function.update_self]
    exact hm s hs
  · rw [Function.update_of_ne hs]
    exact h.made s

theorem writeValue_retire {name : ValueName} (v : WString) (h : RetireInv w)
    (hm : ∀ s, certName s = name → NamesMade w (cStr v))
    (hh : Hidden (Function.update w.value name (cStr v))) :
    wp retiringExec RetireInv
      (fun ok w' => Sets w (if ok then Function.update w.value name (cStr v) else w.value) w')
      (writeValue name v) w := by
  refine wp_mono (fun w' hw' => ?_) (fun _ _ _ hw => hw) (writeValue_spec retiringExec_sub name v)
  exact hw'.elim (h.sets · h.made h.hidden) (h.sets · (made_update h hm) hh)

theorem deleteValue_retire {name : ValueName} (h : RetireInv w)
    (hh : Hidden (Function.update w.value name [])) :
    wp retiringExec RetireInv
      (fun _ w' => Sets w w.value w' ∨ Sets w (Function.update w.value name []) w')
      (deleteValue name) w := by
  refine wp_mono (fun w' hw' => ?_) (fun _ _ _ hw => hw) (deleteValue_spec retiringExec_sub name)
  exact hw'.elim (h.sets · h.made h.hidden)
    (h.sets · (made_update h fun _ _ => .inl rfl) hh)

theorem untrusting_retire {α : Type} {p : Flow α} (hp : Effects Untrusting p) (h : RetireInv w) :
    wp retiringExec RetireInv (fun _ w' => Frame Untrusting w w') p w :=
  wp_keep retiringExec_sub hp fun _ hf => h.frame hf

theorem readState_retire (h : RetireInv w) :
    wp retiringExec RetireInv (fun s w' => w' = w ∧ Reads w s) readState w :=
  wp_mono (fun w' (hw : w' = w) => hw ▸ h) (fun _ _ hw hs => ⟨hw, hs⟩)
    (readState_spec retiringExec_sub retiringExec_reads)

end

/-! ## Before a promotion -/

section
variable {w w' : World} {old : InstallState}

/-- No update has left anything behind. -/
structure Sole (w : World) : Prop where
  inv : RetireInv w
  noCert : w.value .previousCertThumbprint = []
  noInf : w.value .previousDriverInf = []

/-- An update of `old` that is not promoted yet. -/
structure Unpromoted (old : InstallState) (w : World) : Prop extends Sole w where
  oldCert : w.value .certThumbprint = old.certThumbprint
  oldInf : w.value .driverInf = old.driverInf

theorem hidden_of_none {values : ValueName → WString} (hc : values .previousCertThumbprint = [])
    (hi : values .previousDriverInf = []) : Hidden values :=
  fun _ _ => ⟨fun h => absurd hc h, fun h => absurd hi h⟩

theorem Sole.frame (h : Sole w) (hf : Frame Untrusting w w') : Sole w' :=
  ⟨h.inv.frame hf, (hf.value (by decide) _).trans h.noCert, (hf.value (by decide) _).trans h.noInf⟩

theorem Unpromoted.frame (h : Unpromoted old w) (hf : Frame Untrusting w w') : Unpromoted old w' :=
  ⟨h.toSole.frame hf, (hf.value (by decide) _).trans h.oldCert, (hf.value (by decide) _).trans h.oldInf⟩

theorem Sole.update {name : ValueName} {v : WString} (h : Sole w)
    (hn : name ≠ .previousCertThumbprint ∧ name ≠ .previousDriverInf)
    (hm : ∀ s, certName s = name → NamesMade w v) (hs : Sets w (Function.update w.value name v) w') :
    Sole w' := by
  have hc : Function.update w.value name v .previousCertThumbprint = [] := by
    rw [Function.update_of_ne hn.1.symm, h.noCert]
  have hi : Function.update w.value name v .previousDriverInf = [] := by
    rw [Function.update_of_ne hn.2.symm, h.noInf]
  exact ⟨h.inv.sets hs (made_update h.inv hm) (hidden_of_none hc hi), (hs.value _).trans hc,
    (hs.value _).trans hi⟩

theorem Sole.unset (h : Sole w) (hs : Sets w w.value w') : Sole w' :=
  ⟨h.inv.sets hs h.inv.made h.inv.hidden, (hs.value _).trans h.noCert, (hs.value _).trans h.noInf⟩

theorem writeValue_sole {name : ValueName} (v : WString) (h : Sole w)
    (hn : name ≠ .previousCertThumbprint ∧ name ≠ .previousDriverInf)
    (hm : ∀ s, certName s = name → NamesMade w (cStr v)) :
    wp retiringExec Sole
      (fun ok w' => Sets w (if ok then Function.update w.value name (cStr v) else w.value) w')
      (writeValue name v) w := by
  refine wp_mono (fun w' hw' => ?_) (fun _ _ _ hw => hw) (writeValue_spec retiringExec_sub name v)
  exact hw'.elim h.unset (h.update hn hm)

theorem deleteValue_sole {name : ValueName} (h : Sole w)
    (hn : name ≠ .previousCertThumbprint ∧ name ≠ .previousDriverInf) :
    wp retiringExec Sole (fun _ _ => True) (deleteValue name) w := by
  refine wp_mono (fun w' hw' => ?_) (fun _ _ _ _ => trivial) (deleteValue_spec retiringExec_sub name)
  exact hw'.elim h.unset (h.update hn fun _ _ => .inl rfl)

theorem untrusting_sole {α : Type} {p : Flow α} (hp : Effects Untrusting p) (h : Sole w) :
    wp retiringExec Sole (fun _ w' => Frame Untrusting w w') p w :=
  wp_keep retiringExec_sub hp fun _ hf => h.frame hf

theorem untrusting_unpromoted {α : Type} {p : Flow α} (hp : Effects Untrusting p)
    (h : Unpromoted old w) :
    wp retiringExec (Unpromoted old) (fun _ w' => Frame Untrusting w w') p w :=
  wp_keep retiringExec_sub hp fun _ hf => h.frame hf

theorem signDriver_retire (driverDir : WString) (h : RetireInv w) :
    wp retiringExec (fun w' => RetireInv w' ∧ w'.value = w.value ∧ w.keys.generated ⊆ w'.keys.generated)
      (fun r w' => ∀ cert, r = some cert → ∃ c, Signed w w' driverDir cert c)
      (signDriver driverDir) w := by
  have hsigned := wp_sub retiringExec_sub (signDriver_spec driverDir w)
  refine wp_mono (fun w' hw' => ?_) (fun _ _ _ hr => hr.1)
    (wp_and hsigned (wp_keeps distinct_step (signDriver driverDir) h.distinct))
  exact ⟨h.newKeys hw'.1 hw'.2, funext fun n => hw'.1.frame.value (by decide) n, hw'.1.kept⟩

theorem trustIn_retire {c : Certificate} (stores : List StoreName) (h : RetireInv w)
    (hc : c ∈ w.keys.generated) :
    wp retiringExec (fun w' => RetireInv w' ∧ w'.value = w.value ∧ w'.keys = w.keys)
      (fun _ _ => True) (trustIn (some c) stores) w := by
  induction stores generalizing w with
  | nil => exact ⟨⟨h, rfl, rfl⟩, trivial⟩
  | cons store stores ih =>
    simp only [trustIn, perform, Prog.perform_bind]
    refine ⟨⟨h, rfl, rfl⟩, fun o r w' he => ?_⟩
    obtain ⟨-, rfl⟩ := looked_eq_some.mp (retiringExec_sub _ _ _ _ he)
    cases r with
    | none => exact ⟨⟨h, rfl, rfl⟩, trivial⟩
    | some size =>
      refine ⟨⟨h, rfl, rfl⟩, fun o r v he => ?_⟩
      obtain ⟨-, rfl, rfl⟩ | ⟨-, rfl, rfl⟩ := tried_eq_some.mp (retiringExec_sub _ _ _ _ he)
      · exact ih ⟨h.numbered.trust store hc, h.distinct, h.made, h.hidden⟩ hc
      · exact ⟨⟨h, rfl, rfl⟩, trivial⟩

/-! ## Uninstall and roll-back -/

theorem runUninstall_retire (h : RetireInv w) :
    wp retiringExec RetireInv (fun _ w' => ∀ name, w'.value name = []) runUninstall w := by
  refine wp_seq (readState_retire h) ?_
  rintro state _ hu ⟨rfl, -⟩
  refine wp_seq (untrusting_retire (uninstallDriver_effects (by decide) (by decide) _) hu)
    fun _ u hu _ => ?_
  refine wp_seq (untrusting_retire (uninstallRecorded_effects (by decide) (by decide) (by decide) _) hu)
    fun _ v hv _ => ?_
  refine ⟨hv, fun o r x he => ?_⟩
  obtain ⟨-, hread, hx⟩ := retiringExec_eq_some.mp he
  obtain ⟨-, -, rfl⟩ | ⟨rfl, -, -⟩ := tried_eq_some.mp hx
  · have hd : RetireInv v.deleteKey :=
      ⟨⟨hv.numbered.persisted, hv.numbered.generated, hv.numbered.stores⟩, hv.distinct,
        fun _ => .inl rfl, hidden_of_none rfl rfl⟩
    exact ⟨hd, fun _ => rfl⟩
  · simp [readable] at hread

theorem failInstall_retire (h : RetireInv w) :
    wp retiringExec RetireInv (fun _ _ => True) failInstall w :=
  wp_seq (runUninstall_retire h) fun _ _ hu _ => ⟨hu, trivial⟩

theorem failUpdate_retire (cert inf : WString) (h : Unpromoted old w) :
    wp retiringExec RetireInv (fun _ _ => True) (failUpdate old cert inf) w := by
  have key : wp retiringExec Sole (fun _ _ => True) (failUpdate old cert inf) w := by
    refine wp_seq (untrusting_sole (unstageOther_effects (by decide) _ _) h.toSole) fun _ u hu _ => ?_
    refine wp_seq (untrusting_sole (removeTrustedCertificate_effects (by decide) _) hu) fun _ v hv _ => ?_
    refine wp_seq (deleteValue_sole hv (by decide)) fun _ x hx _ => ?_
    exact wp_seq (deleteValue_sole hx (by decide)) fun _ y hy _ => ⟨hy, trivial⟩
  exact wp_mono (fun _ hw => hw.inv) (fun _ _ _ hq => hq) key

theorem Hidden.version {values : ValueName → WString} (h : Hidden values) (v : WString) :
    Hidden (Function.update values .version v) := by
  intro hc hi
  have ha := h (by simpa [Function.update] using hc) (by simpa [Function.update] using hi)
  exact ⟨by simpa [Function.update] using ha.cert, by simpa [Function.update] using ha.inf⟩

theorem finish_retire {p q : Flow ℕ} (version : WString) (h : RetireInv w) (hp : Effects Untrusting p)
    (hq : ∀ {u}, RetireInv u → wp retiringExec RetireInv (fun _ _ => True) q u) :
    wp retiringExec RetireInv (fun _ _ => True)
      (do if ← writeValue .version version then p else q) w := by
  refine wp_seq (writeValue_retire version h (fun s hs => absurd hs (noSlot_version s))
    (h.hidden.version _)) fun ok u hu _ => wp_ite (fun _ => ?_) fun _ => hq hu
  exact wp_post (fun _ _ _ _ => trivial) (untrusting_retire hp hu)

end

/-! ## Promotion -/

section
variable {w w' : World} {old : InstallState} {cert : SigningCert}

/-- The certificate of an update is recorded as pending, and is not the one of `old`. -/
structure Pending (old : InstallState) (cert : SigningCert) (w : World) : Prop
    extends Unpromoted old w where
  pending : w.value .pendingCertThumbprint = cert.thumbprint
  made : ∃ c ∈ w.keys.generated, cert.thumbprint = thumbprintOf c
  fresh : cert.thumbprint ≠ old.certThumbprint

theorem Pending.frame (h : Pending old cert w) (hf : Frame Untrusting w w') : Pending old cert w' where
  toUnpromoted := h.toUnpromoted.frame hf
  pending := (hf.value (by decide) _).trans h.pending
  made := by rw [hf.keys (by decide)]; exact h.made
  fresh := h.fresh

theorem Pending.ne_nil (h : Pending old cert w) : cert.thumbprint ≠ [] := by
  obtain ⟨c, -, hc⟩ := h.made
  rw [hc]
  exact (thumbprintOf_ne_nil c).symm

theorem Pending.namesMade (h : Pending old cert w) : NamesMade w (cStr cert.thumbprint) := by
  obtain ⟨c, hc, ht⟩ := h.made
  exact .inr ⟨c, hc, by rw [ht, cStr_thumbprintOf]⟩

theorem writePendingInf_retire (published : WString) (h : Pending old cert w) :
    wp retiringExec (Pending old cert) (fun _ _ => True) (writeValue .pendingDriverInf published) w := by
  have hm : ∀ s, certName s = .pendingDriverInf → NamesMade w (cStr published) :=
    fun s hs => absurd hs (noSlot_pendingDriverInf s)
  have kept : ∀ {u values}, Sole u → Sets w values u → values .certThumbprint = w.value .certThumbprint →
      values .driverInf = w.value .driverInf →
      values .pendingCertThumbprint = w.value .pendingCertThumbprint → Pending old cert u := by
    intro u values hu hs hc hi hp
    exact ⟨⟨hu, (hs.value _).trans (hc.trans h.oldCert), (hs.value _).trans (hi.trans h.oldInf)⟩,
      (hs.value _).trans (hp.trans h.pending), by rw [hs.keys]; exact h.made, h.fresh⟩
  refine wp_mono (fun u hu => ?_) (fun _ _ _ _ => trivial)
    (writeValue_spec retiringExec_sub .pendingDriverInf published)
  rcases hu with hs | hs
  · exact kept (h.unset hs) hs rfl rfl rfl
  · exact kept (h.update (by decide) hm hs) hs (Function.update_of_ne (by decide) _ _)
      (Function.update_of_ne (by decide) _ _) (Function.update_of_ne (by decide) _ _)

/-- While `PendingCertThumbprint` is recorded, values may be written in any order. -/
theorem writePending_retire {name : ValueName} {v : WString} (h : RetireInv w)
    (hp : w.value .pendingCertThumbprint ≠ []) (hn : name ≠ .pendingCertThumbprint)
    (hm : ∀ s, certName s = name → NamesMade w (cStr v)) :
    wp retiringExec RetireInv
      (fun ok w' => Sets w (if ok then Function.update w.value name (cStr v) else w.value) w')
      (writeValue name v) w := by
  refine writeValue_retire v h hm fun hc => absurd ?_ hp
  rwa [Function.update_of_ne hn.symm] at hc

theorem promoteValues_retire {published : WString} (h : Pending old cert w)
    (hn : ¬ sameName published old.driverInf) :
    wp retiringExec RetireInv (fun ok w' => ok = true → Apart w'.value)
      (promoteValues old cert published) w := by
  have hp : w.value .pendingCertThumbprint ≠ [] := h.pending ▸ h.ne_nil
  have hold : cStr old.certThumbprint = old.certThumbprint := by rw [← h.oldCert, World.cStr_value]
  have holdInf : cStr old.driverInf = old.driverInf := by rw [← h.oldInf, World.cStr_value]
  have hmade : NamesMade w (cStr old.certThumbprint) := by
    rw [hold, ← h.oldCert]
    exact h.inv.made .current
  have failed : ∀ {u}, RetireInv u → wp retiringExec RetireInv (fun ok w' => ok = true → Apart w'.value)
      (.ret false) u := fun hu => ⟨hu, fun hf => nomatch hf⟩
  refine wp_seq (writePending_retire h.inv hp (by decide) fun _ _ => hmade) fun ok₁ w₁ h₁ s₁ => ?_
  refine wp_ite (fun hok => ?_) fun _ => failed h₁
  simp only [hok, if_true, hold] at s₁
  have hp₁ : w₁.value .pendingCertThumbprint ≠ [] := by
    rwa [s₁.value, Function.update_of_ne (by decide)]
  refine wp_seq (writePending_retire h₁ hp₁ (by decide) fun s hs =>
    absurd hs (noSlot_previousDriverInf s)) fun ok₂ w₂ h₂ s₂ => ?_
  refine wp_ite (fun hok => ?_) fun _ => failed h₂
  simp only [hok, if_true, holdInf] at s₂
  have hp₂ : w₂.value .pendingCertThumbprint ≠ [] := by
    rwa [s₂.value, Function.update_of_ne (by decide)]
  have hmade₂ : NamesMade w₂ (cStr cert.thumbprint) :=
    h.namesMade.keys (by rw [s₂.keys, s₁.keys]; exact List.Subset.refl _)
  refine wp_seq (writePending_retire h₂ hp₂ (by decide) fun _ _ => hmade₂) fun ok₃ w₃ h₃ s₃ => ?_
  refine wp_ite (fun hok => ?_) fun _ => failed h₃
  simp only [hok, if_true] at s₃
  have hp₃ : w₃.value .pendingCertThumbprint ≠ [] := by
    rwa [s₃.value, Function.update_of_ne (by decide)]
  refine wp_post (fun ok₄ w₄ _ s₄ hok => ?_) (writePending_retire h₃ hp₃ (by decide) fun s hs =>
    absurd hs (noSlot_driverInf s))
  simp only [hok, if_true] at s₄
  have hcert : cStr cert.thumbprint = cert.thumbprint := by
    obtain ⟨c, -, hc⟩ := h.made
    rw [hc, cStr_thumbprintOf]
  constructor
  · intro _
    rw [s₄.value, s₄.value, Function.update_of_ne (by decide), Function.update_of_ne (by decide),
      s₃.value, s₃.value, Function.update_self, Function.update_of_ne (by decide), s₂.value,
      Function.update_of_ne (by decide), s₁.value, Function.update_self, hcert]
    exact h.fresh.symm
  · intro _
    rw [s₄.value, s₄.value, Function.update_self, Function.update_of_ne (by decide), s₃.value,
      Function.update_of_ne (by decide), s₂.value, Function.update_self]
    rw [sameName_iff, foldCase_cStr]
    exact fun e => hn ((sameName_iff _ _).mpr e.symm)

theorem deletePending_retire {name : ValueName} (h : RetireInv w) (ha : Apart w.value)
    (hn : name = .pendingCertThumbprint ∨ name = .pendingDriverInf) :
    wp retiringExec RetireInv (fun _ w' => Apart w'.value) (deleteValue name) w := by
  have hupdate : Apart (Function.update w.value name []) := by
    rcases hn with rfl | rfl <;>
      exact ⟨by simpa [Function.update] using ha.cert, by simpa [Function.update] using ha.inf⟩
  refine wp_post (fun _ w' _ hs => ?_) (deleteValue_retire h fun _ _ => hupdate)
  rcases hs with hs | hs
  · rw [funext hs.value]; exact ha
  · rw [funext hs.value]; exact hupdate

end

/-! ## Retirement -/

/-- What `w` records as current is still recorded, trusted and staged. -/
structure Spared (w w' : World) : Prop where
  cert : w'.value .certThumbprint = w.value .certThumbprint
  inf : w'.value .driverInf = w.value .driverInf
  trusted : ∀ store, ∀ c ∈ w.stores store, thumbprintOf c = w.value .certThumbprint → c ∈ w'.stores store
  staged : ∀ p ∈ w.packages, sameName p.published (w.value .driverInf) → p ∈ w'.packages

section
variable {u v w w' : World} {s : InstallState}

theorem Spared.refl (w : World) : Spared w w := ⟨rfl, rfl, fun _ _ hc _ => hc, fun _ hp _ => hp⟩

theorem Spared.trans (h : Spared u v) (h' : Spared v w) : Spared u w where
  cert := h'.cert.trans h.cert
  inf := h'.inf.trans h.inf
  trusted store c hc ht := h'.trusted store c (h.trusted store c hc ht) (by rw [h.cert]; exact ht)
  staged p hp hn := h'.staged p (h.staged p hp hn) (by rw [h.inf]; exact hn)

/-- What holds while `RetirePrevious` runs, begun in `w`. -/
structure Retiring (w w' : World) : Prop where
  inv : RetireInv w'
  apart : Apart w'.value
  spared : Spared w w'

theorem Retiring.refl (h : RetireInv w) (ha : Apart w.value) : Retiring w w := ⟨h, ha, .refl w⟩

theorem Retiring.trans (h : Retiring u v) (h' : Retiring v w) : Retiring u w :=
  ⟨h'.inv, h'.apart, h.spared.trans h'.spared⟩

theorem deletePrevious_retire {name : ValueName} (h : RetireInv w) (ha : Apart w.value)
    (hn : name = .previousCertThumbprint ∨ name = .previousDriverInf) :
    wp retiringExec (Retiring w) (fun _ w' => ∀ n, n ≠ name → w'.value n = w.value n)
      (deleteValue name) w := by
  have hupdate : Apart (Function.update w.value name []) := by
    rcases hn with rfl | rfl
    · exact ⟨fun hne => absurd (Function.update_self _ _ _) hne, by simpa [Function.update] using ha.inf⟩
    · exact ⟨by simpa [Function.update] using ha.cert, fun hne => absurd (Function.update_self _ _ _) hne⟩
  have kept : ∀ {x}, Sets w w.value x ∨ Sets w (Function.update w.value name []) x →
      ∀ n, n ≠ name → x.value n = w.value n := fun hs n hne =>
    hs.elim (·.value n) fun hs => (hs.value n).trans (Function.update_of_ne hne _ _)
  refine wp_mono (fun x hx => ⟨hx.1, ?_, ?_⟩) (fun _ _ _ hs => kept hs.2)
    (wp_and (deleteValue_retire h fun _ _ => hupdate) (deleteValue_spec retiringExec_sub name))
  · rcases hx.2 with hs | hs
    · rw [funext hs.value]; exact ha
    · rw [funext hs.value]; exact hupdate
  · have hcert := kept hx.2 .certThumbprint (by rcases hn with rfl | rfl <;> decide)
    have hinf := kept hx.2 .driverInf (by rcases hn with rfl | rfl <;> decide)
    obtain ⟨-, hs | hs⟩ := hx <;>
      exact ⟨hcert, hinf, fun _ _ hc _ => by rw [hs.stores]; exact hc,
        fun _ hp _ => by rw [hs.packages]; exact hp⟩

theorem remove_retire {α : Type} {effects : Effect → Prop} {p : Flow α} {K : World → Prop}
    {Q : α → World → Prop} (h : RetireInv w) (ha : Apart w.value) (hp : Effects effects p)
    (he : ∀ x, effects x → Untrusting x) (hk : wp exec K Q p w)
    (hs : ∀ x, K x → Frame effects w x → Spared w x) :
    wp retiringExec (Retiring w) (fun _ w' => Retiring w w' ∧ w'.value = w.value) p w := by
  have retiring : ∀ x, K x → Frame effects w x → Retiring w x ∧ x.value = w.value := fun x hK hf => by
    have hv : x.value = w.value := funext fun n => (hf.mono he).value (by decide) n
    exact ⟨⟨h.frame (hf.mono he), hv ▸ ha, hs x hK hf⟩, hv⟩
  exact wp_mono (fun x hx => (retiring x hx.1 hx.2).1) (fun _ x hx _ => retiring x hx.1 hx.2)
    (wp_sub retiringExec_sub (wp_and hk (wp_effects hp w)))

theorem retireCert_retire (h : RetireInv w) (ha : Apart w.value)
    (hv : s.previousCertThumbprint = w.value .previousCertThumbprint) :
    wp retiringExec (Retiring w)
      (fun _ w' => Retiring w w' ∧ w'.value .previousDriverInf = w.value .previousDriverInf)
      (retireCert s) w := by
  refine wp_ite (fun hne => ?_) fun _ => ⟨.refl h ha, .refl h ha, rfl⟩
  have hne : w.value .previousCertThumbprint ≠ [] := by simpa [hv] using hne
  obtain ⟨c, -, hc⟩ := (h.made .previous).resolve_left hne
  have hc : w.value .previousCertThumbprint = thumbprintOf c := hc
  have hbytes : hashBytes 20 s.previousCertThumbprint = some c.hash.bytes := by
    rw [hv, hc, thumbprintOf, ← c.hash.length_eq, hashBytes_hexUpper]
  have hp : Effects (· = .untrust) (removeTrustedCertificate s.previousCertThumbprint) :=
    removeTrustedCertificate_effects (by rfl) _
  refine wp_seq (remove_retire h ha hp (by rintro x rfl; decide)
    (removeTrustedCertificate_others hbytes w) fun x hk hf => ?_) fun _ u _ hu => ?_
  · refine ⟨hf.value (by decide) _, hf.value (by decide) _, fun store c' hc' ht => ?_, fun p hp _ => ?_⟩
    · refine hk store c' hc' fun e => ha.cert hne ?_
      rw [hc, ← ht, thumbprintOf, thumbprintOf, e]
    · rw [hf.packages (by decide) (by decide)]
      exact hp
  · refine wp_mono (fun _ hx => hu.1.trans hx) (fun _ _ hx hq => ⟨hu.1.trans hx, ?_⟩)
      (deletePrevious_retire hu.1.inv hu.1.apart (.inl rfl))
    rw [hq _ (by decide), hu.2]

theorem retireInf_retire (h : RetireInv w) (ha : Apart w.value)
    (hv : s.previousDriverInf = w.value .previousDriverInf) :
    wp retiringExec (Retiring w) (fun _ => Retiring w) (retireInf s) w := by
  refine wp_ite (fun hne => ?_) fun _ => ⟨.refl h ha, .refl h ha⟩
  have hne : w.value .previousDriverInf ≠ [] := by simpa [hv] using hne
  have hp : Effects (· = .unstage) (unstagePackage s.previousDriverInf) :=
    unstagePackage_effects (by rfl) _
  refine wp_seq (remove_retire h ha hp (by rintro x rfl; decide)
    (unstagePackage_others s.previousDriverInf w) fun x hk hf => ?_) fun _ u _ hu => ?_
  · refine ⟨hf.value (by decide) _, hf.value (by decide) _, fun store c hc _ => ?_, fun p hp hn => ?_⟩
    · rw [hf.stores (by decide) (by decide)]
      exact hc
    · refine hk p hp fun e => ha.inf hne ?_
      rw [sameName_iff] at e hn ⊢
      rw [← hv, ← e, hn]
  · refine wp_ite (fun _ => ?_) fun _ => ⟨hu.1, hu.1⟩
    exact wp_mono (fun _ hx => hu.1.trans hx) (fun _ _ hx _ => hu.1.trans hx)
      (deletePrevious_retire hu.1.inv hu.1.apart (.inr rfl))

theorem retirePrevious_retire (h : RetireInv w) (ha : Apart w.value) (hs : Reads w (some s)) :
    wp retiringExec (Retiring w) (fun _ => Retiring w) (retirePrevious s) w := by
  refine wp_seq (retireCert_retire h ha (hs .previousCertThumbprint)) fun _ u _ hu => ?_
  refine wp_mono (fun _ hx => hu.1.trans hx) (fun _ _ hx _ => hu.1.trans hx)
    (retireInf_retire hu.1.inv hu.1.apart ?_)
  exact (hs .previousDriverInf).trans hu.2.symm

end

/-! ## The runs -/

section
variable {w w' : World} {old : InstallState} {cert : SigningCert}

/-- The state is one that `RunInstall` retires first. -/
def InstallState.leftover (s : InstallState) : Bool :=
  s.pendingCertThumbprint.isEmpty && s.pendingDriverInf.isEmpty &&
    (!s.previousCertThumbprint.isEmpty || !s.previousDriverInf.isEmpty)

theorem leftover_apart {s : InstallState} (h : RetireInv w) (hs : Reads w (some s))
    (hl : s.leftover = true) : Apart w.value := by
  simp only [InstallState.leftover, Bool.and_eq_true, List.isEmpty_iff] at hl
  exact h.hidden ((hs .pendingCertThumbprint).symm.trans hl.1.1)
    ((hs .pendingDriverInf).symm.trans hl.1.2)

theorem retireFirst_retire (h : RetireInv w) :
    wp retiringExec RetireInv (fun state w' => Reads w' state) retireFirst w := by
  refine wp_seq (readState_retire h) ?_
  rintro (_ | s) u hu ⟨rfl, hs⟩
  · exact ⟨hu, hs⟩
  · refine wp_ite (fun hl => ?_) fun _ => ⟨hu, hs⟩
    refine wp_seq (wp_mono (fun _ hx => hx.inv) (fun _ _ _ hx => hx)
      (retirePrevious_retire hu (leftover_apart hu hs hl) hs)) fun _ v _ hv => ?_
    exact wp_post (fun _ w' _ (hr : w' = _ ∧ Reads _ _) => hr.1 ▸ hr.2) (readState_retire hv.inv)

theorem unpromoted_of_chosen {dir : WString} (h : RetireInv w) (hs : Reads w (some old))
    (hc : Chosen (some old) dir .update) : Unpromoted old w ∧ old.certThumbprint ≠ [] := by
  obtain ⟨hcomplete, hsettled, -⟩ := hc.updated
  obtain ⟨-, hcert, -⟩ := old.complete_iff.mp hcomplete
  simp only [InstallState.settled, Bool.and_eq_true, List.isEmpty_iff] at hsettled
  exact ⟨⟨⟨h, (hs .previousCertThumbprint).symm.trans hsettled.1.2,
    (hs .previousDriverInf).symm.trans hsettled.2⟩, (hs _).symm, (hs _).symm⟩, hcert⟩

theorem signDriver_new (driverDir : WString) (h : Unpromoted old w) (hold : old.certThumbprint ≠ []) :
    wp retiringExec (Unpromoted old)
      (fun r w' => ∀ cert, r = some cert → ∃ c ∈ w'.keys.generated, cert.encoded = some c ∧
        cert.thumbprint = thumbprintOf c ∧ cert.thumbprint ≠ old.certThumbprint)
      (signDriver driverDir) w := by
  refine wp_mono (fun x hx => ⟨⟨hx.1, ?_, ?_⟩, ?_, ?_⟩) (fun r x hx hr cert hc => ?_)
    (signDriver_retire driverDir h.inv)
  · rw [hx.2.1, h.noCert]
  · rw [hx.2.1, h.noInf]
  · rw [hx.2.1, h.oldCert]
  · rw [hx.2.1, h.oldInf]
  · obtain ⟨c, hc⟩ := hr cert hc
    refine ⟨c, hc.generated, hc.encoded, hc.thumbprint, fun he => ?_⟩
    obtain ⟨c', hc', ht⟩ := (h.inv.made .current).resolve_left (by rw [certName, h.oldCert]; exact hold)
    have hhash : c.hash.bytes = c'.hash.bytes := by
      refine hexUpper_injective (hc.thumbprint.symm.trans (he.trans ?_))
      rw [← h.oldCert]
      exact ht
    have hsame : c = c' := hx.1.distinct c hc.generated c' (hx.2.2 hc') (by
      cases hch : c.hash; cases hch' : c'.hash; simp_all)
    have := hc.fresh
    have := h.inv.numbered.generated c' hc'
    subst hsame
    omega

theorem writePendingCert_retire {c : Certificate} (h : Unpromoted old w) (hc : c ∈ w.keys.generated)
    (ht : cert.thumbprint = thumbprintOf c) (hne : cert.thumbprint ≠ old.certThumbprint) :
    wp retiringExec (Unpromoted old)
      (fun ok w' => c ∈ w'.keys.generated ∧ (ok = true → Pending old cert w'))
      (writeValue .pendingCertThumbprint cert.thumbprint) w := by
  have hcstr : cStr cert.thumbprint = cert.thumbprint := by rw [ht, cStr_thumbprintOf]
  have hm : ∀ s, certName s = .pendingCertThumbprint → NamesMade w (cStr cert.thumbprint) :=
    fun _ _ => .inr ⟨c, hc, by rw [hcstr, ht]⟩
  have written : ∀ {u}, Sets w (Function.update w.value .pendingCertThumbprint (cStr cert.thumbprint)) u →
      Pending old cert u := by
    intro u hs
    refine ⟨⟨h.toSole.update (by decide) hm hs, ?_, ?_⟩, ?_, by rw [hs.keys]; exact ⟨c, hc, ht⟩, hne⟩
    · rw [hs.value, Function.update_of_ne (by decide), h.oldCert]
    · rw [hs.value, Function.update_of_ne (by decide), h.oldInf]
    · rw [hs.value, Function.update_self, hcstr]
  refine wp_mono (fun u hu => ?_) (fun ok u _ hu => ⟨by rw [hu.keys]; exact hc, fun hok => ?_⟩)
    (writeValue_spec retiringExec_sub .pendingCertThumbprint cert.thumbprint)
  · rcases hu with hs | hs
    · exact ⟨h.toSole.unset hs, (hs.value _).trans h.oldCert, (hs.value _).trans h.oldInf⟩
    · exact (written hs).toUnpromoted
  · simp only [hok, if_true] at hu
    exact written hu

theorem trust_pending {c : Certificate} (h : Pending old cert w) (hc : c ∈ w.keys.generated)
    (he : cert.encoded = some c) :
    wp retiringExec (Pending old cert) (fun _ _ => True) (trustCertificate cert.encoded) w := by
  rw [he]
  refine wp_mono (fun u hu => ⟨⟨⟨hu.1, ?_, ?_⟩, ?_, ?_⟩, ?_, ?_, h.fresh⟩) (fun _ _ _ hq => hq)
    (trustIn_retire storeNames h.inv hc)
  · rw [hu.2.1, h.noCert]
  · rw [hu.2.1, h.noInf]
  · rw [hu.2.1, h.oldCert]
  · rw [hu.2.1, h.oldInf]
  · rw [hu.2.1, h.pending]
  · rw [hu.2.2]
    exact h.made

theorem untrusting_pending {α : Type} {p : Flow α} (hp : Effects Untrusting p) (h : Pending old cert w) :
    wp retiringExec (Pending old cert) (fun _ _ => True) p w :=
  wp_post (fun _ _ _ _ => trivial) (wp_keep retiringExec_sub hp fun _ hf => h.frame hf)

theorem promote_retire {published : WString} (version : WString) (reboot : Bool)
    (h : Pending old cert w) (hn : ¬ sameName published old.driverInf) :
    wp retiringExec RetireInv (fun _ _ => True) (promote old cert published version reboot) w := by
  refine wp_seq (promoteValues_retire h hn) fun ok u hu ha => ?_
  refine wp_ite (fun hok => ?_) fun _ => ⟨hu, trivial⟩
  refine wp_seq (deletePending_retire hu (ha hok) (.inl rfl)) fun _ v hv hav => ?_
  refine wp_seq (deletePending_retire hv hav (.inr rfl)) fun _ x hx hax => ?_
  refine wp_seq (readState_retire hx) ?_
  rintro promoted y hy ⟨rfl, hs⟩
  have hretire : wp retiringExec RetireInv (fun _ w' => RetireInv w' ∧ Apart w'.value)
      (retirePromoted promoted) y := by
    cases promoted with
    | none => exact ⟨hy, hy, hax⟩
    | some s =>
      exact wp_mono (fun _ hx => hx.inv) (fun _ _ _ hx => ⟨hx.inv, hx.apart⟩)
        (retirePrevious_retire hy hax hs)
  exact wp_seq hretire fun _ z hz _ =>
    finish_retire version hz (finishWithPins_effects (by decide) _) fun hx => ⟨hx, trivial⟩

theorem keepPackage_retire (cert : SigningCert) (version : WString) (reboot : Bool) (h : Sole w) :
    wp retiringExec RetireInv (fun _ _ => True) (keepPackage cert version reboot) w := by
  refine wp_seq_of (fun _ => Sole.inv)
    (untrusting_sole (removeTrustedCertificate_effects (by decide) _) h) fun _ u hu _ => ?_
  refine wp_seq_of (fun _ => Sole.inv) (deleteValue_sole hu (by decide)) fun _ v hv _ => ?_
  refine wp_seq_of (fun _ => Sole.inv) (deleteValue_sole hv (by decide)) fun _ x hx _ => ?_
  exact finish_retire version hx.inv (finishWithPins_effects (by decide) _) fun hy => ⟨hy, trivial⟩

theorem swapPackage_retire (driverDir version : WString) (h : Pending old cert w) :
    wp retiringExec RetireInv (fun _ _ => True) (swapPackage old cert driverDir version) w := by
  refine wp_seq_of (fun _ hx => hx.inv) (untrusting_pending (stagePackage_effects (by decide) _) h) ?_
  rintro (_ | published) u hu -
  · exact failUpdate_retire _ _ hu.toUnpromoted
  refine wp_seq_of (fun _ hx => hx.inv) (writePendingInf_retire published hu) fun ok v hv _ => ?_
  refine wp_ite (fun _ => ?_) fun _ => failUpdate_retire _ _ hv.toUnpromoted
  refine wp_seq_of (fun _ hx => hx.inv) (untrusting_pending (updateDevice_effects (by decide) _) hv) ?_
  rintro (_ | reboot) x hx -
  · exact failUpdate_retire _ _ hx.toUnpromoted
  · exact wp_ite (fun _ => keepPackage_retire _ version reboot hx.toSole) fun hn =>
      promote_retire version reboot hx hn

theorem runUpdate_retire (payloadDir version : WString) (h : Unpromoted old w)
    (hold : old.certThumbprint ≠ []) :
    wp retiringExec RetireInv (fun _ _ => True) (runUpdate old payloadDir version) w := by
  refine wp_seq_of (fun _ hx => hx.inv)
    (untrusting_unpromoted (copyPayload_effects (by decide) _ _) h) fun ok u hu _ => ?_
  refine wp_ite (fun _ => ?_) fun _ => failUpdate_retire _ _ hu
  refine wp_seq_of (fun _ hx => hx.inv) (signDriver_new _ hu hold) ?_
  rintro (_ | cert) v hv hnew
  · exact failUpdate_retire _ _ hv
  obtain ⟨c, hc, he, ht, hne⟩ := hnew cert rfl
  refine wp_seq_of (fun _ hx => hx.inv) (writePendingCert_retire hv hc ht hne)
    fun ok x hx ⟨hcx, hpending⟩ => ?_
  refine wp_ite (fun hok => ?_) fun _ => failUpdate_retire _ _ hx
  refine wp_seq_of (fun _ hy => hy.inv) (trust_pending (hpending hok) hcx he) fun ok y hy _ => ?_
  exact wp_ite (fun _ => swapPackage_retire _ version hy) fun _ => failUpdate_retire _ _ hy.toUnpromoted

theorem installNode_retire (driverDir version : WString) (h : Sole w) :
    wp retiringExec RetireInv (fun _ _ => True) (installNode driverDir version) w := by
  refine wp_seq_of (fun _ => Sole.inv)
    (untrusting_sole (installDriver_effects (by decide) (by decide) (by decide) _) h) ?_
  rintro (_ | ⟨published, reboot⟩) u hu -
  · exact failInstall_retire hu.inv
  refine wp_seq_of (fun _ => Sole.inv) (writeValue_sole published hu (by decide) fun s hs =>
    absurd hs (noSlot_driverInf s)) fun ok v hv _ => ?_
  refine wp_ite (fun _ => ?_) fun _ => ?_
  · exact finish_retire version hv.inv (finishWithPins_effects (by decide) _) failInstall_retire
  · exact wp_seq (untrusting_retire (uninstallDriver_effects (by decide) (by decide) _) hv.inv)
      fun _ x hx _ => failInstall_retire hx

theorem installFresh_retire (payloadDir dir version : WString) (h : Sole w) :
    wp retiringExec RetireInv (fun _ _ => True) (installFresh payloadDir dir version) w := by
  refine wp_seq_of (fun _ => Sole.inv) (writeValue_sole dir h (by decide) fun s hs =>
    absurd hs (noSlot_installDir s)) fun ok u hu _ => ?_
  refine wp_ite (fun _ => ?_) fun _ => failInstall_retire hu.inv
  refine wp_seq_of (fun _ => Sole.inv) (untrusting_sole (copyPayload_effects (by decide) _ _) hu)
    fun ok v hv _ => ?_
  refine wp_ite (fun _ => ?_) fun _ => failInstall_retire hv.inv
  refine wp_seq_of (fun _ hx => hx.1) (signDriver_retire _ hv.inv) ?_
  rintro (_ | cert) x ⟨hx, hvx, -⟩ hsigned
  · exact failInstall_retire hx
  obtain ⟨c, hc⟩ := hsigned cert rfl
  have hsole : Sole x := ⟨hx, by rw [hvx, hv.noCert], by rw [hvx, hv.noInf]⟩
  have hm : NamesMade x (cStr cert.thumbprint) := by
    refine .inr ⟨c, hc.generated, ?_⟩
    rw [hc.thumbprint]
    exact cStr_thumbprintOf c
  refine wp_seq_of (fun _ => Sole.inv) (writeValue_sole cert.thumbprint hsole (by decide) fun _ _ => hm)
    fun ok y hy hs => ?_
  refine wp_ite (fun _ => ?_) fun _ => failInstall_retire hy.inv
  have hg : c ∈ y.keys.generated := by
    rw [hs.keys]
    exact hc.generated
  rw [trustCertificate, hc.encoded]
  refine wp_seq_of (fun _ hz => hz.1) (trustIn_retire storeNames hy.inv hg) fun ok z hz _ => ?_
  refine wp_ite (fun _ => ?_) fun _ => failInstall_retire hz.1
  exact installNode_retire _ version
    ⟨hz.1, by rw [hz.2.1, hy.noCert], by rw [hz.2.1, hy.noInf]⟩

theorem sole_of_empty (h : RetireInv w) (hv : ∀ name, w.value name = []) : Sole w :=
  ⟨h, hv _, hv _⟩

theorem runInstall_retire (payloadDir version : WString) (h : RetireInv w) :
    wp retiringExec RetireInv (fun _ _ => True) (runInstall payloadDir version) w := by
  refine runInstall_cases retiringExec_sub (fun hu hf => hu.frame (hf.mono fun _ => nofun))
    (retireFirst_retire h) (fun hu hs hmode => ?_) (fun hu => ?_) fun hu hs => ?_
  · obtain ⟨hunpromoted, hold⟩ := unpromoted_of_chosen hu hs hmode
    exact runUpdate_retire _ _ hunpromoted hold
  · exact wp_seq (runUninstall_retire hu) fun _ v hv hempty =>
      installFresh_retire _ _ _ (sole_of_empty hv hempty)
  · exact installFresh_retire _ _ _ (sole_of_empty hu hs)

end

/-! ## Where `RetirePrevious` runs -/

/-- A run of `RunInstall` that began in `v` comes to `RetirePrevious` in `w`, for the state `s`. -/
inductive Retires (E : Exec Call Call.Resp Outcome World) (payloadDir version : WString) (v : World)
    (s : InstallState) (w : World) : Prop
  | first (read : Steps E readState v (.ret (some s)) w) (leftover : s.leftover = true)
  | promoted {old : InstallState} {installDir published : WString} {cert : SigningCert} {reboot : Bool}
      {v₁ v₂ v₃ v₄ v₅ v₆ v₇ v₈ v₉ v₁₀ v₁₁ v₁₂ v₁₃ : World}
      (first : Steps E retireFirst v (.ret (some old)) v₁)
      (dir : Steps E defaultInstallDir v₁ (.ret installDir) v₂)
      (mode : Steps E (installMode (some old) installDir) v₂ (.ret .update) v₃)
      (copy : Steps E (copyPayload payloadDir old.installDir) v₃ (.ret true) v₄)
      (sign : Steps E (signDriver (old.installDir ++ wide "\\driver")) v₄ (.ret (some cert)) v₅)
      (pendingCert : Steps E (writeValue .pendingCertThumbprint cert.thumbprint) v₅ (.ret true) v₆)
      (trust : Steps E (trustCertificate cert.encoded) v₆ (.ret true) v₇)
      (stage : Steps E (stagePackage (infPath (old.installDir ++ wide "\\driver"))) v₇
        (.ret (some published)) v₈)
      (pendingInf : Steps E (writeValue .pendingDriverInf published) v₈ (.ret true) v₉)
      (update : Steps E (updateDevice (infPath (old.installDir ++ wide "\\driver"))) v₉
        (.ret (some reboot)) v₁₀)
      (other : ¬ sameName published old.driverInf)
      (promote : Steps E (promoteValues old cert published) v₁₀ (.ret true) v₁₁)
      (noPendingCert : Steps E (deleteValue .pendingCertThumbprint) v₁₁ (.ret ()) v₁₂)
      (noPendingInf : Steps E (deleteValue .pendingDriverInf) v₁₂ (.ret ()) v₁₃)
      (read : Steps E readState v₁₃ (.ret (some s)) w)

theorem Retires.comesTo {E : Exec Call Call.Resp Outcome World} {payloadDir version : WString}
    {v w : World} {s : InstallState} (h : Retires E payloadDir version v s w) :
    ComesTo E (runInstall payloadDir version) v (retirePrevious s) w := by
  cases h with
  | first read leftover =>
    rw [InstallState.leftover] at leftover
    refine ComesTo.bind (.seq read ?_) _
    simp only [leftover, if_true]
    exact .here _ _ w
  | promoted first dir mode copy sign pendingCert trust stage pendingInf update other promote
      noPendingCert noPendingInf read =>
    have hpromote : ∀ reboot, ComesTo E (Setup.promote _ _ _ version reboot) _ (retirePrevious s) w :=
      fun _ => .seq promote (.seq noPendingCert (.seq noPendingInf (.seq read (.here _ _ w))))
    refine .seq first (.seq dir (.seq mode (.seq copy (.seq sign (.seq pendingCert (.seq trust
      (.seq stage (.seq pendingInf (.seq update ?_)))))))))
    simp only [if_neg other]
    exact hpromote _

def deletesPrevious : Call → Bool
  | .regDeleteKeyValue .previousCertThumbprint | .regDeleteKeyValue .previousDriverInf => true
  | _ => false

/-- The program deletes no Previous* value. -/
abbrev LeavesPrevious {α : Type} (p : Flow α) : Prop :=
  p.Calls (fun c => ¬ deletesPrevious c = true) fun _ _ => True

section
variable {α : Type} {E : Exec Call Call.Resp Outcome World}

theorem leaves_of_effects {p : Flow α} (hp : Effects (· ≠ .registry) p) : LeavesPrevious p := by
  refine Prog.calls_mono (fun c hc hd => ?_) (fun _ _ _ => trivial) hp
  unfold deletesPrevious at hd
  split at hd <;> simp_all [Call.effect]

theorem writeValue_leaves (name : ValueName) (value : WString) :
    LeavesPrevious (writeValue name value) := by
  simp only [writeValue, perform, Prog.perform_bind, Prog.calls_call]
  exact ⟨by simp [deletesPrevious], fun _ _ =>
    Prog.calls_ite (fun _ => by simp [Prog.perform, deletesPrevious]) fun _ => trivial⟩

theorem deletePending_leaves {name : ValueName}
    (h : name = .pendingCertThumbprint ∨ name = .pendingDriverInf) : LeavesPrevious (deleteValue name) := by
  rcases h with rfl | rfl <;> simp [deleteValue, deletesPrevious]

theorem readState_leaves : LeavesPrevious readState := leaves_of_effects readState_effects

theorem runUninstall_leaves : LeavesPrevious runUninstall := by
  refine Prog.calls_bind readState_leaves fun _ => ?_
  refine Prog.calls_bind
    (leaves_of_effects (uninstallDriver_effects (by decide) (by decide) _)) fun _ => ?_
  refine Prog.calls_bind
    (leaves_of_effects (uninstallRecorded_effects (by decide) (by decide) (by decide) _)) fun _ => ?_
  exact Prog.calls_bind (by simp [deleteState, deletesPrevious]) fun _ => trivial

theorem failInstall_leaves : LeavesPrevious failInstall :=
  Prog.calls_bind runUninstall_leaves fun _ => trivial

theorem finish_leaves {p : Flow ℕ} (version : WString) (installCode : ℕ) (hp : LeavesPrevious p) :
    LeavesPrevious (do if ← writeValue .version version then finishWithPins installCode else p) :=
  Prog.calls_bind (writeValue_leaves _ _) fun _ =>
    Prog.calls_ite (fun _ => leaves_of_effects (finishWithPins_effects (by decide) _)) fun _ => hp

theorem failUpdate_leaves (old : InstallState) (pendingCert pendingInf : WString) :
    LeavesPrevious (failUpdate old pendingCert pendingInf) := by
  refine Prog.calls_bind (leaves_of_effects (unstageOther_effects (by decide) _ _)) fun _ => ?_
  refine Prog.calls_bind (leaves_of_effects (removeTrustedCertificate_effects (by decide) _)) fun _ => ?_
  refine Prog.calls_bind (deletePending_leaves (.inr rfl)) fun _ => ?_
  exact Prog.calls_bind (deletePending_leaves (.inl rfl)) fun _ => trivial

theorem keepPackage_leaves (cert : SigningCert) (version : WString) (reboot : Bool) :
    LeavesPrevious (keepPackage cert version reboot) := by
  refine Prog.calls_bind (leaves_of_effects (removeTrustedCertificate_effects (by decide) _)) fun _ => ?_
  refine Prog.calls_bind (deletePending_leaves (.inl rfl)) fun _ => ?_
  exact Prog.calls_bind (deletePending_leaves (.inr rfl)) fun _ => finish_leaves _ _ trivial

theorem promoteValues_leaves (old : InstallState) (cert : SigningCert) (published : WString) :
    LeavesPrevious (promoteValues old cert published) := by
  refine Prog.calls_bind (writeValue_leaves _ _) fun _ => Prog.calls_ite (fun _ => ?_) fun _ => trivial
  refine Prog.calls_bind (writeValue_leaves _ _) fun _ => Prog.calls_ite (fun _ => ?_) fun _ => trivial
  refine Prog.calls_bind (writeValue_leaves _ _) fun _ => Prog.calls_ite (fun _ => ?_) fun _ => trivial
  exact writeValue_leaves _ _

theorem signDriver_leaves (driverDir : WString) : LeavesPrevious (signDriver driverDir) :=
  leaves_of_effects (signDriver_effects (by decide) (by decide) _)

theorem installNode_leaves (driverDir version : WString) :
    LeavesPrevious (installNode driverDir version) := by
  refine Prog.calls_bind (leaves_of_effects (installDriver_effects (by decide) (by decide) (by decide) _)) ?_
  rintro (_ | ⟨published, reboot⟩)
  · exact failInstall_leaves
  refine Prog.calls_bind (writeValue_leaves _ _) fun _ => Prog.calls_ite (fun _ => ?_) fun _ => ?_
  · exact finish_leaves _ _ failInstall_leaves
  · exact Prog.calls_bind (leaves_of_effects (uninstallDriver_effects (by decide) (by decide) _)) fun _ =>
      failInstall_leaves

theorem installFresh_leaves (payloadDir dir version : WString) :
    LeavesPrevious (installFresh payloadDir dir version) := by
  refine Prog.calls_bind (writeValue_leaves _ _) fun _ =>
    Prog.calls_ite (fun _ => ?_) fun _ => failInstall_leaves
  refine Prog.calls_bind (leaves_of_effects (copyPayload_effects (by decide) _ _)) fun _ =>
    Prog.calls_ite (fun _ => ?_) fun _ => failInstall_leaves
  refine Prog.calls_bind (signDriver_leaves _) ?_
  rintro (_ | cert)
  · exact failInstall_leaves
  refine Prog.calls_bind (writeValue_leaves _ _) fun _ =>
    Prog.calls_ite (fun _ => ?_) fun _ => failInstall_leaves
  exact Prog.calls_bind (leaves_of_effects (trustIn_effects (by decide) _ _)) fun _ =>
    Prog.calls_ite (fun _ => installNode_leaves _ _) fun _ => failInstall_leaves

theorem LeavesPrevious.not_aboutTo {p : Flow α} {v w : World} {c : Call} (hp : LeavesPrevious p)
    (hc : deletesPrevious c = true) : ¬ AboutTo E p v c w :=
  fun h => h.of_calls hp hc

theorem LeavesPrevious.past {β : Type} {p : Flow α} {f : α → Flow β} {v w : World} {c : Call}
    (hp : LeavesPrevious p) (hc : deletesPrevious c = true) (h : AboutTo E (p >>= f) v c w) :
    ∃ a u, Steps E p v (.ret a) u ∧ AboutTo E (f a) u c w :=
  AboutTo.past h hp fun hno => hno hc

theorem retireFirst_retires {payloadDir version : WString} {v w : World} {c : Call}
    (hc : deletesPrevious c = true) (h : AboutTo E retireFirst v c w) :
    ∃ s u, Retires E payloadDir version v s u ∧ AboutTo E (retirePrevious s) u c w := by
  obtain ⟨state, u, hread, h⟩ := readState_leaves.past hc h
  cases state with
  | none => exact absurd h (LeavesPrevious.not_aboutTo trivial hc)
  | some s =>
    dsimp only at h
    split at h
    · next hleftover =>
      rcases h.of_bind with h | ⟨-, x, -, h⟩
      · exact ⟨s, u, .first hread hleftover, h⟩
      · exact absurd h (readState_leaves.not_aboutTo hc)
    · exact absurd h (LeavesPrevious.not_aboutTo trivial hc)

theorem promote_retires {old : InstallState} {cert : SigningCert} {published version : WString}
    {reboot : Bool} {v w : World} {c : Call} (hc : deletesPrevious c = true)
    (h : AboutTo E (promote old cert published version reboot) v c w) :
    ∃ s v₁ v₂ v₃ u, Steps E (promoteValues old cert published) v (.ret true) v₁ ∧
      Steps E (deleteValue .pendingCertThumbprint) v₁ (.ret ()) v₂ ∧
      Steps E (deleteValue .pendingDriverInf) v₂ (.ret ()) v₃ ∧
      Steps E readState v₃ (.ret (some s)) u ∧ AboutTo E (retirePrevious s) u c w := by
  obtain ⟨ok, v₁, promote, h⟩ := (promoteValues_leaves _ _ _).past hc h
  cases ok with
  | false => exact absurd h (LeavesPrevious.not_aboutTo trivial hc)
  | true =>
    obtain ⟨⟨⟩, v₂, noPendingCert, h⟩ := (deletePending_leaves (.inl rfl)).past hc h
    obtain ⟨⟨⟩, v₃, noPendingInf, h⟩ := (deletePending_leaves (.inr rfl)).past hc h
    obtain ⟨promoted, u, read, h⟩ := readState_leaves.past hc h
    rcases h.of_bind with h | ⟨-, x, -, h⟩
    · cases promoted with
      | none => exact absurd h (LeavesPrevious.not_aboutTo trivial hc)
      | some s => exact ⟨s, v₁, v₂, v₃, u, promote, noPendingCert, noPendingInf, read, h⟩
    · exact absurd h ((finish_leaves (p := pure 1) _ _ trivial).not_aboutTo hc)

theorem runUpdate_retires {payloadDir version installDir : WString} {old : InstallState}
    {v v₁ v₂ v₃ w : World} {c : Call} (hc : deletesPrevious c = true)
    (first : Steps E retireFirst v (.ret (some old)) v₁)
    (dir : Steps E defaultInstallDir v₁ (.ret installDir) v₂)
    (mode : Steps E (installMode (some old) installDir) v₂ (.ret .update) v₃)
    (h : AboutTo E (runUpdate old payloadDir version) v₃ c w) :
    ∃ s u, Retires E payloadDir version v s u ∧ AboutTo E (retirePrevious s) u c w := by
  have hfail (pendingCert pendingInf : WString) {u : World} :
      ¬ AboutTo E (failUpdate old pendingCert pendingInf) u c w :=
    (failUpdate_leaves _ _ _).not_aboutTo hc
  rcases (leaves_of_effects (copyPayload_effects (by decide) _ _)).past hc h with
    ⟨_ | _, v₄, copy, h⟩
  · exact absurd h (hfail _ _)
  rcases (signDriver_leaves _).past hc h with ⟨_ | cert, v₅, sign, h⟩
  · exact absurd h (hfail _ _)
  rcases (writeValue_leaves _ _).past hc h with ⟨_ | _, v₆, pendingCert, h⟩
  · exact absurd h (hfail _ _)
  rcases (leaves_of_effects (trustIn_effects (by decide) _ _)).past hc h with
    ⟨_ | _, v₇, trust, h⟩
  · exact absurd h (hfail _ _)
  rcases (leaves_of_effects (stagePackage_effects (by decide) _)).past hc h with
    ⟨_ | published, v₈, stage, h⟩
  · exact absurd h (hfail _ _)
  rcases (writeValue_leaves _ _).past hc h with ⟨_ | _, v₉, pendingInf, h⟩
  · exact absurd h (hfail _ _)
  rcases (leaves_of_effects (updateDevice_effects (by decide) _)).past hc h with
    ⟨_ | reboot, v₁₀, update, h⟩
  · exact absurd h (hfail _ _)
  dsimp only at h
  split at h
  · exact absurd h ((keepPackage_leaves _ _ _).not_aboutTo hc)
  · next hother =>
    obtain ⟨s, v₁₁, v₁₂, v₁₃, u, promote, noPendingCert, noPendingInf, read, h⟩ := promote_retires hc h
    exact ⟨s, u, .promoted first dir mode copy sign pendingCert trust stage pendingInf update hother
      promote noPendingCert noPendingInf read, h⟩

/-- The Previous* values are deleted by `RetirePrevious` only, and in the two places of `Retires`. -/
theorem previous_deleted_iff {payloadDir version : WString} {v w : World} {c : Call}
    (hc : deletesPrevious c = true) :
    AboutTo E (runInstall payloadDir version) v c w ↔
      ∃ s u, Retires E payloadDir version v s u ∧ AboutTo E (retirePrevious s) u c w := by
  refine ⟨fun h => ?_, fun ⟨s, u, hs, h⟩ => hs.comesTo.aboutTo h⟩
  rcases h.of_bind with h | ⟨state, v₁, first, h⟩
  · exact retireFirst_retires hc h
  obtain ⟨installDir, v₂, dir, h⟩ := (leaves_of_effects defaultInstallDir_effects).past hc h
  obtain ⟨mode, v₃, hmode, h⟩ := (leaves_of_effects (installMode_effects _ _)).past hc h
  have hfresh {u : World} : ¬ AboutTo E (installFresh payloadDir installDir version) u c w :=
    (installFresh_leaves _ _ _).not_aboutTo hc
  cases mode with
  | fresh => exact absurd h hfresh
  | reinstall =>
    obtain ⟨-, u, -, h⟩ := runUninstall_leaves.past hc h
    exact absurd h hfresh
  | update =>
    cases state with
    | none => exact absurd h hfresh
    | some old => exact runUpdate_retires hc first dir hmode h

end

/-! ## Histories -/

theorem Clean.retireInv {w : World} (h : Clean w) : RetireInv w where
  numbered := h.numbered
  distinct := by simp [Distinct, h.generated]
  made s := .inl (by simp [World.value, h.registry, cStr])
  hidden := hidden_of_none (by simp [World.value, h.registry, cStr]) (by simp [World.value, h.registry, cStr])

theorem rest_retireInv {w₀ w : World} (h₀ : Clean w₀)
    (hw : Rest retiringSetup Always Always w₀ w) : RetireInv w := by
  refine hw.inv_of_wp h₀.retireInv fun event u v hu ha => ?_
  cases event with
  | install payloadDir version =>
    obtain rfl := Option.some.inj ha
    exact runInstall_retire payloadDir version hu
  | uninstall =>
    obtain rfl := Option.some.inj ha
    exact wp_post (fun _ _ _ _ => trivial) (runUninstall_retire hu)
  | meanwhile machine =>
    obtain rfl := Option.some.inj ha
    exact ⟨⟨hu.numbered.machine machine, hu.distinct, hu.made, hu.hidden⟩, trivial⟩

theorem Retires.apart {payloadDir version : WString} {v w : World} {s : InstallState}
    (h : Retires retiringExec payloadDir version v s w) (hv : RetireInv v) :
    RetireInv w ∧ Reads w (some s) ∧ Apart w.value := by
  cases h with
  | first read leftover =>
    obtain ⟨rfl, hs⟩ := read.post (readState_retire hv)
    exact ⟨hv, hs, leftover_apart hv hs leftover⟩
  | promoted first dir mode copy sign pendingCert trust stage pendingInf update other promote
      noPendingCert noPendingInf read =>
    have hold := first.post (retireFirst_retire hv)
    have hfirst := first.inv (retireFirst_retire hv)
    have hdir := dir.post (untrusting_retire defaultInstallDir_effects hfirst)
    have hmode := mode.post (wp_sub retiringExec_sub (installMode_spec _ _ _))
    have hf := hdir.trans (hmode.1.mono fun _ => nofun)
    obtain ⟨h₃, hne⟩ := unpromoted_of_chosen (hfirst.frame hf) (hold.frame hf (by decide)) hmode.2
    have h₄ := copy.inv (untrusting_unpromoted (copyPayload_effects (by decide) _ _) h₃)
    have h₅ := sign.inv (signDriver_new _ h₄ hne)
    obtain ⟨c, hc, he, ht, hother⟩ := sign.post (signDriver_new _ h₄ hne) _ rfl
    obtain ⟨hc₆, h₆⟩ := pendingCert.post (writePendingCert_retire h₅ hc ht hother)
    have h₇ := trust.inv (trust_pending (h₆ rfl) hc₆ he)
    have h₈ := stage.inv (untrusting_pending (stagePackage_effects (by decide) _) h₇)
    have h₉ := pendingInf.inv (writePendingInf_retire _ h₈)
    have h₁₀ := update.inv (untrusting_pending (updateDevice_effects (by decide) _) h₉)
    have h₁₁ := promote.inv (promoteValues_retire h₁₀ other)
    have a₁₁ := promote.post (promoteValues_retire h₁₀ other) rfl
    have h₁₂ := noPendingCert.inv (deletePending_retire h₁₁ a₁₁ (.inl rfl))
    have a₁₂ := noPendingCert.post (deletePending_retire h₁₁ a₁₁ (.inl rfl))
    have h₁₃ := noPendingInf.inv (deletePending_retire h₁₂ a₁₂ (.inr rfl))
    have a₁₃ := noPendingInf.post (deletePending_retire h₁₂ a₁₂ (.inr rfl))
    obtain ⟨rfl, hs⟩ := read.post (readState_retire h₁₃)
    exact ⟨h₁₃, hs, a₁₃⟩

/-- Wherever a run comes to `RetirePrevious`, it retires what is recorded, that is not what is
current, and what is current stays recorded, trusted and staged as long as it runs. -/
theorem retirement_spares {w₀ v w : World} {payloadDir version : WString} {s : InstallState}
    (h₀ : Clean w₀) (hv : Rest retiringSetup Always Always w₀ v)
    (hw : Retires retiringSetup.exec payloadDir version v s w) :
    Reads w (some s) ∧ Apart w.value ∧
      ∀ p w', Steps retiringSetup.exec (retirePrevious s) w p w' → Spared w w' := by
  obtain ⟨hinv, hs, ha⟩ := hw.apart (rest_retireInv h₀ hv)
  exact ⟨hs, ha, fun p w' hp => (hp.inv (retirePrevious_retire hinv ha hs)).spared⟩

/-! ## An update that is interrupted before it retires -/

def nextReleaseDir : WString := wide "S"

/-- A PC with a second release on it. -/
def newPcWithUpdate : World :=
  { newPc with machine := { newPc.machine with files := unzipped [1] ++
      (payloadFiles.map fun rel => ⟨joinPath nextReleaseDir rel, [2], none⟩) } }

theorem newPcWithUpdate_clean : Clean newPcWithUpdate :=
  ⟨rfl, rfl, by simp [newPcWithUpdate, newPc], ⟨by simp [newPcWithUpdate, newPc],
    by simp [newPcWithUpdate, newPc], by simp [newPcWithUpdate, newPc]⟩⟩

def removesCertificate : Call → Bool
  | .certOpenStore _ (some _) => true
  | _ => false

/-- An install, and an update that is killed before it retires the first certificate. -/
def interruptedUpdate : List (Event × (Call → Outcome) × (Call → Bool)) :=
  [(.install releaseDir (wide "1"), succeed (sha1Of 1) (wide "oem1.inf"), fun _ => false),
    (.install nextReleaseDir (wide "2"), succeed (sha1Of 2) (wide "oem2.inf"), removesCertificate)]

/-- `RetirePrevious` would remove a certificate from this state. -/
def readsLeftover (state : Option InstallState) (w : World) : Bool :=
  state.any (·.leftover) && !(w.value .previousCertThumbprint).isEmpty

theorem retirement_spares_update :
    ∃ v s w, Rest retiringSetup Always Always newPcWithUpdate v ∧
      Retires retiringSetup.exec nextReleaseDir (wide "2") v s w ∧
      w.value .previousCertThumbprint ≠ [] ∧ Reads w (some s) ∧ Apart w.value ∧
      ∀ p w', Steps retiringSetup.exec (retirePrevious s) w p w' → Spared w w' := by
  have hplay : ((retiringSetup.playUntil interruptedUpdate newPcWithUpdate).any
      (readState.endsWith retiringSetup.exec (succeed (sha1Of 3) []) readsLeftover)) = true := by
    decide +kernel
  obtain ⟨v, hv, hread⟩ := (Option.any_eq_true _ _).mp hplay
  obtain ⟨state, w, hs, hc⟩ := Prog.endsWith_steps hread
  simp only [readsLeftover, Bool.and_eq_true, Bool.not_eq_true', List.isEmpty_eq_false_iff] at hc
  obtain ⟨s, rfl, hl⟩ := (Option.any_eq_true _ _).mp hc.1
  have hrest : Rest retiringSetup Always Always newPcWithUpdate v :=
    Rest.playUntil .init hv fun _ _ _ => trivial
  have hretires : Retires retiringSetup.exec nextReleaseDir (wide "2") v s w := .first hs hl
  exact ⟨v, s, w, hrest, hretires, hc.2, retirement_spares newPcWithUpdate_clean hrest hretires⟩

end VirtualGun.Setup
