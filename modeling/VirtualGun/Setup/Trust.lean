import VirtualGun.Setup.Signing
import VirtualGun.Program.Journal

/-!
# Trusted certificates are recorded

`CertThumbprint`, `PendingCertThumbprint` and `PreviousCertThumbprint` are a journal of the
certificates that setup trusts. It forgets one where `RemoveTrustedCertificate` skips a store it
cannot open.
-/

open VirtualGun.Program

namespace VirtualGun.Setup

/-! ## The journal -/

/-- An install records what it runs, what an update is about to run, and what an update replaced. -/
inductive Slot where
  | current | pending | previous
  deriving DecidableEq, Repr

def certName : Slot → ValueName
  | .current => .certThumbprint
  | .pending => .pendingCertThumbprint
  | .previous => .previousCertThumbprint

theorem certName_injective : Function.Injective certName := by
  intro s s' h
  cases s <;> cases s' <;> first | rfl | cases h

def thumbprintOf (c : Certificate) : WString := hexUpper c.hash.bytes

/-- Setup generated the certificate, and a store holds it. -/
def Trusted (w : World) (c : Certificate) : Prop :=
  c ∈ w.keys.generated ∧ ∃ store, c ∈ w.stores store

/-- Every certificate of setup's that is trusted is named in the state key. -/
def TrustRecorded (w : World) : Prop :=
  ∀ c, Trusted w c → ∃ s, w.value (certName s) = thumbprintOf c

/-- The values name what is trusted. -/
def Names (values : ValueName → WString) (w : World) : Prop :=
  Covered (values ∘ certName) thumbprintOf (Trusted w)

structure TrustInv (w : World) : Prop where
  numbered : Numbered w
  names : Names w.value w

/-- What crash safety of trust takes for granted: reads of the state key, its deletion and the
deletion of a certificate from a store do not fail. -/
def reliable : Call → Outcome → Bool
  | .regOpenKey, o | .regGetValueSize _, o | .regGetValue _, o => o ≠ .fail
  | .certDeleteCertificateFromStore _ _, o | .regDeleteKey, o => o ≠ .fail
  | _, _ => true

/-- `RemoveTrustedCertificate` opens, and searches, each store that holds a certificate it is to
remove. -/
def findsTrusted : Call → Outcome → World → Bool
  | .certOpenStore store (some hash), o, w =>
    o ≠ .fail || !(w.stores store).any fun c => c.hash.bytes == hash
  | .certFindCertificateInStore store hash, o, w =>
    o ≠ .fail || !(w.stores store).any fun c => c.hash.bytes == hash
  | _, _, _ => true

def reliableSetup : System Event Call Call.Resp Outcome World ℕ := setup.only reliable

def findingSetup : System Event Call Call.Resp Outcome World ℕ := reliableSetup.within findsTrusted

/-- The OS calls of `findingSetup`. -/
abbrev findingExec : Exec Call Call.Resp Outcome World := (exec.only reliable).within findsTrusted

theorem findingExec_eq_some {c : Call} {o : Outcome} {w : World} {x : c.Resp × World} :
    findingExec c o w = some x ↔
      findsTrusted c o w = true ∧ reliable c o = true ∧ exec c o w = some x := by
  rw [findingExec, Exec.within_eq_some, Exec.only_eq_some]

theorem findingExec_sub : findingExec.Sub exec :=
  fun _ _ _ _ h => (findingExec_eq_some.mp h).2.2

/-- What `RemoveTrustedCertificate` looks for it finds, and what it deletes is gone. -/
structure Finding (E : Exec Call Call.Resp Outcome World) : Prop where
  sub : E.Sub exec
  finds : ∀ c o w x, E c o w = some x → findsTrusted c o w = true
  deletes : ∀ store found w x, E (.certDeleteCertificateFromStore store found) .fail w ≠ some x

/-- The same for the certificates of one store that have the hash. -/
structure FindingIn (E : Exec Call Call.Resp Outcome World) (store : StoreName) (hash : List Byte) :
    Prop where
  sub : E.Sub exec
  opens : ∀ o w x, E (.certOpenStore store (some hash)) o w = some x →
    findsTrusted (.certOpenStore store (some hash)) o w = true
  finds : ∀ o w x, E (.certFindCertificateInStore store hash) o w = some x →
    findsTrusted (.certFindCertificateInStore store hash) o w = true
  deletes : ∀ found w x, found.hash.bytes = hash →
    E (.certDeleteCertificateFromStore store found) .fail w ≠ some x

theorem Finding.inStore {E : Exec Call Call.Resp Outcome World} (hE : Finding E) (store : StoreName)
    (hash : List Byte) : FindingIn E store hash where
  sub := hE.sub
  opens := hE.finds _
  finds := hE.finds _
  deletes found w x _ := hE.deletes store found w x

theorem findingExec_finding : Finding findingExec where
  sub := findingExec_sub
  finds _ _ _ _ h := (findingExec_eq_some.mp h).1
  deletes _ _ _ _ h := by simpa [reliable] using (findingExec_eq_some.mp h).2.1

theorem findingExec_reads : ReadsWell findingExec := by
  rintro c o w x hc h rfl
  have hr := (findingExec_eq_some.mp h).2.1
  cases c <;> simp [Call.isRead, reliable] at hc hr

section
variable {w w' : World} {values : ValueName → WString}

theorem TrustInv.sets (h : TrustInv w) (hs : Sets w values w') (hn : Names values w) :
    TrustInv w' where
  numbered := by
    refine ⟨?_, ?_, ?_⟩ <;> simp only [hs.keys, hs.stores]
    exacts [h.numbered.persisted, h.numbered.generated, h.numbered.stores]
  names := by
    have hv : w'.value = values := funext hs.value
    rw [hv]
    exact hn.give fun c hc => by simpa only [Trusted, hs.keys, hs.stores] using hc

/-- The effects that leave the state key alone and trust nothing. -/
abbrev Untrusting : Effect → Prop := fun e => e ≠ .registry ∧ e ≠ .trust ∧ e ≠ .keys

theorem trusted_frame (hf : Frame Untrusting w w') {c : Certificate} (hc : Trusted w' c) :
    Trusted w c :=
  ⟨hf.keys (by decide) ▸ hc.1, hc.2.imp fun s hs => hf.untrusts (by decide) s hs⟩

theorem TrustInv.frame (h : TrustInv w) (hf : Frame Untrusting w w') : TrustInv w' where
  numbered := h.numbered.frame hf (by decide) (by decide)
  names := by
    have hv : w'.value = w.value := funext fun n => hf.value (by decide) n
    rw [hv]
    exact h.names.give fun c hc => trusted_frame hf hc

theorem trusted_newKeys (hn : Numbered w) (hk : NewKeys w w') {c : Certificate}
    (hc : Trusted w' c) : Trusted w c := by
  obtain ⟨hg, store, hs⟩ := hc
  rw [hk.stores_eq] at hs
  refine ⟨(hk.generated c hg).resolve_right fun hle => ?_, store, hs⟩
  have := hn.stores store c hs
  omega

theorem TrustInv.newKeys (h : TrustInv w) (hk : NewKeys w w') : TrustInv w' where
  numbered := hk.numbered h.numbered
  names := by
    have hv : w'.value = w.value := funext fun n => hk.frame.value (by decide) n
    rw [hv]
    exact h.names.give fun c hc => trusted_newKeys h.numbered hk hc

/-! ## Steps -/

theorem untrusting_run {α : Type} {p : Flow α} (hp : Effects Untrusting p) (h : TrustInv w) :
    wp findingExec TrustInv (fun _ w' => Frame Untrusting w w') p w :=
  wp_mono (fun _ hf => h.frame hf) (fun _ _ _ hf => hf) (wp_sub findingExec_sub (wp_effects hp w))

theorem untrusting_end {α : Type} {p : Flow α} (hp : Effects Untrusting p) (h : TrustInv w) :
    wp findingExec TrustInv (fun _ _ => True) p w :=
  wp_post (fun _ _ _ _ => trivial) (untrusting_run hp h)

theorem readState_trust (h : TrustInv w) :
    wp findingExec TrustInv (fun s w' => w' = w ∧ Reads w s) readState w :=
  wp_mono (fun w' (hw : w' = w) => hw ▸ h) (fun _ _ hw hs => ⟨hw, hs⟩)
    (readState_spec findingExec_sub findingExec_reads)

theorem names_update (h : Names w.value w) {name : ValueName} {v : WString}
    (hs : ∀ s, certName s = name → Spare (w.value ∘ certName) thumbprintOf (Trusted w) s) :
    Names (Function.update w.value name v) w := by
  by_cases hn : ∃ s, certName s = name
  · obtain ⟨s, rfl⟩ := hn
    rw [Names, Function.update_comp_eq_of_injective _ certName_injective]
    exact Covered.write h (hs s rfl)
  · rw [Names, Function.update_comp_eq_of_forall_ne _ _ fun s hs => hn ⟨s, hs⟩]
    exact h

theorem writeValue_trust {name : ValueName} (v : WString) (h : TrustInv w)
    (hs : ∀ s, certName s = name → Spare (w.value ∘ certName) thumbprintOf (Trusted w) s) :
    wp findingExec TrustInv
      (fun ok w' => Sets w (if ok then Function.update w.value name (cStr v) else w.value) w')
      (writeValue name v) w := by
  refine wp_mono (fun w' hw' => ?_) (fun _ _ _ hw => hw) (writeValue_spec findingExec_sub name v)
  exact hw'.elim (h.sets · h.names) (h.sets · (names_update h.names hs))

theorem deleteValue_trust {name : ValueName} (h : TrustInv w)
    (hs : ∀ s, certName s = name → Spare (w.value ∘ certName) thumbprintOf (Trusted w) s) :
    wp findingExec TrustInv
      (fun _ w' => Sets w w.value w' ∨ Sets w (Function.update w.value name []) w')
      (deleteValue name) w := by
  refine wp_mono (fun w' hw' => ?_) (fun _ _ _ hw => hw) (deleteValue_spec findingExec_sub name)
  exact hw'.elim (h.sets · h.names) (h.sets · (names_update h.names hs))

end

/-! ## Removing a certificate -/

section
variable {E : Exec Call Call.Resp Outcome World} {w w' : World}

/-- No store holds a certificate with the hash. -/
def Gone (hash : List Byte) (stores : List StoreName) (w : World) : Prop :=
  ∀ store ∈ stores, ∀ c ∈ w.stores store, c.hash.bytes ≠ hash

theorem removeFound_spec {store : StoreName} {hash : List Byte} (hE : FindingIn E store hash) (n : ℕ)
    (hn : (w.stores store).length < n) :
    wp E (Frame (· = .untrust) w)
      (fun _ w' => Frame (· = .untrust) w w' ∧ Gone hash [store] w') (removeFound store hash n) w := by
  induction n generalizing w with
  | zero => omega
  | succ n ih =>
    simp only [removeFound, perform, Prog.perform_bind]
    refine ⟨.refl _ _, fun o r w' he => ?_⟩
    have hfinds := hE.finds _ _ _ he
    obtain ⟨ho, rfl⟩ := looked_eq_some.mp (hE.sub _ _ _ _ he)
    have hr : r = (w'.stores store).find? fun c => c.hash.bytes == hash := by
      rcases ho with ⟨-, rfl⟩ | ⟨rfl, rfl⟩
      · rfl
      · refine (List.find?_eq_none.mpr fun c hc => ?_).symm
        have hne : ∀ c ∈ w'.stores store, ¬ c.hash.bytes = hash := by simpa [findsTrusted] using hfinds
        simpa using hne c hc
    cases r with
    | none =>
      refine ⟨.refl _ _, .refl _ _, fun s hs c hc => ?_⟩
      rw [List.mem_singleton.mp hs] at hc
      simpa using List.find?_eq_none.mp hr.symm c hc
    | some found =>
      have hmem := List.mem_of_find?_eq_some hr.symm
      have hfound : found.hash.bytes = hash := by simpa using List.find?_some hr.symm
      refine ⟨.refl _ _, fun o r v he => ?_⟩
      obtain ⟨-, rfl, rfl⟩ | ⟨rfl, -, -⟩ := tried_eq_some.mp (hE.sub _ _ _ _ he)
      · have hf : Frame (· = .untrust) w' (w'.setStore store ((w'.stores store).erase found)) :=
          Frame.of_untrust (by rfl) store List.erase_subset
        refine wp_mono (fun u hu => hf.trans hu) (fun _ u _ hu => ⟨hf.trans hu.1, hu.2⟩) (ih ?_)
        have := List.length_erase_of_mem hmem
        have := List.length_pos_of_mem hmem
        simp only [World.setStore, Function.update_self]
        omega
      · exact absurd he (hE.deletes _ _ _ hfound)

theorem removeFrom_finding (hE : E.Sub exec) (hash : List Byte) (stores : List StoreName) :
    wp E (Frame (· = .untrust) w)
      (fun _ w' => Frame (· = .untrust) w w' ∧
        ∀ store ∈ stores, FindingIn E store hash → Gone hash [store] w') (removeFrom hash stores) w := by
  induction stores generalizing w with
  | nil => exact ⟨.refl _ _, .refl _ _, fun _ hs => nomatch hs⟩
  | cons store stores ih =>
    -- The other stores only lose certificates, so that the store stays without the hash.
    have rest : ∀ {u : World}, Frame (· = .untrust) w u →
        (FindingIn E store hash → Gone hash [store] u) →
        wp E (Frame (· = .untrust) w)
          (fun _ w' => Frame (· = .untrust) w w' ∧
            ∀ s ∈ store :: stores, FindingIn E s hash → Gone hash [s] w')
          (removeFrom hash stores) u := by
      intro u hu hg
      refine wp_mono (fun v hv => hu.trans hv) (fun _ v _ hv => ⟨hu.trans hv.1, fun s hs hin => ?_⟩) ih
      rcases List.mem_cons.mp hs with rfl | hs
      · exact fun s' hs' c hc => hg hin s' hs' c (hv.1.untrusts (by decide) s' hc)
      · exact hv.2 s hs hin
    simp only [removeFrom, perform, Prog.perform_bind]
    refine ⟨.refl _ _, fun o r w' he => ?_⟩
    obtain ⟨⟨-, rfl⟩ | ⟨rfl, rfl⟩, rfl⟩ := looked_eq_some.mp (hE _ _ _ _ he)
    · by_cases hin : FindingIn E store hash
      · exact wp_seq (removeFound_spec hin _ (Nat.lt_succ_self _)) fun _ u _ hu => rest hu.1 fun _ => hu.2
      · exact wp_seq (wp_sub hE (wp_effects (removeFound_effects (by rfl) _ _ _) w')) fun _ u _ hu =>
          rest hu fun h => absurd h hin
    · refine rest (.refl _ _) fun hin s hs c hc => ?_
      have hne : ∀ c ∈ w'.stores store, ¬ c.hash.bytes = hash := by
        simpa [findsTrusted] using hin.opens _ _ _ he
      exact hne c (List.mem_singleton.mp hs ▸ hc)

theorem removeFrom_spec (hE : Finding E) (hash : List Byte) (stores : List StoreName) :
    wp E (Frame (· = .untrust) w)
      (fun _ w' => Frame (· = .untrust) w w' ∧ Gone hash stores w') (removeFrom hash stores) w :=
  wp_post (fun _ _ _ hw => ⟨hw.1, fun s hs => hw.2 s hs (hE.inStore s hash) s (List.mem_singleton_self s)⟩)
    (removeFrom_finding hE.sub hash stores)

/-- `RemoveTrustedCertificate` leaves no certificate that its thumbprint names in a store that Windows
lets it search. -/
theorem removeTrustedCertificate_finding (hE : E.Sub exec) (thumbprint : WString) :
    wp E (Frame (· = .untrust) w)
      (fun _ w' => Frame (· = .untrust) w w' ∧ ∀ store c, FindingIn E store c.hash.bytes →
        thumbprint = thumbprintOf c → c ∉ w'.stores store)
      (removeTrustedCertificate thumbprint) w := by
  refine wp_ite (fun _ => ?_) fun hl => ⟨.refl _ _, .refl _ _, fun _ c _ ht => absurd ?_ hl⟩
  · cases hh : hashBytes 20 thumbprint with
    | none =>
      refine ⟨.refl _ _, fun o r w' he => ?_⟩
      exact absurd (hE _ _ _ _ he) (by simp [exec])
    | some hash =>
      refine wp_post (fun _ w' _ hw => ⟨hw.1, ?_⟩) (removeFrom_finding hE hash storeNames)
      rintro store c hin rfl hc
      have hb := hashBytes_hexUpper c.hash.bytes
      rw [c.hash.length_eq] at hb
      rw [thumbprintOf, hb] at hh
      obtain rfl := Option.some.inj hh
      exact hw.2 store (by cases store <;> simp [storeNames]) hin store (List.mem_singleton_self _) c hc rfl
  · rw [ht, thumbprintOf, length_hexUpper, c.hash.length_eq]

theorem removeTrustedCertificate_spec (hE : Finding E) (thumbprint : WString) :
    wp E (Frame (· = .untrust) w)
      (fun _ w' => Frame (· = .untrust) w w' ∧ ∀ c, Trusted w' c → thumbprint ≠ thumbprintOf c)
      (removeTrustedCertificate thumbprint) w := by
  refine wp_post (fun _ w' _ hw => ⟨hw.1, ?_⟩) (removeTrustedCertificate_finding hE.sub thumbprint)
  rintro c ⟨-, store, hc⟩ ht
  exact hw.2 store c (hE.inStore store _) ht hc

end

/-! ## Uninstall -/

section
variable {w w' : World} {values : ValueName → WString}

theorem Sets.trusted (hs : Sets w values w') {c : Certificate} : Trusted w' c ↔ Trusted w c := by
  simp only [Trusted, hs.keys, hs.stores]

theorem thumbprintOf_ne_nil (c : Certificate) : [] ≠ thumbprintOf c := by
  intro h
  have := congrArg List.length h
  rw [thumbprintOf, length_hexUpper, c.hash.length_eq] at this
  simp at this

theorem cStr_thumbprintOf (c : Certificate) : cStr (thumbprintOf c) = thumbprintOf c :=
  cStr_of_no_nul (zero_notMem_hexUpper _)

theorem spare_of_unnamed {s : Slot} {thumbprint : WString} (hv : w.value (certName s) = thumbprint)
    (h : ∀ c, Trusted w c → thumbprint ≠ thumbprintOf c) :
    Spare (w.value ∘ certName) thumbprintOf (Trusted w) s :=
  .of_unheld fun c hc => by rw [Function.comp_apply, hv]; exact h c hc

theorem spare_of_empty {s : Slot} (hv : w.value (certName s) = []) :
    Spare (w.value ∘ certName) thumbprintOf (Trusted w) s :=
  spare_of_unnamed hv fun c _ => thumbprintOf_ne_nil c

theorem spare_slot {s : Slot} (h : Spare (w.value ∘ certName) thumbprintOf (Trusted w) s) :
    ∀ s', certName s' = certName s → Spare (w.value ∘ certName) thumbprintOf (Trusted w) s' :=
  fun _ hs => certName_injective hs ▸ h

theorem spare_none {name : ValueName} (hn : ∀ s, certName s ≠ name) :
    ∀ s, certName s = name → Spare (w.value ∘ certName) thumbprintOf (Trusted w) s :=
  fun s hs => absurd hs (hn s)

theorem remove_trust (thumbprint : WString) (h : TrustInv w) :
    wp findingExec TrustInv
      (fun _ w' => Frame Untrusting w w' ∧ ∀ c, Trusted w' c → thumbprint ≠ thumbprintOf c)
      (removeTrustedCertificate thumbprint) w := by
  have hf : ∀ {u}, Frame (· = .untrust) w u → Frame Untrusting w u := fun hu =>
    hu.mono fun x (hx : x = .untrust) => by subst hx; decide
  exact wp_mono (fun _ hu => h.frame (hf hu)) (fun _ _ _ hu => ⟨hf hu.1, hu.2⟩)
    (removeTrustedCertificate_spec findingExec_finding thumbprint)

theorem untrusted_of_empty (h : TrustInv w) (hv : ∀ s, w.value (certName s) = []) (c : Certificate) :
    ¬ Trusted w c :=
  h.names.unheld (fun s c _ => by rw [Function.comp_apply, hv]; exact thumbprintOf_ne_nil c) c

theorem uninstallRecorded_trust {state : Option InstallState} (h : TrustInv w) (hs : Reads w state) :
    wp findingExec TrustInv (fun _ w' => ∀ c, ¬ Trusted w' c) (uninstallRecorded state) w := by
  cases state with
  | none => exact ⟨h, fun c => untrusted_of_empty h (fun s => hs _) c⟩
  | some s =>
    refine wp_seq (untrusting_run (unstageOther_effects (by decide) _ _) h) fun _ w₁ h₁ f₁ => ?_
    refine wp_seq (untrusting_run (unstageOther_effects (by decide) _ _) h₁) fun _ w₂ h₂ f₂ => ?_
    refine wp_seq (remove_trust s.certThumbprint h₂) fun _ w₃ h₃ ⟨f₃, hcurrent⟩ => ?_
    refine wp_seq (remove_trust s.pendingCertThumbprint h₃) fun _ w₄ h₄ ⟨f₄, hpending⟩ => ?_
    refine wp_seq (remove_trust s.previousCertThumbprint h₄) fun _ w₅ h₅ ⟨f₅, hprevious⟩ => ?_
    have hv : ∀ n, w₅.value n = s.get n := fun n => by
      rw [f₅.value (by decide), f₄.value (by decide), f₃.value (by decide), f₂.value (by decide),
        f₁.value (by decide), hs n]
    have hnone : ∀ c, ¬ Trusted w₅ c := h₅.names.unheld fun slot c hc => by
      rw [Function.comp_apply, hv]
      cases slot with
      | current => exact hcurrent c (trusted_frame f₄ (trusted_frame f₅ hc))
      | pending => exact hpending c (trusted_frame f₅ hc)
      | previous => exact hprevious c hc
    refine wp_ite (fun _ => ?_) fun _ => ⟨h₅, hnone⟩
    exact wp_post (fun _ u _ hu c hc => hnone c (trusted_frame hu hc))
      (untrusting_run (removeInstallDir_effects (by decide) _) h₅)

theorem deleteState_trust (h : TrustInv w) (hn : ∀ c, ¬ Trusted w c) :
    wp findingExec TrustInv (fun _ w' => (∀ c, ¬ Trusted w' c) ∧ ∀ name, w'.value name = [])
      deleteState w := by
  refine ⟨h, fun o r w' he => ?_⟩
  obtain ⟨-, hrel, hx⟩ := findingExec_eq_some.mp he
  obtain ⟨-, -, rfl⟩ | ⟨rfl, -, -⟩ := tried_eq_some.mp hx
  · have hd : TrustInv w.deleteKey := ⟨⟨h.numbered.persisted, h.numbered.generated, h.numbered.stores⟩,
      fun c hc => absurd hc (hn c)⟩
    exact ⟨hd, hn, fun name => rfl⟩
  · simp [reliable] at hrel

/-- An uninstall from any instant leaves no certificate of setup's trusted, and nothing recorded. -/
theorem runUninstall_trust (h : TrustInv w) :
    wp findingExec TrustInv (fun _ w' => (∀ c, ¬ Trusted w' c) ∧ ∀ name, w'.value name = [])
      runUninstall w := by
  refine wp_seq (readState_trust h) ?_
  rintro state _ _ ⟨rfl, hs⟩
  refine wp_seq (untrusting_run (uninstallDriver_effects (by decide) (by decide) _) h) fun _ u hu hf => ?_
  refine wp_seq (uninstallRecorded_trust hu (hs.frame hf (by decide))) fun _ v hv hn => ?_
  exact wp_seq (deleteState_trust hv hn) fun _ x hx hq => ⟨hx, hq⟩

theorem failInstall_trust (h : TrustInv w) :
    wp findingExec TrustInv (fun _ _ => True) failInstall w :=
  wp_seq (runUninstall_trust h) fun _ _ hu _ => ⟨hu, trivial⟩

/-! ## Retirement and roll-back -/

theorem noSlot_driverInf (s : Slot) : certName s ≠ .driverInf := by cases s <;> nofun

theorem noSlot_pendingDriverInf (s : Slot) : certName s ≠ .pendingDriverInf := by cases s <;> nofun

theorem noSlot_previousDriverInf (s : Slot) : certName s ≠ .previousDriverInf := by
  cases s <;> nofun

theorem noSlot_version (s : Slot) : certName s ≠ .version := by cases s <;> nofun

theorem noSlot_installDir (s : Slot) : certName s ≠ .installDir := by cases s <;> nofun

theorem forget_trust {name : ValueName} (h : TrustInv w)
    (hs : ∀ s, certName s = name → Spare (w.value ∘ certName) thumbprintOf (Trusted w) s) :
    wp findingExec TrustInv (fun _ _ => True) (deleteValue name) w :=
  wp_post (fun _ _ _ _ => trivial) (deleteValue_trust h hs)

theorem forgetRemoved_trust {s : Slot} {thumbprint : WString} (h : TrustInv w)
    (hv : w.value (certName s) = thumbprint) :
    wp findingExec TrustInv (fun _ _ => True)
      (do removeTrustedCertificate thumbprint; deleteValue (certName s)) w := by
  refine wp_seq (remove_trust thumbprint h) fun _ u hu ⟨hf, hgone⟩ => ?_
  exact forget_trust hu (spare_slot (spare_of_unnamed ((hf.value (by decide) _).trans hv) hgone))

theorem retireCert_trust {state : InstallState} (h : TrustInv w)
    (hv : w.value .previousCertThumbprint = state.previousCertThumbprint) :
    wp findingExec TrustInv (fun _ _ => True) (retireCert state) w :=
  wp_ite (fun _ => forgetRemoved_trust (s := .previous) h hv) fun _ => ⟨h, trivial⟩

theorem retireInf_trust (state : InstallState) (h : TrustInv w) :
    wp findingExec TrustInv (fun _ _ => True) (retireInf state) w := by
  refine wp_ite (fun _ => ?_) fun _ => ⟨h, trivial⟩
  refine wp_seq (untrusting_run (unstagePackage_effects (by decide) _) h) fun _ u hu _ => ?_
  exact wp_ite (fun _ => forget_trust hu (spare_none noSlot_previousDriverInf)) fun _ => ⟨hu, trivial⟩

theorem retirePrevious_trust {state : InstallState} (h : TrustInv w)
    (hv : w.value .previousCertThumbprint = state.previousCertThumbprint) :
    wp findingExec TrustInv (fun _ _ => True) (retirePrevious state) w :=
  wp_seq (retireCert_trust h hv) fun _ _ hu _ => retireInf_trust state hu

theorem retireFirst_trust (h : TrustInv w) :
    wp findingExec TrustInv (fun state w' => Reads w' state) retireFirst w := by
  refine wp_seq (readState_trust h) ?_
  rintro (_ | s) u hu ⟨rfl, hs⟩
  · exact ⟨hu, hs⟩
  · refine wp_ite (fun _ => ?_) fun _ => ⟨hu, hs⟩
    refine wp_seq (retirePrevious_trust hu (hs _).symm) fun _ v hv _ => ?_
    exact wp_post (fun _ w' _ (hr : w' = _ ∧ Reads _ _) => hr.1 ▸ hr.2) (readState_trust hv)

theorem failUpdate_trust (old : InstallState) {pendingCert : WString} (pendingInf : WString)
    (h : TrustInv w) (hv : w.value .pendingCertThumbprint = pendingCert) :
    wp findingExec TrustInv (fun _ _ => True) (failUpdate old pendingCert pendingInf) w := by
  refine wp_seq (untrusting_run (unstageOther_effects (by decide) _ _) h) fun _ u hu hf => ?_
  have hvu : u.value .pendingCertThumbprint = pendingCert := (hf.value (by decide) _).trans hv
  refine wp_seq (remove_trust pendingCert hu) fun _ v hv' ⟨hf', hgone⟩ => ?_
  have hspare : ∀ {x : World} {values}, Sets v values x →
      values .pendingCertThumbprint = v.value .pendingCertThumbprint →
      Spare (x.value ∘ certName) thumbprintOf (Trusted x) .pending := fun hx hval =>
    spare_of_unnamed ((hx.value _).trans (hval.trans ((hf'.value (by decide) _).trans hvu)))
      fun c hc => hgone c (hx.trusted.mp hc)
  refine wp_seq (deleteValue_trust hv' (spare_none noSlot_pendingDriverInf)) fun _ x hx hsets => ?_
  refine wp_seq (forget_trust hx (spare_slot (s := .pending) ?_)) fun _ y hy _ => ⟨hy, trivial⟩
  exact hsets.elim (hspare · rfl) (hspare · rfl)

/-! ## Update -/

theorem finish_trust (version : WString) (installCode : ℕ) (failed : Flow ℕ) (h : TrustInv w)
    (hfailed : ∀ {u}, TrustInv u → wp findingExec TrustInv (fun _ _ => True) failed u) :
    wp findingExec TrustInv (fun _ _ => True)
      (do if ← writeValue .version version then finishWithPins installCode else failed) w := by
  refine wp_seq (writeValue_trust version h (spare_none noSlot_version)) fun _ u hu _ => ?_
  refine wp_ite (fun _ => ?_) fun _ => hfailed hu
  exact untrusting_end (finishWithPins_effects (by decide) _) hu

theorem keepPackage_trust {cert : SigningCert} (version : WString) (reboot : Bool) (h : TrustInv w)
    (hv : w.value .pendingCertThumbprint = cert.thumbprint) :
    wp findingExec TrustInv (fun _ _ => True) (keepPackage cert version reboot) w := by
  refine wp_seq (remove_trust cert.thumbprint h) fun _ u hu ⟨hf, hgone⟩ => ?_
  have hspare : Spare (u.value ∘ certName) thumbprintOf (Trusted u) .pending :=
    spare_of_unnamed ((hf.value (by decide) _).trans hv) hgone
  refine wp_seq (forget_trust hu (spare_slot hspare)) fun _ x hx _ => ?_
  refine wp_seq (forget_trust hx (spare_none noSlot_pendingDriverInf)) fun _ y hy _ => ?_
  exact finish_trust version _ (pure 1) hy fun hu => ⟨hu, trivial⟩

/-- The old certificate is named twice before its slot takes the new one. -/
theorem promoteValues_trust {old : InstallState} {cert : SigningCert} {c : Certificate}
    (published : WString) (h : TrustInv w) (hc : cert.thumbprint = thumbprintOf c)
    (hold : old.certThumbprint = w.value .certThumbprint)
    (hprevious : w.value .previousCertThumbprint = [])
    (hpending : w.value .pendingCertThumbprint = cert.thumbprint) :
    wp findingExec TrustInv
      (fun ok w' => ok = true → w'.value .certThumbprint = w'.value .pendingCertThumbprint)
      (promoteValues old cert published) w := by
  have failed : ∀ {u : World}, TrustInv u → wp findingExec TrustInv
      (fun ok w' => ok = true → w'.value .certThumbprint = w'.value .pendingCertThumbprint)
      (.ret false) u := fun hu => ⟨hu, fun hf => nomatch hf⟩
  refine wp_seq (writeValue_trust _ h (spare_slot (s := .previous) (spare_of_empty hprevious))) ?_
  intro ok₁ w₁ h₁ s₁
  refine wp_ite (fun hok => ?_) fun _ => failed h₁
  simp only [hok, if_true] at s₁
  refine wp_seq (writeValue_trust _ h₁ (spare_none noSlot_previousDriverInf)) fun ok₂ w₂ h₂ s₂ => ?_
  refine wp_ite (fun hok => ?_) fun _ => failed h₂
  simp only [hok, if_true] at s₂
  have hcopy : w₂.value .previousCertThumbprint = w₂.value .certThumbprint := by
    rw [s₂.value, s₂.value, Function.update_of_ne (by decide), Function.update_of_ne (by decide),
      s₁.value, s₁.value, Function.update_self, Function.update_of_ne (by decide), hold,
      World.cStr_value]
  refine wp_seq (writeValue_trust _ h₂ (spare_slot (s := .current)
    (Spare.of_copy (show Slot.previous ≠ .current by decide) hcopy))) fun ok₃ w₃ h₃ s₃ => ?_
  refine wp_ite (fun hok => ?_) fun _ => failed h₃
  simp only [hok, if_true] at s₃
  refine wp_post (fun ok₄ w₄ _ s₄ _ => ?_) (writeValue_trust _ h₃ (spare_none noSlot_driverInf))
  have hkeep : ∀ n, n ≠ .driverInf → w₄.value n = w₃.value n := by
    intro n hn
    rw [s₄.value]
    cases ok₄ with
    | true => exact Function.update_of_ne hn _ _
    | false => rfl
  rw [hkeep _ (by decide), hkeep _ (by decide), s₃.value, s₃.value, Function.update_self,
    Function.update_of_ne (by decide), s₂.value, Function.update_of_ne (by decide), s₁.value,
    Function.update_of_ne (by decide), hpending, hc, cStr_thumbprintOf]

theorem promote_trust {old : InstallState} {cert : SigningCert} {c : Certificate}
    (published version : WString) (reboot : Bool) (h : TrustInv w)
    (hc : cert.thumbprint = thumbprintOf c) (hold : old.certThumbprint = w.value .certThumbprint)
    (hprevious : w.value .previousCertThumbprint = [])
    (hpending : w.value .pendingCertThumbprint = cert.thumbprint) :
    wp findingExec TrustInv (fun _ _ => True) (promote old cert published version reboot) w := by
  refine wp_seq (promoteValues_trust published h hc hold hprevious hpending) fun ok u hu hok => ?_
  refine wp_ite (fun hb => ?_) fun _ => ⟨hu, trivial⟩
  refine wp_seq (forget_trust hu (spare_slot (s := .pending)
    (Spare.of_copy (show Slot.current ≠ .pending by decide) (hok hb)))) fun _ v hv _ => ?_
  refine wp_seq (forget_trust hv (spare_none noSlot_pendingDriverInf)) fun _ x hx _ => ?_
  refine wp_seq (readState_trust hx) ?_
  rintro promoted y hy ⟨rfl, hs⟩
  have hretire : wp findingExec TrustInv (fun _ _ => True) (retirePromoted promoted) y := by
    cases promoted with
    | none => exact ⟨hy, trivial⟩
    | some s => exact retirePrevious_trust hy (hs _).symm
  exact wp_seq hretire fun _ y hy _ => finish_trust version _ (pure 1) hy fun hu => ⟨hu, trivial⟩

theorem swapPackage_trust {old : InstallState} {cert : SigningCert} {c : Certificate}
    (driverDir version : WString) (h : TrustInv w) (hc : cert.thumbprint = thumbprintOf c)
    (hold : old.certThumbprint = w.value .certThumbprint)
    (hprevious : w.value .previousCertThumbprint = [])
    (hpending : w.value .pendingCertThumbprint = cert.thumbprint) :
    wp findingExec TrustInv (fun _ _ => True) (swapPackage old cert driverDir version) w := by
  refine wp_seq (untrusting_run (stagePackage_effects (by decide) _) h) ?_
  rintro (_ | published) u hu hf
  · exact failUpdate_trust old _ hu ((hf.value (by decide) _).trans hpending)
  refine wp_seq (writeValue_trust published hu (spare_none noSlot_pendingDriverInf)) fun ok v hv hs => ?_
  have hkeep : ∀ n, n ≠ .pendingDriverInf → v.value n = w.value n := by
    intro n hn
    rw [hs.value, ← hf.value (by decide)]
    cases ok with
    | true => exact Function.update_of_ne hn _ _
    | false => rfl
  refine wp_ite (fun _ => ?_) fun _ =>
    failUpdate_trust old _ hv ((hkeep _ (by decide)).trans hpending)
  refine wp_seq (untrusting_run (updateDevice_effects (by decide) _) hv) ?_
  rintro (_ | reboot) x hx hfx <;> have hval := fun n hn => (hfx.value (by decide) n).trans (hkeep n hn)
  · exact failUpdate_trust old _ hx ((hval _ (by decide)).trans hpending)
  · refine wp_ite (fun _ => ?_) fun _ => ?_
    · exact keepPackage_trust version reboot hx ((hval _ (by decide)).trans hpending)
    · exact promote_trust published version reboot hx hc (hold.trans (hval _ (by decide)).symm)
        ((hval _ (by decide)).trans hprevious) ((hval _ (by decide)).trans hpending)

/-! ## Trusting -/

theorem TrustInv.trust {c : Certificate} {s : Slot} (store : StoreName) (h : TrustInv w)
    (hc : c ∈ w.keys.generated) (hv : w.value (certName s) = thumbprintOf c) :
    TrustInv (w.setStore store (c :: (w.stores store).erase c)) := by
  refine ⟨h.numbered.trust store hc, Covered.take (s := s) h.names ?_⟩
  rintro c' ⟨hg, t, ht⟩
  rcases mem_trusted ht with rfl | ht
  · exact .inr hv
  · exact .inl ⟨hg, t, ht⟩

theorem trustIn_trust {c : Certificate} {s : Slot} (stores : List StoreName) (h : TrustInv w)
    (hc : c ∈ w.keys.generated) (hv : w.value (certName s) = thumbprintOf c) :
    wp findingExec TrustInv (fun _ w' => w'.value = w.value) (trustIn (some c) stores) w := by
  induction stores generalizing w with
  | nil => exact ⟨h, rfl⟩
  | cons store stores ih =>
    simp only [trustIn, perform, Prog.perform_bind]
    refine ⟨h, fun o r w' he => ?_⟩
    obtain ⟨-, rfl⟩ := looked_eq_some.mp (findingExec_sub _ _ _ _ he)
    cases r with
    | none => exact ⟨h, rfl⟩
    | some size =>
      refine ⟨h, fun o r v he => ?_⟩
      obtain ⟨-, rfl, rfl⟩ | ⟨-, rfl, rfl⟩ := tried_eq_some.mp (findingExec_sub _ _ _ _ he)
      · exact ih (h.trust store hc hv) hc hv
      · exact ⟨h, rfl⟩

theorem signDriver_trust (driverDir : WString) (h : TrustInv w) :
    wp findingExec TrustInv
      (fun r w' => w'.value = w.value ∧ ∀ cert, r = some cert → ∃ c, Signed w w' driverDir cert c)
      (signDriver driverDir) w :=
  wp_mono (fun _ hk => h.newKeys hk)
    (fun _ _ hk hr => ⟨funext fun n => hk.frame.value (by decide) n, hr⟩)
    (wp_sub findingExec_sub (signDriver_spec driverDir _))

/-! ## The runs -/

theorem runUpdate_trust {old : InstallState} (payloadDir version : WString) (h : TrustInv w)
    (hs : Reads w (some old)) (hsettled : old.settled = true) :
    wp findingExec TrustInv (fun _ _ => True) (runUpdate old payloadDir version) w := by
  simp only [InstallState.settled, Bool.and_eq_true, List.isEmpty_iff] at hsettled
  obtain ⟨⟨⟨hpending, -⟩, hprevious⟩, -⟩ := hsettled
  have hpending : w.value .pendingCertThumbprint = [] := (hs _).symm.trans hpending
  have hprevious : w.value .previousCertThumbprint = [] := (hs _).symm.trans hprevious
  refine wp_seq (untrusting_run (copyPayload_effects (by decide) _ _) h) fun _ u hu hf => ?_
  have hvu : u.value = w.value := funext fun n => hf.value (by decide) n
  refine wp_ite (fun _ => ?_) fun _ => failUpdate_trust old _ hu (by rw [hvu, hpending])
  refine wp_seq (signDriver_trust _ hu) ?_
  rintro (_ | cert) v hv ⟨hvv, hsigned⟩
  · exact failUpdate_trust old _ hv (by rw [hvv, hvu, hpending])
  obtain ⟨c, hc⟩ := hsigned cert rfl
  have hspare : Spare (v.value ∘ certName) thumbprintOf (Trusted v) .pending :=
    spare_of_empty (by rw [hvv, hvu]; exact hpending)
  refine wp_seq (writeValue_trust cert.thumbprint hv (spare_slot hspare)) fun ok x hx hsets => ?_
  cases ok with
  | false =>
    exact failUpdate_trust old _ hx ((hsets.value _).trans (by rw [if_neg (by simp), hvv, hvu, hpending]))
  | true =>
    have hthumb : cert.thumbprint = thumbprintOf c := hc.thumbprint
    have hkeep : ∀ n, n ≠ .pendingCertThumbprint → x.value n = w.value n := fun n hn => by
      rw [hsets.value, if_pos rfl, Function.update_of_ne hn, hvv, hvu]
    have hnew : x.value .pendingCertThumbprint = cert.thumbprint := by
      rw [hsets.value, if_pos rfl, Function.update_self, hthumb, cStr_thumbprintOf]
    have hg : c ∈ x.keys.generated := by
      rw [hsets.keys]
      exact hc.generated
    have htrust := trustIn_trust (s := .pending) storeNames hx hg (hnew.trans hthumb)
    simp only [if_true, trustCertificate, hc.encoded]
    refine wp_seq htrust fun _ y hy hvy => wp_ite (fun _ => ?_) fun _ => ?_
    · exact swapPackage_trust _ version hy hthumb
        ((hs .certThumbprint).trans (by rw [hvy, hkeep _ (by decide)]))
        (by rw [hvy, hkeep _ (by decide), hprevious]) (by rw [hvy, hnew])
    · exact failUpdate_trust old _ hy (by rw [hvy, hnew])

theorem installNode_trust (driverDir version : WString) (h : TrustInv w) :
    wp findingExec TrustInv (fun _ _ => True) (installNode driverDir version) w := by
  refine wp_seq (untrusting_run (installDriver_effects (by decide) (by decide) (by decide) _) h) ?_
  rintro (_ | ⟨published, reboot⟩) u hu -
  · exact failInstall_trust hu
  refine wp_seq (writeValue_trust published hu (spare_none noSlot_driverInf)) fun _ v hv _ => ?_
  refine wp_ite (fun _ => ?_) fun _ => ?_
  · exact finish_trust version _ failInstall hv fun hx => failInstall_trust hx
  · refine wp_seq (untrusting_run (uninstallDriver_effects (by decide) (by decide) _) hv) ?_
    exact fun _ x hx _ => failInstall_trust hx

theorem installFresh_trust (payloadDir dir version : WString) (h : TrustInv w)
    (hempty : w.value .certThumbprint = []) :
    wp findingExec TrustInv (fun _ _ => True) (installFresh payloadDir dir version) w := by
  refine wp_seq (writeValue_trust dir h (spare_none noSlot_installDir)) fun ok u hu hsets => ?_
  have hu₀ : u.value .certThumbprint = [] := by
    rw [hsets.value]
    cases ok with
    | true => exact (Function.update_of_ne (by decide) _ _).trans hempty
    | false => exact hempty
  refine wp_ite (fun _ => ?_) fun _ => failInstall_trust hu
  refine wp_seq (untrusting_run (copyPayload_effects (by decide) _ _) hu) fun _ v hv hf => ?_
  refine wp_ite (fun _ => ?_) fun _ => failInstall_trust hv
  refine wp_seq (signDriver_trust _ hv) ?_
  rintro (_ | cert) x hx ⟨hvx, hsigned⟩
  · exact failInstall_trust hx
  obtain ⟨c, hc⟩ := hsigned cert rfl
  have hspare : Spare (x.value ∘ certName) thumbprintOf (Trusted x) .current :=
    spare_of_empty (by rw [hvx, certName, hf.value (by decide), hu₀])
  refine wp_seq (writeValue_trust cert.thumbprint hx (spare_slot hspare)) fun ok y hy hsets' => ?_
  cases ok with
  | false => exact failInstall_trust hy
  | true =>
    have hg : c ∈ y.keys.generated := by
      rw [hsets'.keys]
      exact hc.generated
    have hv : y.value .certThumbprint = thumbprintOf c := by
      rw [hsets'.value, if_pos rfl, Function.update_self, hc.thumbprint]
      exact cStr_thumbprintOf c
    have htrust := trustIn_trust (s := .current) storeNames hy hg hv
    simp only [if_true, trustCertificate, hc.encoded]
    refine wp_seq htrust fun _ z hz _ => wp_ite (fun _ => ?_) fun _ => failInstall_trust hz
    exact installNode_trust _ version hz

theorem runInstall_trust (payloadDir version : WString) (h : TrustInv w) :
    wp findingExec TrustInv (fun _ _ => True) (runInstall payloadDir version) w := by
  refine runInstall_cases findingExec_sub (fun hu hf => hu.frame (hf.mono fun _ => nofun))
    (retireFirst_trust h) (fun hu hs hmode => ?_) (fun hu => ?_) fun hu hs => ?_
  · exact runUpdate_trust _ _ hu hs hmode.updated.2.1
  · exact wp_seq (runUninstall_trust hu) fun _ v hv hempty =>
      installFresh_trust _ _ _ hv (hempty.2 _)
  · exact installFresh_trust _ _ _ hu (hs _)

end

/-! ## Histories -/

theorem Clean.trustInv {w : World} (h : Clean w) : TrustInv w :=
  ⟨h.numbered, fun c hc => by have := hc.1; simp [h.generated] at this⟩

theorem instant_trustInv {w₀ w : World} (h₀ : Clean w₀)
    (hw : Instant findingSetup Always Always w₀ w) : TrustInv w := by
  refine hw.inv_of_wp h₀.trustInv fun event u v hu ha => ?_
  cases event with
  | install payloadDir version =>
    obtain rfl := Option.some.inj ha
    exact runInstall_trust payloadDir version hu
  | uninstall =>
    obtain rfl := Option.some.inj ha
    exact wp_post (fun _ _ _ _ => trivial) (runUninstall_trust hu)
  | meanwhile machine =>
    obtain rfl := Option.some.inj ha
    exact ⟨⟨hu.numbered.machine machine, hu.names⟩, trivial⟩

/-- As long as `RemoveTrustedCertificate` opens and searches the stores that hold what it is to
remove, every certificate of setup's that is trusted is recorded, at every instant of every
history, and an uninstall from there leaves none trusted. -/
theorem trusted_recorded {w₀ w : World} (h₀ : Clean w₀)
    (hw : Instant findingSetup Always Always w₀ w) :
    TrustRecorded w ∧
      ∀ w' a, Steps findingSetup.exec runUninstall w (.ret a) w' → ∀ c, ¬ Trusted w' c :=
  have h := instant_trustInv h₀ hw
  ⟨h.names, fun _ _ hs => (hs.post (runUninstall_trust h)).1⟩

theorem trusted_recorded_installed :
    ∃ w, Instant findingSetup Always Always newPc w ∧ (∃ c, Trusted w c) ∧ TrustRecorded w ∧
      ∀ w' a, Steps findingSetup.exec runUninstall w (.ret a) w' → ∀ c, ¬ Trusted w' c := by
  obtain ⟨w, hi, hc⟩ := Instant.of_play (S := findingSetup) (.install releaseDir (wide "1"))
    (succeed (sha1Of 1) (wide "oem1.inf")) rootTrusted trustsOwn
    (Rest.init : Rest _ Always Always newPc _) rfl (by decide +kernel)
  obtain ⟨c, hg, hs⟩ := trusted_of_trustsOwn hc
  exact ⟨w, hi, ⟨c, hg, .root, hs⟩, trusted_recorded newPc_clean hi⟩

/-- TrustedPublisher cannot be opened, and neither can Root for the roll-back. -/
def lockStores (hash : Sha1) (published : WString) : Call → Outcome
  | .certOpenStore .trustedPublisher _ | .certOpenStore _ (some _) => .fail
  | c => succeed hash published c

/-- A first install that is rolled back forgets the certificate in Root. -/
theorem trusted_forgotten :
    Clean newPc ∧ ∃ w, Instant reliableSetup Always Always newPc w ∧ ¬ TrustRecorded w := by
  obtain ⟨w, hi, hc⟩ := Instant.of_play (S := reliableSetup) (.install releaseDir (wide "1"))
    (lockStores (sha1Of 1) (wide "oem1.inf")) (fun _ => false)
    (fun w => trustsOwn w && w.registry.isNone)
    (Rest.init : Rest _ Always Always newPc _) rfl (by decide +kernel)
  rw [Bool.and_eq_true, Option.isNone_iff_eq_none] at hc
  obtain ⟨c, hg, hs⟩ := trusted_of_trustsOwn hc.1
  refine ⟨newPc_clean, w, hi, fun hr => ?_⟩
  obtain ⟨s, hv⟩ := hr c ⟨hg, .root, hs⟩
  exact thumbprintOf_ne_nil c (by rw [← hv, World.value, hc.2]; rfl)

end VirtualGun.Setup
