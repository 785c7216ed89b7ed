import VirtualGun.Setup.Retirement

/-!
# What an uninstall forgets

`RunUninstall` deletes the state key and reports success whatever it could not remove.
-/

open VirtualGun.Program

namespace VirtualGun.Setup

/-! ## What the calls of a run removed -/

/-- The store lost the certificate in this call. -/
def deletes (store : StoreName) (c : Certificate) : Call × Outcome → Bool
  | (.certDeleteCertificateFromStore s found, .ok) => s == store && found == c
  | _ => false

/-- The driver store lost the package in this call. -/
def unstages (p : Package) : Call × Outcome → Bool
  | (.setupUninstallOEMInf published, .ok) => sameName p.published published
  | _ => false

/-- The stores and the packages are what the calls since `x` left of them. -/
def Removed (x y : World × Log Call Outcome) : Prop :=
  ∃ m, y.2 = x.2 ++ m ∧
    (∀ s c, (y.1.stores s).count c = (x.1.stores s).count c - m.countP (deletes s c)) ∧
    y.1.packages = x.1.packages.filter fun p => !m.any (unstages p)

abbrev Removing : Effect → Prop := fun e => e ≠ .trust ∧ e ≠ .stage

section
variable {x y z : World × Log Call Outcome} {w w' : World} {c : Call} {o : Outcome} {r : c.Resp}

theorem Removed.refl (x : World × Log Call Outcome) : Removed x x :=
  ⟨[], by simp, by simp, (List.filter_eq_self.mpr fun _ _ => by simp).symm⟩

theorem Removed.trans (h : Removed x y) (h' : Removed y z) : Removed x z := by
  obtain ⟨m, hm, hcount, hpackages⟩ := h
  obtain ⟨m', hm', hcount', hpackages'⟩ := h'
  refine ⟨m ++ m', by rw [hm', hm, List.append_assoc], fun s c => ?_, ?_⟩
  · rw [hcount', hcount, List.countP_append, Nat.sub_sub]
  · rw [hpackages', hpackages, List.filter_filter]
    refine List.filter_congr fun p _ => ?_
    rw [List.any_append, Bool.not_or, Bool.and_comm]

theorem stores_removed (he : exec c o w = some (r, w')) (ht : c.effect ≠ some .trust)
    (s : StoreName) (cert : Certificate) :
    (w'.stores s).count cert = (w.stores s).count cert - [(c, o)].countP (deletes s cert) := by
  by_cases hu : c.effect = some .untrust
  · cases c with
    | certDeleteCertificateFromStore store found =>
      obtain ⟨rfl, -, rfl⟩ | ⟨rfl, -, rfl⟩ := tried_eq_some.mp he
      · by_cases hs : s = store
        · subst hs
          simp [World.setStore, List.count_erase, deletes]
        · have hs' : (store == s) = false := by simpa using Ne.symm hs
          simp [World.setStore, hs, deletes, hs']
      · simp [deletes]
    | _ => simp [Call.effect] at hu
  · rw [(exec_frame he).stores ht hu]
    have hd : deletes s cert (c, o) = false := by
      cases c with
      | certDeleteCertificateFromStore => simp [Call.effect] at hu
      | _ => rfl
    simp [hd]

theorem packages_removed (he : exec c o w = some (r, w')) (hs : c.effect ≠ some .stage) :
    w'.packages = w.packages.filter fun p => !([(c, o)] : Log Call Outcome).any (unstages p) := by
  have unchanged : (∀ p, unstages p (c, o) = false) → w.packages = w.packages.filter
      fun p => !([(c, o)] : Log Call Outcome).any (unstages p) := fun hd =>
    (List.filter_eq_self.mpr fun p _ => by simp [hd p]).symm
  by_cases hu : c.effect = some .unstage
  · cases c with
    | setupUninstallOEMInf published =>
      obtain ⟨rfl, -, rfl⟩ | ⟨rfl, -, rfl⟩ := tried_eq_some.mp he
      · simp [unstages]
      · exact unchanged fun _ => rfl
    | _ => simp [Call.effect] at hu
  · rw [(exec_frame he).packages hs hu]
    refine unchanged fun p => ?_
    cases c with
    | setupUninstallOEMInf => simp [Call.effect] at hu
    | _ => rfl

theorem removed_run {α : Type} {E : Exec Call Call.Resp Outcome World} (hE : E.Sub exec) {p : Flow α}
    (hp : Effects Removing p) (x : World × Log Call Outcome) :
    wp E.logged (Removed x) (fun _ y => Removed x y) p x := by
  have h : wp E.logged (fun y => True ∧ Removed x y) (fun _ _ => True) p x := by
    refine wp_frame Removed.refl Removed.trans (fun {c o r u v} _ hc he => ⟨trivial, trivial, ?_⟩) trivial hp
    obtain ⟨v', hv, rfl⟩ := Exec.logged_eq_some.mp he
    have hx := hE _ _ _ _ hv
    exact ⟨[(c, o)], rfl, stores_removed hx fun ht => (hc _ ht).1 rfl,
      packages_removed hx fun hs => (hc _ hs).2 rfl⟩
  exact wp_mono (fun _ hy => hy.2) (fun _ _ hy _ => hy.2) h

end

/-! ## What is recorded -/

def infName : Slot → ValueName
  | .current => .driverInf
  | .pending => .pendingDriverInf
  | .previous => .previousDriverInf

/-- The state key names the certificate. -/
def CertRecorded (w : World) (c : Certificate) : Prop := ∃ s, w.value (certName s) = thumbprintOf c

/-- The state key names the package. -/
def PackageRecorded (w : World) (p : Package) : Prop :=
  ∃ s, w.value (infName s) ≠ [] ∧ sameName p.published (w.value (infName s))

/-- What an uninstall left trusted or staged is still recorded, and it failed. -/
structure NeverForgets (w w' : World) (code : ℕ) : Prop where
  certificates : ∀ c, CertRecorded w c → (∃ store, c ∈ w'.stores store) → CertRecorded w' c ∧ code ≠ 0
  packages : ∀ p, PackageRecorded w p → p ∈ w'.packages → PackageRecorded w' p ∧ code ≠ 0

/-- A call that was to remove the certificate from the store failed. -/
def hinders (store : StoreName) (c : Certificate) : Call × Outcome → Bool
  | (.certOpenStore s (some hash), .fail) => s == store && hash == c.hash.bytes
  | (.certFindCertificateInStore s hash, .fail) => s == store && hash == c.hash.bytes
  | (.certDeleteCertificateFromStore s found, .fail) => s == store && found.hash.bytes == c.hash.bytes
  | _ => false

/-- A call that was to remove the package failed. -/
def refuses (p : Package) : Call × Outcome → Bool
  | (.setupUninstallOEMInf published, .fail) => sameName p.published published
  | _ => false

/-- What a call that failed was to remove of what is recorded, other calls removed. -/
structure MadeUpFor (w : World) (l : Log Call Outcome) : Prop where
  certificates : ∀ c, CertRecorded w c → ∀ store, l.any (hinders store c) = true →
    (w.stores store).count c ≤ l.countP (deletes store c)
  packages : ∀ p ∈ w.packages, PackageRecorded w p → l.any (refuses p) = true →
    l.any (unstages p) = true

/-! ## What an uninstall removes -/

section
variable {E : Exec Call Call.Resp Outcome World} {w : World}

/-- No call that is to remove the package fails. -/
def LetsUnstage (E : Exec Call Call.Resp Outcome World) (p : Package) : Prop :=
  ∀ published w x, sameName p.published published → E (.setupUninstallOEMInf published) .fail w ≠ some x

theorem unstagePackage_unstaging (hE : E.Sub exec) (publishedInf : WString) (w : World) :
    wp E (fun _ => True)
      (fun _ w' => Frame (· = .unstage) w w' ∧ ∀ p, LetsUnstage E p → publishedInf ≠ [] →
        sameName p.published publishedInf → p ∉ w'.packages) (unstagePackage publishedInf) w := by
  apply wp_ite
  · exact fun hnil => ⟨trivial, .refl _ _, fun _ _ hne => absurd hnil hne⟩
  · refine fun _ => ⟨trivial, fun o r w' he => ?_⟩
    have hf := (exec_frame (hE _ _ _ _ he)).mono fun _ h => (Option.some.inj h).symm
    obtain ⟨-, -, rfl⟩ | ⟨rfl, -, -⟩ := tried_eq_some.mp (hE _ _ _ _ he)
    · exact ⟨trivial, hf, fun p _ _ hsame hp => not_sameName (List.mem_filter.mp hp).2 hsame⟩
    · exact ⟨trivial, hf, fun p hp _ hsame => absurd he (hp _ _ _ hsame)⟩

theorem unstageOther_unstaging (hE : E.Sub exec) (inf driverInf : WString) (w : World) :
    wp E (fun _ => True)
      (fun _ w' => Frame (· = .unstage) w w' ∧ ∀ p, LetsUnstage E p → inf ≠ [] →
        ¬ sameName inf driverInf → sameName p.published inf → p ∉ w'.packages)
      (unstageOther inf driverInf) w := by
  apply wp_ite
  · intro _
    apply wp_seq (unstagePackage_unstaging hE inf w)
    exact fun _ u _ hu => ⟨trivial, hu.1, fun p hp hne _ hsame => hu.2 p hp hne hsame⟩
  · exact fun hsame => ⟨trivial, .refl _ _, fun _ _ _ hother => absurd (by simpa using hsame) hother⟩

/-- Nothing that the state names is left, as far as Windows lets it go. The package of `DriverInf` is
not meant. -/
structure Cleared (E : Exec Call Call.Resp Outcome World) (s : InstallState) (w : World) : Prop where
  certificates : ∀ store c, FindingIn E store c.hash.bytes → ∀ slot, s.get (certName slot) = thumbprintOf c →
    c ∉ w.stores store
  packages : ∀ p, LetsUnstage E p → ∀ slot, s.get (infName slot) ≠ [] →
    ¬ sameName (s.get (infName slot)) s.driverInf → sameName p.published (s.get (infName slot)) → p ∉ w.packages

theorem Cleared.files {s : InstallState} {w' : World} (h : Cleared E s w) (hf : Frame (· = .files) w w') :
    Cleared E s w' where
  certificates store c hin slot ht hc := h.certificates store c hin slot ht (hf.untrusts (by decide) store hc)
  packages p hp slot hne hother hsame hmem :=
    h.packages p hp slot hne hother hsame (hf.unstages (by decide) hmem)

theorem uninstallRecorded_removes {s : InstallState} (hE : E.Sub exec) (w : World) :
    wp E (fun _ => True)
      (fun _ w' => Frame (fun e => e = .unstage ∨ e = .untrust ∨ e = .files) w w' ∧ Cleared E s w')
      (uninstallRecorded (some s)) w := by
  have hunstage {u v : World} (h : Frame (· = .unstage) u v) :
      Frame (fun e => e = .unstage ∨ e = .untrust ∨ e = .files) u v := h.mono fun _ => .inl
  have huntrust {u v : World} (h : Frame (· = .untrust) u v) :
      Frame (fun e => e = .unstage ∨ e = .untrust ∨ e = .files) u v := h.mono fun _ h => .inr (.inl h)
  apply wp_seq (unstageOther_unstaging hE _ _ w)
  rintro _ w₁ - ⟨f₁, hpending⟩
  apply wp_seq (unstageOther_unstaging hE _ _ w₁)
  rintro _ w₂ - ⟨f₂, hprevious⟩
  apply wp_seq_of (fun _ _ => trivial) (removeTrustedCertificate_finding hE _)
  rintro _ w₃ - ⟨f₃, hcurrent⟩
  apply wp_seq_of (fun _ _ => trivial) (removeTrustedCertificate_finding hE _)
  rintro _ w₄ - ⟨f₄, hpendingCert⟩
  apply wp_seq_of (fun _ _ => trivial) (removeTrustedCertificate_finding hE _)
  rintro _ w₅ - ⟨f₅, hpreviousCert⟩
  have h₂₅ := ((huntrust f₃).trans (huntrust f₄)).trans (huntrust f₅)
  have hw := ((hunstage f₁).trans (hunstage f₂)).trans h₂₅
  have hcleared : Cleared E s w₅ := by
    refine ⟨fun store c hin slot ht hc => ?_, fun p hp slot hne hother hsame hmem => ?_⟩
    · have hc₄ := f₅.untrusts (by decide) store hc
      cases slot with
      | current => exact hcurrent store c hin ht (f₄.untrusts (by decide) store hc₄)
      | pending => exact hpendingCert store c hin ht hc₄
      | previous => exact hpreviousCert store c hin ht hc
    · have hp₂ := h₂₅.unstages (by decide) hmem
      cases slot with
      | current => exact hother (by simp [infName, InstallState.get])
      | pending => exact hpending p hp hne hother hsame (f₂.unstages (by decide) hp₂)
      | previous => exact hprevious p hp hne hother hsame hp₂
  apply wp_ite
  · intro _
    have heffects : Effects (fun e => e = .files) (removeInstallDir s.installDir) :=
      removeInstallDir_effects (by rfl) _
    apply wp_post _ (wp_end (wp_sub hE (wp_effects heffects w₅)))
    exact fun _ w₆ _ f₆ => ⟨hw.trans (f₆.mono fun _ h => .inr (.inr h)), hcleared.files f₆⟩
  · exact fun _ => ⟨trivial, hw, hcleared⟩

theorem uninstallDriver_unstaging (hE : E.Sub exec) (publishedInf : WString) (w : World) :
    wp E (fun _ => True)
      (fun _ w' => Frame (fun e => e = .devices ∨ e = .unstage) w w' ∧ ∀ p, LetsUnstage E p →
        publishedInf ≠ [] → sameName p.published publishedInf → p ∉ w'.packages)
      (uninstallDriver publishedInf) w := by
  have heffects : Effects (fun e => e = .devices) removeDevices := removeDevices_effects (by rfl)
  apply wp_seq (wp_end (wp_sub hE (wp_effects heffects w)))
  intro _ u _ hu
  apply wp_seq (unstagePackage_unstaging hE publishedInf u)
  rintro _ v - ⟨hv, hgone⟩
  exact ⟨trivial, (hu.mono fun _ => .inl).trans (hv.mono fun _ => .inr), hgone⟩

theorem value_eq_nil {name other : ValueName} (h : sameName (w.value name) (w.value other))
    (hnil : w.value other = []) : w.value name = [] := by
  rw [sameName_iff, hnil, foldCase_nil] at h
  rw [← World.cStr_value]
  exact List.map_eq_nil_iff.mp h

/-- `RunUninstall` removes what is recorded, as far as Windows lets it. -/
theorem runUninstall_removes (hE : E.Sub exec) (hr : ReadsWell E) (w : World) :
    wp E (fun _ => True)
      (fun _ w' => (∀ store c, FindingIn E store c.hash.bytes → CertRecorded w c → c ∉ w'.stores store) ∧
        ∀ p, LetsUnstage E p → PackageRecorded w p → p ∉ w'.packages) runUninstall w := by
  apply wp_seq_of (fun _ _ => trivial) (readState_spec hE hr)
  rintro state u rfl hs
  apply wp_seq (wp_end (uninstallDriver_unstaging hE _ u))
  rintro _ v - ⟨hv, hdriver⟩
  cases state with
  | none =>
    -- nothing is recorded
    refine ⟨trivial, fun o r x _ => ⟨trivial, fun _ c _ ⟨slot, ht⟩ => ?_, fun _ _ ⟨slot, hne, _⟩ => ?_⟩⟩
    · exact absurd ((hs _).symm.trans ht) (thumbprintOf_ne_nil c)
    · exact absurd (hs _) hne
  | some s =>
    apply wp_seq (uninstallRecorded_removes hE v)
    rintro _ x - ⟨hx, hcleared⟩
    refine ⟨trivial, fun o r y he => ⟨trivial, fun store c hin ⟨slot, ht⟩ hc => ?_,
      fun p hp ⟨slot, hne, hsame⟩ hmem => ?_⟩⟩
    · have hc := (exec_frame (hE _ _ _ _ he)).untrusts (by decide) store hc
      exact hcleared.certificates store c hin slot ((hs _).trans ht) hc
    · have hmem := (exec_frame (hE _ _ _ _ he)).unstages (by decide) hmem
      by_cases hother : sameName (s.get (infName slot)) s.driverInf
      · -- the package of `DriverInf` went with the devices
        have hinf : s.driverInf = u.value .driverInf := hs .driverInf
        rw [hs, hinf] at hother
        refine hdriver p hp ?_ ?_ (hx.unstages (by decide) hmem)
        · exact fun hnil => hne (value_eq_nil hother (hinf.symm.trans hnil))
        · rw [sameName_iff] at hsame hother ⊢
          exact hsame.trans (hother.trans (congrArg foldCase hinf.symm))
      · rw [← hs] at hne hsame
        exact hcleared.packages p hp slot hne hother hsame hmem

end

section
variable {w w' : World}

theorem only_sub {ok : Call → Outcome → Bool} : ((exec.only readable).only ok).Sub exec :=
  fun _ _ _ _ h => (Exec.only_eq_some.mp (Exec.only_eq_some.mp h).2).2

theorem runUninstall_forgets (w : World) :
    wp (exec.only readable) (fun _ => True)
      (fun code w' => code = 0 ∧ ∀ name, w'.value name = []) runUninstall w := by
  refine wp_seq (wp_true readState w) fun state u _ _ => ?_
  refine wp_seq (wp_true (uninstallDriver _) u) fun _ v _ _ => ?_
  refine wp_seq (wp_true (uninstallRecorded state) v) fun _ x _ _ => ⟨trivial, fun o r y he => ?_⟩
  obtain ⟨hread, hx⟩ := Exec.only_eq_some.mp he
  obtain ⟨-, -, rfl⟩ | ⟨rfl, -, -⟩ := tried_eq_some.mp hx
  · exact ⟨trivial, rfl, fun _ => rfl⟩
  · simp [readable] at hread

/-- A run in which nothing that `ok` rules out happened, as a run of the calls that `ok` lets happen. -/
theorem uninstall_of_outcomes {ok : Call → Outcome → Bool} {l : Log Call Outcome} {code : ℕ}
    (hs : Steps (exec.only readable).logged runUninstall (w, []) (.ret code) (w', l))
    (hok : ∀ e ∈ l, ok e.1 e.2 = true) :
    (∀ store c, FindingIn ((exec.only readable).only ok) store c.hash.bytes → CertRecorded w c →
      c ∉ w'.stores store) ∧
    ∀ p, LetsUnstage ((exec.only readable).only ok) p → PackageRecorded w p → p ∉ w'.packages := by
  obtain ⟨m, hm, (hrun : (∀ e ∈ m, ok e.1 e.2 = true) → _)⟩ := hs.of_logged
  obtain rfl : l = m := by simpa using hm
  have hreads : ReadsWell ((exec.only readable).only ok) := by
    rintro c o w x hc he rfl
    have hr := (Exec.only_eq_some.mp (Exec.only_eq_some.mp he).2).1
    cases c <;> simp [Call.isRead, readable] at hc hr
  exact (hrun hok).post (runUninstall_removes only_sub hreads w)

theorem unhindered_finding (store : StoreName) (c : Certificate) :
    FindingIn ((exec.only readable).only fun call o => !hinders store c (call, o)) store c.hash.bytes where
  sub := only_sub
  opens o w x he := by
    have ho := (Exec.only_eq_some.mp he).1
    cases o <;> simp [hinders, findsTrusted] at ho ⊢
  finds o w x he := by
    have ho := (Exec.only_eq_some.mp he).1
    cases o <;> simp [hinders, findsTrusted] at ho ⊢
  deletes found w x hfound he := by
    have ho := (Exec.only_eq_some.mp he).1
    simp [hinders, hfound] at ho

theorem unrefused_unstaging (p : Package) :
    LetsUnstage ((exec.only readable).only fun call o => !refuses p (call, o)) p := by
  intro published w x hsame he
  have ho := (Exec.only_eq_some.mp he).1
  simp only [refuses, hsame] at ho
  cases ho

/-- Uninstall never forgets exactly if the calls that remove what is recorded do not fail, but for
those that others make up for. -/
theorem uninstall_never_forgets {l : Log Call Outcome} {code : ℕ}
    (hs : Steps (exec.only readable).logged runUninstall (w, []) (.ret code) (w', l)) :
    NeverForgets w w' code ↔ MadeUpFor w l := by
  have hsub : (exec.only readable).Sub exec := fun _ _ _ _ h => (Exec.only_eq_some.mp h).2
  obtain ⟨m, hm, hcount, hpackages⟩ := hs.post (removed_run hsub (runUninstall_effects (by decide)
    (by decide) (by decide) (by decide) (by decide)) (w, []))
  obtain ⟨⟨rfl, hempty⟩, -⟩ := hs.post (wp_logged (List.prefix_refl []) (runUninstall_forgets w))
  obtain rfl : l = m := by simpa using hm
  constructor
  · intro h
    refine ⟨fun c hc store _ => ?_, fun p hp hr _ => ?_⟩
    · by_contra hlt
      have hin : c ∈ w'.stores store := by
        have hcount := hcount store c
        rw [← List.count_pos_iff]
        simp only at hcount
        omega
      exact (h.certificates c hc ⟨store, hin⟩).2 rfl
    · by_contra hn
      refine (h.packages p hr ?_).2 rfl
      rw [hpackages]
      exact List.mem_filter.mpr ⟨hp, by simpa using hn⟩
  · intro h
    refine ⟨fun c hc ⟨store, hin⟩ => ?_, fun p hr hp => ?_⟩
    · exfalso
      by_cases hhindered : l.any (hinders store c) = true
      · have hle := h.certificates c hc store hhindered
        have hpos := List.count_pos_iff.mpr hin
        have hcount := hcount store c
        simp only at hcount
        omega
      · refine (uninstall_of_outcomes hs fun e he => ?_).1 store c (unhindered_finding store c) hc hin
        simpa using fun h => hhindered (List.any_eq_true.mpr ⟨e, he, h⟩)
    · exfalso
      have hmem := hp
      rw [hpackages, List.mem_filter] at hmem
      by_cases hrefused : l.any (refuses p) = true
      · simp [h.packages p hmem.1 hr hrefused] at hmem
      · refine (uninstall_of_outcomes hs fun e he => ?_).2 p (unrefused_unstaging p) hr hp
        simpa using fun h => hrefused (List.any_eq_true.mpr ⟨e, he, h⟩)

end

/-! ## An uninstall of one install -/

/-- It returned 0, and left no certificate and no package. -/
def cleanedUp (code : ℕ) (x : World × Log Call Outcome) : Bool :=
  code == 0 && (x.1.stores .root).isEmpty && (x.1.stores .trustedPublisher).isEmpty &&
    x.1.packages.isEmpty

theorem uninstall_never_forgets_first :
    ∃ w w' l, Rest setup Always Always newPc w ∧ w.value .driverInf ≠ [] ∧
      Steps (exec.only readable).logged runUninstall (w, []) (.ret 0) (w', l) ∧
      MadeUpFor w l := by
  have hplay : ((setup.playUntil firstInstall newPc).any fun w =>
      !(w.value .driverInf).isEmpty && runUninstall.endsWith (exec.only readable).logged
        (succeed (sha1Of 1) []) cleanedUp (w, [])) = true := by decide +kernel
  obtain ⟨w, hw, hc⟩ := (Option.any_eq_true _ _).mp hplay
  simp only [Bool.and_eq_true, Bool.not_eq_true', List.isEmpty_eq_false_iff] at hc
  obtain ⟨code, ⟨w', l⟩, hs, hend⟩ := Prog.endsWith_steps hc.2
  simp only [cleanedUp, Bool.and_eq_true, beq_iff_eq, List.isEmpty_iff] at hend
  obtain ⟨⟨⟨rfl, hroot⟩, hpublisher⟩, hpackages⟩ := hend
  refine ⟨w, w', l, Rest.playUntil .init hw fun _ _ _ => trivial, hc.1, hs,
    (uninstall_never_forgets hs).mp ⟨fun c _ ⟨store, hin⟩ => ?_, fun p _ hin => ?_⟩⟩
  · cases store <;> simp [hroot, hpublisher] at hin
  · simp [hpackages] at hin

/-- The package is in use. -/
def refuseUnstage (hash : Sha1) : Call → Outcome
  | .setupUninstallOEMInf _ => .fail
  | c => succeed hash [] c

def isUnstage : Call → Bool
  | .setupUninstallOEMInf _ => true
  | _ => false

/-- It returned 0, only the unstaging failed, and the package is there. -/
def leftPackage (code : ℕ) (x : World × Log Call Outcome) : Bool :=
  code == 0 && (x.2.all fun e => e.2 != .fail || isUnstage e.1) &&
    x.1.packages.any fun p => sameName p.published (wide "oem1.inf")

/-- An uninstall that cannot unstage the package of a first install forgets it. -/
theorem uninstall_forgets_package :
    ∃ w w' l, Rest setup Always Always newPc w ∧
      Steps (exec.only readable).logged runUninstall (w, []) (.ret 0) (w', l) ∧
      (∀ e ∈ l, e.2 = .fail → isUnstage e.1) ∧ ¬ NeverForgets w w' 0 := by
  have hplay : ((setup.playUntil firstInstall newPc).any fun w =>
      w.value .driverInf == wide "oem1.inf" && runUninstall.endsWith (exec.only readable).logged
        (refuseUnstage (sha1Of 1)) leftPackage (w, [])) = true := by decide +kernel
  obtain ⟨w, hw, hc⟩ := (Option.any_eq_true _ _).mp hplay
  simp only [Bool.and_eq_true, beq_iff_eq] at hc
  obtain ⟨code, ⟨w', l⟩, hs, hend⟩ := Prog.endsWith_steps hc.2
  simp only [leftPackage, Bool.and_eq_true, beq_iff_eq, List.all_eq_true, Bool.or_eq_true,
    bne_iff_ne] at hend
  obtain ⟨⟨rfl, hfails⟩, hstaged⟩ := hend
  obtain ⟨p, hp, hn⟩ := List.any_eq_true.mp hstaged
  refine ⟨w, w', l, Rest.playUntil .init hw fun _ _ _ => trivial, hs, fun e he hf => ?_, fun h => ?_⟩
  · exact (hfails e he).resolve_left fun hne => hne hf
  · exact (h.packages p ⟨.current, by rw [infName, hc.1]; decide, by rw [infName, hc.1]; exact hn⟩ hp).2 rfl

end VirtualGun.Setup
