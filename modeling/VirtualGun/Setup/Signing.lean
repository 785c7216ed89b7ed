import VirtualGun.Setup.Runs

/-!
# Signing the driver

What `CreateSigningCert`, `SignFile` and `DestroySigningKey` leave behind: new keys and new
certificates only, and a certificate that names the key it was made with.
-/

open VirtualGun.Program

namespace VirtualGun.Setup

/-- Besides keys and certificates of new key pairs, `w'` has what `w` has. -/
structure NewKeys (w w' : World) : Prop where
  frame : Frame (fun x => x = .keys ∨ x = .files) w w'
  next : w.keys.next ≤ w'.keys.next
  persisted : ∀ k ∈ w'.keys.persisted, k ∈ w.keys.persisted ∨ w.keys.next ≤ k.id
  kept : w.keys.generated ⊆ w'.keys.generated
  generated : ∀ c ∈ w'.keys.generated, c ∈ w.keys.generated ∨ w.keys.next ≤ c.key
  numbered : Numbered w → Numbered w'

namespace NewKeys

variable {u v w : World}

theorem refl (w : World) : NewKeys w w :=
  ⟨.refl _ _, le_refl _, fun _ => .inl, List.Subset.refl _, fun _ => .inl, id⟩

theorem trans (h : NewKeys u v) (h' : NewKeys v w) : NewKeys u w where
  frame := h.frame.trans h'.frame
  next := h.next.trans h'.next
  persisted k hk := (h'.persisted k hk).elim (h.persisted k) fun hn => .inr (h.next.trans hn)
  kept := List.Subset.trans h.kept h'.kept
  generated c hc := (h'.generated c hc).elim (h.generated c) fun hn => .inr (h.next.trans hn)
  numbered hu := h'.numbered (h.numbered hu)

theorem stores_eq (h : NewKeys v w) : w.stores = v.stores :=
  h.frame.stores (by simp) (by simp)

theorem of_frame {effects : Effect → Prop} (hm : ∀ x, effects x → x = .files)
    (h : Frame effects v w) : NewKeys v w := by
  have hk : w.keys = v.keys := h.keys fun hx => nomatch hm _ hx
  have hs : w.stores = v.stores := h.stores (fun hx => nomatch hm _ hx) fun hx => nomatch hm _ hx
  exact ⟨h.mono fun x hx => .inr (hm x hx), hk ▸ le_refl _, fun k hk' => .inl (hk ▸ hk'),
    fun _ hc => hk ▸ hc, fun c hc => .inl (hk ▸ hc),
    fun hn => ⟨hk ▸ hn.persisted, hk ▸ hn.generated, by rw [hk, hs]; exact hn.stores⟩⟩

end NewKeys

/-- The certificate was made here, and its fields go together. -/
structure Made (w w' : World) (cert : SigningCert) (key : Key) (c : Certificate) : Prop where
  context : cert.context = some c
  encoded : cert.encoded = some c
  thumbprint : cert.thumbprint = hexUpper c.hash.bytes
  held : cert.key = some key
  number : c.key = key.id
  fresh : w.keys.next ≤ c.key
  generated : c ∈ w'.keys.generated

section
variable {u w w' : World}

theorem persistedKey_newKeys (w : World) :
    NewKeys w { w with keys := { w.keys with next := w.keys.next + 1 } } where
  frame := .of_keys (.inl rfl) _
  next := Nat.le_succ _
  persisted _ := .inl
  kept := List.Subset.refl _
  generated _ := .inl
  numbered h :=
    ⟨fun k hk => (h.persisted k hk).trans (Nat.lt_succ_self _),
      fun c hc => (h.generated c hc).trans (Nat.lt_succ_self _),
      fun s c hc => (h.stores s c hc).trans (Nat.lt_succ_self _)⟩

theorem deleteKey_newKeys (key : Key) :
    NewKeys w { w with
      keys := { w.keys with persisted := w.keys.persisted.filter (·.id != key.id) } } where
  frame := .of_keys (.inl rfl) _
  next := le_refl _
  persisted _ hk := .inl (List.mem_filter.mp hk).1
  kept := List.Subset.refl _
  generated _ := .inl
  numbered h := ⟨fun k hk => h.persisted k (List.mem_filter.mp hk).1, h.generated, h.stores⟩

theorem finalizeKey_newKeys (key : Key) (h : NewKeys u w) (hu : u.keys.next ≤ key.id)
    (hk : key.id < w.keys.next) :
    NewKeys u { w with keys := { w.keys with persisted := w.keys.persisted ++ [key] } } where
  frame := h.frame.trans (.of_keys (.inl rfl) _)
  next := h.next
  persisted k hk' := by
    rcases List.mem_append.mp hk' with hk' | hk'
    · exact h.persisted k hk'
    · exact .inr (by rw [List.mem_singleton.mp hk']; exact hu)
  kept := h.kept
  generated := h.generated
  numbered hn := by
    refine ⟨fun k hk' => ?_, (h.numbered hn).generated, (h.numbered hn).stores⟩
    rcases List.mem_append.mp hk' with hk' | hk'
    · exact (h.numbered hn).persisted k hk'
    · rw [List.mem_singleton.mp hk']; exact hk

theorem generate_newKeys {c : Certificate} (h : NewKeys u w) (hu : u.keys.next ≤ c.key)
    (hk : c.key < w.keys.next) :
    NewKeys u { w with keys := { w.keys with generated := w.keys.generated ++ [c] } } where
  frame := h.frame.trans (.of_keys (.inl rfl) _)
  next := h.next
  persisted := h.persisted
  kept := fun c' hc' => List.mem_append_left _ (h.kept hc')
  generated c' hc' := by
    rcases List.mem_append.mp hc' with hc' | hc'
    · exact h.generated c' hc'
    · exact .inr (by rw [List.mem_singleton.mp hc']; exact hu)
  numbered hn := by
    refine ⟨(h.numbered hn).persisted, fun c' hc' => ?_, (h.numbered hn).stores⟩
    rcases List.mem_append.mp hc' with hc' | hc'
    · exact (h.numbered hn).generated c' hc'
    · rw [List.mem_singleton.mp hc']; exact hk

/-- `DestroySigningKey` forgets the certificate, and deletes the key if Windows lets it. -/
theorem destroySigningKey_spec (cert : SigningCert) (h : NewKeys u w) :
    wp exec (NewKeys u) (fun cert' w' => NewKeys u w' ∧
      cert' = { cert with key := none, context := none }) (destroySigningKey cert) w := by
  obtain ⟨context, key, keyName, encoded, thumbprint⟩ := cert
  cases key with
  | none => exact ⟨h, h, rfl⟩
  | some key =>
    refine ⟨h, fun o r w' he => ?_⟩
    obtain ⟨-, -, rfl⟩ | ⟨-, -, rfl⟩ := tried_eq_some.mp he
    · exact ⟨h.trans (deleteKey_newKeys key), h.trans (deleteKey_newKeys key), rfl⟩
    · exact ⟨h, h, rfl⟩

theorem abandon_spec (cert : SigningCert) (h : NewKeys u w) :
    wp exec (NewKeys u) (fun r _ => r = none) (abandon cert) w :=
  wp_seq (destroySigningKey_spec cert h) fun _ _ hw _ => ⟨hw, rfl⟩

/-- What `CreateSigningCert` returns. -/
def MadeIf (u : World) (r : Option SigningCert) (w' : World) : Prop :=
  ∀ cert, r = some cert → ∃ key c, Made u w' cert key c

theorem abandon_madeIf (cert : SigningCert) (h : NewKeys u w) :
    wp exec (NewKeys u) (MadeIf u) (abandon cert) w :=
  wp_post (fun _ _ _ hr cert hc => by simp [hr] at hc) (abandon_spec cert h)

theorem certify_spec {out : SigningCert} {key : Key} (h : NewKeys u w)
    (hout : out.key = some key) (hu : u.keys.next ≤ key.id) (hk : key.id < w.keys.next) :
    wp exec (NewKeys u) (MadeIf u) (certify out key) w := by
  simp only [certify, attempt, perform, Prog.perform_bind]
  refine wp_attempt h fun _ => wp_attempt h fun _ => wp_ite (fun _ => ?_) fun _ => abandon_madeIf _ h
  refine wp_attempt h fun _ => wp_ite (fun _ => ?_) fun _ => abandon_madeIf _ h
  refine wp_attempt h fun _ => wp_ite (fun _ => ⟨h, fun o r w' he => ?_⟩) fun _ => abandon_madeIf _ h
  cases o with
  | certificate hash =>
    simp only [exec, Option.some.injEq, Prod.mk.injEq] at he
    obtain ⟨rfl, rfl⟩ := he
    have hg := generate_newKeys (c := ⟨hash, key.id⟩) h hu hk
    refine wp_attempt hg fun _ => wp_ite (fun _ => ⟨hg, ?_⟩) fun _ => abandon_madeIf _ hg
    rintro cert ⟨⟩
    exact ⟨key, ⟨hash, key.id⟩, rfl, rfl, rfl, hout, rfl, hu, by simp⟩
  | fail =>
    simp only [exec, Option.some.injEq, Prod.mk.injEq] at he
    obtain ⟨rfl, rfl⟩ := he
    exact abandon_madeIf _ h
  | _ => simp [exec] at he

theorem createSigningCert_spec (machineKey : Bool) (w : World) :
    wp exec (NewKeys w) (MadeIf w) (createSigningCert machineKey) w := by
  have h := NewKeys.refl w
  have nothing : MadeIf w none w := fun _ hc => nomatch hc
  simp only [createSigningCert, attempt, perform, Prog.perform_bind]
  refine wp_attempt h fun _ => wp_ite (fun _ => ⟨h, fun o r w' he => ?_⟩) fun _ => ⟨h, nothing⟩
  obtain rfl : w = w' := by
    cases o <;> simp_all [exec]
  refine ⟨h, fun o r w' he => ?_⟩
  cases o with
  | ok =>
    simp only [exec] at he
    split at he
    · cases he
    simp only [Option.some.injEq, Prod.mk.injEq] at he
    obtain ⟨rfl, rfl⟩ := he
    have h' := persistedKey_newKeys w
    refine wp_attempt h' fun _ => wp_ite (fun _ => ⟨h', fun o r w' he => ?_⟩) fun _ =>
      abandon_madeIf _ h'
    obtain ⟨-, rfl, rfl⟩ | ⟨-, rfl, rfl⟩ := tried_eq_some.mp he
    · exact certify_spec (finalizeKey_newKeys _ h' (le_refl _) (Nat.lt_succ_self _)) rfl
        (le_refl _) (Nat.lt_succ_self _)
    · exact abandon_madeIf _ h'
  | fail =>
    simp only [exec, Option.some.injEq, Prod.mk.injEq] at he
    obtain ⟨rfl, rfl⟩ := he
    exact abandon_madeIf _ h
  | _ => simp [exec] at he


/-! ## Signed files -/

def SignedBy (w : World) (path : WString) (c : Certificate) : Prop :=
  ∃ f, w.machine.fileAt path = some f ∧ f.signer = some c

theorem Machine.fileAt_putFile (m : Machine) {f : File} {path : WString}
    (h : sameName f.path path = true) : (m.putFile f).fileAt path = some f := by
  simp [Machine.putFile, Machine.fileAt, h]

theorem Machine.sameName_fileAt {m : Machine} {f : File} {path : WString}
    (h : m.fileAt path = some f) : sameName f.path path = true :=
  List.find?_some (p := fun f : File => sameName f.path path) h

theorem signFile_spec {cert : SigningCert} {c : Certificate} (hc : cert.context = some c)
    (path : WString) (h : NewKeys u w) :
    wp exec (NewKeys u) (fun ok w' => w'.keys = w.keys ∧ (ok = true → SignedBy w' path c))
      (signFile cert path) w := by
  have failed : wp exec (NewKeys u)
      (fun ok w' => w'.keys = w.keys ∧ (ok = true → SignedBy w' path c)) (.ret false) w :=
    ⟨h, rfl, fun hf => nomatch hf⟩
  simp only [signFile, attempt, perform, Prog.perform_bind, hc]
  refine wp_attempt h fun _ => wp_ite (fun _ => ?_) fun _ => failed
  refine wp_attempt h fun _ => wp_attempt h fun _ => wp_ite (fun _ => ⟨h, fun o r w' he => ?_⟩) fun _ => failed
  have hw' : NewKeys u w' := h.trans (.of_frame (fun x hx => (Option.some.inj hx).symm) (exec_frame he))
  have hk : w'.keys = w.keys := (exec_frame he).keys (by simp [Call.effect])
  refine ⟨hw', hk, fun hr => ?_⟩
  simp only [exec] at he
  split at he
  · next f hf =>
    split at he
    · simp only [Option.some.injEq, Prod.mk.injEq] at he
      obtain ⟨-, rfl⟩ := he
      have hp : sameName f.path path = true := Machine.sameName_fileAt hf
      exact ⟨_, Machine.fileAt_putFile _ hp, rfl⟩
    · cases he
  · simp only [Option.some.injEq, Prod.mk.injEq] at he
    exact absurd (he.1.trans hr) (by simp)
  · cases he

theorem signFiles_spec {cert : SigningCert} {c : Certificate} (hc : cert.context = some c)
    (driverDir : WString) (h : NewKeys u w) :
    wp exec (NewKeys u)
      (fun ok w' => w'.keys = w.keys ∧ (ok = true → SignedBy w' (catPath driverDir) c))
      (signFiles cert driverDir) w := by
  refine wp_seq (signFile_spec hc _ h) fun ok v hv hk => wp_ite (fun _ => ?_) fun _ => ?_
  · refine wp_post (fun ok' w' _ hw' => ⟨hw'.1.trans hk.1, hw'.2⟩) (signFile_spec hc _ hv)
  · exact ⟨hv, hk.1, fun hf => nomatch hf⟩

/-! ## The whole step -/

/-- A certificate with which the driver in `driverDir` is signed. -/
structure Signed (w w' : World) (driverDir : WString) (cert : SigningCert) (c : Certificate) : Prop where
  encoded : cert.encoded = some c
  thumbprint : cert.thumbprint = hexUpper c.hash.bytes
  fresh : w.keys.next ≤ c.key
  generated : c ∈ w'.keys.generated
  catalog : SignedBy w' (catPath driverDir) c

/-- Windows did not delete a key. -/
def KeptKey (l : Log Call Outcome) : Prop := ∃ key, (Call.ncryptDeleteKey key, Outcome.fail) ∈ l

/-- The private key of the certificate is gone, unless Windows kept a key. -/
def KeyDropped (c : Certificate) (x : World × Log Call Outcome) : Prop :=
  (∀ k ∈ x.1.keys.persisted, k.id ≠ c.key) ∨ KeptKey x.2

theorem destroySigningKey_drops {cert : SigningCert} {key : Key} {l m : Log Call Outcome}
    (hc : cert.key = some key) (hl : l <+: m) (h : NewKeys u w) :
    wp exec.logged (fun x => NewKeys u x.1 ∧ l <+: x.2)
      (fun cert' x => x.1.machine = w.machine ∧ x.1.keys.generated = w.keys.generated ∧
        cert' = { cert with key := none, context := none } ∧
        ((∀ k ∈ x.1.keys.persisted, k.id ≠ key.id) ∨ KeptKey x.2))
      (destroySigningKey cert) (w, m) := by
  obtain ⟨context, _, keyName, encoded, thumbprint⟩ := cert
  obtain rfl : _ = some key := hc
  refine ⟨⟨h, hl⟩, fun o r x he => ?_⟩
  obtain ⟨v, hv, rfl⟩ := Exec.logged_eq_some.mp he
  have hm : l <+: m ++ [(Call.ncryptDeleteKey key, o)] := hl.trans (List.prefix_append _ _)
  obtain ⟨rfl, -, rfl⟩ | ⟨rfl, -, rfl⟩ := tried_eq_some.mp hv
  · exact ⟨⟨h.trans (deleteKey_newKeys key), hm⟩, rfl, rfl, rfl,
      .inl fun k hk => by simpa using (List.mem_filter.mp hk).2⟩
  · exact ⟨⟨h, hm⟩, rfl, rfl, rfl, .inr ⟨key, by simp⟩⟩

theorem signDriver_logged (driverDir : WString) (l : Log Call Outcome) (w : World) :
    wp exec.logged (fun x => NewKeys w x.1 ∧ l <+: x.2)
      (fun r x => ∀ cert, r = some cert → ∃ c, Signed w x.1 driverDir cert c ∧ KeyDropped c x)
      (signDriver driverDir) (w, l) := by
  refine wp_seq (wp_logged (List.prefix_refl l) (createSigningCert_spec true w)) ?_
  rintro (_ | cert) ⟨v, m⟩ ⟨hv, hm⟩ ⟨hmade, -⟩
  · exact ⟨⟨hv, hm⟩, fun _ hc => nomatch hc⟩
  · obtain ⟨key, c, hc⟩ := hmade cert rfl
    refine wp_seq (wp_logged hm (signFiles_spec hc.context driverDir hv)) ?_
    rintro ok ⟨v', m'⟩ ⟨hv', hm'⟩ ⟨⟨hk, hsigned⟩, -⟩
    refine wp_seq (destroySigningKey_drops hc.held hm' hv') ?_
    rintro cert' x hx ⟨hmachine, hgenerated, rfl, hdrop⟩
    refine ⟨hx, fun cert'' he => ?_⟩
    simp only [Option.ite_none_right_eq_some, Option.some.injEq] at he
    obtain ⟨rfl, rfl⟩ := he
    refine ⟨c, ⟨hc.encoded, hc.thumbprint, hc.fresh, ?_, ?_⟩, ?_⟩
    · rw [hgenerated, hk]
      exact hc.generated
    · obtain ⟨f, hf, hs⟩ := hsigned rfl
      exact ⟨f, by rw [hmachine]; exact hf, hs⟩
    · rw [KeyDropped, hc.number]
      exact hdrop

theorem signDriver_spec (driverDir : WString) (w : World) :
    wp exec (NewKeys w) (fun r w' => ∀ cert, r = some cert → ∃ c, Signed w w' driverDir cert c)
      (signDriver driverDir) w := by
  refine wp_unlogged (l := []) (wp_mono (fun _ hx => hx.1) (fun r x _ hx cert hc => ?_)
    (signDriver_logged driverDir [] w))
  obtain ⟨c, hc, -⟩ := hx cert hc
  exact ⟨c, hc⟩

end

end VirtualGun.Setup
