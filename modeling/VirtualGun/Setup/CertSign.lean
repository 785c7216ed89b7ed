import VirtualGun.Setup.Calls

/-!
# The signing certificate

`setup/cert_sign.cpp`: the key and the certificate of one install, and the certificate stores.
-/

open VirtualGun.Program

namespace VirtualGun.Setup

structure SigningCert where
  context : Option Certificate
  /-- The key handle, `none` where it is 0. -/
  key : Option Key
  keyName : WString
  /-- The public certificate, kept after the key is gone. -/
  encoded : Option Certificate
  thumbprint : WString
  deriving DecidableEq

/-- Deletes the private key. A deletion that fails is logged and forgotten. -/
def destroySigningKey (cert : SigningCert) : Flow SigningCert := do
  match cert.key with
  | some key =>
    let _ ← perform (.ncryptDeleteKey key)
    return { cert with key := none, context := none }
  | none => return { cert with context := none }

/-- The error branches of `CreateSigningCert`. -/
def abandon (cert : SigningCert) : Flow (Option SigningCert) := do
  let _ ← destroySigningKey cert
  return none

/-- The part of `CreateSigningCert` that has a key: `out` holds it. -/
def certify (out : SigningCert) (key : Key) : Flow (Option SigningCert) := do
  let _ ← attempt .certStrToName
  if ← attempt .certStrToName then
    if ← attempt .cryptEncodeObject then
      if ← attempt .cryptEncodeObject then
        match ← perform (.certCreateSelfSignCertificate key) with
        | some context =>
          let out := { out with context := some context, encoded := some context }
          if ← attempt .certGetCertificateContextProperty then
            return some { out with thumbprint := hexUpper context.hash.bytes }
          else abandon out
        | none => abandon out
      else abandon out
    else abandon out
  else abandon out

def createSigningCert (machineKey : Bool) : Flow (Option SigningCert) := do
  if ← attempt .ncryptOpenStorageProvider then
    let guidText ← perform .coCreateGuid
    let keyName := wide "VRLFVirtualGunSigning-" ++ guidText
    match ← perform (.ncryptCreatePersistedKey keyName machineKey) with
    | some key =>
      let out : SigningCert := ⟨none, some key, keyName, none, []⟩
      if ← attempt .ncryptSetProperty then
        if ← perform (.ncryptFinalizeKey key) then certify out key else abandon out
      else abandon out
    | none => abandon ⟨none, none, keyName, none, []⟩
  else return none

def signFile (cert : SigningCert) (path : WString) : Flow Bool := do
  if ← attempt .loadLibrary then
    let sign ← attempt .getProcAddress
    let freeContext ← attempt .getProcAddress
    if sign && freeContext then
      match cert.context with
      | some context => perform (.signerSignEx2 context path)
      | none => return false
    else return false
  else return false

/-! ## The stores -/

def storeNames : List StoreName := [.root, .trustedPublisher]

def trustIn (encoded : Option Certificate) : List StoreName → Flow Bool
  | [] => return true
  | store :: stores => do
    match ← perform (.certOpenStore store none) with
    | none => return false
    | some _ =>
      match encoded with
      | none => return false
      | some certificate =>
        if ← perform (.certAddEncodedCertificateToStore store certificate) then
          trustIn encoded stores
        else return false

def trustCertificate (encoded : Option Certificate) : Flow Bool := trustIn encoded storeNames

/-- The loop over one store. A round that goes on deletes a certificate, so that the number of
certificates in the store bounds the rounds. -/
def removeFound (store : StoreName) (hash : List Byte) : ℕ → Flow Unit
  | 0 => return ()
  | n + 1 => do
    match ← perform (.certFindCertificateInStore store hash) with
    | none => return ()
    | some found =>
      if ← perform (.certDeleteCertificateFromStore store found) then removeFound store hash n
      else return ()

def removeFrom (hash : List Byte) : List StoreName → Flow Unit
  | [] => return ()
  | store :: stores => do
    match ← perform (.certOpenStore store (some hash)) with
    | none => removeFrom hash stores
    | some size =>
      removeFound store hash (size + 1)
      removeFrom hash stores

def removeTrustedCertificate (thumbprint : WString) : Flow Unit := do
  if thumbprint.length = 40 then
    match hashBytes 20 thumbprint with
    | some hash => removeFrom hash storeNames
    | none =>
      -- `std::stoul` throws.
      let never ← perform .terminate
      return never.elim
  else return ()

/-! ## Effects -/

section
variable {effects : Effect → Prop}

attribute [local simp] Call.effect

theorem destroySigningKey_effects (h : effects .keys) (cert : SigningCert) :
    Effects effects (destroySigningKey cert) := by
  obtain ⟨_, _ | _, _, _, _⟩ := cert <;> simp [destroySigningKey, h]

theorem abandon_effects (h : effects .keys) (cert : SigningCert) :
    Effects effects (abandon cert) :=
  Prog.calls_bind (destroySigningKey_effects h cert) fun _ => trivial

theorem certify_effects (h : effects .keys) (out : SigningCert) (key : Key) :
    Effects effects (certify out key) := by
  simp only [certify, attempt, perform, Prog.perform_bind, Prog.calls_call]
  refine ⟨by simp, fun _ _ => ⟨by simp, fun _ _ => Prog.calls_ite (fun _ => ?_) fun _ => abandon_effects h _⟩⟩
  refine ⟨by simp, fun _ _ => Prog.calls_ite (fun _ => ?_) fun _ => abandon_effects h _⟩
  refine ⟨by simp, fun _ _ => Prog.calls_ite (fun _ => ⟨by simp [h], ?_⟩) fun _ => abandon_effects h _⟩
  rintro (_ | context) -
  · exact abandon_effects h _
  · exact ⟨by simp, fun _ _ => Prog.calls_ite (fun _ => trivial) fun _ => abandon_effects h _⟩

theorem createSigningCert_effects (h : effects .keys) (machineKey : Bool) :
    Effects effects (createSigningCert machineKey) := by
  simp only [createSigningCert, attempt, perform, Prog.perform_bind, Prog.calls_call]
  refine ⟨by simp, fun _ _ => Prog.calls_ite (fun _ => ⟨by simp, fun _ _ => ⟨by simp [h], ?_⟩⟩) fun _ => trivial⟩
  rintro (_ | key) -
  · exact abandon_effects h _
  · refine ⟨by simp, fun _ _ => Prog.calls_ite (fun _ => ⟨by simp [h], fun _ _ => ?_⟩) fun _ => abandon_effects h _⟩
    exact Prog.calls_ite (fun _ => certify_effects h _ _) fun _ => abandon_effects h _

theorem signFile_effects (h : effects .files) (cert : SigningCert) (path : WString) :
    Effects effects (signFile cert path) := by
  simp only [signFile, attempt, perform, Prog.perform_bind, Prog.calls_call]
  refine ⟨by simp, fun _ _ => Prog.calls_ite (fun _ => ?_) fun _ => trivial⟩
  refine ⟨by simp, fun _ _ => ⟨by simp, fun _ _ => ?_⟩⟩
  refine Prog.calls_ite (fun _ => ?_) fun _ => trivial
  cases cert.context <;> simp [Prog.perform, h]

theorem trustIn_effects (h : effects .trust) (encoded : Option Certificate) (stores : List StoreName) :
    Effects effects (trustIn encoded stores) := by
  induction stores with
  | nil => trivial
  | cons store stores ih =>
    simp only [trustIn, perform, Prog.perform_bind, Prog.calls_call]
    refine ⟨by simp, ?_⟩
    rintro (_ | size) -
    · trivial
    · cases encoded with
      | none => trivial
      | some certificate =>
        exact ⟨by simp [h], fun _ _ => Prog.calls_ite (fun _ => ih) fun _ => trivial⟩

theorem removeFound_effects (h : effects .untrust) (store : StoreName) (hash : List Byte) (n : ℕ) :
    Effects effects (removeFound store hash n) := by
  induction n with
  | zero => trivial
  | succ n ih =>
    simp only [removeFound, perform, Prog.perform_bind, Prog.calls_call]
    refine ⟨by simp, ?_⟩
    rintro (_ | found) -
    · trivial
    · exact ⟨by simp [h], fun _ _ => Prog.calls_ite (fun _ => ih) fun _ => trivial⟩

theorem removeFrom_effects (h : effects .untrust) (hash : List Byte) (stores : List StoreName) :
    Effects effects (removeFrom hash stores) := by
  induction stores with
  | nil => trivial
  | cons store stores ih =>
    simp only [removeFrom, perform, Prog.perform_bind, Prog.calls_call]
    refine ⟨by simp, ?_⟩
    rintro (_ | size) -
    · exact ih
    · exact Prog.calls_bind (removeFound_effects h _ _ _) fun _ => ih

theorem removeTrustedCertificate_effects (h : effects .untrust) (thumbprint : WString) :
    Effects effects (removeTrustedCertificate thumbprint) := by
  refine Prog.calls_ite (fun _ => ?_) fun _ => trivial
  cases hashBytes 20 thumbprint with
  | none => exact ⟨by simp, fun r => r.elim⟩
  | some hash => exact removeFrom_effects h _ _

end

/-! ## What is returned -/

/-- The certificate is the one that Windows generated, and the thumbprint is its hash. -/
def Generated (P : Certificate → Prop) (r : Option SigningCert) : Prop :=
  ∀ cert, r = some cert → ∃ c, cert.encoded = some c ∧ cert.thumbprint = hexUpper c.hash.bytes ∧ P c

section
variable {can : (c : Call) → c.Resp → Prop} {P : Certificate → Prop}

theorem destroySigningKey_ends (cert : SigningCert) :
    (destroySigningKey cert).Ends
      (fun cert' => cert' = { cert with key := none, context := none }) can := by
  obtain ⟨context, _ | key, keyName, encoded, thumbprint⟩ := cert
  · rfl
  · exact fun _ _ => rfl

theorem abandon_ends (cert : SigningCert) : (abandon cert).Ends (Generated P) can :=
  Prog.ends_bind (Prog.ends_true _) fun _ _ _ hc => nomatch hc

theorem certify_ends (hcan : ∀ key c, can (.certCreateSelfSignCertificate key) (some c) → P c)
    (out : SigningCert) (key : Key) : (certify out key).Ends (Generated P) can := by
  simp only [certify, attempt, perform, Prog.perform_bind, Prog.ends_call]
  refine fun _ _ _ _ => Prog.ends_ite (fun _ => ?_) fun _ => abandon_ends _
  refine fun _ _ => Prog.ends_ite (fun _ => ?_) fun _ => abandon_ends _
  refine fun _ _ => Prog.ends_ite (fun _ => ?_) fun _ => abandon_ends _
  rintro (_ | c) hc
  · exact abandon_ends _
  · refine fun _ _ => Prog.ends_ite (fun _ => ?_) fun _ => abandon_ends _
    rintro cert ⟨⟩
    exact ⟨c, rfl, rfl, hcan key c hc⟩

theorem createSigningCert_ends
    (hcan : ∀ key c, can (.certCreateSelfSignCertificate key) (some c) → P c) (machineKey : Bool) :
    (createSigningCert machineKey).Ends (Generated P) can := by
  have nothing : (.ret none : Flow (Option SigningCert)).Ends (Generated P) can :=
    fun _ hc => nomatch hc
  simp only [createSigningCert, attempt, perform, Prog.perform_bind, Prog.ends_call]
  refine fun _ _ => Prog.ends_ite (fun _ => ?_) fun _ => nothing
  rintro guid - (_ | key) -
  · exact abandon_ends _
  · refine fun _ _ => Prog.ends_ite (fun _ => ?_) fun _ => abandon_ends _
    exact fun _ _ => Prog.ends_ite (fun _ => certify_ends hcan _ _) fun _ => abandon_ends _

end

/-! ## What is not removed -/

/-- The certificates with another hash are still there. -/
def KeepsOthers (hash : List Byte) (w w' : World) : Prop :=
  ∀ store, ∀ c ∈ w.stores store, c.hash.bytes ≠ hash → c ∈ w'.stores store

section
variable {hash : List Byte} {u v w : World}

theorem KeepsOthers.refl (hash : List Byte) (w : World) : KeepsOthers hash w w :=
  fun _ _ hc _ => hc

theorem KeepsOthers.trans (h : KeepsOthers hash u v) (h' : KeepsOthers hash v w) :
    KeepsOthers hash u w :=
  fun store c hc hne => h' store c (h store c hc hne) hne

theorem removeFound_others (store : StoreName) (hash : List Byte) (n : ℕ) (w : World) :
    wp exec (KeepsOthers hash w) (fun _ => KeepsOthers hash w) (removeFound store hash n) w := by
  induction n generalizing w with
  | zero => exact ⟨.refl _ _, .refl _ _⟩
  | succ n ih =>
    simp only [removeFound, perform, Prog.perform_bind]
    refine ⟨.refl _ _, fun o r w' he => ?_⟩
    obtain ⟨ho, rfl⟩ := looked_eq_some.mp he
    cases r with
    | none => exact ⟨.refl _ _, .refl _ _⟩
    | some found =>
      have hfound : found.hash.bytes = hash := by
        rcases ho with ⟨-, hr⟩ | ⟨-, hr⟩
        · simpa using List.find?_some hr.symm
        · cases hr
      refine ⟨.refl _ _, fun o r v he => ?_⟩
      obtain ⟨-, rfl, rfl⟩ | ⟨-, rfl, rfl⟩ := tried_eq_some.mp he
      · have hk : KeepsOthers hash w' (w'.setStore store ((w'.stores store).erase found)) := by
          intro s c hc hne
          by_cases hs : s = store
          · subst hs
            have hc' : c ≠ found := fun e => hne (e ▸ hfound)
            simpa [World.setStore] using (List.mem_erase_of_ne hc').mpr hc
          · simpa [World.setStore, hs] using hc
        exact wp_mono (fun _ hv => hk.trans hv) (fun _ _ _ hv => hk.trans hv) (ih _)
      · exact ⟨.refl _ _, .refl _ _⟩

theorem removeFrom_others (hash : List Byte) (stores : List StoreName) (w : World) :
    wp exec (KeepsOthers hash w) (fun _ => KeepsOthers hash w) (removeFrom hash stores) w := by
  induction stores generalizing w with
  | nil => exact ⟨.refl _ _, .refl _ _⟩
  | cons store stores ih =>
    simp only [removeFrom, perform, Prog.perform_bind]
    refine ⟨.refl _ _, fun o r w' he => ?_⟩
    obtain ⟨-, rfl⟩ := looked_eq_some.mp he
    cases r with
    | none => exact ih _
    | some size =>
      refine wp_seq (removeFound_others store hash _ _) fun _ v _ hv => ?_
      exact wp_mono (fun _ hu => hv.trans hu) (fun _ _ _ hu => hv.trans hu) (ih v)

theorem removeTrustedCertificate_others {thumbprint : WString}
    (h : hashBytes 20 thumbprint = some hash) (w : World) :
    wp exec (KeepsOthers hash w) (fun _ => KeepsOthers hash w)
      (removeTrustedCertificate thumbprint) w := by
  refine wp_ite (fun _ => ?_) fun _ => ⟨.refl _ _, .refl _ _⟩
  rw [h]
  exact removeFrom_others hash storeNames w

end

end VirtualGun.Setup
