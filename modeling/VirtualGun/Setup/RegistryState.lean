import VirtualGun.Setup.Calls

/-!
# The state key

`setup/registry_state.cpp`.
-/

open VirtualGun.Program

namespace VirtualGun.Setup

def readString (name : ValueName) : Flow WString := do
  if ← perform (.regGetValueSize name) then
    match ← perform (.regGetValue name) with
    | some value => return cStr value
    | none => return []
  else return []

def readState : Flow (Option InstallState) := do
  if ← perform .regOpenKey then
    let version ← readString .version
    let installDir ← readString .installDir
    let certThumbprint ← readString .certThumbprint
    let driverInf ← readString .driverInf
    let pendingCertThumbprint ← readString .pendingCertThumbprint
    let pendingDriverInf ← readString .pendingDriverInf
    let previousCertThumbprint ← readString .previousCertThumbprint
    let previousDriverInf ← readString .previousDriverInf
    return some
      { version, installDir, certThumbprint, driverInf, pendingCertThumbprint, pendingDriverInf,
        previousCertThumbprint, previousDriverInf }
  else return none

def writeValue (name : ValueName) (value : WString) : Flow Bool := do
  if ← perform .regCreateKey then perform (.regSetValue name value) else return false

def deleteValue (name : ValueName) : Flow Unit := do
  let _ ← perform (.regDeleteKeyValue name)

def deleteState : Flow Unit := do
  let _ ← perform .regDeleteKey

/-! ## Effects -/

section
variable {effects : Effect → Prop}

attribute [local simp] Call.effect

theorem readString_effects (name : ValueName) : Effects effects (readString name) := by
  simp only [readString, perform, Prog.perform_bind, Prog.calls_call]
  refine ⟨by simp, fun r _ => Prog.calls_ite (fun _ => ⟨by simp, ?_⟩) fun _ => trivial⟩
  rintro (_ | value) - <;> trivial

theorem readState_effects : Effects effects readState := by
  simp only [readState, perform, Prog.perform_bind, Prog.calls_call]
  refine ⟨by simp, fun r _ => Prog.calls_ite (fun _ => ?_) fun _ => trivial⟩
  iterate 8 refine Prog.calls_bind (readString_effects _) fun _ => ?_
  trivial

theorem writeValue_effects (h : effects .registry) (name : ValueName) (value : WString) :
    Effects effects (writeValue name value) := by
  simp only [writeValue, perform, Prog.perform_bind, Prog.calls_call]
  exact ⟨by simp [h], fun _ _ => Prog.calls_ite (fun _ => by simp [Prog.perform, h]) fun _ => trivial⟩

theorem deleteValue_effects (h : effects .registry) (name : ValueName) :
    Effects effects (deleteValue name) := by
  simp [deleteValue, h]

theorem deleteState_effects (h : effects .registry) : Effects effects deleteState := by
  simp [deleteState, h]

end

/-! ## What is read and written -/

def InstallState.get (s : InstallState) : ValueName → WString
  | .version => s.version
  | .installDir => s.installDir
  | .certThumbprint => s.certThumbprint
  | .driverInf => s.driverInf
  | .pendingCertThumbprint => s.pendingCertThumbprint
  | .pendingDriverInf => s.pendingDriverInf
  | .previousCertThumbprint => s.previousCertThumbprint
  | .previousDriverInf => s.previousDriverInf

/-- The state as it is recorded. -/
def Reads (w : World) : Option InstallState → Prop
  | some s => ∀ name, s.get name = w.value name
  | none => ∀ name, w.value name = []

/-- The state that the state key holds. -/
def World.state (w : World) : InstallState where
  version := w.value .version
  installDir := w.value .installDir
  certThumbprint := w.value .certThumbprint
  driverInf := w.value .driverInf
  pendingCertThumbprint := w.value .pendingCertThumbprint
  pendingDriverInf := w.value .pendingDriverInf
  previousCertThumbprint := w.value .previousCertThumbprint
  previousDriverInf := w.value .previousDriverInf

theorem reads_state (w : World) : Reads w (some w.state) := fun name => by cases name <;> rfl

theorem Reads.frame {effects : Effect → Prop} {w w' : World} {state : Option InstallState}
    (h : Reads w state) (hf : Frame effects w w') (hn : ¬ effects .registry) : Reads w' state := by
  cases state with
  | none => exact fun n => (hf.value hn n).trans (h n)
  | some s => exact fun n => (h n).trans (hf.value hn n).symm

/-- `w'` is `w` but for the values of the state key. -/
structure Sets (w : World) (values : ValueName → WString) (w' : World) : Prop where
  stores : w'.stores = w.stores
  keys : w'.keys = w.keys
  packages : w'.packages = w.packages
  machine : w'.machine = w.machine
  value : ∀ name, w'.value name = values name

theorem Sets.refl (w : World) : Sets w w.value w := ⟨rfl, rfl, rfl, rfl, fun _ => rfl⟩

theorem createKey_sets (w : World) : Sets w w.value w.createKey :=
  ⟨rfl, rfl, rfl, rfl, w.value_createKey⟩

theorem setValue_sets (w : World) (name : ValueName) (v : WString) :
    Sets w (Function.update w.value name (cStr v)) (w.createKey.setValue name v) := by
  refine ⟨rfl, rfl, rfl, rfl, fun other => ?_⟩
  rw [World.value_setValue _ _ _ _ (by rfl), Function.update_apply, World.value_createKey]

theorem deleteValue_sets (w : World) (name : ValueName) :
    Sets w (Function.update w.value name []) (w.deleteValue name) :=
  ⟨rfl, rfl, rfl, rfl, fun other => by rw [World.value_deleteValue, Function.update_apply]⟩

section
variable {E : Exec Call Call.Resp Outcome World} {w : World}

theorem writeValue_spec (hE : E.Sub exec) (name : ValueName) (v : WString) :
    wp E (fun w' => Sets w w.value w' ∨ Sets w (Function.update w.value name (cStr v)) w')
      (fun ok w' => Sets w (if ok then Function.update w.value name (cStr v) else w.value) w')
      (writeValue name v) w := by
  refine wp_sub hE ?_
  simp only [writeValue, perform, Prog.perform_bind]
  refine ⟨.inl (.refl w), fun o r w' he => ?_⟩
  obtain ⟨-, rfl, rfl⟩ | ⟨-, rfl, rfl⟩ := tried_eq_some.mp he
  · refine ⟨.inl (createKey_sets w), fun o r w' he => ?_⟩
    obtain ⟨-, rfl, rfl⟩ | ⟨-, rfl, rfl⟩ := tried_eq_some.mp he
    · exact ⟨.inr (setValue_sets w name v), setValue_sets w name v⟩
    · exact ⟨.inl (createKey_sets w), createKey_sets w⟩
  · exact ⟨.inl (.refl _), .refl _⟩

theorem deleteValue_spec (hE : E.Sub exec) (name : ValueName) :
    wp E (fun w' => Sets w w.value w' ∨ Sets w (Function.update w.value name []) w')
      (fun _ w' => Sets w w.value w' ∨ Sets w (Function.update w.value name []) w')
      (deleteValue name) w := by
  refine wp_sub hE ⟨.inl (.refl w), fun o r w' he => ?_⟩
  obtain ⟨-, -, rfl⟩ | ⟨-, -, rfl⟩ := tried_eq_some.mp he
  · exact ⟨.inr (deleteValue_sets w name), .inr (deleteValue_sets w name)⟩
  · exact ⟨.inl (.refl _), .inl (.refl _)⟩

def Call.isRead : Call → Bool
  | .regOpenKey | .regGetValueSize _ | .regGetValue _ => true
  | _ => false

/-- No read of the state key fails. -/
def ReadsWell (E : Exec Call Call.Resp Outcome World) : Prop :=
  ∀ c o w x, c.isRead → E c o w = some x → o ≠ .fail

theorem readString_spec (hE : E.Sub exec) (hr : ReadsWell E) (name : ValueName) :
    wp E (· = w) (fun v _ => v = w.value name) (readString name) w := by
  simp only [readString, perform, Prog.perform_bind]
  refine ⟨rfl, fun o r w' he => ?_⟩
  obtain ⟨⟨-, rfl⟩ | ⟨rfl, -⟩, rfl⟩ := looked_eq_some.mp (hE _ _ _ _ he)
  · refine wp_ite (fun hs => ⟨rfl, fun o r w' he => ?_⟩) fun hn => ⟨rfl, ?_⟩
    · obtain ⟨⟨-, rfl⟩ | ⟨rfl, -⟩, rfl⟩ := looked_eq_some.mp (hE _ _ _ _ he)
      · obtain ⟨v, hv⟩ := Option.isSome_iff_exists.mp hs
        simp only [World.value, hv]
        exact ⟨rfl, rfl⟩
      · exact absurd rfl (hr _ _ _ _ rfl he)
    · simp only [Bool.not_eq_true, Option.isSome_eq_false_iff, Option.isNone_iff_eq_none] at hn
      simp [World.value, hn, cStr]
  · exact absurd rfl (hr _ _ _ _ rfl he)

theorem readState_spec (hE : E.Sub exec) (hr : ReadsWell E) :
    wp E (· = w) (fun s _ => Reads w s) readState w := by
  simp only [readState, perform, Prog.perform_bind]
  refine ⟨rfl, fun o r w' he => ?_⟩
  obtain ⟨⟨-, rfl⟩ | ⟨rfl, -⟩, rfl⟩ := looked_eq_some.mp (hE _ _ _ _ he)
  · refine wp_ite (fun _ => ?_) fun hn => ⟨rfl, fun name => ?_⟩
    · refine wp_seq (readString_spec hE hr .version) ?_
      rintro _ _ rfl rfl
      refine wp_seq (readString_spec hE hr .installDir) ?_
      rintro _ _ rfl rfl
      refine wp_seq (readString_spec hE hr .certThumbprint) ?_
      rintro _ _ rfl rfl
      refine wp_seq (readString_spec hE hr .driverInf) ?_
      rintro _ _ rfl rfl
      refine wp_seq (readString_spec hE hr .pendingCertThumbprint) ?_
      rintro _ _ rfl rfl
      refine wp_seq (readString_spec hE hr .pendingDriverInf) ?_
      rintro _ _ rfl rfl
      refine wp_seq (readString_spec hE hr .previousCertThumbprint) ?_
      rintro _ _ rfl rfl
      refine wp_seq (readString_spec hE hr .previousDriverInf) ?_
      rintro _ _ rfl rfl
      exact ⟨rfl, fun name => by cases name <;> rfl⟩
    · simp only [Bool.not_eq_true, Option.isSome_eq_false_iff, Option.isNone_iff_eq_none] at hn
      simp [World.value, hn, cStr]
  · exact absurd rfl (hr _ _ _ _ rfl he)

end

/-! ## Reads that may fail -/

/-- Each value of the state is one as it was read, or could not be read. -/
def Recalls (w : World) (s : InstallState) : Prop :=
  ∀ name, s.get name = [] ∨ s.get name = w.value name

theorem Recalls.value {w : World} {s : InstallState} (h : Recalls w s) (name : ValueName)
    (hne : s.get name ≠ []) : s.get name = w.value name :=
  (h name).resolve_left hne

section
variable {O W : Type} {E : Exec Call Call.Resp O W} {J : W → Prop} {u : World} {x : W}

/-- Every read finds the values that `u` has, whatever else happens. -/
def ReadsFrom (E : Exec Call Call.Resp O W) (J : W → Prop) (u : World) : Prop :=
  ∀ c o x r y, c.isRead → J x → E c o x = some (r, y) →
    J y ∧ ∃ o' v v', v.value = u.value ∧ exec c o' v = some (r, v')

theorem readString_recalls (h : ReadsFrom E J u) (name : ValueName) (hx : J x) :
    wp E J (fun s _ => s = [] ∨ s = u.value name) (readString name) x := by
  simp only [readString, perform, Prog.perform_bind]
  refine ⟨hx, fun o r y he => ?_⟩
  have hy := (h _ _ _ _ _ rfl hx he).1
  refine wp_ite (fun _ => ⟨hy, fun o r z he => ?_⟩) fun _ => ⟨hy, .inl rfl⟩
  obtain ⟨hz, o', v, v', hv, hexec⟩ := h _ _ _ _ _ rfl hy he
  obtain ⟨⟨-, rfl⟩ | ⟨-, rfl⟩, -⟩ := looked_eq_some.mp hexec
  · cases hr : v.registry.bind fun values => values name with
    | none => exact ⟨hz, .inl rfl⟩
    | some s =>
      refine ⟨hz, .inr ?_⟩
      rw [← hv]
      unfold World.value
      rw [hr]
      rfl
  · exact ⟨hz, .inl rfl⟩

theorem readState_recalls (h : ReadsFrom E J u) (hx : J x) :
    wp E J (fun state _ => ∀ s, state = some s → Recalls u s) readState x := by
  simp only [readState, perform, Prog.perform_bind]
  refine ⟨hx, fun o r y he => ?_⟩
  have hy := (h _ _ _ _ _ rfl hx he).1
  refine wp_ite (fun _ => ?_) fun _ => ⟨hy, fun _ hs => by cases hs⟩
  refine wp_seq (readString_recalls h .version hy) fun _ _ h₁ r₁ => ?_
  refine wp_seq (readString_recalls h .installDir h₁) fun _ _ h₂ r₂ => ?_
  refine wp_seq (readString_recalls h .certThumbprint h₂) fun _ _ h₃ r₃ => ?_
  refine wp_seq (readString_recalls h .driverInf h₃) fun _ _ h₄ r₄ => ?_
  refine wp_seq (readString_recalls h .pendingCertThumbprint h₄) fun _ _ h₅ r₅ => ?_
  refine wp_seq (readString_recalls h .pendingDriverInf h₅) fun _ _ h₆ r₆ => ?_
  refine wp_seq (readString_recalls h .previousCertThumbprint h₆) fun _ _ h₇ r₇ => ?_
  refine wp_seq (readString_recalls h .previousDriverInf h₇) fun _ _ h₈ r₈ => ?_
  refine ⟨h₈, ?_⟩
  rintro _ ⟨⟩ (_ | _)
  all_goals assumption

theorem readsFrom_eq {E : Exec Call Call.Resp Outcome World} (hE : E.Sub exec) (w : World) :
    ReadsFrom E (· = w) w := by
  rintro c o x r y hc rfl he
  have hx := hE _ _ _ _ he
  refine ⟨?_, o, x, y, rfl, hx⟩
  cases c <;> simp only [Call.isRead, Bool.false_eq_true] at hc <;> exact (looked_eq_some.mp hx).2

end

end VirtualGun.Setup
