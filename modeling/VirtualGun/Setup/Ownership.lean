import VirtualGun.Setup.Uninstall
import VirtualGun.Program.Interference

/-!
# Whose packages setup deletes

Setup knows a package by the published name that it recorded. Other programs stage and remove packages
of their own, and a name is free again as soon as its package is gone.
-/

open VirtualGun.Program

namespace VirtualGun.Setup

/-! ## Other programs -/

/-- What another program does to the driver store. -/
inductive Other where
  | stage (published : WString) (inf : List Byte) (signer : Option Certificate)
  | remove (package : Package)

/-- A new package comes under a name that is not in use; only what others staged is removed. -/
def Other.act : Other → World → Option World
  | .stage published inf signer, w =>
    if w.FreshName published ∧ ∀ p ∈ w.packages, p.inf ≠ inf then
      some { w with packages := w.packages ++ [⟨published, inf, signer, false⟩] }
    else none
  | .remove package, w =>
    if package ∈ w.packages ∧ package.ours = false then
      some { w with packages := w.packages.erase package }
    else none

/-- The packages that a call deletes. -/
def deletedBy : Call → Outcome → World → List Package
  | .setupUninstallOEMInf published, .ok, w => w.packages.filter fun p => sameName p.published published
  | _, _, _ => []

/-- The calls of setup, beside the list of the packages they have deleted. -/
def deletingExec : Exec Call Call.Resp Outcome (World × List Package) :=
  fun c o x => (exec c o x.1).map fun y => (y.1, y.2, x.2 ++ deletedBy c o x.1)

/-- Setup shares the driver store. Others do what `ok` lets them do, and setup's calls come back as
`okCall` lets them. -/
def sharedExec (ok : Other → World → Bool) (okCall : Call → Outcome → World → Bool) :
    Exec Call Call.Resp (List Other × Outcome) (World × List Package) :=
  (deletingExec.within fun c o x => okCall c o x.1).amid fun a x =>
    if ok a x.1 then (a.act x.1).map (·, x.2) else none

def sharedSetup (ok : Other → World → Bool) (okCall : Call → Outcome → World → Bool) :
    System Event Call Call.Resp (List Other × Outcome) (World × List Package) ℕ where
  exec := sharedExec ok okCall
  arrive := fun event x => (arrive event x.1).map (·, x.2)
  handler := handler

/-- The state key names a package by the name. -/
def Recorded (w : World) (name : WString) : Prop :=
  ∃ s, w.value (infName s) ≠ [] ∧ sameName name (w.value (infName s))

instance (w : World) (name : WString) : Decidable (Recorded w name) :=
  decidable_of_iff ([Slot.current, .pending, .previous].any fun s =>
    !(w.value (infName s)).isEmpty && sameName name (w.value (infName s))) (by
      unfold Recorded
      constructor
      · intro h
        obtain ⟨s, -, hs⟩ := List.any_eq_true.mp h
        rw [Bool.and_eq_true, Bool.not_eq_true', List.isEmpty_eq_false_iff] at hs
        exact ⟨s, hs⟩
      · rintro ⟨s, hs⟩
        refine List.any_eq_true.mpr ⟨s, by cases s <;> simp, ?_⟩
        rw [Bool.and_eq_true, Bool.not_eq_true', List.isEmpty_eq_false_iff]
        exact hs)

/-- No other program's package comes under a recorded name. -/
def sparesRecorded : Other → World → Bool
  | .stage published _ _, w => !decide (Recorded w published)
  | .remove _, _ => true

/-- `SetupCopyOEMInf` does not hand back a package that another program staged. -/
def handsBackOwn : Call → Outcome → World → Bool
  | .setupCopyOEMInf _, .kept name, w => w.packages.all fun p => !sameName p.published name || p.ours
  | _, _, _ => true

/-- The calls of setup, where no recorded name is reused. -/
abbrev sparingExec : Exec Call Call.Resp (List Other × Outcome) (World × List Package) :=
  sharedExec sparesRecorded handsBackOwn

/-! ## What is recorded is setup's -/

/-- Every package with the name was staged by setup. -/
def OursNamed (w : World) (name : WString) : Prop :=
  ∀ p ∈ w.packages, sameName p.published name → p.ours = true

/-- Setup deleted its own packages only, and its names name its own packages only. -/
structure OwnInv (x : World × List Package) : Prop where
  deleted : ∀ p ∈ x.2, p.ours = true
  apart : ∀ p ∈ x.1.packages, ∀ q ∈ x.1.packages, p.ours = true → sameName q.published p.published →
    q.ours = true
  recorded : ∀ name, Recorded x.1 name → OursNamed x.1 name

/-- The state key is as it was, and setup's packages are there. -/
structure Beside (x y : World × List Package) : Prop where
  value : y.1.value = x.1.value
  ours : ∀ p ∈ x.1.packages, p.ours = true → p ∈ y.1.packages

/-- Setup's own package is there under the name. -/
def Holds (w : World) (name : WString) : Prop :=
  ∃ p ∈ w.packages, p.ours = true ∧ sameName p.published name

/-- A name that setup may unstage. -/
def Owned (w : World) (name : WString) : Prop := Recorded w name ∨ Holds w name

section
variable {x y z : World × List Package} {w w' : World}

theorem Beside.refl (x : World × List Package) : Beside x x := ⟨rfl, fun _ hp _ => hp⟩

theorem Beside.trans (h : Beside x y) (h' : Beside y z) : Beside x z :=
  ⟨h'.value.trans h.value, fun p hp ho => h'.ours p (h.ours p hp ho) ho⟩

theorem recorded_value (hv : w'.value = w.value) (name : WString) :
    Recorded w' name ↔ Recorded w name := by
  unfold Recorded
  rw [hv]

theorem Holds.grow {name : WString} (h : Holds w name)
    (hours : ∀ p ∈ w.packages, p.ours = true → p ∈ w'.packages) : Holds w' name := by
  obtain ⟨p, hp, ho, hn⟩ := h
  exact ⟨p, hours p hp ho, ho, hn⟩

theorem Owned.beside {name : WString} (h : Owned x.1 name) (hb : Beside x y) : Owned y.1 name :=
  h.imp (recorded_value hb.value name).mpr fun h => h.grow hb.ours

theorem sameName_trans {a b c : WString} (h : sameName a b) (h' : sameName c b) : sameName a c := by
  rw [sameName_iff] at h h' ⊢
  rw [h, h']

theorem OwnInv.oursNamed {name : WString} (h : OwnInv x) (ho : Owned x.1 name) :
    OursNamed x.1 name := by
  rcases ho with ho | ⟨p, hp, ho, hn⟩
  · exact h.recorded name ho
  · exact fun q hq hs => h.apart p hp q hq ho (sameName_trans hs hn)

theorem OwnInv.subset (h : OwnInv x) (hv : w.value = x.1.value) (hs : w.packages ⊆ x.1.packages)
    {deleted : List Package} (hd : ∀ p ∈ deleted, p.ours = true) : OwnInv (w, deleted) where
  deleted := hd
  apart p hp q hq := h.apart p (hs hp) q (hs hq)
  recorded name hr p hp := h.recorded name ((recorded_value hv name).mp hr) p (hs hp)

theorem OwnInv.append {p : Package} (h : OwnInv x) (hfresh : x.1.FreshName p.published)
    (hrecorded : p.ours = true ∨ ¬ Recorded x.1 p.published) :
    OwnInv ({ x.1 with packages := x.1.packages ++ [p] }, x.2) where
  deleted := h.deleted
  apart q hq r hr ho hs := by
    rcases List.mem_append.mp hq with hq | hq <;> rcases List.mem_append.mp hr with hr | hr
    · exact h.apart q hq r hr ho hs
    · rw [List.mem_singleton.mp hr] at hs
      rw [sameName_iff] at hs
      exact absurd ((sameName_iff _ _).mpr hs.symm) (hfresh.2.2 q hq)
    · rw [List.mem_singleton.mp hq] at hs
      exact absurd hs (hfresh.2.2 r hr)
    · rw [List.mem_singleton.mp hr, ← List.mem_singleton.mp hq]
      exact ho
  recorded name hname q hq hs := by
    rcases List.mem_append.mp hq with hq | hq
    · exact h.recorded name hname q hq hs
    · rw [List.mem_singleton.mp hq] at hs ⊢
      refine hrecorded.resolve_right fun hn => hn ?_
      obtain ⟨s, hne, hsame⟩ := hname
      rw [sameName_iff] at hs hsame
      exact ⟨s, hne, (sameName_iff _ _).mpr (hs.trans hsame)⟩

theorem other_step (a : Other) (x y : World × List Package) (h : OwnInv x)
    (ha : (if sparesRecorded a x.1 then (a.act x.1).map (·, x.2) else none) = some y) :
    OwnInv y ∧ Beside x y := by
  split at ha
  rotate_left
  · cases ha
  next hok =>
  obtain ⟨w, hw, rfl⟩ := Option.map_eq_some_iff.mp ha
  cases a with
  | stage published inf signer =>
    simp only [Other.act] at hw
    split at hw
    · next hfresh =>
      obtain rfl := Option.some.inj hw
      have hn : ¬ Recorded x.1 published := by simpa [sparesRecorded] using hok
      refine ⟨h.append (p := ⟨published, inf, signer, false⟩) hfresh.1 (.inr hn), rfl, fun p hp _ => ?_⟩
      exact List.mem_append_left _ hp
    · cases hw
  | remove package =>
    simp only [Other.act] at hw
    split at hw
    · next hforeign =>
      obtain rfl := Option.some.inj hw
      refine ⟨h.subset (by rfl) List.erase_subset h.deleted, rfl, fun p hp ho => ?_⟩
      refine (List.mem_erase_of_ne ?_).mpr hp
      rintro rfl
      rw [hforeign.2] at ho
      cases ho
    · cases hw

/-- Others come first; then the call finds what setup relies on. -/
theorem sparing_call {c : Call} {o : List Other × Outcome} {r : c.Resp} (h : OwnInv x)
    (he : sparingExec c o x = some (r, y)) :
    ∃ v, OwnInv v ∧ Beside x v ∧ handsBackOwn c o.2 v.1 = true ∧ exec c o.2 v.1 = some (r, y.1) ∧
      y.2 = v.2 ++ deletedBy c o.2 v.1 := by
  obtain ⟨v, hv, hb, hx⟩ := Exec.amid_cases Beside.refl Beside.trans other_step h he
  obtain ⟨hok, hd⟩ := Exec.within_eq_some.mp hx
  obtain ⟨⟨r', w'⟩, hexec, hy⟩ := Option.map_eq_some_iff.mp hd
  simp only [Prod.mk.injEq] at hy
  obtain ⟨rfl, rfl⟩ := hy
  exact ⟨v, hv, hb, hok, hexec, rfl⟩

/-! ## Steps -/

/-- The effects that touch neither the state key nor the driver store. -/
abbrev Elsewhere : Effect → Prop := fun e => e ≠ .registry ∧ e ≠ .stage ∧ e ≠ .unstage

theorem deletedBy_nil {c : Call} (o : Outcome) (w : World) (hc : c.effect ≠ some .unstage) :
    deletedBy c o w = [] := by
  cases c with
  | setupUninstallOEMInf => exact absurd rfl hc
  | _ => rfl

theorem mem_deletedBy {name : WString} {o : Outcome} {p : Package}
    (h : p ∈ deletedBy (.setupUninstallOEMInf name) o w) : p ∈ w.packages ∧ sameName p.published name := by
  cases o <;> simp only [deletedBy, List.not_mem_nil] at h
  exact List.mem_filter.mp h

theorem elsewhere_call {c : Call} {o : List Other × Outcome} {r : c.Resp} (h : OwnInv x)
    (hc : ∀ e, c.effect = some e → Elsewhere e) (he : sparingExec c o x = some (r, y)) :
    OwnInv y ∧ Beside x y := by
  obtain ⟨v, hv, hb, -, hx, hy⟩ := sparing_call h he
  have hn : ∀ e, ¬ Elsewhere e → c.effect ≠ some e := fun e hne he => hne (hc e he)
  have hf := exec_frame hx
  have hvalue : y.1.value = v.1.value := funext fun n => hf.value (hn .registry (by decide)) n
  have hpackages := hf.packages (hn .stage (by decide)) (hn .unstage (by decide))
  rw [deletedBy_nil _ _ (hn .unstage (by decide)), List.append_nil] at hy
  have hsub : y.1.packages ⊆ v.1.packages := by
    rw [hpackages]
    exact List.Subset.refl _
  have hinv : OwnInv (y.1, v.2) := hv.subset hvalue hsub hv.deleted
  rw [← hy] at hinv
  refine ⟨hinv, hb.trans ⟨hvalue, fun p hp _ => ?_⟩⟩
  rw [hpackages]
  exact hp

theorem elsewhere_run {α : Type} {p : Flow α} (hp : Effects Elsewhere p) (h : OwnInv x) :
    wp sparingExec OwnInv (fun _ y => Beside x y) p x := by
  have hframe : wp sparingExec (fun y => OwnInv y ∧ Beside x y) (fun _ _ => True) p x := by
    refine wp_frame Beside.refl Beside.trans (fun hJ hc he => ?_) h hp
    exact ⟨trivial, elsewhere_call hJ hc he⟩
  exact wp_mono (fun _ hy => hy.1) (fun _ _ hy _ => hy.2) hframe

theorem elsewhere_end {α : Type} {p : Flow α} (hp : Effects Elsewhere p) (h : OwnInv x) :
    wp sparingExec OwnInv (fun _ _ => True) p x :=
  wp_post (fun _ _ _ _ => trivial) (elsewhere_run hp h)

theorem unstagePackage_own {name : WString} (h : OwnInv x) (ho : name = [] ∨ Owned x.1 name) :
    wp sparingExec OwnInv (fun _ y => y.1.value = x.1.value) (unstagePackage name) x := by
  refine wp_ite (fun _ => ⟨h, rfl⟩) fun hne => ⟨h, fun o r y he => ?_⟩
  obtain ⟨v, hv, hb, -, hx, hy⟩ := sparing_call h he
  have hown := hv.oursNamed ((ho.resolve_left hne).beside hb)
  have hvalue : y.1.value = v.1.value := funext fun n => (exec_frame hx).value (by simp [Call.effect]) n
  have hsub : y.1.packages ⊆ v.1.packages := (exec_frame hx).unstages (by simp [Call.effect])
  have hdeleted : ∀ p ∈ y.2, p.ours = true := by
    intro p hp
    rw [hy] at hp
    rcases List.mem_append.mp hp with hp | hp
    · exact hv.deleted p hp
    · obtain ⟨hp, hs⟩ := mem_deletedBy hp
      exact hown p hp hs
  exact ⟨hv.subset hvalue hsub hdeleted, hvalue.trans hb.value⟩

theorem OwnInv.forget (h : OwnInv x) (hp : w.packages = x.1.packages)
    (hr : ∀ name, Recorded w name → OursNamed x.1 name) : OwnInv (w, x.2) where
  deleted := h.deleted
  apart := by
    rw [hp]
    exact h.apart
  recorded name hname := by
    unfold OursNamed
    rw [hp]
    exact hr name hname

theorem OwnInv.write {name : ValueName} {v : WString} (h : OwnInv x) (hp : w.packages = x.1.packages)
    (hv : w.value = x.1.value ∨ w.value = Function.update x.1.value name (cStr v))
    (ho : (∀ s, infName s ≠ name) ∨ v = [] ∨ Owned x.1 v) : OwnInv (w, x.2) := by
  apply h.forget hp
  rcases hv with hv | hv
  · exact fun other hr => h.recorded other ((recorded_value hv other).mp hr)
  rintro other ⟨s, hne, hs⟩
  rw [hv] at hne hs
  by_cases hname : infName s = name
  · rw [hname, Function.update_self] at hne hs
    rcases ho with ho | rfl | ho
    · exact absurd hname (ho s)
    · exact absurd rfl hne
    · intro p hp hs'
      refine h.oursNamed ho p hp ?_
      rw [sameName_iff] at hs hs' ⊢
      rw [hs', hs, foldCase_cStr]
  · rw [Function.update_of_ne hname] at hne hs
    exact h.recorded other ⟨s, hne, hs⟩

/-- `y` is `x` but for the value with the name. -/
structure Writes (name : ValueName) (x y : World × List Package) : Prop where
  others : ∀ other, other ≠ name → y.1.value other = x.1.value other
  ours : ∀ p ∈ x.1.packages, p.ours = true → p ∈ y.1.packages

theorem Beside.writes {name : ValueName} (h : Beside x y) : Writes name x y :=
  ⟨fun _ _ => by rw [h.value], h.ours⟩

theorem Writes.trans {name : ValueName} (h : Writes name x y) (h' : Writes name y z) :
    Writes name x z :=
  ⟨fun n hn => (h'.others n hn).trans (h.others n hn), fun p hp ho => h'.ours p (h.ours p hp ho) ho⟩

theorem value_setValue_cases (w : World) (name : ValueName) (v : WString) :
    (w.setValue name v).value = w.value ∨
      (w.setValue name v).value = Function.update w.value name (cStr v) := by
  cases h : w.registry with
  | none =>
    left
    unfold World.value World.setValue
    rw [h]
    rfl
  | some values =>
    right
    funext other
    rw [World.value_setValue _ _ _ _ (by rw [h]; rfl), Function.update_apply]

theorem writes_of_value {name : ValueName} {v : WString} (hp : y.1.packages = x.1.packages)
    (hv : y.1.value = x.1.value ∨ y.1.value = Function.update x.1.value name v) : Writes name x y := by
  refine ⟨fun other hn => ?_, fun p hm _ => hp ▸ hm⟩
  rcases hv with hv | hv
  · rw [hv]
  · rw [hv, Function.update_of_ne hn]

theorem writeValue_own {name : ValueName} (v : WString) (h : OwnInv x)
    (ho : (∀ s, infName s ≠ name) ∨ v = [] ∨ Owned x.1 v) :
    wp sparingExec OwnInv (fun _ y => Writes name x y) (writeValue name v) x := by
  simp only [writeValue, perform, Prog.perform_bind]
  refine ⟨h, fun o r y he => ?_⟩
  obtain ⟨u, hu, hb, -, hx, hy⟩ := sparing_call h he
  have hvalue : y.1.value = u.1.value := by
    obtain ⟨-, -, hw⟩ | ⟨-, -, hw⟩ := tried_eq_some.mp hx <;> rw [hw]
    exact funext fun n => World.value_createKey _ n
  have hpackages : y.1.packages = u.1.packages :=
    (exec_frame hx).packages (by simp [Call.effect]) (by simp [Call.effect])
  obtain ⟨y, deleted⟩ := y
  obtain rfl : deleted = u.2 := by simpa [deletedBy] using hy
  have hbeside : Beside x (y, u.2) := hb.trans ⟨hvalue, fun p hp _ => hpackages ▸ hp⟩
  have hinv : OwnInv (y, u.2) :=
    hu.forget hpackages fun other hr => hu.recorded other ((recorded_value hvalue other).mp hr)
  refine wp_ite (fun _ => ⟨hinv, fun o r z he => ?_⟩) fun _ => ⟨hinv, hbeside.writes⟩
  obtain ⟨u', hu', hb', -, hx', hz⟩ := sparing_call hinv he
  have ho' := ho.imp_right fun ho => ho.imp_right fun ho => (ho.beside hbeside).beside hb'
  have hpackages' : z.1.packages = u'.1.packages :=
    (exec_frame hx').packages (by simp [Call.effect]) (by simp [Call.effect])
  have hvalue' : z.1.value = u'.1.value ∨ z.1.value = Function.update u'.1.value name (cStr v) := by
    obtain ⟨-, -, hw⟩ | ⟨-, -, hw⟩ := tried_eq_some.mp hx' <;> rw [hw]
    · exact value_setValue_cases _ name v
    · exact .inl rfl
  obtain ⟨z, deleted⟩ := z
  obtain rfl : deleted = u'.2 := by simpa [deletedBy] using hz
  refine ⟨hu'.write hpackages' hvalue' ho', ?_⟩
  exact (hbeside.trans hb').writes.trans (writes_of_value hpackages' hvalue')

theorem deleteValue_own (name : ValueName) (h : OwnInv x) :
    wp sparingExec OwnInv (fun _ y => Writes name x y) (deleteValue name) x := by
  refine ⟨h, fun o r y he => ?_⟩
  obtain ⟨u, hu, hb, -, hx, hy⟩ := sparing_call h he
  have hpackages : y.1.packages = u.1.packages :=
    (exec_frame hx).packages (by simp [Call.effect]) (by simp [Call.effect])
  have hvalue : y.1.value = u.1.value ∨ y.1.value = Function.update u.1.value name (cStr []) := by
    obtain ⟨-, -, hw⟩ | ⟨-, -, hw⟩ := tried_eq_some.mp hx <;> rw [hw]
    · exact .inr (funext fun n => (deleteValue_sets u.1 name).value n)
    · exact .inl rfl
  obtain ⟨y, deleted⟩ := y
  obtain rfl : deleted = u.2 := by simpa [deletedBy] using hy
  exact ⟨hu.write hpackages hvalue (.inr (.inl rfl)), hb.writes.trans (writes_of_value hpackages hvalue)⟩

theorem deleteState_own (h : OwnInv x) :
    wp sparingExec OwnInv (fun _ _ => True) deleteState x := by
  refine ⟨h, fun o r y he => ?_⟩
  obtain ⟨u, hu, -, -, hx, hy⟩ := sparing_call h he
  have hpackages : y.1.packages = u.1.packages :=
    (exec_frame hx).packages (by simp [Call.effect]) (by simp [Call.effect])
  have hrecorded : ∀ name, Recorded y.1 name → OursNamed u.1 name := by
    obtain ⟨-, -, hw⟩ | ⟨-, -, hw⟩ := tried_eq_some.mp hx <;> rw [hw]
    · rintro name ⟨s, hne, -⟩
      exact absurd rfl hne
    · exact hu.recorded
  obtain ⟨y, deleted⟩ := y
  obtain rfl : deleted = u.2 := by simpa [deletedBy] using hy
  exact ⟨hu.forget hpackages hrecorded, trivial⟩

theorem owned_of_value {name : WString} (slot : Slot) (h : name = [] ∨ name = w.value (infName slot)) :
    name = [] ∨ Owned w name := by
  by_cases hn : name = []
  · exact .inl hn
  · have hv := h.resolve_left hn
    refine .inr (.inl ⟨slot, ?_, ?_⟩) <;> rw [← hv]
    · exact hn
    · rw [sameName_iff]

theorem Recalls.owned {s : InstallState} (h : Recalls w s) (slot : Slot)
    (hv : w'.value (infName slot) = w.value (infName slot)) :
    s.get (infName slot) = [] ∨ Owned w' (s.get (infName slot)) :=
  owned_of_value slot ((h _).imp_right fun hs => hs.trans hv.symm)

theorem readsFrom_own (x : World × List Package) :
    ReadsFrom sparingExec (fun y => OwnInv y ∧ Beside x y) x.1 := by
  rintro c o y r z hc ⟨hy, hb⟩ he
  have heffect : ∀ e, c.effect = some e → Elsewhere e := by
    cases c <;> simp [Call.isRead, Call.effect] at hc ⊢
  obtain ⟨hz, hbz⟩ := elsewhere_call hy heffect he
  obtain ⟨v, -, hbv, -, hx, -⟩ := sparing_call hy he
  exact ⟨⟨hz, hb.trans hbz⟩, o.2, v.1, z.1, (hb.trans hbv).value, hx⟩

theorem readState_own (h : OwnInv x) :
    wp sparingExec OwnInv (fun state y => Beside x y ∧ ∀ s, state = some s → Recalls x.1 s)
      readState x :=
  wp_mono (fun _ hy => hy.1) (fun _ _ hy hs => ⟨hy.2, hs⟩)
    (readState_recalls (readsFrom_own x) ⟨h, .refl x⟩)

theorem stagePackage_own (inf : WString) (h : OwnInv x) :
    wp sparingExec OwnInv (fun published y => Beside x y ∧ ∀ name, published = some name →
      Holds y.1 name) (stagePackage inf) x := by
  refine ⟨h, fun o r y he => ?_⟩
  obtain ⟨u, hu, hb, hok, hx, hy⟩ := sparing_call h he
  have hvalue : y.1.value = u.1.value :=
    funext fun n => (exec_frame hx).value (by simp [Call.effect]) n
  obtain ⟨y, deleted⟩ := y
  obtain rfl : deleted = u.2 := by simpa [deletedBy] using hy
  obtain ⟨-, rfl, rfl⟩ | ⟨f, name, -, -, -, hfresh, rfl, rfl⟩ | ⟨f, name, p, ho, -, hp, hn, -, rfl, rfl⟩ :=
    copyOEMInf_eq_some.mp hx
  · exact ⟨hu, hb, fun _ hs => by cases hs⟩
  · refine ⟨hu.append (p := u.1.packageFrom f name) hfresh (.inl rfl), ?_⟩
    refine ⟨hb.trans ⟨hvalue, fun p hp _ => List.mem_append_left _ hp⟩, ?_⟩
    rintro _ ⟨⟩
    exact ⟨_, List.mem_append_right _ (List.mem_singleton_self _), rfl, by simp [World.packageFrom]⟩
  · refine ⟨hu, hb, ?_⟩
    rintro _ ⟨⟩
    have hm := List.mem_of_find?_eq_some hp
    have hs : sameName p.published name := by
      rw [sameName_iff] at hn ⊢
      exact hn.symm
    rw [ho] at hok
    have hall := List.all_eq_true.mp hok p hm
    refine ⟨p, hm, ?_, hs⟩
    simpa [hs] using hall

/-! ## The flows -/

theorem unstageOther_own {inf : WString} (driverInf : WString) (h : OwnInv x)
    (ho : inf = [] ∨ Owned x.1 inf) :
    wp sparingExec OwnInv (fun _ y => y.1.value = x.1.value) (unstageOther inf driverInf) x := by
  apply wp_ite
  · exact fun _ => wp_seq (unstagePackage_own h ho) fun _ _ hy hv => ⟨hy, hv⟩
  · exact fun _ => ⟨h, rfl⟩

theorem uninstallDriver_own {name : WString} (h : OwnInv x) (ho : name = [] ∨ Owned x.1 name) :
    wp sparingExec OwnInv (fun _ y => y.1.value = x.1.value) (uninstallDriver name) x := by
  refine wp_seq (elsewhere_run (removeDevices_effects (by decide)) h) fun _ y hy hb => ?_
  have ho' := ho.imp_right fun ho => ho.beside hb
  exact wp_seq (unstagePackage_own hy ho') fun _ z hz hv => ⟨hz, hv.trans hb.value⟩

theorem uninstallRecorded_own {state : Option InstallState} (h : OwnInv x)
    (hs : ∀ s, state = some s → Recalls x.1 s) :
    wp sparingExec OwnInv (fun _ _ => True) (uninstallRecorded state) x := by
  cases state with
  | none => exact ⟨h, trivial⟩
  | some s =>
    have hs := hs s rfl
    refine wp_seq (unstageOther_own _ h (hs.owned .pending rfl)) fun _ y hy hv => ?_
    refine wp_seq (unstageOther_own _ hy (hs.owned .previous (congrFun hv _))) fun _ z hz _ => ?_
    apply elsewhere_end _ hz
    refine Prog.calls_bind (removeTrustedCertificate_effects (by decide) _) fun _ => ?_
    refine Prog.calls_bind (removeTrustedCertificate_effects (by decide) _) fun _ => ?_
    refine Prog.calls_bind (removeTrustedCertificate_effects (by decide) _) fun _ => ?_
    exact Prog.calls_ite (fun _ => removeInstallDir_effects (by decide) _) fun _ => trivial

theorem runUninstall_own (h : OwnInv x) : wp sparingExec OwnInv (fun _ _ => True) runUninstall x := by
  refine wp_seq (readState_own h) fun state y hy ⟨hb, hs⟩ => ?_
  have hname : (state.map (·.driverInf)).getD [] = [] ∨
      Owned y.1 ((state.map (·.driverInf)).getD []) := by
    cases state with
    | none => exact .inl rfl
    | some s => exact (hs s rfl).owned .current (congrFun hb.value _)
  refine wp_seq (uninstallDriver_own hy hname) fun _ z hz hv => ?_
  have hs' : ∀ s, state = some s → Recalls z.1 s := by
    intro s h
    unfold Recalls
    rw [hv, hb.value]
    exact hs s h
  refine wp_seq (uninstallRecorded_own hz hs') fun _ u hu _ => ?_
  exact wp_seq (deleteState_own hu) fun _ _ hv _ => ⟨hv, trivial⟩

theorem failInstall_own (h : OwnInv x) : wp sparingExec OwnInv (fun _ _ => True) failInstall x :=
  wp_seq (runUninstall_own h) fun _ _ hy _ => ⟨hy, trivial⟩

theorem failUpdate_own {inf : WString} (old : InstallState) (cert : WString) (h : OwnInv x)
    (ho : inf = [] ∨ Owned x.1 inf) :
    wp sparingExec OwnInv (fun _ _ => True) (failUpdate old cert inf) x := by
  refine wp_seq (unstageOther_own _ h ho) fun _ y hy _ => ?_
  refine wp_seq (elsewhere_run (removeTrustedCertificate_effects (by decide) _) hy) fun _ z hz _ => ?_
  refine wp_seq (deleteValue_own _ hz) fun _ u hu _ => ?_
  exact wp_seq (deleteValue_own _ hu) fun _ _ hv _ => ⟨hv, trivial⟩

theorem retirePrevious_own {s : InstallState} (h : OwnInv x) (hs : Recalls x.1 s) :
    wp sparingExec OwnInv (fun _ y => y.1.value .driverInf = x.1.value .driverInf)
      (retirePrevious s) x := by
  have hcert : wp sparingExec OwnInv (fun _ y => Writes .previousCertThumbprint x y)
      (retireCert s) x := by
    apply wp_ite
    · intro
      have hremove : Effects Elsewhere (removeTrustedCertificate s.previousCertThumbprint) :=
        removeTrustedCertificate_effects (by decide) _
      refine wp_seq (elsewhere_run hremove h) fun _ y hy hb => ?_
      exact wp_post (fun _ _ _ hw => hb.writes.trans hw) (deleteValue_own _ hy)
    · exact fun _ => ⟨h, (Beside.refl x).writes⟩
  refine wp_seq hcert fun _ y hy hw => ?_
  have hprevious : s.previousDriverInf = [] ∨ Owned y.1 s.previousDriverInf :=
    hs.owned .previous (hw.others .previousDriverInf (by decide))
  have hdriver := hw.others .driverInf (by decide)
  apply wp_ite
  · intro
    refine wp_seq (unstagePackage_own hy hprevious) fun gone z hz hv => ?_
    have hz' : z.1.value .driverInf = x.1.value .driverInf := by rw [hv, hdriver]
    apply wp_ite
    · exact fun _ => wp_post (fun _ _ _ hu => (hu.others .driverInf (by decide)).trans hz')
        (deleteValue_own _ hz)
    · exact fun _ => ⟨hz, hz'⟩
  · exact fun _ => ⟨hy, hdriver⟩

/-- `DriverInf` as it was read, or nothing. -/
def RecallsDriver (w : World) (old : InstallState) : Prop :=
  old.driverInf = [] ∨ old.driverInf = w.value .driverInf

theorem RecallsDriver.keep {old : InstallState} (h : RecallsDriver w old)
    (hv : w'.value .driverInf = w.value .driverInf) : RecallsDriver w' old := by
  unfold RecallsDriver
  rw [hv]
  exact h

theorem retireFirst_own (h : OwnInv x) :
    wp sparingExec OwnInv (fun state y => ∀ s, state = some s → RecallsDriver y.1 s) retireFirst x := by
  refine wp_seq (readState_own h) fun state y hy ⟨hb, hs⟩ => ?_
  have hdone : ∀ s, state = some s → RecallsDriver y.1 s := fun s he =>
    (hs s he .driverInf).imp_right fun hv => hv.trans (congrFun hb.value _).symm
  cases state with
  | none => exact ⟨hy, hdone⟩
  | some s =>
    have hs := hs s rfl
    unfold Recalls at hs
    rw [← hb.value] at hs
    apply wp_ite
    · intro
      refine wp_seq (retirePrevious_own hy hs) fun _ z hz _ => ?_
      refine wp_post (fun state u _ hu s he => ?_) (readState_own hz)
      exact (hu.2 s he .driverInf).imp_right fun hv => hv.trans (congrFun hu.1.value _).symm
    · exact fun _ => ⟨hy, hdone⟩

theorem finishWithPins_own (installCode : ℕ) (h : OwnInv x) :
    wp sparingExec OwnInv (fun _ _ => True) (finishWithPins installCode) x :=
  elsewhere_end (finishWithPins_effects (by decide) _) h

/-- `RunUpdate` and `RunInstall` end alike: the version, and the lanes. -/
theorem finish_own {p : Flow ℕ} (version : WString) (installCode : ℕ) (h : OwnInv x)
    (hp : ∀ {y}, OwnInv y → wp sparingExec OwnInv (fun _ _ => True) p y) :
    wp sparingExec OwnInv (fun _ _ => True)
      (writeValue .version version >>= fun ok => if ok then finishWithPins installCode else p) x := by
  refine wp_seq (writeValue_own _ h (.inl fun s => by cases s <;> decide)) fun _ y hy _ => ?_
  apply wp_ite
  · exact fun _ => finishWithPins_own _ hy
  · exact fun _ => hp hy

theorem keepPackage_own (cert : SigningCert) (version : WString) (reboot : Bool) (h : OwnInv x) :
    wp sparingExec OwnInv (fun _ _ => True) (keepPackage cert version reboot) x := by
  refine wp_seq (elsewhere_run (removeTrustedCertificate_effects (by decide) _) h) fun _ y hy _ => ?_
  refine wp_seq (deleteValue_own _ hy) fun _ z hz _ => ?_
  refine wp_seq (deleteValue_own _ hz) fun _ u hu _ => ?_
  exact finish_own _ _ hu fun hv => ⟨hv, trivial⟩

theorem promoteValues_own {old : InstallState} {published : WString} (cert : SigningCert)
    (h : OwnInv x) (hold : RecallsDriver x.1 old) (hp : Holds x.1 published) :
    wp sparingExec OwnInv (fun _ _ => True) (promoteValues old cert published) x := by
  refine wp_seq (writeValue_own _ h (.inl fun s => by cases s <;> decide)) fun _ y hy hxy => ?_
  refine wp_ite (fun _ => ?_) fun _ => ⟨hy, trivial⟩
  have hold' := owned_of_value .current (hold.keep (hxy.others .driverInf (by decide)))
  refine wp_seq (writeValue_own _ hy (.inr hold')) fun _ z hz hyz => ?_
  refine wp_ite (fun _ => ?_) fun _ => ⟨hz, trivial⟩
  refine wp_seq (writeValue_own _ hz (.inl fun s => by cases s <;> decide)) fun _ u hu hzu => ?_
  refine wp_ite (fun _ => ?_) fun _ => ⟨hu, trivial⟩
  have hp' := ((hp.grow hxy.ours).grow hyz.ours).grow hzu.ours
  exact wp_post (fun _ _ _ _ => trivial) (writeValue_own _ hu (.inr (.inr (.inr hp'))))

theorem promote_own {old : InstallState} {published : WString} (cert : SigningCert)
    (version : WString) (reboot : Bool) (h : OwnInv x) (hold : RecallsDriver x.1 old)
    (hp : Holds x.1 published) :
    wp sparingExec OwnInv (fun _ _ => True) (promote old cert published version reboot) x := by
  refine wp_seq (promoteValues_own cert h hold hp) fun _ y hy _ => ?_
  refine wp_ite (fun _ => ?_) fun _ => ⟨hy, trivial⟩
  refine wp_seq (deleteValue_own _ hy) fun _ z hz _ => ?_
  refine wp_seq (deleteValue_own _ hz) fun _ u hu _ => ?_
  refine wp_seq (readState_own hu) fun promoted v hv ⟨hb, hs⟩ => ?_
  have hretire : wp sparingExec OwnInv (fun _ _ => True) (retirePromoted promoted) v := by
    cases promoted with
    | none => exact ⟨hv, trivial⟩
    | some s =>
      have hs := hs s rfl
      unfold Recalls at hs
      rw [← hb.value] at hs
      exact wp_post (fun _ _ _ _ => trivial) (retirePrevious_own hv hs)
  refine wp_seq hretire fun _ y' hy' _ => ?_
  exact finish_own _ _ hy' fun hv => ⟨hv, trivial⟩

theorem swapPackage_own {old : InstallState} (cert : SigningCert) (driverDir version : WString)
    (h : OwnInv x) (hold : RecallsDriver x.1 old) :
    wp sparingExec OwnInv (fun _ _ => True) (swapPackage old cert driverDir version) x := by
  refine wp_seq (stagePackage_own _ h) fun published y hy ⟨hb, hp⟩ => ?_
  cases published with
  | none => exact failUpdate_own _ _ hy (.inl rfl)
  | some published =>
    have hp := hp published rfl
    have hold := hold.keep (congrFun hb.value _)
    refine wp_seq (writeValue_own _ hy (.inr (.inr (.inr hp)))) fun _ z hz hyz => ?_
    have hp := hp.grow hyz.ours
    have hold := hold.keep (hyz.others .driverInf (by decide))
    refine wp_ite (fun _ => ?_) fun _ => failUpdate_own _ _ hz (.inr (.inr hp))
    refine wp_seq (elsewhere_run (updateDevice_effects (by decide) _) hz) fun reboot u hu hzu => ?_
    have hp := hp.grow hzu.ours
    cases reboot with
    | none => exact failUpdate_own _ _ hu (.inr (.inr hp))
    | some reboot =>
      apply wp_ite
      · exact fun _ => keepPackage_own _ _ _ hu
      · exact fun _ => promote_own _ _ _ hu (hold.keep (congrFun hzu.value _)) hp

theorem runUpdate_own {old : InstallState} (payloadDir version : WString) (h : OwnInv x)
    (hold : RecallsDriver x.1 old) :
    wp sparingExec OwnInv (fun _ _ => True) (runUpdate old payloadDir version) x := by
  refine wp_seq (elsewhere_run (copyPayload_effects (by decide) _ _) h) fun _ y hy hxy => ?_
  refine wp_ite (fun _ => ?_) fun _ => failUpdate_own _ _ hy (.inl rfl)
  refine wp_seq (elsewhere_run (signDriver_effects (by decide) (by decide) _) hy) fun cert z hz hyz => ?_
  have hold := hold.keep (congrFun (hxy.trans hyz).value _)
  cases cert with
  | none => exact failUpdate_own _ _ hz (.inl rfl)
  | some cert =>
    refine wp_seq (writeValue_own _ hz (.inl fun s => by cases s <;> decide)) fun _ u hu hzu => ?_
    have hold := hold.keep (hzu.others .driverInf (by decide))
    refine wp_ite (fun _ => ?_) fun _ => failUpdate_own _ _ hu (.inl rfl)
    refine wp_seq (elsewhere_run (trustIn_effects (by decide) _ _) hu) fun _ v hv huv => ?_
    apply wp_ite
    · exact fun _ => swapPackage_own _ _ _ hv (hold.keep (congrFun huv.value _))
    · exact fun _ => failUpdate_own _ _ hv (.inl rfl)

theorem dropPackage_own {published : WString} (h : OwnInv x) (hp : Holds x.1 published) :
    wp sparingExec OwnInv (fun r _ => r = none) (dropPackage published) x :=
  wp_seq (unstagePackage_own h (.inr (.inr hp))) fun _ _ hy _ => ⟨hy, rfl⟩

theorem installPackage_own {published : WString} (inf : WString) (h : OwnInv x)
    (hp : Holds x.1 published) :
    wp sparingExec OwnInv (fun r y => ∀ s, r = some s → Holds y.1 s.1)
      (installPackage inf published) x := by
  have hdrop : ∀ {y}, OwnInv y → Holds y.1 published →
      wp sparingExec OwnInv (fun r z => ∀ s, r = some s → Holds z.1 s.1) (dropPackage published) y :=
    fun hy hp => wp_post (fun _ _ _ hn _ hs => by rw [hn] at hs; cases hs) (dropPackage_own hy hp)
  have hclass : Effects Elsewhere (attempt (.setupDiGetINFClass inf)) := by
    simp [attempt, Prog.perform, Call.effect]
  refine wp_seq (elsewhere_run hclass h) fun _ y hy hxy => ?_
  have hp := hp.grow hxy.ours
  refine wp_ite (fun _ => ?_) fun _ => hdrop hy hp
  have hlist : Effects Elsewhere (attempt .setupDiCreateDeviceInfoList) := by
    simp [attempt, Prog.perform, Call.effect]
  refine wp_seq (elsewhere_run hlist hy) fun _ z hz hyz => ?_
  have hp := hp.grow hyz.ours
  refine wp_ite (fun _ => ?_) fun _ => hdrop hz hp
  refine wp_seq (elsewhere_run (registerDevice_effects (by decide)) hz) fun id u hu hzu => ?_
  have hp := hp.grow hzu.ours
  cases id with
  | none => exact hdrop hu hp
  | some id =>
    refine ⟨hu, fun o r v he => ?_⟩
    obtain ⟨hv, huv⟩ := elsewhere_call hu (fun e he => by cases he; decide) he
    have hp := hp.grow huv.ours
    cases r with
    | none =>
      refine ⟨hv, fun o r v' he => ?_⟩
      obtain ⟨hv', hvv'⟩ := elsewhere_call hv (fun e he => by cases he; decide) he
      exact hdrop hv' (hp.grow hvv'.ours)
    | some reboot =>
      refine ⟨hv, fun o r v' he => ?_⟩
      obtain ⟨hv', hvv'⟩ := elsewhere_call hv (by simp [Call.effect]) he
      refine ⟨hv', ?_⟩
      rintro _ ⟨⟩
      exact hp.grow hvv'.ours

theorem installDriver_own (inf : WString) (h : OwnInv x) :
    wp sparingExec OwnInv (fun r y => ∀ s, r = some s → Holds y.1 s.1) (installDriver inf) x := by
  refine wp_seq (elsewhere_run (removeDevices_effects (by decide)) h) fun _ y hy _ => ?_
  refine wp_seq (stagePackage_own inf hy) fun published z hz ⟨_, hp⟩ => ?_
  cases published with
  | none => exact ⟨hz, fun _ hs => by cases hs⟩
  | some published => exact installPackage_own inf hz (hp published rfl)

theorem installNode_own (driverDir version : WString) (h : OwnInv x) :
    wp sparingExec OwnInv (fun _ _ => True) (installNode driverDir version) x := by
  refine wp_seq (installDriver_own _ h) fun installed y hy hp => ?_
  cases installed with
  | none => exact failInstall_own hy
  | some installed =>
    have hp := hp installed rfl
    refine wp_seq (writeValue_own _ hy (.inr (.inr (.inr hp)))) fun _ z hz hyz => ?_
    have hp := hp.grow hyz.ours
    apply wp_ite
    · exact fun _ => finish_own _ _ hz fun hu => failInstall_own hu
    · exact fun _ => wp_seq (uninstallDriver_own hz (.inr (.inr hp))) fun _ _ hu _ => failInstall_own hu

theorem installFresh_own (payloadDir dir version : WString) (h : OwnInv x) :
    wp sparingExec OwnInv (fun _ _ => True) (installFresh payloadDir dir version) x := by
  refine wp_seq (writeValue_own _ h (.inl fun s => by cases s <;> decide)) fun _ y hy _ => ?_
  refine wp_ite (fun _ => ?_) fun _ => failInstall_own hy
  refine wp_seq (elsewhere_run (copyPayload_effects (by decide) _ _) hy) fun _ z hz _ => ?_
  refine wp_ite (fun _ => ?_) fun _ => failInstall_own hz
  refine wp_seq (elsewhere_run (signDriver_effects (by decide) (by decide) _) hz) fun cert u hu _ => ?_
  cases cert with
  | none => exact failInstall_own hu
  | some cert =>
    refine wp_seq (writeValue_own _ hu (.inl fun s => by cases s <;> decide)) fun _ v hv _ => ?_
    refine wp_ite (fun _ => ?_) fun _ => failInstall_own hv
    refine wp_seq (elsewhere_run (trustIn_effects (by decide) _ _) hv) fun _ v' hv' _ => ?_
    apply wp_ite
    · exact fun _ => installNode_own _ _ hv'
    · exact fun _ => failInstall_own hv'

theorem runInstall_own (payloadDir version : WString) (h : OwnInv x) :
    wp sparingExec OwnInv (fun _ _ => True) (runInstall payloadDir version) x := by
  refine wp_seq (retireFirst_own h) fun state y hy hs => ?_
  refine wp_seq (elsewhere_run defaultInstallDir_effects hy) fun dir z hz hyz => ?_
  refine wp_seq (elsewhere_run (installMode_effects state dir) hz) fun mode u hu hzu => ?_
  have hreinstall : wp sparingExec OwnInv (fun _ _ => True)
      (runUninstall >>= fun _ => installFresh payloadDir dir version) u :=
    wp_seq (runUninstall_own hu) fun _ _ hv _ => installFresh_own _ _ _ hv
  split
  · next old =>
    exact runUpdate_own _ _ hu ((hs old rfl).keep (congrFun (hyz.trans hzu).value _))
  · exact hreinstall
  · exact installFresh_own _ _ _ hu

/-! ## Every run -/

theorem OwnInv.clean {w₀ : World} (h₀ : Clean w₀) : OwnInv (w₀, []) where
  deleted := fun _ hp => absurd hp List.not_mem_nil
  apart p hp _ _ ho := by
    rw [h₀.packages p hp] at ho
    cases ho
  recorded := by
    rintro name ⟨s, hne, -⟩
    refine absurd ?_ hne
    unfold World.value
    rw [h₀.registry]
    rfl

theorem arrive_own {event : Event} (h : OwnInv x) (ha : (arrive event x.1).map (·, x.2) = some y) :
    OwnInv y := by
  obtain ⟨w, hw, rfl⟩ := Option.map_eq_some_iff.mp ha
  cases event <;> obtain rfl := Option.some.inj hw
  · exact h
  · exact h
  · exact ⟨h.deleted, h.apart, h.recorded⟩

theorem handler_own (event : Event) (h : OwnInv x) :
    wp sparingExec OwnInv (fun _ _ => True) (handler event) x := by
  cases event with
  | install payloadDir version => exact runInstall_own payloadDir version h
  | uninstall => exact runUninstall_own h
  | meanwhile machine => exact ⟨h, trivial⟩

/-- Setup deletes its own packages only, as long as no name that it has recorded is used again. -/
theorem setup_deletes_own {w₀ w : World} {deleted : List Package} (h₀ : Clean w₀)
    (h : Instant (sharedSetup sparesRecorded handsBackOwn) Always Always (w₀, []) (w, deleted)) :
    ∀ p ∈ deleted, p.ours = true := by
  have hinv : OwnInv (w, deleted) := by
    refine h.inv_of_wp (OwnInv.clean h₀) fun event x y hx ha => ?_
    exact handler_own event (arrive_own hx ha)
  exact hinv.deleted

/-! ## A history with another program -/

/-- The outcomes that `choose` gives, and the acts of others before the state key is opened. -/
def amidOpen (acts : List Other) (choose : Call → Outcome) : Call → List Other × Outcome
  | .regOpenKey => (acts, choose .regOpenKey)
  | c => ([], choose c)

/-- A first install, and an uninstall up to a call of `stop`. -/
def installThenUninstall (stop : Call → Bool) :
    List (Event × (Call → List Other × Outcome) × (Call → Bool)) :=
  [(.install releaseDir (wide "1"), amidOpen [] (succeed (sha1Of 1) (wide "oem1.inf")), fun _ => false),
    (.uninstall, amidOpen [] (succeed (sha1Of 1) []), stop)]

def forgetsState : Call → Bool
  | .regDeleteKey => true
  | _ => false

/-- Another program stages a package under the name. -/
def stageForeign (name : String) : Other := .stage (wide name) [9] none

theorem setup_deletes_own_first :
    ∃ x, Instant (sharedSetup sparesRecorded handsBackOwn) Always Always (newPc, []) x ∧
      x.2 ≠ [] ∧ (∃ p ∈ x.1.packages, p.ours = false) ∧ ∀ p ∈ x.2, p.ours = true := by
  have hplay : (((sharedSetup sparesRecorded handsBackOwn).playUntil
      (installThenUninstall forgetsState) (newPc, [])).any fun x =>
        ((handler .uninstall).playUntil sparingExec
          (amidOpen [stageForeign "oem2.inf"] (succeed (sha1Of 1) [])) (fun _ => false) x).any fun y =>
            !y.2.2.isEmpty && y.2.1.packages.any fun p => !p.ours) = true := by decide +kernel
  obtain ⟨x, hx, hy⟩ := (Option.any_eq_true _ _).mp hplay
  have hrest : Rest (sharedSetup sparesRecorded handsBackOwn) Always Always (newPc, []) x :=
    Rest.playUntil .init hx fun _ _ _ => trivial
  obtain ⟨y, hinstant, hc⟩ := Instant.of_play .uninstall _ _
    (fun y => !y.2.isEmpty && y.1.packages.any fun p => !p.ours) hrest (by rfl) hy
  simp only [Bool.and_eq_true, Bool.not_eq_true', List.isEmpty_eq_false_iff, List.any_eq_true] at hc
  exact ⟨y, hinstant, hc.1, hc.2, setup_deletes_own newPc_clean hinstant⟩

/-- An uninstall that was killed before it deleted the state key has freed the name of its package.
The next uninstall deletes what another program staged under it. -/
theorem setup_deletes_foreign :
    ∃ x, Clean newPc ∧
      Instant (sharedSetup (fun _ _ => true) fun _ _ _ => true) Always Always (newPc, []) x ∧
      ∃ p ∈ x.2, p.ours = false := by
  have hplay : (((sharedSetup (fun _ _ => true) fun _ _ _ => true).playUntil
      (installThenUninstall forgetsState) (newPc, [])).any fun x =>
        ((handler .uninstall).playUntil (sharedExec (fun _ _ => true) fun _ _ _ => true)
          (amidOpen [stageForeign "oem1.inf"] (succeed (sha1Of 1) [])) (fun _ => false) x).any fun y =>
            y.2.2.any fun p => !p.ours) = true := by decide +kernel
  obtain ⟨x, hx, hy⟩ := (Option.any_eq_true _ _).mp hplay
  have hrest : Rest (sharedSetup (fun _ _ => true) fun _ _ _ => true) Always Always (newPc, []) x :=
    Rest.playUntil .init hx fun _ _ _ => trivial
  obtain ⟨y, hinstant, hc⟩ := Instant.of_play .uninstall _ _ (fun y => y.2.any fun p => !p.ours) hrest
    (by rfl) hy
  obtain ⟨p, hp, hours⟩ := List.any_eq_true.mp hc
  exact ⟨y, newPc_clean, hinstant, p, hp, by simpa using hours⟩

end

end VirtualGun.Setup
