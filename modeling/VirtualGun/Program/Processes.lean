import VirtualGun.Program.Views

/-!
# Processes that share a mutex

Processes start at any time, and each can be killed between any two of its calls; a mutex whose owner
is gone is abandoned.
-/

namespace VirtualGun.Program

/-! ## Processes -/

inductive WaitResult where
  | object0 | abandoned | timeout | failed
  deriving DecidableEq, Repr

/-- The wait ended with the mutex. -/
def WaitResult.owns : WaitResult → Bool
  | .object0 | .abandoned => true
  | _ => false

/-- The calls of the process `self`; those in `work` are on what the mutex guards. -/
inductive ProcCall (C : Type) where
  | createMutex (self : ℕ)
  | waitForSingleObject (self timeoutMs : ℕ)
  | releaseMutex (self : ℕ)
  | closeHandle (self : ℕ)
  | work (self : ℕ) (c : C)
  | exitProcess (self code : ℕ)

variable {C : Type} {R : C → Type} {L O W α A E : Type}

namespace ProcCall

abbrev Resp (R : C → Type) : ProcCall C → Type
  | .createMutex _ => Bool
  | .waitForSingleObject _ _ => WaitResult
  | .releaseMutex _ | .closeHandle _ | .exitProcess _ _ => Unit
  | .work _ c => R c

def self : ProcCall C → ℕ
  | .createMutex self | .waitForSingleObject self _ | .releaseMutex self | .closeHandle self => self
  | .work self _ | .exitProcess self _ => self

end ProcCall

abbrev ProcFlow (C : Type) (R : C → Type) := Prog (ProcCall C) (ProcCall.Resp R)

inductive ProcOutcome (O : Type) where
  | ok | fail | abandoned | timeout
  | work (o : O)

structure Shared (C W : Type) where
  /-- The process that owns the mutex. -/
  owner : Option ℕ
  /-- The last owner died with it. -/
  abandoned : Bool
  started : ℕ
  alive : List ℕ
  /-- The exit codes. -/
  exits : List (ℕ × ℕ)
  /-- Who made which call of the work. -/
  log : List (ℕ × C)
  base : W

namespace Shared

def init (w : W) : Shared C W := ⟨none, false, 0, [], [], [], w⟩

/-- A process is gone. -/
def leave (w : Shared C W) (self : ℕ) : Shared C W :=
  { w with
    alive := w.alive.filter (· ≠ self)
    owner := if w.owner = some self then none else w.owner
    abandoned := w.abandoned || w.owner == some self }

def take (w : Shared C W) (self : ℕ) : Shared C W :=
  { w with owner := some self, abandoned := false }

end Shared

/-- A wait ends with the mutex when it is free, or was left behind; it times out when it is not. -/
def procExec (exec : Exec C R O W) :
    Exec (ProcCall C) (ProcCall.Resp R) (ProcOutcome O) (Shared C W) := fun c o w =>
  if c.self ∈ w.alive then
    match c, o with
    | .createMutex _, .ok => some (true, w)
    | .createMutex _, .fail => some (false, w)
    | .waitForSingleObject self _, .ok =>
      if w.owner = none then some (.object0, w.take self) else none
    | .waitForSingleObject self _, .abandoned =>
      if w.owner = none ∧ w.abandoned then some (.abandoned, w.take self) else none
    | .waitForSingleObject _ _, .timeout => if w.owner = none then none else some (.timeout, w)
    | .waitForSingleObject _ _, .fail => some (.failed, w)
    | .releaseMutex self, .ok =>
      some ((), { w with owner := if w.owner = some self then none else w.owner })
    | .closeHandle _, .ok => some ((), w)
    | .work self c, .work o =>
      (exec c o w.base).map fun x => (x.1, { w with base := x.2, log := w.log ++ [(self, c)] })
    | .exitProcess self code, .ok =>
      some ((), { w.leave self with exits := w.exits ++ [(self, code)] })
    | _, _ => none
  else none

inductive ProcEvent (A E : Type) where
  | start (self : ℕ) (args : A)
  | kill (self : ℕ)
  /-- Others act, while no process owns the mutex. -/
  | act (e : E)

def procArrive (act : E → W → Option W) : ProcEvent A E → Shared C W → Option (Shared C W)
  | .start self _, w =>
    if self = w.started then some { w with started := w.started + 1, alive := self :: w.alive }
    else none
  | .kill self, w => if self ∈ w.alive then some (w.leave self) else none
  | .act e, w => if w.owner = none then (act e w.base).map fun v => { w with base := v } else none

def processes (exec : Exec C R O W) (program : ℕ → A → ProcFlow C R Unit)
    (act : E → W → Option W) :
    System (ProcEvent A E) (ProcCall C) (ProcCall.Resp R) (ProcOutcome O) (Shared C W) Unit where
  exec := procExec exec
  arrive := procArrive act
  handler
    | .start self args => program self args
    | _ => .ret ()

/-- The calls of a program as the work of a process. -/
def Prog.work (self : ℕ) : Prog C R α → ProcFlow C R α
  | .ret a => .ret a
  | .call c k => .call (.work self c) fun r => (k r).work self

/-- The mutex can be created and waited for. -/
def mutexWorks : ProcCall C → ProcOutcome O → Bool
  | .createMutex _, .fail | .waitForSingleObject _ _, .fail => false
  | _, _ => true

theorem procExec_cases {exec : Exec C R O W} {c : ProcCall C} {o : ProcOutcome O} {r : c.Resp R}
    {w w' : Shared C W} (he : procExec exec c o w = some (r, w')) :
    c.self ∈ w.alive ∧
    match c, r with
    | .createMutex _, r => (r = true ∨ o = .fail) ∧ w' = w
    | .closeHandle _, _ => w' = w
    | .waitForSingleObject self _, r =>
      r.owns = true ∧ w.owner = none ∧ w' = w.take self ∨ (r = .timeout ∨ o = .fail) ∧ w' = w
    | .releaseMutex self, _ =>
      w' = { w with owner := if w.owner = some self then none else w.owner }
    | .work self c, r => ∃ o base, exec c o w.base = some (r, base) ∧
      w' = { w with base := base, log := w.log ++ [(self, c)] }
    | .exitProcess self code, _ => w' = { w.leave self with exits := w.exits ++ [(self, code)] } := by
  unfold procExec at he
  rw [Option.ite_none_right_eq_some] at he
  obtain ⟨halive, he⟩ := he
  refine ⟨halive, ?_⟩
  cases c with
  | createMutex self =>
    cases o with
    | ok => cases he; exact ⟨.inl rfl, rfl⟩
    | fail => cases he; exact ⟨.inr rfl, rfl⟩
    | _ => cases he
  | closeHandle self =>
    cases o with
    | ok => cases he; rfl
    | _ => cases he
  | releaseMutex self =>
    cases o with
    | ok => cases he; rfl
    | _ => cases he
  | exitProcess self code =>
    cases o with
    | ok => cases he; rfl
    | _ => cases he
  | waitForSingleObject self timeoutMs =>
    cases o with
    | ok =>
      simp only [Option.ite_none_right_eq_some] at he
      obtain ⟨hfree, he⟩ := he
      cases he
      exact .inl ⟨rfl, hfree, rfl⟩
    | abandoned =>
      simp only [Option.ite_none_right_eq_some] at he
      obtain ⟨⟨hfree, -⟩, he⟩ := he
      cases he
      exact .inl ⟨rfl, hfree, rfl⟩
    | timeout =>
      simp only [Option.ite_none_left_eq_some] at he
      obtain ⟨-, he⟩ := he
      cases he
      exact .inr ⟨.inl rfl, rfl⟩
    | fail =>
      cases he
      exact .inr ⟨.inr rfl, rfl⟩
    | work o => cases he
  | work self b =>
    cases o with
    | work o =>
      simp only [Option.map_eq_some_iff, Prod.exists, Prod.mk.injEq] at he
      obtain ⟨r', base, hbase, rfl, rfl⟩ := he
      exact ⟨o, base, hbase, rfl⟩
    | _ => cases he

/-! ## Processes and their numbers -/

section
variable {V : Type} {self? : V → Option ℕ} {vs pre post : List V} {v v' x : V} {self started : ℕ}

/-- Every process has a number of its own, below `started`. -/
structure ProcIds (self? : V → Option ℕ) (vs : List V) (started : ℕ) : Prop where
  below : ∀ v ∈ vs, ∀ self, self? v = some self → self < started
  once : (vs.filterMap self?).Nodup

theorem mem_iff_or_others : x ∈ pre ++ v :: post ↔ x = v ∨ x ∈ pre ++ post := by
  simp only [List.mem_append, List.mem_cons]
  tauto

namespace ProcIds

theorem init : ProcIds self? [] started where
  below := by simp
  once := by simp

theorem others_ne (h : ProcIds self? (pre ++ v :: post) started) (hx : x ∈ pre ++ post)
    (hself : self? x = some self) : self? v ≠ some self := by
  intro hv
  have honce := h.once
  simp only [List.filterMap_append, List.filterMap_cons, hv, List.nodup_append, List.nodup_cons,
    List.mem_filterMap] at honce
  obtain ⟨-, ⟨hpost, -⟩, hpre⟩ := honce
  rcases List.mem_append.mp hx with hx | hx
  · exact hpre self ⟨x, hx, hself⟩ self (List.mem_cons_self ..) rfl
  · exact hpost ⟨x, hx, hself⟩

theorem goto (h : ProcIds self? (pre ++ v :: post) started) (hself : self? v' = self? v) :
    ProcIds self? (pre ++ v' :: post) started where
  below := by
    intro x hx self hs
    rcases mem_iff_or_others.mp hx with rfl | hx
    · exact h.below v (by simp) self (by rw [← hself, hs])
    · exact h.below x (mem_iff_or_others.mpr (.inr hx)) self hs
  once := by
    have honce := h.once
    simp only [List.filterMap_append, List.filterMap_cons, hself] at honce ⊢
    exact honce

theorem start (h : ProcIds self? vs started) (hself : self? v = some started) :
    ProcIds self? (vs ++ [v]) (started + 1) where
  below := by
    intro x hx self hs
    rcases List.mem_append.mp hx with hx | hx
    · exact Nat.lt_succ_of_lt (h.below x hx self hs)
    · rw [List.mem_singleton.mp hx, hself] at hs
      cases hs
      exact Nat.lt_succ_self _
  once := by
    rw [List.filterMap_append]
    refine List.Nodup.append h.once (by simp [hself]) ?_
    intro self hs hnew
    obtain ⟨x, hx, hxself⟩ := List.mem_filterMap.mp hs
    simp only [List.filterMap_cons, hself, List.filterMap_nil, List.mem_singleton] at hnew
    have := h.below x hx self hxself
    omega

theorem nobody (h : ProcIds self? vs started) (hself : self? v = none) :
    ProcIds self? (vs ++ [v]) started where
  below := by
    intro x hx self hs
    rcases List.mem_append.mp hx with hx | hx
    · exact h.below x hx self hs
    · rw [List.mem_singleton.mp hx, hself] at hs
      cases hs
  once := by
    have honce := h.once
    simpa [List.filterMap_append, hself] using honce

end ProcIds

end

/-! ## Errands -/

/-- Whether a process has done any of the work yet. -/
inductive Errand where
  | fresh (self : ℕ)
  | begun (self : ℕ)
  | nobody

namespace Errand

def self? : Errand → Option ℕ
  | .fresh self | .begun self => some self
  | .nobody => none

/-- Exit codes in `refused` are for processes that have done none of the work. -/
def may (ran refused : ℕ → Prop) : Errand → ProcCall C → Prop
  | .fresh self, c => c.self = self ∧ ∀ code, c = .exitProcess self code → ran code ∨ refused code
  | .begun self, c => c.self = self ∧ ∀ code, c = .exitProcess self code → ran code
  | .nobody, _ => False

def next : Errand → (c : ProcCall C) → c.Resp R → Errand → Prop
  | .fresh self, .work _ _, _, v => v = .begun self
  | v, _, _, v' => v' = v

end Errand

structure Errands (ran refused : ℕ → Prop) (vs : List Errand) (w : Shared C W) : Prop where
  ids : ProcIds Errand.self? vs w.started
  logged : ∀ x ∈ w.log, x.1 < w.started
  fresh : ∀ self, .fresh self ∈ vs → ∀ c, (self, c) ∉ w.log
  exits : ∀ x ∈ w.exits, x.1 < w.started ∧ x.1 ∉ w.alive ∧
    (ran x.2 ∨ refused x.2 ∧ ∀ c, (x.1, c) ∉ w.log)

def errands (ran refused : ℕ → Prop) :
    Views (ProcEvent A E) (ProcCall C) (ProcCall.Resp R) (Shared C W) Errand where
  of
    | .start self _, v => v.self? = some self
    | _, v => v = .nobody
  may := Errand.may ran refused
  next := Errand.next
  fin _ := True
  inv := Errands ran refused

section
variable {ran refused : ℕ → Prop} {vs pre post : List Errand} {v v' : Errand} {w w' : Shared C W}

theorem Errands.quiet (h : Errands ran refused vs w) {vs' : List Errand}
    (hids : ProcIds Errand.self? vs' w'.started) (hlog : w'.log = w.log)
    (hstarted : w.started ≤ w'.started)
    (hfresh : ∀ self, .fresh self ∈ vs' → .fresh self ∈ vs ∨ w.started ≤ self)
    (hexits : w'.exits = w.exits) (halive : ∀ self ∈ w'.alive, self ∈ w.alive ∨ w.started ≤ self) :
    Errands ran refused vs' w' where
  ids := hids
  logged := by
    intro x hx
    rw [hlog] at hx
    exact lt_of_lt_of_le (h.logged x hx) hstarted
  fresh := by
    intro self hv c hc
    rw [hlog] at hc
    rcases hfresh self hv with hv | hle
    · exact h.fresh self hv c hc
    · exact absurd (h.logged _ hc) (not_lt.mpr hle)
  exits := by
    intro x hx
    rw [hexits] at hx
    obtain ⟨hlt, hgone, hcode⟩ := h.exits x hx
    refine ⟨lt_of_lt_of_le hlt hstarted, fun hx => ?_, by rwa [hlog]⟩
    rcases halive x.1 hx with hx | hle
    · exact hgone hx
    · omega

theorem Errands.work (h : Errands ran refused (pre ++ v :: post) w) {self : ℕ}
    (hself : v.self? = some self) (hv' : v' = .begun self) (halive : self ∈ w.alive) (c : C)
    (base : W) :
    Errands ran refused (pre ++ v' :: post) { w with base := base, log := w.log ++ [(self, c)] } := by
  subst hv'
  have hmem (x : ℕ × C) : x ∈ w.log ++ [(self, c)] ↔ x ∈ w.log ∨ x = (self, c) := by simp
  constructor
  · exact h.ids.goto hself.symm
  · intro x hx
    rcases (hmem x).mp hx with hx | rfl
    · exact h.logged x hx
    · exact h.ids.below v (by simp) self hself
  · intro s hv c' hc
    rcases mem_iff_or_others.mp hv with hv | hv
    · cases hv
    · rcases (hmem _).mp hc with hc | hc
      · exact h.fresh s (mem_iff_or_others.mpr (.inr hv)) c' hc
      · cases hc
        exact h.ids.others_ne hv rfl hself
  · intro x hx
    obtain ⟨hlt, hgone, hcode⟩ := h.exits x hx
    refine ⟨hlt, hgone, hcode.imp_right fun hr => ⟨hr.1, fun c' hc => ?_⟩⟩
    rcases (hmem _).mp hc with hc | hc
    · exact hr.2 c' hc
    · cases hc
      exact hgone halive

theorem Errands.exit (h : Errands ran refused (pre ++ v :: post) w) {self code : ℕ}
    (hself : v.self? = some self) (hcode : ran code ∨ refused code ∧ v = .fresh self) :
    Errands ran refused (pre ++ v :: post)
      { w.leave self with exits := w.exits ++ [(self, code)] } := by
  have halive (s : ℕ) : s ∈ (w.leave self).alive ↔ s ∈ w.alive ∧ s ≠ self := by simp [Shared.leave]
  refine ⟨h.ids, h.logged, h.fresh, fun x hx => ?_⟩
  rcases List.mem_append.mp hx with hx | hx
  · obtain ⟨hlt, hgone, hx⟩ := h.exits x hx
    exact ⟨hlt, fun hs => hgone ((halive x.1).mp hs).1, hx⟩
  · rw [List.mem_singleton.mp hx]
    refine ⟨h.ids.below v (by simp) self hself, fun hs => ((halive self).mp hs).2 rfl, ?_⟩
    refine hcode.imp_right fun hr => ⟨hr.1, ?_⟩
    exact h.fresh self (by rw [hr.2]; simp)

theorem errands_call {exec : Exec C R O W} {c : ProcCall C} {o : ProcOutcome O} {r : c.Resp R}
    (h : Errands ran refused (pre ++ v :: post) w) (hmay : v.may ran refused c)
    (he : procExec exec c o w = some (r, w')) :
    ∃ v', v.next c r v' ∧ v'.self? = v.self? ∧ Errands ran refused (pre ++ v' :: post) w' := by
  obtain ⟨halive, hcase⟩ := procExec_cases he
  have hself : v.self? = some c.self ∧ (∀ code, c = .exitProcess c.self code →
      ran code ∨ refused code ∧ v = .fresh c.self) := by
    cases v with
    | nobody => exact hmay.elim
    | fresh self =>
      obtain ⟨rfl, hcode⟩ := hmay
      exact ⟨rfl, fun code hc => (hcode code hc).imp_right fun hr => ⟨hr, rfl⟩⟩
    | begun self =>
      obtain ⟨rfl, hcode⟩ := hmay
      exact ⟨rfl, fun code hc => .inl (hcode code hc)⟩
  obtain ⟨hself, hcode⟩ := hself
  have hstay (hwork : ∀ self b, c ≠ .work self b) : v.next c r v := by
    cases v with
    | nobody => rfl
    | begun self => rfl
    | fresh self =>
      cases c with
      | work self b => exact absurd rfl (hwork self b)
      | _ => rfl
  have hidle (hlog : w'.log = w.log) (hstarted : w'.started = w.started) (hexits : w'.exits = w.exits)
      (halive : w'.alive = w.alive) : Errands ran refused (pre ++ v :: post) w' := by
    refine h.quiet (by rw [hstarted]; exact h.ids) hlog (le_of_eq hstarted.symm)
      (fun _ hv => .inl hv) hexits fun self hs => .inl (by rwa [halive] at hs)
  cases c with
  | createMutex self =>
    obtain rfl : w' = w := hcase.2
    exact ⟨v, hstay (fun s b => nofun), rfl, h⟩
  | closeHandle self =>
    obtain rfl : w' = w := hcase
    exact ⟨v, hstay (fun s b => nofun), rfl, h⟩
  | releaseMutex self =>
    obtain rfl : w' = _ := hcase
    exact ⟨v, hstay (fun s b => nofun), rfl, hidle rfl rfl rfl rfl⟩
  | waitForSingleObject self timeoutMs =>
    refine ⟨v, hstay (fun s b => nofun), rfl, ?_⟩
    obtain ⟨-, -, rfl⟩ | ⟨-, rfl⟩ := hcase
    · exact hidle rfl rfl rfl rfl
    · exact h
  | exitProcess self code =>
    obtain rfl : w' = _ := hcase
    exact ⟨v, hstay (fun s b => nofun), rfl, h.exit hself (hcode code rfl)⟩
  | work self b =>
    obtain ⟨o, base, -, rfl⟩ := hcase
    refine ⟨.begun self, ?_, hself.symm, h.work hself rfl halive b base⟩
    cases v with
    | nobody => cases hself
    | fresh s => cases hself; rfl
    | begun s => cases hself; rfl

/-- A process that exits with a code of `refused` has done none of the work. -/
theorem Reach.exit_codes {exec : Exec C R O W} {program : ℕ → A → ProcFlow C R Unit}
    {act : E → W → Option W} {w₀ : W}
    {ok : Pool (ProcEvent A E) (ProcCall C) (ProcCall.Resp R) (Shared C W) →
      Move (ProcEvent A E) (ProcOutcome O) → Prop}
    {P : Pool (ProcEvent A E) (ProcCall C) (ProcCall.Resp R) (Shared C W)}
    (hP : Reach (processes exec program act) ok ⟨[], .init w₀⟩ P)
    (hprogram : ∀ self a, (errands (A := A) (E := E) (W := W) ran refused).Follows (fun _ _ => True)
      (program self a) (.fresh self)) :
    ∀ x ∈ P.world.exits, ran x.2 ∨ refused x.2 ∧ ∀ c, (x.1, c) ∉ P.world.log := by
  have hviews : ∃ vs, (errands ran refused).Agree P vs := by
    refine hP.views ⟨.init, by simp [Shared.init], by simp, by simp [Shared.init]⟩ ?_ ?_
    · intro l vs w w' h ha
      cases l with
      | start self args =>
        simp only [processes, procArrive, Option.ite_none_right_eq_some, Option.some.injEq] at ha
        obtain ⟨rfl, rfl⟩ := ha
        refine ⟨.fresh w.started, ⟨rfl, hprogram w.started args⟩, ?_⟩
        refine h.quiet (h.ids.start rfl) rfl (Nat.le_succ _) ?_ rfl ?_
        · intro self hs
          simp only [List.mem_append, List.mem_singleton, Errand.fresh.injEq] at hs
          exact hs.imp_right fun hs => le_of_eq hs.symm
        · intro self hs
          exact (List.mem_cons.mp hs).symm.imp_right fun hs => le_of_eq hs.symm
      | kill self =>
        simp only [processes, procArrive, Option.ite_none_right_eq_some, Option.some.injEq] at ha
        obtain ⟨-, rfl⟩ := ha
        refine ⟨.nobody, ⟨rfl, trivial⟩, ?_⟩
        refine h.quiet (h.ids.nobody rfl) rfl le_rfl ?_ rfl ?_
        · intro s hs
          exact .inl (by simpa using hs)
        · intro s hs
          exact .inl (List.mem_of_mem_filter hs)
      | act e =>
        simp only [processes, procArrive, Option.ite_none_right_eq_some, Option.map_eq_some_iff] at ha
        obtain ⟨-, u, -, rfl⟩ := ha
        refine ⟨.nobody, ⟨rfl, trivial⟩, ?_⟩
        exact h.quiet (h.ids.nobody rfl) rfl le_rfl (fun s hs => .inl (by simpa using hs)) rfl
          fun s hs => .inl hs
    · intro l pre v post w c o r w' hof h hmay he
      obtain ⟨v', hnext, hself, h'⟩ := errands_call h hmay he
      refine ⟨v', hnext, ?_, h'⟩
      cases l with
      | start self args => exact hself.trans hof
      | kill self =>
        obtain rfl : v = .nobody := hof
        exact hmay.elim
      | act e =>
        obtain rfl : v = .nobody := hof
        exact hmay.elim
  obtain ⟨vs, hvs⟩ := hviews
  exact fun x hx => (hvs.inv.exits x hx).2.2

theorem errand_stays {α : Type} {p : ProcFlow C R α} {self : ℕ} (hself : v.self? = some self)
    (hp : p.Calls (fun c => c.self = self ∧ (∀ s b, c ≠ .work s b) ∧ ∀ s code, c ≠ .exitProcess s code)
      fun _ _ => True) :
    (errands (A := A) (E := E) (W := W) ran refused).Follows (fun _ v' => v' = v) p v := by
  induction p with
  | ret a => rfl
  | call c k ih =>
    obtain ⟨⟨hc, hwork, hexit⟩, hk⟩ := hp
    constructor
    · cases v with
      | nobody => cases hself
      | fresh s =>
        cases hself
        exact ⟨hc, fun code hcode => absurd hcode (hexit _ _)⟩
      | begun s =>
        cases hself
        exact ⟨hc, fun code hcode => absurd hcode (hexit _ _)⟩
    · intro r v' hv
      have hsame : v' = v := by
        cases v with
        | nobody => exact hv
        | begun s => exact hv
        | fresh s =>
          cases c with
          | work s' b => exact absurd rfl (hwork s' b)
          | _ => exact hv
      rw [hsame]
      exact ih r (hk r trivial)

theorem errand_works {α : Type} {q : Prog C R α} {Q : α → Prop} {self : ℕ} (hself : v.self? = some self)
    (hq : q.Ends Q fun _ _ => True) :
    (errands (A := A) (E := E) (W := W) ran refused).Follows
      (fun a v' => Q a ∧ v'.self? = some self) (q.work self) v := by
  induction q generalizing v with
  | ret a => exact ⟨hq, hself⟩
  | call c k ih =>
    constructor
    · cases v with
      | nobody => cases hself
      | fresh s =>
        cases hself
        exact ⟨rfl, fun code => nofun⟩
      | begun s =>
        cases hself
        exact ⟨rfl, fun code => nofun⟩
    · intro r v' hv
      refine ih r ?_ (hq r trivial)
      cases v with
      | nobody => cases hself
      | fresh s =>
        obtain rfl : v' = .begun s := hv
        exact hself
      | begun s =>
        obtain rfl : v' = .begun s := hv
        exact hself

theorem errand_exits {self code : ℕ} (hself : v.self? = some self)
    (hcode : ran code ∨ refused code ∧ v = .fresh self) :
    (errands (A := A) (E := E) (C := C) (R := R) (W := W) ran refused).Follows (fun _ _ => True)
      (.call (.exitProcess self code) .ret) v := by
  refine ⟨?_, fun _ _ _ => trivial⟩
  cases v with
  | nobody => cases hself
  | fresh s =>
    cases hself
    exact ⟨rfl, fun code' hc => by cases hc; exact hcode.imp_right fun hr => hr.1⟩
  | begun s =>
    cases hself
    refine ⟨rfl, fun code' hc => ?_⟩
    cases hc
    rcases hcode with hcode | ⟨-, hv⟩
    · exact hcode
    · cases hv

end

end VirtualGun.Program
