import VirtualGun.Program.Processes

/-!
# Work in sections

Every process does its work while it owns the mutex. Then the work is done as if the processes ran
one after the other.
-/

namespace VirtualGun.Program

variable {C : Type} {R : C → Type} {L O W α A E : Type}

/-! ## Places -/

/-- Where a process is: it has not yet owned the mutex, owns it and has `q` left of the work for
`l`, or is done with it. -/
inductive Place (C : Type) (R : C → Type) (L α : Type) where
  | outside (self : ℕ) (l : L)
  | inside (self : ℕ) (l : L) (q : Prog C R α)
  | after (self : ℕ)
  | nowhere

namespace Place

def self? : Place C R L α → Option ℕ
  | .outside self _ | .inside self _ _ | .after self => some self
  | .nowhere => none

def may : Place C R L α → ProcCall C → Prop
  | .outside self _, c => c.self = self ∧ (∀ b, c ≠ .work self b) ∧ c ≠ .releaseMutex self
  | .inside self _ q, c =>
    c = .releaseMutex self ∧ q.isRet = true ∨ ∃ b, c = .work self b ∧ q.next? = some b
  | .after self, c => c = .closeHandle self ∨ ∃ code, c = .exitProcess self code
  | .nowhere, _ => False

/-- A process owns the mutex from the wait that gives it to it to the release. -/
def next (work : L → Prog C R α) : Place C R L α → (c : ProcCall C) → c.Resp R → Place C R L α → Prop
  | .outside self l, .waitForSingleObject _ _, r, v =>
    r.owns = true ∧ v = .inside self l (work l) ∨ r = .timeout ∧ v = .outside self l
  | .outside self l, .createMutex _, r, v => r = true ∧ v = .outside self l
  | .outside self _, .exitProcess _ _, _, v => v = .after self
  | .outside self l, _, _, v => v = .outside self l
  | .inside self l q, .work _ b, r, v => ∃ k, q = .call b k ∧ v = .inside self l (k r)
  | .inside self _ _, _, _, v => v = .after self
  | .after self, _, _, v => v = .after self
  | .nowhere, _, _, _ => False

/-- It has nothing more to do with the mutex. -/
def done : Place C R L α → Prop
  | .after _ | .nowhere => True
  | _ => False

theorem next_outside {work : L → Prog C R α} {v : Place C R L α} {c : ProcCall C} {r : c.Resp R}
    {self : ℕ} {l : L} (h : v.next work c r (.outside self l)) : v = .outside self l := by
  cases v with
  | nowhere => exact h.elim
  | after self' => cases h
  | inside self' l' q =>
    cases c with
    | work s b =>
      obtain ⟨k, -, hv⟩ := h
      cases hv
    | _ => cases h
  | outside self' l' =>
    cases c with
    | createMutex s => exact h.2.symm
    | waitForSingleObject s timeoutMs =>
      obtain ⟨-, hv⟩ | ⟨-, hv⟩ := h
      · cases hv
      · exact hv.symm
    | exitProcess s code => cases h
    | _ => exact h.symm

end Place

/-- What there is of the work: between two runs while the mutex is free, and part-way through a run
of its owner while it is not. -/
structure Serial (S : System L C R O W α) (w₀ : W) (vs : List (Place C R L α)) (w : Shared C W) :
    Prop where
  ids : ProcIds Place.self? vs w.started
  alive : ∀ self ∈ w.alive, self < w.started
  inside : ∀ self l q, .inside self l q ∈ vs → self ∈ w.alive → w.owner = some self
  held : ∀ self, w.owner = some self → self ∈ w.alive ∧ ∃ l q u v, .inside self l q ∈ vs ∧
    Rest S Always Always w₀ u ∧ S.arrive l u = some v ∧ Steps S.exec (S.handler l) v q w.base
  free : w.owner = none → Rest S Always Always w₀ w.base

/-- `guards` is the event whose work the program does. -/
def sections (S : System L C R O W α) (w₀ : W) (guards : A → L) :
    Views (ProcEvent A E) (ProcCall C) (ProcCall.Resp R) (Shared C W) (Place C R L α) where
  of
    | .start self args, v => v.self? = some self ∧ ∀ self' l, v = .outside self' l → l = guards args
    | _, v => v = .nowhere
  may := Place.may
  next := Place.next S.handler
  fin := Place.done
  inv := Serial S w₀

section
variable {S : System L C R O W α} {w₀ : W} {vs pre post : List (Place C R L α)} {v v' : Place C R L α}
  {w w' : Shared C W}

namespace Serial

theorem init : Serial S w₀ ([] : List (Place C R L α)) (.init w₀) where
  ids := .init
  alive := by simp [Shared.init]
  inside := by simp
  held := by simp [Shared.init]
  free := fun _ => .init

theorem owner_at (h : Serial S w₀ (pre ++ v :: post) w) {self : ℕ} (howner : w.owner = some self)
    (hv : v.self? = some self) :
    ∃ l q u x, v = .inside self l q ∧ Rest S Always Always w₀ u ∧ S.arrive l u = some x ∧
      Steps S.exec (S.handler l) x q w.base := by
  obtain ⟨-, l, q, u, x, hmem, hpart⟩ := h.held self howner
  rcases mem_iff_or_others.mp hmem with hsame | hmem
  · exact ⟨l, q, u, x, hsame.symm, hpart⟩
  · exact absurd hv (h.ids.others_ne hmem rfl)

theorem goto (h : Serial S w₀ (pre ++ v :: post) w) (hself : v'.self? = v.self?)
    (halive : ∀ self ∈ w'.alive, self ∈ w.alive) (hstarted : w'.started = w.started)
    (hinside : ∀ self l q, v' = .inside self l q → self ∈ w'.alive → w'.owner = some self)
    (hothers : ∀ self, v.self? ≠ some self → w.owner = some self → w'.owner = some self)
    (hheld : ∀ self, w'.owner = some self → self ∈ w'.alive ∧ ∃ l q u x,
      .inside self l q ∈ pre ++ v' :: post ∧ Rest S Always Always w₀ u ∧ S.arrive l u = some x ∧
        Steps S.exec (S.handler l) x q w'.base)
    (hfree : w'.owner = none → Rest S Always Always w₀ w'.base) :
    Serial S w₀ (pre ++ v' :: post) w' where
  ids := by rw [hstarted]; exact h.ids.goto hself
  alive := fun self hmem => by rw [hstarted]; exact h.alive self (halive self hmem)
  inside := by
    intro self l q hx hmem
    rcases mem_iff_or_others.mp hx with hx | hx
    · exact hinside self l q hx.symm hmem
    · have howner := h.inside self l q (mem_iff_or_others.mpr (.inr hx)) (halive self hmem)
      exact hothers self (h.ids.others_ne hx rfl) howner
  held := hheld
  free := hfree

theorem idle (h : Serial S w₀ (pre ++ v :: post) w) (hself : v'.self? = v.self?)
    (hv : ∀ self, v.self? = some self → w.owner ≠ some self)
    (hv' : ∀ self l q, v' ≠ .inside self l q) (halive : ∀ self ∈ w'.alive, self ∈ w.alive)
    (howner : ∀ self, w.owner = some self → self ∈ w'.alive) (hstarted : w'.started = w.started)
    (hsame : w'.owner = w.owner) (hbase : w'.base = w.base) : Serial S w₀ (pre ++ v' :: post) w' := by
  refine h.goto hself halive hstarted (fun self l q hv'' => absurd hv'' (hv' self l q))
    (fun self _ ho => by rw [hsame, ho]) ?_ (fun ho => by rw [hbase]; exact h.free (by rw [← hsame, ho]))
  intro self ho
  rw [hsame] at ho
  obtain ⟨-, l, q, u, x, hmem, hpart⟩ := h.held self ho
  rw [hbase]
  refine ⟨howner self ho, l, q, u, x, ?_, hpart⟩
  rcases mem_iff_or_others.mp hmem with hsame | hmem
  · exact absurd ho (hv self (by rw [← hsame]; rfl))
  · exact mem_iff_or_others.mpr (.inr hmem)

theorem take {self : ℕ} {l : L} (h : Serial S w₀ (pre ++ .outside self l :: post) w)
    (hself : self ∈ w.alive) (hfree : w.owner = none) (harrive : S.arrive l w.base = some w.base) :
    Serial S w₀ (pre ++ .inside self l (S.handler l) :: post) (w.take self) := by
  apply h.goto
  · rfl
  · exact fun s hs => hs
  · rfl
  · intro s l' q hv _
    cases hv
    rfl
  · intro s _ ho
    rw [hfree] at ho
    cases ho
  · intro s ho
    cases ho
    exact ⟨hself, l, S.handler l, w.base, w.base, by simp, h.free hfree, harrive, .refl⟩
  · intro ho
    cases ho

theorem release {self : ℕ} {l : L} {a : α} (h : Serial S w₀ (pre ++ .inside self l (.ret a) :: post) w)
    (hself : self ∈ w.alive) :
    Serial S w₀ (pre ++ .after self :: post)
      { w with owner := if w.owner = some self then none else w.owner } := by
  have howner : w.owner = some self := h.inside self l (.ret a) (by simp) hself
  rw [if_pos howner]
  apply h.goto
  · rfl
  · exact fun s hs => hs
  · rfl
  · intro s l' q hv
    cases hv
  · intro s hs ho
    rw [howner] at ho
    exact absurd ho hs
  · intro s ho
    cases ho
  · intro _
    obtain ⟨l', q, u, x, hv, hu, hx, hs⟩ := h.owner_at howner rfl
    cases hv
    exact hu.finish hx hs trivial

theorem work {self : ℕ} {l : L} {b : C} {k : R b → Prog C R α} {o : O} {r : R b} {base : W}
    {log : List (ℕ × C)} (h : Serial S w₀ (pre ++ .inside self l (.call b k) :: post) w)
    (hself : self ∈ w.alive) (he : S.exec b o w.base = some (r, base)) :
    Serial S w₀ (pre ++ .inside self l (k r) :: post) { w with base := base, log := log } := by
  have howner : w.owner = some self := h.inside self l (.call b k) (by simp) hself
  apply h.goto
  · rfl
  · exact fun s hs => hs
  · rfl
  · intro s l' q hv _
    cases hv
    exact howner
  · exact fun s _ ho => ho
  · intro s ho
    obtain rfl : self = s := Option.some.inj (howner.symm.trans ho)
    obtain ⟨l', q, u, x, hv, hu, hx, hs⟩ := h.owner_at howner rfl
    cases hv
    exact ⟨hself, l, k r, u, x, by simp, hu, hx, hs.trans (.call he .refl)⟩
  · intro ho
    rw [howner] at ho
    cases ho

theorem exit {self : ℕ} (h : Serial S w₀ (pre ++ v :: post) w) (hself : v.self? = some self)
    (hv : ∀ s l q, v ≠ .inside s l q) {exits : List (ℕ × ℕ)} :
    Serial S w₀ (pre ++ .after self :: post) { w.leave self with exits := exits } := by
  have hne : ∀ s, v.self? = some s → w.owner ≠ some s := by
    intro s hs ho
    obtain ⟨l, q, -, -, hin, -⟩ := h.owner_at ho hs
    exact hv s l q hin
  refine h.idle (by rw [hself]; rfl) hne (fun s l q => nofun) ?_ ?_ rfl (if_neg (hne self hself)) rfl
  · exact fun s hs => List.mem_of_mem_filter hs
  · intro s ho
    refine List.mem_filter.mpr ⟨(h.held s ho).1, ?_⟩
    rw [decide_eq_true_iff]
    rintro rfl
    exact hne s hself ho

theorem kill (h : Serial S w₀ vs w) (self : ℕ) : Serial S w₀ vs (w.leave self) := by
  have hleave : ∀ s ∈ (w.leave self).alive, s ∈ w.alive ∧ s ≠ self := by
    intro s hs
    simpa [Shared.leave] using hs
  refine ⟨h.ids, fun s hs => h.alive s (hleave s hs).1, ?_, ?_, ?_⟩
  · intro s l q hmem hs
    have howner := h.inside s l q hmem (hleave s hs).1
    have hne : w.owner ≠ some self := by
      rw [howner, ne_eq, Option.some.injEq]
      exact (hleave s hs).2
    unfold Shared.leave
    rw [if_neg hne]
    exact howner
  · intro s ho
    simp only [Shared.leave] at ho
    split at ho
    · cases ho
    · next hne =>
      obtain ⟨hs, hpart⟩ := h.held s ho
      refine ⟨?_, hpart⟩
      simp only [Shared.leave, List.mem_filter, decide_eq_true_eq]
      refine ⟨hs, ?_⟩
      rintro rfl
      exact hne ho
  · intro ho
    simp only [Shared.leave] at ho
    split at ho
    · next howner =>
      obtain ⟨-, l, q, u, x, -, hu, hx, hs⟩ := h.held self howner
      exact hu.killed hx hs trivial
    · exact h.free ho

theorem act (h : Serial S w₀ vs w) (hfree : w.owner = none) {u : W}
    (hu : Rest S Always Always w₀ u) : Serial S w₀ vs { w with base := u } where
  ids := h.ids
  alive := h.alive
  inside := h.inside
  held := fun self ho => by rw [hfree] at ho; cases ho
  free := fun _ => hu

theorem nowhere (h : Serial S w₀ vs w) : Serial S w₀ (vs ++ [.nowhere]) w := by
  have hmem : ∀ v, v.self? ≠ none → (v ∈ vs ++ [Place.nowhere] ↔ v ∈ vs) := by
    intro v hv
    simp only [List.mem_append, List.mem_singleton, or_iff_left_iff_imp]
    rintro rfl
    exact absurd rfl hv
  refine ⟨h.ids.nobody rfl, h.alive, ?_, ?_, h.free⟩
  · intro self l q hv
    exact h.inside self l q ((hmem _ (by simp [Place.self?])).mp hv)
  · intro self ho
    obtain ⟨hs, l, q, u, x, hv, hpart⟩ := h.held self ho
    exact ⟨hs, l, q, u, x, (hmem _ (by simp [Place.self?])).mpr hv, hpart⟩

theorem start (h : Serial S w₀ vs w) (l : L) :
    Serial S w₀ (vs ++ [.outside w.started l])
      { w with started := w.started + 1, alive := w.started :: w.alive } := by
  have hmem : ∀ v, v ∈ vs ++ [Place.outside w.started l] ↔ v ∈ vs ∨ v = .outside w.started l := by
    simp
  refine ⟨h.ids.start rfl, ?_, ?_, ?_, h.free⟩
  · intro self hs
    rcases List.mem_cons.mp hs with rfl | hs
    · exact Nat.lt_succ_self _
    · exact Nat.lt_succ_of_lt (h.alive self hs)
  · intro self l' q hv hs
    rcases (hmem _).mp hv with hv | hv
    · rcases List.mem_cons.mp hs with rfl | hs
      · exact absurd (h.ids.below _ hv _ rfl) (lt_irrefl _)
      · exact h.inside self l' q hv hs
    · cases hv
  · intro self ho
    obtain ⟨hs, l', q, u, x, hv, hpart⟩ := h.held self ho
    exact ⟨List.mem_cons_of_mem _ hs, l', q, u, x, (hmem _).mpr (.inl hv), hpart⟩

end Serial

end

section
variable {S : System L C R O W α} {w₀ : W} {guards : A → L} {program : ℕ → A → ProcFlow C R Unit}
  {act : E → W → Option W} {pre post : List (Place C R L α)} {v : Place C R L α}

theorem serial_call {c : ProcCall C} {o : ProcOutcome O} {r : c.Resp R} {w w' : Shared C W}
    (hrest : ∀ self l, v = .outside self l → ∀ u, S.arrive l u = some u)
    (h : Serial S w₀ (pre ++ v :: post) w) (hmay : v.may c)
    (he : (procExec S.exec).only mutexWorks c o w = some (r, w')) :
    ∃ v', v.next S.handler c r v' ∧ v'.self? = v.self? ∧ Serial S w₀ (pre ++ v' :: post) w' := by
  obtain ⟨hworks, he⟩ := Exec.only_eq_some.mp he
  obtain ⟨halive, hcase⟩ := procExec_cases he
  cases v with
  | nowhere => exact hmay.elim
  | outside self l =>
    obtain ⟨rfl, hnwork, hnrelease⟩ := hmay
    cases c with
    | createMutex self =>
      obtain ⟨hr | ho, rfl⟩ := hcase
      · exact ⟨_, ⟨hr, rfl⟩, rfl, h⟩
      · rw [ho] at hworks
        cases hworks
    | closeHandle self =>
      obtain rfl : w' = w := hcase
      exact ⟨_, rfl, rfl, h⟩
    | releaseMutex self => exact absurd rfl hnrelease
    | exitProcess self code =>
      obtain rfl : w' = _ := hcase
      exact ⟨_, rfl, rfl, h.exit rfl (fun s l q => nofun)⟩
    | waitForSingleObject self timeoutMs =>
      obtain ⟨howns, hfree, rfl⟩ | ⟨hr | ho, rfl⟩ := hcase
      · exact ⟨_, .inl ⟨howns, rfl⟩, rfl, h.take halive hfree (hrest self l rfl _)⟩
      · exact ⟨_, .inr ⟨hr, rfl⟩, rfl, h⟩
      · rw [ho] at hworks
        cases hworks
    | work self b => exact absurd rfl (hnwork b)
  | inside self l q =>
    obtain ⟨rfl, hq⟩ | ⟨b, rfl, hq⟩ := hmay
    · obtain rfl : w' = _ := hcase
      obtain ⟨a, rfl⟩ := (Prog.isRet_iff q).mp hq
      exact ⟨_, rfl, rfl, h.release halive⟩
    · obtain ⟨o, base, hbase, rfl⟩ := hcase
      cases q with
      | ret a => cases hq
      | call b' k =>
        obtain rfl := Option.some.inj hq
        exact ⟨_, ⟨k, rfl, rfl⟩, rfl, h.work halive hbase⟩
  | after self =>
    obtain rfl | ⟨code, rfl⟩ := hmay
    · obtain rfl : w' = w := hcase
      exact ⟨_, rfl, rfl, h⟩
    · obtain rfl : w' = _ := hcase
      exact ⟨_, rfl, rfl, h.exit rfl (fun s l q => nofun)⟩

/-- In every interleaving of the processes, with processes killed anywhere, each process is where
its program says, and the work is done one run after the other. -/
theorem Reach.serial {ok : Pool (ProcEvent A E) (ProcCall C) (ProcCall.Resp R) (Shared C W) →
      Move (ProcEvent A E) (ProcOutcome O) → Prop}
    {P : Pool (ProcEvent A E) (ProcCall C) (ProcCall.Resp R) (Shared C W)}
    (hP : Reach ((processes S.exec program act).only mutexWorks) ok ⟨[], .init w₀⟩ P)
    (hguards : ∀ a u, S.arrive (guards a) u = some u)
    (hact : ∀ e u u', Rest S Always Always w₀ u → act e u = some u' → Rest S Always Always w₀ u')
    (hprogram : ∀ self a, (sections (E := E) S w₀ guards).Follows (fun _ v => v.done)
      (program self a) (.outside self (guards a))) :
    ∃ vs, (sections S w₀ guards).Agree P vs := by
  refine hP.views Serial.init ?_ ?_
  · intro l vs w w' h ha
    cases l with
    | start self args =>
      simp only [System.only, processes, procArrive, Option.ite_none_right_eq_some,
        Option.some.injEq] at ha
      obtain ⟨rfl, rfl⟩ := ha
      refine ⟨.outside w.started (guards args), ⟨⟨rfl, ?_⟩, hprogram w.started args⟩, h.start _⟩
      intro self' l hv
      cases hv
      rfl
    | kill self =>
      simp only [System.only, processes, procArrive, Option.ite_none_right_eq_some,
        Option.some.injEq] at ha
      obtain ⟨-, rfl⟩ := ha
      exact ⟨.nowhere, ⟨rfl, trivial⟩, (h.kill self).nowhere⟩
    | act e =>
      simp only [System.only, processes, procArrive, Option.ite_none_right_eq_some,
        Option.map_eq_some_iff] at ha
      obtain ⟨hfree, u, hu, rfl⟩ := ha
      exact ⟨.nowhere, ⟨rfl, trivial⟩, (h.act hfree (hact e _ u (h.free hfree) hu)).nowhere⟩
  · intro l pre v post w c o r w' hof h hmay he
    have hrest : ∀ self l', v = .outside self l' → ∀ u, S.arrive l' u = some u := by
      rintro self l' rfl u
      cases l with
      | start self' args =>
        rw [hof.2 self l' rfl]
        exact hguards args u
      | kill self' => cases hof
      | act e => cases hof
    obtain ⟨v', hnext, hself, h'⟩ := serial_call hrest h hmay he
    refine ⟨v', hnext, ?_, h'⟩
    cases l with
    | start self args =>
      obtain ⟨hv, hl⟩ := hof
      exact ⟨by rw [hself, hv], fun self' l' hv' => hl self' l' (Place.next_outside (hv' ▸ hnext))⟩
    | kill self =>
      obtain rfl : v = .nowhere := hof
      exact hmay.elim
    | act e =>
      obtain rfl : v = .nowhere := hof
      exact hmay.elim

/-! ## Mutual exclusion -/

/-- The process is about to do some of the work. -/
def Thread.Works {L' : Type} (t : Thread L' (ProcCall C) (ProcCall.Resp R)) (w : Shared C W) : Prop :=
  ∃ self b, t.prog.next? = some (.work self b) ∧ self ∈ w.alive

section
variable {vs : List (Place C R L α)}
  {P : Pool (ProcEvent A E) (ProcCall C) (ProcCall.Resp R) (Shared C W)}

theorem Place.may_next {t : Thread (ProcEvent A E) (ProcCall C) (ProcCall.Resp R)}
    (h : (sections (E := E) S w₀ guards).Has t v) {c : ProcCall C} (hc : t.prog.next? = some c) :
    v.may c := by
  have hfollows := h.follows
  cases hprog : t.prog with
  | ret a =>
    rw [hprog] at hc
    cases hc
  | call c' k =>
    rw [hprog] at hc hfollows
    obtain rfl := Option.some.inj hc
    exact hfollows.1

theorem Thread.Works.inside {t : Thread (ProcEvent A E) (ProcCall C) (ProcCall.Resp R)}
    {w : Shared C W} (hworks : t.Works w) (h : (sections (E := E) S w₀ guards).Has t v) :
    ∃ self l q, v = .inside self l q ∧ self ∈ w.alive := by
  obtain ⟨self, b, hb, hself⟩ := hworks
  have hmay := Place.may_next h hb
  cases v with
  | nowhere => exact hmay.elim
  | outside self' l =>
    obtain ⟨rfl, hnwork, -⟩ := hmay
    exact absurd rfl (hnwork b)
  | inside self' l q =>
    obtain ⟨hc, -⟩ | ⟨b', hc, -⟩ := hmay
    · cases hc
    · cases hc
      exact ⟨_, l, q, rfl, hself⟩
  | after self' =>
    obtain hc | ⟨code, hc⟩ := hmay
    · cases hc
    · cases hc

/-- No two processes work at a time. -/
theorem Views.Agree.exclusive (h : (sections S w₀ guards).Agree P vs) :
    P.threads.Pairwise fun t u => ¬ (t.Works P.world ∧ u.Works P.world) := by
  have hlen := h.has.length_eq
  have hpairs := List.pairwise_iff_get.mp (List.pairwise_filterMap.mp h.inv.ids.once)
  rw [List.pairwise_iff_get]
  rintro ⟨i, hi⟩ ⟨j, hj⟩ hij ⟨ht, hu⟩
  rw [hlen] at hi hj
  obtain ⟨self, l, q, hv, hself⟩ := ht.inside (h.has.get _ hi)
  obtain ⟨self', l', q', hv', hself'⟩ := hu.inside (h.has.get _ hj)
  have howner := h.inv.inside self l q (hv ▸ List.get_mem ..) hself
  have howner' := h.inv.inside self' l' q' (hv' ▸ List.get_mem ..) hself'
  have hsame : self = self' := Option.some.inj (howner.symm.trans howner')
  exact hpairs ⟨i, hi⟩ ⟨j, hj⟩ hij self (by rw [hv]; rfl) self' (by rw [hv']; rfl) hsame

/-- The mutex is never left to a process that is gone, or that has ended. -/
theorem Views.Agree.owner (h : (sections S w₀ guards).Agree P vs) {self : ℕ}
    (howner : P.world.owner = some self) :
    self ∈ P.world.alive ∧ ∃ t ∈ P.threads, ∃ args, t.label = .start self args ∧
      t.prog.isRet = false := by
  obtain ⟨hself, l, q, u, x, hv, -⟩ := h.inv.held self howner
  refine ⟨hself, ?_⟩
  obtain ⟨i, hi, hget⟩ := List.getElem_of_mem hv
  have hi' : i < P.threads.length := h.has.length_eq ▸ hi
  have hhas := h.has.get hi' hi
  rw [show vs.get ⟨i, hi⟩ = .inside self l q from hget] at hhas
  refine ⟨P.threads.get ⟨i, hi'⟩, List.get_mem _ _, ?_⟩
  have hof := hhas.of
  have hfollows := hhas.follows
  cases hprog : (P.threads.get ⟨i, hi'⟩).prog with
  | ret a =>
    rw [hprog] at hfollows
    exact hfollows.elim
  | call c k =>
    cases hlabel : (P.threads.get ⟨i, hi'⟩).label with
    | start self' args =>
      rw [hlabel] at hof
      cases hof.1
      exact ⟨args, rfl, rfl⟩
    | kill self' => rw [hlabel] at hof; cases hof
    | act e => rw [hlabel] at hof; cases hof

end

theorem work_follows {β : Type} {Q' : β → Place C R L α → Prop}
    {self : ℕ} {l : L} {q : Prog C R α} {f : α → ProcFlow C R β}
    (hf : ∀ a, (sections (E := E) S w₀ guards).Follows Q' (f a) (.inside self l (.ret a))) :
    (sections (E := E) S w₀ guards).Follows Q' (q.work self >>= f) (.inside self l q) := by
  induction q with
  | ret a => exact hf a
  | call c k ih =>
    refine ⟨.inr ⟨c, rfl, rfl⟩, fun r v hv => ?_⟩
    obtain ⟨k', hk, rfl⟩ := hv
    cases hk
    exact ih r

end

end VirtualGun.Program
