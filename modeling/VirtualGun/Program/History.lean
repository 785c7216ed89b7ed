import VirtualGun.Program.Hoare

/-!
# Runs one at a time, some of them killed

A system answers each event with a program. Here a run starts only when the one before it has
ended, and ends by itself or by being killed between two calls.
-/

namespace VirtualGun.Program

/-- Events `L` arrive, each changes the world by arriving, and a program handles it. -/
structure System (L C : Type) (R : C → Type) (O W α : Type) where
  exec : Exec C R O W
  arrive : L → W → Option W
  handler : L → Prog C R α

variable {L C : Type} {R : C → Type} {O W α : Type}

/-- The same system with the log of the run in progress beside the world. -/
def System.logged (S : System L C R O W α) : System L C R O (W × Log C O) α where
  exec := S.exec.logged
  arrive := fun l w => (S.arrive l w.1).map fun v => (v, [])
  handler := S.handler

def System.only (S : System L C R O W α) (ok : C → O → Bool) : System L C R O W α :=
  { S with exec := S.exec.only ok }

def System.within (S : System L C R O W α) (ok : C → O → W → Bool) : System L C R O W α :=
  { S with exec := S.exec.within ok }

/-- The worlds between runs. `fin` and `kil` say which runs may end, and which may be killed:
they see the event, the world the run began in and the world it stopped in. -/
inductive Rest (S : System L C R O W α) (fin kil : L → W → W → Prop) (w₀ : W) : W → Prop
  | init : Rest S fin kil w₀ w₀
  | finish {w v w' l a} : Rest S fin kil w₀ w → S.arrive l w = some v →
      Steps S.exec (S.handler l) v (.ret a) w' → fin l v w' → Rest S fin kil w₀ w'
  | killed {w v w' l p} : Rest S fin kil w₀ w → S.arrive l w = some v →
      Steps S.exec (S.handler l) v p w' → kil l v w' → Rest S fin kil w₀ w'

/-- The worlds a run passes through. -/
def Instant (S : System L C R O W α) (fin kil : L → W → W → Prop) (w₀ w' : W) : Prop :=
  ∃ w v l p, Rest S fin kil w₀ w ∧ S.arrive l w = some v ∧ Steps S.exec (S.handler l) v p w'

def Always {L W : Type} : L → W → W → Prop := fun _ _ _ => True

def Never {L W : Type} : L → W → W → Prop := fun _ _ _ => False

variable {S : System L C R O W α} {fin kil : L → W → W → Prop} {w₀ w : W} {I J : W → Prop}

/-- `J` holds between runs if every run begun in `J` ends in `J`, and passes only through worlds
of `I`, where being killed gives `J` back. -/
theorem Rest.inv (h : Rest S fin kil w₀ w) (h₀ : J w₀)
    (hrun : ∀ l w v, J w → S.arrive l w = some v →
      wp S.exec I (fun _ w' => fin l v w' → J w') (S.handler l) v)
    (hkil : ∀ l v w', I w' → kil l v w' → J w') : J w := by
  induction h with
  | init => exact h₀
  | finish _ ha hs hf ih => exact hs.post (hrun _ _ _ ih ha) hf
  | killed _ ha hs hk ih => exact hkil _ _ _ (hs.inv (hrun _ _ _ ih ha)) hk

theorem Instant.inv (h : Instant S fin kil w₀ w) (h₀ : J w₀)
    (hrun : ∀ l w v, J w → S.arrive l w = some v →
      wp S.exec I (fun _ w' => fin l v w' → J w') (S.handler l) v)
    (hkil : ∀ l v w', I w' → kil l v w' → J w') : I w := by
  obtain ⟨u, v, l, p, hr, ha, hs⟩ := h
  exact hs.inv (hrun l u v (hr.inv h₀ hrun hkil) ha)

/-- With no condition on the kills one predicate serves for both. -/
theorem Rest.inv_of_wp (h : Rest S fin kil w₀ w) (h₀ : I w₀)
    (hrun : ∀ l w v, I w → S.arrive l w = some v → wp S.exec I (fun _ _ => True) (S.handler l) v) :
    I w :=
  h.inv h₀ (fun l w v hw ha => wp_post (fun _ _ hi _ _ => hi) (hrun l w v hw ha))
    (fun _ _ _ hi _ => hi)

theorem Instant.inv_of_wp (h : Instant S fin kil w₀ w) (h₀ : I w₀)
    (hrun : ∀ l w v, I w → S.arrive l w = some v → wp S.exec I (fun _ _ => True) (S.handler l) v) :
    I w := by
  obtain ⟨u, v, l, p, hr, ha, hs⟩ := h
  exact hs.inv (hrun l u v (hr.inv_of_wp h₀ hrun) ha)

/-! ## Given runs -/

/-- Plays events one after the other, each with the outcomes of its run. -/
def System.play (S : System L C R O W α) : List (L × List O) → W → Option W
  | [], w => some w
  | (l, os) :: es, w =>
    (S.arrive l w).bind fun v =>
      match (S.handler l).replay S.exec os v with
      | some (.ret _, w') => S.play es w'
      | _ => none

theorem Rest.play {es : List (L × List O)} {w w' : W} (hw : Rest S fin kil w₀ w)
    (h : S.play es w = some w') (hfin : ∀ e ∈ es, ∀ v v', fin e.1 v v') : Rest S fin kil w₀ w' := by
  induction es generalizing w with
  | nil => simp only [System.play, Option.some.injEq] at h; exact h ▸ hw
  | cons e es ih =>
    simp only [System.play, Option.bind_eq_some_iff] at h
    obtain ⟨v, ha, h⟩ := h
    split at h
    · next a u hr =>
      exact ih (hw.finish ha (Prog.replay_steps hr) (hfin e (by simp) v u)) h
        fun e he => hfin e (List.mem_cons_of_mem _ he)
    · simp at h

theorem System.play_single {l : L} {os : List O} {w w' : W} (h : S.play [(l, os)] w = some w') :
    ∃ v a, S.arrive l w = some v ∧ Steps S.exec (S.handler l) v (.ret a) w' := by
  simp only [System.play, Option.bind_eq_some_iff] at h
  obtain ⟨v, ha, h⟩ := h
  split at h
  · next a u hr =>
    obtain rfl := Option.some.inj h
    exact ⟨v, a, ha, Prog.replay_steps hr⟩
  · cases h

theorem Instant.of_play (l : L) (choose : C → O) (stop : C → Bool) (check : W → Bool) {v : W}
    (hw : Rest S fin kil w₀ w) (ha : S.arrive l w = some v)
    (h : ((S.handler l).playUntil S.exec choose stop v).any (fun x => check x.2) = true) :
    ∃ w', Instant S fin kil w₀ w' ∧ check w' = true := by
  obtain ⟨⟨p, w'⟩, hp, hc⟩ := (Option.any_eq_true _ _).mp h
  exact ⟨w', ⟨w, v, l, p, hw, ha, Prog.playUntil_steps hp⟩, hc⟩

/-- Plays a run for each event, up to a call where it is killed, or to its end. -/
def System.playUntil (S : System L C R O W α) : List (L × (C → O) × (C → Bool)) → W → Option W
  | [], w => some w
  | (l, choose, stop) :: es, w =>
    (S.arrive l w).bind fun v =>
      ((S.handler l).playUntil S.exec choose stop v).bind fun x => S.playUntil es x.2

theorem Rest.playUntil {es : List (L × (C → O) × (C → Bool))} {w w' : W}
    (hw : Rest S fin kil w₀ w) (h : S.playUntil es w = some w') (hkil : ∀ l v v', kil l v v') :
    Rest S fin kil w₀ w' := by
  induction es generalizing w with
  | nil => simp only [System.playUntil, Option.some.injEq] at h; exact h ▸ hw
  | cons e es ih =>
    simp only [System.playUntil, Option.bind_eq_some_iff, Prod.exists] at h
    obtain ⟨v, ha, p, u, hp, h⟩ := h
    exact ih (hw.killed ha (Prog.playUntil_steps hp) (hkil _ _ _)) h

end VirtualGun.Program
