import VirtualGun.Program.History

/-!
# Programs over other programs

A call may act on one part of a larger world, and it may be a whole run of a system below.
-/

namespace VirtualGun.Program

variable {C C' : Type} {R : C → Type} {R' : C' → Type} {O O' W V L α β : Type}

/-! ## Programs on a part of the world -/

/-- The program with its calls under other names. -/
def Prog.lift (f : C → C') (g : ∀ c, R' (f c) → R c) : Prog C R α → Prog C' R' α
  | .ret a => .ret a
  | .call c k => .call (f c) fun r => (k (g c r)).lift f g

section
variable {f : C → C'} {g : ∀ c, R' (f c) → R c}

@[simp] theorem Prog.lift_ret (a : α) : (.ret a : Prog C R α).lift f g = .ret a := rfl

@[simp] theorem Prog.lift_bind (p : Prog C R α) (h : α → Prog C R β) :
    (p >>= h).lift f g = p.lift f g >>= fun a => (h a).lift f g := by
  induction p with
  | ret a => rfl
  | call c k ih =>
    simp only [Prog.call_bind, Prog.lift]
    congr 1
    funext r
    exact ih (g c r)

end

/-- How a part of the world is read and replaced. -/
structure Part (W V : Type) where
  get : W → V
  put : V → W → W
  get_put : ∀ v w, get (put v w) = v
  put_get : ∀ w, put (get w) w = w
  put_put : ∀ u v w, put u (put v w) = put u w

/-- The calls do to the part what `exec` does, and nothing to the rest. -/
def Part.Carries (P : Part W V) (f : C → C') (g : ∀ c, R' (f c) → R c) (exec : Exec C R O V)
    (exec' : Exec C' R' O' W) : Prop :=
  ∀ c o r w w', exec' (f c) o w = some (r, w') →
    ∃ o' v, exec c o' (P.get w) = some (g c r, v) ∧ w' = P.put v w

/-- What a program does to the part, it does under the other names, and the rest stays. -/
theorem wp_lift {P : Part W V} {f : C → C'} {g : ∀ c, R' (f c) → R c} {exec : Exec C R O V}
    {exec' : Exec C' R' O' W} {I : V → Prop} {Q : α → V → Prop} {p : Prog C R α} {w : W}
    (hP : P.Carries f g exec exec') (h : wp exec I Q p (P.get w)) :
    wp exec' (fun w' => ∃ v, I v ∧ w' = P.put v w) (fun a w' => ∃ v, Q a v ∧ w' = P.put v w)
      (p.lift f g) w := by
  have key : ∀ v, wp exec I Q p v → wp exec' (fun w' => ∃ v, I v ∧ w' = P.put v w)
      (fun a w' => ∃ v, Q a v ∧ w' = P.put v w) (p.lift f g) (P.put v w) := by
    clear h
    induction p with
    | ret a => exact fun v h => ⟨⟨v, h.1, rfl⟩, v, h.2, rfl⟩
    | call c k ih =>
      intro v h
      refine ⟨⟨v, h.1, rfl⟩, fun o r w' he => ?_⟩
      obtain ⟨o', v', he', rfl⟩ := hP c o r _ _ he
      rw [P.get_put] at he'
      rw [P.put_put]
      exact ih (g c r) v' (h.2 o' (g c r) v' he')
  have hkey := key (P.get w) h
  rwa [P.put_get] at hkey

/-! ## A run as one call -/

/-- An event arrives and is handled to the end, with these outcomes. -/
def System.handle (S : System L C R O W α) (l : L) (os : List O) (w : W) : Option (α × W) :=
  (S.arrive l w).bind fun v =>
    match (S.handler l).replay S.exec os v with
    | some (.ret a, w') => some (a, w')
    | _ => none

section
variable {S : System L C R O W α} {fin kil : L → W → W → Prop} {l : L} {os : List O} {a : α}
  {w₀ w w' : W}

theorem System.handle_steps (h : S.handle l os w = some (a, w')) :
    ∃ v, S.arrive l w = some v ∧ Steps S.exec (S.handler l) v (.ret a) w' := by
  simp only [System.handle, Option.bind_eq_some_iff] at h
  obtain ⟨v, ha, h⟩ := h
  split at h
  · next b u hr =>
    simp only [Option.some.injEq, Prod.mk.injEq] at h
    obtain ⟨rfl, rfl⟩ := h
    exact ⟨v, ha, Prog.replay_steps hr⟩
  · cases h

end

end VirtualGun.Program
