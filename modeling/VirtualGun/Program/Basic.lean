import Mathlib.Data.Nat.Notation

/-!
# Programs that call their environment

A program is a tree: it ends, or it makes a call and goes on from the response. What a call does,
and which of its outcomes the environment picks, is left to an `Exec`.
-/

namespace VirtualGun.Program

/-- A call `c` comes back with an `R c`, and the program goes on from it. -/
inductive Prog (C : Type) (R : C → Type) (α : Type) where
  | ret (a : α)
  | call (c : C) (k : R c → Prog C R α)

variable {C : Type} {R : C → Type} {α β γ : Type}

namespace Prog

def bind : Prog C R α → (α → Prog C R β) → Prog C R β
  | .ret a, f => f a
  | .call c k, f => .call c fun r => (k r).bind f

instance : Monad (Prog C R) where
  pure := .ret
  bind := bind

def perform (c : C) : Prog C R (R c) := .call c .ret

/-- The call the program makes next. -/
def next? : Prog C R α → Option C
  | .ret _ => none
  | .call c _ => some c

def isRet : Prog C R α → Bool
  | .ret _ => true
  | .call _ _ => false

@[simp] theorem next?_ret (a : α) : (.ret a : Prog C R α).next? = none := rfl

@[simp] theorem next?_call (c : C) (k : R c → Prog C R α) : (Prog.call c k).next? = some c := rfl

@[simp] theorem pure_def (a : α) : (pure a : Prog C R α) = .ret a := rfl

@[simp] theorem ret_bind (a : α) (f : α → Prog C R β) : (.ret a : Prog C R α) >>= f = f a := rfl

@[simp] theorem call_bind (c : C) (k : R c → Prog C R α) (f : α → Prog C R β) :
    (.call c k : Prog C R α) >>= f = .call c fun r => k r >>= f := rfl

@[simp] theorem perform_bind (c : C) (f : R c → Prog C R β) : perform c >>= f = .call c f := rfl

theorem bind_ret (p : Prog C R α) : p >>= .ret = p := by
  induction p with
  | ret a => rfl
  | call c k ih => simp [ih]

theorem bind_assoc (p : Prog C R α) (f : α → Prog C R β) (g : β → Prog C R γ) :
    p >>= f >>= g = p >>= fun a => f a >>= g := by
  induction p with
  | ret a => rfl
  | call c k ih => simp [ih]

instance : LawfulMonad (Prog C R) := LawfulMonad.mk' _ bind_ret (fun _ _ => rfl) bind_assoc

/-- Every call the program can make is one of `ok`, when every response is one of `can`. -/
def Calls (ok : C → Prop) (can : (c : C) → R c → Prop) : Prog C R α → Prop
  | .ret _ => True
  | .call c k => ok c ∧ ∀ r, can c r → (k r).Calls ok can

section
variable {ok : C → Prop} {can : (c : C) → R c → Prop}

@[simp] theorem calls_ret (a : α) : (.ret a : Prog C R α).Calls ok can := trivial

@[simp] theorem calls_call (c : C) (k : R c → Prog C R α) :
    (Prog.call c k).Calls ok can ↔ ok c ∧ ∀ r, can c r → (k r).Calls ok can := Iff.rfl

theorem calls_bind {p : Prog C R α} {f : α → Prog C R β} (hp : p.Calls ok can)
    (hf : ∀ a, (f a).Calls ok can) : (p >>= f).Calls ok can := by
  induction p with
  | ret a => exact hf a
  | call c k ih => exact ⟨hp.1, fun r hr => ih r (hp.2 r hr)⟩

theorem calls_mono {ok' : C → Prop} {can' : (c : C) → R c → Prop} {p : Prog C R α}
    (hok : ∀ c, ok c → ok' c) (hcan : ∀ c r, can' c r → can c r) (hp : p.Calls ok can) :
    p.Calls ok' can' := by
  induction p with
  | ret a => trivial
  | call c k ih => exact ⟨hok c hp.1, fun r hr => ih r (hp.2 r (hcan c r hr))⟩

theorem calls_ite {b : Prop} [Decidable b] {p q : Prog C R α} (hp : b → p.Calls ok can)
    (hq : ¬ b → q.Calls ok can) : (if b then p else q).Calls ok can := by
  split
  · next h => exact hp h
  · next h => exact hq h

end

/-- Every run of the program makes a call of `hit`, when every response is one of `can`. -/
def Makes (hit : C → Prop) (can : (c : C) → R c → Prop) : Prog C R α → Prop
  | .ret _ => False
  | .call c k => hit c ∨ ∀ r, can c r → (k r).Makes hit can

section
variable {hit : C → Prop} {can : (c : C) → R c → Prop}

@[simp] theorem makes_call (c : C) (k : R c → Prog C R α) :
    (Prog.call c k).Makes hit can ↔ hit c ∨ ∀ r, can c r → (k r).Makes hit can := Iff.rfl

theorem makes_bind {p : Prog C R α} {f : α → Prog C R β} (hp : p.Makes hit can) :
    (p >>= f).Makes hit can := by
  induction p with
  | ret a => exact hp.elim
  | call c k ih => exact hp.imp_right fun h r hr => ih r (h r hr)

theorem makes_ite {b : Prop} [Decidable b] {p q : Prog C R α} (hp : b → p.Makes hit can)
    (hq : ¬ b → q.Makes hit can) : (if b then p else q).Makes hit can := by
  split
  · next h => exact hp h
  · next h => exact hq h

end

/-- Every result of the program is one of `Q`, when every response is one of `can`. -/
def Ends (Q : α → Prop) (can : (c : C) → R c → Prop) : Prog C R α → Prop
  | .ret a => Q a
  | .call c k => ∀ r, can c r → (k r).Ends Q can

section
variable {Q : α → Prop} {Q' : β → Prop} {ok : C → Prop} {can : (c : C) → R c → Prop}

@[simp] theorem ends_ret (a : α) : (.ret a : Prog C R α).Ends Q can ↔ Q a := Iff.rfl

@[simp] theorem ends_call (c : C) (k : R c → Prog C R α) :
    (Prog.call c k).Ends Q can ↔ ∀ r, can c r → (k r).Ends Q can := Iff.rfl

theorem ends_bind {p : Prog C R α} {f : α → Prog C R β} (hp : p.Ends Q can)
    (hf : ∀ a, Q a → (f a).Ends Q' can) : (p >>= f).Ends Q' can := by
  induction p with
  | ret a => exact hf a hp
  | call c k ih => exact fun r hr => ih r (hp r hr)

theorem ends_ite {b : Prop} [Decidable b] {p q : Prog C R α} (hp : b → p.Ends Q can)
    (hq : ¬ b → q.Ends Q can) : (if b then p else q).Ends Q can := by
  split
  · next h => exact hp h
  · next h => exact hq h

theorem ends_true (p : Prog C R α) : p.Ends (fun _ => True) can := by
  induction p with
  | ret a => trivial
  | call c k ih => exact fun r _ => ih r

/-- The calls of the second program may depend on what the first can return. -/
theorem calls_seq {p : Prog C R α} {f : α → Prog C R β} (hp : p.Calls ok can) (hQ : p.Ends Q can)
    (hf : ∀ a, Q a → (f a).Calls ok can) : (p >>= f).Calls ok can := by
  induction p with
  | ret a => exact hf a hQ
  | call c k ih => exact ⟨hp.1, fun r hr => ih r (hp.2 r hr) (hQ r hr)⟩

end

@[simp] theorem isRet_iff (p : Prog C R α) : p.isRet = true ↔ ∃ a, p = .ret a := by
  cases p <;> simp [isRet]

end Prog

/-! ## Running -/

/-- A call and the outcome the environment picks give a response and the next world, or `none`
when that outcome cannot happen there. -/
abbrev Exec (C : Type) (R : C → Type) (O W : Type) := (c : C) → O → W → Option (R c × W)

variable {O W : Type}

/-- Only the outcomes `ok` lets happen. -/
def Exec.only (ok : C → O → Bool) (exec : Exec C R O W) : Exec C R O W :=
  fun c o w => if ok c o then exec c o w else none

theorem Exec.only_eq_some {ok : C → O → Bool} {exec : Exec C R O W} {c : C} {o : O} {w : W}
    {x : R c × W} : exec.only ok c o w = some x ↔ ok c o = true ∧ exec c o w = some x := by
  simp [Exec.only]

theorem Exec.only_true (exec : Exec C R O W) : exec.only (fun _ _ => true) = exec := by
  funext c o w
  simp [Exec.only]

/-- Only the outcomes `ok` lets happen in the world as it is. -/
def Exec.within (ok : C → O → W → Bool) (exec : Exec C R O W) : Exec C R O W :=
  fun c o w => if ok c o w then exec c o w else none

theorem Exec.within_eq_some {ok : C → O → W → Bool} {exec : Exec C R O W} {c : C} {o : O} {w : W}
    {x : R c × W} : exec.within ok c o w = some x ↔ ok c o w = true ∧ exec c o w = some x := by
  simp [Exec.within]

/-- Whatever happens under `exec` can happen under `exec'`. -/
def Exec.Sub (exec exec' : Exec C R O W) : Prop := ∀ c o w x, exec c o w = some x → exec' c o w = some x

theorem Exec.within_sub (ok : C → O → W → Bool) (exec : Exec C R O W) : (exec.within ok).Sub exec :=
  fun _ _ _ _ h => (within_eq_some.mp h).2

/-- The response is one that a call can come back with. -/
def Exec.Answers (exec : Exec C R O W) (c : C) (r : R c) : Prop :=
  ∃ o w w', exec c o w = some (r, w')

/-- The calls made so far in a run, in order, with their outcomes. -/
abbrev Log (C O : Type) := List (C × O)

/-- The same calls, with a log of them beside the world. -/
def Exec.logged (exec : Exec C R O W) : Exec C R O (W × Log C O) :=
  fun c o w => (exec c o w.1).map fun x => (x.1, x.2, w.2 ++ [(c, o)])

theorem Exec.logged_eq_some {exec : Exec C R O W} {c : C} {o : O} {w : W × Log C O}
    {x : R c × W × Log C O} :
    exec.logged c o w = some x ↔
      ∃ v, exec c o w.1 = some (x.1, v) ∧ x.2 = (v, w.2 ++ [(c, o)]) := by
  obtain ⟨r, v, l⟩ := x
  simp only [Exec.logged, Option.map_eq_some_iff, Prod.mk.injEq, Prod.exists]
  constructor
  · rintro ⟨r', v', h, rfl, rfl, rfl⟩; exact ⟨_, h, rfl, rfl⟩
  · rintro ⟨v', h, rfl, rfl⟩; exact ⟨_, _, h, rfl, rfl, rfl⟩

/-- From `p` in `w`, some calls later: what is left of the program, and the world there. -/
inductive Steps (exec : Exec C R O W) : Prog C R α → W → Prog C R α → W → Prop
  | refl {p w} : Steps exec p w p w
  | call {c k o r w w' p w''} : exec c o w = some (r, w') → Steps exec (k r) w' p w'' →
      Steps exec (.call c k) w p w''

variable {exec : Exec C R O W}

theorem Steps.of_only {ok : C → O → Bool} {p q : Prog C R α} {w w' : W}
    (h : Steps (exec.only ok) p w q w') : Steps exec p w q w' := by
  induction h with
  | refl => exact .refl
  | call he _ ih => exact .call (Exec.only_eq_some.mp he).2 ih

/-- A run whose log has `ok` outcomes only. -/
theorem Steps.of_logged {ok : C → O → Bool} {p q : Prog C R α} {x y : W × Log C O}
    (h : Steps exec.logged p x q y) :
    ∃ m, y.2 = x.2 ++ m ∧ ((∀ e ∈ m, ok e.1 e.2 = true) → Steps (exec.only ok) p x.1 q y.1) := by
  induction h with
  | refl => exact ⟨[], (List.append_nil _).symm, fun _ => .refl⟩
  | @call c k o r x x' p y he _ ih =>
    obtain ⟨v, hv, rfl⟩ := Exec.logged_eq_some.mp he
    obtain ⟨m, hm, hs⟩ := ih
    refine ⟨(c, o) :: m, by rw [hm, List.append_assoc]; rfl, fun hok => ?_⟩
    exact .call (Exec.only_eq_some.mpr ⟨hok _ List.mem_cons_self, hv⟩)
      (hs fun e he => hok e (List.mem_cons_of_mem _ he))

theorem Steps.keeps {J : W → Prop} {p q : Prog C R α} {w w' : W} (h : Steps exec p w q w')
    (hJ : ∀ c o r w w', J w → exec c o w = some (r, w') → J w') (hw : J w) : J w' := by
  induction h with
  | refl => exact hw
  | call he _ ih => exact ih (hJ _ _ _ _ _ hw he)

theorem Steps.trans {p q r : Prog C R α} {u v w : W} (h : Steps exec p u q v)
    (h' : Steps exec q v r w) : Steps exec p u r w := by
  induction h with
  | refl => exact h'
  | call he _ ih => exact .call he (ih h')

theorem Steps.bind {p q : Prog C R α} {w w' : W} (h : Steps exec p w q w') (f : α → Prog C R β) :
    Steps exec (p >>= f) w (q >>= f) w' := by
  induction h with
  | refl => exact .refl
  | call he _ ih => exact .call he ih

theorem Steps.seq {p : Prog C R α} {f : α → Prog C R β} {q : Prog C R β} {a : α} {u v w : W}
    (h : Steps exec p u (.ret a) v) (h' : Steps exec (f a) v q w) : Steps exec (p >>= f) u q w :=
  (h.bind f).trans h'

theorem Steps.of_bind {p : Prog C R α} {f : α → Prog C R β} {b : β} {w w' : W}
    (h : Steps exec (p >>= f) w (.ret b) w') :
    ∃ a v, Steps exec p w (.ret a) v ∧ Steps exec (f a) v (.ret b) w' := by
  induction p generalizing w with
  | ret a => exact ⟨a, w, .refl, h⟩
  | call c k ih =>
    cases h with
    | call he hs =>
      obtain ⟨a, v, hk, hf⟩ := ih _ hs
      exact ⟨a, v, .call he hk, hf⟩

/-- A run of `p` begun in `v` gets to a run of `q` in `w`. -/
def ComesTo (exec : Exec C R O W) (p : Prog C R α) (v : W) (q : Prog C R β) (w : W) : Prop :=
  ∃ k, Steps exec p v (q >>= k) w

theorem ComesTo.here (q : Prog C R β) (f : β → Prog C R α) (w : W) : ComesTo exec (q >>= f) w q w :=
  ⟨f, .refl⟩

theorem ComesTo.bind {p : Prog C R α} {q : Prog C R β} {v w : W} (h : ComesTo exec p v q w)
    (f : α → Prog C R γ) : ComesTo exec (p >>= f) v q w := by
  obtain ⟨k, hk⟩ := h
  refine ⟨fun b => k b >>= f, ?_⟩
  rw [← Prog.bind_assoc]
  exact hk.bind f

theorem ComesTo.seq {p : Prog C R α} {f : α → Prog C R γ} {q : Prog C R β} {a : α} {u v w : W}
    (h : Steps exec p u (.ret a) v) (h' : ComesTo exec (f a) v q w) : ComesTo exec (p >>= f) u q w :=
  h'.imp fun _ hk => h.seq hk

/-- A run of `p` begun in `v` is about to make the call `c` in `w`. -/
def AboutTo (exec : Exec C R O W) (p : Prog C R α) (v : W) (c : C) (w : W) : Prop :=
  ∃ k, Steps exec p v (.call c k) w

theorem AboutTo.of_calls {ok : C → Prop} {p : Prog C R α} {c : C} {v w : W}
    (hp : p.Calls ok fun _ _ => True) (h : AboutTo exec p v c w) : ok c := by
  obtain ⟨k, hk⟩ := h
  generalize hq : Prog.call c k = q at hk
  induction hk with
  | refl =>
    subst hq
    exact hp.1
  | call he _ ih => exact ih (hp.2 _ trivial) hq

theorem AboutTo.of_bind {p : Prog C R α} {f : α → Prog C R β} {c : C} {v w : W}
    (h : AboutTo exec (p >>= f) v c w) :
    AboutTo exec p v c w ∨ ∃ a u, Steps exec p v (.ret a) u ∧ AboutTo exec (f a) u c w := by
  obtain ⟨k, hk⟩ := h
  induction p generalizing v with
  | ret a => exact .inr ⟨a, v, .refl, k, hk⟩
  | call c' k' ih =>
    cases hk with
    | refl => exact .inl ⟨k', .refl⟩
    | call he hs =>
      rcases ih _ hs with ⟨k'', h⟩ | ⟨a, u, h, hf⟩
      · exact .inl ⟨k'', .call he h⟩
      · exact .inr ⟨a, u, .call he h, hf⟩

theorem AboutTo.past {ok : C → Prop} {p : Prog C R α} {f : α → Prog C R β} {c : C} {v w : W}
    (h : AboutTo exec (p >>= f) v c w) (hp : p.Calls ok fun _ _ => True) (hc : ¬ ok c) :
    ∃ a u, Steps exec p v (.ret a) u ∧ AboutTo exec (f a) u c w :=
  h.of_bind.resolve_left fun hpc => hc (hpc.of_calls hp)

theorem ComesTo.aboutTo {p : Prog C R α} {q : Prog C R β} {c : C} {u v w : W}
    (h : ComesTo exec p v q u) (hq : AboutTo exec q u c w) : AboutTo exec p v c w := by
  obtain ⟨f, hf⟩ := h
  obtain ⟨k, hk⟩ := hq
  exact ⟨fun r => k r >>= f, hf.trans (hk.bind f)⟩

theorem Steps.exists_ret (h : ∀ c w, ∃ o r w', exec c o w = some (r, w')) (p : Prog C R α) (w : W) :
    ∃ a w', Steps exec p w (.ret a) w' := by
  induction p generalizing w with
  | ret a => exact ⟨a, w, .refl⟩
  | call c k ih =>
    obtain ⟨o, r, v, he⟩ := h c w
    obtain ⟨a, w', hs⟩ := ih r v
    exact ⟨a, w', .call he hs⟩

theorem Steps.exists_end {ok : C → Prop}
    (h : ∀ c w, ok c → ∃ o r w', exec c o w = some (r, w')) {p : Prog C R α} {w : W}
    (hp : ∀ q w', Steps exec p w q w' → ∀ c, q.next? = some c → ok c) :
    ∃ a w', Steps exec p w (.ret a) w' := by
  induction p generalizing w with
  | ret a => exact ⟨a, w, .refl⟩
  | call c k ih =>
    obtain ⟨o, r, v, he⟩ := h c w (hp _ _ .refl c rfl)
    obtain ⟨a, w', hs⟩ := ih r fun q w' hq => hp q w' (.call he hq)
    exact ⟨a, w', .call he hs⟩

/-- Plays the outcomes of a list, one a call. -/
def Prog.replay (exec : Exec C R O W) : List O → Prog C R α → W → Option (Prog C R α × W)
  | [], p, w => some (p, w)
  | _ :: _, .ret _, _ => none
  | o :: os, .call c k, w => (exec c o w).bind fun x => (k x.1).replay exec os x.2

theorem Prog.replay_steps {os : List O} {p q : Prog C R α} {w v : W}
    (h : p.replay exec os w = some (q, v)) : Steps exec p w q v := by
  induction os generalizing p w with
  | nil => simp only [replay, Option.some.injEq, Prod.mk.injEq] at h; obtain ⟨rfl, rfl⟩ := h; exact .refl
  | cons o os ih =>
    cases p with
    | ret a => simp [replay] at h
    | call c k =>
      simp only [replay, Option.bind_eq_some_iff, Prod.exists] at h
      obtain ⟨r, w', he, hr⟩ := h
      exact .call he (ih hr)

/-- Plays the outcomes that `choose` gives the calls, until the program ends or is about to make a
call of `stop`. -/
def Prog.playUntil (exec : Exec C R O W) (choose : C → O) (stop : C → Bool) :
    Prog C R α → W → Option (Prog C R α × W)
  | .ret a, w => some (.ret a, w)
  | .call c k, w =>
    if stop c then some (.call c k, w)
    else (exec c (choose c) w).bind fun x => (k x.1).playUntil exec choose stop x.2

theorem Prog.playUntil_steps {choose : C → O} {stop : C → Bool} {p q : Prog C R α} {w v : W}
    (h : p.playUntil exec choose stop w = some (q, v)) : Steps exec p w q v := by
  induction p generalizing w with
  | ret a =>
    simp only [playUntil, Option.some.injEq, Prod.mk.injEq] at h
    obtain ⟨rfl, rfl⟩ := h
    exact .refl
  | call c k ih =>
    simp only [playUntil] at h
    split at h
    · simp only [Option.some.injEq, Prod.mk.injEq] at h
      obtain ⟨rfl, rfl⟩ := h
      exact .refl
    · simp only [Option.bind_eq_some_iff, Prod.exists] at h
      obtain ⟨r, w', he, hr⟩ := h
      exact .call he (ih r hr)

/-- Played to its end with the outcomes that `choose` gives the calls, the program passes `check`. -/
def Prog.endsWith (exec : Exec C R O W) (choose : C → O) (check : α → W → Bool) :
    Prog C R α → W → Bool
  | .ret a, w => check a w
  | .call c k, w => (exec c (choose c) w).any fun x => (k x.1).endsWith exec choose check x.2

theorem Prog.endsWith_steps {choose : C → O} {check : α → W → Bool} {p : Prog C R α} {w : W}
    (h : p.endsWith exec choose check w = true) :
    ∃ a w', Steps exec p w (.ret a) w' ∧ check a w' = true := by
  induction p generalizing w with
  | ret a => exact ⟨a, w, .refl, h⟩
  | call c k ih =>
    obtain ⟨⟨r, w'⟩, he, hr⟩ := (Option.any_eq_true _ _).mp h
    obtain ⟨a, v, hs, hc⟩ := ih r hr
    exact ⟨a, v, .call he hs, hc⟩

end VirtualGun.Program
