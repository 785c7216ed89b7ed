import VirtualGun.Program.Pool
import Mathlib.Data.Multiset.OrderedMonoid
import Mathlib.Tactic.Abel

/-!
# Tokens

Threads hold tokens, and each call takes some and gives others back. What a thread still has to do
is what it holds; what was done, and what waits, is stored in the world.
-/

namespace VirtualGun.Program

/-- A call needs some tokens and gives others back in exchange, depending on its response; of the
response `fact` is known, which may depend on the label of the thread. The tokens no thread holds
are `stored` in the world, and together they are what the world has `granted`, but for `spare`
ones, which may be lost. -/
structure Ledger (L C : Type) (R : C → Type) (W T : Type) where
  allowed : C → Prop
  needs : C → Multiset T
  returns : (c : C) → R c → Multiset T
  fact : L → (c : C) → R c → Prop
  stored : W → Multiset T
  granted : W → Multiset T
  spare : T → Prop
  inv : W → Prop

variable {L C : Type} {R : C → Type} {O W T : Type}

/-- From here on the program has the tokens its calls need, and what it ends with satisfies `Q`. -/
def Ledger.Owns (A : Ledger L C R W T) (l : L) {α : Type} (Q : α → Multiset T → Prop) :
    Prog C R α → Multiset T → Prop
  | .ret a, m => Q a m
  | .call c k, m => A.allowed c ∧ ∃ y, m = A.needs c + y ∧
      ∀ r, A.fact l c r → A.Owns l Q (k r) (A.returns c r + y)

/-- A thread ends with nothing but spare tokens. -/
def Ledger.Spends (A : Ledger L C R W T) (l : L) : Prog C R Unit → Multiset T → Prop :=
  A.Owns l fun _ m => ∀ t ∈ m, A.spare t

/-- The program trades the tokens `pre` for `post`, and leaves all others alone. -/
def Ledger.Trades (A : Ledger L C R W T) (l : L) {α : Type} (pre : Multiset T) (p : Prog C R α)
    (post : α → Multiset T) : Prop :=
  ∀ y, A.Owns l (fun a m => ∃ z, (∀ t ∈ z, A.spare t) ∧ m = post a + z + y) p (pre + y)

/-- From one world to the next the tokens `x` are taken from the threads, and `y` given to them. -/
def Ledger.Exchange (A : Ledger L C R W T) (x y : Multiset T) (w w' : W) : Prop :=
  ∃ z, (∀ t ∈ z, A.spare t) ∧ y + A.stored w' + z + A.granted w = x + A.stored w + A.granted w'

section
variable {A : Ledger L C R W T} {l : L} {α β : Type} {m x y : Multiset T}

theorem Ledger.owns_mono {Q Q' : α → Multiset T → Prop} {p : Prog C R α}
    (hQ : ∀ a m, Q a m → Q' a m) (h : A.Owns l Q p m) : A.Owns l Q' p m := by
  induction p generalizing m with
  | ret a => exact hQ a m h
  | call c k ih =>
    obtain ⟨hallowed, y, hm, hk⟩ := h
    exact ⟨hallowed, y, hm, fun r hr => ih r (hk r hr)⟩

theorem Ledger.owns_bind {Q : β → Multiset T → Prop} {p : Prog C R α} {f : α → Prog C R β}
    (h : A.Owns l (fun a => A.Owns l Q (f a)) p m) : A.Owns l Q (p >>= f) m := by
  induction p generalizing m with
  | ret a => exact h
  | call c k ih =>
    obtain ⟨hallowed, y, rfl, hk⟩ := h
    exact ⟨hallowed, y, rfl, fun r hr => ih r (hk r hr)⟩

theorem Ledger.Exchange.of_eq {w w' : W}
    (h : y + A.stored w' + A.granted w = x + A.stored w + A.granted w') : A.Exchange x y w w' :=
  ⟨0, nofun, by rw [add_zero, h]⟩

theorem Ledger.Exchange.frame {w w' : W} (h : A.Exchange x y w w') (m : Multiset T) :
    A.Exchange (m + x) (m + y) w w' := by
  obtain ⟨z, hz, h⟩ := h
  refine ⟨z, hz, ?_⟩
  calc m + y + A.stored w' + z + A.granted w
      = m + (y + A.stored w' + z + A.granted w) := by abel
    _ = m + x + A.stored w + A.granted w' := by rw [h]; abel

end

namespace Ledger.Trades

variable {A : Ledger L C R W T} {l : L} {α β : Type} {pre : Multiset T} {post : α → Multiset T}

theorem spends {p : Prog C R Unit} (h : A.Trades l pre p fun _ => 0) : A.Spends l p pre := by
  have hp := h 0
  rw [add_zero] at hp
  refine owns_mono (fun _ m hm => ?_) hp
  obtain ⟨z, hz, rfl⟩ := hm
  rwa [zero_add, add_zero]

theorem bind {p : Prog C R α} (mid : α → Multiset T) {f : α → Prog C R β}
    {post : β → Multiset T} (hp : A.Trades l pre p mid) (hf : ∀ a, A.Trades l (mid a) (f a) post) :
    A.Trades l pre (p >>= f) post := by
  intro y
  refine owns_bind (owns_mono (fun a m hm => ?_) (hp y))
  obtain ⟨z, hz, rfl⟩ := hm
  rw [add_assoc]
  refine owns_mono (fun b m hm => ?_) (hf a (z + y))
  obtain ⟨z', hz', rfl⟩ := hm
  refine ⟨z' + z, fun t ht => ?_, by abel⟩
  rcases Multiset.mem_add.mp ht with ht | ht
  · exact hz' t ht
  · exact hz t ht

theorem call {c : C} {k : R c → Prog C R α} (rest : Multiset T) (hallowed : A.allowed c)
    (hpre : pre = A.needs c + rest)
    (hk : ∀ r, A.fact l c r → A.Trades l (A.returns c r + rest) (k r) post) :
    A.Trades l pre (.call c k) post := by
  intro y
  refine ⟨hallowed, rest + y, by rw [hpre, add_assoc], fun r hr => ?_⟩
  rw [← add_assoc]
  exact hk r hr y

theorem inert {c : C} {k : R c → Prog C R α} (hallowed : A.allowed c) (hneeds : A.needs c = 0)
    (hreturns : ∀ r, A.returns c r = 0) (hk : ∀ r, A.Trades l pre (k r) post) :
    A.Trades l pre (.call c k) post :=
  call _ hallowed (by rw [hneeds, zero_add]) fun r _ => by rw [hreturns, zero_add]; exact hk r

theorem of_inert {p : Prog C R α}
    (hp : p.Calls (fun c => A.allowed c ∧ A.needs c = 0 ∧ ∀ r, A.returns c r = 0) fun _ _ => True) :
    A.Trades l pre p fun _ => pre := by
  induction p with
  | ret a => exact fun y => ⟨0, nofun, by rw [add_zero]⟩
  | call c k ih =>
    obtain ⟨⟨hallowed, hneeds, hreturns⟩, hk⟩ := hp
    exact inert hallowed hneeds hreturns fun r => ih r (hk r trivial)

theorem ret {a : α} (h : pre = post a) : A.Trades l pre (.ret a) post :=
  fun y => ⟨0, nofun, by rw [h, add_zero]⟩

theorem drop {a : α} {z : Multiset T} (hz : ∀ t ∈ z, A.spare t) (h : pre = post a + z) :
    A.Trades l pre (.ret a) post :=
  fun _ => ⟨z, hz, by rw [h]⟩

/-- The tokens a program does not ask for stay where they are. -/
theorem frame {p : Prog C R α} (h : A.Trades l pre p post) (x : Multiset T) :
    A.Trades l (pre + x) p fun a => post a + x := by
  intro y
  have hp := h (x + y)
  rw [← add_assoc] at hp
  refine owns_mono (fun a m hm => ?_) hp
  obtain ⟨z, hz, rfl⟩ := hm
  refine ⟨z, hz, ?_⟩
  beta_reduce
  abel

theorem spare {p : Prog C R α} {x : Multiset T} (hx : ∀ t ∈ x, A.spare t)
    (h : A.Trades l pre p post) : A.Trades l (pre + x) p post := by
  intro y
  have hp := h (x + y)
  rw [← add_assoc] at hp
  refine owns_mono (fun a m hm => ?_) hp
  obtain ⟨z, hz, rfl⟩ := hm
  refine ⟨z + x, fun t ht => ?_, by abel⟩
  rcases Multiset.mem_add.mp ht with ht | ht
  · exact hz t ht
  · exact hx t ht

theorem of_calls {p : Prog C R α} (hspare : ∀ t, A.spare t)
    (hp : p.Calls (fun c => A.allowed c ∧ A.needs c = 0) (A.fact l)) :
    A.Trades l pre p fun _ => 0 := by
  induction p generalizing pre with
  | ret a => exact drop (fun t _ => hspare t) (zero_add _).symm
  | call c k ih =>
    exact call pre hp.1.1 (by rw [hp.1.2, zero_add]) fun r hr => ih r (hp.2 r hr)

theorem ite {b : Prop} [Decidable b] {p q : Prog C R α} (hp : b → A.Trades l pre p post)
    (hq : ¬ b → A.Trades l pre q post) : A.Trades l pre (if b then p else q) post := by
  split
  · next h => exact hp h
  · next h => exact hq h

end Ledger.Trades

structure Ledger.Balanced (A : Ledger L C R W T) (P : Pool L C R W) (ms : List (Multiset T)) :
    Prop where
  owns : List.Forall₂ (fun t m => A.Spends t.label t.prog m) P.threads ms
  balance : ∃ z, (∀ t ∈ z, A.spare t) ∧ ms.sum + A.stored P.world + z = A.granted P.world
  inv : A.inv P.world

theorem forall₂_append_cons {α β : Type} {p : α → β → Prop} {pre post : List α} {a : α}
    {bs : List β} (h : List.Forall₂ p (pre ++ a :: post) bs) :
    ∃ bpre b bpost, bs = bpre ++ b :: bpost ∧ List.Forall₂ p pre bpre ∧ p a b ∧
      List.Forall₂ p post bpost := by
  induction pre generalizing bs with
  | nil =>
    obtain ⟨b, bpost, hab, hpost, rfl⟩ := List.forall₂_cons_left_iff.mp h
    exact ⟨[], b, bpost, rfl, .nil, hab, hpost⟩
  | cons x pre ih =>
    obtain ⟨y, ys, hxy, hys, rfl⟩ := List.forall₂_cons_left_iff.mp h
    obtain ⟨bpre, b, bpost, rfl, hpre, hab, hpost⟩ := ih hys
    exact ⟨y :: bpre, b, bpost, rfl, .cons hxy hpre, hab, hpost⟩

section
variable {A : Ledger L C R W T} {S : System L C R O W Unit} {P P' : Pool L C R W}
  {ms : List (Multiset T)}

theorem Ledger.Exchange.balance {x y m m' : Multiset T} {w w' : W} (h : A.Exchange x y w w')
    (hbal : ∃ z, (∀ t ∈ z, A.spare t) ∧ m + A.stored w + z = A.granted w) (hm : m' + x = m + y) :
    ∃ z, (∀ t ∈ z, A.spare t) ∧ m' + A.stored w' + z = A.granted w' := by
  obtain ⟨z, hz, hexchange⟩ := h
  obtain ⟨z', hz', hbal⟩ := hbal
  refine ⟨z + z', fun t ht => ?_, ?_⟩
  · rcases Multiset.mem_add.mp ht with ht | ht
    · exact hz t ht
    · exact hz' t ht
  · refine add_right_cancel (b := x + A.stored w + A.granted w) ?_
    calc m' + A.stored w' + (z + z') + (x + A.stored w + A.granted w)
        = (m' + x) + (A.stored w' + z + A.granted w) + (z' + A.stored w) := by abel
      _ = (m + A.stored w + z') + (y + A.stored w' + z + A.granted w) := by rw [hm]; abel
      _ = A.granted w' + (x + A.stored w + A.granted w) := by rw [hbal, hexchange]; abel

theorem Ledger.Balanced.move {m : Move L O} (h : A.Balanced P ms) (hm : P.move S m = some P')
    (harr : ∀ l w, m = .arrive l → S.arrive l P.world = some w →
      ∃ x, A.Spends l (S.handler l) x ∧ A.Exchange 0 x P.world w ∧ A.inv w)
    (hcall : ∀ i o l c k r w, m = .step i o → P.threads[i]? = some ⟨l, .call c k⟩ →
      A.allowed c → A.needs c + A.stored P.world ≤ A.granted P.world →
      S.exec c o P.world = some (r, w) →
      A.fact l c r ∧ A.Exchange (A.needs c) (A.returns c r) P.world w ∧ A.inv w) :
    ∃ ms', A.Balanced P' ms' := by
  rcases Pool.move_cases hm with ⟨l, w, rfl, ha, rfl⟩ | ⟨pre, l, c, k, post, o, r, w, rfl, ht, he, rfl⟩
  · obtain ⟨x, hx, hexchange, hinv⟩ := harr l w rfl ha
    exact ⟨ms ++ [x], List.rel_append h.owns (.cons hx .nil),
      hexchange.balance h.balance (by simp), hinv⟩
  · have hown := h.owns
    rw [ht] at hown
    obtain ⟨mpre, x, mpost, rfl, hpre, ⟨hallowed, y, rfl, hk⟩, hpost⟩ := forall₂_append_cons hown
    have hheld : A.needs c + A.stored P.world ≤ A.granted P.world := by
      obtain ⟨z, -, hbal⟩ := h.balance
      rw [← hbal]
      simp only [List.sum_append, List.sum_cons]
      refine le_iff_exists_add.mpr ⟨mpre.sum + y + mpost.sum + z, ?_⟩
      abel
    obtain ⟨hfact, hexchange, hinv⟩ :=
      hcall pre.length o l c k r w rfl (by simp [ht]) hallowed hheld he
    refine ⟨mpre ++ (A.returns c r + y) :: mpost,
      List.rel_append hpre (.cons (hk r hfact) hpost), hexchange.balance h.balance ?_, hinv⟩
    simp only [List.sum_append, List.sum_cons]
    abel

/-- When no thread is part-way through, the world stores all it granted but for spare tokens. -/
theorem Ledger.Balanced.quiet [DecidableEq T] {t : T} (h : A.Balanced P ms)
    (hq : P.quiet = true) (ht : ¬ A.spare t) :
    (A.stored P.world).count t = (A.granted P.world).count t := by
  have hzero : ∀ {ts : List (Thread L C R)} {ms},
      List.Forall₂ (fun t m => A.Spends t.label t.prog m) ts ms →
      (∀ t ∈ ts, t.prog.isRet = true) → ms.sum.count t = 0 := by
    intro ts ms hown hret
    induction hown with
    | nil => rfl
    | @cons u m ts ms hu _ ih =>
      obtain ⟨a, ha⟩ := (Prog.isRet_iff u.prog).mp (hret u (by simp))
      rw [ha] at hu
      rw [List.sum_cons, Multiset.count_add, ih fun u hu => hret u (List.mem_cons_of_mem _ hu),
        add_zero, Multiset.count_eq_zero]
      exact fun hm => ht (hu t hm)
  obtain ⟨z, hz, hbal⟩ := h.balance
  rw [← hbal, Multiset.count_add, Multiset.count_add, hzero h.owns (List.all_eq_true.mp hq),
    Multiset.count_eq_zero.mpr fun hm => ht (hz t hm), zero_add, add_zero]

/-- What the next call of a thread needs. -/
def Ledger.needed (A : Ledger L C R W T) (t : Thread L C R) : Multiset T :=
  (t.prog.next?.map A.needs).getD 0

/-- What the next calls of all threads need together was granted, beside what is stored. -/
theorem Ledger.Balanced.needed_le (h : A.Balanced P ms) :
    (P.threads.map A.needed).sum + A.stored P.world ≤ A.granted P.world := by
  have hheld : ∀ {ts : List (Thread L C R)} {ms},
      List.Forall₂ (fun t m => A.Spends t.label t.prog m) ts ms → (ts.map A.needed).sum ≤ ms.sum := by
    intro ts ms hown
    induction hown with
    | nil => exact le_rfl
    | @cons t m ts ms ht _ ih =>
      rw [List.map_cons, List.sum_cons, List.sum_cons]
      refine add_le_add ?_ ih
      obtain ⟨l, p⟩ := t
      cases p with
      | ret a => exact Multiset.zero_le m
      | call c k =>
        obtain ⟨-, y, rfl, -⟩ := ht
        exact le_self_add
  obtain ⟨z, -, hbal⟩ := h.balance
  rw [← hbal]
  calc (P.threads.map A.needed).sum + A.stored P.world
      ≤ ms.sum + A.stored P.world := add_le_add (hheld h.owns) le_rfl
    _ ≤ ms.sum + A.stored P.world + z := le_self_add

theorem Ledger.Balanced.stored_le (h : A.Balanced P ms) : A.stored P.world ≤ A.granted P.world := by
  obtain ⟨z, -, hbal⟩ := h.balance
  rw [← hbal, add_right_comm]
  exact le_add_self

end

end VirtualGun.Program
