import VirtualGun.Program.History

/-!
# Programs that run side by side

A pool holds the programs in progress. A move lets an event arrive, or lets one thread make its
next call; calls are atomic and any thread may be next.
-/

namespace VirtualGun.Program

structure Thread (L C : Type) (R : C → Type) where
  label : L
  prog : Prog C R Unit

structure Pool (L C : Type) (R : C → Type) (W : Type) where
  threads : List (Thread L C R)
  world : W

inductive Move (L O : Type) where
  | arrive (l : L)
  | step (i : ℕ) (o : O)

variable {L C : Type} {R : C → Type} {O W : Type}

namespace Pool

def move (S : System L C R O W Unit) (P : Pool L C R W) : Move L O → Option (Pool L C R W)
  | .arrive l => (S.arrive l P.world).map fun w => ⟨P.threads ++ [⟨l, S.handler l⟩], w⟩
  | .step i o =>
    match P.threads[i]? with
    | some ⟨l, .call c k⟩ =>
      (S.exec c o P.world).map fun x => ⟨P.threads.set i ⟨l, k x.1⟩, x.2⟩
    | _ => none

/-- No thread is part-way through. -/
def quiet (P : Pool L C R W) : Bool := P.threads.all fun t => t.prog.isRet

/-- The call a thread makes next. -/
def nextCall (P : Pool L C R W) (i : ℕ) : Option C := P.threads[i]?.bind fun t => t.prog.next?

variable {S : System L C R O W Unit} {P P' : Pool L C R W}

theorem move_cases {m : Move L O} (h : P.move S m = some P') :
    (∃ l w, m = .arrive l ∧ S.arrive l P.world = some w ∧
      P' = ⟨P.threads ++ [⟨l, S.handler l⟩], w⟩) ∨
    ∃ pre l c k post o r w, m = .step pre.length o ∧
      P.threads = pre ++ ⟨l, .call c k⟩ :: post ∧ S.exec c o P.world = some (r, w) ∧
      P' = ⟨pre ++ ⟨l, k r⟩ :: post, w⟩ := by
  cases m with
  | arrive l =>
    simp only [move, Option.map_eq_some_iff] at h
    obtain ⟨w, hw, rfl⟩ := h
    exact .inl ⟨l, w, rfl, hw, rfl⟩
  | step i o =>
    right
    simp only [move] at h
    split at h
    · next l c k hi =>
      simp only [Option.map_eq_some_iff, Prod.exists] at h
      obtain ⟨r, w, he, rfl⟩ := h
      obtain ⟨hlt, hget⟩ := List.getElem?_eq_some_iff.mp hi
      have hlen : (P.threads.take i).length = i := by simp; omega
      have hsplit : P.threads = P.threads.take i ++ ⟨l, .call c k⟩ :: P.threads.drop (i + 1) := by
        rw [← hget, List.getElem_cons_drop, List.take_append_drop]
      refine ⟨_, l, c, k, _, o, r, w, by rw [hlen], hsplit, he, ?_⟩
      rw [List.set_eq_take_append_cons_drop, if_pos hlt]
    · exact absurd h (by simp)

end Pool

/-- The pools some moves lead to, each of them one `ok` allows. -/
inductive Reach (S : System L C R O W Unit) (ok : Pool L C R W → Move L O → Prop)
    (P₀ : Pool L C R W) : Pool L C R W → Prop
  | init : Reach S ok P₀ P₀
  | move {P P' m} : Reach S ok P₀ P → ok P m → P.move S m = some P' → Reach S ok P₀ P'

theorem Reach.mono {S : System L C R O W Unit} {ok ok' : Pool L C R W → Move L O → Prop}
    {P₀ P : Pool L C R W} (hok : ∀ P m, ok P m → ok' P m) (hP : Reach S ok P₀ P) :
    Reach S ok' P₀ P := by
  induction hP with
  | init => exact .init
  | move _ hm h ih => exact ih.move (hok _ _ hm) h

/-- What a thread has when it begins, and no move takes from it, every thread has. -/
theorem Reach.threads {S : System L C R O W Unit} {ok : Pool L C R W → Move L O → Prop} {w₀ : W}
    {P : Pool L C R W} {T : L → Prog C R Unit → W → Prop} (hP : Reach S ok ⟨[], w₀⟩ P)
    (hstart : ∀ P l w, Reach S ok ⟨[], w₀⟩ P → S.arrive l P.world = some w → T l (S.handler l) w)
    (harrive : ∀ l p l' w w', T l p w → S.arrive l' w = some w' → T l p w')
    (hself : ∀ P l c k o r w, Reach S ok ⟨[], w₀⟩ P → T l (.call c k) P.world →
      S.exec c o P.world = some (r, w) → T l (k r) w)
    (hother : ∀ l p c o (r : R c) w w', T l p w → S.exec c o w = some (r, w') → T l p w') :
    ∀ t ∈ P.threads, T t.label t.prog P.world := by
  induction hP with
  | init => nofun
  | @move P P' m hP hok hm ih =>
    rcases Pool.move_cases hm with ⟨l, w, rfl, ha, rfl⟩ |
      ⟨pre, l, c, k, post, o, r, w, rfl, ht, he, rfl⟩
    · refine fun t ht => ?_
      rcases List.mem_append.mp ht with ht | ht
      · exact harrive _ _ _ _ _ (ih t ht) ha
      · rw [List.mem_singleton.mp ht]
        exact hstart P l w hP ha
    · intro t hmem
      rcases List.mem_append.mp hmem with hmem | hmem
      · exact hother _ _ _ _ _ _ _ (ih t (by simp [ht, hmem])) he
      · rcases List.mem_cons.mp hmem with rfl | hmem
        · exact hself P l c k o r w hP (ih ⟨l, .call c k⟩ (by simp [ht])) he
        · exact hother _ _ _ _ _ _ _ (ih t (by simp [ht, hmem])) he

/-- The moves of events that are handled one after the other, in threads from number `i` on. -/
def serial : ℕ → List (L × List O) → List (Move L O)
  | _, [] => []
  | i, (l, os) :: es => .arrive l :: os.map (.step i) ++ serial (i + 1) es

/-- Plays a list of moves, each of which has to be allowed. -/
def Pool.replay (S : System L C R O W Unit) (ok : Pool L C R W → Move L O → Bool) :
    List (Move L O) → Pool L C R W → Option (Pool L C R W)
  | [], P => some P
  | m :: ms, P => if ok P m then (P.move S m).bind (replay S ok ms) else none

theorem Reach.replay {S : System L C R O W Unit} {ok : Pool L C R W → Move L O → Bool}
    {ms : List (Move L O)} {P₀ P P' : Pool L C R W} (hP : Reach S (fun P m => ok P m) P₀ P)
    (h : P.replay S ok ms = some P') : Reach S (fun P m => ok P m) P₀ P' := by
  induction ms generalizing P with
  | nil => simp only [Pool.replay, Option.some.injEq] at h; exact h ▸ hP
  | cons m ms ih =>
    simp only [Pool.replay, Option.ite_none_right_eq_some, Option.bind_eq_some_iff] at h
    obtain ⟨hok, Q, hm, hr⟩ := h
    exact ih (hP.move hok hm) hr

/-! ## Rely and guarantee -/

/-- `inv` holds whenever a thread runs, other threads move the world along `rely`, a call is made
only where `pre` allows it, and `may` says which outcomes are looked at. -/
structure Contract (L C O W : Type) where
  inv : W → Prop
  rely : W → W → Prop
  pre : L → C → W → Prop
  may : L → C → O → W → Prop

/-- The program keeps to the contract from a world on, whatever the other threads do between. -/
def Contract.Keeps (K : Contract L C O W) (exec : Exec C R O W) (l : L) {α : Type} :
    Prog C R α → W → Prop
  | .ret _, _ => True
  | .call c k, w => ∀ v, K.inv v → K.rely w v → K.pre l c v ∧
      ∀ o r v', K.may l c o v → exec c o v = some (r, v') → K.Keeps exec l (k r) v'

section
variable {K : Contract L C O W} {exec : Exec C R O W} {l : L} {α β : Type}

theorem Contract.Keeps.stable (htrans : ∀ {u v w}, K.rely u v → K.rely v w → K.rely u w)
    {p : Prog C R α} {w w' : W} (h : K.Keeps exec l p w) (hw : K.rely w w') :
    K.Keeps exec l p w' := by
  cases p with
  | ret a => trivial
  | call c k => exact fun v hv hrely => h v hv (htrans hw hrely)

theorem Contract.keeps_of_calls {okc : C → Prop} {can : (c : C) → R c → Prop}
    (hpre : ∀ c w, K.inv w → okc c → K.pre l c w)
    (hcan : ∀ c o r w w', K.inv w → exec c o w = some (r, w') → can c r)
    {p : Prog C R α} (hp : p.Calls okc can) (w : W) : K.Keeps exec l p w := by
  induction p generalizing w with
  | ret a => trivial
  | call c k ih =>
    exact fun v hv _ => ⟨hpre c v hv hp.1, fun o r v' _ he => ih r (hp.2 r (hcan c o r v v' hv he)) v'⟩

/-- The rest of a program may depend on what the first part returned, and on nothing else. -/
theorem Contract.Keeps.bind {p : Prog C R α} {f : α → Prog C R β} {w : W}
    (hp : K.Keeps exec l p w) (hf : ∀ a w, K.Keeps exec l (f a) w) :
    K.Keeps exec l (p >>= f) w := by
  induction p generalizing w with
  | ret a => exact hf a w
  | call c k ih =>
    intro v hv hrely
    obtain ⟨hpre, hk⟩ := hp v hv hrely
    exact ⟨hpre, fun o r v' hm he => ih r (hk o r v' hm he)⟩

/-- Threads that keep to the contract keep its invariant. -/
theorem Reach.contract {S : System L C R O W Unit} {ok : Pool L C R W → Move L O → Prop} {w₀ : W}
    {P : Pool L C R W} (hP : Reach S ok ⟨[], w₀⟩ P) (h₀ : K.inv w₀)
    (hrefl : ∀ w, K.rely w w) (htrans : ∀ {u v w}, K.rely u v → K.rely v w → K.rely u w)
    (harr : ∀ P l w, ok P (.arrive l) → K.inv P.world → S.arrive l P.world = some w →
      K.inv w ∧ K.rely P.world w ∧ K.Keeps S.exec l (S.handler l) w)
    (hcall : ∀ P l i c o k r w, ok P (.step i o) → P.threads[i]? = some ⟨l, .call c k⟩ →
      K.inv P.world → K.pre l c P.world → S.exec c o P.world = some (r, w) →
      K.may l c o P.world ∧ K.inv w ∧ K.rely P.world w) :
    K.inv P.world ∧ ∀ t ∈ P.threads, K.Keeps S.exec t.label t.prog P.world := by
  induction hP with
  | init => exact ⟨h₀, nofun⟩
  | @move P P' m _ hok hm ih =>
    obtain ⟨hinv, hthreads⟩ := ih
    rcases Pool.move_cases hm with ⟨l, w, rfl, ha, rfl⟩ |
      ⟨pre, l, c, k, post, o, r, w, rfl, ht, he, rfl⟩
    · obtain ⟨hw, hrely, hl⟩ := harr P l w hok hinv ha
      refine ⟨hw, fun t ht => ?_⟩
      rcases List.mem_append.mp ht with ht | ht
      · exact (hthreads t ht).stable htrans hrely
      · rw [List.mem_singleton.mp ht]
        exact hl
    · have hget : P.threads[pre.length]? = some ⟨l, .call c k⟩ := by simp [ht]
      obtain ⟨hpre, hk⟩ := hthreads ⟨l, .call c k⟩ (by simp [ht]) P.world hinv (hrefl _)
      obtain ⟨hmay, hw, hrely⟩ := hcall P l _ c o k r w hok hget hinv hpre he
      refine ⟨hw, fun t hmem => ?_⟩
      have hother (u) (hu : u ∈ P.threads) : K.Keeps S.exec u.label u.prog w :=
        (hthreads u hu).stable htrans hrely
      rcases List.mem_append.mp hmem with hmem | hmem
      · exact hother t (by simp [ht, hmem])
      · rcases List.mem_cons.mp hmem with rfl | hmem
        · exact hk o r w hmay he
        · exact hother t (by simp [ht, hmem])

end

end VirtualGun.Program
