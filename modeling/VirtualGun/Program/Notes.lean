import VirtualGun.Program.Pool

/-!
# Notes of a run

What a run did is noted as it goes, so that a property of the past can be stated. The notes change
nothing of the run.
-/

namespace VirtualGun.Program

variable {L C N : Type} {R : C → Type} {O W α : Type}

/-- The pools a run leads to, with its notes: `note` is what a call of a thread adds to them. `ok`
holds of every world on the way. -/
inductive Noted (S : System L C R O W Unit) (note : L → (c : C) → R c → List N)
    (ok : W → List N → Prop) (w₀ : W) : Pool L C R W → List N → Prop
  | init : Noted S note ok w₀ ⟨[], w₀⟩ []
  | arrive {ts l w w' ns} : Noted S note ok w₀ ⟨ts, w⟩ ns → S.arrive l w = some w' → ok w' ns →
      Noted S note ok w₀ ⟨ts ++ [⟨l, S.handler l⟩], w'⟩ ns
  | step {pre l c k post o r w w' ns} :
      Noted S note ok w₀ ⟨pre ++ ⟨l, .call c k⟩ :: post, w⟩ ns → S.exec c o w = some (r, w') →
      ok w' (ns ++ note l c r) →
      Noted S note ok w₀ ⟨pre ++ ⟨l, k r⟩ :: post, w'⟩ (ns ++ note l c r)

/-- The program makes each call only where `allow` lets it, with the notes made until then. -/
def Prog.Heeds (allow : L → C → List N → Prop) (note : L → (c : C) → R c → List N) (l : L) :
    Prog C R α → List N → Prop
  | .ret _, _ => True
  | .call c k, ns => ∀ ns', ns <+: ns' → allow l c ns' ∧ ∀ r, (k r).Heeds allow note l (ns' ++ note l c r)

section
variable {allow : L → C → List N → Prop} {note : L → (c : C) → R c → List N} {l : L} {ns ns' : List N}

theorem Prog.Heeds.later {p : Prog C R α} (h : p.Heeds allow note l ns) (hns : ns <+: ns') :
    p.Heeds allow note l ns' := by
  cases p with
  | ret a => trivial
  | call c k => exact fun ns'' hns' => h ns'' (hns.trans hns')

theorem Prog.heeds_of_calls {okc : C → Prop} (hok : ∀ c ns, okc c → allow l c ns) {p : Prog C R α}
    (hp : p.Calls okc fun _ _ => True) (ns : List N) : p.Heeds allow note l ns := by
  induction p generalizing ns with
  | ret a => trivial
  | call c k ih =>
    intro ns' _
    exact ⟨hok c ns' hp.1, fun r => ih r (hp.2 r trivial) _⟩

end

section
variable {S : System L C R O W Unit} {note : L → (c : C) → R c → List N} {ok ok' : W → List N → Prop}
  {w₀ : W} {P : Pool L C R W} {ns : List N}

theorem Noted.mono (hok : ∀ w ns, ok w ns → ok' w ns) (h : Noted S note ok w₀ P ns) :
    Noted S note ok' w₀ P ns := by
  induction h with
  | init => exact .init
  | arrive _ ha hw ih => exact ih.arrive ha (hok _ _ hw)
  | step _ he hw ih => exact ih.step he (hok _ _ hw)

/-- Without its notes it is a run like any other. -/
theorem Noted.reach (h : Noted S note ok w₀ P ns) : Reach S (fun _ _ => True) ⟨[], w₀⟩ P := by
  induction h with
  | init => exact .init
  | @arrive ts l w w' ns _ ha _ ih =>
    refine ih.move (m := .arrive l) trivial ?_
    simp [Pool.move, ha]
  | @step pre l c k post o r w w' ns _ he _ ih =>
    refine ih.move (m := .step pre.length o) trivial ?_
    simp [Pool.move, he]

theorem Noted.admits (h : Noted S note ok w₀ P ns) (h₀ : ok w₀ []) : ok P.world ns := by
  cases h with
  | init => exact h₀
  | arrive _ _ hw => exact hw
  | step _ _ hw => exact hw

section
variable {ts : List (Thread L C R)} {l : L} {c : C} {k : R c → Prog C R Unit} {o : O} {r : R c} {w w' : W}

theorem Noted.last (h : Noted S note ok w₀ ⟨ts ++ [⟨l, .call c k⟩], w⟩ ns)
    (he : S.exec c o w = some (r, w')) (hok : ok w' (ns ++ note l c r)) :
    Noted S note ok w₀ ⟨ts ++ [⟨l, k r⟩], w'⟩ (ns ++ note l c r) :=
  h.step he hok

theorem Noted.silent (h : Noted S note ok w₀ ⟨ts ++ [⟨l, .call c k⟩], w⟩ ns)
    (he : S.exec c o w = some (r, w')) (hnote : note l c r = []) (hok : ok w' ns) :
    Noted S note ok w₀ ⟨ts ++ [⟨l, k r⟩], w'⟩ ns := by
  have hstep := h.last he (by rwa [hnote, List.append_nil])
  rwa [hnote, List.append_nil] at hstep

end

theorem Noted.inv {allow : L → C → List N → Prop} {J : W → List N → Prop}
    (h : Noted S note ok w₀ P ns) (h₀ : J w₀ [])
    (harr : ∀ l w w' ns, J w ns → S.arrive l w = some w' →
      J w' ns ∧ (S.handler l).Heeds allow note l ns)
    (hcall : ∀ l c o r w w' ns, J w ns → allow l c ns → S.exec c o w = some (r, w') →
      J w' (ns ++ note l c r)) :
    J P.world ns ∧ ∀ t ∈ P.threads, t.prog.Heeds allow note t.label ns := by
  induction h with
  | init =>
    constructor
    · exact h₀
    · intro t ht
      cases ht
  | @arrive ts l w w' ns _ ha _ ih =>
    obtain ⟨hJ, hthreads⟩ := ih
    obtain ⟨hJ', hl⟩ := harr l w w' ns hJ ha
    refine ⟨hJ', fun t ht => ?_⟩
    rcases List.mem_append.mp ht with ht | ht
    · exact hthreads t ht
    · rw [List.mem_singleton.mp ht]
      exact hl
  | @step pre l c k post o r w w' ns _ he _ ih =>
    obtain ⟨hJ, hthreads⟩ := ih
    have hself := hthreads ⟨l, .call c k⟩ (by simp)
    obtain ⟨hallow, hk⟩ := hself ns (List.prefix_refl ns)
    refine ⟨hcall l c o r w w' ns hJ hallow he, fun t ht => ?_⟩
    have hother (u) (hu : u ∈ pre ∨ u ∈ post) : u.prog.Heeds allow note u.label (ns ++ note l c r) := by
      refine (hthreads u ?_).later (List.prefix_append _ _)
      rcases hu with hu | hu <;> simp [hu]
    rcases List.mem_append.mp ht with ht | ht
    · exact hother t (.inl ht)
    · rcases List.mem_cons.mp ht with rfl | ht
      · exact hk r
      · exact hother t (.inr ht)

/-! ## Given runs -/

/-- Plays a list of moves and takes the notes. -/
def Pool.noted (S : System L C R O W Unit) (note : L → (c : C) → R c → List N)
    (check : W → List N → Bool) : List (Move L O) → Pool L C R W × List N → Option (Pool L C R W × List N)
  | [], x => some x
  | .arrive l :: ms, (P, ns) =>
    (S.arrive l P.world).bind fun w =>
      if check w ns then noted S note check ms (⟨P.threads ++ [⟨l, S.handler l⟩], w⟩, ns) else none
  | .step i o :: ms, (P, ns) =>
    match P.threads[i]? with
    | some ⟨l, .call c k⟩ =>
      (S.exec c o P.world).bind fun x =>
        if check x.2 (ns ++ note l c x.1) then
          noted S note check ms (⟨P.threads.set i ⟨l, k x.1⟩, x.2⟩, ns ++ note l c x.1)
        else none
    | _ => none

theorem Noted.play {check : W → List N → Bool} (hcheck : ∀ w ns, check w ns → ok w ns)
    {ms : List (Move L O)} {x : Pool L C R W × List N} (h : Noted S note ok w₀ P ns)
    (hplay : Pool.noted S note check ms (P, ns) = some x) : Noted S note ok w₀ x.1 x.2 := by
  induction ms generalizing P ns with
  | nil =>
    simp only [Pool.noted, Option.some.injEq] at hplay
    rw [← hplay]
    exact h
  | cons m ms ih =>
    cases m with
    | arrive l =>
      simp only [Pool.noted, Option.bind_eq_some_iff, Option.ite_none_right_eq_some] at hplay
      obtain ⟨w, ha, hw, hplay⟩ := hplay
      exact ih (h.arrive ha (hcheck _ _ hw)) hplay
    | step i o =>
      simp only [Pool.noted] at hplay
      split at hplay
      · next l c k hi =>
        simp only [Option.bind_eq_some_iff, Option.ite_none_right_eq_some, Prod.exists] at hplay
        obtain ⟨r, w, he, hw, hplay⟩ := hplay
        refine ih ?_ hplay
        obtain ⟨hlt, hget⟩ := List.getElem?_eq_some_iff.mp hi
        have hsplit : P.threads = P.threads.take i ++ ⟨l, .call c k⟩ :: P.threads.drop (i + 1) := by
          rw [← hget, List.getElem_cons_drop, List.take_append_drop]
        rw [List.set_eq_take_append_cons_drop, if_pos hlt]
        apply Noted.step (o := o) (w := P.world) (k := k) _ he (hcheck _ _ hw)
        rw [← hsplit]
        exact h
      · cases hplay

end

end VirtualGun.Program
