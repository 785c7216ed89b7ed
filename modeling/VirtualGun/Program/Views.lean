import VirtualGun.Program.Ledger
import Mathlib.Tactic.Tauto

/-!
# Views

A thread's view is where it is in its protocol, and what it knows of the world. An invariant ties
the views of all threads to the world; a call takes its thread to another view and leaves the
others alone.
-/

namespace VirtualGun.Program

/-- `may` says which calls a thread makes in a view, `next` which views a response takes it to, and
`fin` where it may end; `of` says which views a thread with the label can have. -/
structure Views (L C : Type) (R : C → Type) (W V : Type) where
  of : L → V → Prop
  may : V → C → Prop
  next : V → (c : C) → R c → V → Prop
  fin : V → Prop
  inv : List V → W → Prop

variable {L C : Type} {R : C → Type} {O W V α β : Type}

/-- From a view on the program makes the calls its views allow. -/
def Views.Follows (A : Views L C R W V) (Q : α → V → Prop) : Prog C R α → V → Prop
  | .ret a, v => Q a v
  | .call c k, v => A.may v c ∧ ∀ r v', A.next v c r v' → A.Follows Q (k r) v'

namespace Views

section
variable {A : Views L C R W V} {Q Q' : α → V → Prop} {v : V}

theorem follows_mono {p : Prog C R α} (hQ : ∀ a v, Q a v → Q' a v) (h : A.Follows Q p v) :
    A.Follows Q' p v := by
  induction p generalizing v with
  | ret a => exact hQ a v h
  | call c k ih => exact ⟨h.1, fun r v' hv => ih r (h.2 r v' hv)⟩

theorem follows_bind {Q : α → V → Prop} {Q' : β → V → Prop} {p : Prog C R α}
    {f : α → Prog C R β} (hp : A.Follows Q p v) (hf : ∀ a v, Q a v → A.Follows Q' (f a) v) :
    A.Follows Q' (p >>= f) v := by
  induction p generalizing v with
  | ret a => exact hf a v hp
  | call c k ih => exact ⟨hp.1, fun r v' hv => ih r (hp.2 r v' hv)⟩

theorem follows_ite {b : Prop} [Decidable b] {p q : Prog C R α} (hp : b → A.Follows Q p v)
    (hq : ¬ b → A.Follows Q q v) : A.Follows Q (if b then p else q) v := by
  split
  · next h => exact hp h
  · next h => exact hq h

end

/-- A thread in a view of its own. -/
structure Has (A : Views L C R W V) (t : Thread L C R) (v : V) : Prop where
  of : A.of t.label v
  follows : A.Follows (fun _ v => A.fin v) t.prog v

/-- The threads of a pool follow their views, which agree with the world. -/
structure Agree (A : Views L C R W V) (P : Pool L C R W) (vs : List V) : Prop where
  has : List.Forall₂ A.Has P.threads vs
  inv : A.inv vs P.world

end Views

/-- The threads have views in every pool that some moves lead to, if those that an event finds can be
extended, and a call takes its thread from one view to another. -/
theorem Reach.agree {S : System L C R O W Unit} {A : Views L C R W V}
    {ok : Pool L C R W → Move L O → Prop} {w₀ : W} {P : Pool L C R W} (hP : Reach S ok ⟨[], w₀⟩ P)
    (h₀ : A.inv [] w₀)
    (harr : ∀ P vs l w, Reach S ok ⟨[], w₀⟩ P → A.Agree P vs → ok P (.arrive l) →
      S.arrive l P.world = some w → ∃ vs', A.Agree ⟨P.threads ++ [⟨l, S.handler l⟩], w⟩ vs')
    (hcall : ∀ P l c k pre v post o r w, Reach S ok ⟨[], w₀⟩ P → ⟨l, .call c k⟩ ∈ P.threads →
      A.Has ⟨l, .call c k⟩ v → A.inv (pre ++ v :: post) P.world → S.exec c o P.world = some (r, w) →
      ∃ v', A.Has ⟨l, k r⟩ v' ∧ A.inv (pre ++ v' :: post) w) :
    ∃ vs, A.Agree P vs := by
  induction hP with
  | init => exact ⟨[], .nil, h₀⟩
  | @move P P' m hP hok hm ih =>
    obtain ⟨vs, hagree⟩ := ih
    rcases Pool.move_cases hm with ⟨l, w, rfl, ha, rfl⟩ |
      ⟨pre, l, c, k, post, o, r, w, rfl, ht, he, rfl⟩
    · exact harr P vs l w hP hagree hok ha
    · have hhas := hagree.has
      rw [ht] at hhas
      obtain ⟨vpre, v, vpost, rfl, hpre, hv, hpost⟩ := forall₂_append_cons hhas
      obtain ⟨v', hv', hinv⟩ := hcall P l c k vpre v vpost o r w hP (by simp [ht]) hv hagree.inv he
      exact ⟨vpre ++ v' :: vpost, List.rel_append hpre (.cons hv' hpost), hinv⟩

theorem Reach.views {S : System L C R O W Unit} {A : Views L C R W V}
    {ok : Pool L C R W → Move L O → Prop} {w₀ : W} {P : Pool L C R W} (hP : Reach S ok ⟨[], w₀⟩ P)
    (h₀ : A.inv [] w₀)
    (harr : ∀ l vs w w', A.inv vs w → S.arrive l w = some w' →
      ∃ v, A.Has ⟨l, S.handler l⟩ v ∧ A.inv (vs ++ [v]) w')
    (hcall : ∀ l pre v post w c o r w', A.of l v → A.inv (pre ++ v :: post) w → A.may v c →
      S.exec c o w = some (r, w') →
      ∃ v', A.next v c r v' ∧ A.of l v' ∧ A.inv (pre ++ v' :: post) w') :
    ∃ vs, A.Agree P vs := by
  refine hP.agree h₀ (fun P vs l w _ hagree _ ha => ?_) ?_
  · obtain ⟨v, hv, hinv⟩ := harr l vs P.world w hagree.inv ha
    exact ⟨vs ++ [v], List.rel_append hagree.has (.cons hv .nil), hinv⟩
  intro P l c k pre v post o r w _ _ hv hinv he
  obtain ⟨v', hnext, hof, hinv'⟩ := hcall l pre v post P.world c o r w hv.of hinv hv.follows.1 he
  exact ⟨v', ⟨hof, hv.follows.2 r v' hnext⟩, hinv'⟩

theorem Reach.trans {S : System L C R O W Unit} {ok : Pool L C R W → Move L O → Prop}
    {P₀ P P' : Pool L C R W} (h : Reach S ok P₀ P) (h' : Reach S ok P P') : Reach S ok P₀ P' := by
  induction h' with
  | init => exact h
  | move _ hm h' ih => exact ih.move hm h'

theorem mem_of_mem_beside {pre post : List V} {u v : V} (hu : u ∈ pre ++ post) : u ∈ pre ++ v :: post := by
  simp only [List.mem_append, List.mem_cons] at hu ⊢
  tauto

theorem mem_beside {pre post : List V} {u v : V} (hu : u ∈ pre ++ v :: post) : u = v ∨ u ∈ pre ++ post := by
  simp only [List.mem_append, List.mem_cons] at hu ⊢
  tauto

theorem Views.Agree.view {A : Views L C R W V} {P : Pool L C R W} {vs : List V}
    (h : A.Agree P vs) {t : Thread L C R} (ht : t ∈ P.threads) : ∃ v ∈ vs, A.Has t v := by
  obtain ⟨pre, post, hsplit⟩ := List.append_of_mem ht
  have hhas := h.has
  rw [hsplit] at hhas
  obtain ⟨vpre, v, vpost, rfl, -, hv, -⟩ := forall₂_append_cons hhas
  exact ⟨v, by simp, hv⟩

theorem Views.Agree.thread {A : Views L C R W V} {P : Pool L C R W} {vs : List V}
    (h : A.Agree P vs) {v : V} (hv : v ∈ vs) : ∃ t ∈ P.threads, A.Has t v := by
  obtain ⟨pre, post, rfl⟩ := List.append_of_mem hv
  obtain ⟨tpre, t, tpost, hsplit, -, ht, -⟩ := forall₂_append_cons h.has.flip
  exact ⟨t, by simp [hsplit], ht⟩

end VirtualGun.Program
