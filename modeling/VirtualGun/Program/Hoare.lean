import VirtualGun.Program.Basic

/-!
# Weakest preconditions with a crash condition

`wp exec I Q p w`: from `w`, every world `p` passes through satisfies `I`, and if `p` ends with
`a` then `Q a` holds there. A run that is killed stops in one of the worlds `I` speaks of.
-/

namespace VirtualGun.Program

variable {C : Type} {R : C → Type} {O W α β : Type}

def wp (exec : Exec C R O W) (I : W → Prop) (Q : α → W → Prop) : Prog C R α → W → Prop
  | .ret a, w => I w ∧ Q a w
  | .call c k, w => I w ∧ ∀ o r w', exec c o w = some (r, w') → wp exec I Q (k r) w'

section
variable {exec : Exec C R O W} {I J : W → Prop} {Q Q' : α → W → Prop} {w w' : W}

@[simp] theorem wp_ret (a : α) : wp exec I Q (.ret a) w ↔ I w ∧ Q a w := Iff.rfl

theorem wp_inv {p : Prog C R α} (h : wp exec I Q p w) : I w := by
  cases p <;> exact h.1

theorem wp_mono {p : Prog C R α} (hI : ∀ w, I w → J w) (hQ : ∀ a w, I w → Q a w → Q' a w)
    (h : wp exec I Q p w) : wp exec J Q' p w := by
  induction p generalizing w with
  | ret a => exact ⟨hI _ h.1, hQ _ _ h.1 h.2⟩
  | call c k ih => exact ⟨hI _ h.1, fun o r v he => ih r (h.2 o r v he)⟩

theorem wp_post {p : Prog C R α} (hQ : ∀ a w, I w → Q a w → Q' a w) (h : wp exec I Q p w) :
    wp exec I Q' p w :=
  wp_mono (fun _ h => h) hQ h

theorem wp_end {p : Prog C R α} (h : wp exec I Q p w) : wp exec (fun _ => True) Q p w :=
  wp_mono (fun _ _ => trivial) (fun _ _ _ hq => hq) h

theorem wp_and {p : Prog C R α} (h : wp exec I Q p w) (h' : wp exec J Q' p w) :
    wp exec (fun w => I w ∧ J w) (fun a w => Q a w ∧ Q' a w) p w := by
  induction p generalizing w with
  | ret a => exact ⟨⟨h.1, h'.1⟩, h.2, h'.2⟩
  | call c k ih => exact ⟨⟨h.1, h'.1⟩, fun o r v he => ih r (h.2 o r v he) (h'.2 o r v he)⟩

@[simp] theorem wp_bind {Q : β → W → Prop} (p : Prog C R α) (f : α → Prog C R β) :
    wp exec I Q (p >>= f) w ↔ wp exec I (fun a => wp exec I Q (f a)) p w := by
  induction p generalizing w with
  | ret a => exact ⟨fun h => ⟨wp_inv h, h⟩, fun h => h.2⟩
  | call c k ih =>
    exact and_congr_right fun _ => forall_congr' fun o => forall_congr' fun r =>
      forall_congr' fun v => imp_congr_right fun _ => ih r

theorem wp_seq {Q : α → W → Prop} {Q' : β → W → Prop} {p : Prog C R α} {f : α → Prog C R β}
    (hp : wp exec I Q p w) (hf : ∀ a w', I w' → Q a w' → wp exec I Q' (f a) w') :
    wp exec I Q' (p >>= f) w :=
  (wp_bind p f).mpr (wp_post hf hp)

/-- The first of two programs may keep more than both do. -/
theorem wp_seq_of {Q : α → W → Prop} {Q' : β → W → Prop} {p : Prog C R α} {f : α → Prog C R β}
    (hJ : ∀ w, J w → I w) (hp : wp exec J Q p w)
    (hf : ∀ a w', J w' → Q a w' → wp exec I Q' (f a) w') : wp exec I Q' (p >>= f) w :=
  (wp_bind p f).mpr (wp_mono hJ hf hp)

theorem wp_sub {exec' : Exec C R O W} (hs : exec'.Sub exec) {p : Prog C R α}
    (h : wp exec I Q p w) : wp exec' I Q p w := by
  induction p generalizing w with
  | ret a => exact h
  | call c k ih => exact ⟨h.1, fun o r v he => ih r (h.2 o r v (hs _ _ _ _ he))⟩

theorem wp_logged {p : Prog C R α} {l l' : Log C O} (hl : l <+: l') (h : wp exec I Q p w) :
    wp exec.logged (fun x => I x.1 ∧ l <+: x.2) (fun a x => Q a x.1 ∧ l' <+: x.2) p (w, l') := by
  have key : ∀ m, l' <+: m →
      wp exec.logged (fun x => I x.1 ∧ l <+: x.2) (fun a x => Q a x.1 ∧ l' <+: x.2) p (w, m) := by
    induction p generalizing w with
    | ret a => exact fun m hm => ⟨⟨h.1, hl.trans hm⟩, h.2, hm⟩
    | call c k ih =>
      refine fun m hm => ⟨⟨h.1, hl.trans hm⟩, fun o r x he => ?_⟩
      obtain ⟨v, hv, rfl⟩ := Exec.logged_eq_some.mp he
      exact ih r (h.2 o r v hv) _ (hm.trans (List.prefix_append _ _))
  exact key l' (List.prefix_refl l')

theorem wp_log {p : Prog C R α} {x : W × Log C O} (h : wp exec I Q p x.1) :
    wp exec.logged (fun _ => True) (fun a y => Q a y.1 ∧ x.2 <+: y.2) p x :=
  wp_mono (fun _ _ => trivial) (fun _ _ _ hq => hq) (wp_logged (List.prefix_refl x.2) h)

theorem wp_log_calls {ok : C → Prop} {p : Prog C R α} {x : W × Log C O}
    (hp : p.Calls ok fun _ _ => True) (h : wp exec I Q p x.1) :
    wp exec.logged (fun _ => True)
      (fun a y => Q a y.1 ∧ ∃ m, y.2 = x.2 ++ m ∧ ∀ e ∈ m, ok e.1) p x := by
  have key : ∀ (m : Log C O) (w : W), (∀ e ∈ m, ok e.1) → wp exec I Q p w →
      wp exec.logged (fun _ => True)
        (fun a y => Q a y.1 ∧ ∃ m, y.2 = x.2 ++ m ∧ ∀ e ∈ m, ok e.1) p (w, x.2 ++ m) := by
    clear h
    induction p with
    | ret a => exact fun m w hm h => ⟨trivial, h.2, m, rfl, hm⟩
    | call c k ih =>
      intro m w hm h
      refine ⟨trivial, fun o r y he => ?_⟩
      obtain ⟨v, hv, rfl⟩ := Exec.logged_eq_some.mp he
      rw [List.append_assoc]
      apply ih r (hp.2 r trivial) (m ++ [(c, o)]) v _ (h.2 o r v hv)
      intro e he
      rcases List.mem_append.mp he with he | he
      · exact hm e he
      · rw [List.mem_singleton.mp he]
        exact hp.1
  have hx := key [] x.1 (fun _ he => absurd he List.not_mem_nil) h
  rwa [List.append_nil] at hx

theorem wp_unlogged {p : Prog C R α} {l : Log C O}
    (h : wp exec.logged (fun x => I x.1) (fun a x => Q a x.1) p (w, l)) : wp exec I Q p w := by
  induction p generalizing w l with
  | ret a => exact h
  | call c k ih =>
    exact ⟨h.1, fun o r v he => ih r (h.2 o r (v, l ++ [(c, o)]) (Exec.logged_eq_some.mpr ⟨v, he, rfl⟩))⟩

theorem wp_ite {b : Prop} [Decidable b] {p q : Prog C R α} (hp : b → wp exec I Q p w)
    (hq : ¬ b → wp exec I Q q w) : wp exec I Q (if b then p else q) w := by
  split
  · next h => exact hp h
  · next h => exact hq h

theorem Steps.wp {p q : Prog C R α} (hs : Steps exec p w q w') (h : wp exec I Q p w) :
    wp exec I Q q w' := by
  induction hs with
  | refl => exact h
  | call he _ ih => exact ih (h.2 _ _ _ he)

theorem Steps.inv {p q : Prog C R α} (hs : Steps exec p w q w') (h : Program.wp exec I Q p w) :
    I w' :=
  wp_inv (hs.wp h)

theorem Steps.post {p : Prog C R α} {a : α} (hs : Steps exec p w (.ret a) w')
    (h : Program.wp exec I Q p w) : Q a w' :=
  (hs.wp h).2

end

/-! ## The calls of a run -/

/-- The calls that a run from `w` comes to are `ok`. -/
def Prog.Meets (exec : Exec C R O W) (ok : C → Prop) : Prog C R α → W → Prop
  | .ret _, _ => True
  | .call c k, w => ok c ∧ ∀ o r w', exec c o w = some (r, w') → (k r).Meets exec ok w'

section
variable {exec : Exec C R O W} {I : W → Prop} {Q : α → W → Prop} {ok : C → Prop} {w w' : W}

/-- Only the responses that a call can come back with count. -/
theorem meets_of_answers {p : Prog C R α} (hp : p.Calls ok exec.Answers) (w : W) :
    p.Meets exec ok w := by
  induction p generalizing w with
  | ret a => trivial
  | call c k ih => exact ⟨hp.1, fun o r v he => ih r (hp.2 r ⟨o, w, v, he⟩) v⟩

theorem meets_of_calls {p : Prog C R α} (hp : p.Calls ok fun _ _ => True) (w : W) :
    p.Meets exec ok w :=
  meets_of_answers (Prog.calls_mono (fun _ h => h) (fun _ _ _ => trivial) hp) w

theorem meets_seq {p : Prog C R α} {f : α → Prog C R β} (hm : p.Meets exec ok w)
    (hp : wp exec I Q p w) (hf : ∀ a w', I w' → Q a w' → (f a).Meets exec ok w') :
    (p >>= f).Meets exec ok w := by
  induction p generalizing w with
  | ret a => exact hf a w hp.1 hp.2
  | call c k ih => exact ⟨hm.1, fun o r v he => ih r (hm.2 o r v he) (hp.2 o r v he)⟩

theorem Steps.meets {p q : Prog C R α} (hs : Steps exec p w q w') (h : p.Meets exec ok w) {c : C}
    (hq : q.next? = some c) : ok c := by
  induction hs with
  | @refl p w =>
    cases p with
    | ret a => cases hq
    | call c' k => exact Option.some.inj hq ▸ h.1
  | call he _ ih => exact ih (h.2 _ _ _ he) hq

end

theorem wp_keeps {exec : Exec C R O W} {J : W → Prop}
    (hJ : ∀ c o r w w', J w → exec c o w = some (r, w') → J w') (p : Prog C R α) {w : W} (hw : J w) :
    wp exec J (fun _ _ => True) p w := by
  induction p generalizing w with
  | ret a => exact ⟨hw, trivial⟩
  | call c k ih => exact ⟨hw, fun o r v he => ih r (hJ _ _ _ _ _ hw he)⟩

theorem wp_ends {exec : Exec C R O W} {Q : α → Prop} {p : Prog C R α} (hp : p.Ends Q exec.Answers)
    (w : W) : wp exec (fun _ => True) (fun a _ => Q a) p w := by
  induction p generalizing w with
  | ret a => exact ⟨trivial, hp⟩
  | call c k ih => exact ⟨trivial, fun o r v he => ih r (hp r ⟨o, w, v, he⟩) v⟩

theorem wp_ends_of {exec : Exec C R O W} {J : W → Prop} {Q : α → Prop} {ok : C → Prop}
    {can : (c : C) → R c → Prop} {p : Prog C R α} {w : W}
    (hcall : ∀ {c o r w w'}, J w → ok c → exec c o w = some (r, w') → can c r ∧ J w') (hJ : J w)
    (hp : p.Calls ok can) (hq : p.Ends Q can) : wp exec J (fun a _ => Q a) p w := by
  induction p generalizing w with
  | ret a => exact ⟨hJ, hq⟩
  | call c k ih =>
    refine ⟨hJ, fun o r v he => ?_⟩
    obtain ⟨hr, hv⟩ := hcall hJ hp.1 he
    exact ih r hv (hp.2 r hr) (hq r hr)

theorem wp_true {exec : Exec C R O W} (p : Prog C R α) (w : W) :
    wp exec (fun _ => True) (fun _ _ => True) p w :=
  wp_keeps (fun _ _ _ _ _ _ _ => trivial) p trivial

/-- A program whose calls all keep an invariant and a preorder on worlds stays above the world it
began in. -/
theorem wp_frame {exec : Exec C R O W} {J : W → Prop} {rel : W → W → Prop} (hrefl : ∀ w, rel w w)
    (htrans : ∀ {u v w}, rel u v → rel v w → rel u w) {ok : C → Prop} {can : (c : C) → R c → Prop}
    (hcall : ∀ {c o r w w'}, J w → ok c → exec c o w = some (r, w') → can c r ∧ J w' ∧ rel w w')
    {p : Prog C R α} {w : W} (hJ : J w) (hp : p.Calls ok can) :
    wp exec (fun w' => J w' ∧ rel w w') (fun _ _ => True) p w := by
  have key : ∀ v, J v → rel w v → wp exec (fun w' => J w' ∧ rel w w') (fun _ _ => True) p v := by
    induction p with
    | ret a => exact fun v hJ hv => ⟨⟨hJ, hv⟩, trivial⟩
    | call c k ih =>
      refine fun v hJ hv => ⟨⟨hJ, hv⟩, fun o r v' he => ?_⟩
      obtain ⟨hr, hJ', hrel⟩ := hcall hJ hp.1 he
      exact ih r (hp.2 r hr) v' hJ' (htrans hv hrel)
  exact key w hJ (hrefl w)

/-- A program keeps `J` as long as the responses are as it takes them to be; once one is not, the
world is `lost` for good. -/
theorem wp_lost_or {exec : Exec C R O W} {J lost : W → Prop} {ok : C → Prop}
    {can : (c : C) → R c → Prop}
    (hlost : ∀ c o r w w', lost w → exec c o w = some (r, w') → lost w')
    (hcall : ∀ {c o r w w'}, J w → ok c → exec c o w = some (r, w') → lost w' ∨ can c r ∧ J w')
    {p : Prog C R α} {w : W} (hJ : J w) (hp : p.Calls ok can) :
    wp exec (fun w' => lost w' ∨ J w') (fun _ _ => True) p w := by
  induction p generalizing w with
  | ret a => exact ⟨.inr hJ, trivial⟩
  | call c k ih =>
    refine ⟨.inr hJ, fun o r w' he => ?_⟩
    rcases hcall hJ hp.1 he with hw | ⟨hr, hJ'⟩
    · exact wp_mono (fun _ hl => .inl hl) (fun _ _ _ _ => trivial) (wp_keeps hlost (k r) hw)
    · exact ih r hJ' (hp.2 r hr)

end VirtualGun.Program
