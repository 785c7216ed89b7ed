import VirtualGun.Program.History

/-!
# Others act between the calls

A run shares its world with others, which may act before each of its calls.
-/

namespace VirtualGun.Program

variable {A C : Type} {R : C → Type} {O W α : Type}

/-- What a list of acts does, if they can all be done. -/
def actAll (act : A → W → Option W) : List A → W → Option W
  | [], w => some w
  | a :: as, w => (act a w).bind (actAll act as)

/-- The calls, each with the acts of others before it. -/
def Exec.amid (act : A → W → Option W) (exec : Exec C R O W) : Exec C R (List A × O) W :=
  fun c o w => (actAll act o.1 w).bind (exec c o.2)

variable {act : A → W → Option W} {exec : Exec C R O W} {J : W → Prop} {rel : W → W → Prop}

theorem Exec.amid_eq_some {c : C} {o : List A × O} {w : W} {x : R c × W} :
    exec.amid act c o w = some x ↔ ∃ v, actAll act o.1 w = some v ∧ exec c o.2 v = some x := by
  unfold Exec.amid
  rw [Option.bind_eq_some_iff]

theorem actAll_frame (hrefl : ∀ w, rel w w) (htrans : ∀ {u v w}, rel u v → rel v w → rel u w)
    (hact : ∀ a w w', J w → act a w = some w' → J w' ∧ rel w w') {as : List A} {w w' : W} (hw : J w)
    (h : actAll act as w = some w') : J w' ∧ rel w w' := by
  induction as generalizing w with
  | nil =>
    unfold actAll at h
    obtain rfl := Option.some.inj h
    exact ⟨hw, hrefl w⟩
  | cons a as ih =>
    unfold actAll at h
    rw [Option.bind_eq_some_iff] at h
    obtain ⟨v, hv, h⟩ := h
    obtain ⟨hJ, hr⟩ := hact a w v hw hv
    obtain ⟨hJ', hr'⟩ := ih hJ h
    exact ⟨hJ', htrans hr hr'⟩

theorem Exec.amid_cases (hrefl : ∀ w, rel w w) (htrans : ∀ {u v w}, rel u v → rel v w → rel u w)
    (hact : ∀ a w w', J w → act a w = some w' → J w' ∧ rel w w') {c : C} {o : List A × O} {w : W}
    {x : R c × W} (hw : J w) (h : exec.amid act c o w = some x) :
    ∃ v, J v ∧ rel w v ∧ exec c o.2 v = some x := by
  obtain ⟨v, hv, hx⟩ := amid_eq_some.mp h
  obtain ⟨hJ, hr⟩ := actAll_frame hrefl htrans hact hw hv
  exact ⟨v, hJ, hr, hx⟩

end VirtualGun.Program
