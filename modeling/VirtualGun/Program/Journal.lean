import Mathlib.Logic.Function.Basic

/-!
# Journals

What must not be forgotten is written down in a slot before it is taken, and crossed out after it
was given back.
-/

namespace VirtualGun.Program

variable {S N R : Type} {slot : S → N} {name : R → N} {held held' : R → Prop} {s s' : S} {n : N}

/-- Some slot names each resource that is held. -/
def Covered (slot : S → N) (name : R → N) (held : R → Prop) : Prop :=
  ∀ r, held r → ∃ s, slot s = name r

/-- Without `s` the journal still names what is held. -/
def Spare (slot : S → N) (name : R → N) (held : R → Prop) (s : S) : Prop :=
  ∀ r, held r → slot s = name r → ∃ s', s' ≠ s ∧ slot s' = name r

theorem Spare.of_unheld (h : ∀ r, held r → slot s ≠ name r) : Spare slot name held s :=
  fun r hr hs => absurd hs (h r hr)

theorem Spare.of_copy (hne : s' ≠ s) (h : slot s' = slot s) : Spare slot name held s :=
  fun _ _ hs => ⟨s', hne, h.trans hs⟩

namespace Covered

theorem give (h : Covered slot name held) (hsub : ∀ r, held' r → held r) :
    Covered slot name held' :=
  fun r hr => h r (hsub r hr)

theorem take (h : Covered slot name held) (hsub : ∀ r, held' r → held r ∨ slot s = name r) :
    Covered slot name held' :=
  fun r hr => (hsub r hr).elim (h r) fun hs => ⟨s, hs⟩

theorem write [DecidableEq S] (h : Covered slot name held) (hs : Spare slot name held s) :
    Covered (Function.update slot s n) name held := by
  intro r hr
  have other : ∀ s', s' ≠ s → slot s' = name r → ∃ s'', Function.update slot s n s'' = name r :=
    fun s' hne hs' => ⟨s', by rw [Function.update_of_ne hne, hs']⟩
  obtain ⟨s', hs'⟩ := h r hr
  by_cases hne : s' = s
  · obtain ⟨s'', hne'', hs''⟩ := hs r hr (hne ▸ hs')
    exact other s'' hne'' hs''
  · exact other s' hne hs'

theorem unheld (h : Covered slot name held) (hs : ∀ s r, held r → slot s ≠ name r) :
    ∀ r, ¬ held r := by
  intro r hr
  obtain ⟨s, hs'⟩ := h r hr
  exact hs s r hr hs'

end Covered

end VirtualGun.Program
