import VirtualGun.Setup.Strings

/-!
# The names of the lanes

`shared/gun_device.h`. Setup and the driver's clients find a lane by the end of a name, in any case.
-/

namespace VirtualGun.Setup

def pinnedHidInstanceId (lane : ℕ) : WString :=
  wide "HID\\" ++ vhfHardwareId ++ wide "\\" ++ pinnedPrefix lane ++ wide "&0000"

/-- `VGUN_MOUSE_INTERFACE_GUID`. -/
def mouseInterfaceGuid : WString := wide "\x7b378de44c-56ef-11d1-bc8c-00a0c91405dd\x7d"

def pinnedDevicePath (lane : ℕ) : WString :=
  wide "\\\\?\\HID#" ++ vhfHardwareId ++ wide "#" ++ pinnedPrefix lane ++ wide "&0000#" ++ mouseInterfaceGuid

/-! ## Letter case -/

theorem toLower_eq_zero {c : UInt16} : toLower c = 0 ↔ c = 0 := by
  unfold toLower
  split
  · next h =>
    constructor
    · intro hc
      have hle : c.toNat ≤ 90 := UInt16.le_iff_toNat_le.mp h.2
      have hsum := congrArg UInt16.toNat hc
      rw [UInt16.toNat_add] at hsum
      simp only [UInt16.reduceToNat] at hsum
      omega
    · rintro rfl
      exact absurd h.1 (by decide)
  · rfl

theorem zero_notMem_map_toLower {s : WString} : 0 ∉ s.map toLower ↔ 0 ∉ s := by
  simp only [List.mem_map, toLower_eq_zero, exists_eq_right]

theorem zero_notMem_of_length {s : WString} (h : (cStr s).length = s.length) : 0 ∉ s := by
  have hs : cStr s = s := (List.takeWhile_prefix _).eq_of_length h
  rw [← hs]
  exact zero_notMem_cStr s

theorem sameName_exact {a b : WString} (hb : 0 ∉ b) (hl : a.length = b.length) :
    sameName a b = true ↔ a.map toLower = b.map toLower := by
  rw [sameName_iff]
  constructor
  · intro h
    have ha : 0 ∉ a := by
      apply zero_notMem_of_length
      rw [hl, ← length_foldCase hb, ← h]
      unfold foldCase
      rw [List.length_map]
    unfold foldCase at h
    rwa [cStr_of_no_nul ha, cStr_of_no_nul hb] at h
  · intro h
    have ha : 0 ∉ a := by
      rw [← zero_notMem_map_toLower, h]
      exact zero_notMem_map_toLower.mpr hb
    unfold foldCase
    rw [cStr_of_no_nul ha, cStr_of_no_nul hb, h]

/-! ## The keys of a lane -/

section
variable {a b : ℕ} {name : WString}

theorem isLaneKeyOf_split (ha : a < vgunMaxLanes) : isLaneKeyOf name a = true ↔
    ∃ p s, name = p ++ s ∧ s.map toLower = (laneSuffix a).map toLower := by
  obtain ⟨-, hnul, -⟩ := laneSuffix_spec a ha
  have hkey : isLaneKeyOf name a = true ↔ (laneSuffix a).length ≤ name.length ∧
      sameName (name.drop (name.length - (laneSuffix a).length)) (laneSuffix a) = true := by
    unfold isLaneKeyOf sameId
    rw [Bool.and_eq_true, decide_eq_true_iff]
    rfl
  rw [hkey]
  constructor
  · rintro ⟨hle, hsame⟩
    refine ⟨name.take (name.length - (laneSuffix a).length), _, (List.take_append_drop _ _).symm, ?_⟩
    refine (sameName_exact hnul ?_).mp hsame
    rw [List.length_drop]
    omega
  · rintro ⟨p, s, rfl, hs⟩
    have hl : s.length = (laneSuffix a).length := by
      simpa only [List.length_map] using congrArg List.length hs
    have hdrop : (p ++ s).drop ((p ++ s).length - (laneSuffix a).length) = s := by
      rw [List.length_append, hl, Nat.add_sub_cancel, List.drop_left]
    rw [hdrop]
    refine ⟨?_, (sameName_exact hnul hl).mpr hs⟩
    rw [List.length_append]
    omega

theorem isLaneKeyOf_lane (ha : a < vgunMaxLanes) (hb : b < vgunMaxLanes)
    (h : isLaneKeyOf name a = true) (h' : isLaneKeyOf name b = true) : a = b := by
  obtain ⟨hla, hna, -⟩ := laneSuffix_spec a ha
  obtain ⟨hlb, hnb, hinj⟩ := laneSuffix_spec b hb
  obtain ⟨p, s, rfl, hs⟩ := (isLaneKeyOf_split ha).mp h
  obtain ⟨q, t, hq, ht⟩ := (isLaneKeyOf_split hb).mp h'
  have hls : s.length = t.length := by
    have hs := congrArg List.length hs
    have ht := congrArg List.length ht
    simp only [List.length_map] at hs ht
    omega
  obtain ⟨-, rfl⟩ := List.append_inj' hq hls
  apply hinj a ha
  unfold foldCase
  rw [cStr_of_no_nul hna, cStr_of_no_nul hnb, ← hs, ht]

theorem laneKeyName_isLaneKeyOf (p : WString) (ha : a < vgunMaxLanes) :
    isLaneKeyOf (laneKeyName p a) a = true :=
  (isLaneKeyOf_split ha).mpr ⟨p, laneSuffix a, laneKeyName_eq p a, rfl⟩

theorem laneKeyName_injective {p q : WString} (ha : a < vgunMaxLanes) (hb : b < vgunMaxLanes)
    (hp : 0 ∉ p) (hq : 0 ∉ q) (h : sameId (laneKeyName p a) (laneKeyName q b) = true) :
    a = b ∧ sameId p q = true := by
  obtain ⟨hla, -, -⟩ := laneSuffix_spec a ha
  obtain ⟨hlb, -, hinj⟩ := laneSuffix_spec b hb
  unfold sameId at h ⊢
  rw [sameName_iff, laneKeyName_eq, laneKeyName_eq, foldCase_append _ hp, foldCase_append _ hq] at h
  have hlen : (foldCase (laneSuffix a)).length = (foldCase (laneSuffix b)).length := by
    rw [length_foldCase (laneSuffix_spec a ha).2.1, length_foldCase (laneSuffix_spec b hb).2.1, hla, hlb]
  obtain ⟨hpq, hab⟩ := List.append_inj' h hlen
  exact ⟨hinj a ha hab, (sameName_iff p q).mpr hpq⟩

theorem pinned_distinct : ∀ a < vgunMaxLanes, ∀ b < vgunMaxLanes, a ≠ b →
    sameId (pinnedPrefix a) (pinnedPrefix b) = false ∧
      sameId (pinnedHidInstanceId a) (pinnedHidInstanceId b) = false ∧
      sameId (pinnedDevicePath a) (pinnedDevicePath b) = false := by
  decide +kernel

theorem lane_names_unambiguous (ha : a < vgunMaxLanes) (hb : b < vgunMaxLanes) :
    (∀ name, isLaneKeyOf name a = true ↔
      ∃ p s, name = p ++ s ∧ s.map toLower = (wide "&VRLFGun" ++ digits 10 a).map toLower) ∧
    (∀ name, isLaneKeyOf name a = true → isLaneKeyOf name b = true → a = b) ∧
    (∀ p, isLaneKeyOf (laneKeyName p a) a = true) ∧
    (∀ p q, 0 ∉ p → 0 ∉ q → sameId (laneKeyName p a) (laneKeyName q b) = true →
      a = b ∧ sameId p q = true) ∧
    (a ≠ b → sameId (pinnedPrefix a) (pinnedPrefix b) = false ∧
      sameId (pinnedHidInstanceId a) (pinnedHidInstanceId b) = false ∧
      sameId (pinnedDevicePath a) (pinnedDevicePath b) = false) := by
  have hsuffix : laneSuffix a = wide "&VRLFGun" ++ digits 10 a := rfl
  refine ⟨fun name => ?_, fun name => isLaneKeyOf_lane ha hb, fun p => laneKeyName_isLaneKeyOf p ha,
    fun p q => laneKeyName_injective ha hb, pinned_distinct a ha b hb⟩
  rw [← hsuffix]
  exact isLaneKeyOf_split ha

end

theorem lane_names_unambiguous_nested :
    isLaneKeyOf (wide "1&2&VRLFGun2&vrlfgun3") 3 = true ∧ isLaneKeyOf (wide "1&2&VRLFGun2&vrlfgun3") 2 = false := by
  have h : isLaneKeyOf (wide "1&2&VRLFGun2&vrlfgun3") 3 = true := by decide +kernel
  refine ⟨h, ?_⟩
  by_contra h'
  rw [Bool.not_eq_false] at h'
  have hlanes := (lane_names_unambiguous (a := 3) (b := 2) (by decide) (by decide)).2.1 _ h h'
  cases hlanes

end VirtualGun.Setup
