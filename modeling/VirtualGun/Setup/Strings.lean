import VirtualGun.Gun
import Mathlib.Data.List.TakeWhile

/-!
# Wide strings

`setup/strings.h`, the string functions of `shared/gun_device.h`, and what setup uses of the C
and C++ libraries for them.
-/

namespace VirtualGun.Setup

abbrev WString := List UInt16

def wide (s : String) : WString := s.toList.map fun c => c.toNat.toUInt16

/-- What `c_str()` shows: the string up to its first NUL. -/
def cStr (s : WString) : WString := s.takeWhile (· != 0)

/-- `towlower` in the C locale. -/
def toLower (c : UInt16) : UInt16 := if 65 ≤ c ∧ c ≤ 90 then c + 32 else c

def foldCase (s : WString) : WString := (cStr s).map toLower

/-- `_wcsicmp(a.c_str(), b.c_str()) == 0`. -/
def sameName (a b : WString) : Bool := foldCase a == foldCase b

@[simp] theorem sameName_iff (a b : WString) : sameName a b = true ↔ foldCase a = foldCase b := by
  simp [sameName]

theorem not_sameName {a b : WString} (h : (!sameName a b) = true) : ¬ sameName a b := by
  rw [Bool.not_eq_true'] at h
  rw [h]
  decide

@[simp] theorem foldCase_nil : foldCase [] = [] := rfl

theorem cStr_of_no_nul {s : WString} (h : 0 ∉ s) : cStr s = s :=
  List.takeWhile_eq_self_iff.mpr fun _ hc => bne_iff_ne.mpr fun e => h (e ▸ hc)

@[simp] theorem cStr_cStr (s : WString) : cStr (cStr s) = cStr s := by
  simp [cStr, List.takeWhile_idem]

@[simp] theorem foldCase_cStr (s : WString) : foldCase (cStr s) = foldCase s := by
  simp [foldCase]

theorem foldCase_append {a : WString} (b : WString) (ha : 0 ∉ a) :
    foldCase (a ++ b) = foldCase a ++ foldCase b := by
  unfold foldCase
  rw [cStr_of_no_nul ha, ← List.map_append]
  congr 1
  unfold cStr
  exact List.takeWhile_append_of_pos fun c hc => bne_iff_ne.mpr fun e => ha (e ▸ hc)

theorem length_foldCase {s : WString} (h : 0 ∉ s) : (foldCase s).length = s.length := by
  unfold foldCase
  rw [cStr_of_no_nul h, List.length_map]

theorem foldCase_drop {s : WString} (n : ℕ) (h : 0 ∉ s) :
    foldCase (s.drop n) = (foldCase s).drop n := by
  unfold foldCase
  rw [cStr_of_no_nul h, cStr_of_no_nul fun hn => h (List.mem_of_mem_drop hn), List.map_drop]

@[simp] theorem zero_notMem_cStr (s : WString) : 0 ∉ cStr s := by
  intro h
  have hne := List.mem_takeWhile_imp h
  simp at hne

@[simp] theorem foldCase_eq_nil (s : WString) : foldCase s = [] ↔ cStr s = [] := by
  simp [foldCase]

/-- A `REG_MULTI_SZ`: each item ends in a NUL, and the list in one more. -/
def multiSz (items : List WString) : WString := items.flatMap (· ++ [0]) ++ [0]

/-! ## Thumbprints -/

/-- `digits[d]`. -/
def hexDigit (d : Byte) : UInt16 := (wide "0123456789ABCDEF").getD d.toNat 0

def hexUpper (data : List Byte) : WString :=
  data.flatMap fun b : Byte => [hexDigit (b >>> 4), hexDigit (b &&& 0x0F)]

/-- The value of a hexadecimal digit. -/
def hexValue (c : UInt16) : Option ℕ :=
  if 48 ≤ c ∧ c ≤ 57 then some (c.toNat - 48)
  else if 65 ≤ c ∧ c ≤ 70 then some (c.toNat - 55)
  else if 97 ≤ c ∧ c ≤ 102 then some (c.toNat - 87)
  else none

def isSpace (c : UInt16) : Bool := c == 32 || (9 ≤ c && c ≤ 13)

/-- Without the `0x` that may stand before the digits. -/
def dropHexMark : WString → WString
  | c :: x :: d :: s =>
    if c = 48 ∧ (x = 120 ∨ x = 88) ∧ (hexValue d).isSome then d :: s else c :: x :: d :: s
  | s => s

/-- Whether there is a minus sign, and what follows the sign. -/
def dropSign : WString → Bool × WString
  | c :: s => if c = 45 then (true, s) else if c = 43 then (false, s) else (false, c :: s)
  | [] => (false, [])

/-- `std::stoul(s, nullptr, 16)`; `none` where it throws. -/
def stoul (s : WString) : Option ℕ :=
  let (negative, s) := dropSign (s.dropWhile isSpace)
  let digits := ((dropHexMark s).takeWhile fun c => (hexValue c).isSome).filterMap hexValue
  let value := digits.foldl (fun v d => 16 * v + d) 0
  if digits.isEmpty || 2 ^ 32 ≤ value then none
  else some (if negative then (2 ^ 32 - value) % 2 ^ 32 else value)

/-- The first `n` bytes that pairs of characters stand for; `none` where `stoul` throws. -/
def hashBytes : ℕ → WString → Option (List Byte)
  | 0, _ => some []
  | n + 1, s => do
    let value ← stoul (s.take 2)
    let rest ← hashBytes n (s.drop 2)
    return value.toUInt8 :: rest

@[simp] theorem hexUpper_cons (b : Byte) (data : List Byte) :
    hexUpper (b :: data) = [hexDigit (b >>> 4), hexDigit (b &&& 0x0F)] ++ hexUpper data := rfl

@[simp] theorem length_hexUpper (data : List Byte) : (hexUpper data).length = 2 * data.length := by
  induction data with
  | nil => rfl
  | cons b data ih => simp [ih]; omega

theorem stoul_byte (b : Byte) : stoul [hexDigit (b >>> 4), hexDigit (b &&& 0x0F)] = some b.toNat := by
  have h : ∀ n < 256,
      stoul [hexDigit (UInt8.ofNat n >>> 4), hexDigit (UInt8.ofNat n &&& 0x0F)] = some n := by
    decide +kernel
  simpa using h b.toNat b.toNat_lt

theorem hashBytes_hexUpper (data : List Byte) : hashBytes data.length (hexUpper data) = some data := by
  induction data with
  | nil => rfl
  | cons b data ih => simp [hashBytes, stoul_byte, ih]

theorem hexUpper_injective : Function.Injective hexUpper := by
  intro a b h
  have hl : a.length = b.length := by
    have := congrArg List.length h
    simp only [length_hexUpper] at this
    omega
  have ha := hashBytes_hexUpper a
  rw [h, hl, hashBytes_hexUpper b] at ha
  exact (Option.some.inj ha).symm

theorem zero_notMem_hexUpper (data : List Byte) : 0 ∉ hexUpper data := by
  have h : ∀ n < 256, hexDigit (UInt8.ofNat n >>> 4) ≠ 0 ∧ hexDigit (UInt8.ofNat n &&& 0x0F) ≠ 0 := by
    decide +kernel
  induction data with
  | nil => simp [hexUpper]
  | cons b data ih =>
    have hb := h b.toNat b.toNat_lt
    rw [UInt8.ofNat_toNat] at hb
    simp only [hexUpper_cons, List.mem_append, List.mem_cons, List.not_mem_nil, or_false, not_or]
    exact ⟨⟨hb.1.symm, hb.2.symm⟩, ih⟩

/-! ## Lane names -/

def digits (b n : ℕ) : WString := (Nat.toDigits b n).map fun c => c.toNat.toUInt16

/-- `same_id`. -/
def sameId (a b : WString) : Bool := sameName a b

def laneInstanceName (lane : ℕ) : WString := wide "VRLFGun" ++ digits 10 lane

def pinnedPrefix (lane : ℕ) : WString := wide "2&56524c3" ++ digits 16 lane ++ wide "&0"

/-- `VGUN_VHF_HARDWARE_ID`. -/
def vhfHardwareId : WString := wide "HID_DEVICE_SYSTEM_VHF"

/-- A lane's VHF devnode key under `Enum\VHF\HID_DEVICE_SYSTEM_VHF`. -/
def laneKeyName (rootPrefix : WString) (lane : ℕ) : WString :=
  rootPrefix ++ wide "&" ++ laneInstanceName lane

/-- Whether the name ends in `&VRLFGun<lane>`, in any case. -/
def isLaneKeyOf (name : WString) (lane : ℕ) : Bool :=
  let suffix := wide "&" ++ laneInstanceName lane
  suffix.length ≤ name.length && sameId (name.drop (name.length - suffix.length)) suffix

def laneSuffix (lane : ℕ) : WString := wide "&" ++ laneInstanceName lane

theorem laneSuffix_spec : ∀ lane < vgunMaxLanes, (laneSuffix lane).length = 9 ∧ 0 ∉ laneSuffix lane ∧
    ∀ other < vgunMaxLanes, foldCase (laneSuffix other) = foldCase (laneSuffix lane) → other = lane := by
  decide +kernel

theorem pinnedPrefix_spec : ∀ lane < vgunMaxLanes, pinnedPrefix lane ≠ [] ∧ 0 ∉ pinnedPrefix lane ∧
    ∀ other < vgunMaxLanes, sameId (pinnedPrefix other) (pinnedPrefix lane) → other = lane := by
  decide +kernel

theorem laneKeyName_eq (rootPrefix : WString) (lane : ℕ) :
    laneKeyName rootPrefix lane = rootPrefix ++ laneSuffix lane := by
  rw [laneKeyName, laneSuffix, List.append_assoc]

section
variable {lane other : ℕ} {a b : WString}

theorem isLaneKeyOf_iff (ha : 0 ∉ a) : isLaneKeyOf a lane = true ↔ (laneSuffix lane).length ≤ a.length ∧
    (foldCase a).drop (a.length - (laneSuffix lane).length) = foldCase (laneSuffix lane) := by
  unfold isLaneKeyOf sameId
  rw [Bool.and_eq_true, decide_eq_true_iff, sameName_iff, foldCase_drop _ ha]
  rfl

theorem isLaneKeyOf_congr (ha : 0 ∉ a) (hb : 0 ∉ b) (h : sameName a b) :
    isLaneKeyOf a lane = isLaneKeyOf b lane := by
  rw [sameName_iff] at h
  have hl : a.length = b.length := by rw [← length_foldCase ha, h, length_foldCase hb]
  rw [Bool.eq_iff_iff, isLaneKeyOf_iff ha, isLaneKeyOf_iff hb, h, hl]

theorem isLaneKeyOf_append (hl : lane < vgunMaxLanes) (ha : 0 ∉ a) :
    isLaneKeyOf (a ++ laneSuffix lane) lane = true := by
  obtain ⟨-, hn, -⟩ := laneSuffix_spec lane hl
  rw [isLaneKeyOf_iff (by simp [ha, hn]), foldCase_append _ ha]
  constructor
  · simp
  · rw [List.length_append, Nat.add_sub_cancel, ← length_foldCase ha, List.drop_left]

theorem isLaneKeyOf_unique (ho : other < vgunMaxLanes) (hl : lane < vgunMaxLanes) (ha : 0 ∉ a)
    (h : isLaneKeyOf a other = true) (h' : isLaneKeyOf a lane = true) : other = lane := by
  rw [isLaneKeyOf_iff ha] at h h'
  apply (laneSuffix_spec lane hl).2.2 other ho
  rw [← h.2, ← h'.2, (laneSuffix_spec lane hl).1, (laneSuffix_spec other ho).1]

theorem zero_notMem_laneKeyName (hl : lane < vgunMaxLanes) (ha : 0 ∉ a) : 0 ∉ laneKeyName a lane := by
  rw [laneKeyName_eq]
  simp [ha, (laneSuffix_spec lane hl).2.1]

theorem isLaneKeyOf_laneKeyName (hl : lane < vgunMaxLanes) (ha : 0 ∉ a) :
    isLaneKeyOf (laneKeyName a lane) lane = true := by
  rw [laneKeyName_eq]
  exact isLaneKeyOf_append hl ha

end

end VirtualGun.Setup
