import Mathlib.Algebra.Ring.Nat

/-!
# The one device type

The C part of `shared/gun_device.h`, and little-endian fields of packed records.
-/

namespace VirtualGun

abbrev Byte := UInt8

def vgunVid : UInt16 := 0x1209

def vgunPid : UInt16 := 0x5647

def vgunReportBytes : ℕ := 5

def vgunMaxLanes : ℕ := 8

/-- Absolute mouse: 5 buttons, 3 padding bits, X and Y 16-bit 0..32767, no report ID. -/
def vgunReportDescriptor : List Byte :=
  [0x05, 0x01, 0x09, 0x02, 0xA1, 0x01,        -- Generic Desktop, Mouse, Collection (Application)
   0x09, 0x01, 0xA1, 0x00,                    -- Pointer, Collection (Physical)
   0x05, 0x09, 0x19, 0x01, 0x29, 0x05,        -- Buttons 1..5
   0x15, 0x00, 0x25, 0x01, 0x95, 0x05, 0x75, 0x01, 0x81, 0x02,
   0x95, 0x01, 0x75, 0x03, 0x81, 0x03,        -- 3 bits padding
   0x05, 0x01, 0x09, 0x30, 0x09, 0x31,        -- X, Y
   0x16, 0x00, 0x00, 0x26, 0xFF, 0x7F,        -- Logical 0..32767
   0x75, 0x10, 0x95, 0x02, 0x81, 0x02,        -- Input (Data, Var, Abs)
   0xC0, 0xC0]

/-- `VGUN_REPORT_DESCRIPTOR_BYTES`. -/
def vgunReportDescriptorBytes : ℕ := vgunReportDescriptor.length

/-! ## Little-endian fields -/

def byteAt (bytes : List Byte) (i : ℕ) : Byte := bytes.getD i 0

def u16At (bytes : List Byte) (i : ℕ) : UInt16 :=
  (byteAt bytes i).toUInt16 ||| (byteAt bytes (i + 1)).toUInt16 <<< 8

def u32At (bytes : List Byte) (i : ℕ) : UInt32 :=
  (u16At bytes i).toUInt32 ||| (u16At bytes (i + 2)).toUInt32 <<< 16

def u32Bytes (v : UInt32) : List Byte :=
  [v.toUInt8, (v >>> 8).toUInt8, (v >>> 16).toUInt8, (v >>> 24).toUInt8]

theorem byteAt_append (front rest : List Byte) (i : ℕ) :
    byteAt (front ++ rest) (front.length + i) = byteAt rest i := by
  simp [byteAt, List.getD_eq_getElem?_getD, List.getElem?_append_right]

theorem testBit_of_lt {n width i : ℕ} (hn : n < 2 ^ width) (hi : ¬ i < width) : n.testBit i = false :=
  Nat.testBit_lt_two_pow
    (Nat.lt_of_lt_of_le hn (Nat.pow_le_pow_right (by decide) (Nat.le_of_not_lt hi)))

theorem u32_of_bytes (v : UInt32) :
    ((v.toUInt8.toUInt16 ||| (v >>> 8).toUInt8.toUInt16 <<< 8).toUInt32 |||
      ((v >>> 16).toUInt8.toUInt16 ||| (v >>> 24).toUInt8.toUInt16 <<< 8).toUInt32 <<< 16) = v := by
  apply UInt32.toNat_inj.mp
  refine Nat.eq_of_testBit_eq fun i => ?_
  have hhigh (h : ¬ i < 32) : v.toNat.testBit i = false := testBit_of_lt v.toNat_lt h
  simp only [UInt32.toNat_or, UInt16.toNat_toUInt32, UInt16.toNat_or, UInt8.toNat_toUInt16,
    UInt32.toNat_toUInt8, UInt16.toNat_shiftLeft, UInt32.toNat_shiftLeft, UInt32.toNat_shiftRight,
    Nat.testBit_or, Nat.testBit_mod_two_pow, Nat.testBit_shiftLeft, Nat.testBit_shiftRight,
    show (8 : UInt16).toNat % 16 = 8 from rfl, show (16 : UInt32).toNat % 32 = 16 from rfl,
    show (8 : UInt32).toNat % 32 = 8 from rfl, show (24 : UInt32).toNat % 32 = 24 from rfl]
  grind

theorem u16_of_bytes (v : UInt16) : v.toUInt8.toUInt16 ||| (v >>> 8).toUInt8.toUInt16 <<< 8 = v := by
  apply UInt16.toNat_inj.mp
  refine Nat.eq_of_testBit_eq fun i => ?_
  have hhigh (h : ¬ i < 16) : v.toNat.testBit i = false := testBit_of_lt v.toNat_lt h
  simp only [UInt16.toNat_or, UInt8.toNat_toUInt16, UInt16.toNat_toUInt8, UInt16.toNat_shiftLeft,
    UInt16.toNat_shiftRight, Nat.testBit_or, Nat.testBit_mod_two_pow, Nat.testBit_shiftLeft,
    Nat.testBit_shiftRight, show (8 : UInt16).toNat % 16 = 8 from rfl]
  grind

theorem u32At_u32Bytes (front rest : List Byte) (v : UInt32) :
    u32At (front ++ (u32Bytes v ++ rest)) front.length = v := by
  have hbyte (i : ℕ) : byteAt (front ++ (u32Bytes v ++ rest)) (front.length + i) =
      byteAt (u32Bytes v ++ rest) i := byteAt_append _ _ i
  rw [u32At, u16At, u16At, Nat.add_assoc, hbyte 1, hbyte 2, hbyte 3]
  rw [show byteAt (front ++ (u32Bytes v ++ rest)) front.length =
    byteAt (u32Bytes v ++ rest) 0 from hbyte 0]
  exact u32_of_bytes v

theorem u16At_append (front rest : List Byte) (v : UInt16) :
    u16At (front ++ v.toUInt8 :: (v >>> 8).toUInt8 :: rest) front.length = v := by
  have hlow := byteAt_append front (v.toUInt8 :: (v >>> 8).toUInt8 :: rest) 0
  rw [Nat.add_zero] at hlow
  rw [u16At, hlow, byteAt_append]
  exact u16_of_bytes v

end VirtualGun
