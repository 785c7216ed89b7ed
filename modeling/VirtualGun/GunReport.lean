import VirtualGun.Driver.ReportFields

/-!
# The gun's input report

The C++ part of `shared/gun_device.h`: the packed report, and what the fields of
`VGUN_REPORT_DESCRIPTOR` make of it.
-/

open VirtualGun.Hid

namespace VirtualGun

/-- Packed: one byte, then two little-endian words. -/
structure GunReport where
  buttons : UInt8
  x : UInt16
  y : UInt16
  deriving DecidableEq, Repr

/-- The report as it lies in memory. -/
def GunReport.bytes (r : GunReport) : List Byte :=
  [r.buttons, r.x.toUInt8, (r.x >>> 8).toUInt8, r.y.toUInt8, (r.y >>> 8).toUInt8]

def vgunMaxCoord : Int32 := 32767

/-- 5 buttons. -/
def vgunButtonMask : Int32 := 0x1F

def clampCoord (v : Int32) : UInt16 :=
  (if v < 0 then 0 else if v > vgunMaxCoord then vgunMaxCoord else v).toInt16.toUInt16

def makeReport (x y buttons : Int32) : GunReport where
  buttons := (buttons &&& vgunButtonMask).toInt8.toUInt8
  x := clampCoord x
  y := clampCoord y

/-! ## The descriptor's fields -/

def buttonPage : ℕ := 9

def genericDesktopPage : ℕ := 1

def usageX : ℕ := 0x30

def usageY : ℕ := 0x31

def buttonField (i : ℕ) : Field := ⟨.variable (buttonPage, i), 0, 1, 1⟩

def paddingField : Field := ⟨.constant, 0, 1, 3⟩

def coordField (usage : ℕ) : Field := ⟨.variable (genericDesktopPage, usage), 0, 32767, 16⟩

def gunFields : List Field :=
  (List.range 5).map (fun i => buttonField (i + 1)) ++
    [paddingField, coordField usageX, coordField usageY]

open Item in
/-- The items of `VGUN_REPORT_DESCRIPTOR`. -/
def gunItems : List Item :=
  [usagePage 1, usage 2, collection 1, usage 1, collection 0,
    usagePage 9, usageMinimum 1, usageMaximum 5, logicalMinimum (.byte 0), logicalMaximum (.byte 1),
    reportCount 5, reportSize 1, input 2,
    reportCount 1, reportSize 3, input 3,
    usagePage 1, usage 0x30, usage 0x31, logicalMinimum (.word 0), logicalMaximum (.word 0x7FFF),
    reportSize 16, reportCount 2, input 2,
    endCollection, endCollection]

theorem encode_gunItems : encode gunItems = vgunReportDescriptor := by decide +kernel

theorem descriptor_fields : fieldsOf vgunReportDescriptor .input 0 = some gunFields := by
  rw [fieldsOf, ← encode_gunItems, decode_encode, Option.bind_some]
  decide +kernel

/-! ## What make_report makes -/

/-- The bits of the fields of a gun report. -/
def gunBits (buttons x y : ℕ) : List ℕ :=
  [buttons % 2, buttons / 2 % 2, buttons / 4 % 2, buttons / 8 % 2, buttons / 16 % 2, buttons / 32, x, y]

theorem bytes_reportBits (r : GunReport) :
    reportBits r.bytes = r.buttons.toNat + 2 ^ 8 * r.x.toNat + 2 ^ 24 * r.y.toNat := by
  have hx := r.x.toNat_lt
  have hy := r.y.toNat_lt
  simp only [GunReport.bytes, reportBits, UInt16.toNat_toUInt8, UInt16.toNat_shiftRight,
    Nat.shiftRight_eq_div_pow, show (8 : UInt16).toNat % 16 = 8 from rfl]
  omega

theorem split_gunFields {n buttons x y : ℕ} (hn : n = buttons + 2 ^ 8 * x + 2 ^ 24 * y)
    (hb : buttons < 256) (hx : x < 65536) (hy : y < 65536) :
    split (gunFields.map Field.size) n = gunBits buttons x y := by
  simp only [gunFields, gunBits, buttonField, paddingField, coordField, List.range, List.range.loop,
    List.map_cons, List.map_nil, List.cons_append, List.nil_append, split, List.cons.injEq, and_true]
  omega

theorem bytes_split (r : GunReport) :
    split (gunFields.map Field.size) (reportBits r.bytes) =
      gunBits r.buttons.toNat r.x.toNat r.y.toNat :=
  split_gunFields (bytes_reportBits r) r.buttons.toNat_lt r.x.toNat_lt r.y.toNat_lt

theorem toNat_cast {v : Int32} (h₀ : 0 ≤ v.toInt) (h₁ : v.toInt ≤ 32767) :
    (v.toInt16.toUInt16.toNat : ℤ) = v.toInt := by
  have hv : v.toInt16.toInt = v.toInt := by
    rw [Int32.toInt_toInt16]
    exact Int.bmod_eq_of_le (by omega) (by omega)
  have hpos : 0 ≤ v.toInt16 := by
    rw [Int16.le_iff_toInt_le, hv]
    exact h₀
  rw [Int16.toNat_toUInt16_of_le hpos, Int16.toNatClampNeg, hv]
  omega

theorem clampCoord_toNat (v : Int32) : ((clampCoord v).toNat : ℤ) = max 0 (min 32767 v.toInt) := by
  have hmax : vgunMaxCoord.toInt = 32767 := rfl
  unfold clampCoord
  split
  · next h =>
    rw [Int32.lt_iff_toInt_lt, Int32.toInt_zero] at h
    rw [toNat_cast (by simp) (by simp), Int32.toInt_zero]
    omega
  · next h =>
    rw [Int32.lt_iff_toInt_lt, Int32.toInt_zero] at h
    split
    · next hgt =>
      rw [gt_iff_lt, Int32.lt_iff_toInt_lt, hmax] at hgt
      rw [toNat_cast (by simp [hmax]) (by simp [hmax]), hmax]
      omega
    · next hgt =>
      rw [gt_iff_lt, Int32.lt_iff_toInt_lt, hmax] at hgt
      rw [toNat_cast (by omega) (by omega)]
      omega

theorem toNat_cast8 (v : Int32) : v.toInt8.toUInt8.toNat = v.toBitVec.toNat % 256 := by
  rw [← UInt8.toNat_toBitVec, Int8.toBitVec_toUInt8, Int32.toBitVec_toInt8,
    BitVec.signExtend_eq_setWidth_of_le _ (by decide), BitVec.toNat_setWidth]

theorem makeReport_buttons (x y buttons : Int32) :
    (makeReport x y buttons).buttons.toNat = buttons.toBitVec.toNat % 32 := by
  have hand : (buttons &&& vgunButtonMask).toBitVec.toNat = buttons.toBitVec.toNat % 32 := by
    rw [Int32.toBitVec_and, BitVec.toNat_and]
    exact Nat.and_two_pow_sub_one_eq_mod _ 5
  simp only [makeReport, toNat_cast8, hand]
  omega

theorem readReport_gun (r : GunReport) :
    readReport gunFields r.bytes =
      (List.range 5).map (fun i =>
        (.variable (buttonPage, i + 1), ((r.buttons.toNat / 2 ^ i % 2 : ℕ) : ℤ))) ++
      [(.constant, ((r.buttons.toNat / 32 : ℕ) : ℤ)),
        (.variable (genericDesktopPage, usageX), (r.x.toNat : ℤ)),
        (.variable (genericDesktopPage, usageY), (r.y.toNat : ℤ))] := by
  rw [readReport, bytes_split]
  simp [gunFields, gunBits, buttonField, paddingField, coordField, Field.value, List.range,
    List.range.loop]

theorem inRange_gun (r : GunReport) :
    InRange gunFields r.bytes ↔ r.buttons.toNat < 32 ∧ r.x.toNat ≤ 32767 ∧ r.y.toNat ≤ 32767 := by
  rw [InRange, bytes_split]
  simp only [gunFields, gunBits, buttonField, paddingField, coordField, Field.value, Field.Allows,
    List.range, List.range.loop, List.map_cons, List.map_nil, List.cons_append, List.nil_append,
    List.forall₂_cons, List.forall₂_nil_left_iff, Int.lt_irrefl, false_and, if_false, reduceCtorEq,
    forall_const, false_implies, and_true]
  omega

theorem makeReport_bit (x y buttons : Int32) {i : ℕ} (hi : i < 5) :
    (makeReport x y buttons).buttons.toNat / 2 ^ i % 2 = (buttons.toBitVec.getLsbD i).toNat := by
  have hmod := Nat.testBit_mod_two_pow buttons.toBitVec.toNat 5 i
  rw [decide_eq_true hi, Bool.true_and] at hmod
  rw [makeReport_buttons, BitVec.getLsbD, ← Nat.toNat_testBit]
  exact congrArg Bool.toNat hmod

theorem bytes_surjective {report : List Byte} (h : report.length = vgunReportBytes) :
    ∃ r : GunReport, r.bytes = report := by
  have hlt := reportBits_lt report
  rw [h, show 8 * vgunReportBytes = 40 from rfl] at hlt
  refine ⟨⟨.ofNat (reportBits report), .ofNat (reportBits report / 2 ^ 8),
    .ofNat (reportBits report / 2 ^ 24)⟩, reportBits_inj (by simp [GunReport.bytes, h, vgunReportBytes]) ?_⟩
  rw [bytes_reportBits]
  simp only [UInt8.toNat_ofNat', UInt16.toNat_ofNat']
  omega

theorem clampCoord_ofNat {n : UInt16} (h : n.toNat ≤ 32767) : clampCoord (.ofNat n.toNat) = n := by
  have hn : (Int32.ofNat n.toNat).toInt = n.toNat := Int32.toInt_ofNat_of_lt (by omega)
  have hclamp := clampCoord_toNat (.ofNat n.toNat)
  apply UInt16.toNat_inj.mp
  rw [hn] at hclamp
  omega

theorem makeReport_ofNat {r : GunReport} (h : InRange gunFields r.bytes) :
    makeReport (.ofNat r.x.toNat) (.ofNat r.y.toNat) (.ofNat r.buttons.toNat) = r := by
  obtain ⟨hb, hx, hy⟩ := (inRange_gun r).mp h
  have hbuttons := makeReport_buttons (.ofNat r.x.toNat) (.ofNat r.y.toNat) (.ofNat r.buttons.toNat)
  rw [show (Int32.ofNat r.buttons.toNat).toBitVec.toNat = r.buttons.toNat % 2 ^ 32 from
    BitVec.toNat_ofNat ..] at hbuttons
  cases r with
  | mk buttons x y =>
    have hbuttons : (makeReport (.ofNat x.toNat) (.ofNat y.toNat) (.ofNat buttons.toNat)).buttons =
        buttons := UInt8.toNat_inj.mp (by simp only at hb hbuttons ⊢; omega)
    simp only [makeReport, GunReport.mk.injEq] at hbuttons ⊢
    exact ⟨hbuttons, clampCoord_ofNat hx, clampCoord_ofNat hy⟩

/-- What a host reads out of a report of `make_report`, by the descriptor that the device has: the
five buttons, the padding, and the coordinates clamped to the range that the descriptor declares. -/
theorem make_report_read_back (x y buttons : Int32) :
    ∃ fields, fieldsOf vgunReportDescriptor .input 0 = some fields ∧
      readReport fields (makeReport x y buttons).bytes =
        (List.range 5).map (fun i =>
          (.variable (buttonPage, i + 1), ((buttons.toBitVec.getLsbD i).toNat : ℤ))) ++
        [(.constant, 0), (.variable (genericDesktopPage, usageX), max 0 (min 32767 x.toInt)),
          (.variable (genericDesktopPage, usageY), max 0 (min 32767 y.toInt))] := by
  refine ⟨gunFields, descriptor_fields, ?_⟩
  have hb := makeReport_buttons x y buttons
  have hpad : (makeReport x y buttons).buttons.toNat / 32 = 0 := by omega
  rw [readReport_gun, hpad, ← clampCoord_toNat, ← clampCoord_toNat]
  congr 1
  refine List.map_congr_left fun i hi => ?_
  rw [makeReport_bit x y buttons (List.mem_range.mp hi)]

/-- `make_report` makes exactly the reports that the descriptor allows: five bytes with every field in
its logical range and the padding clear. -/
theorem make_report_range (report : List Byte) :
    (∃ x y buttons, (makeReport x y buttons).bytes = report) ↔
      ∃ fields, fieldsOf vgunReportDescriptor .input 0 = some fields ∧
        8 * report.length = fieldBits fields ∧ InRange fields report := by
  simp only [descriptor_fields, Option.some.injEq, exists_eq_left']
  constructor
  · rintro ⟨x, y, buttons, rfl⟩
    have hb := makeReport_buttons x y buttons
    have hx := clampCoord_toNat x
    have hy := clampCoord_toNat y
    refine ⟨rfl, (inRange_gun _).mpr ⟨by omega, ?_, ?_⟩⟩
    · simp only [makeReport]
      omega
    · simp only [makeReport]
      omega
  · rintro ⟨hlen, hrange⟩
    rw [show fieldBits gunFields = 8 * vgunReportBytes from rfl] at hlen
    obtain ⟨r, rfl⟩ := bytes_surjective (show report.length = vgunReportBytes by omega)
    exact ⟨_, _, _, congrArg GunReport.bytes (makeReport_ofNat hrange)⟩

end VirtualGun
