import VirtualGun.Driver.ReportItems
import Mathlib.Algebra.BigOperators.Group.List.Basic
import Mathlib.Tactic.Common

/-!
# The fields of a report

Where a descriptor puts each control in a report, and how a host reads the controls back. The bits of
a report are numbered from the lowest bit of its first byte on.
-/

namespace VirtualGun.Hid

/-! ## Reading items -/

def ItemType.ofCode : ℕ → ItemType
  | 0 => .mainItem
  | 1 => .globalItem
  | 2 => .localItem
  | _ => .reserved

/-- The data behind a prefix with this size, and the bytes behind the data. -/
def decodeValue : ℕ → List Byte → Option (ItemValue × List Byte)
  | 0, rest => some (.empty, rest)
  | 1, v :: rest => some (.byte v, rest)
  | 2, v₀ :: v₁ :: rest => some (.word (u16At [v₀, v₁] 0), rest)
  | 3, v₀ :: v₁ :: v₂ :: v₃ :: rest => some (.dword (u32At [v₀, v₁, v₂, v₃] 0), rest)
  | _, _ => none

def decodeLong : List Byte → Option (Item × List Byte)
  | size :: tag :: rest =>
    if size.toNat ≤ rest.length then
      some (.long tag (rest.take size.toNat) (by
        rw [List.length_take]
        exact (Nat.min_le_left _ _).trans (Nat.le_of_lt_succ size.toNat_lt)), rest.drop size.toNat)
    else none
  | _ => none

/-- The item at the front, and the bytes behind it. -/
def decodeItem : List Byte → Option (Item × List Byte)
  | [] => none
  | b :: rest =>
    if b = 0xFE then decodeLong rest
    else if h : b.toNat / 16 < 15 then
      (decodeValue (b.toNat % 4) rest).map fun v =>
        (.short ⟨b.toNat / 16, h⟩ (.ofCode (b.toNat / 4 % 4)) v.1, v.2)
    else none

/-- All items of a descriptor. An item takes a byte at least, so its length is fuel enough. -/
def decodeItems : ℕ → List Byte → Option (List Item)
  | _, [] => some []
  | 0, _ => none
  | n + 1, bytes => (decodeItem bytes).bind fun r => (decodeItems n r.2).map (r.1 :: ·)

def decode (descriptor : List Byte) : Option (List Item) := decodeItems descriptor.length descriptor

theorem ItemType.code_lt (type : ItemType) : type.code < 4 := by
  cases type <;> decide

theorem ItemType.ofCode_code (type : ItemType) : ofCode type.code = type := by
  cases type <;> rfl

theorem ItemValue.sizeCode_lt (value : ItemValue) : value.sizeCode < 4 := by
  cases value <;> simp [sizeCode]

theorem decodeValue_bytes (value : ItemValue) (rest : List Byte) :
    decodeValue value.sizeCode (value.bytes ++ rest) = some (value, rest) := by
  cases value with
  | empty | byte => rfl
  | word v =>
    simp only [ItemValue.sizeCode, ItemValue.bytes, List.cons_append, List.nil_append, decodeValue]
    rw [show u16At [v.toUInt8, (v >>> 8).toUInt8] 0 = v from u16_of_bytes v]
  | dword v =>
    simp only [ItemValue.sizeCode, ItemValue.bytes, u32Bytes, List.cons_append, List.nil_append,
      decodeValue]
    rw [show u32At [v.toUInt8, (v >>> 8).toUInt8, (v >>> 16).toUInt8, (v >>> 24).toUInt8] 0 = v from
      u32_of_bytes v]

theorem itemPrefix_toNat (tag : Fin 15) (type : ItemType) (value : ItemValue) :
    (Item.itemPrefix tag type value).toNat = tag * 16 + type.code * 4 + value.sizeCode := by
  have htag := tag.isLt
  have htype := type.code_lt
  have hsize := value.sizeCode_lt
  unfold Item.itemPrefix
  rw [UInt8.toNat_ofNat', Nat.mod_eq_of_lt (by omega)]

theorem decodeItem_encode (item : Item) (rest : List Byte) :
    decodeItem (item.encode ++ rest) = some (item, rest) := by
  cases item with
  | long tag payload fits =>
    have hlen : payload.length.toUInt8.toNat = payload.length := by
      rw [Nat.toUInt8, UInt8.toNat_ofNat_of_lt' (by simp only [UInt8.size]; omega)]
    simp [Item.encode, decodeItem, decodeLong, hlen]
  | short tag type value =>
    have htag := tag.isLt
    have htype := type.code_lt
    have hsize := value.sizeCode_lt
    have hprefix := itemPrefix_toNat tag type value
    have hlong : Item.itemPrefix tag type value ≠ 0xFE := by
      intro h
      rw [h] at hprefix
      simp only [show (0xFE : UInt8).toNat = 254 from rfl] at hprefix
      omega
    have hcode : (Item.itemPrefix tag type value).toNat / 4 % 4 = type.code := by omega
    have hvalue : (Item.itemPrefix tag type value).toNat % 4 = value.sizeCode := by omega
    have htag' : (Item.itemPrefix tag type value).toNat / 16 = tag := by omega
    simp only [Item.encode, List.cons_append, decodeItem, if_neg hlong, hcode, hvalue, htag', htag,
      dif_pos, decodeValue_bytes, ItemType.ofCode_code, Option.map_some]

theorem Item.encode_ne_nil (item : Item) : item.encode ≠ [] := by
  cases item <;> simp [encode]

theorem decodeItems_encode (items : List Item) {n : ℕ} (hn : items.length ≤ n) :
    decodeItems n (encode items) = some items := by
  induction items generalizing n with
  | nil => cases n <;> rfl
  | cons item items ih =>
    obtain ⟨n, rfl⟩ : ∃ m, n = m + 1 := ⟨n - 1, by simp only [List.length_cons] at hn; omega⟩
    have hne : item.encode ++ encode items ≠ [] := by simp [item.encode_ne_nil]
    rw [encode_cons]
    cases hbytes : item.encode ++ encode items with
    | nil => exact absurd hbytes hne
    | cons b bytes =>
      rw [decodeItems, ← hbytes, decodeItem_encode, Option.bind_some,
        ih (by simp only [List.length_cons] at hn; omega)]
      · rfl
      · simp

theorem length_le_encode (items : List Item) : items.length ≤ (encode items).length := by
  induction items with
  | nil => simp
  | cons item items ih =>
    have := List.length_pos_of_ne_nil item.encode_ne_nil
    rw [encode_cons, List.length_append, List.length_cons]
    omega

/-- A descriptor is the encoding of one list of items at most. -/
theorem decode_encode (items : List Item) : decode (encode items) = some items :=
  decodeItems_encode items (length_le_encode items)

/-! ## Fields -/

/-- What a field is for: padding, one control, or the number of one of several controls. A control has
a usage page and a usage. -/
inductive FieldUse where
  | constant
  | variable (usage : ℕ × ℕ)
  | array (usages : List (ℕ × ℕ))
  deriving DecidableEq, Repr

structure Field where
  use : FieldUse
  logicalMinimum : ℤ
  logicalMaximum : ℤ
  size : ℕ
  deriving DecidableEq, Repr

/-- The data of an item as a signed number of its own width. -/
def ItemValue.toInt : ItemValue → ℤ
  | empty => 0
  | byte v => v.toInt8.toInt
  | word v => v.toInt16.toInt
  | dword v => v.toInt32.toInt

/-- The global items that say what a field holds. -/
structure FieldGlobals where
  usagePage : ℕ
  logicalMinimum : ℤ
  logicalMaximum : ℤ
  deriving DecidableEq, Repr

/-- The local items, up to the next main item. A usage may name its page. -/
structure Locals where
  usages : List (Option ℕ × ℕ)
  usageMinimum : Option ℕ × ℕ
  deriving DecidableEq, Repr

def Locals.empty : Locals := ⟨[], none, 0⟩

/-- The fields found so far, beside their bits. -/
structure Form where
  tally : Tally
  globals : FieldGlobals
  saved : List FieldGlobals
  locals : Locals
  fields : ℕ → ReportKind → List Field

namespace Form

def init : Form := ⟨.init, ⟨0, 0, 0⟩, [], .empty, fun _ _ => []⟩

def setGlobal (s : Form) (tag : ℕ) (value : ItemValue) : Form :=
  match tag with
  | 0 => { s with globals := { s.globals with usagePage := value.toNat } }
  | 1 => { s with globals := { s.globals with logicalMinimum := value.toInt } }
  | 2 => { s with globals := { s.globals with logicalMaximum := value.toInt } }
  | 10 => { s with saved := s.globals :: s.saved }
  | 11 => { s with globals := s.saved.headD s.globals, saved := s.saved.tail }
  | _ => s

/-- Four bytes of data hold the usage page above the usage. -/
def usageOf : ItemValue → Option ℕ × ℕ
  | .dword v => (some (v.toNat / 65536), v.toNat % 65536)
  | value => (none, value.toNat)

def setLocal (l : Locals) (tag : ℕ) (value : ItemValue) : Locals :=
  match tag with
  | 0 => { l with usages := l.usages ++ [usageOf value] }
  | 1 => { l with usageMinimum := usageOf value }
  | 2 =>
    let first := l.usageMinimum.2
    { l with usages := l.usages ++
        (List.range ((usageOf value).2 + 1 - first)).map fun i => (l.usageMinimum.1, first + i) }
  | _ => l

/-- The usages of a main item, in order. -/
def usages (s : Form) : List (ℕ × ℕ) := s.locals.usages.map fun u => (u.1.getD s.globals.usagePage, u.2)

/-- What field `i` of a main item is for. Fields without a usage of their own have the last one. -/
def use (s : Form) (flags i : ℕ) : FieldUse :=
  if flags % 2 = 1 then .constant
  else if flags / 2 % 2 = 1 then .variable (s.usages.getD i (s.usages.getLastD (0, 0)))
  else .array s.usages

/-- The fields of a main item: as many as the report count says. -/
def mainFields (s : Form) (flags : ℕ) : List Field :=
  (List.range s.tally.globals.reportCount).map fun i =>
    ⟨s.use flags i, s.globals.logicalMinimum, s.globals.logicalMaximum, s.tally.globals.reportSize⟩

def addFields (s : Form) (kind : ReportKind) (flags : ℕ) : ℕ → ReportKind → List Field :=
  fun id k =>
    if id = s.tally.globals.reportId ∧ k = kind then s.fields id k ++ s.mainFields flags
    else s.fields id k

def addMain (s : Form) (tag flags : ℕ) : Form :=
  let fields := match Tally.kindOf tag with
    | none => s.fields
    | some kind => s.addFields kind flags
  { s with locals := .empty, fields := fields }

def addItem (s : Form) : Item → Form
  | .short tag .globalItem value => s.setGlobal tag value
  | .short tag .localItem value => { s with locals := setLocal s.locals tag value }
  | .short tag .mainItem value => s.addMain tag value.toNat
  | _ => s

def add (s : Form) (item : Item) : Option Form :=
  (s.tally.add item).map fun t => { s.addItem item with tally := t }

end Form

/-- The fields of all reports, if the items can be counted. -/
def form (items : List Item) : Option Form := items.foldlM Form.add Form.init

/-- The fields of one report. -/
def fieldsOf (descriptor : List Byte) (kind : ReportKind) (id : ℕ) : Option (List Field) :=
  ((decode descriptor).bind form).map fun s => s.fields id kind

/-- The bits that fields take. -/
def fieldBits (fields : List Field) : ℕ := (fields.map Field.size).sum

/-! ## The values of fields -/

/-- The bits of a report as one number, the first byte lowest. -/
def reportBits : List Byte → ℕ
  | [] => 0
  | b :: bytes => b.toNat + 256 * reportBits bytes

/-- The bits of the fields, one after the other. -/
def split : List ℕ → ℕ → List ℕ
  | [], _ => []
  | size :: sizes, n => n % 2 ^ size :: split sizes (n / 2 ^ size)

/-- What the bits of a field say: a field that may be negative is signed. -/
def Field.value (f : Field) (bits : ℕ) : ℤ :=
  if f.logicalMinimum < 0 ∧ 2 ^ (f.size - 1) ≤ bits then bits - 2 ^ f.size else bits

/-- What a host reads out of a report. -/
def readReport (fields : List Field) (report : List Byte) : List (FieldUse × ℤ) :=
  List.zipWith (fun f bits => (f.use, f.value bits)) fields
    (split (fields.map Field.size) (reportBits report))

/-- A host takes a value from the logical range only, and padding is 0. -/
def Field.Allows (f : Field) (v : ℤ) : Prop :=
  f.logicalMinimum ≤ v ∧ v ≤ f.logicalMaximum ∧ (f.use = .constant → v = 0)

instance (f : Field) (v : ℤ) : Decidable (f.Allows v) := by
  unfold Field.Allows
  infer_instance

/-- Every field holds a value its descriptor allows. -/
def InRange (fields : List Field) (report : List Byte) : Prop :=
  List.Forall₂ (fun f bits => f.Allows (f.value bits)) fields
    (split (fields.map Field.size) (reportBits report))

theorem reportBits_lt (report : List Byte) : reportBits report < 2 ^ (8 * report.length) := by
  induction report with
  | nil => simp [reportBits]
  | cons b report ih =>
    have hb := b.toNat_lt
    have hpow : 2 ^ (8 * (report.length + 1)) = 256 * 2 ^ (8 * report.length) := by
      rw [Nat.mul_succ, Nat.pow_add, Nat.mul_comm]
    simp only [reportBits, List.length_cons, hpow]
    omega

theorem reportBits_inj {a b : List Byte} (hlen : a.length = b.length)
    (h : reportBits a = reportBits b) : a = b := by
  induction a generalizing b with
  | nil => exact (List.length_eq_zero_iff.mp hlen.symm).symm
  | cons x a ih =>
    cases b with
    | nil => simp at hlen
    | cons y b =>
      have hx := x.toNat_lt
      have hy := y.toNat_lt
      simp only [reportBits, List.length_cons, Nat.add_right_cancel_iff] at h hlen
      have hxy : x = y := UInt8.toNat_inj.mp (by omega)
      rw [hxy, ih hlen (by omega)]

end VirtualGun.Hid
