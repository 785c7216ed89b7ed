import VirtualGun.Gun

/-!
# The items of a report descriptor

What a list of HID items means: how many bits each report has. Items are encoded one after the other.
-/

namespace VirtualGun.Hid

/-! ## Items -/

inductive ItemType where
  | mainItem | globalItem | localItem | reserved
  deriving DecidableEq, Repr

def ItemType.code : ItemType → ℕ
  | mainItem => 0
  | globalItem => 1
  | localItem => 2
  | reserved => 3

/-- No data, or 1, 2 or 4 bytes of it. -/
inductive ItemValue where
  | empty
  | byte (v : UInt8)
  | word (v : UInt16)
  | dword (v : UInt32)
  deriving DecidableEq, Repr

namespace ItemValue

def toNat : ItemValue → ℕ
  | empty => 0
  | byte v => v.toNat
  | word v => v.toNat
  | dword v => v.toNat

/-- The size in the item's prefix. -/
def sizeCode : ItemValue → ℕ
  | empty => 0
  | byte _ => 1
  | word _ => 2
  | dword _ => 3

def bytes : ItemValue → List Byte
  | empty => []
  | byte v => [v]
  | word v => [v.toUInt8, (v >>> 8).toUInt8]
  | dword v => u32Bytes v

end ItemValue

/-- The tag 15 is no tag of a short item: it marks a long one. -/
inductive Item where
  | short (tag : Fin 15) (type : ItemType) (value : ItemValue)
  | long (tag : Byte) (payload : List Byte) (fits : payload.length ≤ 255)

namespace Item

def itemPrefix (tag : Fin 15) (type : ItemType) (value : ItemValue) : Byte :=
  UInt8.ofNat (tag * 16 + type.code * 4 + value.sizeCode)

def encode : Item → List Byte
  | short tag type value => itemPrefix tag type value :: value.bytes
  | long tag payload _ => 0xFE :: payload.length.toUInt8 :: tag :: payload

def isReportId : Item → Bool
  | short tag .globalItem _ => tag == 8
  | _ => false

end Item

/-! ### Short items by their names -/

namespace Item

def usagePage (v : Byte) : Item := .short 0 .globalItem (.byte v)

def logicalMinimum (v : ItemValue) : Item := .short 1 .globalItem v

def logicalMaximum (v : ItemValue) : Item := .short 2 .globalItem v

def reportSize (v : Byte) : Item := .short 7 .globalItem (.byte v)

def reportCount (v : Byte) : Item := .short 9 .globalItem (.byte v)

def usage (v : Byte) : Item := .short 0 .localItem (.byte v)

def usageMinimum (v : Byte) : Item := .short 1 .localItem (.byte v)

def usageMaximum (v : Byte) : Item := .short 2 .localItem (.byte v)

def input (v : Byte) : Item := .short 8 .mainItem (.byte v)

def collection (v : Byte) : Item := .short 10 .mainItem (.byte v)

def endCollection : Item := .short 12 .mainItem .empty

end Item

def encode (items : List Item) : List Byte := items.flatMap Item.encode

/-! ## What they mean -/

inductive ReportKind where
  | input | output | feature
  deriving DecidableEq, Repr

/-- The global items that count. -/
structure Globals where
  reportSize : ℕ
  reportCount : ℕ
  reportId : ℕ
  deriving DecidableEq, Repr

/-- The bits found so far, for each report ID and kind. -/
structure Tally where
  globals : Globals
  /-- The tables that were pushed, the last one first. -/
  saved : List Globals
  bits : ℕ → ReportKind → ℕ

/-- More than 31 tables are not saved at once. -/
def maxSaved : ℕ := 31

def maxBits : ℕ := 2 ^ 32 - 1

namespace Tally

def init : Tally := ⟨⟨0, 0, 0⟩, [], fun _ _ => 0⟩

def setGlobal (t : Tally) (tag value : ℕ) : Option Tally :=
  match tag with
  | 7 => some { t with globals := { t.globals with reportSize := value } }
  | 8 => if value ≤ 255 then some { t with globals := { t.globals with reportId := value } } else none
  | 9 => some { t with globals := { t.globals with reportCount := value } }
  | 10 => if t.saved.length < maxSaved then some { t with saved := t.globals :: t.saved } else none
  | 11 =>
    match t.saved with
    | [] => none
    | g :: saved => some { t with globals := g, saved := saved }
  | _ => some t

/-- The report a main item belongs to. -/
def kindOf (tag : ℕ) : Option ReportKind :=
  match tag with
  | 8 => some .input
  | 9 => some .output
  | 11 => some .feature
  | _ => none

def addBits (t : Tally) (kind : ReportKind) (n : ℕ) : Tally :=
  { t with bits := fun id k =>
      if id = t.globals.reportId ∧ k = kind then t.bits id k + n else t.bits id k }

def addMain (t : Tally) (tag : ℕ) : Option Tally :=
  let n := t.globals.reportSize * t.globals.reportCount
  if n ≤ maxBits then
    match kindOf tag with
    | none => some t
    | some kind =>
      if t.bits t.globals.reportId kind + n ≤ maxBits then some (t.addBits kind n) else none
  else none

def add (t : Tally) : Item → Option Tally
  | .short tag .globalItem value => t.setGlobal tag value.toNat
  | .short tag .mainItem _ => t.addMain tag
  | _ => some t

end Tally

/-- The bits of all reports, if the items can be counted. -/
def tally (items : List Item) : Option Tally := items.foldlM Tally.add Tally.init

/-- Every report begins with its ID. -/
def numbered (items : List Item) : Bool := items.any Item.isReportId

/-- The bytes of a report: whole ones, and one for the ID. A report without a bit is none. -/
def reportBytes (numbered : Bool) (bits : ℕ) : ℕ :=
  if bits = 0 then 0 else (bits + 7) / 8 + if numbered then 1 else 0

/-! ## Facts -/

theorem encode_cons (item : Item) (items : List Item) : encode (item :: items) = item.encode ++ encode items :=
  List.flatMap_cons

theorem tally_cons (t : Tally) (item : Item) (items : List Item) :
    (item :: items).foldlM Tally.add t = (t.add item).bind fun t' => items.foldlM Tally.add t' := by
  rw [List.foldlM_cons]
  rfl

end VirtualGun.Hid
