import VirtualGun.Driver.Parser
import VirtualGun.Driver.ReportItems
import Mathlib.Tactic.Common

/-!
# What the parser computes

On the encoding of a list of items `ParseReportDescriptor` counts what the items mean.
-/

open VirtualGun.Hid

namespace VirtualGun.Driver

/-! ## Reading bytes -/

namespace ParserState

/-- `n` bytes further. -/
def skip (st : ParserState) (n : ℕ) : ParserState := { st with i := st.i + UInt32.ofNat n }

/-- What is left of the descriptor. -/
structure Before (descriptor : List Byte) (st : ParserState) (rest : List Byte) : Prop where
  rest : descriptor.drop st.i.toNat = rest
  index : st.i.toNat ≤ descriptor.length
  length : descriptor.length ≤ 65535

theorem skip_skip (st : ParserState) (m n : ℕ) : (st.skip m).skip n = st.skip (m + n) := by
  simp only [skip, UInt32.ofNat_add, UInt32.add_assoc]

theorem skip_zero (st : ParserState) : st.skip 0 = st := by
  simp [skip]

section
variable {descriptor bytes rest : List Byte} {st : ParserState} {b : Byte} {n : ℕ}

theorem Before.rest_length (h : st.Before descriptor rest) :
    st.i.toNat + rest.length = descriptor.length := by
  have := h.index
  rw [← h.rest, List.length_drop]
  omega

theorem Before.skip_index (h : st.Before descriptor rest) (hn : n ≤ rest.length) :
    (st.skip n).i.toNat = st.i.toNat + n := by
  have hlength := h.rest_length
  have hmax := h.length
  have hofNat : (UInt32.ofNat n).toNat = n := by
    rw [UInt32.toNat_ofNat', Nat.mod_eq_of_lt (by omega)]
  rw [skip, UInt32.toNat_add, hofNat, Nat.mod_eq_of_lt (by omega)]

theorem Before.skip (h : st.Before descriptor (bytes ++ rest)) :
    (st.skip bytes.length).Before descriptor rest := by
  have hlength := h.rest_length
  have hindex := h.skip_index (n := bytes.length) (by simp)
  rw [List.length_append] at hlength
  refine ⟨?_, by omega, h.length⟩
  rw [hindex, ← List.drop_drop, h.rest, List.drop_left]

theorem Before.byte (h : st.Before descriptor (b :: rest)) : st.byte descriptor = .ok (b, st.skip 1) := by
  have hget : descriptor[st.i.toNat]? = some b := by
    rw [← Nat.add_zero st.i.toNat, ← List.getElem?_drop, h.rest]
    rfl
  rw [ParserState.byte, hget]
  rfl

theorem Before.byte_bind {α : Type} {f : Byte × ParserState → ParseM α} (h : st.Before descriptor (b :: rest)) :
    (st.byte descriptor >>= f) = f (b, st.skip 1) := by
  rw [h.byte]
  rfl

theorem Before.tail (h : st.Before descriptor (b :: rest)) : (st.skip 1).Before descriptor rest :=
  @Before.skip descriptor [b] rest st h

end

end ParserState

open ParserState

section
variable {descriptor bytes rest : List Byte} {st : ParserState}

/-- The number that up to 4 bytes stand for. -/
def dataOf : List Byte → UInt32
  | [b0] => b0.toUInt32
  | [b0, b1] => b0.toUInt32 ||| b1.toUInt32 <<< 8
  | [b0, b1, b2, b3] => b0.toUInt32 ||| b1.toUInt32 <<< 8 ||| b2.toUInt32 <<< 16 ||| b3.toUInt32 <<< 24
  | _ => 0

theorem parseData_before (h : st.Before descriptor (bytes ++ rest))
    (hn : bytes.length = 0 ∨ bytes.length = 1 ∨ bytes.length = 2 ∨ bytes.length = 4) :
    parseData descriptor (UInt8.ofNat bytes.length) st = .ok (dataOf bytes, st.skip bytes.length) := by
  match bytes, hn with
  | [], _ => rw [List.length_nil, skip_zero]; rfl
  | [b0], _ =>
    show parseData descriptor 1 st = .ok (_, st.skip 1)
    unfold parseData
    rw [if_neg (by decide), Before.byte_bind h]
    rfl
  | [b0, b1], _ =>
    show parseData descriptor 2 st = .ok (_, st.skip 2)
    unfold parseData
    rw [if_neg (by decide), Before.byte_bind h]
    dsimp only
    rw [if_neg (by decide), Before.byte_bind h.tail, skip_skip]
    rfl
  | [b0, b1, b2, b3], _ =>
    show parseData descriptor 4 st = .ok (_, st.skip 4)
    unfold parseData
    rw [if_neg (by decide), Before.byte_bind h]
    dsimp only
    rw [if_neg (by decide), Before.byte_bind h.tail]
    dsimp only
    rw [if_neg (by decide), Before.byte_bind h.tail.tail]
    dsimp only
    rw [Before.byte_bind h.tail.tail.tail, skip_skip, skip_skip, skip_skip]
    rfl

theorem dataOf_bytes (value : ItemValue) : (dataOf value.bytes).toNat = value.toNat := by
  cases value with
  | empty => rfl
  | byte v => simp [ItemValue.bytes, dataOf, ItemValue.toNat]
  | word v =>
    refine Nat.eq_of_testBit_eq fun i => ?_
    have hhigh (h : ¬ i < 16) : v.toNat.testBit i = false := testBit_of_lt v.toNat_lt h
    simp only [ItemValue.bytes, dataOf, ItemValue.toNat, UInt32.toNat_or, UInt8.toNat_toUInt32,
      UInt16.toNat_toUInt8, UInt32.toNat_shiftLeft, UInt16.toNat_shiftRight, Nat.testBit_or,
      Nat.testBit_mod_two_pow, Nat.testBit_shiftLeft, Nat.testBit_shiftRight,
      show (8 : UInt32).toNat % 32 = 8 from rfl, show (8 : UInt16).toNat % 16 = 8 from rfl]
    grind
  | dword v =>
    refine Nat.eq_of_testBit_eq fun i => ?_
    have hhigh (h : ¬ i < 32) : v.toNat.testBit i = false := testBit_of_lt v.toNat_lt h
    simp only [ItemValue.bytes, u32Bytes, dataOf, ItemValue.toNat, UInt32.toNat_or, UInt8.toNat_toUInt32,
      UInt32.toNat_toUInt8, UInt32.toNat_shiftLeft, UInt32.toNat_shiftRight, Nat.testBit_or,
      Nat.testBit_mod_two_pow, Nat.testBit_shiftLeft, Nat.testBit_shiftRight,
      show (8 : UInt32).toNat % 32 = 8 from rfl, show (16 : UInt32).toNat % 32 = 16 from rfl,
      show (24 : UInt32).toNat % 32 = 24 from rfl]
    grind

/-! ## One item -/

/-- What the turn of the loop does with an item it has read. -/
def applyItem : Item → ParserState → ParseM ParserState
  | .short tag .globalItem value, st => parseGlobalItem (UInt8.ofNat tag) (dataOf value.bytes) st
  | .short tag .mainItem _, st => parseMainItem (UInt8.ofNat tag) st
  | _, st => .ok st

theorem itemPrefix_fields (tag : Fin 15) (type : ItemType) (value : ItemValue) :
    (Item.itemPrefix tag type value >>> 4) &&& 0x0F = UInt8.ofNat tag ∧
      (Item.itemPrefix tag type value >>> 2) &&& 0x03 = UInt8.ofNat type.code ∧
      Item.itemPrefix tag type value &&& 0x03 = UInt8.ofNat value.sizeCode := by
  unfold Item.itemPrefix
  revert tag
  cases type <;> cases value <;> simp only [ItemType.code, ItemValue.sizeCode] <;> decide

theorem bytes_length (value : ItemValue) : UInt8.ofNat value.bytes.length =
    if UInt8.ofNat value.sizeCode = 3 then 4 else UInt8.ofNat value.sizeCode := by
  cases value <;> rfl

theorem itemHeader_short {length : UInt16} {tag : Fin 15} {type : ItemType} {value : ItemValue}
    (h : st.Before descriptor (Item.itemPrefix tag type value :: rest)) :
    itemHeader descriptor length st =
      .ok (UInt8.ofNat tag, UInt8.ofNat type.code, UInt8.ofNat value.bytes.length, st.skip 1) := by
  obtain ⟨htag, htype, hsize⟩ := itemPrefix_fields tag type value
  have hshort : ∀ tag : Fin 15, UInt8.ofNat tag ≠ 0xF := by decide
  unfold itemHeader
  rw [Before.byte_bind h]
  dsimp only
  rw [htag, htype, hsize, if_neg (hshort tag), bytes_length]
  rfl

theorem Before.not_above {length : UInt16} {size : UInt32} (h : st.Before descriptor rest)
    (hlen : length.toNat = descriptor.length) (hsize : size.toNat ≤ rest.length) :
    ¬ st.i + size > length.toUInt32 := by
  have hrest := h.rest_length
  have hmax := h.length
  rw [gt_iff_lt, UInt32.lt_iff_toNat_lt, UInt16.toNat_toUInt32, UInt32.toNat_add,
    Nat.mod_eq_of_lt (by omega)]
  omega

theorem itemHeader_long {length : UInt16} {size tag : Byte}
    (h : st.Before descriptor (0xFE :: size :: tag :: rest)) (hlen : length.toNat = descriptor.length) :
    itemHeader descriptor length st = .ok (tag, 3, size, st.skip 3) := by
  unfold itemHeader
  rw [Before.byte_bind h]
  dsimp only
  rw [if_pos (by decide), if_neg (Before.not_above h.tail hlen (by simp)), Before.byte_bind h.tail]
  dsimp only
  rw [Before.byte_bind h.tail.tail, skip_skip, skip_skip]
  rfl

/-- A size that is one of the four of short items. -/
def shortSize (n : ℕ) : Prop := n = 0 ∨ n = 1 ∨ n = 2 ∨ n = 4

instance (n : ℕ) : Decidable (shortSize n) := inferInstanceAs (Decidable (n = 0 ∨ n = 1 ∨ n = 2 ∨ n = 4))

theorem shortSize_iff {n : ℕ} (hn : n ≤ 255) :
    (UInt8.ofNat n = 0 ∨ UInt8.ofNat n = 1 ∨ UInt8.ofNat n = 2 ∨ UInt8.ofNat n = 4) ↔ shortSize n := by
  unfold shortSize
  simp only [← UInt8.toNat_inj, UInt8.toNat_ofNat', Nat.mod_eq_of_lt (show n < 2 ^ 8 by omega)]
  rfl

theorem parseItem_of_header {length : UInt16} {tag type : UInt8} {st' : ParserState}
    (hheader : itemHeader descriptor length st = .ok (tag, type, UInt8.ofNat bytes.length, st'))
    (hbytes : bytes.length ≤ 255) (h : st'.Before descriptor (bytes ++ rest))
    (hlen : length.toNat = descriptor.length) :
    parseItem descriptor length st =
      if shortSize bytes.length ∧ type = 1 then parseGlobalItem tag (dataOf bytes) (st'.skip bytes.length)
      else if shortSize bytes.length ∧ type = 0 then parseMainItem tag (st'.skip bytes.length)
      else .ok (st'.skip bytes.length) := by
  have hsize : (UInt8.ofNat bytes.length).toUInt32 = UInt32.ofNat bytes.length := by
    apply UInt32.toNat_inj.mp
    rw [UInt8.toNat_toUInt32, UInt8.toNat_ofNat', UInt32.toNat_ofNat', Nat.mod_eq_of_lt (by omega),
      Nat.mod_eq_of_lt (by omega)]
  have hin : ¬ st'.i + (UInt8.ofNat bytes.length).toUInt32 > length.toUInt32 := by
    apply Before.not_above h hlen
    rw [hsize, UInt32.toNat_ofNat', Nat.mod_eq_of_lt (by omega), List.length_append]
    omega
  unfold parseItem
  rw [hheader]
  simp only [bind, Except.bind, if_neg hin, shortSize_iff hbytes]
  by_cases hs : shortSize bytes.length
  · rw [if_pos hs, parseData_before h hs]
    simp only [hs, true_and]
    rfl
  · rw [if_neg hs, hsize]
    simp only [hs, false_and, if_false]
    rfl

theorem parseItem_encode {length : UInt16} (item : Item) (h : st.Before descriptor (item.encode ++ rest))
    (hlen : length.toNat = descriptor.length) :
    parseItem descriptor length st = applyItem item (st.skip item.encode.length) := by
  cases item with
  | short tag type value =>
    have hshort : shortSize value.bytes.length := by cases value <;> simp [shortSize, ItemValue.bytes, u32Bytes]
    have hbytes : value.bytes.length ≤ 255 := by
      unfold shortSize at hshort
      omega
    have htail : (st.skip 1).Before descriptor (value.bytes ++ rest) := Before.tail h
    have hskip : (st.skip 1).skip value.bytes.length = st.skip (Item.short tag type value).encode.length := by
      rw [skip_skip, Nat.add_comm]
      rfl
    rw [parseItem_of_header (itemHeader_short h) hbytes htail hlen, hskip]
    simp only [hshort, true_and]
    cases type <;> rfl
  | long tag payload fits =>
    have htail : (st.skip 3).Before descriptor (payload ++ rest) := by
      have := Before.tail (Before.tail (Before.tail h))
      rwa [skip_skip, skip_skip] at this
    have hskip : (st.skip 3).skip payload.length = st.skip (Item.long tag payload fits).encode.length := by
      rw [skip_skip, Nat.add_comm]
      rfl
    rw [parseItem_of_header (itemHeader_long h hlen) fits htail hlen, hskip]
    simp only [show (3 : UInt8) ≠ 1 by decide, show (3 : UInt8) ≠ 0 by decide, and_false, if_false]
    rfl

end

/-! ## What the state stands for -/

def HidReportSize.of (s : HidReportSize) : ReportKind → UInt32
  | .input => s.inputReportSize
  | .output => s.outputReportSize
  | .feature => s.featureReportSize

def HidParserFrame.globals (f : HidParserFrame) : Globals :=
  ⟨f.reportSize.toNat, f.reportCount.toNat, f.reportId.toNat⟩

/-- The current frame is the table, the frames below it are the saved ones. -/
structure Counts (st : ParserState) (t : Tally) : Prop where
  frames : st.hidParserFrames.length = parserFrameCount
  saved : (st.hidParserFrames.take st.currentFrame).map HidParserFrame.globals = t.saved.reverse
  globals : st.hidParserFrames[st.currentFrame]?.map HidParserFrame.globals = some t.globals
  bits : ∀ id kind, ((st.reportSizes id).of kind).toNat = t.bits id.toNat kind

/-- Both count the item, or both refuse it. -/
def Counted (p : ParseM ParserState) (i : UInt32) (numbered : Bool) : Option Tally → Prop
  | some t => ∃ st, p = .ok st ∧ Counts st t ∧ st.i = i ∧ st.numberedReports = numbered
  | none => ∃ status st, p = .error (.failed status, st) ∧ ntSuccess status = false

section
variable {st : ParserState} {t : Tally}

theorem Counts.frame (h : Counts st t) : ∃ f, st.hidParserFrames[st.currentFrame]? = some f ∧
    st.frame = .ok f ∧ f.globals = t.globals ∧ st.currentFrame < parserFrameCount := by
  obtain ⟨f, hf, hglobals⟩ := Option.map_eq_some_iff.mp h.globals
  refine ⟨f, hf, ?_, hglobals, ?_⟩
  · unfold ParserState.frame
    rw [hf]
  · rw [← h.frames]
    exact (List.getElem?_eq_some_iff.mp hf).1

theorem Counts.saved_length (h : Counts st t) : t.saved.length = st.currentFrame := by
  obtain ⟨f, hf, -, -, hlt⟩ := h.frame
  have hlength := congrArg List.length h.saved
  rw [List.length_map, List.length_take, List.length_reverse, h.frames] at hlength
  omega

theorem Counts.setCurrent (h : Counts st t) {f : HidParserFrame} {g : Globals} (hf : f.globals = g) :
    ∃ st', st.setFrame st.currentFrame f = .ok st' ∧ Counts st' { t with globals := g } ∧ st'.i = st.i ∧
      st'.numberedReports = st.numberedReports := by
  obtain ⟨-, -, -, -, hlt⟩ := h.frame
  have hlt : st.currentFrame < st.hidParserFrames.length := h.frames ▸ hlt
  refine ⟨{ st with hidParserFrames := st.hidParserFrames.set st.currentFrame f }, if_pos hlt,
    ⟨?_, ?_, ?_, h.bits⟩, rfl, rfl⟩
  · rw [List.length_set, h.frames]
  · rw [List.take_set_of_le le_rfl]
    exact h.saved
  · rw [List.getElem?_set_self hlt, Option.map_some, hf]

theorem Counts.push (h : Counts st t) {f : HidParserFrame} (hf : st.hidParserFrames[st.currentFrame]? = some f)
    (hroom : st.currentFrame + 1 < parserFrameCount) :
    ∃ st', st.setFrame (st.currentFrame + 1) f = .ok st' ∧
      Counts { st' with currentFrame := st'.currentFrame + 1 } { t with saved := t.globals :: t.saved } ∧
      st'.i = st.i ∧ st'.numberedReports = st.numberedReports := by
  have hglobals : f.globals = t.globals := by
    have := h.globals
    rw [hf] at this
    exact Option.some.inj this
  have hlt : st.currentFrame + 1 < st.hidParserFrames.length := h.frames ▸ hroom
  refine ⟨{ st with hidParserFrames := st.hidParserFrames.set (st.currentFrame + 1) f }, if_pos hlt,
    ⟨?_, ?_, ?_, h.bits⟩, rfl, rfl⟩
  · rw [List.length_set, h.frames]
  · rw [List.take_set_of_le le_rfl, List.take_add_one, hf, List.map_append, h.saved, List.reverse_cons]
    rw [← hglobals]
    rfl
  · rw [List.getElem?_set_self hlt, Option.map_some, hglobals]

theorem Counts.pop (h : Counts st t) {g : Globals} {saved : List Globals} (hsaved : t.saved = g :: saved) :
    Counts { st with currentFrame := st.currentFrame - 1 } { t with globals := g, saved := saved } := by
  have hlength := h.saved_length
  obtain ⟨f, hf, -, -, hlt⟩ := h.frame
  rw [hsaved, List.length_cons] at hlength
  have hpred : st.currentFrame = (st.currentFrame - 1) + 1 := by omega
  have hlt : st.currentFrame - 1 < st.hidParserFrames.length := by
    rw [h.frames]
    omega
  have htables := h.saved
  rw [hsaved, List.reverse_cons, hpred, List.take_add_one, List.getElem?_eq_getElem hlt, List.map_append]
    at htables
  obtain ⟨hrest, hlast⟩ := List.append_inj' htables rfl
  refine ⟨h.frames, hrest, ?_, h.bits⟩
  rw [List.getElem?_eq_getElem hlt, Option.map_some]
  exact congrArg some (List.singleton_inj.mp hlast)

theorem ofNat_eq_iff {n : ℕ} (hn : n < 15) (k : UInt8) : UInt8.ofNat n = k ↔ n = k.toNat := by
  rw [← UInt8.toNat_inj, UInt8.toNat_ofNat', Nat.mod_eq_of_lt (by omega)]

theorem Counts.setField (h : Counts st t) {f : HidParserFrame} {g : Globals} (hf : f.globals = g) :
    Counted (st.setFrame st.currentFrame f) st.i st.numberedReports (some { t with globals := g }) :=
  h.setCurrent hf

theorem parseGlobalItem_counted (h : Counts st t) (tag : Fin 15) (data : UInt32) :
    Counted (parseGlobalItem (UInt8.ofNat tag) data st) st.i (st.numberedReports || tag == 8)
      (t.setGlobal tag data.toNat) := by
  obtain ⟨n, hn⟩ := tag
  obtain ⟨f, hf, hframe, hglobals, hlt⟩ := h.frame
  have hnumbered : (st.numberedReports || (⟨n, hn⟩ : Fin 15) == 8) =
      (st.numberedReports || decide (n = 8)) := by
    congr 1
    rw [Bool.eq_iff_iff, beq_iff_eq, decide_eq_true_eq, Fin.ext_iff]
    rfl
  unfold parseGlobalItem
  rw [hframe, hnumbered]
  simp only [bind, Except.bind]
  have hcases : n = 7 ∨ n = 8 ∨ n = 9 ∨ n = 10 ∨ n = 11 ∨ (n ≠ 7 ∧ n ≠ 8 ∧ n ≠ 9 ∧ n ≠ 10 ∧ n ≠ 11) := by omega
  rcases hcases with rfl | rfl | rfl | rfl | rfl | hother
  · rw [if_pos (by decide), show (st.numberedReports || decide (7 = 8)) = st.numberedReports by simp]
    exact h.setField (g := { t.globals with reportSize := data.toNat }) (by rw [← hglobals]; rfl)
  · -- the report ID is a byte
    rw [if_neg (by decide), if_pos (by decide), Tally.setGlobal]
    by_cases hid : data > 255
    · have hgt : ¬ data.toNat ≤ 255 := Nat.not_le.mpr (UInt32.lt_iff_toNat_lt.mp hid)
      rw [if_pos hid, if_neg hgt]
      exact ⟨_, _, rfl, rfl⟩
    · have hle : data.toNat ≤ 255 := UInt32.le_iff_toNat_le.mp (UInt32.not_lt.mp hid)
      have hglobals' : ({ f with reportId := data.toUInt8 } : HidParserFrame).globals =
          { t.globals with reportId := data.toNat } := by
        rw [← hglobals]
        unfold HidParserFrame.globals
        rw [UInt32.toNat_toUInt8, Nat.mod_eq_of_lt (by omega)]
      rw [if_neg hid, if_pos hle]
      obtain ⟨st', hset, hst', hi, -⟩ := h.setCurrent hglobals'
      rw [hset]
      exact ⟨_, rfl, ⟨hst'.frames, hst'.saved, hst'.globals, hst'.bits⟩, hi, by simp⟩
  · rw [if_neg (by decide), if_neg (by decide), if_pos (by decide),
      show (st.numberedReports || decide (9 = 8)) = st.numberedReports by simp]
    exact h.setField (g := { t.globals with reportCount := data.toNat }) (by rw [← hglobals]; rfl)
  · rw [if_neg (by decide), if_neg (by decide), if_neg (by decide), if_pos (by decide),
      show (st.numberedReports || decide (10 = 8)) = st.numberedReports by simp, Tally.setGlobal,
      h.saved_length]
    by_cases hroom : st.currentFrame + 1 < parserFrameCount
    · rw [if_neg (Nat.not_le.mpr hroom), if_pos (by simp only [maxSaved, parserFrameCount] at hroom ⊢; omega)]
      obtain ⟨st', hset, hst', hi, hnum⟩ := h.push hf hroom
      rw [hset]
      exact ⟨_, rfl, hst', hi, hnum⟩
    · rw [if_pos (Nat.not_lt.mp hroom), if_neg (by simp only [maxSaved, parserFrameCount] at hroom ⊢; omega)]
      exact ⟨_, _, rfl, rfl⟩
  · rw [if_neg (by decide), if_neg (by decide), if_neg (by decide), if_neg (by decide), if_pos (by decide),
      show (st.numberedReports || decide (11 = 8)) = st.numberedReports by simp, Tally.setGlobal]
    have hlength := h.saved_length
    cases hsaved : t.saved with
    | nil =>
      rw [hsaved, List.length_nil] at hlength
      rw [if_pos hlength.symm]
      exact ⟨_, _, rfl, rfl⟩
    | cons g saved =>
      rw [hsaved, List.length_cons] at hlength
      rw [if_neg (by omega)]
      exact ⟨_, rfl, h.pop hsaved, rfl, rfl⟩
  · obtain ⟨h7, h8, h9, h10, h11⟩ := hother
    have hne {k : UInt8} (hk : n ≠ k.toNat) : UInt8.ofNat n ≠ k := (ofNat_eq_iff hn k).not.mpr hk
    rw [if_neg (hne (k := 7) h7), if_neg (hne (k := 8) h8), if_neg (hne (k := 9) h9),
      if_neg (hne (k := 10) h10), if_neg (hne (k := 11) h11),
      decide_eq_false h8, Bool.or_false]
    have hnone : t.setGlobal n data.toNat = some t := by
      unfold Tally.setGlobal
      split <;> first | rfl | omega
    rw [hnone]
    exact ⟨_, rfl, h, rfl, rfl⟩

/-! ## Main items -/

theorem HidParserFrame.id_eq {f : HidParserFrame} (hf : f.globals = t.globals) :
    f.reportId.toNat = t.globals.reportId := by rw [← hf]; rfl

theorem le_maxBits {n : ℕ} : n ≤ maxBits ↔ n < 2 ^ 32 := by
  unfold maxBits
  omega

/-- One accumulator grows, or both say that it does not fit. -/
theorem addReportBits_counted (h : Counts st t) {id : UInt8} (hid : id.toNat = t.globals.reportId)
    {set : UInt32 → HidReportSize} {bits : UInt32} {n : ℕ} (hbits : bits.toNat = n) (kind : ReportKind)
    (hset : ∀ v k, (set v).of k = if k = kind then v else (st.reportSizes id).of k) :
    Counted (addReportBits st id ((st.reportSizes id).of kind) bits set) st.i st.numberedReports
      (if t.bits t.globals.reportId kind + n ≤ maxBits then some (t.addBits kind n) else none) := by
  have hold := h.bits id kind
  rw [hid] at hold
  unfold addReportBits ulongAdd
  rw [← hold, ← hbits]
  by_cases hfits : ((st.reportSizes id).of kind).toNat + bits.toNat < 2 ^ 32
  · rw [if_pos hfits, if_pos (le_maxBits.mpr hfits)]
    refine ⟨_, rfl, ⟨h.frames, h.saved, h.globals, fun id' kind' => ?_⟩, rfl, rfl⟩
    simp only [setReportSize, Tally.addBits]
    by_cases hid' : id' = id
    · subst hid'
      rw [if_pos rfl, hset, hid]
      by_cases hkind : kind' = kind
      · subst hkind
        rw [if_pos rfl, if_pos ⟨rfl, rfl⟩, UInt32.toNat_add, Nat.mod_eq_of_lt hfits, hold]
      · rw [if_neg hkind, if_neg fun hc => hkind hc.2, h.bits, hid]
    · have hne : id'.toNat ≠ t.globals.reportId := fun he => hid' (UInt8.toNat_inj.mp (he.trans hid.symm))
      rw [if_neg hid', if_neg fun hc => hne hc.1, h.bits]
  · rw [if_neg hfits, if_neg (le_maxBits.not.mpr hfits)]
    exact ⟨_, _, rfl, rfl⟩

theorem parseMainItem_counted (h : Counts st t) (tag : Fin 15) :
    Counted (parseMainItem (UInt8.ofNat tag) st) st.i st.numberedReports (t.addMain tag) := by
  obtain ⟨n, hn⟩ := tag
  obtain ⟨f, hf, hframe, hglobals, -⟩ := h.frame
  have hid := HidParserFrame.id_eq hglobals
  have hsize : f.reportSize.toNat = t.globals.reportSize := by rw [← hglobals]; rfl
  have hcount : f.reportCount.toNat = t.globals.reportCount := by rw [← hglobals]; rfl
  unfold parseMainItem Tally.addMain
  rw [hframe]
  simp only [bind, Except.bind, ulongMult, hsize, hcount]
  by_cases hfits : t.globals.reportSize * t.globals.reportCount < 2 ^ 32
  · rw [if_pos hfits, if_pos (le_maxBits.mpr hfits)]
    have hbits : (f.reportSize * f.reportCount).toNat = t.globals.reportSize * t.globals.reportCount := by
      rw [UInt32.toNat_mul, hsize, hcount, Nat.mod_eq_of_lt hfits]
    have hgrows {set : UInt32 → HidReportSize} := @addReportBits_counted _ _ h _ hid set _ _ hbits
    rw [if_neg (by simp)]
    have hcases : n = 8 ∨ n = 9 ∨ n = 11 ∨ (n ≠ 8 ∧ n ≠ 9 ∧ n ≠ 11) := by omega
    rcases hcases with rfl | rfl | rfl | ⟨h8, h9, h11⟩
    · rw [if_pos (by decide)]
      exact hgrows .input fun v kind => by cases kind <;> rfl
    · rw [if_neg (by decide), if_pos (by decide)]
      exact hgrows .output fun v kind => by cases kind <;> rfl
    · rw [if_neg (by decide), if_neg (by decide), if_pos (by decide)]
      exact hgrows .feature fun v kind => by cases kind <;> rfl
    · have hne {k : UInt8} (hk : n ≠ k.toNat) : UInt8.ofNat n ≠ k := (ofNat_eq_iff hn k).not.mpr hk
      have hnone : Tally.kindOf n = none := by
        unfold Tally.kindOf
        split <;> first | rfl | omega
      rw [if_neg (hne (k := 8) h8), if_neg (hne (k := 9) h9), if_neg (hne (k := 11) h11), hnone]
      exact ⟨_, rfl, h, rfl, rfl⟩
  · rw [if_neg hfits, if_neg (le_maxBits.not.mpr hfits)]
    exact ⟨_, _, rfl, rfl⟩

/-! ## All items -/

theorem applyItem_counted (h : Counts st t) (item : Item) :
    Counted (applyItem item st) st.i (st.numberedReports || item.isReportId) (t.add item) := by
  have hsame : Counted (.ok st) st.i (st.numberedReports || false) (some t) :=
    ⟨st, rfl, h, rfl, (Bool.or_false _).symm⟩
  cases item with
  | long tag payload fits => exact hsame
  | short tag type value =>
    cases type with
    | mainItem =>
      rw [show Item.isReportId (.short tag .mainItem value) = false from rfl, Bool.or_false]
      exact parseMainItem_counted h tag
    | globalItem =>
      have hcount := parseGlobalItem_counted h tag (dataOf value.bytes)
      rwa [dataOf_bytes] at hcount
    | localItem | reserved => exact hsame

end

theorem Counts.skip {st : ParserState} {t : Tally} (h : Counts st t) (n : ℕ) : Counts (st.skip n) t :=
  ⟨h.frames, h.saved, h.globals, h.bits⟩

theorem ParserState.Before.of_index {descriptor rest : List Byte} {st st' : ParserState}
    (h : st.Before descriptor rest) (hi : st'.i = st.i) : st'.Before descriptor rest :=
  ⟨by rw [hi]; exact h.rest, by rw [hi]; exact h.index, h.length⟩

theorem encode_length_pos (item : Item) : 1 ≤ item.encode.length := by
  cases item <;> simp [Item.encode]

/-- The loop counts the items that are left, or stops at the first that cannot be counted. -/
theorem parseLoop_counted {descriptor : List Byte} {length : UInt16} (items : List Item) {n : ℕ}
    {st : ParserState} {t : Tally} (hlen : length.toNat = descriptor.length)
    (hrest : st.Before descriptor (encode items)) (hn : (encode items).length ≤ n) (h : Counts st t) :
    Counted (parseLoop descriptor length n st) length.toUInt32 (st.numberedReports || numbered items)
      (items.foldlM Tally.add t) := by
  have hlength := hrest.rest_length
  have hend : st.i < length.toUInt32 ↔ 0 < (encode items).length := by
    rw [UInt32.lt_iff_toNat_lt, UInt16.toNat_toUInt32]
    omega
  induction items generalizing n st t with
  | nil =>
    have hstop : ¬ st.i < length.toUInt32 := by simp [hend, encode]
    have hloop : parseLoop descriptor length n st = .ok st := by
      cases n <;> exact if_neg hstop
    refine ⟨st, hloop, h, ?_, (Bool.or_false _).symm⟩
    apply UInt32.toNat_inj.mp
    rw [UInt16.toNat_toUInt32, hlen, ← hlength]
    rfl
  | cons item items ih =>
    have hpos := encode_length_pos item
    rw [encode_cons] at hrest hn hlength hend
    rw [List.length_append] at hn hlength hend
    obtain ⟨n, rfl⟩ : ∃ m, n = m + 1 := ⟨n - 1, by omega⟩
    have hitem := applyItem_counted (h.skip item.encode.length) item
    rw [tally_cons, parseLoop, if_pos (hend.mpr (by omega)), parseItem_encode item hrest hlen]
    cases hadd : t.add item with
    | none =>
      rw [hadd] at hitem
      obtain ⟨status, st', hst', hstatus⟩ := hitem
      rw [hst']
      exact ⟨status, st', rfl, hstatus⟩
    | some t' =>
      rw [hadd] at hitem
      obtain ⟨st', hst', hcounts, hi, hnumbered⟩ := hitem
      have hrest' := hrest.skip.of_index hi
      have hnext := ih (n := n) hrest' (by omega) hcounts hrest'.rest_length (by
        have := hrest'.rest_length
        rw [UInt32.lt_iff_toNat_lt, UInt16.toNat_toUInt32]
        omega)
      rw [hst']
      rw [hnumbered, Bool.or_assoc] at hnext
      exact hnext

theorem init_counts : Counts .init Tally.init where
  frames := List.length_replicate
  saved := rfl
  globals := rfl
  bits id kind := by cases kind <;> rfl

theorem postProcess_toNat (numbered : Bool) (size : UInt32) :
    (postProcess numbered size).toNat = reportBytes numbered size.toNat := by
  have hmax := size.toNat_lt
  have hdiv : (size / 8).toNat = size.toNat / 8 := UInt32.toNat_div _ _
  have hmod : size % 8 = 0 ↔ size.toNat % 8 = 0 := by
    rw [← UInt32.toNat_inj, UInt32.toNat_mod]
    rfl
  have hsucc {n : UInt32} (hn : n.toNat ≤ 2 ^ 31) : (n + 1).toNat = n.toNat + 1 := by
    rw [UInt32.toNat_add, show (1 : UInt32).toNat = 1 from rfl, Nat.mod_eq_of_lt (by omega)]
  unfold postProcess reportBytes
  by_cases h0 : size = 0
  · rw [if_pos h0, if_pos (by rw [h0]; rfl)]
    rfl
  have h0' : size.toNat ≠ 0 := fun h => h0 (UInt32.toNat_inj.mp h)
  rw [if_neg h0, if_neg h0']
  -- the bytes, rounded up
  have hbytes : (if size % 8 = 0 then size / 8 else size / 8 + 1).toNat = (size.toNat + 7) / 8 := by
    split
    · next h8 =>
      have := hmod.mp h8
      omega
    · next h8 =>
      have := hmod.not.mp h8
      rw [hsucc (by omega)]
      omega
  unfold postProcessReportSize
  cases numbered
  · exact hbytes
  · simp only [if_true]
    rw [hsucc (by omega), hbytes]

/-- On the encoding of items the parser comes to what the items mean, and it fails exactly where they
cannot be counted. -/
theorem parser_correct (items : List Item) (h : (encode items).length ≤ 65535) :
    let r := parseReportDescriptor (encode items) (encode items).length.toUInt16
    match tally items with
    | none => ntSuccess r.status = false
    | some t => r.status = Status.success ∧ r.numberedReports = numbered items ∧
        ∀ id kind, ((r.reportSizes id).of kind).toNat =
          reportBytes (numbered items) (t.bits id.toNat kind) := by
  have hlen : (encode items).length.toUInt16.toNat = (encode items).length := by
    rw [Nat.toUInt16, UInt16.toNat_ofNat_of_lt' (by simp only [UInt16.size]; omega)]
  have hbefore : ParserState.Before (encode items) .init (encode items) := ⟨rfl, Nat.zero_le _, h⟩
  have hloop := parseLoop_counted (n := (encode items).length.toUInt16.toNat) items hlen hbefore (by omega)
    init_counts
  dsimp only
  unfold parseReportDescriptor
  rw [show items.foldlM Tally.add Tally.init = tally items from rfl] at hloop
  cases htally : tally items with
  | none =>
    rw [htally] at hloop
    obtain ⟨status, st, hst, hstatus⟩ := hloop
    rw [hst]
    exact hstatus
  | some t =>
    rw [htally] at hloop
    obtain ⟨st, hst, hcounts, -, hnumbered⟩ := hloop
    have hnumbered : st.numberedReports = numbered items := hnumbered
    rw [hst]
    refine ⟨rfl, hnumbered, fun id kind => ?_⟩
    rw [← hnumbered, ← hcounts.bits]
    cases kind <;> exact postProcess_toNat _ _

/-- Three bits of report 7, which is padded to a byte. -/
def bitsOfSeven : List Item :=
  [.short ⟨8, by decide⟩ .globalItem (.byte 7), .short ⟨7, by decide⟩ .globalItem (.byte 1),
    .short ⟨9, by decide⟩ .globalItem (.byte 3), .short ⟨8, by decide⟩ .mainItem (.byte 2)]

theorem parser_correct_seven :
    ((parseReportDescriptor (encode bitsOfSeven) (encode bitsOfSeven).length.toUInt16).reportSizes 7).of
      .input = 2 := by
  have h := (parser_correct bitsOfSeven (by decide)).2.2 7 .input
  exact UInt32.toNat_inj.mp (h.trans (by decide))

end VirtualGun.Driver
