import VirtualGun.Driver.Parser
import Mathlib.Data.List.Basic

/-!
# The parser under guard

`ParseReportDescriptor` once more, with every access and every 32-bit sum and product checked: the
first that goes wrong ends the parse with a fault. On no byte string does one go wrong.
-/

namespace VirtualGun.Driver

/-! ## The guarded parser -/

inductive ParserFault where
  /-- A read of the descriptor at an index that is not below its length. -/
  | readOutside
  | frameOutside
  | reportSizesOutside
  /-- A sum or a product that does not fit 32 bits and is not reported. -/
  | wrapped
  /-- A turn of the loop that takes no byte, or a loop that does not end. -/
  | stuck
  deriving DecidableEq, Repr

/-- A fault, or a failure that the parser reports. -/
abbrev GuardedM := Except (ParserFault ⊕ ParseStop × ParserState)

namespace Guarded

def fault {α : Type} (f : ParserFault) : GuardedM α := .error (.inl f)

def fail {α : Type} (status : NTSTATUS) (st : ParserState) : GuardedM α := .error (.inr (.failed status, st))

def add (a b : UInt32) : GuardedM UInt32 := if a.toNat + b.toNat < 2 ^ 32 then return a + b else fault .wrapped

/-- `i++` after a read at `i`. -/
def byte (descriptor : List Byte) (st : ParserState) : GuardedM (Byte × ParserState) :=
  match descriptor[st.i.toNat]? with
  | some b => do
    let i ← add st.i 1
    return (b, { st with i := i })
  | none => fault .readOutside

def frame (st : ParserState) : GuardedM HidParserFrame :=
  match st.hidParserFrames[st.currentFrame]? with
  | some f => if st.currentFrame < parserFrameCount then return f else fault .frameOutside
  | none => fault .frameOutside

def setFrame (st : ParserState) (k : ℕ) (f : HidParserFrame) : GuardedM ParserState :=
  if k < parserFrameCount ∧ k < st.hidParserFrames.length then
    return { st with hidParserFrames := st.hidParserFrames.set k f }
  else fault .frameOutside

/-- The number of entries of `ReportSizes`. -/
def reportSizesCount : ℕ := 256

def reportSize (st : ParserState) (id : UInt8) : GuardedM HidReportSize :=
  if id.toNat < reportSizesCount then return st.reportSizes id else fault .reportSizesOutside

def parseData (descriptor : List Byte) (size : UInt8) (st : ParserState) :
    GuardedM (UInt32 × ParserState) := do
  if size = 0 then
    return (0, st)
  let (b0, st) ← byte descriptor st
  if size = 1 then
    return (b0.toUInt32, st)
  let (b1, st) ← byte descriptor st
  if size = 2 then
    return (b0.toUInt32 ||| b1.toUInt32 <<< 8, st)
  let (b2, st) ← byte descriptor st
  let (b3, st) ← byte descriptor st
  return (b0.toUInt32 ||| b1.toUInt32 <<< 8 ||| b2.toUInt32 <<< 16 ||| b3.toUInt32 <<< 24, st)

def parseGlobalItem (tag : UInt8) (data : UInt32) (st : ParserState) : GuardedM ParserState := do
  let f ← frame st
  if tag = 0x7 then
    setFrame st st.currentFrame { f with reportSize := data }
  else if tag = 0x8 then
    if data > 255 then
      fail Status.invalidParameter st
    else
      let st ← setFrame st st.currentFrame { f with reportId := data.toUInt8 }
      return { st with numberedReports := true }
  else if tag = 0x9 then
    setFrame st st.currentFrame { f with reportCount := data }
  else if tag = 0xA then
    if st.currentFrame + 1 ≥ parserFrameCount then
      fail Status.notImplemented st
    else
      let st ← setFrame st (st.currentFrame + 1) f
      return { st with currentFrame := st.currentFrame + 1 }
  else if tag = 0xB then
    if st.currentFrame = 0 then
      fail Status.invalidParameter st
    else
      return { st with currentFrame := st.currentFrame - 1 }
  else
    return st

/-- `ULongAdd` and `ULongMult` report what does not fit: a result they accept is exact. -/
def reported (r : UInt32 × Bool) (exact : ℕ) : GuardedM (UInt32 × Bool) :=
  if r.2 = true ∧ r.1.toNat ≠ exact then fault .wrapped else return r

def addReportBits (st : ParserState) (id : UInt8) (size bits : UInt32)
    (set : UInt32 → HidReportSize) : GuardedM ParserState := do
  let (sum, fits) ← reported (ulongAdd size bits) (size.toNat + bits.toNat)
  let st := st.setReportSize id (set sum)
  if fits then return st else fail Status.integerOverflow st

def parseMainItem (tag : UInt8) (st : ParserState) : GuardedM ParserState := do
  let f ← frame st
  let entry ← reportSize st f.reportId
  let (reportDataBits, fits) ← reported (ulongMult f.reportSize f.reportCount)
    (f.reportSize.toNat * f.reportCount.toNat)
  if !fits then
    fail Status.integerOverflow st
  else if tag = 0x8 then
    addReportBits st f.reportId entry.inputReportSize reportDataBits
      fun n => { entry with inputReportSize := n }
  else if tag = 0x9 then
    addReportBits st f.reportId entry.outputReportSize reportDataBits
      fun n => { entry with outputReportSize := n }
  else if tag = 0xB then
    addReportBits st f.reportId entry.featureReportSize reportDataBits
      fun n => { entry with featureReportSize := n }
  else
    return st

def itemHeader (descriptor : List Byte) (length : UInt16) (st : ParserState) :
    GuardedM (UInt8 × UInt8 × UInt8 × ParserState) := do
  let (header, st) ← byte descriptor st
  let tag := (header >>> 4) &&& 0x0F
  let type := (header >>> 2) &&& 0x03
  let size := header &&& 0x03
  if tag = 0xF then
    let last ← add st.i 2
    if last > length.toUInt32 then
      fail Status.invalidParameter st
    else
      let (size, st) ← byte descriptor st
      let (tag, st) ← byte descriptor st
      return (tag, type, size, st)
  else
    return (tag, type, if size = 3 then 4 else size, st)

def parseItem (descriptor : List Byte) (length : UInt16) (st : ParserState) :
    GuardedM ParserState := do
  let (tag, type, size, st) ← itemHeader descriptor length st
  let last ← add st.i size.toUInt32
  if last > length.toUInt32 then
    fail Status.invalidParameter st
  else if size = 0 ∨ size = 1 ∨ size = 2 ∨ size = 4 then
    let (data, st) ← parseData descriptor size st
    if type = 0x01 then
      parseGlobalItem tag data st
    else if type = 0x00 then
      parseMainItem tag st
    else
      return st
  else
    return { st with i := last }

/-- A turn of the loop must take a byte. -/
def parseLoop (descriptor : List Byte) (length : UInt16) : ℕ → ParserState → GuardedM ParserState
  | 0, st => if st.i < length.toUInt32 then fault .stuck else return st
  | n + 1, st =>
    if st.i < length.toUInt32 then do
      let next ← parseItem descriptor length st
      if st.i < next.i then parseLoop descriptor length n next else fault .stuck
    else return st

def postProcess (numberedReports : Bool) (size : UInt32) : GuardedM UInt32 := do
  if size = 0 then
    return 0
  else
    let bytes ← if size % 8 = 0 then pure (size / 8) else add (size / 8) 1
    if numberedReports then add bytes 1 else return bytes

def postProcessEntry (numberedReports : Bool) (entry : HidReportSize) : GuardedM HidReportSize := do
  let input ← postProcess numberedReports entry.inputReportSize
  let output ← postProcess numberedReports entry.outputReportSize
  let feature ← postProcess numberedReports entry.featureReportSize
  return ⟨input, output, feature⟩

/-- The loop over the entries of `ReportSizes`, from entry `k` on, `n` of them. -/
def postProcessAll (numberedReports : Bool) : ℕ → ℕ → (UInt8 → HidReportSize) → GuardedM (UInt8 → HidReportSize)
  | _, 0, sizes => return sizes
  | k, n + 1, sizes =>
    if k < reportSizesCount then do
      let entry ← postProcessEntry numberedReports (sizes (UInt8.ofNat k))
      postProcessAll numberedReports (k + 1) n fun id => if id = UInt8.ofNat k then entry else sizes id
    else fault .reportSizesOutside

/-- A fault, or what `ParseReportDescriptor` leaves. -/
def parseReportDescriptor (descriptor : List Byte) (length : UInt16) : Except ParserFault ParseResult :=
  match parseLoop descriptor length length.toNat .init with
  | .error (.inl f) => .error f
  | .error (.inr (stop, st)) => .ok ⟨some stop, st.numberedReports, st.reportSizes⟩
  | .ok st =>
    match postProcessAll st.numberedReports 0 reportSizesCount st.reportSizes with
    | .error (.inl f) => .error f
    | .error (.inr (stop, st)) => .ok ⟨some stop, st.numberedReports, st.reportSizes⟩
    | .ok sizes => .ok ⟨none, st.numberedReports, sizes⟩

end Guarded

/-! ## Agreement -/

/-- The guarded run comes to what the other does: a result of `Q`, or a failure that is reported. -/
def Agrees {α : Type} (g : GuardedM α) (p : ParseM α) (Q : α → Prop) : Prop :=
  (∃ a, g = .ok a ∧ p = .ok a ∧ Q a) ∨
    ∃ status st, g = Guarded.fail status st ∧ p = .error (.failed status, st)

namespace Agrees

variable {α β : Type} {g : GuardedM α} {p : ParseM α} {Q Q' : α → Prop}

theorem pure {a : α} (h : Q a) : Agrees (.ok a) (.ok a) Q := .inl ⟨a, rfl, rfl, h⟩

theorem fail {status : NTSTATUS} {st : ParserState} :
    Agrees (Guarded.fail status st) (.error (.failed status, st)) Q :=
  .inr ⟨status, st, rfl, rfl⟩

theorem bind {f : α → GuardedM β} {f' : α → ParseM β} {Q' : β → Prop} (h : Agrees g p Q)
    (hf : ∀ a, Q a → Agrees (f a) (f' a) Q') : Agrees (g >>= f) (p >>= f') Q' := by
  rcases h with ⟨a, rfl, rfl, ha⟩ | ⟨status, st, rfl, rfl⟩
  · exact hf a ha
  · exact .inr ⟨status, st, rfl, rfl⟩

theorem mono (hQ : ∀ a, Q a → Q' a) (h : Agrees g p Q) : Agrees g p Q' :=
  h.imp_left fun ⟨a, hg, hp, ha⟩ => ⟨a, hg, hp, hQ a ha⟩

theorem ite {b : Prop} [Decidable b] {g' : GuardedM α} {p' : ParseM α} (h : b → Agrees g p Q)
    (h' : ¬ b → Agrees g' p' Q) : Agrees (if b then g else g') (if b then p else p') Q := by
  split
  · next hb => exact h hb
  · next hb => exact h' hb

end Agrees

/-! ## One item -/

/-- Where the loop stands between two items. -/
structure WellPlaced (length : ℕ) (st : ParserState) : Prop where
  index : st.i.toNat ≤ length
  frames : st.hidParserFrames.length = parserFrameCount
  current : st.currentFrame < parserFrameCount

/-- `n` bytes further, and nothing else. -/
def After (n : ℕ) (st st' : ParserState) : Prop :=
  st' = { st with i := st'.i } ∧ st'.i.toNat = st.i.toNat + n

section
variable {descriptor : List Byte} {st st' st'' : ParserState} {m n : ℕ}

theorem After.trans (h : After m st st') (h' : After n st' st'') : After (m + n) st st'' := by
  obtain ⟨hst, hi⟩ := h
  obtain ⟨hst', hi'⟩ := h'
  constructor
  · rw [hst', hst]
  · omega

theorem After.wellPlaced {length : ℕ} (h : After n st st') (hst : WellPlaced length st)
    (hi : st.i.toNat + n ≤ length) : WellPlaced length st' := by
  obtain ⟨heq, hindex⟩ := h
  rw [heq]
  exact ⟨by simpa only [hindex] using hi, hst.frames, hst.current⟩

theorem add_agrees {α : Type} {a b : UInt32} {f : UInt32 → GuardedM α} {p : ParseM α} {Q : α → Prop}
    (h : a.toNat + b.toNat < 2 ^ 32) (hf : Agrees (f (a + b)) p Q) : Agrees (Guarded.add a b >>= f) p Q := by
  unfold Guarded.add
  rw [if_pos h]
  exact hf

theorem byte_agrees (hlen : descriptor.length ≤ 65535) (hi : st.i.toNat < descriptor.length) :
    Agrees (Guarded.byte descriptor st) (st.byte descriptor) fun r => After 1 st r.2 := by
  have hsum : st.i.toNat + (1 : UInt32).toNat < 2 ^ 32 := by
    rw [show (1 : UInt32).toNat = 1 from rfl]
    omega
  have hone : (st.i + 1).toNat = st.i.toNat + 1 := by
    rw [UInt32.toNat_add, Nat.mod_eq_of_lt hsum]
    rfl
  unfold Guarded.byte ParserState.byte
  rw [List.getElem?_eq_getElem hi]
  apply add_agrees hsum
  exact .pure ⟨rfl, hone⟩

theorem byte_then {α : Type} {f : Byte × ParserState → GuardedM α} {f' : Byte × ParserState → ParseM α}
    {Q : α → Prop} (hlen : descriptor.length ≤ 65535) (hi : st.i.toNat < descriptor.length)
    (hf : ∀ b st', After 1 st st' → Agrees (f (b, st')) (f' (b, st')) Q) :
    Agrees (Guarded.byte descriptor st >>= f) (st.byte descriptor >>= f') Q := by
  apply (byte_agrees hlen hi).bind
  rintro ⟨b, st'⟩ h
  exact hf b st' h

theorem parseData_agrees (hlen : descriptor.length ≤ 65535) {size : UInt8}
    (hsize : size = 0 ∨ size = 1 ∨ size = 2 ∨ size = 4) (hi : st.i.toNat + size.toNat ≤ descriptor.length) :
    Agrees (Guarded.parseData descriptor size st) (parseData descriptor size st)
      fun r => After size.toNat st r.2 := by
  unfold Guarded.parseData parseData
  by_cases h0 : size = 0
  · rw [if_pos h0, if_pos h0, h0]
    exact .pure ⟨rfl, rfl⟩
  have hpos : 1 ≤ size.toNat := by rcases hsize with rfl | rfl | rfl | rfl <;> simp_all
  rw [if_neg h0, if_neg h0]
  refine byte_then hlen (by omega) fun b0 st₁ h₁ => ?_
  by_cases h1 : size = 1
  · subst h1
    exact .pure h₁
  have hpos : 2 ≤ size.toNat := by rcases hsize with rfl | rfl | rfl | rfl <;> simp_all
  have hi₁ := h₁.2
  dsimp only
  rw [if_neg h1, if_neg h1]
  refine byte_then hlen (by omega) fun b1 st₂ h₂ => ?_
  by_cases h2 : size = 2
  · subst h2
    exact .pure (h₁.trans h₂)
  obtain rfl : size = 4 := by simp_all
  have hfour : (4 : UInt8).toNat = 4 := rfl
  have hi₂ := h₂.2
  dsimp only
  rw [if_neg h2, if_neg h2]
  refine byte_then hlen (by omega) fun b2 st₃ h₃ => ?_
  have hi₃ := h₃.2
  dsimp only
  refine byte_then hlen (by omega) fun b3 st₄ h₄ => ?_
  exact .pure (((h₁.trans h₂).trans h₃).trans h₄)

theorem itemHeader_agrees {length : UInt16} (hlen : descriptor.length = length.toNat)
    (hi : st.i.toNat < descriptor.length) :
    Agrees (Guarded.itemHeader descriptor length st) (itemHeader descriptor length st)
      fun r => ∃ n, 1 ≤ n ∧ st.i.toNat + n ≤ descriptor.length ∧ After n st r.2.2.2 := by
  have hmax : descriptor.length ≤ 65535 := by
    have := length.toNat_lt
    omega
  unfold Guarded.itemHeader itemHeader
  refine byte_then hmax hi fun header st₁ h₁ => ?_
  have hi₁ := h₁.2
  refine .ite (fun _ => ?_) fun _ => .pure ⟨1, le_rfl, by omega, h₁⟩
  have hsum : st₁.i.toNat + (2 : UInt32).toNat < 2 ^ 32 := by
    rw [show (2 : UInt32).toNat = 2 from rfl]
    omega
  apply add_agrees hsum
  refine .ite (fun _ => .fail) fun hin => ?_
  have hin : (st₁.i + 2).toNat ≤ length.toNat := by
    rw [← UInt16.toNat_toUInt32]
    exact UInt32.le_iff_toNat_le.mp (UInt32.not_lt.mp hin)
  rw [UInt32.toNat_add, Nat.mod_eq_of_lt hsum, show (2 : UInt32).toNat = 2 from rfl] at hin
  refine byte_then hmax (by omega) fun size st₂ h₂ => ?_
  have hi₂ := h₂.2
  refine byte_then hmax (by omega) fun tag st₃ h₃ => ?_
  exact .pure ⟨3, by omega, by omega, (h₁.trans h₂).trans h₃⟩

/-! ## What an item does -/

theorem frame_agrees {length : ℕ} (hst : WellPlaced length st) :
    Agrees (Guarded.frame st) st.frame fun _ => True := by
  have hframe := hst.frames ▸ hst.current
  unfold Guarded.frame ParserState.frame
  rw [List.getElem?_eq_getElem hframe]
  dsimp only
  rw [if_pos hst.current]
  exact .pure trivial

theorem setFrame_agrees {length k : ℕ} {f : HidParserFrame} (hst : WellPlaced length st)
    (hk : k < parserFrameCount) :
    Agrees (Guarded.setFrame st k f) (st.setFrame k f) fun st' => WellPlaced length st' ∧ st'.i = st.i ∧
      st'.currentFrame = st.currentFrame := by
  have hframe : k < st.hidParserFrames.length := hst.frames ▸ hk
  unfold Guarded.setFrame ParserState.setFrame
  rw [if_pos ⟨hk, hframe⟩, if_pos hframe]
  refine .pure ⟨⟨hst.index, ?_, hst.current⟩, rfl, rfl⟩
  rw [List.length_set]
  exact hst.frames

/-- Items leave the index where the decoding put it. -/
abbrev ItemAgrees (length : ℕ) (st : ParserState) (g : GuardedM ParserState) (p : ParseM ParserState) : Prop :=
  Agrees g p fun st' => WellPlaced length st' ∧ st'.i = st.i

theorem parseGlobalItem_agrees {length : ℕ} (tag : UInt8) (data : UInt32) (hst : WellPlaced length st) :
    ItemAgrees length st (Guarded.parseGlobalItem tag data st) (parseGlobalItem tag data st) := by
  have hset {f : HidParserFrame} : ItemAgrees length st (Guarded.setFrame st st.currentFrame f)
      (st.setFrame st.currentFrame f) :=
    (setFrame_agrees hst hst.current).mono fun _ h => ⟨h.1, h.2.1⟩
  unfold Guarded.parseGlobalItem parseGlobalItem
  refine (frame_agrees hst).bind fun f _ => ?_
  refine .ite (fun _ => hset) fun _ => .ite (fun _ => ?_) fun _ => .ite (fun _ => hset) fun _ =>
    .ite (fun _ => ?_) fun _ => .ite (fun _ => ?_) fun _ => .pure ⟨hst, rfl⟩
  · refine .ite (fun _ => .fail) fun _ => hset.bind fun st' h => .pure ⟨?_, h.2⟩
    exact ⟨h.1.index, h.1.frames, h.1.current⟩
  · refine .ite (fun _ => .fail) fun hroom => ?_
    have hroom : st.currentFrame + 1 < parserFrameCount := Nat.not_le.mp hroom
    refine (setFrame_agrees hst hroom).bind fun st' h => .pure ⟨⟨h.1.index, h.1.frames, ?_⟩, h.2.1⟩
    show st'.currentFrame + 1 < parserFrameCount
    rw [h.2.2]
    exact hroom
  · refine .ite (fun _ => .fail) fun _ => .pure ⟨⟨hst.index, hst.frames, ?_⟩, rfl⟩
    have := hst.current
    exact Nat.lt_of_le_of_lt (Nat.sub_le _ _) this

theorem reportSize_agrees {α : Type} {id : UInt8} {f : HidReportSize → GuardedM α} {p : ParseM α}
    {Q : α → Prop} (h : Agrees (f (st.reportSizes id)) p Q) : Agrees (Guarded.reportSize st id >>= f) p Q := by
  unfold Guarded.reportSize
  rw [if_pos (show id.toNat < Guarded.reportSizesCount from id.toNat_lt)]
  exact h

theorem ulongAdd_exact {a b : UInt32} (h : (ulongAdd a b).2 = true) :
    (ulongAdd a b).1.toNat = a.toNat + b.toNat := by
  unfold ulongAdd at h ⊢
  split at h
  · next hfits =>
    rw [if_pos hfits, UInt32.toNat_add, Nat.mod_eq_of_lt hfits]
  · cases h

theorem ulongMult_exact {a b : UInt32} (h : (ulongMult a b).2 = true) :
    (ulongMult a b).1.toNat = a.toNat * b.toNat := by
  unfold ulongMult at h ⊢
  split at h
  · next hfits =>
    rw [if_pos hfits, UInt32.toNat_mul, Nat.mod_eq_of_lt hfits]
  · cases h

theorem reported_agrees {α : Type} {r : UInt32 × Bool} {exact : ℕ} {f : UInt32 × Bool → GuardedM α}
    {p : ParseM α} {Q : α → Prop} (hr : r.2 = true → r.1.toNat = exact) (h : Agrees (f r) p Q) :
    Agrees (Guarded.reported r exact >>= f) p Q := by
  unfold Guarded.reported
  rw [if_neg fun hno => hno.2 (hr hno.1)]
  exact h

theorem addReportBits_agrees {length : ℕ} {id : UInt8} {size bits : UInt32} {set : UInt32 → HidReportSize}
    (hst : WellPlaced length st) :
    ItemAgrees length st (Guarded.addReportBits st id size bits set) (addReportBits st id size bits set) := by
  unfold Guarded.addReportBits addReportBits
  apply reported_agrees ulongAdd_exact
  refine .ite (fun _ => .pure ⟨⟨hst.index, hst.frames, hst.current⟩, rfl⟩) fun _ => .fail

theorem parseMainItem_agrees {length : ℕ} (tag : UInt8) (hst : WellPlaced length st) :
    ItemAgrees length st (Guarded.parseMainItem tag st) (parseMainItem tag st) := by
  unfold Guarded.parseMainItem parseMainItem
  refine (frame_agrees hst).bind fun f _ => ?_
  apply reportSize_agrees
  apply reported_agrees ulongMult_exact
  refine .ite (fun _ => .fail) fun _ => ?_
  exact .ite (fun _ => addReportBits_agrees hst) fun _ => .ite (fun _ => addReportBits_agrees hst) fun _ =>
    .ite (fun _ => addReportBits_agrees hst) fun _ => .pure ⟨hst, rfl⟩

/-! ## The loop -/

/-- A turn takes at least a byte, and stays in the descriptor. -/
theorem parseItem_agrees {length : UInt16} (hlen : descriptor.length = length.toNat)
    (hst : WellPlaced descriptor.length st) (hi : st.i.toNat < descriptor.length) :
    Agrees (Guarded.parseItem descriptor length st) (parseItem descriptor length st)
      fun st' => WellPlaced descriptor.length st' ∧ st.i.toNat < st'.i.toNat := by
  have hmax : descriptor.length ≤ 65535 := by
    have := length.toNat_lt
    omega
  unfold Guarded.parseItem parseItem
  apply (itemHeader_agrees hlen hi).bind
  rintro ⟨tag, type, size, st₁⟩ ⟨n, hn, hle, h₁⟩
  have hi₁ : st₁.i.toNat = st.i.toNat + n := h₁.2
  have hst₁ := h₁.wellPlaced hst hle
  have hsize : size.toUInt32.toNat = size.toNat := UInt8.toNat_toUInt32 size
  have hbyte := size.toNat_lt
  have hsum : st₁.i.toNat + size.toUInt32.toNat < 2 ^ 32 := by omega
  apply add_agrees hsum
  refine .ite (fun _ => .fail) fun hin => ?_
  have hin : (st₁.i + size.toUInt32).toNat ≤ length.toNat := by
    rw [← UInt16.toNat_toUInt32]
    exact UInt32.le_iff_toNat_le.mp (UInt32.not_lt.mp hin)
  have hend : (st₁.i + size.toUInt32).toNat = st₁.i.toNat + size.toNat := by
    rw [UInt32.toNat_add, Nat.mod_eq_of_lt hsum, hsize]
  refine .ite (fun hdata => ?_) fun _ => .pure ?_
  · apply (parseData_agrees hmax hdata (by omega)).bind
    rintro ⟨data, st₂⟩ h₂
    have hi₂ : st₂.i.toNat = st₁.i.toNat + size.toNat := h₂.2
    have hst₂ := h₂.wellPlaced hst₁ (by omega)
    have hturn {st' : ParserState} (h : WellPlaced descriptor.length st' ∧ st'.i = st₂.i) :
        WellPlaced descriptor.length st' ∧ st.i.toNat < st'.i.toNat := by
      refine ⟨h.1, ?_⟩
      rw [h.2]
      omega
    exact .ite (fun _ => (parseGlobalItem_agrees tag data hst₂).mono fun _ => hturn) fun _ =>
      .ite (fun _ => (parseMainItem_agrees tag hst₂).mono fun _ => hturn) fun _ => .pure (hturn ⟨hst₂, rfl⟩)
  · refine ⟨⟨?_, hst₁.frames, hst₁.current⟩, ?_⟩
    · show (st₁.i + size.toUInt32).toNat ≤ descriptor.length
      omega
    · show st.i.toNat < (st₁.i + size.toUInt32).toNat
      omega

/-- As many turns as there are bytes left are enough. -/
theorem parseLoop_agrees {length : UInt16} (hlen : descriptor.length = length.toNat)
    (hst : WellPlaced descriptor.length st) (hn : descriptor.length ≤ st.i.toNat + n) :
    Agrees (Guarded.parseLoop descriptor length n st) (parseLoop descriptor length n st) fun _ => True := by
  have hlength : length.toUInt32.toNat = descriptor.length := by rw [UInt16.toNat_toUInt32, hlen]
  induction n generalizing st with
  | zero =>
    have hend : ¬ st.i < length.toUInt32 := by
      rw [UInt32.lt_iff_toNat_lt]
      omega
    unfold Guarded.parseLoop parseLoop
    rw [if_neg hend, if_neg hend]
    exact .pure trivial
  | succ n ih =>
    unfold Guarded.parseLoop parseLoop
    refine .ite (fun hi => ?_) fun _ => .pure trivial
    rw [UInt32.lt_iff_toNat_lt, hlength] at hi
    apply (parseItem_agrees hlen hst hi).bind
    rintro st' ⟨hst', hlt⟩
    rw [if_pos (UInt32.lt_iff_toNat_lt.mpr hlt)]
    exact ih hst' (by omega)

/-! ## The sizes in bytes -/

theorem postProcess_guarded (numberedReports : Bool) (size : UInt32) :
    Guarded.postProcess numberedReports size = .ok (postProcess numberedReports size) := by
  have hdiv : (size / 8).toNat = size.toNat / 8 := UInt32.toNat_div _ _
  have hone : (1 : UInt32).toNat = 1 := rfl
  have hmax := size.toNat_lt
  have hfits : (size / 8).toNat + (1 : UInt32).toNat < 2 ^ 32 := by omega
  have hround : (size / 8 + 1).toNat + (1 : UInt32).toNat < 2 ^ 32 := by
    rw [UInt32.toNat_add, Nat.mod_eq_of_lt hfits]
    omega
  have hadd : Guarded.add (size / 8) 1 = .ok (size / 8 + 1) := if_pos hfits
  have hadd' : Guarded.add (size / 8 + 1) 1 = .ok (size / 8 + 1 + 1) := if_pos hround
  unfold Guarded.postProcess postProcess postProcessReportSize
  by_cases h0 : size = 0
  · rw [if_pos h0, if_pos h0]
    rfl
  rw [if_neg h0, if_neg h0]
  by_cases h8 : size % 8 = 0
  · simp only [if_pos h8]
    cases numberedReports
    · rfl
    · exact hadd
  · simp only [if_neg h8]
    rw [hadd]
    cases numberedReports
    · rfl
    · exact hadd'

theorem postProcessEntry_guarded (numberedReports : Bool) (entry : HidReportSize) :
    Guarded.postProcessEntry numberedReports entry =
      .ok ⟨postProcess numberedReports entry.inputReportSize,
        postProcess numberedReports entry.outputReportSize,
        postProcess numberedReports entry.featureReportSize⟩ := by
  unfold Guarded.postProcessEntry
  rw [postProcess_guarded, postProcess_guarded, postProcess_guarded]
  rfl

theorem postProcessAll_guarded (numberedReports : Bool) {k n : ℕ} (h : k + n = Guarded.reportSizesCount)
    (sizes : UInt8 → HidReportSize) :
    ∃ result, Guarded.postProcessAll numberedReports k n sizes = .ok result ∧ ∀ id : UInt8,
      (id.toNat < k → result id = sizes id) ∧
      (k ≤ id.toNat → result id = ⟨postProcess numberedReports (sizes id).inputReportSize,
        postProcess numberedReports (sizes id).outputReportSize,
        postProcess numberedReports (sizes id).featureReportSize⟩) := by
  induction n generalizing k sizes with
  | zero =>
    refine ⟨sizes, rfl, fun id => ⟨fun _ => rfl, fun hk => ?_⟩⟩
    have hmax := id.toNat_lt
    rw [Guarded.reportSizesCount] at h
    omega
  | succ n ih =>
    unfold Guarded.postProcessAll
    rw [if_pos (by omega), postProcessEntry_guarded]
    obtain ⟨result, hrun, hresult⟩ := ih (k := k + 1) (by omega) fun id => if id = UInt8.ofNat k then
      ⟨postProcess numberedReports (sizes (UInt8.ofNat k)).inputReportSize,
        postProcess numberedReports (sizes (UInt8.ofNat k)).outputReportSize,
        postProcess numberedReports (sizes (UInt8.ofNat k)).featureReportSize⟩ else sizes id
    have hk : (UInt8.ofNat k).toNat = k := by
      rw [UInt8.toNat_ofNat', Nat.mod_eq_of_lt]
      rw [Guarded.reportSizesCount] at h
      omega
    refine ⟨result, hrun, fun id => ⟨fun hid => ?_, fun hid => ?_⟩⟩
    · rw [(hresult id).1 (by omega), if_neg]
      rintro rfl
      omega
    · by_cases heq : id = UInt8.ofNat k
      · subst heq
        rw [(hresult _).1 (by omega), if_pos rfl]
      · have hne : id.toNat ≠ k := fun he => heq (UInt8.toNat_inj.mp (he.trans hk.symm))
        rw [(hresult id).2 (by omega), if_neg heq]

theorem init_wellPlaced (length : ℕ) : WellPlaced length .init :=
  ⟨Nat.zero_le _, List.length_replicate, by decide⟩

/-- On no byte string that a report descriptor can be does the guarded parser find a fault, and what it
leaves is what the parser leaves. -/
theorem parser_safe (descriptor : List Byte) (h : descriptor.length ≤ 65535) :
    Guarded.parseReportDescriptor descriptor descriptor.length.toUInt16 =
        .ok (parseReportDescriptor descriptor descriptor.length.toUInt16) ∧
      (parseReportDescriptor descriptor descriptor.length.toUInt16).stop ≠ some .outOfBounds ∧
      (parseReportDescriptor descriptor descriptor.length.toUInt16).stop ≠ some .outOfFuel := by
  have hlen : descriptor.length = descriptor.length.toUInt16.toNat := by
    rw [Nat.toUInt16, UInt16.toNat_ofNat_of_lt' (by simp only [UInt16.size]; omega)]
  have hloop := parseLoop_agrees hlen (init_wellPlaced descriptor.length)
    (n := descriptor.length.toUInt16.toNat) (by omega)
  unfold Guarded.parseReportDescriptor parseReportDescriptor
  rcases hloop with ⟨st, hg, hp, -⟩ | ⟨status, st, hg, hp⟩
  · rw [hg, hp]
    obtain ⟨sizes, hrun, hsizes⟩ := postProcessAll_guarded st.numberedReports
      (k := 0) (n := Guarded.reportSizesCount) rfl st.reportSizes
    have hall : sizes = fun id => ⟨postProcess st.numberedReports (st.reportSizes id).inputReportSize,
        postProcess st.numberedReports (st.reportSizes id).outputReportSize,
        postProcess st.numberedReports (st.reportSizes id).featureReportSize⟩ :=
      funext fun id => (hsizes id).2 (Nat.zero_le _)
    dsimp only
    rw [hrun, hall]
    exact ⟨rfl, by simp, by simp⟩
  · rw [hg, hp]
    exact ⟨rfl, by simp, by simp⟩

/-- The header of a long item, cut off. -/
theorem parser_safe_truncated :
    Guarded.parseReportDescriptor [0xFE, 2] [0xFE, 2].length.toUInt16 =
        .ok (parseReportDescriptor [0xFE, 2] [0xFE, 2].length.toUInt16) ∧
      (parseReportDescriptor [0xFE, 2] [0xFE, 2].length.toUInt16).stop ≠ some .outOfBounds ∧
      (parseReportDescriptor [0xFE, 2] [0xFE, 2].length.toUInt16).stop ≠ some .outOfFuel :=
  parser_safe [0xFE, 2] (by decide)

end

end VirtualGun.Driver
