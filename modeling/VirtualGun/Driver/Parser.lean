import VirtualGun.Driver.Types

/-!
# `ParseReportDescriptor`

Every read of the descriptor and of the frame array is checked here, so that a read out of bounds
shows as `ParseStop.outOfBounds`.
-/

namespace VirtualGun.Driver

/-- `intsafe.h`: the sum, or `ULONG_ERROR` and a failure. -/
def ulongAdd (a b : UInt32) : UInt32 × Bool :=
  if a.toNat + b.toNat < 2 ^ 32 then (a + b, true) else (0xFFFFFFFF, false)

def ulongMult (a b : UInt32) : UInt32 × Bool :=
  if a.toNat * b.toNat < 2 ^ 32 then (a * b, true) else (0xFFFFFFFF, false)

structure HidParserFrame where
  reportId : UInt8
  reportCount : UInt32
  reportSize : UInt32
  deriving DecidableEq, Repr

def parserFrameCount : ℕ := 32

structure ParserState where
  numberedReports : Bool
  reportSizes : UInt8 → HidReportSize
  hidParserFrames : List HidParserFrame
  currentFrame : ℕ
  i : UInt32

def ParserState.init : ParserState where
  numberedReports := false
  reportSizes := fun _ => HidReportSize.zero
  hidParserFrames := List.replicate parserFrameCount ⟨0, 0, 0⟩
  currentFrame := 0
  i := 0

inductive ParseStop where
  | failed (status : NTSTATUS)
  | outOfBounds
  | outOfFuel
  deriving DecidableEq, Repr

/-- A stop carries the state it happened in: what was parsed until then stays in the context. -/
abbrev ParseM := Except (ParseStop × ParserState)

namespace ParserState

def byte (descriptor : List Byte) (st : ParserState) : ParseM (Byte × ParserState) :=
  match descriptor[st.i.toNat]? with
  | some b => .ok (b, { st with i := st.i + 1 })
  | none => .error (.outOfBounds, st)

def frame (st : ParserState) : ParseM HidParserFrame :=
  match st.hidParserFrames[st.currentFrame]? with
  | some f => .ok f
  | none => .error (.outOfBounds, st)

def setFrame (st : ParserState) (k : ℕ) (f : HidParserFrame) : ParseM ParserState :=
  if k < st.hidParserFrames.length then .ok { st with hidParserFrames := st.hidParserFrames.set k f }
  else .error (.outOfBounds, st)

def setReportSize (st : ParserState) (id : UInt8) (s : HidReportSize) : ParserState :=
  { st with reportSizes := fun k => if k = id then s else st.reportSizes k }

end ParserState

/-- The data of an item with 0, 1, 2 or 4 bytes of it, little-endian. -/
def parseData (descriptor : List Byte) (size : UInt8) (st : ParserState) :
    ParseM (UInt32 × ParserState) := do
  if size = 0 then
    return (0, st)
  let (b0, st) ← st.byte descriptor
  if size = 1 then
    return (b0.toUInt32, st)
  let (b1, st) ← st.byte descriptor
  if size = 2 then
    return (b0.toUInt32 ||| b1.toUInt32 <<< 8, st)
  let (b2, st) ← st.byte descriptor
  let (b3, st) ← st.byte descriptor
  return (b0.toUInt32 ||| b1.toUInt32 <<< 8 ||| b2.toUInt32 <<< 16 ||| b3.toUInt32 <<< 24, st)

def parseGlobalItem (tag : UInt8) (data : UInt32) (st : ParserState) : ParseM ParserState := do
  let frame ← st.frame
  if tag = 0x7 then
    st.setFrame st.currentFrame { frame with reportSize := data }
  else if tag = 0x8 then
    if data > 255 then
      throw (.failed Status.invalidParameter, st)
    let st ← st.setFrame st.currentFrame { frame with reportId := data.toUInt8 }
    return { st with numberedReports := true }
  else if tag = 0x9 then
    st.setFrame st.currentFrame { frame with reportCount := data }
  else if tag = 0xA then
    if st.currentFrame + 1 ≥ parserFrameCount then
      throw (.failed Status.notImplemented, st)
    let st ← st.setFrame (st.currentFrame + 1) frame
    return { st with currentFrame := st.currentFrame + 1 }
  else if tag = 0xB then
    if st.currentFrame = 0 then
      throw (.failed Status.invalidParameter, st)
    return { st with currentFrame := st.currentFrame - 1 }
  else
    return st

/-- One accumulator grows by the item's bits. -/
def addReportBits (st : ParserState) (id : UInt8) (size bits : UInt32)
    (set : UInt32 → HidReportSize) : ParseM ParserState :=
  let (sum, fits) := ulongAdd size bits
  let st := st.setReportSize id (set sum)
  if fits then .ok st else .error (.failed Status.integerOverflow, st)

def parseMainItem (tag : UInt8) (st : ParserState) : ParseM ParserState := do
  let frame ← st.frame
  let entry := st.reportSizes frame.reportId
  let (reportDataBits, fits) := ulongMult frame.reportSize frame.reportCount
  if !fits then
    throw (.failed Status.integerOverflow, st)
  if tag = 0x8 then
    addReportBits st frame.reportId entry.inputReportSize reportDataBits
      fun n => { entry with inputReportSize := n }
  else if tag = 0x9 then
    addReportBits st frame.reportId entry.outputReportSize reportDataBits
      fun n => { entry with outputReportSize := n }
  else if tag = 0xB then
    addReportBits st frame.reportId entry.featureReportSize reportDataBits
      fun n => { entry with featureReportSize := n }
  else
    return st

/-- Tag, type and data size of the item at `i`, whose header is read. -/
def itemHeader (descriptor : List Byte) (length : UInt16) (st : ParserState) :
    ParseM (UInt8 × UInt8 × UInt8 × ParserState) := do
  let (header, st) ← st.byte descriptor
  let tag := (header >>> 4) &&& 0x0F
  let type := (header >>> 2) &&& 0x03
  let size := header &&& 0x03
  if tag = 0xF then
    -- A long item: its size and tag are the next two bytes.
    if st.i + 2 > length.toUInt32 then
      throw (.failed Status.invalidParameter, st)
    let (size, st) ← st.byte descriptor
    let (tag, st) ← st.byte descriptor
    return (tag, type, size, st)
  else
    -- In a short item size 3 means 4 bytes.
    return (tag, type, if size = 3 then 4 else size, st)

/-- One turn of the loop: the item at `i`. -/
def parseItem (descriptor : List Byte) (length : UInt16) (st : ParserState) :
    ParseM ParserState := do
  let (tag, type, size, st) ← itemHeader descriptor length st
  if st.i + size.toUInt32 > length.toUInt32 then
    throw (.failed Status.invalidParameter, st)
  if size = 0 ∨ size = 1 ∨ size = 2 ∨ size = 4 then
    let (data, st) ← parseData descriptor size st
    if type = 0x01 then
      parseGlobalItem tag data st
    else if type = 0x00 then
      parseMainItem tag st
    else
      return st
  else
    return { st with i := st.i + size.toUInt32 }

/-- Every turn takes at least a byte, so as many turns as bytes are enough. -/
def parseLoop (descriptor : List Byte) (length : UInt16) : ℕ → ParserState → ParseM ParserState
  | 0, st => if st.i < length.toUInt32 then .error (.outOfFuel, st) else .ok st
  | n + 1, st =>
    if st.i < length.toUInt32 then do
      parseLoop descriptor length n (← parseItem descriptor length st)
    else .ok st

/-- Bits to bytes, with a byte more for the report ID. -/
def postProcessReportSize (size : UInt32) (numberedReports : Bool) : UInt32 :=
  let bytes := size / 8
  let bytes := if size % 8 = 0 then bytes else bytes + 1
  if numberedReports then bytes + 1 else bytes

def postProcess (numberedReports : Bool) (size : UInt32) : UInt32 :=
  if size = 0 then 0 else postProcessReportSize size numberedReports

structure ParseResult where
  stop : Option ParseStop
  numberedReports : Bool
  reportSizes : UInt8 → HidReportSize

def ParseResult.status (r : ParseResult) : NTSTATUS :=
  match r.stop with
  | none => Status.success
  | some (.failed status) => status
  | some _ => Status.accessViolation

def parseReportDescriptor (descriptor : List Byte) (length : UInt16) : ParseResult :=
  match parseLoop descriptor length length.toNat .init with
  | .error (stop, st) => ⟨some stop, st.numberedReports, st.reportSizes⟩
  | .ok st =>
    let post := postProcess st.numberedReports
    { stop := none
      numberedReports := st.numberedReports
      reportSizes := fun id =>
        let entry := st.reportSizes id
        ⟨post entry.inputReportSize, post entry.outputReportSize, post entry.featureReportSize⟩ }

-- The lightgun's descriptor gives one 5-byte input report without an ID, and nothing else.
example :
    let r := parseReportDescriptor vgunReportDescriptor vgunReportDescriptorBytes.toUInt16
    r.stop = none ∧ r.numberedReports = false ∧ r.reportSizes 0 = ⟨5, 0, 0⟩ := by
  decide +kernel

end VirtualGun.Driver
