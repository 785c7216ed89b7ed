import VirtualGun.GunReport
import VirtualGun.Library.Sending
import Mathlib.Logic.Function.Basic

/-!
# The test driver

`tools/vgun_cli.cpp` reads commands and drives the lanes through the library. The parsing of a line is left
out.
-/

open VirtualGun.Program
open VirtualGun.WinUHid (Session Lib Does gunConfig Retired Alive)
open VirtualGun.Setup (WString wide)

namespace VirtualGun.GunCli

inductive Command where
  | version
  | create (lane : ℕ)
  | state (lane : ℕ) (x y buttons : Int32)
  | hid (lane : ℕ)
  | destroy (lane : ℕ)
  | quit
  | other
  deriving DecidableEq, Repr

/-- A line that is printed. -/
inductive Reply where
  | version (version : UInt32)
  | ok (lane : ℕ)
  | err (lane : ℕ) (code : UInt32)
  | sent (lane : ℕ)
  | hid (lane : ℕ) (id : WString)
  | gone (lane : ℕ)
  | bye
  deriving DecidableEq, Repr

structure Tool where
  /-- What the library has for the device of each lane. -/
  sessions : ℕ → Session
  /-- Whether `g_devices[lane]` is set. -/
  devices : ℕ → Bool
  printed : List Reply

def Tool.start : Tool := ⟨fun _ => Session.empty, fun _ => false, []⟩

inductive ToolCall where
  | lane (lane : ℕ) (c : WinUHid.Call)
  | getDevice (lane : ℕ)
  | setDevice (lane : ℕ) (device : Bool)
  | printf (reply : Reply)
  /-- Opens the driver for itself and closes it again. -/
  | getDriverInterfaceVersion
  | laneHidInstanceId (lane : ℕ)
  /-- What lies on the stack: the padding of a `WINUHID_DEVICE_INFO`, and a byte. -/
  | stack

abbrev ToolCall.Resp : ToolCall → Type
  | lane _ c => c.Resp
  | getDevice _ => Bool
  | getDriverInterfaceVersion => UInt32
  | laneHidInstanceId _ => WString
  | stack => UInt16 × Byte
  | _ => Unit

inductive ToolOutcome where
  | ok
  | lane (o : WinUHid.Outcome)
  | version (version : UInt32)
  | id (id : WString)
  | stack (padding : UInt16) (byte : Byte)

def Tool.put (lane : ℕ) (s : Session) (t : Tool) : Tool :=
  { t with sessions := Function.update t.sessions lane s }

def exec : Exec ToolCall ToolCall.Resp ToolOutcome Tool
  | .lane lane c, .lane o, t => (WinUHid.exec c o (t.sessions lane)).map fun x => (x.1, t.put lane x.2)
  | .getDevice lane, .ok, t => some (t.devices lane, t)
  | .setDevice lane device, .ok, t => some ((), { t with devices := Function.update t.devices lane device })
  | .printf reply, .ok, t => some ((), { t with printed := t.printed ++ [reply] })
  | .getDriverInterfaceVersion, .version version, t => some (version, t)
  | .laneHidInstanceId _, .id id, t => some (id, t)
  | .stack, .stack padding byte, t => some ((padding, byte), t)
  | _, _, _ => none

abbrev Run := Prog ToolCall ToolCall.Resp

abbrev perform (c : ToolCall) : Run c.Resp := Prog.perform c

def onLane {α : Type} (lane : ℕ) (p : Lib α) : Run α := p.lift (.lane lane) fun _ r => r

namespace Error

abbrev genFailure : UInt32 := 31
abbrev invalidParameter : UInt32 := 87
abbrev alreadyExists : UInt32 := 183

end Error

def lastErrorOr (lane : ℕ) (fallback : UInt32) : Run UInt32 := do
  let e : UInt32 ← onLane lane (WinUHid.perform .getLastError)
  return if e != 0 then e else fallback

def create (lane : ℕ) : Run UInt32 := do
  if lane ≥ vgunMaxLanes then
    return Error.invalidParameter
  else if ← perform (.getDevice lane) then
    return Error.alreadyExists
  else
    let (padding, byte) ← perform .stack
    if !(← onLane lane (WinUHid.winUHidCreateDevice (some (gunConfig lane)) padding byte)) then
      lastErrorOr lane Error.genFailure
    else if !(← onLane lane (WinUHid.winUHidStartDevice true none 0)) then
      let err ← lastErrorOr lane Error.genFailure
      onLane lane (WinUHid.winUHidDestroyDevice true byte)
      return err
    else
      perform (.setDevice lane true)
      return 0

def submit (lane : ℕ) (x y buttons : Int32) : Run UInt32 := do
  if lane ≥ vgunMaxLanes then
    return Error.invalidParameter
  else if !(← perform (.getDevice lane)) then
    return Error.invalidParameter
  else
    let (_, byte) ← perform .stack
    if !(← onLane lane (WinUHid.winUHidSubmitInputReport true (some (makeReport x y buttons).bytes)
        vgunReportBytes.toUInt32 byte)) then
      lastErrorOr lane Error.genFailure
    else
      return 0

def destroy (lane : ℕ) : Run Unit := do
  if lane ≥ vgunMaxLanes then
    return ()
  else if !(← perform (.getDevice lane)) then
    return ()
  else
    let (_, byte) ← perform .stack
    onLane lane (WinUHid.winUHidStopDevice true)
    onLane lane (WinUHid.winUHidDestroyDevice true byte)
    perform (.setDevice lane false)

def destroyAll : List ℕ → Run Unit
  | [] => return ()
  | lane :: lanes => do
    destroy lane
    destroyAll lanes

def laneHid (lane : ℕ) : Run WString := do
  if lane < vgunMaxLanes then perform (.laneHidInstanceId lane) else return []

def serve : Command → Run Unit
  | .version => do
    let version ← perform .getDriverInterfaceVersion
    perform (.printf (.version version))
  | .create lane => do
    let err ← create lane
    perform (.printf (if err = 0 then .ok lane else .err lane err))
  | .state lane x y buttons => do
    let err ← submit lane x y buttons
    perform (.printf (if err = 0 then .sent lane else .err lane err))
  | .hid lane => do
    let id ← laneHid lane
    perform (.printf (.hid lane (if id.isEmpty then wide "-" else id)))
  | .destroy lane => do
    destroy lane
    perform (.printf (.gone lane))
  | .quit => do
    destroyAll (List.range vgunMaxLanes)
    perform (.printf .bye)
  | .other => perform (.printf (.err 0 Error.invalidParameter))

/-- The loop ends with the input, or with `quit`. -/
def main : List Command → Run Unit
  | [] => return ()
  | command :: commands => do
    serve command
    if command = .quit then
      return ()
    else
      main commands

/-! ## What the printed lines say -/

/-- The reports that each lane sent; none where it has no gun. -/
abbrev Bank := ℕ → Option (List (List Byte))

def Bank.empty : Bank := fun _ => none

/-- What a command and the line that answers it say of the lanes. -/
def Bank.after (bank : Bank) : Command × Reply → Bank
  | (.create lane, .ok _) => Function.update bank lane (some [])
  | (.state lane x y buttons, .sent _) =>
    Function.update bank lane ((bank lane).map (· ++ [(makeReport x y buttons).bytes]))
  | (.destroy lane, .gone _) => Function.update bank lane none
  | (.quit, .bye) => Bank.empty
  | _ => bank

/-- The lane is as its entry says: without a device, a handle, a block or a file, or with a gun that was
started and from which VHF has these reports. -/
def LaneIs (lane : ℕ) (t : Tool) : Option (List (List Byte)) → Prop
  | none => t.devices lane = false ∧ (t.sessions lane).device = none ∧ (t.sessions lane).file = none ∧
    (t.sessions lane).handles = 0 ∧ (t.sessions lane).blocks = 0
  | some sent => lane < vgunMaxLanes ∧ t.devices lane = true ∧
    (t.sessions lane).Gun (gunConfig lane) .started sent 0 ∧ (t.sessions lane).blocks = 0

/-- The lanes are as the bank says, and the guns that were there before are gone. -/
structure Agrees (bank : Bank) (t : Tool) : Prop where
  lane : ∀ lane, LaneIs lane t (bank lane)
  closed : ∀ lane, ∀ d ∈ (t.sessions lane).closed, Retired d

section
variable {α : Type} {bank : Bank} {lane : ℕ} {t t' : Tool} {s : Session} {Q : α → Tool → Prop}

-- Its equations are made here, before all lemmas below ask for them at once.
attribute [local simp] exec

/-! ## One lane -/

@[simp] theorem Tool.put_lane : (t.put lane s).sessions lane = s := by
  unfold put
  exact Function.update_self lane s t.sessions

theorem Tool.put_other {l : ℕ} (hl : l ≠ lane) : (t.put lane s).sessions l = t.sessions l := by
  unfold put
  exact Function.update_of_ne hl s t.sessions

@[simp] theorem Tool.put_put {u : Session} : (t.put lane s).put lane u = t.put lane u := by
  unfold put
  rw [Function.update_idem]

theorem Tool.put_same : t.put lane (t.sessions lane) = t := by
  unfold Tool.put
  rw [Function.update_eq_self]

def lanePart (lane : ℕ) : Part Tool Session where
  get t := t.sessions lane
  put := Tool.put lane
  get_put _ _ := Tool.put_lane
  put_get _ := Tool.put_same
  put_put _ _ _ := Tool.put_put

theorem lane_carries : (lanePart lane).Carries (.lane lane) (fun _ r => r) WinUHid.exec exec := by
  intro c o r t t' he
  cases o with
  | lane o =>
    simp only [exec, Option.map_eq_some_iff, Prod.mk.injEq, Prod.exists] at he
    obtain ⟨r, s, hs, rfl, rfl⟩ := he
    exact ⟨o, s, hs, rfl⟩
  | _ => simp at he

theorem onLane_does {P : α → Session → Prop} {p : Lib α} (hp : Does P p (t.sessions lane))
    (hQ : ∀ a s, P a s → Q a (t.put lane s)) : wp exec (fun _ => True) Q (onLane lane p) t := by
  refine wp_mono (fun _ _ => trivial) ?_ (wp_lift lane_carries hp)
  rintro a _ - ⟨s, hs, rfl⟩
  exact hQ a s hs

theorem lastErrorOr_does {fallback : UInt32} {Q : UInt32 → Tool → Prop} (hfallback : fallback ≠ 0)
    (hQ : ∀ err, err ≠ 0 → Q err t) : wp exec (fun _ => True) Q (lastErrorOr lane fallback) t := by
  unfold lastErrorOr
  have hget : Does (fun _ s => s = t.sessions lane) (WinUHid.perform .getLastError) (t.sessions lane) := by
    refine ⟨trivial, fun o e s he => ⟨trivial, ?_⟩⟩
    simp only [WinUHid.exec, Option.map_eq_some_iff, Prod.mk.injEq] at he
    obtain ⟨-, -, -, rfl⟩ := he
    rfl
  refine (wp_bind _ _).mpr (onLane_does hget ?_)
  rintro e _ rfl
  rw [Tool.put_same]
  refine ⟨trivial, hQ _ ?_⟩
  split
  · next he => simpa using he
  · exact hfallback

theorem does_getDevice {k : Bool → Run α} (hk : wp exec (fun _ => True) Q (k (t.devices lane)) t) :
    wp exec (fun _ => True) Q (.call (.getDevice lane) k) t := by
  refine ⟨trivial, fun o b t' he => ?_⟩
  cases o <;> simp only [exec, reduceCtorEq, Option.some.injEq, Prod.mk.injEq] at he
  obtain ⟨rfl, rfl⟩ := he
  exact hk

theorem does_setDevice {b : Bool} {k : Unit → Run α}
    (hk : wp exec (fun _ => True) Q (k ()) { t with devices := Function.update t.devices lane b }) :
    wp exec (fun _ => True) Q (.call (.setDevice lane b) k) t := by
  refine ⟨trivial, fun o r t' he => ?_⟩
  cases o <;> simp only [exec, reduceCtorEq, Option.some.injEq, Prod.mk.injEq] at he
  obtain ⟨-, rfl⟩ := he
  exact hk

theorem does_stack {k : UInt16 × Byte → Run α} (hk : ∀ x, wp exec (fun _ => True) Q (k x) t) :
    wp exec (fun _ => True) Q (.call .stack k) t := by
  refine ⟨trivial, fun o x t' he => ?_⟩
  cases o <;> simp only [exec, reduceCtorEq, Option.some.injEq, Prod.mk.injEq] at he
  obtain ⟨-, rfl⟩ := he
  exact hk x

theorem does_printf {reply : Reply} {k : Unit → Run α}
    (hk : wp exec (fun _ => True) Q (k ()) { t with printed := t.printed ++ [reply] }) :
    wp exec (fun _ => True) Q (.call (.printf reply) k) t := by
  refine ⟨trivial, fun o r t' he => ?_⟩
  cases o <;> simp only [exec, reduceCtorEq, Option.some.injEq, Prod.mk.injEq] at he
  obtain ⟨-, rfl⟩ := he
  exact hk

theorem does_getDriverInterfaceVersion {k : UInt32 → Run α}
    (hk : ∀ version, wp exec (fun _ => True) Q (k version) t) :
    wp exec (fun _ => True) Q (.call .getDriverInterfaceVersion k) t := by
  refine ⟨trivial, fun o version t' he => ?_⟩
  cases o <;> simp only [exec, reduceCtorEq, Option.some.injEq, Prod.mk.injEq] at he
  obtain ⟨-, rfl⟩ := he
  exact hk version

theorem laneHid_does {Q : WString → Tool → Prop} (hQ : ∀ id, Q id t) :
    wp exec (fun _ => True) Q (laneHid lane) t := by
  refine wp_ite (fun _ => ⟨trivial, fun o id t' he => ⟨trivial, ?_⟩⟩) fun _ => ⟨trivial, hQ []⟩
  cases o <;> simp only [exec, reduceCtorEq, Option.some.injEq, Prod.mk.injEq] at he
  obtain ⟨-, rfl⟩ := he
  exact hQ id

/-! ## The commands -/

theorem Agrees.absent (h : Agrees bank t) (hdevice : t.devices lane = false) :
    bank lane = none ∧ (t.sessions lane).device = none ∧ (t.sessions lane).file = none ∧
      (t.sessions lane).handles = 0 ∧ (t.sessions lane).blocks = 0 := by
  have hl := h.lane lane
  cases hb : bank lane with
  | none =>
    rw [hb] at hl
    exact ⟨rfl, hl.2⟩
  | some sent =>
    rw [hb] at hl
    rw [hl.2.1] at hdevice
    cases hdevice

theorem Agrees.present (h : Agrees bank t) (hdevice : t.devices lane = true) :
    ∃ sent, bank lane = some sent ∧ lane < vgunMaxLanes ∧
      (t.sessions lane).Gun (gunConfig lane) .started sent 0 ∧ (t.sessions lane).blocks = 0 := by
  have hl := h.lane lane
  cases hb : bank lane with
  | none =>
    rw [hb] at hl
    rw [hl.1] at hdevice
    cases hdevice
  | some sent =>
    rw [hb] at hl
    exact ⟨sent, rfl, hl.1, hl.2.2⟩

theorem Agrees.outside (h : Agrees bank t) (hlane : lane ≥ vgunMaxLanes) : bank lane = none := by
  have hl := h.lane lane
  cases hb : bank lane with
  | none => rfl
  | some sent =>
    rw [hb] at hl
    exact absurd hl.1 (Nat.not_lt_of_ge hlane)

theorem Agrees.change (lane : ℕ) (h : Agrees bank t) {x : Option (List (List Byte))}
    (hothers : ∀ l, l ≠ lane → t'.sessions l = t.sessions l ∧ t'.devices l = t.devices l)
    (hlane : LaneIs lane t' x) (hclosed : ∀ d ∈ (t'.sessions lane).closed, Retired d) :
    Agrees (Function.update bank lane x) t' := by
  constructor
  · intro l
    by_cases hl : l = lane
    · subst hl
      rw [Function.update_self]
      exact hlane
    · obtain ⟨hs, hd⟩ := hothers l hl
      rw [Function.update_of_ne hl]
      have hold := h.lane l
      revert hold
      unfold LaneIs
      rw [hs, hd]
      exact id
  · intro l
    by_cases hl : l = lane
    · subst hl
      exact hclosed
    · rw [(hothers l hl).1]
      exact h.closed l

theorem Agrees.keep (lane : ℕ) (h : Agrees bank t)
    (hothers : ∀ l, l ≠ lane → t'.sessions l = t.sessions l ∧ t'.devices l = t.devices l)
    (hlane : LaneIs lane t' (bank lane)) (hclosed : ∀ d ∈ (t'.sessions lane).closed, Retired d) :
    Agrees bank t' := by
  have hchange := h.change lane hothers hlane hclosed
  rwa [Function.update_eq_self] at hchange

theorem retired_of_untouched {d : Driver.World} (h : WinUHid.Untouched d) : Retired d := by
  have hnone : d.vhf.any Driver.VhfCall.createsDevice = false := by
    rw [List.any_eq_false]
    intro c hc
    rw [(h c hc).1]
    simp
  have hreports : d.acceptedReports = [] :=
    List.filterMap_eq_nil_iff.mpr fun c hc => (h c hc).2
  refine ⟨by rw [Driver.World.deviceLive, hnone]; rfl, ?_⟩
  rw [hreports]
  intro report hlast
  cases hlast

theorem Agrees.stays_absent (h : Agrees bank t) (hdevice : t.devices lane = false)
    (hs : s.device = none ∧ s.file = none ∧ s.handles = 0 ∧ s.blocks = 0) {ds : List Driver.World}
    (hclosed : s.closed = (t.sessions lane).closed ++ ds) (hds : ∀ d ∈ ds, Retired d) :
    Agrees bank (t.put lane s) := by
  refine h.keep lane (fun l hl => ⟨Tool.put_other hl, rfl⟩) ?_ ?_
  · rw [(h.absent hdevice).1, LaneIs, Tool.put_lane]
    exact ⟨hdevice, hs⟩
  · rw [Tool.put_lane, hclosed]
    intro d hd
    rcases List.mem_append.mp hd with hd | hd
    · exact h.closed lane d hd
    · exact hds d hd

theorem create_does (h : Agrees bank t) :
    wp exec (fun _ => True)
      (fun err t' => t'.printed = t.printed ∧
        Agrees (if err = 0 then Function.update bank lane (some []) else bank) t')
      (create lane) t := by
  have hfailed {err : UInt32} {t' : Tool} (herr : err ≠ 0) (hprinted : t'.printed = t.printed)
      (hagrees : Agrees bank t') :
      t'.printed = t.printed ∧ Agrees (if err = 0 then Function.update bank lane (some []) else bank) t' := by
    rw [if_neg herr]
    exact ⟨hprinted, hagrees⟩
  unfold create perform
  refine wp_ite (fun _ => ⟨trivial, hfailed (by decide) rfl h⟩) fun hlane => ?_
  rw [Prog.perform_bind]
  refine does_getDevice (wp_ite (fun _ => ⟨trivial, hfailed (by decide) rfl h⟩) fun hdevice => ?_)
  have hdevice : t.devices lane = false := (Bool.not_eq_true _).mp hdevice
  obtain ⟨hbank, hnone, hfile, hhandles, hblocks⟩ := h.absent hdevice
  rw [Prog.perform_bind]
  refine does_stack ?_
  rintro ⟨padding, byte⟩
  refine (wp_bind _ _).mpr (onLane_does (WinUHid.winUHidCreateDevice_does hnone hfile) fun b s₁ hs₁ => ?_)
  cases b with
  | false =>
    obtain ⟨hnone₁, hfile₁, hhandles₁, hblocks₁, ds, hclosed, hds⟩ : WinUHid.LeavesNothing (t.sessions lane) s₁ := hs₁
    simp only [Bool.not_false, if_true]
    refine lastErrorOr_does (by decide) fun err herr => hfailed herr rfl ?_
    exact h.stays_absent hdevice ⟨hnone₁, hfile₁, hhandles₁.trans hhandles, hblocks₁.trans hblocks⟩ hclosed
      fun d hd => retired_of_untouched (hds d hd)
  | true =>
    obtain ⟨c, dev, f, d, hc, hhas, hfresh, hopen, hmade, hblocks₁, hclosed⟩ := hs₁
    cases hc
    rw [hhandles] at hhas
    have hgun := WinUHid.gun_of_made hhas hfresh (by simp [WinUHid.throttles, gunConfig]) hopen hmade
    simp only [Bool.not_true, Bool.false_eq_true, if_false]
    refine (wp_bind _ _).mpr (onLane_does (by rw [Tool.put_lane]; exact WinUHid.winUHidStartDevice_does hgun) ?_)
    rintro b s₂ ⟨hgun₂, hblocks₂, hclosed₂⟩
    have hblocks₂ : s₂.blocks = 0 := by rw [hblocks₂, hblocks₁, hblocks]
    rw [Tool.put_put]
    cases b with
    | false =>
      simp only [Bool.not_false, if_true]
      refine (wp_bind _ _).mpr (lastErrorOr_does (by decide) fun err herr => ?_)
      refine (wp_bind _ _).mpr (onLane_does
        (by rw [Tool.put_lane]; exact hgun₂.destroy (by simp)) ?_)
      rintro _ _ ⟨d, rfl, hretired⟩
      rw [Tool.put_put]
      have hd : ∀ d' ∈ [d], Retired d' := by simpa using hretired
      refine ⟨trivial, hfailed herr rfl (h.stays_absent hdevice ⟨rfl, rfl, rfl, hblocks₂⟩ ?_ hd)⟩
      rw [WinUHid.Session.destroyed, hclosed₂, hclosed]
    | true =>
      simp only [Bool.not_true, Bool.false_eq_true, if_false, Prog.perform_bind]
      refine does_setDevice ⟨trivial, rfl, ?_⟩
      rw [if_pos rfl]
      refine h.change lane (fun l hl => ⟨Tool.put_other hl, Function.update_of_ne hl _ _⟩) ?_ ?_
      · refine ⟨Nat.lt_of_not_ge hlane, Function.update_self .., ?_⟩
        show ((t.put lane s₂).sessions lane).Gun (gunConfig lane) .started [] 0 ∧
          ((t.put lane s₂).sessions lane).blocks = 0
        rw [Tool.put_lane]
        exact ⟨by simpa using hgun₂, hblocks₂⟩
      · show ∀ d ∈ ((t.put lane s₂).sessions lane).closed, Retired d
        rw [Tool.put_lane, hclosed₂, hclosed]
        exact h.closed lane

theorem submit_does {x y buttons : Int32} (h : Agrees bank t) :
    wp exec (fun _ => True)
      (fun err t' => t'.printed = t.printed ∧
        Agrees (if err = 0 then Function.update bank lane
          ((bank lane).map (· ++ [(makeReport x y buttons).bytes])) else bank) t')
      (submit lane x y buttons) t := by
  have hfailed {err : UInt32} {t' : Tool} (herr : err ≠ 0) (hprinted : t'.printed = t.printed)
      (hagrees : Agrees bank t') :
      t'.printed = t.printed ∧ Agrees (if err = 0 then Function.update bank lane
        ((bank lane).map (· ++ [(makeReport x y buttons).bytes])) else bank) t' := by
    rw [if_neg herr]
    exact ⟨hprinted, hagrees⟩
  unfold submit perform
  refine wp_ite (fun _ => ⟨trivial, hfailed (by decide) rfl h⟩) fun hlane => ?_
  rw [Prog.perform_bind]
  refine does_getDevice (wp_ite (fun _ => ⟨trivial, hfailed (by decide) rfl h⟩) fun hdevice => ?_)
  have hdevice : t.devices lane = true := by simpa using hdevice
  obtain ⟨sent, hbank, -, hgun, hblocks⟩ := h.present hdevice
  rw [Prog.perform_bind]
  refine does_stack ?_
  rintro ⟨padding, byte⟩
  refine (wp_bind _ _).mpr (onLane_does (WinUHid.winUHidSubmitInputReport_does hgun rfl) ?_)
  rintro b s ⟨hgun', hblocks', hclosed⟩
  have hlane' {sent' : List (List Byte)} (hg : s.Gun (gunConfig lane) .started sent' 0) :
      LaneIs lane (t.put lane s) (some sent') :=
    ⟨Nat.lt_of_not_ge hlane, hdevice, by rw [Tool.put_lane]; exact ⟨hg, hblocks'.trans hblocks⟩⟩
  have hothers (l : ℕ) (hl : l ≠ lane) :
      (t.put lane s).sessions l = t.sessions l ∧ (t.put lane s).devices l = t.devices l :=
    ⟨Tool.put_other hl, rfl⟩
  have hretired : ∀ d ∈ ((t.put lane s).sessions lane).closed, Retired d := by
    rw [Tool.put_lane, hclosed]
    exact h.closed lane
  cases b with
  | false =>
    simp only [Bool.not_false, if_true]
    refine lastErrorOr_does (by decide) fun err herr => hfailed herr rfl (h.keep lane hothers ?_ hretired)
    rw [hbank]
    exact hlane' (by simpa using hgun')
  | true =>
    refine ⟨trivial, rfl, ?_⟩
    rw [if_pos rfl]
    refine h.change lane hothers ?_ hretired
    rw [hbank]
    exact hlane' (by simpa using hgun')

theorem destroy_does (h : Agrees bank t) :
    wp exec (fun _ => True)
      (fun _ t' => t'.printed = t.printed ∧ Agrees (Function.update bank lane none) t')
      (destroy lane) t := by
  have hnothing (hbank : bank lane = none) : Agrees (Function.update bank lane none) t := by
    rw [← hbank, Function.update_eq_self]
    exact h
  unfold destroy perform
  refine wp_ite (fun hlane => ⟨trivial, rfl, hnothing (h.outside hlane)⟩) fun hlane => ?_
  rw [Prog.perform_bind]
  refine does_getDevice (wp_ite (fun hdevice => ?_) fun hdevice => ?_)
  · exact ⟨trivial, rfl, hnothing (h.absent (by simpa using hdevice)).1⟩
  obtain ⟨sent, hbank, -, hgun, hblocks⟩ := @Agrees.present bank lane t h (by simpa using hdevice)
  rw [Prog.perform_bind]
  refine does_stack ?_
  rintro ⟨padding, byte⟩
  refine (wp_bind _ _).mpr (onLane_does (WinUHid.winUHidStopDevice_does hgun) ?_)
  rintro _ s₁ ⟨hgun₁, hblocks₁, hclosed₁⟩
  refine (wp_bind _ _).mpr (onLane_does (by rw [Tool.put_lane]; exact hgun₁.destroy (by simp)) ?_)
  rintro _ _ ⟨d, rfl, hretired⟩
  rw [Tool.put_put]
  refine does_setDevice ⟨trivial, rfl, ?_⟩
  refine h.change lane (fun l hl => ⟨Tool.put_other hl, Function.update_of_ne hl _ _⟩) ?_ ?_
  · refine ⟨Function.update_self .., ?_⟩
    show ((t.put lane (s₁.destroyed 0 [d])).sessions lane).device = none ∧ _
    rw [Tool.put_lane]
    exact ⟨rfl, rfl, rfl, hblocks₁.trans hblocks⟩
  · intro u hu
    have hu : u ∈ ((t.put lane (s₁.destroyed 0 [d])).sessions lane).closed := hu
    rw [Tool.put_lane, WinUHid.Session.destroyed, hclosed₁] at hu
    rcases List.mem_append.mp hu with hu | hu
    · exact h.closed lane u hu
    · rw [List.mem_singleton.mp hu]
      exact hretired

theorem destroyAll_does {lanes : List ℕ} (h : Agrees bank t) :
    wp exec (fun _ => True)
      (fun _ t' => t'.printed = t.printed ∧ Agrees (fun l => if l ∈ lanes then none else bank l) t')
      (destroyAll lanes) t := by
  induction lanes generalizing bank t with
  | nil => exact ⟨trivial, rfl, by simpa using h⟩
  | cons lane lanes ih =>
    refine (wp_bind _ _).mpr (wp_post ?_ (destroy_does h))
    rintro _ t₁ - ⟨hprinted, h₁⟩
    refine wp_post ?_ (ih h₁)
    rintro _ t₂ - ⟨hprinted₂, h₂⟩
    refine ⟨hprinted₂.trans hprinted, ?_⟩
    convert h₂ using 2 with l
    by_cases hl : l = lane
    · simp [hl]
    · simp [hl]

/-- A command prints one line, which tells what came of it. -/
theorem serve_does {command : Command} (h : Agrees bank t) :
    wp exec (fun _ => True)
      (fun _ t' => ∃ reply, t'.printed = t.printed ++ [reply] ∧ Agrees (bank.after (command, reply)) t')
      (serve command) t := by
  cases command with
  | version =>
    unfold serve perform
    rw [Prog.perform_bind]
    refine does_getDriverInterfaceVersion fun version => ?_
    exact does_printf ⟨trivial, _, rfl, h.lane, h.closed⟩
  | hid lane =>
    exact (wp_bind _ _).mpr (laneHid_does fun id => does_printf ⟨trivial, _, rfl, h.lane, h.closed⟩)
  | create lane =>
    refine (wp_bind _ _).mpr (wp_post ?_ (create_does h))
    rintro err t' - ⟨hprinted, h'⟩
    refine does_printf ⟨trivial, _, by rw [hprinted], ?_⟩
    split
    · next herr =>
      rw [if_pos herr] at h'
      exact ⟨h'.lane, h'.closed⟩
    · next herr =>
      rw [if_neg herr] at h'
      exact ⟨h'.lane, h'.closed⟩
  | state lane x y buttons =>
    refine (wp_bind _ _).mpr (wp_post ?_ (submit_does h))
    rintro err t' - ⟨hprinted, h'⟩
    refine does_printf ⟨trivial, _, by rw [hprinted], ?_⟩
    split
    · next herr =>
      rw [if_pos herr] at h'
      exact ⟨h'.lane, h'.closed⟩
    · next herr =>
      rw [if_neg herr] at h'
      exact ⟨h'.lane, h'.closed⟩
  | destroy lane =>
    refine (wp_bind _ _).mpr (wp_post ?_ (destroy_does h))
    rintro _ t' - ⟨hprinted, h'⟩
    exact does_printf ⟨trivial, .gone lane, by rw [hprinted], h'.lane, h'.closed⟩
  | quit =>
    refine (wp_bind _ _).mpr (wp_post ?_ (destroyAll_does h))
    rintro _ t' - ⟨hprinted, h'⟩
    refine does_printf ⟨trivial, .bye, by rw [hprinted], fun l => ?_, h'.closed⟩
    have hl := h'.lane l
    by_cases hlane : l < vgunMaxLanes
    · rw [if_pos (List.mem_range.mpr hlane)] at hl
      exact hl
    · rw [if_neg (by simpa using hlane), h.outside (Nat.le_of_not_lt hlane)] at hl
      exact hl
  | other => exact does_printf ⟨trivial, _, rfl, h.lane, h.closed⟩

theorem main_does {commands : List Command} (h : Agrees bank t) :
    wp exec (fun _ => True)
      (fun _ t' => ∃ replies, t'.printed = t.printed ++ replies ∧
        Agrees ((commands.zip replies).foldl Bank.after bank) t')
      (main commands) t := by
  induction commands generalizing bank t with
  | nil => exact ⟨trivial, [], by simp, h⟩
  | cons command commands ih =>
    refine (wp_bind _ _).mpr (wp_post ?_ (serve_does h))
    rintro _ t₁ - ⟨reply, hprinted, h₁⟩
    refine wp_ite (fun _ => ⟨trivial, [reply], hprinted, by simpa using h₁⟩) fun _ => ?_
    refine wp_post ?_ (ih h₁)
    rintro _ t₂ - ⟨replies, hprinted₂, h₂⟩
    refine ⟨reply :: replies, by rw [hprinted₂, hprinted, List.append_assoc]; rfl, ?_⟩
    simpa using h₂

theorem agrees_start : Agrees Bank.empty Tool.start :=
  ⟨fun _ => ⟨rfl, rfl, rfl, rfl, rfl⟩, by simp [Tool.start, Session.empty]⟩

/-- What the commands and the printed lines say of the lanes. -/
def bankOf (commands : List Command) (printed : List Reply) : Bank :=
  (commands.zip printed).foldl Bank.after Bank.empty

/-- After any commands, whatever failed on the way, the lanes are as the printed lines say: a lane has a gun
in VHF exactly if the last line about one said so, VHF has of it the reports that were said to be sent, and
of the guns before it none is left and no button is down, but where VHF refused the release. -/
theorem transcript_truthful {commands : List Command} (h : Steps exec (main commands) Tool.start (.ret ()) t) :
    Agrees (bankOf commands t.printed) t ∧ ∀ lane, (bankOf commands t.printed lane).isSome ↔
      ∃ f d, (t.sessions lane).file = some (f, d) ∧ d.deviceLive = true := by
  obtain ⟨replies, hprinted, hagrees⟩ := h.post (main_does agrees_start)
  rw [hprinted]
  refine ⟨hagrees, fun lane => ?_⟩
  have hlane := hagrees.lane lane
  change ((commands.zip replies).foldl Bank.after Bank.empty lane).isSome ↔ _
  cases hb : (commands.zip replies).foldl Bank.after Bank.empty lane with
  | none =>
    rw [hb] at hlane
    simp [hlane.2.2.1]
  | some sent =>
    rw [hb] at hlane
    obtain ⟨-, f, d, hfile, halive⟩ := hlane.2.2.1
    exact iff_of_true rfl ⟨f, d, hfile, halive.live⟩

end

/-! ## One gun -/

/-- Nothing fails. -/
def plays : ToolCall → ToolOutcome
  | .lane _ (.deviceIoControl _ _ .startDevice _) => .lane (.io 6 [.ok, Driver.fine, .ok])
  | .lane _ (.writeFile ..) => .lane (.io 7 [.ok, Driver.fine, .ok, Driver.fine, .ok, .ok])
  | .lane _ c => .lane (WinUHid.creates c)
  | .getDriverInterfaceVersion => .version 1
  | .laneHidInstanceId _ => .id []
  | .stack => .stack 0 0
  | _ => .ok

theorem transcript_truthful_pressed :
    ∃ t : Tool, t.printed = [.version 1, .ok 3, .sent 3, .hid 3 (wide "-")] ∧
      LaneIs 3 t (some [(makeReport 100 200 1).bytes]) := by
  obtain ⟨_, t, hrun, hprinted⟩ := Prog.endsWith_steps
    (show (main [.version, .create 3, .state 3 100 200 1, .hid 3]).endsWith exec plays
      (fun _ t => t.printed = [.version 1, .ok 3, .sent 3, .hid 3 (wide "-")]) .start = true by decide +kernel)
  have hprinted : t.printed = [.version 1, .ok 3, .sent 3, .hid 3 (wide "-")] := by simpa using hprinted
  have hagrees := (transcript_truthful hrun).1
  rw [hprinted] at hagrees
  exact ⟨t, hprinted, hagrees.lane 3⟩

end VirtualGun.GunCli
