import VirtualGun.Setup.Lanes
import VirtualGun.Setup.Removal

/-!
# The exit code of an install

0 and 3010 say that the install is recorded, and what the binding of the driver and the pinning of the
lanes came to.
-/

open VirtualGun.Program

namespace VirtualGun.Setup

/-! ## What a log shows -/

def Call.binds : Call → Bool
  | .updateDriverForPlugAndPlayDevices _ _ => true
  | _ => false

/-- Whether the binding of the driver asked for a reboot. -/
def binding : Call × Outcome → Option Bool
  | (.updateDriverForPlugAndPlayDevices _ _, .reboot required) => some required
  | _ => none

/-- What the last binding asked for. -/
def asked (l : Log Call Outcome) : Option Bool := l.reverse.findSome? binding

def Call.recordsVersion : Call → Bool
  | .regSetValue .version _ => true
  | _ => false

/-- The calls since `Version` was written: those of `PinLanes`. -/
def pinCalls (l : Log Call Outcome) : Log Call Outcome :=
  (l.reverse.takeWhile fun e => !e.1.recordsVersion).reverse

def Call.opensDriver : Call → Bool
  | .attempt .winUHidGetDriverInterfaceVersion => true
  | _ => false

/-- The driver was asked for its version, and could not be opened. -/
def Unopened (l : Log Call Outcome) : Prop :=
  (∃ e ∈ l, e.1.opensDriver = true) ∧ ∀ e ∈ l, e.1.opensDriver = true → e.2 = .fail

def Call.seesRoot : Call → Bool
  | .attempt .setupDiGetDeviceInstanceId => true
  | _ => false

/-- The present nodes with our hardware ID that `LiveRootInstanceId` saw: it asks each for its instance
ID. -/
def rootsSeen (l : Log Call Outcome) : ℕ := l.countP fun e => e.1.seesRoot

section
variable {l m : Log Call Outcome}

theorem asked_append (h : ∀ e ∈ m, e.1.binds = false) : asked (l ++ m) = asked l := by
  have hnone : m.reverse.findSome? binding = none := by
    rw [List.findSome?_eq_none_iff]
    rintro ⟨c, o⟩ he
    have hb := h _ (List.mem_reverse.mp he)
    cases c <;> simp only [Call.binds, reduceCtorEq] at hb <;> rfl
  unfold asked
  rw [List.reverse_append, List.findSome?_append, hnone, Option.none_or]

theorem pinCalls_append (h : ∀ e ∈ m, e.1.recordsVersion = false) :
    pinCalls (l ++ m) = pinCalls l ++ m := by
  unfold pinCalls
  rw [List.reverse_append, List.takeWhile_append_of_pos, List.reverse_append, List.reverse_reverse]
  intro e he
  rw [h e (List.mem_reverse.mp he)]
  rfl

theorem rootsSeen_append : rootsSeen (l ++ m) = rootsSeen l + rootsSeen m := List.countP_append

theorem rootsSeen_eq_zero (h : ∀ e ∈ m, e.1.seesRoot = false) : rootsSeen m = 0 := by
  apply List.countP_eq_zero.mpr
  intro e he
  rw [h e he]
  decide

end

/-! ## The pinning -/

/-- A staged package has a name. -/
def namesStaged : Call → Outcome → World → Bool
  | .setupCopyOEMInf _, .kept name, _ => !name.isEmpty
  | _, _, _ => true

/-- A lane's device comes and goes without touching another lane's key. -/
abbrev sparingLanes : Exec Call Call.Resp Outcome World := lanesExec.within namesStaged

/-- And a key that is flagged as failed shows it. -/
abbrev shownLanes : Exec Call Call.Resp Outcome World := pinningExec.within namesStaged

theorem shownLanes_pinning : shownLanes.Sub pinningExec := Exec.within_sub _ _

theorem shownLanes_exec : shownLanes.Sub exec :=
  fun _ _ _ _ h => pinningExec_sub _ _ _ _ (shownLanes_pinning _ _ _ _ h)

/-- The calls that the pinning adds to a log. -/
def Call.pinning (c : Call) : Bool := !c.binds && !c.recordsVersion

/-- One live node of ours, as far as Windows listed them. -/
structure OneRoot (l : Log Call Outcome) (w : World) : Prop where
  seen : rootsSeen l = 1
  one : (∀ e ∈ l, listsDevices e.1 e.2 = true) → (w.machine.devices.filter DevNode.live).length = 1

/-- Every lane's key is installed under the root node and holds the lane's prefix. -/
def AllPinned (w : World) : Prop :=
  ∃ rootId, w.HasRoot rootId ∧ ∀ lane < vgunMaxLanes, Pinned rootId lane w

/-- What `PinLanes` says with its result. -/
def PinsMean (w : World) (l : Log Call Outcome) (pins : PinSummary) : Prop :=
  (pins.driverUnavailable = true → Unopened l) ∧
    (pins.driverUnavailable = false → pins.failed = 0 → OneRoot l w ∧ AllPinned w)

section
variable {x : World × Log Call Outcome}

theorem logged_attempt {what : Attempt} {o : Outcome} {r : Bool} {y : World × Log Call Outcome}
    (h : shownLanes.logged (.attempt what) o x = some (r, y)) :
    (r = false → o = .fail) ∧ (r = true → o = .ok) ∧ y = (x.1, x.2 ++ [(.attempt what, o)]) := by
  obtain ⟨v, hv, rfl⟩ := Exec.logged_eq_some.mp h
  obtain ⟨rfl, rfl, rfl⟩ | ⟨rfl, rfl, rfl⟩ := tried_eq_some.mp (shownLanes_exec _ _ _ _ hv) <;> simp

/-- What the wait for the driver adds to a log. -/
def WaitLog (l : Log Call Outcome) : Prop :=
  ∀ e ∈ l, e.1.opensDriver = true ∨ e.1 = .attempt .beforeEnd

theorem WaitLog.append {l m : Log Call Outcome} (h : WaitLog l) (h' : WaitLog m) : WaitLog (l ++ m) :=
  fun e he => (List.mem_append.mp he).elim (h e) (h' e)

theorem Unopened.append {l m : Log Call Outcome} (h : Unopened l)
    (h' : ∀ e ∈ m, e.1.opensDriver = true → e.2 = .fail) : Unopened (l ++ m) := by
  refine ⟨h.1.imp fun e he => ⟨List.mem_append_left _ he.1, he.2⟩, fun e he ho => ?_⟩
  exact (List.mem_append.mp he).elim (fun he => h.2 e he ho) fun he => h' e he ho

/-- What the wait did to the log of `x`. -/
def Waited (x : World × Log Call Outcome) (opened : Bool) (y : World × Log Call Outcome) : Prop :=
  y.1 = x.1 ∧ ∃ m, y.2 = x.2 ++ m ∧ WaitLog m ∧ (opened = false → Unopened m)

theorem openDriver_log {o : Outcome} {r : Bool} {y : World × Log Call Outcome}
    (h : shownLanes.logged (.attempt .winUHidGetDriverInterfaceVersion) o x = some (r, y)) :
    Waited x r y := by
  obtain ⟨hf, -, rfl⟩ := logged_attempt h
  refine ⟨rfl, _, rfl, fun e he => .inl ?_, fun hr => ⟨⟨_, List.mem_singleton_self _, rfl⟩, ?_⟩⟩
  · rw [List.mem_singleton.mp he]
    rfl
  · intro e he _
    rw [List.mem_singleton.mp he]
    exact hf hr

theorem awaitDriver_log (polls : ℕ) (x : World × Log Call Outcome) :
    wp shownLanes.logged (fun _ => True) (Waited x)
      (waitFor (attempt .winUHidGetDriverInterfaceVersion) polls) x := by
  induction polls generalizing x with
  | zero => exact ⟨trivial, fun o r y he => ⟨trivial, openDriver_log he⟩⟩
  | succ polls ih =>
    simp only [waitFor, attempt, perform, Prog.perform_bind]
    refine ⟨trivial, fun o r y he => ?_⟩
    obtain ⟨hy, m, hm, hw, hun⟩ := openDriver_log he
    refine wp_ite (fun _ => ⟨trivial, hy, m, hm, hw, fun h => by cases h⟩) fun hr => ?_
    have hun := hun (by simpa using hr)
    refine ⟨trivial, fun o' r' z he' => ?_⟩
    obtain ⟨-, -, rfl⟩ := logged_attempt he'
    have hw' : WaitLog (m ++ [(.attempt .beforeEnd, o')]) :=
      hw.append fun e he => .inr (by rw [List.mem_singleton.mp he])
    have hun' : Unopened (m ++ [(.attempt .beforeEnd, o')]) :=
      hun.append fun e he ho => by rw [List.mem_singleton.mp he] at ho; cases ho
    refine wp_ite (fun _ => ?_) fun _ => ⟨trivial, hy, _, ?_, hw', fun _ => hun'⟩
    · refine wp_post ?_ (ih (y.1, y.2 ++ [(.attempt .beforeEnd, o')]))
      rintro opened z - ⟨hz, m', hm', hw'', hun''⟩
      refine ⟨hz.trans hy, _, ?_, hw'.append hw'', fun hf => hun'.append (hun'' hf).2⟩
      rw [hm', hm]
      simp only [List.append_assoc]
    · rw [hm, List.append_assoc]

/-! ## The root node -/

/-- What `LiveRootInstanceId` adds to a log. -/
def RootLog (l : Log Call Outcome) : Prop :=
  ∀ e ∈ l, e.1.pinning = true ∧ e.1.opensDriver = false

theorem RootLog.append {l m : Log Call Outcome} (h : RootLog l) (h' : RootLog m) : RootLog (l ++ m) :=
  fun e he => (List.mem_append.mp he).elim (h e) (h' e)

/-- What looking through `devs` did to the log of `x`, when `count` were seen before. -/
def Looked (devs : List DevNode) (count : ℕ) (x : World × Log Call Outcome) (rootId : WString)
    (y : World × Log Call Outcome) : Prop :=
  y.1 = x.1 ∧ ∃ m, y.2 = x.2 ++ m ∧ RootLog m ∧
    (rootId ≠ [] → count + rootsSeen m = 1 ∧ ((∀ e ∈ m, listsDevices e.1 e.2 = true) →
      rootsSeen m = (devs.filter fun d => sameName d.hardwareIds hardwareId).length))

theorem Looked.after {dev : DevNode} {devs : List DevNode} {count : ℕ} {m : Log Call Outcome}
    {rootId : WString} {y : World × Log Call Outcome} (hm : RootLog m)
    (hd : (∀ e ∈ m, listsDevices e.1 e.2 = true) →
      rootsSeen m = if sameName dev.hardwareIds hardwareId then 1 else 0)
    (h : Looked devs (count + rootsSeen m) (x.1, x.2 ++ m) rootId y) :
    Looked (dev :: devs) count x rootId y := by
  obtain ⟨hy, m', hm', hr, hroot⟩ := h
  refine ⟨hy, m ++ m', by rw [hm', List.append_assoc], hm.append hr, fun hne => ?_⟩
  obtain ⟨hone, hall⟩ := hroot hne
  rw [rootsSeen_append]
  refine ⟨by omega, fun hlists => ?_⟩
  have hd := hd fun e he => hlists e (List.mem_append_left _ he)
  have hall := hall fun e he => hlists e (List.mem_append_right _ he)
  rw [hd, hall, List.filter_cons]
  split <;> simp [Nat.add_comm]

theorem Looked.stop {devs : List DevNode} {found : WString} {count : ℕ} {m : Log Call Outcome}
    (hm : RootLog m) (hs : rootsSeen m = 0) (hd : (∀ e ∈ m, listsDevices e.1 e.2 = true) → devs = []) :
    Looked devs count x (if count = 1 then found else []) (x.1, x.2 ++ m) := by
  refine ⟨rfl, m, rfl, hm, fun hne => ?_⟩
  split at hne
  · next hc =>
    rw [hs, hc]
    refine ⟨rfl, fun hlists => ?_⟩
    rw [hd hlists]
    rfl
  · exact absurd rfl hne

theorem rootLog_singleton {c : Call} {o : Outcome} (h : c.pinning = true) (h' : c.opensDriver = false) :
    RootLog [(c, o)] := by
  intro e he
  rw [List.mem_singleton.mp he]
  exact ⟨h, h'⟩

theorem liveRootIn_log (devs : List DevNode) (found : WString) (count : ℕ)
    (x : World × Log Call Outcome) :
    wp shownLanes.logged (fun _ => True) (Looked devs count x) (liveRootIn found count devs) x := by
  induction devs generalizing found count x with
  | nil =>
    have h : Looked [] count x (if count = 1 then found else []) (x.1, x.2 ++ []) :=
      .stop (fun _ he => absurd he List.not_mem_nil) rfl fun _ => rfl
    rw [List.append_nil] at h
    exact ⟨trivial, h⟩
  | cons dev devs ih =>
    simp only [liveRootIn, isOurDevice, attempt, perform, Prog.perform_bind]
    refine ⟨trivial, fun o r y he => ?_⟩
    obtain ⟨hf, -, rfl⟩ := logged_attempt he
    refine wp_ite (fun _ => ?_) fun hr => ⟨trivial, ?_⟩
    rotate_left
    · refine .stop (rootLog_singleton (by rfl) (by rfl)) (by rfl) fun hlists => ?_
      have ho := hlists _ (List.mem_singleton_self _)
      rw [hf (by simpa using hr)] at ho
      cases ho
    refine ⟨trivial, fun o' r' y he => ?_⟩
    obtain ⟨hf', hok', rfl⟩ := logged_attempt he
    have hlog : ∀ {m : Log Call Outcome}, RootLog m → RootLog ((.attempt .setupDiEnumDeviceInfo, o) ::
        (.attempt .setupDiGetDeviceRegistryProperty, o') :: m) := fun hm =>
      (rootLog_singleton (by rfl) (by rfl)).append ((rootLog_singleton (by rfl) (by rfl)).append hm)
    -- A node is looked at with two calls, or with three if it is ours.
    have hother : sameName dev.hardwareIds hardwareId = false ∨ r' = false →
        wp shownLanes.logged (fun _ => True) (Looked (dev :: devs) count x) (liveRootIn found count devs)
          (x.1, x.2 ++ [(.attempt .setupDiEnumDeviceInfo, o), (.attempt .setupDiGetDeviceRegistryProperty, o')]) := by
      intro hn
      refine wp_post (fun rootId y _ hy => ?_) (ih found count _)
      refine Looked.after (hlog fun _ he => absurd he List.not_mem_nil) (fun hlists => ?_) hy
      rcases hn with hn | hn
      · rw [hn]
        rfl
      · have ho := hlists (.attempt .setupDiGetDeviceRegistryProperty, o') (by simp)
        rw [hf' hn] at ho
        cases ho
    simp only [List.append_assoc, List.singleton_append]
    cases r' with
    | false => exact hother (.inr rfl)
    | true =>
      change wp _ _ _ (if sameName dev.hardwareIds hardwareId then _ else _) _
      refine wp_ite (fun hours => ⟨trivial, fun o'' r'' y he => ?_⟩) fun hn =>
        hother (.inl (eq_false_of_ne_true hn))
      obtain ⟨-, -, rfl⟩ := logged_attempt he
      have hafter : ∀ found', wp shownLanes.logged (fun _ => True) (Looked (dev :: devs) count x)
          (liveRootIn found' (count + 1) devs) (x.1, x.2 ++ [(.attempt .setupDiEnumDeviceInfo, o),
            (.attempt .setupDiGetDeviceRegistryProperty, o'), (.attempt .setupDiGetDeviceInstanceId, o'')]) := by
        intro found'
        refine wp_post (fun rootId y _ hy => ?_) (ih found' (count + 1) _)
        refine Looked.after (hlog (rootLog_singleton (by rfl) (by rfl))) (fun _ => ?_) hy
        rw [hours]
        rfl
      simp only [List.append_assoc, List.cons_append, List.nil_append]
      exact wp_ite (fun _ => hafter _) fun _ => hafter _

theorem liveRootInstanceId_log (x : World × Log Call Outcome) :
    wp shownLanes.logged (fun _ => True) (fun rootId y => y.1 = x.1 ∧ ∃ m, y.2 = x.2 ++ m ∧ RootLog m ∧
      (rootId ≠ [] → OneRoot m y.1)) liveRootInstanceId x := by
  simp only [liveRootInstanceId, perform, Prog.perform_bind]
  refine ⟨trivial, fun o r y he => ?_⟩
  obtain ⟨v, hv, rfl⟩ := Exec.logged_eq_some.mp he
  have hlog : RootLog [(.setupDiGetClassDevs true, o)] := rootLog_singleton (by rfl) (by rfl)
  obtain ⟨⟨-, rfl⟩ | ⟨-, rfl⟩, rfl⟩ := looked_eq_some.mp (shownLanes_exec _ _ _ _ hv)
  · refine wp_post ?_ (liveRootIn_log _ [] 0 _)
    rintro rootId y - ⟨hy, m, hm, hr, hroot⟩
    refine ⟨hy, _, by rw [hm, List.append_assoc], hlog.append hr, fun hne => ?_⟩
    obtain ⟨hone, hall⟩ := hroot hne
    have hseen : rootsSeen ([(.setupDiGetClassDevs true, o)] ++ m) = rootsSeen m := by
      rw [rootsSeen_append]
      exact Nat.zero_add _
    refine ⟨by omega, fun hlists => ?_⟩
    have hall := hall fun e he => hlists e (List.mem_append_right _ he)
    have hlive : (devicesOf x.1 true).filter (fun d => sameName d.hardwareIds hardwareId) =
        x.1.machine.devices.filter DevNode.live := by
      unfold devicesOf
      rw [List.filter_filter]
      congr 1
      funext d
      simp only [DevNode.live, Bool.not_true, Bool.or_false, Bool.and_comm]
    rw [hy, ← hlive, ← hall]
    omega
  · exact ⟨trivial, rfl, _, rfl, hlog, fun h => absurd rfl h⟩

/-! ## All of `PinLanes` -/

theorem pins_pinning {c : Call} (h : c.pins = true) : c.pinning = true ∧ c.seesRoot = false := by
  cases c with
  | attempt what => cases what <;> simp [Call.pins, Attempt.pins] at h <;> exact ⟨rfl, rfl⟩
  | _ => simp [Call.pins] at h <;> exact ⟨rfl, rfl⟩

theorem waitLog_pinning {m : Log Call Outcome} (h : WaitLog m) :
    ∀ e ∈ m, e.1.pinning = true ∧ e.1.seesRoot = false := by
  rintro ⟨c, o⟩ he
  rcases h _ he with hc | hc
  · cases c with
    | attempt what => cases what <;> simp [Call.opensDriver] at hc; exact ⟨rfl, rfl⟩
    | _ => simp [Call.opensDriver] at hc
  · simp only at hc
    rw [hc]
    exact ⟨rfl, rfl⟩

theorem pinFrom_pinned {rootId : WString} {w : World} (hr : w.HasRoot rootId) :
    wp shownLanes (fun _ => True) (fun failed v => v.registry = w.registry ∧
      KeepsPinned rootId (List.range vgunMaxLanes) w v ∧
        (failed = 0 → ∀ lane < vgunMaxLanes, Pinned rootId lane v))
      (pinFrom rootId (List.range vgunMaxLanes)) w := by
  have hlanes : ∀ lane ∈ List.range vgunMaxLanes, lane < vgunMaxLanes := fun _ => List.mem_range.mp
  have hdevices : Effects (· = .devices) (pinFrom rootId (List.range vgunMaxLanes)) := by
    refine Prog.calls_mono (fun c hc e he => ?_) (fun _ _ hr => hr) (pinFrom_pins rootId _)
    rcases pins_effect hc with hn | hd
    · rw [hn] at he
      cases he
    · rw [hd] at he
      exact (Option.some.inj he).symm
  have hregistry := wp_end (wp_sub shownLanes_exec (wp_effects hdevices w))
  have hpinned : wp shownLanes (fun _ => True) (fun failed v => KeepsPinned rootId (List.range vgunMaxLanes) w v ∧
      (failed = 0 → ∀ lane < vgunMaxLanes, Pinned rootId lane v)) (pinFrom rootId (List.range vgunMaxLanes)) w := by
    rw [pinFrom_eq]
    refine wp_seq_of (fun _ _ => trivial) (pinEach_pinned shownLanes_pinning hlanes List.nodup_range hr) ?_
    rintro each v hv ⟨hfst, hp⟩
    refine ⟨trivial, hv, fun hcount lane hl => ?_⟩
    have hin : lane ∈ each.map Prod.fst := by
      rw [hfst]
      exact List.mem_range.mpr hl
    obtain ⟨e, he, rfl⟩ := List.mem_map.mp hin
    have hnone := List.countP_eq_zero.mp hcount e he
    exact hp e he (by simpa using hnone)
  refine wp_mono (fun _ _ => trivial) (fun failed v _ h => ?_) (wp_and hregistry hpinned)
  exact ⟨h.1.registry (by simp), h.2⟩

/-- `PinLanes` leaves the state key alone, and its result means what it says. -/
theorem pinLanes_log (x : World × Log Call Outcome) :
    wp shownLanes.logged (fun _ => True) (fun pins y => y.1.registry = x.1.registry ∧
      ∃ m, y.2 = x.2 ++ m ∧ (∀ e ∈ m, e.1.pinning = true) ∧ PinsMean y.1 m pins) pinLanes x := by
  refine wp_seq (awaitDriver_log 100 x) ?_
  rintro opened y - ⟨hy, m, hm, hw, hun⟩
  have hpin := waitLog_pinning hw
  refine wp_ite (fun ho => ?_) fun ho => ⟨trivial, by rw [hy], m, hm, fun e he => (hpin e he).1, ?_⟩
  rotate_left
  · exact ⟨fun _ => hun (by simpa using ho), fun h => by cases h⟩
  have hlive := wp_and (liveRootInstanceId_log y) (wp_log (liveRootInstanceId_spec shownLanes_exec))
  refine wp_seq_of (fun _ _ => trivial) hlive ?_
  rintro rootId z - ⟨⟨hz, m₁, hm₁, hroot, hone⟩, hhas, -⟩
  rw [← hz] at hhas
  refine wp_ite (fun _ => ⟨trivial, by rw [hz, hy], m ++ m₁, ?_, ?_, ?_⟩) fun hne => ?_
  · rw [hm₁, hm, List.append_assoc]
  · exact fun e he => (List.mem_append.mp he).elim (fun he => (hpin e he).1) fun he => (hroot e he).1
  · exact ⟨fun h => (by cases h), fun _ h => (by cases h)⟩
  have hhas := hhas.resolve_left hne
  have hpins := pinFrom_pinned hhas
  refine wp_seq (wp_log_calls (pinFrom_pins rootId _) hpins) ?_
  rintro failed v - ⟨⟨hreg, hkeeps, hall⟩, m₂, hm₂, hcalls⟩
  refine ⟨trivial, by rw [hreg, hz, hy], m ++ m₁ ++ m₂, ?_, ?_, ?_⟩
  · rw [hm₂, hm₁, hm]
    simp only [List.append_assoc]
  · intro e he
    rcases List.mem_append.mp he with he | he
    · exact (List.mem_append.mp he).elim (fun he => (hpin e he).1) fun he => (hroot e he).1
    · exact (pins_pinning (hcalls e he)).1
  · refine ⟨fun h => (by cases h), fun _ hf => ⟨?_, rootId, hkeeps.root, hall hf⟩⟩
    have hone := hone hne
    have h₀ := rootsSeen_eq_zero fun e he => (hpin e he).2
    have h₂ := rootsSeen_eq_zero fun e he => (pins_pinning (hcalls e he)).2
    constructor
    · rw [rootsSeen_append, rootsSeen_append, h₀, h₂, hone.seen]
    · intro hlists
      rw [hkeeps.live]
      exact hone.one fun e he => hlists e (List.mem_append_left _ (List.mem_append_right _ he))

end

/-! ## What an exit code says -/

structure ExitCode (version : WString) (w : World) (l : Log Call Outcome) (code : ℕ) : Prop where
  known : code = 0 ∨ code = 1 ∨ code = 3010
  installed : code = 0 → w.value .version = cStr version ∧ w.value .certThumbprint ≠ [] ∧
    w.value .driverInf ≠ [] ∧ asked l = some false ∧ OneRoot (pinCalls l) w ∧ AllPinned w
  reboot : code = 3010 → asked l = some true ∧ (Unopened (pinCalls l) ∨ AllPinned w)

/-- A certificate and a package are recorded, and the driver is bound. -/
structure Bound (reboot : Bool) (x : World × Log Call Outcome) : Prop where
  cert : x.1.value .certThumbprint ≠ []
  inf : x.1.value .driverInf ≠ []
  binding : asked x.2 = some reboot

/-- The certificate and the package that are recorded stay. -/
def KeepsPair (w w' : World) : Prop :=
  w'.value .certThumbprint = w.value .certThumbprint ∧ w'.value .driverInf = w.value .driverInf

section
variable {x y : World × Log Call Outcome} {version : WString} {reboot : Bool} {u v w : World}

theorem exitCode_one (version : WString) (w : World) (l : Log Call Outcome) : ExitCode version w l 1 :=
  ⟨.inr (.inl rfl), fun h => (by cases h), fun h => (by cases h)⟩

theorem KeepsPair.trans (h : KeepsPair u v) (h' : KeepsPair v w) : KeepsPair u w :=
  ⟨h'.1.trans h.1, h'.2.trans h.2⟩

theorem Bound.keep (h : Bound reboot x) (hk : KeepsPair x.1 y.1) (ha : asked y.2 = asked x.2) :
    Bound reboot y where
  cert := by rw [hk.1]; exact h.cert
  inf := by rw [hk.2]; exact h.inf
  binding := ha.trans h.binding

/-- A flow that gives up returns 1. -/
def GivesUp (p : Flow ℕ) : Prop := ∀ can, p.Ends (· = 1) can

theorem GivesUp.exit {p : Flow ℕ} (h : GivesUp p) (x : World × Log Call Outcome) :
    wp shownLanes.logged (fun _ => True) (fun code y => ExitCode version y.1 y.2 code) p x :=
  wp_post (fun _ _ _ hc => (by rw [hc]; exact exitCode_one _ _ _)) (wp_ends (h _) x)

theorem failInstall_givesUp : GivesUp failInstall :=
  fun _ => Prog.ends_bind (Prog.ends_true _) fun _ _ => rfl

theorem failUpdate_givesUp (old : InstallState) (cert inf : WString) : GivesUp (failUpdate old cert inf) :=
  fun _ => Prog.ends_bind (Prog.ends_true _) fun _ _ => Prog.ends_bind (Prog.ends_true _) fun _ _ =>
    Prog.ends_bind (Prog.ends_true _) fun _ _ => Prog.ends_bind (Prog.ends_true _) fun _ _ => rfl

theorem finishWithPins_exit (h : Bound reboot x) (hv : x.1.value .version = cStr version)
    (hl : pinCalls x.2 = []) :
    wp shownLanes.logged (fun _ => True) (fun code y => ExitCode version y.1 y.2 code)
      (finishWithPins (if reboot then 3010 else 0)) x := by
  refine wp_seq (pinLanes_log x) ?_
  rintro pins y - ⟨hreg, m, hm, hcalls, hun, hall⟩
  have hvalue : y.1.value = x.1.value := by
    unfold World.value
    rw [hreg]
  have hb : Bound reboot y := h.keep ⟨by rw [hvalue], by rw [hvalue]⟩ (by
    rw [hm]
    exact asked_append fun e he => by simpa [Call.pinning] using (Bool.and_eq_true_iff.mp (hcalls e he)).1)
  have hpin : pinCalls y.2 = m := by
    rw [hm, pinCalls_append, hl, List.nil_append]
    exact fun e he => by simpa [Call.pinning] using (Bool.and_eq_true_iff.mp (hcalls e he)).2
  refine ⟨trivial, ?_⟩
  rw [← hpin] at hun hall
  unfold pinExitCode
  by_cases hd : pins.driverUnavailable = true
  · rw [if_pos hd]
    cases reboot with
    | false => exact exitCode_one _ _ _
    | true => exact ⟨.inr (.inr rfl), fun h => (by cases h), fun _ => ⟨hb.binding, .inl (hun hd)⟩⟩
  rw [if_neg hd]
  by_cases hf : 0 < pins.failed
  · rw [if_pos hf]
    exact exitCode_one _ _ _
  rw [if_neg hf]
  obtain ⟨hone, hpinned⟩ := hall (eq_false_of_ne_true hd) (by omega)
  cases reboot with
  | false =>
    refine ⟨.inl rfl, fun _ => ⟨?_, hb.cert, hb.inf, hb.binding, hone, hpinned⟩, fun h => (by cases h)⟩
    rw [hvalue, hv]
  | true => exact ⟨.inr (.inr rfl), fun h => (by cases h), fun _ => ⟨hb.binding, .inr hpinned⟩⟩

theorem finish_exit {p : Flow ℕ} (hp : GivesUp p) (h : Bound reboot x) :
    wp shownLanes.logged (fun _ => True) (fun code y => ExitCode version y.1 y.2 code)
      (writeValue .version version >>= fun ok =>
        if ok then finishWithPins (if reboot then 3010 else 0) else p) x := by
  simp only [writeValue, perform, Prog.perform_bind, Prog.call_bind]
  refine ⟨trivial, fun o r y he => ?_⟩
  obtain ⟨u, hu, rfl⟩ := Exec.logged_eq_some.mp he
  cases r with
  | false => exact hp.exit _
  | true =>
    obtain ⟨-, -, rfl⟩ | ⟨-, hf, -⟩ := tried_eq_some.mp (shownLanes_exec _ _ _ _ hu)
    rotate_left
    · cases hf
    refine ⟨trivial, fun o' r z he => ?_⟩
    obtain ⟨v, hv, rfl⟩ := Exec.logged_eq_some.mp he
    cases r with
    | false => exact hp.exit _
    | true =>
      obtain ⟨-, -, rfl⟩ | ⟨-, hf, -⟩ := tried_eq_some.mp (shownLanes_exec _ _ _ _ hv)
      rotate_left
      · cases hf
      have hs := setValue_sets x.1 .version version
      refine finishWithPins_exit (h.keep ⟨?_, ?_⟩ ?_) ?_ ?_
      · exact hs.value .certThumbprint
      · exact hs.value .driverInf
      · rw [List.append_assoc]
        exact asked_append fun e he => by
          rcases List.mem_cons.mp he with rfl | he
          · rfl
          · rw [List.mem_singleton.mp he]
            rfl
      · exact hs.value .version
      · simp only [pinCalls, List.reverse_append, List.reverse_singleton, List.singleton_append]
        rfl

/-! ## The flows -/

/-- What happens besides the binding of the driver: the recorded pair stays. -/
def Unbound (x y : World × Log Call Outcome) : Prop :=
  KeepsPair x.1 y.1 ∧ asked y.2 = asked x.2

theorem Unbound.refl (x : World × Log Call Outcome) : Unbound x x := ⟨⟨rfl, rfl⟩, rfl⟩

theorem Unbound.trans {z : World × Log Call Outcome} (h : Unbound x y) (h' : Unbound y z) : Unbound x z :=
  ⟨h.1.trans h'.1, h'.2.trans h.2⟩

theorem Bound.unbound (h : Bound reboot x) (hu : Unbound x y) : Bound reboot y := h.keep hu.1 hu.2

section
variable {α : Type} {p : Flow α}

theorem binds_effect {c : Call} (h : ∀ e, c.effect = some e → e ≠ .devices) : c.binds = false := by
  cases c with
  | updateDriverForPlugAndPlayDevices _ _ => exact absurd rfl (h _ rfl)
  | _ => rfl

/-- Only the binding of the driver is asked for a reboot. -/
theorem wp_unbound {Q : α → World → Prop} (hp : Effects (· ≠ .devices) p)
    (h : wp shownLanes (fun _ => True) Q p x.1) :
    wp shownLanes.logged (fun _ => True) (fun a y => Q a y.1 ∧ asked y.2 = asked x.2) p x := by
  have hcalls : p.Calls (fun c => c.binds = false) fun _ _ => True :=
    Prog.calls_mono (fun c hc => binds_effect hc) (fun _ _ hr => hr) hp
  refine wp_post (fun a y _ hy => ?_) (wp_log_calls hcalls h)
  obtain ⟨hq, m, hm, hb⟩ := hy
  exact ⟨hq, by rw [hm, asked_append hb]⟩

theorem quiet_unbound (hp : Effects (fun e => e ≠ .registry ∧ e ≠ .devices) p)
    (x : World × Log Call Outcome) :
    wp shownLanes.logged (fun _ => True) (fun _ y => Unbound x y) p x := by
  have hb : Effects (· ≠ .devices) p :=
    Prog.calls_mono (fun c hc e he => (hc e he).2) (fun _ _ hr => hr) hp
  refine wp_unbound hb ?_
  refine wp_mono (fun _ _ => trivial) (fun _ v _ hv => ?_) (wp_sub shownLanes_exec (wp_effects hp x.1))
  exact ⟨hv.value (by decide) _, hv.value (by decide) _⟩

theorem writeValue_unbound {name : ValueName} (hc : name ≠ .certThumbprint) (hi : name ≠ .driverInf)
    (value : WString) (x : World × Log Call Outcome) :
    wp shownLanes.logged (fun _ => True) (fun _ y => Unbound x y) (writeValue name value) x := by
  refine wp_unbound (writeValue_effects (by decide) _ _) ?_
  refine wp_mono (fun _ _ => trivial) (fun ok v _ hv => ?_) (writeValue_spec shownLanes_exec name value)
  unfold KeepsPair
  rw [hv.value, hv.value]
  cases ok with
  | false => exact ⟨rfl, rfl⟩
  | true => exact ⟨Function.update_of_ne hc.symm _ _, Function.update_of_ne hi.symm _ _⟩

theorem deleteValue_unbound {name : ValueName} (hc : name ≠ .certThumbprint) (hi : name ≠ .driverInf)
    (x : World × Log Call Outcome) :
    wp shownLanes.logged (fun _ => True) (fun _ y => Unbound x y) (deleteValue name) x := by
  refine wp_unbound (deleteValue_effects (by decide) _) ?_
  refine wp_mono (fun _ _ => trivial) (fun _ v _ hv => ?_) (deleteValue_spec shownLanes_exec name)
  rcases hv with hv | hv
  · exact ⟨hv.value _, hv.value _⟩
  · unfold KeepsPair
    rw [hv.value, hv.value]
    exact ⟨Function.update_of_ne hc.symm _ _, Function.update_of_ne hi.symm _ _⟩

theorem retirePrevious_unbound (s : InstallState) (x : World × Log Call Outcome) :
    wp shownLanes.logged (fun _ => True) (fun _ y => Unbound x y) (retirePrevious s) x := by
  refine wp_seq (Q := fun _ y => Unbound x y) (wp_ite (fun _ => ?_) fun _ => ⟨trivial, .refl x⟩)
    fun _ y _ hy => ?_
  · refine wp_seq (quiet_unbound (removeTrustedCertificate_effects (by decide) _) x) fun _ y _ hy => ?_
    exact wp_post (fun _ _ _ hz => hy.trans hz) (deleteValue_unbound (by decide) (by decide) y)
  · refine wp_ite (fun _ => ?_) fun _ => ⟨trivial, hy⟩
    refine wp_seq (quiet_unbound (unstagePackage_effects (by decide) _) y) fun gone z _ hz =>
      wp_ite (fun _ => ?_) fun _ => ⟨trivial, hy.trans hz⟩
    exact wp_post (fun _ _ _ hv => (hy.trans hz).trans hv) (deleteValue_unbound (by decide) (by decide) z)

end

theorem keepPackage_exit (cert : SigningCert) (h : Bound reboot x) :
    wp shownLanes.logged (fun _ => True) (fun code y => ExitCode version y.1 y.2 code)
      (keepPackage cert version reboot) x := by
  refine wp_seq (quiet_unbound (removeTrustedCertificate_effects (by decide) _) x) fun _ y _ hy => ?_
  refine wp_seq (deleteValue_unbound (by decide) (by decide) y) fun _ z _ hz => ?_
  refine wp_seq (deleteValue_unbound (by decide) (by decide) z) fun _ v _ hv => ?_
  exact finish_exit (fun _ => rfl) (h.unbound (hy.trans (hz.trans hv)))

theorem promoteValues_pair (old : InstallState) (cert : SigningCert) (published : WString) (w : World) :
    wp shownLanes (fun _ => True) (fun ok v => ok = true →
        v.value .certThumbprint = cStr cert.thumbprint ∧ v.value .driverInf = cStr published)
      (promoteValues old cert published) w := by
  refine wp_seq (wp_end (writeValue_spec shownLanes_exec _ _)) fun ok u _ _ => ?_
  refine wp_ite (fun _ => ?_) fun _ => ⟨trivial, fun h => (by cases h)⟩
  refine wp_seq (wp_end (writeValue_spec shownLanes_exec _ _)) fun ok u _ _ => ?_
  refine wp_ite (fun _ => ?_) fun _ => ⟨trivial, fun h => (by cases h)⟩
  refine wp_seq (wp_end (writeValue_spec shownLanes_exec _ _)) fun ok u _ hu => ?_
  refine wp_ite (fun ho => ?_) fun _ => ⟨trivial, fun h => (by cases h)⟩
  refine wp_post (fun ok v _ hv hok => ?_) (wp_end (writeValue_spec shownLanes_exec _ _))
  rw [if_pos ho] at hu
  rw [if_pos hok] at hv
  refine ⟨?_, (hv.value _).trans (Function.update_self ..)⟩
  rw [hv.value, Function.update_of_ne (by decide), hu.value, Function.update_self]

theorem promote_exit (old : InstallState) {cert : SigningCert} {published : WString}
    (ht : cStr cert.thumbprint ≠ []) (hp : cStr published ≠ []) (h : asked x.2 = some reboot) :
    wp shownLanes.logged (fun _ => True) (fun code y => ExitCode version y.1 y.2 code)
      (promote old cert published version reboot) x := by
  have heff : Effects (· ≠ .devices) (promoteValues old cert published) := promoteValues_effects (by decide) _ _ _
  refine wp_seq (wp_unbound heff (promoteValues_pair old cert published x.1)) ?_
  rintro ok y - ⟨hpair, hy⟩
  refine wp_ite (fun ho => ?_) fun _ => ⟨trivial, exitCode_one _ _ _⟩
  obtain ⟨hc, hi⟩ := hpair ho
  have hb : Bound reboot y := ⟨by rw [hc]; exact ht, by rw [hi]; exact hp, hy.trans h⟩
  refine wp_seq (deleteValue_unbound (by decide) (by decide) y) fun _ z _ hz => ?_
  refine wp_seq (deleteValue_unbound (by decide) (by decide) z) fun _ v _ hv => ?_
  refine wp_seq (quiet_unbound readState_effects v) fun promoted u _ hu => ?_
  have hb := hb.unbound (hz.trans (hv.trans hu))
  refine wp_seq (Q := fun _ y => Unbound u y) ?_ fun _ t _ ht => finish_exit (fun _ => rfl) (hb.unbound ht)
  cases promoted with
  | none => exact ⟨trivial, .refl u⟩
  | some promoted => exact retirePrevious_unbound promoted u

theorem stagePackage_named (inf : WString) (x : World × Log Call Outcome) :
    wp shownLanes.logged (fun _ => True) (fun published y => KeepsPair x.1 y.1 ∧
      ∀ name, published = some name → cStr name ≠ []) (stagePackage inf) x := by
  refine ⟨trivial, fun o r y he => ?_⟩
  obtain ⟨v, hv, rfl⟩ := Exec.logged_eq_some.mp he
  obtain ⟨hn, hv⟩ := Exec.within_eq_some.mp hv
  rcases copyOEMInf_eq_some.mp (pinningExec_sub _ _ _ _ hv) with
    ⟨-, rfl, rfl⟩ | ⟨f, name, rfl, -, -, hfresh, rfl, rfl⟩ | ⟨f, name, p, rfl, -, -, -, hnul, rfl, rfl⟩
  · exact ⟨trivial, ⟨rfl, rfl⟩, fun _ h => (by cases h)⟩
  · refine ⟨trivial, ⟨rfl, rfl⟩, ?_⟩
    rintro _ ⟨⟩
    rw [cStr_of_no_nul hfresh.2.1]
    exact hfresh.1
  · refine ⟨trivial, ⟨rfl, rfl⟩, ?_⟩
    rintro _ ⟨⟩
    rw [cStr_of_no_nul hnul]
    simpa [namesStaged] using hn

theorem updateDriver_asked {inf : WString} {o : Outcome} {r : Option Bool}
    (he : shownLanes.logged (.updateDriverForPlugAndPlayDevices hardwareId inf) o x = some (r, y)) :
    KeepsPair x.1 y.1 ∧ ∀ reboot, r = some reboot → asked y.2 = some reboot := by
  obtain ⟨v, hv, rfl⟩ := Exec.logged_eq_some.mp he
  have hv := shownLanes_exec _ _ _ _ hv
  have hf : Frame (some Effect.devices = some ·) x.1 v := exec_frame hv
  refine ⟨⟨hf.value (by decide) _, hf.value (by decide) _⟩, ?_⟩
  rintro reboot rfl
  have ho : o = .reboot reboot := by
    simp only [exec] at hv
    split at hv <;> cases hv
    rfl
  unfold asked
  rw [ho, List.reverse_append]
  rfl

theorem failUpdate_exit (old : InstallState) (cert inf : WString) (x : World × Log Call Outcome) :
    wp shownLanes.logged (fun _ => True) (fun code y => ExitCode version y.1 y.2 code)
      (failUpdate old cert inf) x :=
  (failUpdate_givesUp old cert inf).exit x

theorem swapPackage_exit (old : InstallState) {cert : SigningCert} (driverDir : WString)
    (ht : cStr cert.thumbprint ≠ []) (hc : x.1.value .certThumbprint ≠ [])
    (hi : x.1.value .driverInf ≠ []) :
    wp shownLanes.logged (fun _ => True) (fun code y => ExitCode version y.1 y.2 code)
      (swapPackage old cert driverDir version) x := by
  refine wp_seq (stagePackage_named _ x) ?_
  rintro published y - ⟨hy, hname⟩
  cases published with
  | none => exact failUpdate_exit old _ _ y
  | some published =>
    refine wp_seq (writeValue_unbound (by decide) (by decide) _ y) fun ok z _ hz => ?_
    refine wp_ite (fun _ => ?_) fun _ => failUpdate_exit old _ _ z
    refine ⟨trivial, fun o reboot v he => ?_⟩
    obtain ⟨hv, hasked⟩ := updateDriver_asked he
    cases reboot with
    | none => exact failUpdate_exit old _ _ v
    | some reboot =>
      have hpair : KeepsPair x.1 v.1 := hy.trans (hz.1.trans hv)
      refine wp_ite (fun _ => ?_) fun _ => promote_exit old ht (hname published rfl) (hasked reboot rfl)
      refine keepPackage_exit cert ⟨?_, ?_, hasked reboot rfl⟩
      · rw [hpair.1]
        exact hc
      · rw [hpair.2]
        exact hi

theorem signDriver_named (driverDir : WString) (x : World × Log Call Outcome) :
    wp shownLanes.logged (fun _ => True) (fun r y => KeepsPair x.1 y.1 ∧
      ∀ cert, r = some cert → cStr cert.thumbprint ≠ []) (signDriver driverDir) x := by
  have heff := quiet_unbound (signDriver_effects (by decide) (by decide) driverDir) x
  have hends : (signDriver driverDir).Ends (Generated fun _ => True) shownLanes.logged.Answers :=
    signDriver_ends (fun _ _ _ => trivial) driverDir
  refine wp_post (fun r y _ hy => ⟨hy.1.1, ?_⟩)
    (wp_mono (fun _ _ => trivial) (fun _ _ _ h => h) (wp_and heff (wp_ends hends x)))
  rintro cert rfl
  obtain ⟨c, -, ht, -⟩ := hy.2 cert rfl
  have ht : cert.thumbprint = thumbprintOf c := ht
  rw [ht, cStr_thumbprintOf]
  exact (thumbprintOf_ne_nil c).symm

theorem runUpdate_exit (old : InstallState) (payloadDir : WString) (hc : x.1.value .certThumbprint ≠ [])
    (hi : x.1.value .driverInf ≠ []) :
    wp shownLanes.logged (fun _ => True) (fun code y => ExitCode version y.1 y.2 code)
      (runUpdate old payloadDir version) x := by
  refine wp_seq (quiet_unbound (copyPayload_effects (by decide) _ _) x) fun ok y _ hy => ?_
  refine wp_ite (fun _ => ?_) fun _ => failUpdate_exit old _ _ y
  refine wp_seq (signDriver_named _ y) ?_
  rintro r z - ⟨hz, ht⟩
  cases r with
  | none => exact failUpdate_exit old _ _ z
  | some cert =>
    refine wp_seq (writeValue_unbound (by decide) (by decide) _ z) fun ok v _ hv => ?_
    refine wp_ite (fun _ => ?_) fun _ => failUpdate_exit old _ _ v
    refine wp_seq (quiet_unbound (trustIn_effects (by decide) _ _) v) fun ok u _ hu => ?_
    have hpair : KeepsPair x.1 u.1 := hy.1.trans (hz.trans (hv.1.trans hu.1))
    refine wp_ite (fun _ => swapPackage_exit old _ (ht cert rfl) ?_ ?_) fun _ => failUpdate_exit old _ _ u
    · rw [hpair.1]
      exact hc
    · rw [hpair.2]
      exact hi

/-! ## A fresh install -/

theorem failInstall_exit (x : World × Log Call Outcome) :
    wp shownLanes.logged (fun _ => True) (fun code y => ExitCode version y.1 y.2 code) failInstall x :=
  failInstall_givesUp.exit x

theorem keepsPair_run {α : Type} {p : Flow α} (hp : Effects (· ≠ .registry) p) (x : World × Log Call Outcome) :
    wp shownLanes.logged (fun _ => True) (fun _ y => KeepsPair x.1 y.1) p x := by
  refine wp_post (fun _ _ _ hy => hy.1) (wp_log (wp_mono (fun _ _ => trivial) (fun _ v hv _ => ?_)
    (wp_sub shownLanes_exec (wp_effects hp x.1))))
  exact ⟨hv.value (by decide) _, hv.value (by decide) _⟩

theorem dropPackage_asked (published : WString) (x : World × Log Call Outcome) :
    wp shownLanes.logged (fun _ => True) (fun r y => KeepsPair x.1 y.1 ∧ ∀ published' reboot,
      r = some (published', reboot) → published' = published ∧ asked y.2 = some reboot)
      (dropPackage published) x :=
  wp_seq (keepsPair_run (unstagePackage_effects (by decide) published) x) fun _ _ _ hy =>
    ⟨trivial, hy, fun _ _ h => (by cases h)⟩

theorem installPackage_asked (inf published : WString) (x : World × Log Call Outcome) :
    wp shownLanes.logged (fun _ => True) (fun r y => KeepsPair x.1 y.1 ∧ ∀ published' reboot,
      r = some (published', reboot) → published' = published ∧ asked y.2 = some reboot)
      (installPackage inf published) x := by
  have hdrop : ∀ {y}, KeepsPair x.1 y.1 → wp shownLanes.logged (fun _ => True)
      (fun r z => KeepsPair x.1 z.1 ∧ ∀ published' reboot, r = some (published', reboot) →
        published' = published ∧ asked z.2 = some reboot) (dropPackage published) y :=
    fun hy => wp_post (fun _ _ _ hz => ⟨hy.trans hz.1, hz.2⟩) (dropPackage_asked published _)
  simp only [installPackage, attempt, perform, Prog.perform_bind]
  refine ⟨trivial, fun o r y he => ?_⟩
  obtain ⟨-, -, rfl⟩ := logged_attempt he
  refine wp_ite (fun _ => ⟨trivial, fun o r y he => ?_⟩) fun _ => hdrop ⟨rfl, rfl⟩
  obtain ⟨-, -, rfl⟩ := logged_attempt he
  refine wp_ite (fun _ => ?_) fun _ => hdrop ⟨rfl, rfl⟩
  refine wp_seq (keepsPair_run (registerDevice_effects (by decide)) _) fun instanceId z _ hz => ?_
  cases instanceId with
  | none => exact hdrop hz
  | some instanceId =>
    refine ⟨trivial, fun o reboot v he => ?_⟩
    obtain ⟨hv, hasked⟩ := updateDriver_asked he
    cases reboot with
    | none =>
      have hremove : Effects (· ≠ .registry) (Prog.perform (.setupDiRemoveDevice instanceId)) := by
        simp [Prog.perform, Call.effect]
      exact wp_seq (keepsPair_run hremove v) fun _ u _ hu => hdrop (hz.trans (hv.trans hu))
    | some reboot =>
      have hinf : Effects (fun e => e ≠ .registry ∧ e ≠ .devices) (Prog.perform .setupDiGetDriverInfPath) := by
        simp [Prog.perform, Call.effect]
      refine wp_seq (quiet_unbound hinf v) fun _ u _ hu => ⟨trivial, hz.trans (hv.trans hu.1), ?_⟩
      rintro published' reboot' ⟨⟩
      exact ⟨rfl, hu.2.trans (hasked reboot rfl)⟩

theorem installDriver_named (inf : WString) (x : World × Log Call Outcome) :
    wp shownLanes.logged (fun _ => True) (fun r y => KeepsPair x.1 y.1 ∧ ∀ published reboot,
      r = some (published, reboot) → cStr published ≠ [] ∧ asked y.2 = some reboot) (installDriver inf) x := by
  refine wp_seq (keepsPair_run (removeDevices_effects (by decide)) x) fun _ y _ hy => ?_
  refine wp_seq (stagePackage_named inf y) ?_
  rintro r z - ⟨hz, hname⟩
  cases r with
  | none => exact ⟨trivial, hy.trans hz, fun _ _ h => (by cases h)⟩
  | some published =>
    refine wp_post (fun r v _ hv => ⟨(hy.trans hz).trans hv.1, ?_⟩) (installPackage_asked inf published z)
    rintro published' reboot hr
    obtain ⟨rfl, hasked⟩ := hv.2 published' reboot hr
    exact ⟨hname published' rfl, hasked⟩

theorem installNode_exit (driverDir : WString) (hc : x.1.value .certThumbprint ≠ []) :
    wp shownLanes.logged (fun _ => True) (fun code y => ExitCode version y.1 y.2 code)
      (installNode driverDir version) x := by
  refine wp_seq (installDriver_named _ x) ?_
  rintro r y - ⟨hy, hr⟩
  cases r with
  | none => exact failInstall_exit y
  | some s =>
    obtain ⟨published, reboot⟩ := s
    obtain ⟨hname, hasked⟩ := hr published reboot rfl
    refine wp_seq (wp_unbound (writeValue_effects (by decide) _ _)
      (wp_end (writeValue_spec shownLanes_exec _ _))) ?_
    rintro ok z - ⟨hz, hl⟩
    refine wp_ite (fun ho => ?_) fun _ => ?_
    · rw [if_pos ho] at hz
      refine finish_exit failInstall_givesUp ⟨?_, ?_, hl.trans hasked⟩
      · rw [hz.value, Function.update_of_ne (by decide), hy.1]
        exact hc
      · rw [hz.value, Function.update_self]
        exact hname
    · exact wp_seq (wp_true _ z) fun _ v _ _ => failInstall_exit v

theorem installFresh_exit (payloadDir dir : WString) (x : World × Log Call Outcome) :
    wp shownLanes.logged (fun _ => True) (fun code y => ExitCode version y.1 y.2 code)
      (installFresh payloadDir dir version) x := by
  refine wp_seq (wp_true _ x) fun ok y _ _ => wp_ite (fun _ => ?_) fun _ => failInstall_exit y
  refine wp_seq (wp_true _ y) fun ok z _ _ => wp_ite (fun _ => ?_) fun _ => failInstall_exit z
  refine wp_seq (signDriver_named _ z) ?_
  rintro r v - ⟨-, ht⟩
  cases r with
  | none => exact failInstall_exit v
  | some cert =>
    refine wp_seq (wp_unbound (writeValue_effects (by decide) _ _)
      (wp_end (writeValue_spec shownLanes_exec _ _))) ?_
    rintro ok u - ⟨hu, -⟩
    refine wp_ite (fun ho => ?_) fun _ => failInstall_exit u
    rw [if_pos ho] at hu
    refine wp_seq (quiet_unbound (trustIn_effects (by decide) _ _) u) fun ok t _ htrust => ?_
    refine wp_ite (fun _ => installNode_exit _ ?_) fun _ => failInstall_exit t
    rw [htrust.1.1, hu.value, Function.update_self]
    exact ht cert rfl

/-! ## `RunInstall` -/

theorem readState_log (x : World × Log Call Outcome) :
    wp shownLanes.logged (fun _ => True) (fun state y => ∀ s, state = some s → Recalls y.1 s) readState x := by
  have h : wp shownLanes (fun _ => True) (fun state y => ∀ s, state = some s → Recalls y s) readState x.1 := by
    refine wp_mono (fun _ _ => trivial) ?_ (readState_recalls (readsFrom_eq shownLanes_exec x.1) rfl)
    rintro state y rfl hs
    exact hs
  exact wp_post (fun _ _ _ hy => hy.1) (wp_log h)

theorem retireFirst_log (x : World × Log Call Outcome) :
    wp shownLanes.logged (fun _ => True) (fun state y => ∀ s, state = some s → Recalls y.1 s) retireFirst x := by
  refine wp_seq (readState_log x) fun state y _ hy => ?_
  cases state with
  | none => exact ⟨trivial, fun _ h => (by cases h)⟩
  | some s =>
    refine wp_ite (fun _ => ?_) fun _ => ⟨trivial, hy⟩
    exact wp_seq (wp_true _ y) fun _ z _ _ => readState_log z

theorem installMode_log (state : Option InstallState) (dir : WString) (x : World × Log Call Outcome) :
    wp shownLanes.logged (fun _ => True) (fun mode y => KeepsPair x.1 y.1 ∧ Chosen state dir mode)
      (installMode state dir) x := by
  have h : wp shownLanes (fun _ => True) (fun mode v => KeepsPair x.1 v ∧ Chosen state dir mode)
      (installMode state dir) x.1 := by
    refine wp_mono (fun _ _ => trivial) (fun _ v _ hv => ?_)
      (wp_sub shownLanes_exec (installMode_spec state dir x.1))
    exact ⟨⟨hv.1.value id _, hv.1.value id _⟩, hv.2⟩
  exact wp_post (fun _ _ _ hy => hy.1) (wp_log h)

theorem runInstall_exit (payloadDir : WString) (x : World × Log Call Outcome) :
    wp shownLanes.logged (fun _ => True) (fun code y => ExitCode version y.1 y.2 code)
      (runInstall payloadDir version) x := by
  refine wp_seq (retireFirst_log x) fun state y _ hstate => ?_
  refine wp_seq (keepsPair_run (defaultInstallDir_effects) y) fun dir z _ hz => ?_
  refine wp_seq (installMode_log state dir z) ?_
  rintro mode v - ⟨hv, hmode⟩
  split
  · next old =>
    obtain ⟨-, hcert, hinf⟩ := old.complete_iff.mp hmode.updated.1
    have hrecalls := hstate old rfl
    have hpair : KeepsPair y.1 v.1 := hz.trans hv
    refine runUpdate_exit old payloadDir ?_ ?_
    · rw [hpair.1, ← hrecalls.value .certThumbprint hcert]
      exact hcert
    · rw [hpair.2, ← hrecalls.value .driverInf hinf]
      exact hinf
  · exact wp_seq (wp_true _ v) fun _ u _ _ => installFresh_exit payloadDir dir u
  · exact installFresh_exit payloadDir dir v

end

section
variable {payloadDir version : WString} {w w' : World} {l : Log Call Outcome} {code : ℕ}

/-- Where no failed lane key can pass for an installed one, the exit code never hides a failure. -/
theorem install_exit_code
    (hs : Steps shownLanes.logged (runInstall payloadDir version) (w, []) (.ret code) (w', l)) :
    ExitCode version w' l code :=
  hs.post (runInstall_exit payloadDir (w, []))

end

/-! ## An update of a PC whose lanes are pinned -/

/-- An install with every lane pinned; the key of the first lane has these flags. -/
def pinnedPc (configFlags : ℕ) : World where
  registry := some fun
    | .version => some (wide "1")
    | .installDir => some (installDirFor .fail)
    | .certThumbprint => some (hexUpper (sha1Of 1).bytes)
    | .driverInf => some (wide "oem1.inf")
    | _ => none
  stores := fun _ => []
  keys := ⟨[], 0, []⟩
  packages := [⟨wide "oem1.inf", [1], none, true⟩]
  machine := ⟨unzipped [2], [],
    [⟨wide "ROOT\\SYSTEM\\0001", hardwareId, true, some (wide "oem1.inf"), wide "1&39b203ef&4"⟩],
    (List.range vgunMaxLanes).map fun lane => ⟨laneKeyName (wide "1&39b203ef&4") lane, pinnedPrefix lane,
      wide "\x7b745a17a0-74d3-11d0-b6fe-00a0c90f57da\x7d\\0000", if lane = 0 then configFlags else 0⟩⟩

/-- Everything works and the driver is bound at once; the flags of a key are read with this outcome. -/
def bindAtOnce (flags : Outcome) : Call → Outcome
  | .regGetVhfFlags _ => flags
  | .updateDriverForPlugAndPlayDevices _ _ => .reboot false
  | .attempt .winUHidGetDriverInterfaceVersion => .ok
  | c => succeed (sha1Of 2) (wide "oem2.inf") c

theorem install_exit_code_pinned :
    ∃ w' l, Steps shownLanes.logged (runInstall releaseDir (wide "2")) (pinnedPc 0, []) (.ret 0) (w', l) ∧
      ExitCode (wide "2") w' l 0 := by
  have hend : (runInstall releaseDir (wide "2")).endsWith shownLanes.logged (bindAtOnce .ok)
      (fun code _ => code == 0) (pinnedPc 0, []) = true := by decide +kernel
  obtain ⟨code, ⟨w', l⟩, hs, hc⟩ := Prog.endsWith_steps hend
  rw [beq_iff_eq] at hc
  subst hc
  exact ⟨w', l, hs, install_exit_code hs⟩

/-- Some installed key is the lane's. -/
def installedLane (lane : ℕ) (w : World) : Bool :=
  w.machine.vhf.any fun n => n.installed && isLaneKeyOf (cStr n.name) lane

theorem AllPinned.installedLane {w : World} {lane : ℕ} (h : AllPinned w) (hl : lane < vgunMaxLanes) :
    installedLane lane w = true := by
  obtain ⟨rootId, -, hpinned⟩ := h
  obtain ⟨-, n, hn, hinstalled, -⟩ := hpinned lane hl
  obtain ⟨hin, hsame⟩ := vhfNode_eq_some hn
  have hnul := rootPrefix_noNul w rootId
  have hname : sameName (cStr n.name) (laneKeyName (w.rootPrefix rootId) lane) = true := by
    rw [sameName_iff] at hsame ⊢
    rw [← hsame]
    unfold foldCase
    rw [cStr_cStr]
  refine List.any_eq_true.mpr ⟨n, hin, Bool.and_eq_true_iff.mpr ⟨hinstalled, ?_⟩⟩
  rw [isLaneKeyOf_congr (zero_notMem_cStr _) (zero_notMem_laneKeyName hl hnul) hname]
  exact isLaneKeyOf_laneKeyName hl hnul

/-- The flags of a failed key cannot be read: the run says 0, with a lane that PnP never installed. -/
theorem install_exit_code_hides :
    ∃ w' l, Steps sparingLanes.logged (runInstall releaseDir (wide "2"))
      (pinnedPc configFlagFailedInstall, []) (.ret 0) (w', l) ∧ ¬ ExitCode (wide "2") w' l 0 := by
  have hend : (runInstall releaseDir (wide "2")).endsWith sparingLanes.logged (bindAtOnce .fail)
      (fun code x => code == 0 && !installedLane 0 x.1) (pinnedPc configFlagFailedInstall, []) = true := by
    decide +kernel
  obtain ⟨code, ⟨w', l⟩, hs, hc⟩ := Prog.endsWith_steps hend
  simp only [Bool.and_eq_true, beq_iff_eq, Bool.not_eq_true'] at hc
  obtain ⟨rfl, hlane⟩ := hc
  refine ⟨w', l, hs, fun h => ?_⟩
  rw [(h.installed rfl).2.2.2.2.2.installedLane (by decide)] at hlane
  cases hlane

end VirtualGun.Setup
