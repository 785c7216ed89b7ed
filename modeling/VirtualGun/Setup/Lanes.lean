import VirtualGun.Setup.LanePin

/-!
# What pinning finds and leaves

A lane's key is found by its name, under the prefix that Windows gave our root node. The creation and
the removal of a lane's device are the work of PnP.
-/

open VirtualGun.Program

namespace VirtualGun.Setup

/-! ## Keys and nodes -/

def VhfNode.installed (n : VhfNode) : Bool :=
  isInstalledLaneKey (!(cStr n.driver).isEmpty) n.configFlags

/-- A present node with our hardware ID. -/
def DevNode.live (d : DevNode) : Bool := d.present && sameName d.hardwareIds hardwareId

def World.rootPrefix (w : World) (rootId : WString) : WString :=
  cStr (((w.machine.devices.find? fun d => sameName d.instanceId rootId).map
    (·.parentIdPrefix)).getD [])

def World.HasRoot (w : World) (rootId : WString) : Prop :=
  ∃ d ∈ w.machine.devices, d.live = true ∧ sameName d.instanceId rootId = true

/-- The lane's key is installed and holds the lane's pinned prefix. -/
def Pinned (rootId : WString) (lane : ℕ) (w : World) : Prop :=
  w.rootPrefix rootId ≠ [] ∧
    ∃ n, w.machine.vhfNode (laneKeyName (w.rootPrefix rootId) lane) = some n ∧
      n.installed = true ∧ sameId n.parentIdPrefix (pinnedPrefix lane) = true

theorem vhfNode_congr (m : Machine) {a b : WString} (h : sameName a b) : m.vhfNode a = m.vhfNode b := by
  unfold Machine.vhfNode sameName
  rw [sameName_iff] at h
  rw [h]

theorem vhfNode_eq_some {m : Machine} {name : WString} {n : VhfNode} (h : m.vhfNode name = some n) :
    n ∈ m.vhf ∧ sameName n.name name := by
  unfold Machine.vhfNode at h
  exact ⟨List.mem_of_find?_eq_some h, by simpa only using List.find?_some h⟩

theorem rootPrefix_noNul (w : World) (rootId : WString) : 0 ∉ w.rootPrefix rootId :=
  zero_notMem_cStr _

/-! ## PnP -/

/-- A prefix of a live root node that is not empty stays. -/
def keepsPrefix (rootPrefix : WString) (w : World) : Bool :=
  w.machine.devices.all fun d =>
    !d.live || (cStr d.parentIdPrefix).isEmpty || d.parentIdPrefix == rootPrefix

/-- The keys of the other lanes stay as they are. -/
def keepsOthers (lane : ℕ) (m m' : Machine) : Bool :=
  (m.vhf ++ m'.vhf).all fun n => (List.range vgunMaxLanes).all fun other =>
    other == lane || !isLaneKeyOf (cStr n.name) other || m'.vhfNode n.name == m.vhfNode n.name

/-- Creating or removing a lane's device touches neither another lane's key nor a root prefix that is
not empty. -/
def sparesLanes : Call → Outcome → World → Bool
  | .winUHidStartDevice lane, .pnp _ vhf rootPrefix, w =>
    keepsPrefix rootPrefix w && keepsOthers lane w.machine { w.machine with vhf := vhf }
  | .diUninstallDevice id, .ok, w =>
    !((List.range vgunMaxLanes).any fun lane => isLaneKeyOf id lane) ||
      w.machine.devices.all fun d => !d.live || !sameName d.instanceId id
  | _, _, _ => true

/-- A key that is flagged as failed is not read as if it had no flags. -/
def readsFlags : Call → Outcome → World → Bool
  | .regGetVhfFlags name, .fail, w =>
    ((w.machine.vhfNode name).map (·.configFlags)).getD 0 &&& configFlagFailedInstall == 0
  | _, _, _ => true

abbrev lanesExec : Exec Call Call.Resp Outcome World := exec.within sparesLanes

abbrev pinningExec : Exec Call Call.Resp Outcome World := lanesExec.within readsFlags

theorem pinningExec_eq_some {c : Call} {o : Outcome} {w : World} {x : c.Resp × World} :
    pinningExec c o w = some x ↔
      readsFlags c o w = true ∧ sparesLanes c o w = true ∧ exec c o w = some x := by
  rw [pinningExec, Exec.within_eq_some, Exec.within_eq_some]

theorem pinningExec_sub : pinningExec.Sub exec := fun _ _ _ _ h => (pinningExec_eq_some.mp h).2.2

/-- What pinning one lane leaves alone. -/
structure Spares (rootId : WString) (lane : ℕ) (w w' : World) : Prop where
  root : w.HasRoot rootId → w'.HasRoot rootId
  rooted : w.HasRoot rootId → w.rootPrefix rootId ≠ [] → w'.rootPrefix rootId = w.rootPrefix rootId
  others : ∀ other < vgunMaxLanes, other ≠ lane → ∀ name, 0 ∉ name → isLaneKeyOf name other = true →
    w'.machine.vhfNode name = w.machine.vhfNode name
  live : (w'.machine.devices.filter DevNode.live).length = (w.machine.devices.filter DevNode.live).length

section
variable {rootId : WString} {lane : ℕ} {u v w w' : World}

theorem Spares.refl (rootId : WString) (lane : ℕ) (w : World) : Spares rootId lane w w :=
  ⟨id, fun _ _ => rfl, fun _ _ _ _ _ _ => rfl, rfl⟩

theorem Spares.trans (h : Spares rootId lane u v) (h' : Spares rootId lane v w) :
    Spares rootId lane u w where
  root hr := h'.root (h.root hr)
  rooted hr hn := by
    have hv := h.rooted hr hn
    rw [← hv] at hn ⊢
    exact h'.rooted (h.root hr) hn
  others other ho hne name hn hl := (h'.others other ho hne name hn hl).trans (h.others other ho hne name hn hl)
  live := h'.live.trans h.live

theorem Spares.of_machine (h : w'.machine = w.machine) : Spares rootId lane w w' := by
  constructor
  · unfold World.HasRoot
    rw [h]
    exact id
  · intro _ _
    unfold World.rootPrefix
    rw [h]
  · intro _ _ _ _ _ _
    rw [h]
  · rw [h]

theorem Pinned.spares {other : ℕ} (h : Pinned rootId other w) (hr : w.HasRoot rootId)
    (ho : other < vgunMaxLanes) (hne : other ≠ lane) (hs : Spares rootId lane w w') :
    Pinned rootId other w' := by
  obtain ⟨hp, n, hn, hi, hs'⟩ := h
  have hroot := hs.rooted hr hp
  have hnul := rootPrefix_noNul w rootId
  refine ⟨by rwa [hroot], n, ?_, hi, hs'⟩
  rw [hroot, hs.others other ho hne _ (zero_notMem_laneKeyName ho hnul) (isLaneKeyOf_laneKeyName ho hnul)]
  exact hn

theorem keepsOthers_spec {m m' : Machine} (h : keepsOthers lane m m' = true) {other : ℕ}
    (ho : other < vgunMaxLanes) (hne : other ≠ lane) {name : WString} (hn : 0 ∉ name)
    (hl : isLaneKeyOf name other = true) : m'.vhfNode name = m.vhfNode name := by
  have key : ∀ n ∈ m.vhf ++ m'.vhf, sameName n.name name → m'.vhfNode name = m.vhfNode name := by
    intro n hm hs
    have hc : sameName (cStr n.name) name := by
      rw [sameName_iff] at hs ⊢
      rw [foldCase_cStr, hs]
    have hlane : isLaneKeyOf (cStr n.name) other = true := by
      rw [isLaneKeyOf_congr (zero_notMem_cStr _) hn hc]
      exact hl
    have hall := List.all_eq_true.mp (List.all_eq_true.mp h n hm) other (List.mem_range.mpr ho)
    rw [hlane] at hall
    rw [← vhfNode_congr m' hs, ← vhfNode_congr m hs]
    simpa [hne] using hall
  cases hv : m.vhfNode name with
  | some n =>
    obtain ⟨hm, hs⟩ := vhfNode_eq_some hv
    rw [← hv]
    exact key n (List.mem_append_left _ hm) hs
  | none =>
    cases hv' : m'.vhfNode name with
    | none => rfl
    | some n =>
      obtain ⟨hm, hs⟩ := vhfNode_eq_some hv'
      rw [← hv, ← hv']
      exact key n (List.mem_append_right _ hm) hs

/-! ## The calls that touch a lane -/

/-- PnP gives all live root nodes one prefix. -/
def withPrefix (rootPrefix : WString) (d : DevNode) : DevNode :=
  if d.present && sameName d.hardwareIds hardwareId then { d with parentIdPrefix := rootPrefix }
  else d

theorem withPrefix_cases (rootPrefix : WString) (d : DevNode) :
    (withPrefix rootPrefix d).instanceId = d.instanceId ∧
      (withPrefix rootPrefix d).live = d.live ∧
      (withPrefix rootPrefix d).parentIdPrefix = if d.live then rootPrefix else d.parentIdPrefix := by
  unfold withPrefix DevNode.live
  split <;> simp_all

theorem start_eq_some {o : Outcome} {r : Bool} (h : exec (.winUHidStartDevice lane) o w = some (r, w')) :
    ∃ vhf rootPrefix, o = .pnp r vhf rootPrefix ∧ w' = { w with machine := { w.machine with
      vhf := vhf, devices := w.machine.devices.map (withPrefix rootPrefix) } } := by
  cases o <;> simp only [exec, Option.some.injEq, Prod.mk.injEq, reduceCtorEq] at h
  obtain ⟨rfl, rfl⟩ := h
  exact ⟨_, _, rfl, rfl⟩

theorem find_withPrefix (rootPrefix : WString) (devices : List DevNode) (rootId : WString) :
    (devices.map (withPrefix rootPrefix)).find? (fun d => sameName d.instanceId rootId) =
      (devices.find? fun d => sameName d.instanceId rootId).map (withPrefix rootPrefix) := by
  rw [List.find?_map]
  congr 2
  funext d
  simp only [Function.comp_apply, (withPrefix_cases rootPrefix d).1]

theorem start_spares {o : Outcome} {r : Bool}
    (h : lanesExec (.winUHidStartDevice lane) o w = some (r, w')) : Spares rootId lane w w' := by
  obtain ⟨hok, hx⟩ := Exec.within_eq_some.mp h
  obtain ⟨vhf, rootPrefix, rfl, rfl⟩ := start_eq_some hx
  obtain ⟨hkept, hothers⟩ := (Bool.and_eq_true _ _).mp hok
  constructor
  · rintro ⟨d, hd, hlive, hid⟩
    obtain ⟨hi, hl, -⟩ := withPrefix_cases rootPrefix d
    exact ⟨withPrefix rootPrefix d, List.mem_map_of_mem hd, by rw [hl, hlive], by rw [hi, hid]⟩
  · intro _ hne
    unfold World.rootPrefix at hne ⊢
    rw [find_withPrefix]
    cases hf : w.machine.devices.find? fun d => sameName d.instanceId rootId with
    | none => rfl
    | some d =>
      rw [hf] at hne
      have hall := List.all_eq_true.mp hkept d (List.mem_of_find?_eq_some hf)
      obtain ⟨-, -, hp⟩ := withPrefix_cases rootPrefix d
      simp only [Option.map_some, Option.getD_some] at hne ⊢
      rw [hp]
      by_cases hl : d.live = true
      · have hkept : d.parentIdPrefix = rootPrefix := by simpa [hl, hne] using hall
        rw [if_pos hl, hkept]
      · rw [if_neg hl]
  · exact fun other ho hne name hn hl => keepsOthers_spec hothers ho hne hn hl
  · have hl : (DevNode.live ∘ withPrefix rootPrefix) = DevNode.live :=
      funext fun d => (withPrefix_cases rootPrefix d).2.1
    simp only
    rw [List.filter_map, hl, List.length_map]

theorem vhfInstanceId_sameName (a b : WString) :
    sameName (vhfInstanceId a) (vhfInstanceId b) = true ↔ sameName a b = true := by
  have hn : 0 ∉ wide "VHF\\" ++ vhfHardwareId ++ wide "\\" := by decide +kernel
  unfold vhfInstanceId
  rw [sameName_iff, sameName_iff, foldCase_append _ hn, foldCase_append _ hn, List.append_right_inj]

/-- The name of a lane's key, with what is known of it. -/
structure LaneName (lane : ℕ) (name : WString) : Prop where
  lt : lane < vgunMaxLanes
  noNul : 0 ∉ name
  suffix : isLaneKeyOf name lane = true

theorem laneName (hl : lane < vgunMaxLanes) (w : World) (rootId : WString) :
    LaneName lane (laneKeyName (w.rootPrefix rootId) lane) where
  lt := hl
  noNul := zero_notMem_laneKeyName hl (rootPrefix_noNul w rootId)
  suffix := isLaneKeyOf_laneKeyName hl (rootPrefix_noNul w rootId)

theorem LaneName.apart {other : ℕ} {a b : WString} (h : LaneName lane a) (h' : LaneName other b)
    (hne : other ≠ lane) : ¬ sameName b a := by
  intro hs
  have hb := h'.suffix
  rw [isLaneKeyOf_congr h'.noNul h.noNul hs] at hb
  exact hne (isLaneKeyOf_unique h'.lt h.lt h.noNul hb h.suffix)

theorem isLaneKeyOf_vhfInstanceId {name : WString} (h : LaneName lane name) :
    isLaneKeyOf (vhfInstanceId name) lane = true := by
  have hn : 0 ∉ wide "VHF\\" ++ vhfHardwareId ++ wide "\\" := by decide +kernel
  have hs := h.suffix
  rw [isLaneKeyOf_iff h.noNul] at hs
  have hid : 0 ∉ vhfInstanceId name := by
    unfold vhfInstanceId
    simp only [List.mem_append, not_or] at hn ⊢
    exact ⟨hn, h.noNul⟩
  rw [isLaneKeyOf_iff hid]
  unfold vhfInstanceId
  rw [foldCase_append _ hn, List.length_append]
  constructor
  · omega
  · have hle : (wide "VHF\\" ++ vhfHardwareId ++ wide "\\").length + name.length - (laneSuffix lane).length =
        (foldCase (wide "VHF\\" ++ vhfHardwareId ++ wide "\\")).length +
          (name.length - (laneSuffix lane).length) := by
      rw [length_foldCase hn]
      omega
    rw [hle, List.drop_length_add_append]
    exact hs.2

theorem uninstall_spares {name : WString} {o : Outcome} {r : Bool} (hname : LaneName lane name)
    (h : lanesExec (.diUninstallDevice (vhfInstanceId name)) o w = some (r, w')) :
    Spares rootId lane w w' := by
  obtain ⟨hok, hx⟩ := Exec.within_eq_some.mp h
  obtain ⟨rfl, -, rfl⟩ | ⟨-, -, rfl⟩ := tried_eq_some.mp hx
  rotate_left
  · exact .refl _ _ _
  have hlane : ((List.range vgunMaxLanes).any fun lane => isLaneKeyOf (vhfInstanceId name) lane) = true :=
    List.any_eq_true.mpr ⟨lane, List.mem_range.mpr hname.lt, isLaneKeyOf_vhfInstanceId hname⟩
  have hlive : ∀ d ∈ w.machine.devices, d.live = true → sameName d.instanceId (vhfInstanceId name) = false := by
    intro d hd hl
    simp only [sparesLanes, hlane, Bool.not_true, Bool.false_or] at hok
    simpa [hl] using List.all_eq_true.mp hok d hd
  constructor
  · rintro ⟨d, hd, hl, hid⟩
    refine ⟨d, List.mem_filter.mpr ⟨hd, ?_⟩, hl, hid⟩
    rw [hlive d hd hl]
    rfl
  · rintro ⟨d, hd, hl, hid⟩ -
    have hother := hlive d hd hl
    unfold World.rootPrefix Machine.uninstallDevice Machine.deleteDevice
    simp only [List.find?_filter]
    congr 4
    funext e
    rw [Bool.eq_iff_iff, decide_eq_true_iff, Bool.not_eq_true', and_iff_right_iff_imp]
    intro he
    rw [sameName_iff] at he hid
    unfold sameName at hother ⊢
    rw [he, ← hid]
    exact hother
  · intro other ho hne target hn hl
    unfold Machine.vhfNode Machine.uninstallDevice
    simp only [List.find?_filter]
    congr 1
    funext n
    rw [Bool.eq_iff_iff, decide_eq_true_iff, Bool.not_eq_true', and_iff_right_iff_imp]
    intro he
    have hapart := hname.apart ⟨ho, hn, hl⟩ hne
    rw [← Bool.not_eq_true, vhfInstanceId_sameName]
    intro hs
    apply hapart
    rw [sameName_iff] at he hs ⊢
    rw [← he, hs]
  · unfold Machine.uninstallDevice Machine.deleteDevice
    simp only [List.filter_filter]
    congr 1
    apply List.filter_congr
    intro d hd
    by_cases hl : d.live = true
    · rw [hl, hlive d hd hl]
      rfl
    · simp [hl]

/-- The key gets the prefix. -/
def withPinned (name value : WString) (n : VhfNode) : VhfNode :=
  if sameName n.name name then { n with parentIdPrefix := value } else n

theorem withPinned_name (name value : WString) (n : VhfNode) : (withPinned name value n).name = n.name := by
  unfold withPinned
  split <;> rfl

theorem find_withPinned (name value : WString) (m : Machine) (target : WString) :
    { m with vhf := m.vhf.map (withPinned name value) }.vhfNode target =
      (m.vhfNode target).map (withPinned name value) := by
  unfold Machine.vhfNode
  rw [List.find?_map]
  congr 2
  funext n
  simp only [Function.comp_apply, withPinned_name]

theorem write_eq_some {name value : WString} {o : Outcome} {r : Bool}
    (h : exec (.regSetVhfPrefix name value) o w = some (r, w')) :
    (r = true ∧ w' = { w with machine :=
      { w.machine with vhf := w.machine.vhf.map (withPinned name value) } }) ∨ (r = false ∧ w' = w) := by
  obtain ⟨-, rfl, rfl⟩ | ⟨-, rfl, rfl⟩ := tried_eq_some.mp h
  · exact .inl ⟨rfl, rfl⟩
  · exact .inr ⟨rfl, rfl⟩

theorem write_spares {name value : WString} {o : Outcome} {r : Bool} (hname : LaneName lane name)
    (h : exec (.regSetVhfPrefix name value) o w = some (r, w')) : Spares rootId lane w w' := by
  obtain ⟨-, rfl⟩ | ⟨-, rfl⟩ := write_eq_some h
  rotate_left
  · exact .refl _ _ _
  constructor
  · exact id
  · exact fun _ _ => rfl
  · intro other ho hne target hn hl
    rw [find_withPinned]
    cases hv : w.machine.vhfNode target with
    | none => rfl
    | some n =>
      have hs := (vhfNode_eq_some hv).2
      have hapart := hname.apart ⟨ho, hn, hl⟩ hne
      have hne' : ¬ sameName n.name name := by
        intro h
        apply hapart
        rw [sameName_iff] at hs h ⊢
        rw [← hs, h]
      rw [Option.map_some, withPinned, if_neg hne']
  · rfl

end

/-! ## One lane -/

theorem decidePin_write {key : LaneKey} {pinned : WString} {collides : Bool}
    (h : decidePin key pinned collides = .write) :
    key.found = true ∧ key.installed = true ∧ collides = false := by
  unfold decidePin at h
  grind

theorem decidePin_alreadyPinned {key : LaneKey} {pinned : WString} {collides : Bool}
    (h : decidePin key pinned collides = .alreadyPinned) :
    key.found = true ∧ key.installed = true ∧ sameId key.parentIdPrefix pinned = true := by
  unfold decidePin at h
  grind

/-- What a lane key that looks installed says of the key with the name. -/
def Shows (w : World) (name : WString) (key : LaneKey) : Prop :=
  key.found = true → key.installed = true → ∃ n, w.machine.vhfNode name = some n ∧
    n.installed = true ∧ (key.parentIdPrefix = [] ∨ key.parentIdPrefix = cStr n.parentIdPrefix)

section
variable {E : Exec Call Call.Resp Outcome World}

theorem readLaneKey_shows (hE : E.Sub pinningExec) (name : WString) (w : World) :
    wp E (· = w) (fun key _ => Shows w name key) (readLaneKey name) w := by
  simp only [readLaneKey, perform, Prog.perform_bind]
  refine ⟨rfl, fun o r w₁ he => ?_⟩
  obtain ⟨-, -, hx⟩ := pinningExec_eq_some.mp (hE _ _ _ _ he)
  obtain ⟨hr, rfl⟩ := looked_eq_some.mp hx
  refine wp_ite (fun hfound => ?_) fun _ => ⟨rfl, fun h => by cases h⟩
  have hsome : (w₁.machine.vhfNode name).isSome = true := by
    rcases hr with ⟨-, hr⟩ | ⟨-, hr⟩
    · rw [← hr, hfound]
    · rw [hr] at hfound
      cases hfound
  obtain ⟨n, hn⟩ := Option.isSome_iff_exists.mp hsome
  refine ⟨rfl, fun o pre w₂ he => ?_⟩
  obtain ⟨-, -, hx⟩ := pinningExec_eq_some.mp (hE _ _ _ _ he)
  obtain ⟨hpre, rfl⟩ := looked_eq_some.mp hx
  refine ⟨rfl, fun o flags w₃ he => ?_⟩
  obtain ⟨hread, -, hx⟩ := pinningExec_eq_some.mp (hE _ _ _ _ he)
  obtain ⟨hflags, rfl⟩ := looked_eq_some.mp hx
  refine ⟨rfl, fun o driver w₄ he => ?_⟩
  obtain ⟨-, -, hx⟩ := pinningExec_eq_some.mp (hE _ _ _ _ he)
  obtain ⟨hdriver, rfl⟩ := looked_eq_some.mp hx
  refine ⟨rfl, fun _ hinstalled => ⟨n, hn, ?_, ?_⟩⟩
  · simp only [isInstalledLaneKey, Bool.and_eq_true, Bool.not_eq_true'] at hinstalled
    unfold VhfNode.installed isInstalledLaneKey
    rw [Bool.and_eq_true, Bool.not_eq_true']
    constructor
    · rcases hdriver with ⟨-, rfl⟩ | ⟨-, rfl⟩
      · simpa only [hn, Option.map_some, Option.getD_some] using hinstalled.1
      · exact absurd hinstalled.1 (by decide)
    · rcases hflags with ⟨-, rfl⟩ | ⟨rfl, rfl⟩
      · simpa only [hn, Option.map_some, Option.getD_some] using hinstalled.2
      · simpa only [readsFlags, hn, Option.map_some, Option.getD_some] using hread
  · rcases hpre with ⟨-, rfl⟩ | ⟨-, rfl⟩
    · right
      simp only [hn, Option.map_some, Option.getD_some]
    · exact .inl rfl

/-- What `PinLane` keeps, and what it says with its result: the lane's device may be created and
removed, and its key be written, in any round. -/
theorem pinLane_rule (hE : E.Sub pinningExec) {rootId : WString} {lane : ℕ}
    (hl : lane < vgunMaxLanes) {I Q : World → Prop} {K : World → List VhfKey → Prop}
    (hkeys : ∀ u, wp E (· = u) (fun keys _ => K u keys) readVhfKeys u)
    (hcreate : ∀ u, I u → wp E I (fun _ _ => True) (createOnce lane) u)
    (hremove : ∀ u, I u → u.rootPrefix rootId ≠ [] → wp E I (fun _ _ => True)
      (removeDeviceInstance (vhfInstanceId (laneKeyName (u.rootPrefix rootId) lane))) u)
    (halready : ∀ u n, I u → u.rootPrefix rootId ≠ [] →
      u.machine.vhfNode (laneKeyName (u.rootPrefix rootId) lane) = some n → n.installed = true →
      sameId n.parentIdPrefix (pinnedPrefix lane) = true → Q u)
    (hwrite : ∀ u n keys, I u → u.rootPrefix rootId ≠ [] → K u keys →
      u.machine.vhfNode (laneKeyName (u.rootPrefix rootId) lane) = some n → n.installed = true →
      isCollision keys (laneKeyName (u.rootPrefix rootId) lane) lane (pinnedPrefix lane) = false →
      wp E I (fun ok v => ok = true → Q v)
        (perform (.regSetVhfPrefix (laneKeyName (u.rootPrefix rootId) lane) (pinnedPrefix lane))) u)
    (rounds : ℕ) {w : World} (hw : I w) :
    wp E I (fun ok w' => ok = true → Q w') (pinLane rootId lane rounds) w := by
  induction rounds generalizing w with
  | zero => exact ⟨hw, fun h => by cases h⟩
  | succ rounds ih =>
    have again : ∀ u, I u → wp E I (fun ok w' => ok = true → Q w')
        (createOnce lane >>= fun b => if b then pinLane rootId lane rounds else pure false) u := by
      intro u hu
      refine wp_seq (hcreate u hu) fun b v hv _ => ?_
      exact wp_ite (fun _ => ih hv) fun _ => ⟨hv, fun h => by cases h⟩
    simp only [pinLane, perform, Prog.perform_bind]
    refine ⟨hw, fun o r u he => ?_⟩
    obtain ⟨-, -, hx⟩ := pinningExec_eq_some.mp (hE _ _ _ _ he)
    obtain ⟨hr, rfl⟩ := looked_eq_some.mp hx
    refine wp_ite (fun _ => again u hw) fun hne => ?_
    have hrooted : cStr r = u.rootPrefix rootId := by
      rcases hr with ⟨-, rfl⟩ | ⟨-, rfl⟩
      · rfl
      · exact absurd rfl hne
    rw [hrooted] at hne ⊢
    refine wp_seq_of ?_ (readLaneKey_shows hE _ u) ?_
    · rintro _ rfl
      exact hw
    rintro key _ rfl hkey
    refine wp_seq_of ?_ (hkeys _) ?_
    · rintro _ rfl
      exact hw
    rintro keys u rfl hK
    split
    · next hdecide =>
      obtain ⟨hf, hi, hs⟩ := decidePin_alreadyPinned hdecide
      obtain ⟨n, hn, hinst, hp⟩ := hkey hf hi
      refine ⟨hw, fun _ => halready u n hw hne hn hinst ?_⟩
      obtain ⟨hpinned, hnul, -⟩ := pinnedPrefix_spec lane hl
      unfold sameId at hs ⊢
      rw [sameName_iff] at hs ⊢
      rcases hp with hp | hp
      · rw [hp, foldCase_nil, eq_comm, foldCase_eq_nil, cStr_of_no_nul hnul] at hs
        exact absurd hs hpinned
      · rw [← hs, hp, foldCase_cStr]
    · next hdecide =>
      obtain ⟨hf, hi, hc⟩ := decidePin_write hdecide
      obtain ⟨n, hn, hinst, -⟩ := hkey hf hi
      exact hwrite u n keys hw hne hK hn hinst hc
    · exact again u hw
    · refine wp_seq (hremove u hw hne) fun b v hv _ => ?_
      exact wp_ite (fun _ => again v hv) fun _ => ⟨hv, fun h => by cases h⟩
    · exact ⟨hw, fun h => by cases h⟩

end

section
variable {E : Exec Call Call.Resp Outcome World} {rootId : WString} {lane : ℕ} {w : World}

theorem pinningExec_lanes : pinningExec.Sub lanesExec := Exec.within_sub _ _

theorem looks_frame {α : Type} {c : Call} {p : Flow α} {J : World → Prop} {rel : World → World → Prop}
    (hE : E.Sub exec) (hp : LooksOr c p) (hrefl : ∀ u, rel u u)
    (htrans : ∀ {u v w}, rel u v → rel v w → rel u w)
    (hsame : ∀ {u v}, v.machine = u.machine → J u → J v ∧ rel u v)
    (hc : ∀ {o : Outcome} {r : c.Resp} {u v : World}, J u → E c o u = some (r, v) → J v ∧ rel u v)
    (hw : J w) : wp E (fun v => J v ∧ rel w v) (fun _ _ => True) p w := by
  refine wp_frame hrefl htrans (fun {d o r u v} hu hd he => ⟨trivial, ?_⟩) hw hp
  rcases hd.2 with hn | rfl
  · refine hsame ((exec_frame (hE _ _ _ _ he)).machine ?_ ?_) hu <;> rw [hn] <;> simp
  · exact hc hu he

theorem looks_spares {α : Type} {c : Call} {p : Flow α} (hE : E.Sub pinningExec) (hp : LooksOr c p)
    (hc : ∀ {o : Outcome} {r : c.Resp} {u v : World}, lanesExec c o u = some (r, v) →
      Spares rootId lane u v) (hr : w.HasRoot rootId) :
    wp E (fun w' => w'.HasRoot rootId ∧ Spares rootId lane w w') (fun _ _ => True) p w := by
  have hexec : E.Sub exec := fun _ _ _ _ h => pinningExec_sub _ _ _ _ (hE _ _ _ _ h)
  refine looks_frame hexec hp (Spares.refl rootId lane) Spares.trans (fun hm hu => ?_) (fun hu he => ?_) hr
  · have hs : Spares rootId lane _ _ := .of_machine hm
    exact ⟨hs.root hu, hs⟩
  · have hs := hc (pinningExec_lanes _ _ _ _ (hE _ _ _ _ he))
    exact ⟨hs.root hu, hs⟩

theorem written_pinned {n : VhfNode} (hp : w.rootPrefix rootId ≠ [])
    (hn : w.machine.vhfNode (laneKeyName (w.rootPrefix rootId) lane) = some n) (hi : n.installed = true) :
    Pinned rootId lane { w with machine := { w.machine with
      vhf := w.machine.vhf.map (withPinned (laneKeyName (w.rootPrefix rootId) lane) (pinnedPrefix lane)) } } := by
  have hsame := (vhfNode_eq_some hn).2
  have hf := find_withPinned (laneKeyName (w.rootPrefix rootId) lane) (pinnedPrefix lane) w.machine
    (laneKeyName (w.rootPrefix rootId) lane)
  rw [hn, Option.map_some] at hf
  refine ⟨hp, _, hf, ?_, ?_⟩ <;> rw [withPinned, if_pos hsame]
  · exact hi
  · rw [sameId, sameName_iff]

theorem pinLane_spares (hE : E.Sub pinningExec) (hl : lane < vgunMaxLanes) (rounds : ℕ)
    (hr : w.HasRoot rootId) :
    wp E (fun w' => w'.HasRoot rootId ∧ Spares rootId lane w w')
      (fun ok w' => ok = true → Pinned rootId lane w') (pinLane rootId lane rounds) w := by
  have hafter : ∀ {α : Type} {p : Flow α} {Q : α → World → Prop} {u : World}, Spares rootId lane w u →
      wp E (fun v => v.HasRoot rootId ∧ Spares rootId lane u v) Q p u →
      wp E (fun v => v.HasRoot rootId ∧ Spares rootId lane w v) Q p u := fun hs h =>
    wp_mono (fun _ hv => ⟨hv.1, hs.trans hv.2⟩) (fun _ _ _ hq => hq) h
  apply pinLane_rule hE hl (K := fun _ _ => True)
  · exact fun u => wp_still (fun _ _ _ _ h => pinningExec_sub _ _ _ _ (hE _ _ _ _ h)) readVhfKeys_looks.still u
  · exact fun u hu => hafter hu.2 (looks_spares hE (createOnce_looks lane) start_spares hu.1)
  · intro u hu _
    have hname := laneName hl u rootId
    exact hafter hu.2 (looks_spares hE (removeDeviceInstance_looks _) (uninstall_spares hname) hu.1)
  · exact fun u n _ hp hn hi hs => ⟨hp, n, hn, hi, hs⟩
  · intro u n keys hu hp _ hn hi _
    refine ⟨hu, fun o r v he => ?_⟩
    have hx := pinningExec_sub _ _ _ _ (hE _ _ _ _ he)
    have hv : Spares rootId lane u v := write_spares (laneName hl u rootId) hx
    refine ⟨⟨hv.root hu.1, hu.2.trans hv⟩, ?_⟩
    rintro rfl
    obtain ⟨-, rfl⟩ | ⟨hf, -⟩ := write_eq_some hx
    · exact written_pinned hp hn hi
    · cases hf
  · exact ⟨hr, .refl _ _ _⟩

end

/-! ## All lanes -/

/-- `pinFrom`, with what `PinLane` returned for each lane. -/
def pinEach (rootId : WString) : List ℕ → Flow (List (ℕ × Bool))
  | [] => return []
  | lane :: lanes => do
    let pinned ← pinLane rootId lane 4
    let rest ← pinEach rootId lanes
    return (lane, pinned) :: rest

theorem pinFrom_eq (rootId : WString) (lanes : List ℕ) :
    pinFrom rootId lanes = pinEach rootId lanes >>= fun each => .ret (each.countP fun e => !e.2) := by
  induction lanes with
  | nil => rfl
  | cons lane lanes ih =>
    unfold pinFrom pinEach
    rw [ih, Prog.bind_assoc]
    congr 1
    funext pinned
    rw [Prog.bind_assoc, Prog.bind_assoc]
    congr 1
    funext each
    cases pinned <;> simp

section
variable {E : Exec Call Call.Resp Outcome World} {rootId : WString} {w : World}

theorem pinEach_keeps {I : World → Prop} {lanes : List ℕ}
    (h : ∀ lane ∈ lanes, ∀ u, I u → wp E I (fun _ _ => True) (pinLane rootId lane 4) u) (hw : I w) :
    wp E I (fun _ _ => True) (pinEach rootId lanes) w := by
  induction lanes generalizing w with
  | nil => exact ⟨hw, trivial⟩
  | cons lane lanes ih =>
    refine wp_seq (h lane List.mem_cons_self w hw) fun _ u hu _ => ?_
    exact wp_seq (ih (fun other ho => h other (List.mem_cons_of_mem _ ho)) hu) fun _ _ hv _ => ⟨hv, trivial⟩

/-- What pinning these lanes leaves alone. -/
structure KeepsPinned (rootId : WString) (lanes : List ℕ) (w w' : World) : Prop where
  root : w'.HasRoot rootId
  live : (w'.machine.devices.filter DevNode.live).length = (w.machine.devices.filter DevNode.live).length
  pinned : ∀ other < vgunMaxLanes, other ∉ lanes → Pinned rootId other w → Pinned rootId other w'

theorem Spares.keepsPinned {lane : ℕ} {u v : World} (h : Spares rootId lane u v) (hr : u.HasRoot rootId) :
    KeepsPinned rootId [lane] u v where
  root := h.root hr
  live := h.live
  pinned _ ho hn hp := hp.spares hr ho (fun he => hn (he ▸ List.mem_singleton_self _)) h

theorem KeepsPinned.cons {lane : ℕ} {lanes : List ℕ} {u v w : World}
    (h : KeepsPinned rootId [lane] u v) (h' : KeepsPinned rootId lanes v w) :
    KeepsPinned rootId (lane :: lanes) u w where
  root := h'.root
  live := h'.live.trans h.live
  pinned other ho hn hp := by
    rw [List.mem_cons, not_or] at hn
    exact h'.pinned other ho hn.2 (h.pinned other ho (by simpa using hn.1) hp)

theorem KeepsPinned.weaken {lanes lanes' : List ℕ} {u v : World} (h : KeepsPinned rootId lanes u v)
    (hl : lanes ⊆ lanes') : KeepsPinned rootId lanes' u v :=
  ⟨h.root, h.live, fun _ ho hn => h.pinned _ ho fun hm => hn (hl hm)⟩

theorem pinEach_pinned (hE : E.Sub pinningExec) {lanes : List ℕ} (hl : ∀ lane ∈ lanes, lane < vgunMaxLanes)
    (hn : lanes.Nodup) (hr : w.HasRoot rootId) :
    wp E (KeepsPinned rootId lanes w)
      (fun each w' => each.map Prod.fst = lanes ∧ ∀ e ∈ each, e.2 = true → Pinned rootId e.1 w')
      (pinEach rootId lanes) w := by
  induction lanes generalizing w with
  | nil =>
    have hkeeps : KeepsPinned rootId [] w w := ⟨hr, rfl, fun _ _ _ hp => hp⟩
    exact ⟨hkeeps, rfl, fun _ he => absurd he List.not_mem_nil⟩
  | cons lane lanes ih =>
    obtain ⟨hlane, hlanes⟩ := List.forall_mem_cons.mp hl
    obtain ⟨hnotin, hnodup⟩ := List.nodup_cons.mp hn
    refine wp_seq_of (fun u hu => ?_) (pinLane_spares hE hlane 4 hr) fun pinned u ⟨hu, hs⟩ hp => ?_
    · exact (hu.2.keepsPinned hr).weaken (by simp)
    have hkept := hs.keepsPinned hr
    refine wp_seq_of (fun v hv => hkept.cons hv) (ih hlanes hnodup hu) fun rest v hv ⟨hfst, hrest⟩ => ?_
    refine ⟨hkept.cons hv, by rw [List.map_cons, hfst], fun e he => ?_⟩
    rcases List.mem_cons.mp he with rfl | he
    · exact fun ht => hv.pinned lane hlane hnotin (hp ht)
    · exact hrest e he

end

/-- `pinLanes`, with what `PinLane` returned for each lane that it came to. -/
def pinLanesEach : Flow (PinSummary × List (ℕ × Bool)) := do
  if ← waitFor (attempt .winUHidGetDriverInterfaceVersion) 100 then
    let rootId ← liveRootInstanceId
    if rootId = [] then return (⟨false, vgunMaxLanes⟩, [])
    else
      let each ← pinEach rootId (List.range vgunMaxLanes)
      return (⟨false, each.countP fun e => !e.2⟩, each)
  else return (⟨true, 0⟩, [])

theorem pinLanes_eq : pinLanes = pinLanesEach >>= fun x => .ret x.1 := by
  unfold pinLanes pinLanesEach
  rw [Prog.bind_assoc]
  congr 1
  funext opened
  cases opened
  · rfl
  · simp only [if_true]
    rw [Prog.bind_assoc]
    congr 1
    funext rootId
    split
    · rfl
    · rw [pinFrom_eq, Prog.bind_assoc, Prog.bind_assoc]
      rfl

section
variable {E : Exec Call Call.Resp Outcome World} {w : World}

theorem isOurDevice_ours (hE : E.Sub exec) (dev : DevNode) :
    wp E (· = w) (fun ours _ => ours = true → sameName dev.hardwareIds hardwareId = true)
      (isOurDevice dev) w := by
  simp only [isOurDevice, attempt, perform, Prog.perform_bind]
  refine wp_attempt_of hE rfl fun b => ?_
  exact wp_ite (fun _ => ⟨rfl, id⟩) fun _ => ⟨rfl, fun h => by cases h⟩

theorem liveRootIn_spec (hE : E.Sub exec) (devs : List DevNode) (found : WString) (count : ℕ)
    (hd : ∀ d ∈ devs, d ∈ w.machine.devices ∧ d.present = true) (hf : found = [] ∨ w.HasRoot found) :
    wp E (· = w) (fun rootId _ => rootId = [] ∨ w.HasRoot rootId) (liveRootIn found count devs) w := by
  have hend : ∀ {found count}, found = [] ∨ w.HasRoot found →
      (if count = 1 then found else []) = [] ∨ w.HasRoot (if count = 1 then found else []) := by
    intro found count hf
    split
    · exact hf
    · exact .inl rfl
  induction devs generalizing found count with
  | nil => exact ⟨rfl, hend hf⟩
  | cons dev devs ih =>
    obtain ⟨hdev, hdevs⟩ := List.forall_mem_cons.mp hd
    simp only [liveRootIn, attempt, perform, Prog.perform_bind]
    refine wp_attempt_of hE rfl fun b => wp_ite (fun _ => ?_) fun _ => ⟨rfl, hend hf⟩
    refine wp_seq (isOurDevice_ours hE dev) ?_
    rintro ours _ rfl hours
    refine wp_ite (fun h => ?_) fun _ => ih found count hdevs hf
    refine wp_attempt_of hE rfl fun b => wp_ite (fun _ => ?_) fun _ => ih found _ hdevs hf
    refine ih dev.instanceId _ hdevs (.inr ⟨dev, hdev.1, ?_, ?_⟩)
    · rw [DevNode.live, hdev.2, hours h]
      rfl
    · rw [sameName_iff]

theorem liveRootInstanceId_spec (hE : E.Sub exec) :
    wp E (· = w) (fun rootId _ => rootId = [] ∨ w.HasRoot rootId) liveRootInstanceId w := by
  simp only [liveRootInstanceId, perform, Prog.perform_bind]
  refine ⟨rfl, fun o r w' he => ?_⟩
  obtain ⟨⟨-, rfl⟩ | ⟨-, rfl⟩, rfl⟩ := looked_eq_some.mp (hE _ _ _ _ he)
  · refine liveRootIn_spec hE _ [] 0 (fun d hd => ?_) (.inl rfl)
    obtain ⟨hd, hp⟩ := List.mem_filter.mp hd
    exact ⟨hd, by simpa using hp⟩
  · exact ⟨rfl, .inl rfl⟩

end

end VirtualGun.Setup
