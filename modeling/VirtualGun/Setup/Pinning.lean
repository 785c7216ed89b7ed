import VirtualGun.Setup.Lanes
import Mathlib.Data.List.Nodup

/-!
# Pinning leaves other devices alone

Two keys of different devices must not hold one prefix. `PinLanes` writes a prefix only where no other
device's key holds it.
-/

open VirtualGun.Program

namespace VirtualGun.Setup

/-! ## What PnP does -/

/-- A key name and an instance ID name one thing. -/
structure Registered (m : Machine) : Prop where
  named : ∀ n ∈ m.vhf, 0 ∉ n.name
  keys : (m.vhf.map fun n => foldCase n.name).Nodup
  nodes : (m.devices.map fun d => foldCase d.instanceId).Nodup

/-- The lane's key under the prefix. -/
def ownKey (rootPrefix : WString) (lane : ℕ) (name : WString) : Bool :=
  !(cStr rootPrefix).isEmpty && sameName name (laneKeyName (cStr rootPrefix) lane)

/-- No lane's pinned prefix. -/
def unpinned (parentIdPrefix : WString) : Bool :=
  (List.range vgunMaxLanes).all fun lane => !sameId parentIdPrefix (pinnedPrefix lane)

/-- Only the lane's own key comes, goes or changes, and the prefix it gets is not a pinned one. -/
def touchesKey (lane : ℕ) (rootPrefix : WString) (before after : List VhfNode) : Bool :=
  (before.all fun n => after.contains n || ownKey rootPrefix lane n.name) &&
    after.all fun n => before.contains n || ownKey rootPrefix lane n.name &&
      (unpinned n.parentIdPrefix ||
        before.any fun m => sameName m.name n.name && m.parentIdPrefix == n.parentIdPrefix)

def Call.readsVhf : Call → Bool
  | .regOpenVhfKey _ | .regGetVhfPrefix _ | .regGetVhfFlags _ | .regGetVhfDriver _ => true
  | .regOpenVhfKeys | .attempt .regEnumKey => true
  | _ => false

def touchesOwn : Call → Outcome → World → Bool
  | .winUHidStartDevice lane, .pnp _ vhf rootPrefix, w =>
    touchesKey lane rootPrefix w.machine.vhf vhf && vhf.all (fun n => !n.name.contains 0) &&
      decide (vhf.map fun n => foldCase n.name).Nodup
  | c, .fail, _ => !c.readsVhf
  | _, _, _ => true

/-- The VHF keys are read as they are, and PnP touches the lane's own key. -/
abbrev safeExec : Exec Call Call.Resp Outcome World := pinningExec.within touchesOwn

theorem safeExec_sub : safeExec.Sub pinningExec := Exec.within_sub _ _

theorem safeExec_exec : safeExec.Sub exec := fun _ _ _ _ h => pinningExec_sub _ _ _ _ (safeExec_sub _ _ _ _ h)

/-! ## What pinning does to the keys -/

/-- The key with the name holds the lane's pinned prefix. -/
def HoldsPin (w : World) (name : WString) (lane : ℕ) : Prop :=
  ∃ n ∈ w.machine.vhf, sameName n.name name = true ∧ sameId n.parentIdPrefix (pinnedPrefix lane) = true

def SameLane (a b : WString) : Prop :=
  ∃ lane < vgunMaxLanes, isLaneKeyOf a lane = true ∧ isLaneKeyOf b lane = true

/-- A lane's key under the root node's prefix. -/
def UnderRoot (w : World) (rootId name : WString) : Prop :=
  w.rootPrefix rootId ≠ [] ∧
    ∃ lane < vgunMaxLanes, sameName name (laneKeyName (w.rootPrefix rootId) lane) = true

/-- Only lanes' keys change, and no pinned prefix comes to be shared. -/
structure OnlyLanes (rootId : WString) (w w' : World) : Prop where
  rooted : w.rootPrefix rootId ≠ [] → w'.rootPrefix rootId = w.rootPrefix rootId
  before : ∀ n ∈ w.machine.vhf, n ∈ w'.machine.vhf ∨ UnderRoot w' rootId n.name
  after : ∀ n ∈ w'.machine.vhf, n ∈ w.machine.vhf ∨ UnderRoot w' rootId n.name
  shared : ∀ lane < vgunMaxLanes, ∀ a b, 0 ∉ a → 0 ∉ b → ¬ sameName a b → ¬ SameLane a b →
    HoldsPin w' a lane → HoldsPin w' b lane → HoldsPin w a lane ∧ HoldsPin w b lane

section
variable {rootId : WString} {lane : ℕ} {u v w : World}

theorem OnlyLanes.refl (rootId : WString) (w : World) : OnlyLanes rootId w w :=
  ⟨fun _ => rfl, fun _ hn => .inl hn, fun _ hn => .inl hn, fun _ _ _ _ _ _ _ _ ha hb => ⟨ha, hb⟩⟩

theorem UnderRoot.keep {name : WString} (h : UnderRoot u rootId name)
    (hr : u.rootPrefix rootId ≠ [] → v.rootPrefix rootId = u.rootPrefix rootId) :
    UnderRoot v rootId name := by
  unfold UnderRoot
  rw [hr h.1]
  exact h

theorem OnlyLanes.trans (h : OnlyLanes rootId u v) (h' : OnlyLanes rootId v w) : OnlyLanes rootId u w where
  rooted hn := by
    have hv := h.rooted hn
    rw [← hv] at hn ⊢
    exact h'.rooted hn
  before n hn := by
    rcases h.before n hn with hv | hv
    · exact h'.before n hv
    · exact .inr (hv.keep h'.rooted)
  after n hn := by
    rcases h'.after n hn with hv | hv
    · exact (h.after n hv).imp_right fun hu => hu.keep h'.rooted
    · exact .inr hv
  shared lane hl a b ha hb hne hs hwa hwb := by
    obtain ⟨hva, hvb⟩ := h'.shared lane hl a b ha hb hne hs hwa hwb
    exact h.shared lane hl a b ha hb hne hs hva hvb

theorem OnlyLanes.of_machine (h : v.machine = u.machine) : OnlyLanes rootId u v := by
  have hr : v.rootPrefix rootId = u.rootPrefix rootId := by
    unfold World.rootPrefix
    rw [h]
  refine ⟨fun _ => hr, fun n hn => .inl ?_, fun n hn => .inl ?_, fun _ _ _ _ _ _ _ _ ha hb => ⟨?_, ?_⟩⟩
  · rwa [h]
  · rwa [← h]
  · unfold HoldsPin at ha ⊢
    rwa [h] at ha
  · unfold HoldsPin at hb ⊢
    rwa [h] at hb

/-! ## PnP and the removal -/

theorem find_root (hn : (u.machine.devices.map fun d => foldCase d.instanceId).Nodup)
    (hr : u.HasRoot rootId) : ∃ d ∈ u.machine.devices, d.live = true ∧
      u.machine.devices.find? (fun d => sameName d.instanceId rootId) = some d := by
  obtain ⟨d, hd, hlive, hid⟩ := hr
  refine ⟨d, hd, hlive, ?_⟩
  cases hf : u.machine.devices.find? fun d => sameName d.instanceId rootId with
  | none =>
    rw [List.find?_eq_none] at hf
    exact absurd hid (hf d hd)
  | some e =>
    have he := List.find?_some hf
    simp only [sameName_iff] at he hid
    rw [List.inj_on_of_nodup_map hn (List.mem_of_find?_eq_some hf) hd (he.trans hid.symm)]

/-- The prefix of the root node is the one that PnP gave to the live nodes. -/
theorem rootPrefix_start (hn : (u.machine.devices.map fun d => foldCase d.instanceId).Nodup)
    (hr : u.HasRoot rootId) (vhf : List VhfNode) (rootPrefix : WString) :
    ({ u with machine := { u.machine with
      vhf := vhf, devices := u.machine.devices.map (withPrefix rootPrefix) } } : World).rootPrefix rootId =
      cStr rootPrefix := by
  obtain ⟨d, -, hlive, hf⟩ := find_root hn hr
  unfold World.rootPrefix
  simp only [find_withPrefix, hf, Option.map_some, Option.getD_some]
  rw [(withPrefix_cases rootPrefix d).2.2, if_pos hlive]

theorem unpinned_spec {p : WString} (h : unpinned p = true) (hl : lane < vgunMaxLanes) :
    ¬ sameId p (pinnedPrefix lane) = true := by
  have hall := List.all_eq_true.mp h lane (List.mem_range.mpr hl)
  simpa using hall

theorem start_only {o : Outcome} {r : Bool} (hl : lane < vgunMaxLanes) (hu : Registered u.machine)
    (hr : u.HasRoot rootId) (h : safeExec (.winUHidStartDevice lane) o u = some (r, v)) :
    Registered v.machine ∧ OnlyLanes rootId u v := by
  have hs : Spares rootId lane u v := start_spares (pinningExec_lanes _ _ _ _ (safeExec_sub _ _ _ _ h))
  obtain ⟨hok, hx⟩ := Exec.within_eq_some.mp h
  obtain ⟨vhf, rootPrefix, rfl, hv⟩ := start_eq_some (pinningExec_sub _ _ _ _ hx)
  simp only [touchesOwn, touchesKey, Bool.and_eq_true, List.all_eq_true, Bool.or_eq_true,
    List.contains_iff_mem, decide_eq_true_iff, Bool.not_eq_true'] at hok
  obtain ⟨⟨⟨hbefore, hafter⟩, hnamed⟩, hkeys⟩ := hok
  have hrooted : v.rootPrefix rootId = cStr rootPrefix := by
    rw [hv]
    exact rootPrefix_start hu.nodes hr vhf rootPrefix
  have hvhf : v.machine.vhf = vhf := by rw [hv]
  have hown : ∀ {name}, ownKey rootPrefix lane name = true → UnderRoot v rootId name := by
    intro name ho
    simp only [ownKey, Bool.and_eq_true, Bool.not_eq_true', List.isEmpty_eq_false_iff] at ho
    unfold UnderRoot
    rw [hrooted]
    exact ⟨ho.1, lane, hl, ho.2⟩
  have hholds : ∀ {name other}, other < vgunMaxLanes → HoldsPin v name other → HoldsPin u name other := by
    rintro name other hother ⟨n, hn, hname, hp⟩
    rw [hvhf] at hn
    rcases hafter n hn with hin | ⟨-, hfree | hsame⟩
    · exact ⟨n, hin, hname, hp⟩
    · exact absurd hp (unpinned_spec hfree hother)
    · obtain ⟨m, hm, hmn⟩ := List.any_eq_true.mp hsame
      rw [Bool.and_eq_true, beq_iff_eq] at hmn
      refine ⟨m, hm, ?_, ?_⟩
      · have hmn := hmn.1
        rw [sameName_iff] at hname hmn ⊢
        rw [hmn, hname]
      · rw [hmn.2]
        exact hp
  refine ⟨⟨fun n hn => ?_, ?_, ?_⟩, hs.rooted hr, fun n hn => ?_, fun n hn => ?_, ?_⟩
  · rw [hvhf] at hn
    simpa using hnamed n hn
  · rw [hvhf]
    exact hkeys
  · have hid : (fun d => foldCase (DevNode.instanceId d)) ∘ withPrefix rootPrefix =
        fun d => foldCase d.instanceId :=
      funext fun d => by rw [Function.comp_apply, (withPrefix_cases rootPrefix d).1]
    rw [hv]
    simp only [List.map_map, hid]
    exact hu.nodes
  · rw [hvhf]
    exact (hbefore n hn).imp_right hown
  · rw [hvhf] at hn
    exact (hafter n hn).imp_right fun hn => hown hn.1
  · exact fun other ho a b _ _ _ _ ha hb => ⟨hholds ho ha, hholds ho hb⟩

theorem uninstall_only {o : Outcome} {r : Bool} (hl : lane < vgunMaxLanes) (hu : Registered u.machine)
    (hr : u.HasRoot rootId) (hne : u.rootPrefix rootId ≠ [])
    (h : safeExec (.diUninstallDevice (vhfInstanceId (laneKeyName (u.rootPrefix rootId) lane))) o u =
      some (r, v)) : Registered v.machine ∧ OnlyLanes rootId u v := by
  have hs : Spares rootId lane u v :=
    uninstall_spares (laneName hl u rootId) (pinningExec_lanes _ _ _ _ (safeExec_sub _ _ _ _ h))
  obtain ⟨rfl, -, hv⟩ | ⟨-, -, rfl⟩ := tried_eq_some.mp (safeExec_exec _ _ _ _ h)
  rotate_left
  · exact ⟨hu, .refl _ _⟩
  have hrooted := hs.rooted hr hne
  have hsub : ∀ n ∈ v.machine.vhf, n ∈ u.machine.vhf := by
    rw [hv]
    exact fun n hn => (List.mem_filter.mp hn).1
  have hholds : ∀ {name other}, HoldsPin v name other → HoldsPin u name other := by
    rintro name other ⟨n, hn, hname, hp⟩
    exact ⟨n, hsub n hn, hname, hp⟩
  refine ⟨⟨fun n hn => hu.named n (hsub n hn), ?_, ?_⟩, fun _ => hrooted, fun n hn => ?_,
    fun n hn => .inl (hsub n hn), fun other _ a b _ _ _ _ ha hb => ⟨hholds ha, hholds hb⟩⟩
  · rw [hv]
    exact hu.keys.sublist (List.filter_sublist.map _)
  · rw [hv]
    exact hu.nodes.sublist (List.filter_sublist.map _)
  · by_cases hname : sameName (vhfInstanceId n.name)
        (vhfInstanceId (laneKeyName (u.rootPrefix rootId) lane)) = true
    · right
      unfold UnderRoot
      rw [hrooted]
      exact ⟨hne, lane, hl, (vhfInstanceId_sameName _ _).mp hname⟩
    · left
      rw [hv]
      exact List.mem_filter.mpr ⟨hn, by rw [Bool.not_eq_true] at hname; rw [hname]; rfl⟩

/-! ## The write -/

theorem vhfNode_self {m : Machine} (hm : Registered m) {n : VhfNode} (hn : n ∈ m.vhf) :
    m.vhfNode n.name = some n := by
  cases hf : m.vhfNode n.name with
  | none =>
    unfold Machine.vhfNode at hf
    rw [List.find?_eq_none] at hf
    exact absurd ((sameName_iff _ _).mpr rfl) (hf n hn)
  | some k =>
    obtain ⟨hk, hs⟩ := vhfNode_eq_some hf
    rw [sameName_iff] at hs
    rw [List.inj_on_of_nodup_map hm.keys hk hn hs]

/-- The keys as they are. -/
def Lists (w : World) (keys : List VhfKey) : Prop :=
  Registered w.machine → keys = w.machine.vhf.map fun n => ⟨n.name, cStr n.parentIdPrefix⟩

theorem readVhfNames_spec (names : List WString) (w : World) :
    wp safeExec (· = w) (fun keys _ => keys = names.map fun name =>
      ⟨name, cStr (((w.machine.vhfNode name).map (·.parentIdPrefix)).getD [])⟩) (readVhfNames names) w := by
  induction names with
  | nil => exact ⟨rfl, rfl⟩
  | cons name names ih =>
    simp only [readVhfNames, attempt, perform, Prog.perform_bind]
    refine ⟨rfl, fun o b u he => ?_⟩
    obtain ⟨rfl, rfl, rfl⟩ | ⟨rfl, -, -⟩ := tried_eq_some.mp (safeExec_exec _ _ _ _ he)
    rotate_left
    · cases (Exec.within_eq_some.mp he).1
    refine wp_ite (fun _ => ⟨rfl, fun o p v he => ?_⟩) fun h => absurd rfl h
    obtain ⟨⟨-, rfl⟩ | ⟨rfl, -⟩, rfl⟩ := looked_eq_some.mp (safeExec_exec _ _ _ _ he)
    rotate_left
    · cases (Exec.within_eq_some.mp he).1
    refine wp_seq ih ?_
    rintro keys v rfl rfl
    exact ⟨rfl, rfl⟩

theorem readVhfKeys_spec (w : World) : wp safeExec (· = w) (fun keys _ => Lists w keys) readVhfKeys w := by
  simp only [readVhfKeys, perform, Prog.perform_bind]
  refine ⟨rfl, fun o r u he => ?_⟩
  obtain ⟨⟨-, rfl⟩ | ⟨rfl, -⟩, rfl⟩ := looked_eq_some.mp (safeExec_exec _ _ _ _ he)
  rotate_left
  · cases (Exec.within_eq_some.mp he).1
  refine wp_post ?_ (readVhfNames_spec _ u)
  rintro keys _ rfl hkeys hu
  rw [hkeys, List.map_map]
  apply List.map_congr_left
  intro n hn
  rw [Function.comp_apply, vhfNode_self hu hn]
  rfl

/-- Another device's key that holds the prefix is a collision. -/
theorem lane_of_holds {keys : List VhfKey} {name b : WString} (hu : Registered u.machine)
    (hkeys : Lists u keys) (hc : isCollision keys name lane (pinnedPrefix lane) = false) (hb : 0 ∉ b)
    (hne : ¬ sameName b name) (hh : HoldsPin u b lane) : isLaneKeyOf b lane = true := by
  obtain ⟨n, hn, hname, hp⟩ := hh
  have hkey : (⟨n.name, cStr n.parentIdPrefix⟩ : VhfKey) ∈ keys := by
    rw [hkeys hu]
    exact List.mem_map_of_mem hn
  have hother : sameId n.name name = false := by
    rw [← Bool.not_eq_true, sameId]
    intro hs
    apply hne
    rw [sameName_iff] at hs hname ⊢
    rw [← hname, hs]
  have hpin : sameId (cStr n.parentIdPrefix) (pinnedPrefix lane) = true := by
    unfold sameId at hp ⊢
    rw [sameName_iff] at hp ⊢
    rw [foldCase_cStr, hp]
  rw [← isLaneKeyOf_congr (hu.named n hn) hb hname]
  have hany := List.any_eq_false.mp hc _ hkey
  simpa [hother, hpin] using hany

theorem registered_write (hu : Registered u.machine) (name value : WString) :
    Registered { u.machine with vhf := u.machine.vhf.map (withPinned name value) } := by
  refine ⟨fun n hn => ?_, ?_, hu.nodes⟩
  · obtain ⟨m, hm, rfl⟩ := List.mem_map.mp hn
    rw [withPinned_name]
    exact hu.named m hm
  · have hnames : (fun n => foldCase (VhfNode.name n)) ∘ withPinned name value =
        fun n => foldCase n.name := funext fun n => by rw [Function.comp_apply, withPinned_name]
    rw [List.map_map, hnames]
    exact hu.keys

theorem holds_write {name a : WString} {other : ℕ} (hl : lane < vgunMaxLanes)
    (hv : v.machine.vhf = u.machine.vhf.map (withPinned name (pinnedPrefix lane)))
    (hother : other < vgunMaxLanes) (h : HoldsPin v a other) :
    HoldsPin u a other ∨ other = lane ∧ sameName a name = true := by
  obtain ⟨n, hn, ha, hp⟩ := h
  rw [hv] at hn
  obtain ⟨m, hm, rfl⟩ := List.mem_map.mp hn
  rw [withPinned_name] at ha
  by_cases hs : sameName m.name name = true
  · right
    rw [withPinned, if_pos hs] at hp
    refine ⟨(pinnedPrefix_spec other hother).2.2 lane hl hp ▸ rfl, ?_⟩
    rw [sameName_iff] at ha hs ⊢
    rw [← ha, hs]
  · rw [withPinned, if_neg hs] at hp
    exact .inl ⟨m, hm, ha, hp⟩

theorem sameLane_write {keys : List VhfKey} {name a b : WString} (hl : lane < vgunMaxLanes)
    (hu : Registered u.machine) (hname : LaneName lane name) (hkeys : Lists u keys)
    (hc : isCollision keys name lane (pinnedPrefix lane) = false) (ha : 0 ∉ a) (hb : 0 ∉ b)
    (hab : ¬ sameName a b) (hs : sameName a name = true) (h : HoldsPin u b lane) : SameLane a b := by
  have hbn : ¬ sameName b name = true := by
    intro hbn
    apply hab
    rw [sameName_iff] at hs hbn ⊢
    rw [hs, hbn]
  refine ⟨lane, hl, ?_, lane_of_holds hu hkeys hc hb hbn h⟩
  rw [isLaneKeyOf_congr ha hname.noNul hs]
  exact hname.suffix

theorem write_only {keys : List VhfKey} {o : Outcome} {r : Bool} (hl : lane < vgunMaxLanes)
    (hu : Registered u.machine) (hne : u.rootPrefix rootId ≠ []) (hkeys : Lists u keys)
    (hc : isCollision keys (laneKeyName (u.rootPrefix rootId) lane) lane (pinnedPrefix lane) = false)
    (h : exec (.regSetVhfPrefix (laneKeyName (u.rootPrefix rootId) lane) (pinnedPrefix lane)) o u =
      some (r, v)) : Registered v.machine ∧ OnlyLanes rootId u v := by
  have hname := laneName hl u rootId
  obtain ⟨-, hv⟩ | ⟨-, rfl⟩ := write_eq_some h
  rotate_left
  · exact ⟨hu, .refl _ _⟩
  obtain ⟨name, hn⟩ : ∃ name, name = laneKeyName (u.rootPrefix rootId) lane := ⟨_, rfl⟩
  rw [← hn] at hname hc hv
  have hvhf : v.machine.vhf = u.machine.vhf.map (withPinned name (pinnedPrefix lane)) := by rw [hv]
  have hroot : v.rootPrefix rootId = u.rootPrefix rootId := by rw [hv]; rfl
  have hunder : ∀ {other}, sameName other name = true → UnderRoot v rootId other := by
    intro other hs
    unfold UnderRoot
    rw [hroot]
    exact ⟨hne, lane, hl, hn ▸ hs⟩
  refine ⟨?_, fun _ => hroot, fun n hin => ?_, fun n hin => ?_, ?_⟩
  · rw [hv]
    exact registered_write hu name (pinnedPrefix lane)
  · by_cases hs : sameName n.name name = true
    · exact .inr (hunder hs)
    · left
      rw [hvhf]
      exact List.mem_map.mpr ⟨n, hin, by rw [withPinned, if_neg hs]⟩
  · rw [hvhf] at hin
    obtain ⟨m, hm, rfl⟩ := List.mem_map.mp hin
    by_cases hs : sameName m.name name = true
    · rw [withPinned_name]
      exact .inr (hunder hs)
    · rw [withPinned, if_neg hs]
      exact .inl hm
  · intro other ho a b ha hb hab hs hva hvb
    rcases holds_write hl hvhf ho hva with hua | ⟨rfl, hsa⟩ <;>
      rcases holds_write hl hvhf ho hvb with hub | ⟨he, hsb⟩
    · exact ⟨hua, hub⟩
    · subst he
      have hba : ¬ sameName b a = true := by
        rw [sameName_iff] at hab ⊢
        exact fun h => hab h.symm
      obtain ⟨l, hll, hbl, hal⟩ := sameLane_write ho hu hname hkeys hc hb ha hba hsb hua
      exact absurd ⟨l, hll, hal, hbl⟩ hs
    · exact absurd (sameLane_write ho hu hname hkeys hc ha hb hab hsa hub) hs
    · rw [sameName_iff] at hsa hsb hab
      exact absurd (hsa.trans hsb.symm) hab

end

/-! ## Every lane -/

/-- A node of the root's and names that name one thing. -/
structure Rooted (rootId : WString) (w : World) : Prop where
  registered : Registered w.machine
  root : w.HasRoot rootId

section
variable {rootId : WString} {lane : ℕ} {u v w : World}

theorem Rooted.of_machine (h : v.machine = u.machine) (hu : Rooted rootId u) : Rooted rootId v := by
  constructor
  · rw [h]
    exact hu.registered
  · unfold World.HasRoot
    rw [h]
    exact hu.root

theorem createOnce_only (hl : lane < vgunMaxLanes) (hu : Rooted rootId u) :
    wp safeExec (fun v => Rooted rootId v ∧ OnlyLanes rootId u v) (fun _ _ => True) (createOnce lane) u := by
  refine looks_frame safeExec_exec (createOnce_looks lane) (OnlyLanes.refl rootId) OnlyLanes.trans
    (fun hm hu => ⟨hu.of_machine hm, .of_machine hm⟩) (fun {o r u v} hu he => ?_) hu
  obtain ⟨hv, honly⟩ := start_only hl hu.registered hu.root he
  have hs : Spares rootId lane u v := start_spares (pinningExec_lanes _ _ _ _ (safeExec_sub _ _ _ _ he))
  exact ⟨⟨hv, hs.root hu.root⟩, honly⟩

theorem removeDeviceInstance_only (hl : lane < vgunMaxLanes) (hu : Rooted rootId u)
    (hne : u.rootPrefix rootId ≠ []) :
    wp safeExec (fun v => Rooted rootId v ∧ OnlyLanes rootId u v) (fun _ _ => True)
      (removeDeviceInstance (vhfInstanceId (laneKeyName (u.rootPrefix rootId) lane))) u := by
  have hlooks := removeDeviceInstance_looks (vhfInstanceId (laneKeyName (u.rootPrefix rootId) lane))
  have h := looks_frame safeExec_exec hlooks (w := u)
    (J := fun v => Rooted rootId v ∧ v.rootPrefix rootId = u.rootPrefix rootId) (OnlyLanes.refl rootId)
    OnlyLanes.trans (fun {v v'} hm hv => ?_) (fun {o r v v'} hv he => ?_) ⟨hu, rfl⟩
  · exact wp_mono (fun _ hv => ⟨hv.1.1, hv.2⟩) (fun _ _ _ hq => hq) h
  · have honly : OnlyLanes rootId v v' := .of_machine hm
    exact ⟨⟨hv.1.of_machine hm, (honly.rooted (by rwa [hv.2])).trans hv.2⟩, honly⟩
  · rw [← hv.2] at he
    obtain ⟨hv', honly⟩ := uninstall_only hl hv.1.registered hv.1.root (by rwa [hv.2]) he
    have hs : Spares rootId lane v v' := uninstall_spares (laneName hl v rootId)
      (pinningExec_lanes _ _ _ _ (safeExec_sub _ _ _ _ he))
    exact ⟨⟨⟨hv', hs.root hv.1.root⟩, (honly.rooted (by rwa [hv.2])).trans hv.2⟩, honly⟩

theorem pinLane_only (hl : lane < vgunMaxLanes) (rounds : ℕ) (hu : Rooted rootId u)
    (ho : OnlyLanes rootId w u) :
    wp safeExec (fun v => Rooted rootId v ∧ OnlyLanes rootId w v) (fun _ _ => True)
      (pinLane rootId lane rounds) u := by
  have hafter : ∀ {α : Type} {p : Flow α} {u : World}, OnlyLanes rootId w u →
      wp safeExec (fun v => Rooted rootId v ∧ OnlyLanes rootId u v) (fun _ _ => True) p u →
      wp safeExec (fun v => Rooted rootId v ∧ OnlyLanes rootId w v) (fun _ _ => True) p u := fun ho h =>
    wp_mono (fun _ hv => ⟨hv.1, ho.trans hv.2⟩) (fun _ _ _ hq => hq) h
  have hrule : wp safeExec (fun v => Rooted rootId v ∧ OnlyLanes rootId w v) (fun ok _ => ok = true → True)
      (pinLane rootId lane rounds) u := by
    apply pinLane_rule safeExec_sub hl (K := Lists)
    · exact readVhfKeys_spec
    · exact fun u hu => hafter hu.2 (createOnce_only hl hu.1)
    · exact fun u hu hne => hafter hu.2 (removeDeviceInstance_only hl hu.1 hne)
    · exact fun _ _ _ _ _ _ _ => trivial
    · intro u n keys hu hne hkeys _ _ hc
      refine ⟨hu, fun o r v he => ?_⟩
      have hx := safeExec_exec _ _ _ _ he
      obtain ⟨hv, honly⟩ := write_only hl hu.1.registered hne hkeys hc hx
      have hs : Spares rootId lane u v := write_spares (laneName hl u rootId) hx
      exact ⟨⟨⟨hv, hs.root hu.1.root⟩, hu.2.trans honly⟩, fun _ => trivial⟩
    · exact ⟨hu, ho⟩
  exact wp_post (fun _ _ _ _ => trivial) hrule

end

/-- The prefix of a live root node, or nothing. -/
def LivePrefix (w : World) (rootPrefix : WString) : Prop :=
  rootPrefix = [] ∨ ∃ d ∈ w.machine.devices, d.live = true ∧ rootPrefix = cStr d.parentIdPrefix

/-- From `w` to `w'` the lanes under the prefix were pinned, those that `each` says, and no other device
was touched. -/
structure PinnedSafely (w w' : World) (rootPrefix : WString) (each : List (ℕ × Bool)) : Prop where
  others : ∀ n, (n ∈ w'.machine.vhf ↔ n ∈ w.machine.vhf) ∨
    rootPrefix ≠ [] ∧ ∃ lane < vgunMaxLanes, sameName n.name (laneKeyName rootPrefix lane) = true
  pinned : ∀ lane, (lane, true) ∈ each → lane < vgunMaxLanes ∧ rootPrefix ≠ [] ∧
    ∃ n ∈ w'.machine.vhf, sameName n.name (laneKeyName rootPrefix lane) = true ∧
      n.installed = true ∧ sameId n.parentIdPrefix (pinnedPrefix lane) = true
  apart : ∀ lane other, (lane, true) ∈ each → (other, true) ∈ each → lane ≠ other →
    ∀ n ∈ w'.machine.vhf, ∀ m ∈ w'.machine.vhf, sameName n.name (laneKeyName rootPrefix lane) = true →
      sameName m.name (laneKeyName rootPrefix other) = true → ¬ sameId n.parentIdPrefix m.parentIdPrefix
  shared : ∀ lane < vgunMaxLanes, ∀ n ∈ w'.machine.vhf, ∀ m ∈ w'.machine.vhf, n.name ≠ m.name →
    ¬ SameLane n.name m.name → sameId n.parentIdPrefix (pinnedPrefix lane) = true →
      sameId m.parentIdPrefix (pinnedPrefix lane) = true → HoldsPin w n.name lane ∧ HoldsPin w m.name lane

section
variable {rootId : WString} {w w' : World} {each : List (ℕ × Bool)}

theorem pinnedSafely_refl (w : World) : PinnedSafely w w [] [] where
  others _ := .inl Iff.rfl
  pinned _ h := absurd h List.not_mem_nil
  apart _ _ h := absurd h List.not_mem_nil
  shared _ _ n hn m hm _ _ hpn hpm :=
    ⟨⟨n, hn, (sameName_iff _ _).mpr rfl, hpn⟩, m, hm, (sameName_iff _ _).mpr rfl, hpm⟩

theorem eq_of_sameName {m : Machine} (hm : Registered m) {n k : VhfNode} (hn : n ∈ m.vhf) (hk : k ∈ m.vhf)
    (h : sameName n.name k.name) : n = k := by
  rw [sameName_iff] at h
  exact List.inj_on_of_nodup_map hm.keys hn hk h

theorem OnlyLanes.pinnedSafely (h : OnlyLanes rootId w w') (hw' : Registered w'.machine)
    (hl : ∀ e ∈ each, e.1 < vgunMaxLanes) (hp : ∀ e ∈ each, e.2 = true → Pinned rootId e.1 w') :
    PinnedSafely w w' (w'.rootPrefix rootId) each where
  others n := by
    by_cases hu : UnderRoot w' rootId n.name
    · exact .inr hu
    · exact .inl ⟨fun hn => (h.after n hn).resolve_right hu, fun hn => (h.before n hn).resolve_right hu⟩
  pinned lane he := by
    obtain ⟨hne, n, hn, hi, hs⟩ := hp _ he rfl
    obtain ⟨hin, hname⟩ := vhfNode_eq_some hn
    exact ⟨hl _ he, hne, n, hin, hname, hi, hs⟩
  apart lane other he he' hne n hn m hm hnn hmn hs := by
    have hholds : ∀ {lane n}, (lane, true) ∈ each → n ∈ w'.machine.vhf →
        sameName n.name (laneKeyName (w'.rootPrefix rootId) lane) = true →
        foldCase n.parentIdPrefix = foldCase (pinnedPrefix lane) := by
      intro lane n he hn hnn
      obtain ⟨-, k, hk, -, hks⟩ := hp _ he rfl
      obtain ⟨hkin, hkn⟩ := vhfNode_eq_some hk
      have hsame : sameName n.name k.name = true := by
        rw [sameName_iff] at hnn hkn ⊢
        rw [hnn, hkn]
      rw [eq_of_sameName hw' hn hkin hsame]
      exact (sameName_iff _ _).mp hks
    apply hne
    apply (pinnedPrefix_spec other (hl _ he')).2.2 lane (hl _ he)
    unfold sameId at hs ⊢
    rw [sameName_iff] at hs ⊢
    rw [← hholds he hn hnn, hs, hholds he' hm hmn]
  shared lane hl n hn m hm hne hlane hpn hpm := by
    have hname : ¬ sameName n.name m.name = true := fun hs => hne (by rw [eq_of_sameName hw' hn hm hs])
    exact h.shared lane hl n.name m.name (hw'.named n hn) (hw'.named m hm) hname hlane
      ⟨n, hn, (sameName_iff _ _).mpr rfl, hpn⟩ ⟨m, hm, (sameName_iff _ _).mpr rfl, hpm⟩

theorem pinLanesEach_safe (hw : Registered w.machine) :
    wp safeExec (fun _ => True) (fun x w' => ∃ rootPrefix, LivePrefix w' rootPrefix ∧
      PinnedSafely w w' rootPrefix x.2) pinLanesEach w := by
  have hnone : ∃ rootPrefix, LivePrefix w rootPrefix ∧ PinnedSafely w w rootPrefix [] :=
    ⟨[], .inl rfl, pinnedSafely_refl w⟩
  have hopen : Effects (fun _ => False) (waitFor (attempt .winUHidGetDriverInterfaceVersion) 100) :=
    waitFor_calls (by simp [attempt, Prog.perform, Call.effect]) (by simp [Call.effect]) _
  refine wp_seq_of (fun _ _ => trivial) (wp_still safeExec_exec hopen w) ?_
  rintro opened _ rfl -
  refine wp_ite (fun _ => ?_) fun _ => ⟨trivial, hnone⟩
  refine wp_seq_of (fun _ _ => trivial) (liveRootInstanceId_spec safeExec_exec) ?_
  rintro rootId w rfl hroot
  refine wp_ite (fun _ => ⟨trivial, hnone⟩) fun hne => ?_
  have hroot := hroot.resolve_left hne
  have hlanes : ∀ lane ∈ List.range vgunMaxLanes, lane < vgunMaxLanes := fun _ => List.mem_range.mp
  have hkeeps : wp safeExec (fun v => Rooted rootId v ∧ OnlyLanes rootId w v) (fun _ _ => True)
      (pinEach rootId (List.range vgunMaxLanes)) w :=
    pinEach_keeps (fun lane hl u hu => pinLane_only (hlanes lane hl) 4 hu.1 hu.2)
      ⟨⟨hw, hroot⟩, .refl _ _⟩
  have hpinned := pinEach_pinned safeExec_sub hlanes List.nodup_range hroot
  refine wp_seq_of (fun _ _ => trivial) (wp_and hkeeps hpinned) ?_
  rintro each v ⟨hv, -⟩ ⟨-, hfst, hp⟩
  refine ⟨trivial, v.rootPrefix rootId, ?_, hv.2.pinnedSafely hv.1.registered (fun e he => ?_) hp⟩
  · obtain ⟨d, hd, hlive, hf⟩ := find_root hv.1.registered.nodes hv.1.root
    refine .inr ⟨d, hd, hlive, ?_⟩
    unfold World.rootPrefix
    rw [hf]
    rfl
  · refine hlanes e.1 ?_
    rw [← hfst]
    exact List.mem_map_of_mem he

/-- `PinLanes` leaves the keys of other devices alone, and pins the lanes that it counts as pinned. -/
theorem pinLanes_safe {pins : PinSummary} (hw : Registered w.machine)
    (hs : Steps safeExec pinLanes w (.ret pins) w') :
    ∃ each rootPrefix, Steps safeExec pinLanesEach w (.ret (pins, each)) w' ∧
      LivePrefix w' rootPrefix ∧ PinnedSafely w w' rootPrefix each := by
  rw [pinLanes_eq] at hs
  obtain ⟨x, v, hx, hend⟩ := hs.of_bind
  cases hend
  obtain ⟨rootPrefix, hlive, hsafe⟩ := hx.post (pinLanesEach_safe hw)
  exact ⟨x.2, rootPrefix, hx, hlive, hsafe⟩

end

/-! ## A PC with lanes and another VHF device -/

/-- A key that PnP has installed. -/
def installedKey (name : WString) (parentIdPrefix : String) : VhfNode :=
  ⟨name, wide parentIdPrefix, wide "{745a17a0-74d3-11d0-b6fe-00a0c90f57da}\\0000", 0⟩

/-- Every lane's key, with prefixes that PnP generated, and one that is not ours. -/
def lanesPc : World :=
  { newMachine with machine := { newMachine.machine with
    devices := [⟨wide "ROOT\\SYSTEM\\0001", hardwareId, true, none, wide "1&39b203ef&4"⟩]
    vhf := installedKey (wide "1&39b203ef&0&{8317515c}") "2&1&0" ::
      (List.range vgunMaxLanes).map fun lane => installedKey (laneKeyName (wide "1&39b203ef&4") lane) "2&33377591&0" } }
where
  newMachine : World := ⟨none, fun _ => [], ⟨[], 0, []⟩, [], ⟨[], [], [], []⟩⟩

theorem lanesPc_registered : Registered lanesPc.machine := by
  refine ⟨?_, ?_, ?_⟩ <;> decide +kernel

theorem pinLanes_safe_lanes : ∃ w' each rootPrefix, Steps safeExec pinLanesEach lanesPc
    (.ret (⟨false, 0⟩, each)) w' ∧ LivePrefix w' rootPrefix ∧ PinnedSafely lanesPc w' rootPrefix each := by
  have hplay : pinLanes.endsWith safeExec (fun _ => .ok) (fun pins _ => pins == ⟨false, 0⟩) lanesPc = true := by
    decide +kernel
  obtain ⟨pins, w', hs, hpins⟩ := Prog.endsWith_steps hplay
  rw [beq_iff_eq] at hpins
  subst hpins
  exact ⟨w', pinLanes_safe lanesPc_registered hs⟩

end VirtualGun.Setup
