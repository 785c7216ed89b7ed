import VirtualGun.Setup.Signing
import VirtualGun.Setup.Runs

/-!
# A reinstall before the next start

What `RemoveInstallDir` cannot delete it schedules for the next start, by its path. The start deletes
whatever is there by then.
-/

open VirtualGun.Program

namespace VirtualGun.Setup

/-! ## Paths -/

/-- The separators of `path::operator/`. -/
def isSeparator (c : UInt16) : Bool := c == 92 || c == 47 || c == 58

/-- The end of a path behind its last separator. -/
def leaf (path : WString) : WString := (path.reverse.takeWhile fun c => !isSeparator c).reverse

theorem leaf_append {a : WString} (b : WString) (h : a = [] ∨ ∃ s c, a = s ++ [c] ∧ isSeparator c = true) :
    leaf (a ++ b) = leaf b := by
  unfold leaf
  rw [List.reverse_append, List.takeWhile_append]
  split
  · next hall =>
    have hb : (b.reverse.takeWhile fun c => !isSeparator c) = b.reverse :=
      (List.takeWhile_prefix _).eq_of_length hall
    rw [hb]
    rcases h with rfl | ⟨s, c, rfl, hc⟩
    · simp
    · simp [hc]
  · rfl

theorem foldCase_joinPath {dir : WString} (hd : 0 ∉ dir) (rel : WString) :
    ∃ a, foldCase (joinPath dir rel) = a ++ foldCase rel ∧ (foldCase dir).length ≤ a.length ∧
      (a = [] ∨ ∃ s c, a = s ++ [c] ∧ isSeparator c = true) := by
  unfold joinPath
  split
  · next hlast =>
    refine ⟨foldCase dir, foldCase_append _ hd, le_refl _, ?_⟩
    unfold foldCase
    rw [cStr_of_no_nul hd]
    rcases List.eq_nil_or_concat dir with rfl | ⟨s, c, rfl⟩
    · exact .inl rfl
    · right
      simp only [List.concat_eq_append, List.getLast?_append, List.getLast?_singleton, Option.some_or,
        Option.all_some] at hlast
      refine ⟨s.map toLower, toLower c, by simp, ?_⟩
      simp only [Bool.or_eq_true, beq_iff_eq] at hlast
      rcases hlast with (rfl | rfl) | rfl <;> decide
  · refine ⟨foldCase dir ++ [92], ?_, by simp, .inr ⟨foldCase dir, 92, rfl, rfl⟩⟩
    rw [List.append_assoc, foldCase_append _ hd, List.append_assoc]
    rfl

theorem joinPath_payload {dir dir' rel rel' : WString} (hd : 0 ∉ dir) (hd' : 0 ∉ dir')
    (hr : rel ∈ payloadFiles) (hr' : rel' ∈ payloadFiles)
    (h : sameName (joinPath dir rel) (joinPath dir' rel') = true) : rel = rel' := by
  have hleaf : ∀ rel ∈ payloadFiles, ∀ rel' ∈ payloadFiles,
      leaf (foldCase rel) = leaf (foldCase rel') → rel = rel' := by decide +kernel
  obtain ⟨a, ha, -, hsep⟩ := foldCase_joinPath hd rel
  obtain ⟨b, hb, -, hsep'⟩ := foldCase_joinPath hd' rel'
  apply hleaf rel hr rel' hr'
  rw [sameName_iff, ha, hb] at h
  rw [← leaf_append _ hsep, h, leaf_append _ hsep']

theorem length_payload : ∀ rel ∈ payloadFiles, 4 < (foldCase rel).length ∧
    ¬ foldCase (wide ".old") <:+ foldCase rel := by decide +kernel

theorem joinPath_not_old {dir rel path : WString} (hd : 0 ∉ dir) (hr : rel ∈ payloadFiles) (hp : 0 ∉ path) :
    ¬ sameName (path ++ wide ".old") (joinPath dir rel) = true := by
  obtain ⟨a, ha, -, -⟩ := foldCase_joinPath hd rel
  obtain ⟨hlen, hold⟩ := length_payload rel hr
  rw [sameName_iff, foldCase_append _ hp, ha]
  intro h
  apply hold
  have hsuffix : foldCase (wide ".old") <:+ a ++ foldCase rel := ⟨_, h⟩
  refine List.suffix_of_suffix_length_le hsuffix (List.suffix_append _ _) ?_
  exact Nat.le_of_lt hlen

theorem joinPath_not_dir {dir rel : WString} (hd : 0 ∉ dir) (hr : rel ∈ payloadFiles) :
    ¬ sameName dir (joinPath dir rel) = true := by
  obtain ⟨a, ha, hle, -⟩ := foldCase_joinPath hd rel
  rw [sameName_iff, ha]
  intro h
  have hlen := congrArg List.length h
  rw [List.length_append] at hlen
  have hrel := (length_payload rel hr).1
  omega

/-! ## The next start -/

/-- What Windows does at the next start. -/
def Machine.restart (m : Machine) : Machine := m.delayed.foldl Machine.deleteFile { m with delayed := [] }

/-- Some scheduled deletion is of the path. -/
def Scheduled (path : WString) (m : Machine) : Prop := ∃ s ∈ m.delayed, sameName s path = true

section
variable {m : Machine} {path q : WString}

theorem fileAt_deleteFile (h : ¬ sameName path q = true) : (m.deleteFile path).fileAt q = m.fileAt q := by
  unfold Machine.deleteFile Machine.fileAt
  rw [List.find?_filter]
  congr 1
  funext f
  have hboth : sameName f.path path = true → sameName f.path q = true → False := by
    intro hp hq
    apply h
    rw [sameName_iff] at hp hq ⊢
    rw [← hp, hq]
  cases hp : sameName f.path path <;> cases hq : sameName f.path q <;> simp_all

theorem fileAt_deleteFile_gone (h : sameName path q = true) : (m.deleteFile path).fileAt q = none := by
  unfold Machine.deleteFile Machine.fileAt
  rw [List.find?_eq_none]
  intro f hf hq
  have hne := (List.mem_filter.mp hf).2
  rw [Bool.not_eq_true', ← Bool.not_eq_true] at hne
  apply hne
  rw [sameName_iff] at h hq ⊢
  rw [hq, h]

theorem fileAt_deletions (paths : List WString) (m : Machine) (q : WString) :
    ((∀ s ∈ paths, ¬ sameName s q = true) → (paths.foldl Machine.deleteFile m).fileAt q = m.fileAt q) ∧
    ((∃ s ∈ paths, sameName s q = true) → (paths.foldl Machine.deleteFile m).fileAt q = none) := by
  induction paths generalizing m with
  | nil => exact ⟨fun _ => rfl, fun ⟨_, hs, _⟩ => absurd hs List.not_mem_nil⟩
  | cons s paths ih =>
    obtain ⟨hkeep, hgone⟩ := ih (m.deleteFile s)
    constructor
    · intro h
      have hrest := hkeep fun t ht => h t (List.mem_cons_of_mem _ ht)
      exact hrest.trans (fileAt_deleteFile (h s List.mem_cons_self))
    · rintro ⟨t, ht, hq⟩
      by_cases hrest : ∃ t ∈ paths, sameName t q = true
      · exact hgone hrest
      · have hnone : ∀ t ∈ paths, ¬ sameName t q = true := fun t ht hq => hrest ⟨t, ht, hq⟩
        rcases List.mem_cons.mp ht with rfl | ht
        · exact (hkeep hnone).trans (fileAt_deleteFile_gone hq)
        · exact absurd hq (hnone t ht)

theorem fileAt_restart (h : ¬ Scheduled q m) : m.restart.fileAt q = m.fileAt q :=
  (fileAt_deletions m.delayed { m with delayed := [] } q).1 fun s hs hq => h ⟨s, hs, hq⟩

theorem fileAt_restart_gone (h : Scheduled q m) : m.restart.fileAt q = none :=
  (fileAt_deletions m.delayed { m with delayed := [] } q).2 h

theorem fileAt_putFile_other {f : File} (h : ¬ sameName f.path q = true) : (m.putFile f).fileAt q = m.fileAt q := by
  have hq := fileAt_deleteFile (m := m) h
  unfold Machine.putFile Machine.fileAt at *
  rw [List.find?_cons_of_neg (by simpa using h)]
  exact hq

end

/-! ## The copy -/

/-- The file is there with the content that it has in the release folder. -/
def Copied (source dir rel : WString) (w w' : World) : Prop :=
  ∃ g f, w.machine.fileAt (joinPath source rel) = some g ∧
    w'.machine.fileAt (joinPath dir rel) = some f ∧ f.content = g.content

section
variable {source dir : WString} {w : World}

theorem copyFiles_copied (hs : 0 ∉ source) (hd : 0 ∉ dir) {rels : List WString} (hsub : rels ⊆ payloadFiles)
    (hnodup : rels.Nodup) (w : World) :
    wp exec (fun _ => True) (fun ok w' => w'.machine.delayed = w.machine.delayed ∧
        (∀ q, (∀ rel ∈ rels, ¬ sameName (joinPath dir rel) q = true) →
          w'.machine.fileAt q = w.machine.fileAt q) ∧
        (ok = true → ∀ rel ∈ rels, Copied source dir rel w w'))
      (copyFiles source dir rels) w := by
  induction rels generalizing w with
  | nil => exact ⟨trivial, rfl, fun _ _ => rfl, fun _ _ hr => absurd hr List.not_mem_nil⟩
  | cons rel rels ih =>
    simp only [copyFiles, perform, Prog.perform_bind]
    refine ⟨trivial, fun o r v he => ?_⟩
    obtain ⟨hnotin, hnodup⟩ := List.nodup_cons.mp hnodup
    have hrel : rel ∈ payloadFiles := hsub List.mem_cons_self
    have hsub : rels ⊆ payloadFiles := fun _ hr => hsub (List.mem_cons_of_mem _ hr)
    -- The rest of the files are others, here and in the release folder.
    have hother : ∀ rel' ∈ rels, ∀ {d}, 0 ∉ d → ¬ sameName (joinPath dir rel) (joinPath d rel') = true := by
      intro rel' hr d hnul hsame
      obtain rfl := joinPath_payload hd hnul hrel (hsub hr) hsame
      exact hnotin hr
    simp only [exec] at he
    split at he
    · next f hf =>
      simp only [Option.some.injEq, Prod.mk.injEq] at he
      obtain ⟨rfl, rfl⟩ := he
      have hput : ((w.machine.putFile { f with path := joinPath dir rel }).fileAt (joinPath dir rel)) =
          some { f with path := joinPath dir rel } := Machine.fileAt_putFile _ (by simp)
      refine wp_ite (fun _ => ?_) fun h => absurd rfl h
      refine wp_post (fun ok w' _ hw' => ?_) (ih hsub hnodup _)
      obtain ⟨hdelayed, hkeep, hcopied⟩ := hw'
      refine ⟨hdelayed, fun q hq => ?_, fun hok rel' hr => ?_⟩
      · rw [hkeep q fun rel' hr => hq rel' (List.mem_cons_of_mem _ hr)]
        exact fileAt_putFile_other (hq rel List.mem_cons_self)
      · rcases List.mem_cons.mp hr with rfl | hr
        · refine ⟨f, { f with path := joinPath dir rel' }, hf, ?_, rfl⟩
          rw [hkeep _ fun rel₂ hr₂ hsame => hother rel₂ hr₂ hd ?_]
          · exact hput
          · rw [sameName_iff] at hsame ⊢
            exact hsame.symm
        · obtain ⟨g, f', hg, hf', hcontent⟩ := hcopied hok rel' hr
          refine ⟨g, f', ?_, hf', hcontent⟩
          rw [← hg]
          exact (fileAt_putFile_other (hother rel' hr hs)).symm
    · simp only [Option.some.injEq, Prod.mk.injEq] at he
      obtain ⟨rfl, rfl⟩ := he
      exact ⟨trivial, rfl, fun _ _ => rfl, fun h => (by cases h)⟩
    · cases he

theorem copyPayload_copied (hs : 0 ∉ source) (hd : 0 ∉ dir) (w : World) :
    wp exec (fun _ => True) (fun ok w' => w'.machine.delayed = w.machine.delayed ∧
        (ok = true → ∀ rel ∈ payloadFiles, Copied source dir rel w w'))
      (copyPayload source dir) w := by
  simp only [copyPayload, attempt, perform, Prog.perform_bind]
  apply wp_attempt trivial
  intro _
  refine wp_ite (fun _ => ⟨trivial, rfl, fun h => (by cases h)⟩) fun _ => ?_
  apply wp_attempt trivial
  intro _
  refine wp_ite (fun _ => ?_) fun _ => ⟨trivial, rfl, fun h => (by cases h)⟩
  refine wp_post (fun ok w' _ hw' => ⟨hw'.1, hw'.2.2⟩) (copyFiles_copied hs hd (List.Subset.refl _) ?_ w)
  decide +kernel

end

/-! ## The removal -/

/-- The deletion that a call schedules. -/
def scheduled : Call × Outcome → Option WString
  | (.moveFileDelayed path, .ok) => some path
  | _ => none

/-- The file could neither be deleted nor renamed aside, and was scheduled where it is. -/
def StuckAt (path : WString) (l : Log Call Outcome) : Prop :=
  (.deleteFile path, .fail) ∈ l ∧ (.moveFile path (path ++ wide ".old"), .fail) ∈ l ∧
    (.moveFileDelayed path, .ok) ∈ l

/-- A log whose scheduled deletions are those of `RemoveInstallDir`. -/
def Explained (dir : WString) (l : Log Call Outcome) : Prop :=
  ∀ path, (.moveFileDelayed path, .ok) ∈ l →
    path = dir ∨ (∃ p, 0 ∉ p ∧ path = p ++ wide ".old") ∨ StuckAt path l

section
variable {dir path : WString} {l m : Log Call Outcome} {x : World × Log Call Outcome}

theorem StuckAt.mono (h : StuckAt path m) (hs : m ⊆ l) : StuckAt path l :=
  ⟨hs h.1, hs h.2.1, hs h.2.2⟩

theorem Explained.append (h : Explained dir l) (h' : Explained dir m) : Explained dir (l ++ m) := by
  intro path hp
  rcases List.mem_append.mp hp with hp | hp
  · exact (h path hp).imp_right fun h => h.imp_right fun h => h.mono (List.subset_append_left _ _)
  · exact (h' path hp).imp_right fun h => h.imp_right fun h => h.mono (List.subset_append_right _ _)

theorem explained_of_none (h : ∀ e ∈ l, ∀ path, e.1 ≠ .moveFileDelayed path) : Explained dir l :=
  fun path hp => absurd rfl (h _ hp path)

theorem exec_delayed {c : Call} {o : Outcome} {r : c.Resp} {w w' : World}
    (hc : ∀ e, c.effect = some e → e = .files) (he : exec c o w = some (r, w')) :
    w'.machine.delayed = w.machine.delayed ++ (scheduled (c, o)).toList := by
  cases heff : c.effect with
  | none =>
    have hf := exec_frame he
    rw [heff] at hf
    have hw : w' = w := (hf.mono fun e he => (by cases he) : Frame (fun _ => False) w w').eq
    have hnone : scheduled (c, o) = none := by
      cases c <;> first | rfl | cases heff
    rw [hw, hnone, Option.toList_none, List.append_nil]
  | some e =>
    obtain rfl := hc e heff
    cases c <;> simp only [Call.effect, Option.some.injEq, reduceCtorEq] at heff
    case moveFileDelayed path =>
      obtain ⟨rfl, -, rfl⟩ | ⟨rfl, -, rfl⟩ := tried_eq_some.mp he
      · rfl
      · simp [scheduled]
    case deleteFile path =>
      obtain ⟨-, -, rfl⟩ | ⟨-, -, rfl⟩ := tried_eq_some.mp he <;>
        simp [scheduled, Machine.deleteFile]
    all_goals
      simp only [exec] at he
      repeat' split at he
      all_goals cases he
      all_goals simp [scheduled, Machine.putFile, Machine.deleteFile]

theorem wp_delayed {α : Type} {p : Flow α} (hp : Effects (· = .files) p) (x : World × Log Call Outcome) :
    wp exec.logged (fun _ => True) (fun _ y => ∃ m, y.2 = x.2 ++ m ∧
      y.1.machine.delayed = x.1.machine.delayed ++ m.filterMap scheduled) p x := by
  induction p generalizing x with
  | ret a => exact ⟨trivial, [], by simp⟩
  | call c k ih =>
    refine ⟨trivial, fun o r y he => ?_⟩
    obtain ⟨v, hv, rfl⟩ := Exec.logged_eq_some.mp he
    have hdelayed := exec_delayed hp.1 hv
    refine wp_post (fun _ z _ hz => ?_) (ih r (hp.2 r trivial) (v, x.2 ++ [(c, o)]))
    obtain ⟨m, hm, hz⟩ := hz
    refine ⟨(c, o) :: m, by rw [hm, List.append_assoc]; rfl, ?_⟩
    rw [hz, hdelayed, List.append_assoc]
    cases hs : scheduled (c, o) <;> simp [hs]

/-- What a program adds to a log is explained. -/
abbrev Explains {α : Type} (dir : WString) (p : Flow α) (x : World × Log Call Outcome) : Prop :=
  wp exec.logged (fun _ => True) (fun _ y => ∃ m, y.2 = x.2 ++ m ∧ Explained dir m) p x

theorem explains_of_calls {α : Type} {p : Flow α}
    (hp : p.Calls (fun c => ∀ path, c ≠ .moveFileDelayed path) fun _ _ => True) :
    Explains dir p x := by
  refine wp_post (fun _ y _ hy => ?_) (wp_log_calls hp (wp_true p x.1))
  obtain ⟨-, m, hm, hcalls⟩ := hy
  exact ⟨m, hm, explained_of_none hcalls⟩

theorem explains_after {α : Type} {p : Flow α} {y : World × Log Call Outcome} (hm : y.2 = x.2 ++ m)
    (he : Explained dir m) (hp : Explains dir p y) :
    wp exec.logged (fun _ => True) (fun _ z => ∃ m, z.2 = x.2 ++ m ∧ Explained dir m) p y := by
  refine wp_post (fun _ z _ hz => ?_) hp
  obtain ⟨m', hm', he'⟩ := hz
  exact ⟨m ++ m', by rw [hm', hm, List.append_assoc], he.append he'⟩

theorem explains_seq {α β : Type} {p : Flow α} {f : α → Flow β} (hp : Explains dir p x)
    (hf : ∀ a y, Explains dir (f a) y) : Explains dir (p >>= f) x := by
  refine wp_seq hp fun a y _ hy => ?_
  obtain ⟨m, hm, he⟩ := hy
  exact explains_after hm he (hf a y)

/-- A file in use is renamed aside, or it is stuck. -/
theorem deleteFile_explains (hp : 0 ∉ path) (x : World × Log Call Outcome) :
    Explains dir (do if ← perform (.deleteFile path) then return () else moveAside path) x := by
  simp only [moveAside, perform, Prog.perform_bind]
  refine ⟨trivial, fun o r y he => ?_⟩
  obtain ⟨v, hv, rfl⟩ := Exec.logged_eq_some.mp he
  refine wp_ite (fun _ => ⟨trivial, _, rfl, explained_of_none (by simp)⟩) fun hr => ?_
  obtain ⟨-, rfl, -⟩ | ⟨rfl, -, -⟩ := tried_eq_some.mp hv
  · exact absurd rfl hr
  refine ⟨trivial, fun o' r' z he' => ?_⟩
  obtain ⟨u, hu, rfl⟩ := Exec.logged_eq_some.mp he'
  refine wp_ite (fun _ => ?_) fun hr' => ?_
  · refine ⟨trivial, fun o₂ r₂ z₂ he₂ => ?_⟩
    obtain ⟨u₂, -, rfl⟩ := Exec.logged_eq_some.mp he₂
    refine ⟨trivial, [(.deleteFile path, .fail), (.moveFile path (path ++ wide ".old"), o'),
      (.moveFileDelayed (path ++ wide ".old"), o₂)], by simp, fun q hq => ?_⟩
    simp only [List.mem_cons, Prod.mk.injEq, reduceCtorEq, false_and, false_or, Call.moveFileDelayed.injEq,
      List.not_mem_nil, or_false] at hq
    exact .inr (.inl ⟨path, hp, hq.1⟩)
  · have ho' : o' = .fail := by
      simp only [exec] at hu
      split at hu
      · simp only [Option.some.injEq, Prod.mk.injEq] at hu
        exact absurd hu.1.symm hr'
      · rfl
      · cases hu
    refine ⟨trivial, fun o₂ r₂ z₂ he₂ => ?_⟩
    obtain ⟨u₂, -, rfl⟩ := Exec.logged_eq_some.mp he₂
    refine ⟨trivial, [(.deleteFile path, .fail), (.moveFile path (path ++ wide ".old"), o'),
      (.moveFileDelayed path, o₂)], by simp, fun q hq => .inr (.inr ?_)⟩
    simp only [List.mem_cons, Prod.mk.injEq, reduceCtorEq, false_and, false_or, Call.moveFileDelayed.injEq,
      List.not_mem_nil, or_false] at hq
    obtain ⟨rfl, rfl⟩ := hq
    rw [ho']
    exact ⟨by simp, by simp, by simp⟩

theorem deleteFiles_explains {paths : List WString} (h : ∀ path ∈ paths, 0 ∉ path)
    (x : World × Log Call Outcome) : Explains dir (deleteFiles paths) x := by
  induction paths generalizing x with
  | nil => exact ⟨trivial, [], by simp, explained_of_none (by simp)⟩
  | cons path paths ih =>
    have ih := ih fun p hp => h p (List.mem_cons_of_mem _ hp)
    have hone : deleteFiles (path :: paths) = if isOld path then deleteFiles paths else
        (do if ← perform (.deleteFile path) then return () else moveAside path) >>= fun _ =>
          deleteFiles paths := by
      simp only [deleteFiles, perform, Prog.perform_bind]
      split
      · rfl
      · simp only [Prog.call_bind]
        congr 1
        funext r
        cases r <;> rfl
    rw [hone]
    exact wp_ite (fun _ => ih x) fun _ =>
      explains_seq (deleteFile_explains (h path List.mem_cons_self) x) fun _ y => ih y

theorem deleteOld_calls (paths : List WString) :
    (deleteOld paths).Calls (fun c => ∀ path, c ≠ .moveFileDelayed path) fun _ _ => True := by
  induction paths with
  | nil => trivial
  | cons path paths ih =>
    exact Prog.calls_ite (fun _ => ⟨fun _ h => (by cases h), fun _ _ => ih⟩) fun _ => ih

theorem regularFiles_calls (paths : List WString) :
    (regularFiles paths).Calls (fun c => ∀ path, c ≠ .moveFileDelayed path) fun _ _ => True := by
  induction paths with
  | nil => trivial
  | cons path paths ih =>
    simp only [regularFiles, attempt, perform, Prog.perform_bind, Prog.calls_call]
    exact ⟨fun _ h => (by cases h), fun _ _ => Prog.calls_bind ih fun _ => trivial⟩

theorem regularFiles_subset {can : (c : Call) → c.Resp → Prop} (paths : List WString) :
    (regularFiles paths).Ends (· ⊆ paths) can := by
  induction paths with
  | nil => exact List.Subset.refl _
  | cons path paths ih =>
    simp only [regularFiles, attempt, perform, Prog.perform_bind, Prog.ends_call]
    refine fun regular _ => Prog.ends_bind ih fun files hfiles => ?_
    change (if regular = true then path :: files else files) ⊆ path :: paths
    split
    · exact List.cons_subset_cons _ hfiles
    · exact List.subset_cons_of_subset _ hfiles

theorem removeFolders_explains (x : World × Log Call Outcome) :
    Explains dir (do
      let _ ← attempt (.remove (joinPath dir (wide "driver")))
      if ← attempt (.removeDirectory dir) then return ()
      else
        let _ ← perform (.moveFileDelayed dir)) x := by
  simp only [attempt, perform, Prog.perform_bind]
  refine ⟨trivial, fun o r y he => ?_⟩
  obtain ⟨v, -, rfl⟩ := Exec.logged_eq_some.mp he
  refine ⟨trivial, fun o' r' y he => ?_⟩
  obtain ⟨v, -, rfl⟩ := Exec.logged_eq_some.mp he
  refine wp_ite (fun _ => ⟨trivial, _, List.append_assoc _ _ _, explained_of_none (by simp)⟩) fun _ => ?_
  refine ⟨trivial, fun o₂ r₂ y he => ?_⟩
  obtain ⟨v, -, rfl⟩ := Exec.logged_eq_some.mp he
  refine ⟨trivial, [(.attempt (.remove (joinPath dir (wide "driver"))), o), (.attempt (.removeDirectory dir), o'),
    (.moveFileDelayed dir, o₂)], by simp, fun path hp => .inl ?_⟩
  simp only [List.mem_cons, Prod.mk.injEq, reduceCtorEq, false_and, false_or, Call.moveFileDelayed.injEq,
    List.not_mem_nil, or_false] at hp
  exact hp.1

theorem removeInstallDir_explains (hw : ∀ f ∈ x.1.machine.files, 0 ∉ f.path) :
    Explains dir (removeInstallDir dir) x := by
  simp only [removeInstallDir, perform, Prog.perform_bind]
  refine ⟨trivial, fun o r y he => ?_⟩
  obtain ⟨v, hv, rfl⟩ := Exec.logged_eq_some.mp he
  cases r with
  | none => exact ⟨trivial, fun o r y he => r.elim⟩
  | some entries =>
    have hentries : ∀ path ∈ entries, 0 ∉ path := by
      simp only [exec] at hv
      split at hv <;> simp only [Option.some.injEq, Prod.mk.injEq, reduceCtorEq, false_and] at hv
      · intro path hp
        rw [← hv.1] at hp
        obtain ⟨f, hf, rfl⟩ := List.mem_map.mp (List.mem_filter.mp hp).1
        exact hw f hf
      · rw [← hv.1]
        exact fun path hp => absurd hp List.not_mem_nil
    have hiter : Explained dir [(.recursiveDirectoryIterator dir, o)] := explained_of_none (by simp)
    refine explains_after rfl hiter ?_
    have hregular : Explains dir (regularFiles entries) (v, x.2 ++ [(.recursiveDirectoryIterator dir, o)]) :=
      explains_of_calls (regularFiles_calls entries)
    have hsub : (regularFiles entries).Ends (· ⊆ entries) exec.logged.Answers := regularFiles_subset entries
    refine wp_seq_of (fun _ _ => trivial) (wp_and hregular (wp_ends hsub _)) ?_
    rintro files z - ⟨⟨m, hm, hexplained⟩, hfiles⟩
    refine explains_after hm hexplained (explains_seq (explains_of_calls (deleteOld_calls files)) fun _ z => ?_)
    refine explains_seq (deleteFiles_explains (fun path hp => hentries path (hfiles hp)) z) fun _ z => ?_
    exact removeFolders_explains z

end

/-! ## The reinstall -/

/-- The file could neither be deleted nor renamed aside, and was scheduled, under some spelling of the path. -/
def Stuck (path : WString) (l : Log Call Outcome) : Prop :=
  ∃ p, sameName p path = true ∧ StuckAt p l

/-- After the restart every payload file is there, with the content of the release folder. -/
def Survives (source dir : WString) (w w' : World) : Prop :=
  ∀ rel ∈ payloadFiles, ∃ g f, w.machine.fileAt (joinPath source rel) = some g ∧
    w'.machine.restart.fileAt (joinPath dir rel) = some f ∧ f.content = g.content

section
variable {source dir : WString} {w w₁ v w₂ : World} {l : Log Call Outcome}

/-- After `RemoveInstallDir`, a payload file is scheduled for deletion only if it was before, or is stuck. -/
theorem scheduled_iff (hd : 0 ∉ dir) (hw : ∀ f ∈ w.machine.files, 0 ∉ f.path)
    (hs : Steps exec.logged (removeInstallDir dir) (w, []) (.ret ()) (w₁, l)) {rel : WString}
    (hr : rel ∈ payloadFiles) :
    Scheduled (joinPath dir rel) w₁.machine ↔
      Scheduled (joinPath dir rel) w.machine ∨ Stuck (joinPath dir rel) l := by
  obtain ⟨m, hm, hdelayed⟩ := hs.post (wp_delayed (removeInstallDir_effects (by rfl) dir) (w, []))
  obtain ⟨m', hm', hexplained⟩ := hs.post (removeInstallDir_explains (x := (w, [])) hw)
  obtain rfl : l = m := hm
  obtain rfl : l = m' := hm'
  have hmem : ∀ path, path ∈ l.filterMap scheduled ↔ (.moveFileDelayed path, .ok) ∈ l := by
    intro path
    rw [List.mem_filterMap]
    constructor
    · rintro ⟨⟨c, o⟩, he, hs⟩
      unfold scheduled at hs
      split at hs
      · next heq =>
        rw [heq] at he
        rw [← Option.some.inj hs]
        exact he
      · cases hs
    · exact fun he => ⟨_, he, rfl⟩
  unfold Scheduled
  rw [hdelayed]
  constructor
  · rintro ⟨s, hin, hsame⟩
    rcases List.mem_append.mp hin with hin | hin
    · exact .inl ⟨s, hin, hsame⟩
    · rcases hexplained s ((hmem s).mp hin) with rfl | ⟨p, hp, rfl⟩ | hstuck
      · exact absurd hsame (joinPath_not_dir hd hr)
      · exact absurd hsame (joinPath_not_old hd hr hp)
      · exact .inr ⟨s, hsame, hstuck⟩
  · rintro (⟨s, hin, hsame⟩ | ⟨p, hsame, hstuck⟩)
    · exact ⟨s, List.mem_append_left _ hin, hsame⟩
    · exact ⟨p, List.mem_append_right _ ((hmem p).mpr hstuck.2.2), hsame⟩

/-- A reinstall before the next start is safe exactly where no payload file was scheduled in its place. -/
theorem reinstall_survives (hd : 0 ∉ dir) (hsource : 0 ∉ source) (hw : ∀ f ∈ w.machine.files, 0 ∉ f.path)
    (hremove : Steps exec.logged (removeInstallDir dir) (w, []) (.ret ()) (w₁, l))
    (hv : v.machine.delayed = w₁.machine.delayed)
    (hcopy : Steps exec (copyPayload source dir) v (.ret true) w₂) :
    Survives source dir v w₂ ↔ ∀ rel ∈ payloadFiles,
      ¬ Scheduled (joinPath dir rel) w.machine ∧ ¬ Stuck (joinPath dir rel) l := by
  obtain ⟨hdelayed, hcopied⟩ := hcopy.post (copyPayload_copied hsource hd v)
  have hscheduled : ∀ rel ∈ payloadFiles, Scheduled (joinPath dir rel) w₂.machine ↔
      Scheduled (joinPath dir rel) w.machine ∨ Stuck (joinPath dir rel) l := by
    intro rel hr
    rw [← scheduled_iff hd hw hremove hr]
    unfold Scheduled
    rw [hdelayed, hv]
  constructor
  · intro h rel hr
    rw [← not_or, ← hscheduled rel hr]
    intro hgone
    obtain ⟨g, f, -, hf, -⟩ := h rel hr
    rw [fileAt_restart_gone hgone] at hf
    cases hf
  · intro h rel hr
    obtain ⟨g, f, hg, hf, hcontent⟩ := hcopied rfl rel hr
    refine ⟨g, f, hg, ?_, hcontent⟩
    rw [fileAt_restart, hf]
    rw [hscheduled rel hr, not_or]
    exact h rel hr

end

/-! ## A file that was in use -/

def installedDir : WString := wide "P"

/-- An installed PC with the release folder beside it. -/
def installedPc : World :=
  { newPc with machine := { newPc.machine with files := unzipped [2] ++
      (payloadFiles.map fun rel => ⟨joinPath installedDir rel, [1], none⟩) } }

/-- The installer is in use: it cannot be deleted, and is renamed with this outcome. -/
def installerInUse (rename : Outcome) : Call → Outcome
  | .deleteFile path => if path = joinPath installedDir (wide "vrlf-virtual-gun-setup.exe") then .fail else .ok
  | .moveFile _ _ => rename
  | .attempt (.equivalent _ _) | .attempt (.removeDirectory _) => .fail
  | _ => .ok

/-- The world after a removal and a copy with these outcomes. -/
def removeThenCopy (rename : Outcome) (check : World × Log Call Outcome → World → Bool) : Bool :=
  (removeInstallDir installedDir).endsWith exec.logged (installerInUse rename) (fun _ x =>
    (copyPayload releaseDir installedDir).endsWith exec (installerInUse rename)
      (fun ok w => ok && check x w) x.1) (installedPc, [])

theorem removeThenCopy_steps {rename : Outcome} {check : World × Log Call Outcome → World → Bool}
    (h : removeThenCopy rename check = true) :
    ∃ x w₂, Steps exec.logged (removeInstallDir installedDir) (installedPc, []) (.ret ()) x ∧
      Steps exec (copyPayload releaseDir installedDir) x.1 (.ret true) w₂ ∧ check x w₂ = true := by
  obtain ⟨_, x, hremove, hx⟩ := Prog.endsWith_steps h
  obtain ⟨ok, w₂, hcopy, hok⟩ := Prog.endsWith_steps hx
  obtain ⟨rfl, hcheck⟩ := Bool.and_eq_true_iff.mp hok
  exact ⟨x, w₂, hremove, hcopy, hcheck⟩

/-- The call is no rename that failed. -/
def renamed : Call × Outcome → Bool
  | (.moveFile _ _, .fail) => false
  | _ => true

theorem reinstall_survives_renamed :
    ∃ x w₂, Steps exec.logged (removeInstallDir installedDir) (installedPc, []) (.ret ()) x ∧
      Steps exec (copyPayload releaseDir installedDir) x.1 (.ret true) w₂ ∧
      Survives releaseDir installedDir x.1 w₂ := by
  have hplay : removeThenCopy .ok (fun x _ => x.2.all renamed) = true := by decide +kernel
  obtain ⟨⟨w₁, l⟩, w₂, hremove, hcopy, hrenamed⟩ := removeThenCopy_steps hplay
  refine ⟨_, w₂, hremove, hcopy, (reinstall_survives ?_ ?_ ?_ hremove rfl hcopy).mpr fun rel _ => ⟨?_, ?_⟩⟩
  · decide +kernel
  · decide +kernel
  · decide +kernel
  · rintro ⟨s, hs, -⟩
    exact absurd hs List.not_mem_nil
  · rintro ⟨p, -, hstuck⟩
    have hfail := List.all_eq_true.mp hrenamed _ hstuck.2.1
    cases hfail

/-- The installer could not be renamed either, and the next start deletes the one that was copied since. -/
theorem reinstall_loses :
    ∃ x w₂, Steps exec.logged (removeInstallDir installedDir) (installedPc, []) (.ret ()) x ∧
      Steps exec (copyPayload releaseDir installedDir) x.1 (.ret true) w₂ ∧
      ¬ Survives releaseDir installedDir x.1 w₂ := by
  have hplay : removeThenCopy .fail (fun _ w => (w.machine.restart.fileAt
      (joinPath installedDir (wide "vrlf-virtual-gun-setup.exe"))).isNone) = true := by decide +kernel
  obtain ⟨x, w₂, hremove, hcopy, hgone⟩ := removeThenCopy_steps hplay
  refine ⟨x, w₂, hremove, hcopy, fun h => ?_⟩
  obtain ⟨g, f, -, hf, -⟩ := h (wide "vrlf-virtual-gun-setup.exe") List.mem_cons_self
  rw [hf] at hgone
  cases hgone

end VirtualGun.Setup
