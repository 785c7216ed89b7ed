import VirtualGun.Setup.Removal

/-!
# Thumbprints

A certificate is recorded as `HexUpper` of its hash, and `RemoveTrustedCertificate` reads it back pair by
pair with `std::stoul`, which takes more than hexadecimal digits and throws where it finds none.
-/

open VirtualGun.Program

namespace VirtualGun.Setup

/-! ## Digits -/

def IsHex (t : WString) : Prop := ∀ c ∈ t, (hexValue c).isSome

theorem hexValue_toLower (c : UInt16) : hexValue (toLower c) = hexValue c := by
  have h : ∀ n < 128, hexValue (toLower (UInt16.ofNat n)) = hexValue (UInt16.ofNat n) := by decide +kernel
  by_cases hc : c.toNat < 128
  · have hn := h c.toNat hc
    rwa [UInt16.ofNat_toNat] at hn
  · have hupper : ¬ (65 ≤ c ∧ c ≤ 90) := by
      rintro ⟨-, hle⟩
      rw [UInt16.le_iff_toNat_le] at hle
      simp only [UInt16.reduceToNat] at hle
      omega
    unfold toLower
    rw [if_neg hupper]

theorem isHex_map_toLower {t : WString} : IsHex (t.map toLower) ↔ IsHex t := by
  unfold IsHex
  simp only [List.forall_mem_map, hexValue_toLower]

theorem isHex_hexUpper (data : List Byte) : IsHex (hexUpper data) := by
  have h : ∀ n < 256, (hexValue (hexDigit (UInt8.ofNat n >>> 4))).isSome = true ∧
      (hexValue (hexDigit (UInt8.ofNat n &&& 0x0F))).isSome = true := by decide +kernel
  induction data with
  | nil => exact fun c hc => absurd hc List.not_mem_nil
  | cons b data ih =>
    have hb := h b.toNat b.toNat_lt
    rw [UInt8.ofNat_toNat] at hb
    rw [hexUpper_cons]
    intro c hc
    rcases List.mem_append.mp hc with hc | hc
    · rcases List.mem_cons.mp hc with rfl | hc
      · exact hb.1
      · rw [List.mem_singleton.mp hc]
        exact hb.2
    · exact ih c hc

/-- A hexadecimal digit, and what `std::stoul` does with it. -/
theorem hexValue_spec {c : UInt16} {v : ℕ} (h : hexValue c = some v) :
    v < 16 ∧ isSpace c = false ∧ c ≠ 45 ∧ c ≠ 43 ∧ toLower (hexDigit v.toUInt8) = toLower c := by
  have key : ∀ n < 128, (hexValue (UInt16.ofNat n)).all fun v => decide (v < 16 ∧
      isSpace (UInt16.ofNat n) = false ∧ UInt16.ofNat n ≠ 45 ∧ UInt16.ofNat n ≠ 43 ∧
        toLower (hexDigit v.toUInt8) = toLower (UInt16.ofNat n)) := by decide +kernel
  have hc : c.toNat < 128 := by
    unfold hexValue at h
    simp only [UInt16.le_iff_toNat_le, UInt16.reduceToNat] at h
    split_ifs at h <;> omega
  have hn := key c.toNat hc
  rw [UInt16.ofNat_toNat, h] at hn
  exact of_decide_eq_true hn

theorem stoul_hex {a b : UInt16} {x y : ℕ} (ha : hexValue a = some x) (hb : hexValue b = some y) :
    stoul [a, b] = some (16 * x + y) := by
  obtain ⟨hx, hspace, hminus, hplus, -⟩ := hexValue_spec ha
  obtain ⟨hy, -⟩ := hexValue_spec hb
  have hsign : dropSign [a, b] = (false, [a, b]) := by
    simp [dropSign, hminus, hplus]
  have hdrop : [a, b].dropWhile isSpace = [a, b] := by
    rw [List.dropWhile_cons_of_neg (by rw [hspace]; decide)]
  have hdigits : ((dropHexMark [a, b]).takeWhile fun c => (hexValue c).isSome).filterMap hexValue = [x, y] := by
    simp [dropHexMark, ha, hb]
  unfold stoul
  simp only [hdrop, hsign, hdigits]
  simp
  omega

/-! ## Pairs of digits -/

theorem hashBytes_hex {n : ℕ} {t : WString} (hl : t.length = 2 * n) (ht : IsHex t) :
    ∃ data, hashBytes n t = some data ∧ (hexUpper data).map toLower = t.map toLower := by
  induction n generalizing t with
  | zero =>
    rw [List.length_eq_zero_iff.mp hl]
    exact ⟨[], rfl, rfl⟩
  | succ n ih =>
    obtain ⟨a, b, t, rfl⟩ : ∃ a b s, t = a :: b :: s := by
      match t, hl with
      | a :: b :: s, _ => exact ⟨a, b, s, rfl⟩
    obtain ⟨x, hx⟩ := Option.isSome_iff_exists.mp (ht a (by simp))
    obtain ⟨y, hy⟩ := Option.isSome_iff_exists.mp (ht b (by simp))
    have hlen : t.length = 2 * n := by
      simp only [List.length_cons] at hl
      omega
    obtain ⟨data, hdata, hupper⟩ := ih hlen fun c hc => ht c (by simp [hc])
    obtain ⟨hx16, -, -, -, ha⟩ := hexValue_spec hx
    obtain ⟨hy16, -, -, -, hb⟩ := hexValue_spec hy
    refine ⟨(16 * x + y).toUInt8 :: data, ?_, ?_⟩
    · simp [hashBytes, stoul_hex hx hy, hdata]
    · have hhalves : ∀ x < 16, ∀ y < 16, ((16 * x + y).toUInt8 >>> (4 : Byte)) = x.toUInt8 ∧
          ((16 * x + y).toUInt8 &&& (0x0F : Byte)) = y.toUInt8 := by decide +kernel
      obtain ⟨hhigh, hlow⟩ := hhalves x hx16 y hy16
      rw [hexUpper_cons, hhigh, hlow, List.map_append, hupper]
      simp [ha, hb]

theorem hashBytes_toLower {n : ℕ} {t : WString} (hl : t.length = 2 * n) (ht : IsHex t) :
    hashBytes n (t.map toLower) = hashBytes n t := by
  induction n generalizing t with
  | zero => rfl
  | succ n ih =>
    obtain ⟨a, b, t, rfl⟩ : ∃ a b s, t = a :: b :: s := by
      match t, hl with
      | a :: b :: s, _ => exact ⟨a, b, s, rfl⟩
    obtain ⟨x, hx⟩ := Option.isSome_iff_exists.mp (ht a (by simp))
    obtain ⟨y, hy⟩ := Option.isSome_iff_exists.mp (ht b (by simp))
    have hlen : t.length = 2 * n := by
      simp only [List.length_cons] at hl
      omega
    have hrest := ih hlen fun c hc => ht c (by simp [hc])
    have hx' := (hexValue_toLower a).trans hx
    have hy' := (hexValue_toLower b).trans hy
    simp only [hashBytes, List.map_cons, List.take_succ_cons, List.take_zero, List.drop_succ_cons,
      List.drop_zero, stoul_hex hx hy, stoul_hex hx' hy', hrest]

theorem hashBytes_iff {t : WString} {hash : List Byte} (hl : t.length = 40) (ht : IsHex t)
    (hh : hash.length = 20) :
    hashBytes 20 t = some hash ↔ (hexUpper hash).map toLower = t.map toLower := by
  constructor
  · intro h
    obtain ⟨data, hdata, hupper⟩ := hashBytes_hex (n := 20) hl ht
    rw [h] at hdata
    rw [Option.some.inj hdata, hupper]
  · intro h
    have hlen : (hexUpper hash).length = 2 * 20 := by rw [length_hexUpper, hh]
    have hbytes := hashBytes_hexUpper hash
    rw [hh] at hbytes
    rw [← hashBytes_toLower (n := 20) hl ht, ← h, hashBytes_toLower hlen (isHex_hexUpper hash), hbytes]

theorem length_hashBytes {n : ℕ} {t : WString} {hash : List Byte} (h : hashBytes n t = some hash) :
    hash.length = n := by
  induction n generalizing t hash with
  | zero =>
    simp only [hashBytes, Option.some.injEq] at h
    rw [← h]
    rfl
  | succ n ih =>
    simp only [hashBytes, Option.bind_eq_bind, Option.bind_eq_some_iff] at h
    obtain ⟨value, -, rest, hrest, hcons⟩ := h
    rw [← Option.some.inj hcons, List.length_cons, ih hrest]

/-! ## `RemoveTrustedCertificate` -/

/-- The certificates that go are those whose hash is written like `t`, and nothing is thrown. -/
structure RemovesExactly (t : WString) (w : World) : Prop where
  ends : ∃ w', Steps findingExec (removeTrustedCertificate t) w (.ret ()) w'
  calm : ∀ p w', Steps findingExec (removeTrustedCertificate t) w p w' → p.next? ≠ some .terminate
  exactly : ∀ w', Steps findingExec (removeTrustedCertificate t) w (.ret ()) w' → ∀ store c,
    c ∈ w'.stores store ↔ c ∈ w.stores store ∧ (hexUpper c.hash.bytes).map toLower ≠ t.map toLower

section
variable {t : WString} {w : World} {hash : List Byte}

/-- The calls that look for a certificate and delete it. -/
def Call.removes : Call → Bool
  | .certOpenStore _ (some _) | .certFindCertificateInStore _ _ => true
  | .certDeleteCertificateFromStore _ _ => true
  | _ => false

theorem removeFound_calls (store : StoreName) (hash : List Byte) (n : ℕ) :
    (removeFound store hash n).Calls (fun c => c.removes = true) fun _ _ => True := by
  induction n with
  | zero => trivial
  | succ n ih =>
    simp only [removeFound, perform, Prog.perform_bind, Prog.calls_call]
    refine ⟨rfl, ?_⟩
    rintro (_ | found) -
    · trivial
    · exact ⟨rfl, fun _ _ => Prog.calls_ite (fun _ => ih) fun _ => trivial⟩

theorem removeFrom_calls (hash : List Byte) (stores : List StoreName) :
    (removeFrom hash stores).Calls (fun c => c.removes = true) fun _ _ => True := by
  induction stores with
  | nil => trivial
  | cons store stores ih =>
    simp only [removeFrom, perform, Prog.perform_bind, Prog.calls_call]
    refine ⟨rfl, ?_⟩
    rintro (_ | size) -
    · exact ih
    · exact Prog.calls_bind (removeFound_calls store hash _) fun _ => ih

theorem removes_answered (c : Call) (w : World) (h : c.removes = true) :
    ∃ o r w', findingExec c o w = some (r, w') := by
  cases c with
  | certOpenStore store sought =>
    cases sought with
    | none => cases h
    | some hash => exact ⟨.ok, _, _, rfl⟩
  | certFindCertificateInStore store hash => exact ⟨.ok, _, _, rfl⟩
  | certDeleteCertificateFromStore store found => exact ⟨.ok, _, _, rfl⟩
  | _ => cases h

theorem removeTrustedCertificate_run (hl : t.length = 40) (hh : hashBytes 20 t = some hash) (w : World) :
    (∃ w', Steps findingExec (removeTrustedCertificate t) w (.ret ()) w') ∧
    (∀ p w', Steps findingExec (removeTrustedCertificate t) w p w' → p.next? ≠ some .terminate) ∧
    ∀ w', Steps findingExec (removeTrustedCertificate t) w (.ret ()) w' → ∀ store c,
      c ∈ w'.stores store ↔ c ∈ w.stores store ∧ c.hash.bytes ≠ hash := by
  have hrun : removeTrustedCertificate t = removeFrom hash storeNames := by
    unfold removeTrustedCertificate
    rw [if_pos hl, hh]
  have hcalls : (removeFrom hash storeNames).Meets findingExec (fun c => c.removes = true) w :=
    meets_of_calls (removeFrom_calls hash storeNames) w
  rw [hrun]
  refine ⟨?_, fun p w' hs hterm => ?_, fun w' hs store c => ?_⟩
  · obtain ⟨_, w', hs⟩ := Steps.exists_end removes_answered fun q w' hs c hq => hs.meets hcalls hq
    exact ⟨w', hs⟩
  · have hremoves := hs.meets hcalls hterm
    cases hremoves
  · have hstore : store ∈ storeNames := by cases store <;> simp [storeNames]
    obtain ⟨hf, hgone⟩ := hs.post (removeFrom_spec findingExec_finding hash storeNames)
    have hothers := hs.post (wp_sub findingExec_sub (removeFrom_others hash storeNames w))
    constructor
    · exact fun hc => ⟨hf.untrusts (by decide) store hc, hgone store hstore c hc⟩
    · exact fun hc => hothers store c hc.1 hc.2

theorem removesExactly_of_hex (ht : t.length = 40 → IsHex t) (w : World) : RemovesExactly t w := by
  by_cases hl : t.length = 40
  · obtain ⟨hash, hh, -⟩ := hashBytes_hex (n := 20) hl (ht hl)
    obtain ⟨hends, hcalm, hexactly⟩ := removeTrustedCertificate_run hl hh w
    refine ⟨hends, hcalm, fun w' hs store c => ?_⟩
    rw [hexactly w' hs store c, Ne, Ne, ← hashBytes_iff hl (ht hl) c.hash.length_eq, hh, Option.some.injEq,
      eq_comm]
  · have hrun : removeTrustedCertificate t = .ret () := by
      unfold removeTrustedCertificate
      rw [if_neg hl]
      rfl
    refine ⟨⟨w, by rw [hrun]; exact .refl⟩, fun p w' hs => ?_, fun w' hs store c => ?_⟩
    · rw [hrun] at hs
      cases hs
      simp
    · rw [hrun] at hs
      cases hs
      refine ⟨fun hc => ⟨hc, fun he => hl ?_⟩, fun hc => hc.1⟩
      have hlen := congrArg List.length he
      rw [List.length_map, List.length_map, length_hexUpper, c.hash.length_eq] at hlen
      exact hlen.symm

/-- A PC that trusts one certificate. -/
def trusting (c : Certificate) : World where
  registry := none
  stores := fun _ => [c]
  keys := ⟨[], 0, []⟩
  packages := []
  machine := ⟨[], [], [], []⟩

/-- Forty characters that are not all digits are thrown at, or name another certificate. -/
theorem not_removesExactly (hl : t.length = 40) (ht : ¬ IsHex t) : ∃ w, ¬ RemovesExactly t w := by
  cases hh : hashBytes 20 t with
  | none =>
    refine ⟨trusting ⟨⟨List.replicate 20 0, List.length_replicate⟩, 0⟩, fun h => ?_⟩
    refine h.calm _ _ .refl ?_
    unfold removeTrustedCertificate
    rw [if_pos hl, hh]
    rfl
  | some hash =>
    let c : Certificate := ⟨⟨hash, length_hashBytes hh⟩, 0⟩
    refine ⟨trusting c, fun h => ?_⟩
    obtain ⟨⟨w', hs⟩, -, hexactly⟩ := removeTrustedCertificate_run hl hh (trusting c)
    have hin : c ∈ (trusting c).stores .root := List.mem_singleton_self c
    have hgone : c ∉ w'.stores .root := fun hc => ((hexactly w' hs .root c).mp hc).2 rfl
    refine hgone ((h.exactly w' hs .root c).mpr ⟨hin, fun he => ht ?_⟩)
    rw [← isHex_map_toLower, ← he]
    exact isHex_map_toLower.mpr (isHex_hexUpper hash)

/-- What `RemoveTrustedCertificate` removes is exact unless it is asked with forty characters that are
not all hexadecimal digits; what `HexUpper` writes always is. -/
theorem thumbprint_exact (t : WString) :
    (∀ hash : Sha1, hashBytes 20 (hexUpper hash.bytes) = some hash.bytes) ∧
    ((∀ w, RemovesExactly t w) ↔ (t.length = 40 → IsHex t)) := by
  refine ⟨fun hash => ?_, fun h hl => ?_, fun ht w => removesExactly_of_hex ht w⟩
  · have hbytes := hashBytes_hexUpper hash.bytes
    rwa [hash.length_eq] at hbytes
  · by_contra ht
    obtain ⟨w, hw⟩ := not_removesExactly hl ht
    exact hw (h w)

end

/-- Forty characters that begin with no digit: `std::stoul` throws. -/
theorem thumbprint_thrown :
    ¬ RemovesExactly (wide "zz00000000000000000000000000000000000000")
      (trusting ⟨⟨List.replicate 20 0, List.length_replicate⟩, 0⟩) := by
  intro h
  have hbytes : hashBytes 20 (wide "zz00000000000000000000000000000000000000") = none := by decide +kernel
  refine h.calm _ _ .refl ?_
  unfold removeTrustedCertificate
  rw [if_pos (by decide +kernel), hbytes]
  rfl

end VirtualGun.Setup
