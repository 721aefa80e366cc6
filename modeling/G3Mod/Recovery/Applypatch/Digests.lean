import G3Mod.Recovery.Applypatch.Lemmas.Resume

/-!
# The strings that `ParseSha1` takes

Its comment promises "only the digest" or "<digest>:<anything>".
-/

namespace G3Mod.Recovery.Applypatch

variable {str : List Char} {strs : List (List Char)} {digest sha1 : Digest}

def hexBytes : List Char → Option (List UInt8)
  | [] => some []
  | [_] => none
  | a :: b :: rest =>
    match hexDigit a, hexDigit b, hexBytes rest with
    | some high, some low, some bytes => some (UInt8.ofNat (16 * high + low) :: bytes)
    | _, _, _ => none

/-- 40 digits, and then the end of the string, or `:` and anything. -/
def Denotes (str : List Char) (digest : Digest) : Prop :=
  hexBytes (str.take 40) = some digest ∧ 40 ≤ str.length ∧ (str[40]? = none ∨ str[40]? = some ':')

theorem hexDigit_lt {c : Char} {d : Nat} (h : hexDigit c = some d) : d < 16 := by
  have hle : ∀ {a b : Char}, a ≤ b → a.toNat ≤ b.toNat := fun h => h
  have h0 : '0'.toNat = 48 ∧ '9'.toNat = 57 := by decide
  have ha : 'a'.toNat = 97 ∧ 'f'.toNat = 102 := by decide
  have hA : 'A'.toNat = 65 ∧ 'F'.toNat = 70 := by decide
  unfold hexDigit at h
  split at h
  next hc =>
    cases h
    have := hle hc.2
    omega
  split at h
  next hc =>
    cases h
    have := hle hc.2
    omega
  split at h
  next hc =>
    cases h
    have := hle hc.2
    omega
  · cases h

theorem nibbles {high low : Nat} (hh : high < 16) (hl : low < 16) :
    UInt8.ofNat high <<< 4 ||| UInt8.ofNat low = UInt8.ofNat (16 * high + low) := by
  have : ∀ high < 16, ∀ low < 16, UInt8.ofNat high <<< 4 ||| UInt8.ofNat low = UInt8.ofNat (16 * high + low) := by decide
  exact this high hh low hl

theorem parseDigits_spec (m : Nat) (ps : List Char) (pd : List UInt8) (hm : m ≤ 20) :
    parseDigits (2 * m) ps pd =
      if 2 * m ≤ ps.length then (hexBytes (ps.take (2 * m))).map fun bs => (ps.drop (2 * m), bs.reverse ++ pd) else none := by
  induction m generalizing ps pd with
  | zero => simp [parseDigits, hexBytes]
  | succ m ih =>
    have heven : (shaDigestSize * 2 - (2 * m + 1 + 1)) % 2 = 0 := by simp only [shaDigestSize]; omega
    have hodd : (shaDigestSize * 2 - (2 * m + 1)) % 2 ≠ 0 := by simp only [shaDigestSize]; omega
    rw [show 2 * (m + 1) = 2 * m + 1 + 1 by omega]
    cases ps with
    | nil => rfl
    | cons a ps =>
      rw [parseDigits]
      cases ha : hexDigit a with
      | none => cases ps <;> simp [hexBytes, ha]
      | some high =>
        dsimp only
        rw [if_pos heven]
        cases ps with
        | nil => rfl
        | cons b ps =>
          rw [parseDigits]
          cases hb : hexDigit b with
          | none => simp [hexBytes, ha, hb]
          | some low =>
            dsimp only
            rw [if_neg hodd, ih ps _ (by omega), nibbles (hexDigit_lt ha) (hexDigit_lt hb)]
            cases hr : hexBytes (ps.take (2 * m)) <;> simp [hexBytes, ha, hb, hr]

def Suffixed (str : List Char) : Prop := (hexBytes (str.take 40)).isSome ∧ str[40]? = some ':'

theorem parseSha1_iff : parseSha1 str = some digest ↔ hexBytes (str.take 40) = some digest ∧ str.length = 40 := by
  rw [parseSha1, show shaDigestSize * 2 = 2 * 20 from rfl, parseDigits_spec 20 str [] (Nat.le_refl _)]
  by_cases hle : 2 * 20 ≤ str.length
  · rw [if_pos hle]
    cases hb : hexBytes (str.take (2 * 20)) with
    | none => simp
    | some bs =>
      cases hd : str.drop (2 * 20) with
      | nil =>
        have := List.drop_eq_nil_iff.mp hd
        simp
        omega
      | cons c cs =>
        have : str.length ≠ 40 := fun he => by simp [List.drop_eq_nil_of_le (Nat.le_of_eq he)] at hd
        simp [this]
  · have : str.length ≠ 40 := fun he => hle (Nat.le_of_eq he.symm)
    simp [hle, this]

theorem parseSha1_denotes_iff : (∀ digest, parseSha1 str = some digest ↔ Denotes str digest) ↔ ¬ Suffixed str := by
  simp only [parseSha1_iff, Denotes]
  constructor
  · rintro h ⟨hb, hc⟩
    obtain ⟨digest, hb⟩ := Option.isSome_iff_exists.mp hb
    obtain ⟨hlt, -⟩ := List.getElem?_eq_some_iff.mp hc
    have := ((h digest).mpr ⟨hb, Nat.le_of_lt hlt, .inr hc⟩).2
    omega
  · intro h digest
    rw [and_congr_right_iff]
    intro hb
    have hne : str[40]? ≠ some ':' := fun hc => h ⟨by simp [hb], hc⟩
    simp only [hne, or_false, List.getElem?_eq_none_iff]
    omega

/-- `ParseSha1` and `FindMatchingPatch` do what they should, if and only if no digest is followed by `:`. -/
theorem digests_matched_iff (strs : List (List Char)) :
    ((∀ str ∈ strs, ∀ digest, parseSha1 str = some digest ↔ Denotes str digest) ∧
      ∀ sha1, FirstMatch (Denotes · sha1) strs 0 (findMatchingPatch sha1 strs)) ↔ ∀ str ∈ strs, ¬ Suffixed str := by
  refine ⟨fun h str hs => parseSha1_denotes_iff.mp (h.1 str hs), fun h => ?_⟩
  have hparse : ∀ str ∈ strs, ∀ digest, parseSha1 str = some digest ↔ Denotes str digest := fun str hs =>
    parseSha1_denotes_iff.mpr (h str hs)
  refine ⟨hparse, fun sha1 => ?_⟩
  rcases findMatchingPatchFrom_first sha1 0 strs with ⟨k, hk, ⟨str, hs, hp⟩, hf⟩ | ⟨hk, hf⟩
  · refine .inl ⟨k, hk, ⟨str, hs, (hparse str (List.mem_of_getElem? hs) sha1).mp hp⟩, fun j hj x hx hd => ?_⟩
    exact hf j hj x hx ((hparse x (List.mem_of_getElem? hx) sha1).mpr hd)
  · exact .inr ⟨hk, fun str hs hd => hf str hs ((hparse str hs sha1).mpr hd)⟩

def zeroDigest : List Char := List.replicate 40 '0'

/-- A digest followed by a colon is not taken. -/
theorem suffixed_digest_refused : Denotes (zeroDigest ++ ":boot".toList) (List.replicate 20 0) ∧
    parseSha1 (zeroDigest ++ ":boot".toList) = none ∧ findMatchingPatch (List.replicate 20 0) [zeroDigest ++ ":boot".toList] = -1 :=
  ⟨⟨by decide, by decide, by decide⟩, by decide, by decide⟩

end G3Mod.Recovery.Applypatch
