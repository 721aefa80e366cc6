import Mathlib.Tactic.Linarith
import G3Mod.Recovery.Verifier.Model

/-!
# What an accepted package looks like
-/

namespace G3Mod.Recovery.Verifier

open Lib

variable {c : Crypto} {env : Env} {file eocd : List Byte} {e : Failure}

@[simp] theorem ensure_eq_ok {b : Bool} {u : Unit} : ensure b e = .ok u ↔ b = true := by
  cases b <;> simp [ensure]

theorem fseekEnd_ok {n pos : Nat} (h : fseekEnd file n = .ok pos) : n ≤ file.length ∧ pos = file.length - n := by
  unfold fseekEnd at h
  split at h
  · cases h
    exact ⟨‹_›, rfl⟩
  · cases h

theorem fread_ok {k pos n : Nat} {bs : List Byte} (h : fread env file k pos n e = .ok bs) :
    pos + n ≤ file.length ∧ bs = (file.drop pos).take n := by
  unfold fread at h
  split at h
  · cases h
    exact ⟨(‹_ ∧ _›).2, rfl⟩
  · cases h

/-! ## The hash -/

theorem hashLoop_ok {signedLen fuel k soFar : Nat} {ctx ctx' : c.Ctx} (hfuel : signedLen ≤ soFar + fuel)
    (hle : soFar ≤ signedLen) (h : hashLoop c env file signedLen fuel k soFar ctx = .ok ctx') :
    ∃ pieces : List (List Byte),
      pieces.flatten = (file.take signedLen).drop soFar ∧ ctx' = pieces.foldl c.shaUpdate ctx := by
  induction fuel generalizing k soFar ctx with
  | zero =>
    cases h
    refine ⟨[], ?_, rfl⟩
    rw [List.flatten_nil, List.drop_eq_nil_of_le]
    simp
    omega
  | succ fuel ih =>
    unfold hashLoop at h
    split at h
    next hlt =>
      obtain ⟨buffer, hread, hrest⟩ := bind_ok h
      obtain ⟨_, rfl⟩ := fread_ok hread
      have hpos : 0 < bufferSize := by decide
      set size := if signedLen - soFar < bufferSize then signedLen - soFar else bufferSize with hsize
      have hrange : 0 < size ∧ soFar + size ≤ signedLen := by
        rw [hsize]
        split <;> omega
      obtain ⟨pieces, hpieces, hctx⟩ := ih (by omega) hrange.2 hrest
      refine ⟨(file.drop soFar).take size :: pieces, ?_, hctx⟩
      rw [List.flatten_cons, hpieces, List.drop_take, List.drop_take, ← List.drop_drop]
      -- the rest of the signed part is the piece and what comes after it
      conv_rhs => rw [← List.take_append_drop size (List.take (signedLen - soFar) (List.drop soFar file))]
      rw [List.take_take, List.drop_take, min_eq_left (by omega)]
      congr 2
      omega
    next hge =>
      cases h
      refine ⟨[], ?_, rfl⟩
      simp
      omega

/-! ## The layout of an accepted package -/

def commentSize (file : List Byte) : Nat :=
  word (file.drop (file.length - footerSize)) 4

def eocdStart (file : List Byte) : Nat :=
  file.length - (commentSize file + eocdHeaderSize)

def signedLen (file : List Byte) : Nat :=
  eocdStart file + 20

def signedBytes (file : List Byte) : List Byte :=
  file.take (signedLen file)

def eocdBytes (file : List Byte) : List Byte :=
  file.drop (eocdStart file)

/-- What `verify_file` has made sure of when it returns `VERIFY_SUCCESS`. -/
structure Accepted (c : Crypto) (env : Env) (keys : List c.Key) (file : List Byte) : Prop where
  size : commentSize file + eocdHeaderSize ≤ file.length
  marker : markerAt (eocdBytes file) 0 = true
  later : ∀ i, 4 ≤ i → i + 3 < commentSize file + eocdHeaderSize → markerAt (eocdBytes file) i = false
  checked : ∃ key ∈ keys, ∃ pieces : List (List Byte), pieces.flatten = signedBytes file ∧
    c.rsaVerify key (rsaBlock c env (eocdBytes file) (commentSize file + eocdHeaderSize))
      (c.shaFinal (pieces.foldl c.shaUpdate c.shaInit)) = true

theorem take_drop_self {n : Nat} (h : n ≤ file.length) :
    (file.drop (file.length - n)).take n = file.drop (file.length - n) := by
  apply List.take_of_length_le
  rw [List.length_drop]
  omega

theorem verifyFile_ok {keys : List c.Key} (h : verifyFile c env keys file = .ok ()) : Accepted c env keys file := by
  obtain ⟨_, _, h⟩ := bind_ok h
  obtain ⟨_, hseek, h⟩ := bind_ok h
  obtain ⟨hfooter, rfl⟩ := fseekEnd_ok hseek
  obtain ⟨_, hread, h⟩ := bind_ok h
  obtain ⟨-, rfl⟩ := fread_ok hread
  rw [take_drop_self hfooter] at h
  obtain ⟨_, _, h⟩ := bind_ok h
  obtain ⟨_, _, h⟩ := bind_ok h
  obtain ⟨_, hseek, h⟩ := bind_ok h
  obtain ⟨hsize, rfl⟩ := fseekEnd_ok hseek
  obtain ⟨_, _, h⟩ := bind_ok h
  obtain ⟨_, hread, h⟩ := bind_ok h
  obtain ⟨-, rfl⟩ := fread_ok hread
  rw [take_drop_self hsize] at h
  obtain ⟨_, hmarker, h⟩ := bind_ok h
  obtain ⟨_, hlater, h⟩ := bind_ok h
  obtain ⟨_, _, h⟩ := bind_ok h
  obtain ⟨ctx, hhash, h⟩ := bind_ok h
  obtain ⟨pieces, hpieces, rfl⟩ := hashLoop_ok (by omega) (Nat.zero_le _) hhash
  obtain ⟨key, hkey, hverify⟩ := List.any_eq_true.mp (ensure_eq_ok.mp h)
  refine ⟨hsize, ensure_eq_ok.mp hmarker, ?_, key, hkey, pieces, hpieces, hverify⟩
  intro i hi hlt
  have hnone := ensure_eq_ok.mp hlater
  rw [Bool.not_eq_true', List.any_eq_false] at hnone
  have hmem : i ∈ List.range' 4 (commentSize file + eocdHeaderSize - 3 - 4) := by
    rw [List.mem_range'_1]
    omega
  exact Bool.eq_false_iff.mpr (hnone i hmem)

/-! ## The search of `parseZipArchive` -/

theorem endSigAt_eq_markerAt (file : List Byte) (p : Nat) : endSigAt file p = markerAt file p := by
  have h1 := (file.getD (p + 1) 0).toNat_lt
  have h2 := (file.getD (p + 2) 0).toNat_lt
  rw [Bool.eq_iff_iff]
  simp only [endSigAt, markerAt, get4LE, endSig, Bool.and_eq_true, beq_iff_eq, ← UInt8.toNat_inj]
  simp only [UInt8.reduceToNat]
  omega

theorem eocdBytes_getD (file : List Byte) (i : Nat) :
    (eocdBytes file).getD i 0 = file.getD (eocdStart file + i) 0 := by
  simp [eocdBytes, List.getD_eq_getElem?_getD]

theorem markerAt_eocdBytes (file : List Byte) (i : Nat) :
    markerAt (eocdBytes file) i = markerAt file (eocdStart file + i) := by
  simp only [markerAt, eocdBytes_getD, Nat.add_assoc]

theorem searchBack_eq {p q : Nat} (hle : q ≤ p) (hq : endSigAt file q = true)
    (hnone : ∀ r, q < r → r ≤ p → endSigAt file r = false) : searchBack file p = some q := by
  induction p with
  | zero =>
    obtain rfl : q = 0 := by omega
    simp [searchBack, hq]
  | succ p ih =>
    unfold searchBack
    by_cases hqp : q = p + 1
    · rw [if_pos (hqp ▸ hq), hqp]
    · rw [if_neg (by simp [hnone (p + 1) (by omega) le_rfl])]
      exact ih (by omega) fun r hr hrp => hnone r hr (by omega)

theorem markerAt_overlap {p i : Nat} (h : markerAt file p = true) (hi : 0 < i) (hi' : i < 4) :
    markerAt file (p + i) = false := by
  simp only [markerAt, Bool.and_eq_true, beq_iff_eq] at h
  obtain ⟨⟨⟨_, h1⟩, h2⟩, h3⟩ := h
  have hcases : i = 1 ∨ i = 2 ∨ i = 3 := by omega
  rcases hcases with rfl | rfl | rfl
  · rw [markerAt, h1]; rfl
  · rw [markerAt, h2]; rfl
  · rw [markerAt, h3]; rfl

variable {keys : List c.Key}

theorem Accepted.eocdStart_add (h : Accepted c env keys file) :
    eocdStart file + (commentSize file + eocdHeaderSize) = file.length :=
  Nat.sub_add_cancel h.size

theorem Accepted.findEocd_eq (h : Accepted c env keys file) : findEocd file = some (eocdStart file) := by
  have hadd := h.eocdStart_add
  have hhdr : eocdHeaderSize = endHdr := rfl
  have hmarker := h.marker
  rw [markerAt_eocdBytes, Nat.add_zero] at hmarker
  rw [findEocd, if_pos (by omega)]
  apply searchBack_eq (by omega)
  · rw [endSigAt_eq_markerAt]
    exact hmarker
  intro r hr hrp
  rw [endSigAt_eq_markerAt]
  obtain ⟨i, rfl⟩ := Nat.exists_eq_add_of_lt hr
  rw [Nat.add_assoc]
  by_cases hi : i + 1 < 4
  · exact markerAt_overlap hmarker (by omega) hi
  rw [← markerAt_eocdBytes]
  apply h.later
  · omega
  · simp only [endHdr] at hhdr hrp ⊢
    omega

theorem Accepted.parse_eq (h : Accepted c env keys file) {r : EndRecord} (hr : parseZipArchive file = .ok r) :
    r = readEndRecord file (eocdStart file) := by
  simp only [parseZipArchive, h.findEocd_eq] at hr
  split_ifs at hr
  cases hr
  rfl

theorem getD_take {n i : Nat} (hi : i < n) : (file.take n).getD i 0 = file.getD i 0 := by
  simp [List.getD_eq_getElem?_getD, hi]

theorem readEndRecord_take (file : List Byte) {p n : Nat} (h : p + 20 ≤ n) :
    readEndRecord (file.take n) p = readEndRecord file p := by
  simp (disch := omega) only [readEndRecord, get2LE, get4LE, endSub, endOff, getD_take]

theorem Accepted.length_signedBytes (h : Accepted c env keys file) : (signedBytes file).length = signedLen file := by
  have hadd := h.eocdStart_add
  simp only [eocdHeaderSize] at hadd
  rw [signedBytes, List.length_take, signedLen]
  omega

theorem Accepted.rsaBlock_eq (h : Accepted c env keys file)
    (hin : c.rsaNumBytes + 6 ≤ commentSize file + eocdHeaderSize) :
    rsaBlock c env (eocdBytes file) (commentSize file + eocdHeaderSize) =
      (file.drop (file.length - 6 - c.rsaNumBytes)).take c.rsaNumBytes := by
  have hadd := h.eocdStart_add
  apply List.ext_getElem
  · simp only [rsaBlock, List.length_map, List.length_range, List.length_take, List.length_drop]
    omega
  intro k hk hk'
  simp only [rsaBlock, List.length_map, List.length_range] at hk
  have hpeek : rsaOffset c (commentSize file + eocdHeaderSize) + k =
      ((commentSize file + eocdHeaderSize - 6 - c.rsaNumBytes + k : Nat) : Int) := by
    unfold rsaOffset
    omega
  simp only [rsaBlock, List.getElem_map, List.getElem_range, List.getElem_take, List.getElem_drop]
  rw [hpeek, peek, if_pos (by omega), Int.toNat_natCast, eocdBytes_getD, List.getD_eq_getElem?_getD,
    List.getElem?_eq_getElem (by omega), Option.getD_some]
  congr 1
  omega

/-! # What an accepted package binds

The record that `verify_file` hashes is the one that `parseZipArchive` reads. -/

/-- The block given to `RSA_verify` starts behind the end record, and is the bytes in front of the footer. -/
def BlockInComment (c : Crypto) (env : Env) (file : List Byte) : Prop :=
  (eocdHeaderSize : Int) ≤ rsaOffset c (commentSize file + eocdHeaderSize) ∧
    rsaBlock c env (eocdBytes file) (commentSize file + eocdHeaderSize) =
      (file.drop (file.length - 6 - c.rsaNumBytes)).take c.rsaNumBytes

theorem Accepted.blockInComment_iff {c : Crypto} {env : Env} {keys : List c.Key} {file : List Byte}
    (h : Accepted c env keys file) : BlockInComment c env file ↔ c.rsaNumBytes + 6 ≤ commentSize file := by
  constructor
  · rintro ⟨hoff, _⟩
    unfold rsaOffset at hoff
    omega
  intro hsize
  refine ⟨?_, h.rsaBlock_eq (by omega)⟩
  unfold rsaOffset
  omega

/-- The signed bytes of an accepted package determine its record, and the block is in the comment if it fits. -/
theorem package_bound {c : Crypto} {env : Env} {keys : List c.Key} {file : List Byte}
    (h : verifyFile c env keys file = .ok ()) :
    (BlockInComment c env file ↔ c.rsaNumBytes + 6 ≤ commentSize file) ∧
      (∃ key ∈ keys, ∃ pieces : List (List Byte), pieces.flatten = file.take (eocdStart file + 20) ∧
        c.rsaVerify key (rsaBlock c env (eocdBytes file) (commentSize file + eocdHeaderSize))
          (c.shaFinal (pieces.foldl c.shaUpdate c.shaInit)) = true) ∧
      findEocd file = some (eocdStart file) ∧
      ∀ (env' : Env) (keys' : List c.Key) (file' : List Byte), verifyFile c env' keys' file' = .ok () →
        signedBytes file' = signedBytes file →
          findEocd file' = findEocd file ∧
            readEndRecord file' (eocdStart file') = readEndRecord file (eocdStart file) ∧
            ∀ r r', parseZipArchive file = .ok r → parseZipArchive file' = .ok r' → r' = r := by
  have hacc := verifyFile_ok h
  refine ⟨hacc.blockInComment_iff, hacc.checked, hacc.findEocd_eq, ?_⟩
  intro env' keys' file' h' hsigned
  have hacc' := verifyFile_ok h'
  have hlen : signedLen file' = signedLen file := by
    rw [← hacc'.length_signedBytes, ← hacc.length_signedBytes, hsigned]
  have hstart : eocdStart file' = eocdStart file := by
    unfold signedLen at hlen
    omega
  have hread := readEndRecord_take file' (le_refl (signedLen file'))
  have hread' := readEndRecord_take file (le_refl (signedLen file))
  have hrecord : readEndRecord file' (eocdStart file') = readEndRecord file (eocdStart file) := by
    unfold signedBytes at hsigned
    rw [← hread, ← hread', hsigned, hstart]
  refine ⟨by rw [hacc'.findEocd_eq, hacc.findEocd_eq, hstart], hrecord, ?_⟩
  intro r r' hr hr'
  rw [hacc.parse_eq hr, hacc'.parse_eq hr', hrecord]

def firstByteCrypto (n : Nat) : Crypto where
  Key := Unit
  Ctx := List Byte
  Digest := List Byte
  rsaNumBytes := n
  shaInit := []
  shaUpdate := fun ctx bs => ctx ++ bs
  shaFinal := fun ctx => ctx
  rsaVerify := fun _ block _ => block.head? == some 7

def leftover : Env := ⟨true, fun _ => true, true, true, fun _ => 7⟩

def recordOnly (comment : List Byte) : List Byte :=
  [0x50, 0x4b, 5, 6, 0, 0, 0, 0, 1, 0, 1, 0, 0, 0, 0, 0, 0, 0, 0, 0, UInt8.ofNat comment.length, 0] ++ comment

theorem package_bound_twoBytes :
    verifyFile (firstByteCrypto 2) leftover [()] (recordOnly [7, 1, 8, 0, 0xff, 0xff, 8, 0]) = .ok () ∧
      BlockInComment (firstByteCrypto 2) leftover (recordOnly [7, 1, 8, 0, 0xff, 0xff, 8, 0]) := by
  have hok : verifyFile (firstByteCrypto 2) leftover [()] (recordOnly [7, 1, 8, 0, 0xff, 0xff, 8, 0]) = .ok () := by
    decide +kernel
  exact ⟨hok, (package_bound hok).1.mpr (by decide)⟩

/-- A comment that is the footer alone: the block starts 234 bytes in front of the buffer. -/
theorem block_before_buffer :
    verifyFile (firstByteCrypto 256) leftover [()] (recordOnly [0x06, 0x01, 0xff, 0xff, 6, 0]) = .ok () ∧
      rsaOffset (firstByteCrypto 256) (commentSize (recordOnly [0x06, 0x01, 0xff, 0xff, 6, 0]) + eocdHeaderSize)
        = -234 ∧
      ¬ BlockInComment (firstByteCrypto 256) leftover (recordOnly [0x06, 0x01, 0xff, 0xff, 6, 0]) := by
  refine ⟨by decide +kernel, by decide, ?_⟩
  rintro ⟨hoff, _⟩
  exact absurd hoff (by decide)

end G3Mod.Recovery.Verifier
