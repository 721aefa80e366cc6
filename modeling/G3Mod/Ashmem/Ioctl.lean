import G3Mod.Ashmem.Model
import Mathlib.Data.Nat.Bitwise

/-!
# The requests of `ashmem_pin_unpin`
-/

namespace G3Mod.Ashmem

structure Pin where
  offset : UInt32
  len : UInt32
  deriving DecidableEq, Repr

/-- `struct ashmem_area`: its size, and whether the backing file has been created. -/
structure Area where
  size : UInt32
  file : Bool
  deriving DecidableEq, Repr

inductive Cmd where
  | pin
  | unpin
  | getPinStatus
  deriving DecidableEq, Repr

def einval : Int := 22

def efault : Int := 14

def pageSize : UInt32 := 4096

def pageMask : UInt32 := ~~~(pageSize - 1)

def pageAlign (x : UInt32) : UInt32 := (x + (pageSize - 1)) &&& pageMask

def Pin.length (size : UInt32) (pin : Pin) : UInt32 :=
  if pin.len = 0 then pageAlign size - pin.offset else pin.len

/-- `ashmem_pin_unpin` up to the mutex: the first and the last page. There is no request if `copy_from_user` fails. -/
def pinRequest (area : Area) (pin : Option Pin) : Except Int (UInt32 × UInt32) :=
  if !area.file then .error (-einval)
  else
    match pin with
    | none => .error (-efault)
    | some pin =>
      let len := pin.length area.size
      if (pin.offset ||| len) &&& ~~~pageMask ≠ 0 then .error (-einval)
      else if (0 - 1) - pin.offset < len then .error (-einval)
      else if pageAlign area.size < pin.offset + len then .error (-einval)
      else .ok (pin.offset / pageSize, pin.offset / pageSize + len / pageSize - 1)

def pinStatusRet : PinStatus → Int
  | .isUnpinned => 0
  | .isPinned => 1

def ashmemPinUnpin (alloc : Bool) (asma : AreaId) (area : Area) (cmd : Cmd) (pin : Option Pin) (s : State) : Int × State :=
  match pinRequest area pin with
  | .error e => (e, s)
  | .ok (pgstart, pgend) =>
    match cmd with
    | .pin =>
      let (s, ret) := ashmemPin alloc asma pgstart.toNat pgend.toNat s
      (purgedRet ret, s)
    | .unpin =>
      let (s, ret) := ashmemUnpin alloc asma pgstart.toNat pgend.toNat s
      (ret, s)
    | .getPinStatus => (pinStatusRet (ashmemGetPinStatus asma pgstart.toNat pgend.toNat s), s)

/-! ## Pages in 32 bits -/

theorem and_lowMask (x : Nat) : x &&& 4095 = x % 4096 := Nat.and_two_pow_sub_one_eq_mod x 12

theorem aligned_iff (x y : UInt32) : (x ||| y) &&& ~~~pageMask = 0 ↔ x.toNat % 4096 = 0 ∧ y.toNat % 4096 = 0 := by
  have hmask : (~~~pageMask).toNat = 4095 := by decide
  rw [← UInt32.toNat_inj, UInt32.toNat_and, UInt32.toNat_or, hmask, Nat.and_or_distrib_right, and_lowMask, and_lowMask]
  exact Nat.or_eq_zero_iff

theorem pinRequest_ok {area : Area} {pin : Pin} {lo hi : UInt32} (h : pinRequest area (some pin) = .ok (lo, hi)) :
    pin.offset.toNat % 4096 = 0 ∧ (pin.length area.size).toNat % 4096 = 0 ∧
      pin.offset.toNat + (pin.length area.size).toNat ≤ (pageAlign area.size).toNat ∧
      lo.toNat = pin.offset.toNat / 4096 ∧
      hi.toNat = (pin.offset.toNat / 4096 + (pin.length area.size).toNat / 4096 + (2 ^ 32 - 1)) % 2 ^ 32 := by
  unfold pinRequest at h
  split at h
  · cases h
  simp only at h
  split at h
  · cases h
  rename_i hal
  rw [not_not, aligned_iff] at hal
  split at h
  · cases h
  rename_i hwrap
  split at h
  · cases h
  rename_i hend
  obtain ⟨rfl, rfl⟩ := Prod.mk.inj (Except.ok.inj h)
  have hmax : ((0 : UInt32) - 1 - pin.offset).toNat = 2 ^ 32 - 1 - pin.offset.toNat := by
    have hone : ((0 : UInt32) - 1).toNat = 2 ^ 32 - 1 := by decide
    have := pin.offset.toNat_lt
    rw [UInt32.toNat_sub, hone]
    omega
  rw [UInt32.lt_iff_toNat_lt, hmax] at hwrap
  rw [UInt32.lt_iff_toNat_lt, UInt32.toNat_add] at hend
  have hoff := pin.offset.toNat_lt
  have hps : pageSize.toNat = 4096 := rfl
  refine ⟨hal.1, hal.2, ?_, by rw [UInt32.toNat_div, hps], ?_⟩
  · rw [Nat.mod_eq_of_lt (by omega)] at hend
    omega
  · have hone : (1 : UInt32).toNat = 1 := rfl
    rw [UInt32.toNat_sub, UInt32.toNat_add, UInt32.toNat_div, UInt32.toNat_div, hps, hone]
    omega

/-- The pages of a request that goes through are pages of the area, unless it asks for everything from the end onward. -/
theorem pinRequest_in_area {area : Area} {pin : Pin} {lo hi : UInt32} (h : pinRequest area (some pin) = .ok (lo, hi)) :
    lo ≤ hi ∧ hi < pageAlign area.size / pageSize ↔ ¬ (pin.len = 0 ∧ pin.offset = pageAlign area.size) := by
  obtain ⟨hoff, hlen, hend, hlo, hhi⟩ := pinRequest_ok h
  have hzero : (pin.len = 0 ∧ pin.offset = pageAlign area.size) ↔ (pin.length area.size).toNat = 0 := by
    unfold Pin.length
    split
    next hz =>
      rw [UInt32.toNat_sub]
      have h2 := (pageAlign area.size).toNat_lt
      rw [← UInt32.toNat_inj (a := pin.offset)]
      constructor
      · rintro ⟨-, heq⟩
        omega
      · intro hmod
        refine ⟨hz, ?_⟩
        omega
    next hnz =>
      refine iff_of_false (fun hx => hnz hx.1) fun hx => hnz ?_
      rw [← UInt32.toNat_inj]
      exact hx
  have hsize : (pageAlign area.size / pageSize).toNat = (pageAlign area.size).toNat / 4096 := by
    rfl
  have hbig := (pageAlign area.size).toNat_lt
  rw [hzero, UInt32.le_iff_toNat_le, UInt32.lt_iff_toNat_lt, hlo, hhi, hsize]
  by_cases hz : (pin.length area.size).toNat = 0
  · refine iff_of_false (fun hx => ?_) (not_not_intro hz)
    omega
  · refine iff_of_true ?_ hz
    omega

theorem pinRequest_in_area_last : pinRequest ⟨8000, true⟩ (some ⟨4096, 4096⟩) = .ok (1, 1) ∧
    ((1 : UInt32) ≤ 1 ∧ 1 < pageAlign 8000 / pageSize) :=
  have h : pinRequest ⟨8000, true⟩ (some ⟨4096, 4096⟩) = .ok (1, 1) := by decide
  ⟨h, (pinRequest_in_area h).mpr (by decide)⟩

/-- Everything from the end of an area of two pages onward, and everything in an area whose size does not fit in pages. -/
theorem pinRequest_past_end :
    pinRequest ⟨8192, true⟩ (some ⟨8192, 0⟩) = .ok (2, 1) ∧
      pinRequest ⟨0xfffff001, true⟩ (some ⟨0, 0⟩) = .ok (0, 0xffffffff) ∧ pageAlign 0xfffff001 / pageSize = 0 := by
  decide

end G3Mod.Ashmem
