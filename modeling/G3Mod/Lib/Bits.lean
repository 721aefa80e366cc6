import Mathlib.Data.Nat.Bitwise

/-!
# Words of bits

The lowest bit of a word that is set, and setting and clearing one bit.
-/

namespace Lib

variable {x y fuel i j : Nat}

def lowBit : Nat → Nat → Nat
  | 0, _ => 0
  | fuel + 1, x => if x % 2 = 1 then 0 else lowBit fuel (x / 2) + 1

theorem testBit_lowBit (hx : x ≠ 0) (hlt : x < 2 ^ fuel) : x.testBit (lowBit fuel x) = true := by
  induction fuel generalizing x with
  | zero => omega
  | succ fuel ih =>
    rw [lowBit]
    split
    · next hodd => rw [Nat.testBit_zero, hodd]; rfl
    next heven =>
      rw [Nat.testBit_succ]
      exact ih (by omega) (by rw [pow_succ] at hlt; omega)

theorem lt_of_testBit (hlt : x < 2 ^ fuel) (hi : x.testBit i = true) : i < fuel := by
  by_contra hge
  rw [Nat.testBit_lt_two_pow (Nat.lt_of_lt_of_le hlt (Nat.pow_le_pow_right (by decide) (Nat.le_of_not_lt hge)))] at hi
  cases hi

theorem ne_zero_iff_testBit : x ≠ 0 ↔ ∃ i, x.testBit i = true := by
  constructor
  · intro h
    by_contra hno
    refine h (Nat.eq_of_testBit_eq fun i => ?_)
    by_contra hne
    exact hno ⟨i, by simpa using hne⟩
  · rintro ⟨i, hi⟩ rfl
    rw [Nat.zero_testBit] at hi
    cases hi

/-! ## Setting and clearing a bit -/

def setBit (x i : Nat) : Nat := x ||| 2 ^ i

def clearBit (x i : Nat) : Nat := if x.testBit i then x ^^^ 2 ^ i else x

@[simp] theorem testBit_setBit : (setBit x i).testBit j = (x.testBit j || decide (i = j)) := by
  rw [setBit, Nat.testBit_or, Nat.testBit_two_pow]

@[simp] theorem testBit_clearBit : (clearBit x i).testBit j = (x.testBit j && !decide (i = j)) := by
  unfold clearBit
  by_cases hij : i = j
  · subst hij
    split
    · next h => simp [Nat.testBit_xor, h]
    · next h => simp [h]
  · split
    · simp [Nat.testBit_xor, hij]
    · simp [hij]

theorem setBit_ne_zero : setBit x i ≠ 0 := ne_zero_iff_testBit.mpr ⟨i, by simp⟩

theorem setBit_lt (h : x < 2 ^ fuel) (hi : i < fuel) : setBit x i < 2 ^ fuel :=
  Nat.or_lt_two_pow h (Nat.pow_lt_pow_right (by decide) hi)

theorem clearBit_lt (h : x < 2 ^ fuel) : clearBit x i < 2 ^ fuel := by
  refine Nat.lt_pow_two_of_testBit _ fun j hj => ?_
  rw [testBit_clearBit, Nat.testBit_lt_two_pow (Nat.lt_of_lt_of_le h (Nat.pow_le_pow_right (by decide) hj)), Bool.false_and]

end Lib
