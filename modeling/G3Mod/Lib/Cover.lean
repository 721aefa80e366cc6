import Mathlib.Algebra.BigOperators.Group.List.Basic
import Mathlib.Algebra.Ring.Nat

/-!
# Intervals that cover a region exactly once

How often an address is covered is a sum over the intervals, which cutting, joining and reordering keep.
-/

namespace Lib

structure Interval where
  start : Nat
  size : Nat
  deriving DecidableEq, Repr

namespace Interval

def cover (I : Interval) (a : Nat) : Nat := if I.start ≤ a ∧ a < I.start + I.size then 1 else 0

theorem cover_split (s k n a : Nat) : cover ⟨s, k + n⟩ a = cover ⟨s, k⟩ a + cover ⟨s + k, n⟩ a := by
  simp only [cover]
  split_ifs <;> omega

theorem cover_empty (s a : Nat) : cover ⟨s, 0⟩ a = 0 := if_neg (by simp)

end Interval

def coverage (l : List Interval) (a : Nat) : Nat := (l.map (·.cover a)).sum

/-- Each address from `lo` to `hi` is in one interval, and no other address is in any. -/
def Covers (l : List Interval) (lo hi : Nat) : Prop := ∀ a, coverage l a = if lo ≤ a ∧ a < hi then 1 else 0

variable {l l' : List Interval} {lo hi s k n a : Nat} {I J : Interval}

@[simp] theorem coverage_cons : coverage (I :: l) a = I.cover a + coverage l a := by simp [coverage]

@[simp] theorem coverage_append : coverage (l ++ l') a = coverage l a + coverage l' a := by simp [coverage]

theorem coverage_perm (h : l.Perm l') : coverage l a = coverage l' a := (h.map _).sum_eq

namespace Covers

theorem congr (h : Covers l lo hi) (heq : ∀ a, coverage l' a = coverage l a) : Covers l' lo hi :=
  fun a => (heq a).trans (h a)

theorem perm (h : Covers l lo hi) (hp : l.Perm l') : Covers l' lo hi :=
  h.congr fun _ => coverage_perm hp.symm

theorem split (h : Covers (⟨s, k + n⟩ :: l) lo hi) : Covers (⟨s, k⟩ :: ⟨s + k, n⟩ :: l) lo hi :=
  h.congr fun a => by simp only [coverage_cons, Interval.cover_split]; omega

end Covers

end Lib
