import Mathlib.Tactic.Ring

/-!
# Slow queues

`bfq_update_peak_rate` of `block/bfq-iosched.c`. The 64-bit quantities do not overflow; `bfq_service_t` has 32 bits.
-/

namespace G3Mod.Bfq

structure Data where
  peakRate : Nat
  peakRateSamples : Nat
  maxBudget : Nat
  userMaxBudget : Nat
  budgetsAssigned : Nat

/-- A queue, its last slice, and whether the slice ended by `BFQ_BFQQ_BUDGET_TIMEOUT`. -/
structure Slice where
  sync : Bool
  budgetNew : Bool
  seeky : Bool
  service : Nat
  budget : Nat
  usecs : Nat
  budgetTimeout : Bool

def bfqMaxBudget (d : Data) : Nat := if d.budgetsAssigned < 194 then 16 * 1024 else d.maxBudget

def bfqCalcMaxBudget (peakRate timeout : Nat) : Nat := peakRate * 1000 * timeout / 2 ^ 16 % 2 ^ 32

section

variable (timeout : Nat) (q : Slice) (d : Data)

/-- The estimate of the peak rate, and what is left in `bw`. -/
def filterRate (bw : Nat) : Nat × Data :=
  if q.usecs ≤ 20000 then (bw, d)
  else
    let filtered := decide (d.peakRate < bw) || !q.seeky && q.budgetTimeout
    let peakRate := if filtered then d.peakRate * 7 / 8 + bw / 8 else d.peakRate
    let samples := if d.peakRateSamples < 32 then d.peakRateSamples + 1 else d.peakRateSamples
    let update := filtered || d.peakRateSamples == 31
    (if filtered then bw / 8 else bw,
      { d with
        peakRate, peakRateSamples := samples
        maxBudget :=
          if samples = 32 ∧ update = true ∧ d.userMaxBudget = 0 then bfqCalcMaxBudget peakRate timeout
          else d.maxBudget })

def bfqUpdatePeakRate : Bool × Data :=
  if q.sync = false ∨ q.budgetNew = true ∨ q.usecs < 100 ∨ 2 ^ 31 - 1 ≤ q.usecs then (false, d)
  else
    let r := filterRate timeout q d (q.service * 2 ^ 16 / q.usecs)
    if q.budget ≤ bfqMaxBudget r.2 / 8 then (false, r.2)
    else (decide (4 * q.budget % 2 ^ 32 / 3 < r.1 * 1000 * timeout / 2 ^ 16), r.2)

def slow : Bool := (bfqUpdatePeakRate timeout q d).1

/-- The service that `bfq_bfqq_expire` charges. -/
def charged : Nat :=
  if slow timeout q d = true ∨ q.budgetTimeout = true ∧ q.budget / 3 ≤ q.budget - q.service then q.budget
  else q.service

/-- At its rate the queue does not complete its budget before the timeout. -/
def Late : Prop := q.service * 1000 * timeout < q.budget * q.usecs

def SlowRight : Prop :=
  (slow timeout q d = true → Late timeout q) ∧
    (3 * (q.service * 1000 * timeout) < 2 * (q.budget * q.usecs) → slow timeout q d = true) ∧
    (q.budgetTimeout = false → charged timeout q d ≠ q.service → Late timeout q)

end

variable {timeout : Nat} {q : Slice} {d : Data}

theorem filterRate_le (bw : Nat) : (filterRate timeout q d bw).1 ≤ bw := by
  unfold filterRate
  split
  · rfl
  dsimp only
  split
  · exact Nat.div_le_self _ _
  · rfl

/-- The comparison is the wrong way round: only a queue that is fast enough is called slow. -/
theorem not_late_of_slow (h : slow timeout q d = true) (hb : q.budget < 2 ^ 30) : ¬Late timeout q := by
  unfold slow bfqUpdatePeakRate at h
  split at h
  · cases h
  dsimp only at h
  split at h
  · cases h
  generalize hr : (filterRate timeout q d (q.service * 2 ^ 16 / q.usecs)).1 = bw at h
  have hbw : bw * q.usecs ≤ q.service * 2 ^ 16 := by
    rw [← hr]
    exact (Nat.mul_le_mul_right _ (filterRate_le _)).trans (Nat.div_mul_le_self _ _)
  have hbudget : q.budget * 2 ^ 16 ≤ bw * 1000 * timeout := by
    have := of_decide_eq_true h
    omega
  have key := calc
    q.budget * q.usecs * 2 ^ 16 = q.budget * 2 ^ 16 * q.usecs := Nat.mul_right_comm ..
    _ ≤ bw * 1000 * timeout * q.usecs := Nat.mul_le_mul_right _ hbudget
    _ = bw * q.usecs * (1000 * timeout) := by ring
    _ ≤ q.service * 2 ^ 16 * (1000 * timeout) := Nat.mul_le_mul_right _ hbw
    _ = q.service * 1000 * timeout * 2 ^ 16 := by ring
  exact Nat.not_lt.mpr (Nat.le_of_mul_le_mul_right key (by decide))

end G3Mod.Bfq
