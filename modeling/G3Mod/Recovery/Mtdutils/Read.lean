import Mathlib.Data.List.Basic

/-!
# `read_block` of `mtdutils.c`

Positions are counted in blocks. A call cannot add `2 ^ 32` errors to the ECC statistics, so the counter has no bound
here; the `ioctl` that reads it does not fail.
-/

namespace G3Mod.Recovery.Mtdutils

abbrev Byte := BitVec 8

/-- Whether all of the block is read, the uncorrectable errors that adds, the bad mark, and the data. -/
structure Block where
  reads : Bool
  failed : Nat
  bad : Bool
  data : List Byte
  deriving DecidableEq

/-- The loop of `read_block` from `pos` on, with `before.failed` and the counter as it is now. -/
def readLoop (before : Nat) : Nat → Nat → List Block → Option (List Byte × Nat)
  | _, _, [] => none
  | failed, pos, b :: bs =>
    let after := failed + b.failed
    if b.reads = true ∧ after = before ∧ b.bad = false ∧ b.data.any (· ≠ 0) = true then some (b.data, pos + 1)
    else readLoop before after (pos + 1) bs

def readBlock (part : List Block) (failed pos : Nat) : Option (List Byte × Nat) :=
  readLoop failed failed pos (part.drop pos)

variable {bs : List Block} {b : Block} {before failed pos : Nat}

def Block.Good (b : Block) : Prop := b.reads = true ∧ b.failed = 0 ∧ b.bad = false ∧ b.data.any (· ≠ 0) = true

instance (b : Block) : Decidable b.Good :=
  inferInstanceAs (Decidable (b.reads = true ∧ b.failed = 0 ∧ b.bad = false ∧ b.data.any (· ≠ 0) = true))

/-- What the call should return: the content of the first good block, and the position after it. -/
def firstGood : Nat → List Block → Option (List Byte × Nat)
  | _, [] => none
  | pos, b :: bs => if b.Good then some (b.data, pos + 1) else firstGood (pos + 1) bs

theorem readLoop_spoiled (h : before < failed) : readLoop before failed pos bs = none := by
  induction bs generalizing failed pos with
  | nil => rfl
  | cons b bs ih =>
    rw [readLoop, if_neg (fun hb => by have := hb.2.1; omega)]
    exact ih (by omega)

theorem firstGood_eq_none : firstGood pos bs = none ↔ ∀ b ∈ bs, ¬b.Good := by
  induction bs generalizing pos with
  | nil => simp [firstGood]
  | cons b bs ih =>
    rw [firstGood]
    split <;> simp [*]

theorem readLoop_cons (hb : ¬b.Good) : readLoop before before pos (b :: bs) =
    if b.failed = 0 then readLoop before before (pos + 1) bs else none := by
  have hskip : ¬(b.reads = true ∧ before + b.failed = before ∧ b.bad = false ∧ b.data.any (· ≠ 0) = true) :=
    fun h => hb ⟨h.1, by omega, h.2.2⟩
  rw [readLoop, if_neg hskip]
  split
  next hz => rw [hz, Nat.add_zero]
  next hz => exact readLoop_spoiled (by omega)

theorem readLoop_eq_iff : readLoop before before pos bs = firstGood pos bs ↔
    ((∃ b ∈ bs, b.Good) → ∀ b ∈ bs.takeWhile (fun b => ¬b.Good), b.failed = 0) := by
  induction bs generalizing pos with
  | nil => simp [readLoop, firstGood]
  | cons b bs ih =>
    rw [firstGood]
    by_cases hb : b.Good
    · have hread : readLoop before before pos (b :: bs) = some (b.data, pos + 1) := by
        rw [readLoop, if_pos ⟨hb.1, by rw [hb.2.1, Nat.add_zero], hb.2.2⟩]
      simp [hb, hread]
    rw [readLoop_cons hb, if_neg hb]
    split
    next hz => simp [ih, hb, hz]
    next hz =>
      -- nothing is read any more, which is right only if there is nothing to be read
      rw [eq_comm, firstGood_eq_none]
      simp [hb, hz]

/-- `read_block` reads the first good block, and fails only if there is none, exactly when no block in front of it has
uncorrectable errors. -/
theorem readBlock_right_iff (part : List Block) (failed pos : Nat) :
    readBlock part failed pos = firstGood pos (part.drop pos) ↔
      ((∃ b ∈ part.drop pos, b.Good) → ∀ b ∈ (part.drop pos).takeWhile (fun b => ¬b.Good), b.failed = 0) :=
  readLoop_eq_iff

theorem good_block_not_read : readBlock [⟨true, 1, false, [7]⟩, ⟨true, 0, false, [9]⟩] 0 0 = none ∧
    firstGood 0 [⟨true, 1, false, [7]⟩, ⟨true, 0, false, [9]⟩] = some ([9], 2) := by decide

end G3Mod.Recovery.Mtdutils
