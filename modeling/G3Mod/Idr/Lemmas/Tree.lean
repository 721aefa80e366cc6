import Mathlib.Algebra.Order.Group.Nat
import Mathlib.Tactic.Ring.RingNF
import Mathlib.Data.Nat.Bitwise
import G3Mod.Idr.Model
import G3Mod.Lib.ListSum

/-!
# The digits of an id

The ids that a slot at level `l` stands for are those with the same `place i l`.
-/

namespace G3Mod.Idr

variable {i j l m n q k : Nat}

/-- The number of the slot at level `l` on the way to `i`, among all slots at that level. -/
def place (i l : Nat) : Nat := i / idrSize ^ l

theorem place_zero : place i 0 = i := by simp [place]

theorem place_succ : place i (l + 1) = place i l / idrSize := by
  rw [place, place, Nat.pow_succ, Nat.div_div_eq_div_mul]

theorem place_one : place i 1 = i / idrSize := by rw [place_succ, place_zero]

theorem two_pow_mul : 2 ^ (idrBits * l) = idrSize ^ l := by
  rw [Nat.pow_mul]
  rfl

theorem digit_eq : digit i l = place i l % idrSize := by
  rw [digit, Nat.shiftRight_eq_div_pow, two_pow_mul, place]

theorem digit_lt : digit i l < idrSize := by
  exact Nat.mod_lt _ (by decide)

theorem size_pos : 0 < idrSize ^ l := Nat.pow_pos (by decide)

theorem place_eq_iff : place i l = q ↔ q * idrSize ^ l ≤ i ∧ i < (q + 1) * idrSize ^ l := by
  rw [place, Nat.div_eq_iff size_pos]
  have := size_pos (l := l)
  rw [Nat.add_mul, Nat.one_mul]
  omega

theorem place_add (d : Nat) : place i (l + d) = place i l / idrSize ^ d := by
  rw [place, place, Nat.pow_add, Nat.div_div_eq_div_mul]

theorem place_mul : place (q * idrSize ^ l) l = q := Nat.mul_div_cancel _ size_pos

theorem split_place : idrSize * place i (l + 1) + place i l % idrSize = place i l := by
  rw [place_succ]
  exact Nat.div_add_mod (place i l) idrSize

theorem child_place : child (l + 1, place i (l + 2)) (digit i (l + 1)) = (l, place i (l + 1)) := by
  simp only [child, digit_eq, Nat.add_sub_cancel]
  rw [split_place]

/-! ## The arithmetic of `sub_alloc` -/

theorem or_mask (x d : Nat) : x ||| (2 ^ d - 1) = x / 2 ^ d * 2 ^ d + (2 ^ d - 1) := by
  apply Nat.eq_of_testBit_eq
  intro b
  have hlt : 2 ^ d - 1 < 2 ^ d := Nat.sub_lt (Nat.two_pow_pos d) Nat.one_pos
  rw [Nat.testBit_or, Nat.mul_comm, Nat.testBit_two_pow_mul_add _ hlt, Nat.testBit_two_pow_sub_one]
  by_cases hb : b < d
  · simp [hb]
  · rw [Nat.testBit_div_two_pow, Nat.sub_add_cancel (Nat.le_of_not_lt hb)]
    simp [hb]

theorem nextAt_eq (h : (place i l + 1) * idrSize ^ l < 2 ^ 32) : nextAt i l = (place i l + 1) * idrSize ^ l := by
  rw [nextAt, or_mask, two_pow_mul]
  have hpos := size_pos (l := l)
  have e : i / idrSize ^ l * idrSize ^ l + (idrSize ^ l - 1) + 1 = (place i l + 1) * idrSize ^ l := by
    rw [place, Nat.add_mul]
    omega
  rw [e, Nat.mod_eq_of_lt h]

theorem xor_digit (x : Nat) (hm : m < 2 ^ 5) : x ^^^ (x % 2 ^ 5) ^^^ m = 2 ^ 5 * (x / 2 ^ 5) + m := by
  apply Nat.eq_of_testBit_eq
  intro b
  rw [Nat.testBit_xor, Nat.testBit_xor, Nat.testBit_mod_two_pow, Nat.testBit_two_pow_mul_add _ hm,
    Nat.testBit_div_two_pow]
  by_cases hb : b < 5
  · simp [hb]
  have hmb : m.testBit b = false := by
    apply Nat.testBit_lt_two_pow
    exact Nat.lt_of_lt_of_le hm (Nat.pow_le_pow_right (by decide) (Nat.le_of_not_lt hb))
  rw [Nat.sub_add_cancel (Nat.le_of_not_lt hb)]
  simp [hb, hmb]

theorem replaceDigit_eq (hm : m < idrSize) (h : (idrSize * place i (l + 1) + m) * idrSize ^ l < 2 ^ 32) :
    replaceDigit i l (digit i l) m = (idrSize * place i (l + 1) + m) * idrSize ^ l := by
  rw [replaceDigit, digit, Nat.shiftRight_eq_div_pow, two_pow_mul]
  have hx := xor_digit (i / idrSize ^ l) (m := m) hm
  rw [show (2 : Nat) ^ 5 = idrSize from rfl] at hx
  rw [hx, Nat.shiftLeft_eq, two_pow_mul]
  rw [place_succ] at h ⊢
  exact Nat.mod_eq_of_lt h

theorem shiftRight_eq : i >>> (idrBits * l) = place i l := by
  rw [Nat.shiftRight_eq_div_pow, two_pow_mul, place]

/-! # Well-formed trees

The bit of a slot says that all ids below it are allocated, the count of a layer is that of its slots in use, and a
layer other than the top has a layer above. -/

open Function Lib

variable {s s' : State} {d start : Nat} {n n' : Layer} {p p' : Name}

@[grind =] theorem setLayer_layer (v : Option Layer) : (setLayer p v s).layer p' = if p' = p then v else s.layer p' := by
  simp [setLayer, update_apply]

@[simp, grind =] theorem setLayer_layers (v : Option Layer) : (setLayer p v s).layers = s.layers := rfl

theorem getLayer_eq : getLayer p s = .ok n ↔ s.layer p = some n := by
  unfold getLayer
  cases s.layer p <;> simp

@[grind =] theorem setBit_bitmap {b : Bool} : (n.setBit m b).bitmap j = if j = m then b else n.bitmap j := by
  simp [Layer.setBit, update_apply]

theorem full_iff : n.full = true ↔ ∀ m < idrSize, n.bitmap m = true := by
  simp [Layer.full]

theorem findNextZero_spec (hs : start < idrSize) :
    (n.findNextZero start = idrSize ∧ ∀ j, start ≤ j → j < idrSize → n.bitmap j = true) ∨
      (n.findNextZero start < idrSize ∧ start ≤ n.findNextZero start ∧
        n.bitmap (n.findNextZero start) = false ∧
        ∀ j, start ≤ j → j < n.findNextZero start → n.bitmap j = true) := by
  unfold Layer.findNextZero
  cases h : (List.range' start (idrSize - start)).find? fun m => !n.bitmap m with
  | none => grind
  | some m =>
    have hmem := List.mem_of_find?_eq_some h
    rw [List.mem_range'_1] at hmem
    have hbit := List.find?_some h
    refine .inr ⟨by simp only [Option.getD_some]; omega, hmem.1, by simpa using hbit, fun j hj hlt => ?_⟩
    obtain ⟨_, as, bs, e, has⟩ := List.find?_eq_some_iff_append.mp h
    simp only [Option.getD_some] at hlt
    -- what stands before `m` in the range are the smaller positions
    have hj' : j ∈ List.range' start (idrSize - start) := by rw [List.mem_range'_1]; omega
    rw [e, List.mem_append, List.mem_cons] at hj'
    rcases hj' with hj' | rfl | hj'
    · simpa using has j hj'
    · omega
    · grind

/-! ## Allocated ids -/

def Alloc (s : State) (i : Nat) : Prop := (value s i).isSome = true

def Packed (s : State) (l q : Nat) : Prop := ∀ i, place i l = q → Alloc s i

def used (s : State) : Nat → Nat → Bool
  | 0, q => (value s q).isSome
  | l + 1, q => (s.layer (l, q)).isSome

def usedSlots (s : State) (l k : Nat) : Nat := (List.range idrSize).countP fun m => used s l (idrSize * k + m)

structure Shape (s : State) : Prop where
  top : s.top = if s.layers = 0 then none else some (s.layers - 1)
  layersLe : s.layers ≤ maxLevel - 1
  root : 0 < s.layers → ∃ n, s.layer (s.layers - 1, 0) = some n
  inside : ∀ {l k n}, s.layer (l, k) = some n → l < s.layers ∧ (l + 1 = s.layers → k = 0)
  parent : ∀ {l k n}, s.layer (l, k) = some n → l + 1 < s.layers → ∃ n', s.layer (l + 1, k / idrSize) = some n'
  level : ∀ {l k n}, s.layer (l, k) = some n → n.layer = l

structure Wf (s : State) : Prop extends Shape s where
  bit : ∀ {l k n m}, s.layer (l, k) = some n → m < idrSize →
    (n.bitmap m = true ↔ Packed s l (idrSize * k + m))
  count : ∀ {l k n}, s.layer (l, k) = some n → n.count = usedSlots s l k
  null : ∀ {k n m}, s.layer (0, k) = some n → m < idrSize → n.bitmap m = false → n.ary m = 0

theorem value_of_leaf (h : s.layer (0, i / idrSize) = some n) :
    value s i = if n.bitmap (i % idrSize) then some (n.ary (i % idrSize)) else none := by
  simp [value, h]

theorem value_of_no_leaf (h : s.layer (0, i / idrSize) = none) : value s i = none := by
  simp [value, h]

theorem value_congr (h : s'.layer (0, i / idrSize) = s.layer (0, i / idrSize)) : value s' i = value s i := by
  simp only [value, h]

theorem packed_zero : Packed s 0 q ↔ Alloc s q := by
  simp [Packed, place_zero]

theorem mul_add_div (hm : m < idrSize) : (idrSize * k + m) / idrSize = k := by
  rw [Nat.mul_add_div (by decide), Nat.div_eq_of_lt hm, Nat.add_zero]

theorem mul_add_mod (hm : m < idrSize) : (idrSize * k + m) % idrSize = m := by
  rw [Nat.mul_add_mod, Nat.mod_eq_of_lt hm]

theorem packed_succ : Packed s (l + 1) k ↔ ∀ m < idrSize, Packed s l (idrSize * k + m) := by
  constructor
  · intro h m hm i hi
    exact h i (by rw [place_succ, hi, mul_add_div hm])
  · intro h i hi
    refine h (place i l % idrSize) (Nat.mod_lt _ (by decide)) i ?_
    rw [← hi, split_place]

theorem Packed.congr (h : ∀ i, place i l = q → (value s' i).isSome = (value s i).isSome) :
    Packed s' l q ↔ Packed s l q :=
  forall₂_congr fun i hi => by rw [Alloc, Alloc, h i hi]

theorem Shape.ancestor (h : Shape s) (hn : s.layer (l, k) = some n) (hd : l + d < s.layers) :
    ∃ n', s.layer (l + d, k / idrSize ^ d) = some n' := by
  induction d with
  | zero => exact ⟨n, by simpa using hn⟩
  | succ d ih =>
    obtain ⟨n1, hn1⟩ := ih (by omega)
    obtain ⟨n2, hn2⟩ := h.parent hn1 (by omega)
    exact ⟨n2, by rw [Nat.pow_succ, ← Nat.div_div_eq_div_mul]; exact hn2⟩

theorem place_top (hi : i < idrSize ^ s.layers) : place i s.layers = 0 := Nat.div_eq_of_lt hi

namespace Wf

variable (h : Wf s)

include h

theorem full_iff_packed (hn : s.layer (l, k) = some n) : n.full = true ↔ Packed s (l + 1) k := by
  rw [full_iff, packed_succ]
  exact forall₂_congr fun m hm => h.bit hn hm

theorem value_none_of_missing (hl : l < s.layers) (hn : s.layer (l, place i (l + 1)) = none) :
    value s i = none := by
  apply value_of_no_leaf
  cases hleaf : s.layer (0, i / idrSize) with
  | none => rfl
  | some n =>
    obtain ⟨n', hn'⟩ := h.ancestor hleaf (d := l) (by omega)
    rw [← place_one, ← place_add, Nat.zero_add, Nat.add_comm 1 l, hn] at hn'
    cases hn'

theorem value_none_of_ge (hi : idrSize ^ s.layers ≤ i) : value s i = none := by
  apply value_of_no_leaf
  cases hleaf : s.layer (0, i / idrSize) with
  | none => rfl
  | some n =>
    obtain ⟨hlt, _⟩ := h.inside hleaf
    obtain ⟨n', hn'⟩ := h.ancestor hleaf (d := s.layers - 1) (by omega)
    obtain ⟨_, htop⟩ := h.inside hn'
    have e : place i s.layers = 0 := by
      have := htop (by omega)
      rw [← place_one, ← place_add] at this
      rwa [show 1 + (s.layers - 1) = s.layers by omega] at this
    have := (place_eq_iff.mp e).2
    omega

theorem not_packed_of_missing (hl : l < s.layers) (hn : s.layer (l, q) = none) (hm : m < idrSize) :
    ¬ Packed s l (idrSize * q + m) := by
  intro hp
  have hi := hp ((idrSize * q + m) * idrSize ^ l) place_mul
  rw [Alloc, h.value_none_of_missing hl] at hi
  · cases hi
  · rw [place_succ, place_mul, mul_add_div hm, hn]

theorem findLoop_eq (hl : l < s.layers) :
    findLoop i (l + 1) (l, place i (l + 1)) s = .ok ((value s i).getD 0) := by
  induction l with
  | zero =>
    rw [place_one]
    cases hn : s.layer (0, i / idrSize) with
    | none => simp [findLoop, hn, value_of_no_leaf hn]
    | some n =>
      have hlv := h.level hn
      rw [value_of_leaf hn]
      cases hb : n.bitmap (i % idrSize) with
      | true => simp [findLoop, hn, hlv, digit_eq, place_zero]
      | false =>
        simp [findLoop, hn, hlv, digit_eq, place_zero, h.null hn (Nat.mod_lt _ (by decide)) hb]
  | succ l ih =>
    cases hn : s.layer (l + 1, place i (l + 2)) with
    | none => simp [findLoop, hn, h.value_none_of_missing hl hn]
    | some n =>
      have hlv := h.level hn
      rw [findLoop, hn]
      simp only [hlv, ne_eq, not_true_eq_false, if_false, Nat.succ_ne_zero]
      rw [child_place]
      exact ih (by omega)

theorem top_eq (hl : 0 < s.layers) : s.top = some (s.layers - 1) := by
  rw [h.top, if_neg (by omega)]

theorem empty (hl : s.layers = 0) (p : Name) : s.layer p = none := by
  have := @h.inside p.1 p.2
  cases hp : s.layer p <;> grind

omit h in
theorem of_no_layers (hn : ∀ p, s.layer p = none) (ht : s.top = none) (hl : s.layers = 0) : Wf s := by
  refine ⟨⟨by rw [ht, if_pos hl], by omega, by omega, ?_, ?_, ?_⟩, ?_, ?_, ?_⟩ <;> simp [hn]

theorem idrFind_eq (hi : i < maxIdBit) : idrFind i s = .ok ((value s i).getD 0) := by
  by_cases hl : s.layers = 0
  · rw [idrFind, h.top, if_pos hl, value_of_no_leaf (h.empty hl _)]
    rfl
  obtain ⟨n, hn⟩ := h.root (by omega)
  have hlv := h.level hn
  simp only [idrFind, h.top_eq (by omega), getLayer_eq.mpr hn, ok_bind, Nat.mod_eq_of_lt hi]
  rw [hlv, Nat.sub_add_cancel (by omega), Nat.mul_comm, two_pow_mul]
  split
  next hge =>
    rw [h.value_none_of_ge hge]
    rfl
  next hlt =>
    have hloop := h.findLoop_eq (i := i) (l := s.layers - 1) (by omega)
    rwa [Nat.sub_add_cancel (by omega), place_top (by omega)] at hloop

end Wf

end G3Mod.Idr
