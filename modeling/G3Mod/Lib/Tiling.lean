import Mathlib.Order.Basic

/-!
# Intervals that follow each other

The intervals `[i, i + len i)` for the heads `i` cover `[0, n)` without overlap.
-/

namespace Lib

/-- The intervals of the heads follow each other from 0 to `n`. -/
structure Tiling (n : Nat) (len : Nat → Nat) (head : Nat → Prop) : Prop where
  zero : 0 < n → head 0
  lt : ∀ {i}, head i → i < n
  pos : ∀ {i}, head i → 0 < len i
  next : ∀ {i}, head i → i + len i = n ∨ head (i + len i)
  gap : ∀ {i j}, head i → i < j → j < i + len i → ¬ head j

inductive Reached (n : Nat) (len : Nat → Nat) : Nat → Prop
  | zero : 0 < n → Reached n len 0
  | next {i : Nat} : Reached n len i → i + len i < n → Reached n len (i + len i)

namespace Tiling

variable {n : Nat} {len len' : Nat → Nat} {head : Nat → Prop} {i j x b c : Nat} (t : Tiling n len head)

theorem nil : Tiling 0 len fun _ => False where
  zero h := absurd h (Nat.lt_irrefl 0)
  lt h := h.elim
  pos h := h.elim
  next h := h.elim
  gap h := h.elim

include t

theorem end_le (hi : head i) : i + len i ≤ n := by
  rcases t.next hi with h | h
  · exact Nat.le_of_eq h
  · exact Nat.le_of_lt (t.lt h)

theorem exists_block (hx : x < n) : ∃ i, head i ∧ i ≤ x ∧ x < i + len i := by
  induction x with
  | zero => exact ⟨0, t.zero hx, Nat.le_refl 0, by have := t.pos (t.zero hx); omega⟩
  | succ x ih =>
    obtain ⟨i, hi, hle, hlt⟩ := ih (by omega)
    by_cases h : x + 1 < i + len i
    · exact ⟨i, hi, by omega, h⟩
    have e : i + len i = x + 1 := by omega
    have hnext : head (x + 1) := by
      rcases t.next hi with h' | h'
      · omega
      · rwa [e] at h'
    exact ⟨x + 1, hnext, Nat.le_refl _, by have := t.pos hnext; omega⟩

theorem end_le_of_lt (hi : head i) (hj : head j) (hlt : i < j) : i + len i ≤ j := by
  by_contra h
  exact t.gap hi hlt (by omega) hj

theorem unique (hi : head i) (hj : head j) (hix : i ≤ x) (hxi : x < i + len i) (hjx : j ≤ x)
    (hxj : x < j + len j) : i = j := by
  rcases Nat.lt_trichotomy i j with h | h | h
  · have := t.end_le_of_lt hi hj h
    omega
  · exact h
  · have := t.end_le_of_lt hj hi h
    omega

theorem exists_previous (hj : head j) (hpos : 0 < j) : ∃ i, head i ∧ i + len i = j := by
  obtain ⟨i, hi, hle, hlt⟩ := t.exists_block (x := j - 1) (by have := t.lt hj; omega)
  have := t.end_le_of_lt hi hj (by omega)
  exact ⟨i, hi, by omega⟩

theorem reached_iff : Reached n len i ↔ head i := by
  constructor
  · intro h
    induction h with
    | zero h => exact t.zero h
    | next _ hlt ih =>
      rcases t.next ih with h | h
      · omega
      · exact h
  intro h
  induction i using Nat.strongRecOn with
  | _ i ih =>
    rcases Nat.eq_zero_or_pos i with rfl | hpos
    · exact .zero (t.lt h)
    · obtain ⟨j, hj, rfl⟩ := t.exists_previous h hpos
      exact .next (ih j (by have := t.pos hj; omega) hj) (t.lt h)

theorem congr (hlen : ∀ i, head i → len' i = len i) : Tiling n len' head where
  zero := t.zero
  lt := t.lt
  pos hi := by
    rw [hlen _ hi]
    exact t.pos hi
  next hi := by
    rw [hlen _ hi]
    exact t.next hi
  gap hi hlt hlt' := by
    rw [hlen _ hi] at hlt'
    exact t.gap hi hlt hlt'

theorem eq_of_end_eq (hi : head i) (hj : head j) (h : i + len i = j + len j) : i = j := by
  have hpi := t.pos hi
  have hpj := t.pos hj
  exact t.unique hi hj (x := i + len i - 1) (by omega) (by omega) (by omega) (by omega)

theorem join (hb : head b) (hc : c = n ∨ head c) (hlt : b < c) (h1 : len' b = c - b)
    (hlen : ∀ i, head i → i < b ∨ c ≤ i → len' i = len i) :
    Tiling n len' fun i => head i ∧ (i ≤ b ∨ c ≤ i) where
  zero h := ⟨t.zero h, .inl (Nat.zero_le _)⟩
  lt h := t.lt h.1
  pos := by
    rintro i ⟨hi, hout⟩
    by_cases e : i = b
    · rw [e, h1]
      omega
    · rw [hlen i hi (by omega)]
      exact t.pos hi
  next := by
    rintro i ⟨hi, hout⟩
    by_cases e : i = b
    · rw [e, h1, Nat.add_sub_cancel' (Nat.le_of_lt hlt)]
      exact hc.imp_right fun h => ⟨h, .inr (Nat.le_refl _)⟩
    rw [hlen i hi (by omega)]
    refine (t.next hi).imp_right fun h => ⟨h, ?_⟩
    rcases hout with hle | hge
    · exact .inl (t.end_le_of_lt hi hb (by omega))
    · exact .inr (by omega)
  gap := by
    rintro i j ⟨hi, hout⟩ hij hij' ⟨hj, hout'⟩
    by_cases e : i = b
    · rw [e, h1] at hij'
      omega
    · rw [hlen i hi (by omega)] at hij'
      exact t.gap hi hij hij' hj

theorem split (hb : head b) (hc : 0 < c) (hcb : c < len b) (h1 : len' b = c) (h2 : len' (b + c) = len b - c)
    (hlen : ∀ i, head i → i ≠ b → len' i = len i) : Tiling n len' fun i => head i ∨ i = b + c := by
  have hend := t.end_le hb
  have hlen' : ∀ {i}, head i → i ≠ b → len' i = len i := fun hi hne => hlen _ hi hne
  refine ⟨fun h => .inl (t.zero h), ?_, ?_, ?_, ?_⟩
  · rintro i (hi | rfl)
    · exact t.lt hi
    · omega
  · rintro i (hi | rfl)
    · by_cases e : i = b
      · rw [e, h1]
        exact hc
      · rw [hlen' hi e]
        exact t.pos hi
    · omega
  · rintro i (hi | rfl)
    · by_cases e : i = b
      · rw [e, h1]
        exact .inr (.inr rfl)
      · rw [hlen' hi e]
        exact (t.next hi).imp_right .inl
    · rw [h2, Nat.add_assoc, Nat.add_sub_cancel' (by omega)]
      exact (t.next hb).imp_right .inl
  · rintro i j (hi | rfl) hlt hlt' (hj | rfl)
    · by_cases e : i = b
      · subst e
        exact t.gap hi hlt (by omega) hj
      · exact t.gap hi hlt (by rw [hlen' hi e] at hlt'; exact hlt') hj
    · by_cases e : i = b
      · rw [e, h1] at hlt'
        omega
      · rw [hlen' hi e] at hlt'
        have h3 := t.unique hi hb (x := b + c) (by omega) hlt' (by omega) (by omega)
        exact e h3
    · exact t.gap hb (j := j) (by omega) (by omega) hj
    · omega

theorem merge (len' : Nat → Nat) (hb : head b) (hb' : head (b + len b)) (h1 : len' b = len b + len (b + len b))
    (hlen : ∀ i, head i → i ≠ b → i ≠ b + len b → len' i = len i) :
    Tiling n len' fun i => head i ∧ i ≠ b + len b := by
  have hpos := t.pos hb
  have hpos' := t.pos hb'
  have heads : (fun i => head i ∧ (i ≤ b ∨ b + len b + len (b + len b) ≤ i)) = fun i => head i ∧ i ≠ b + len b := by
    funext i
    refine propext (and_congr_right fun hi => ⟨fun hout => by omega, fun hne => ?_⟩)
    have h2 := t.gap hb (j := i)
    have h3 := t.gap hb' (j := i)
    grind
  rw [← heads]
  exact t.join hb (t.next hb') (by omega) (by omega) fun i hi hout => hlen i hi (by omega) (by omega)

theorem append (len' : Nat → Nat) (hpos : 0 < len' n) (hlen : ∀ i, head i → len' i = len i) :
    Tiling (n + len' n) len' fun i => head i ∨ i = n := by
  refine ⟨fun _ => ?_, ?_, ?_, ?_, ?_⟩
  · rcases Nat.eq_zero_or_pos n with h | h
    · exact .inr h.symm
    · exact .inl (t.zero h)
  · rintro i (hi | rfl)
    · exact Nat.lt_of_lt_of_le (t.lt hi) (Nat.le_add_right _ _)
    · omega
  · rintro i (hi | rfl)
    · rw [hlen i hi]
      exact t.pos hi
    · exact hpos
  · rintro i (hi | rfl)
    · rw [hlen i hi]
      exact .inr ((t.next hi).symm.imp_right id)
    · exact .inl rfl
  · rintro i j (hi | rfl) hlt hlt' (hj | rfl)
    · exact t.gap hi hlt (by rw [hlen i hi] at hlt'; exact hlt') hj
    · have := t.end_le hi
      rw [hlen i hi] at hlt'
      omega
    · have := t.lt hj
      omega
    · omega

theorem eq_of_subset {head' : Nat → Prop} (t' : Tiling n len' head') (h : ∀ i, head i → head' i ∧ len' i = len i) :
    head' i ↔ head i := by
  refine ⟨fun hi => ?_, fun hi => (h i hi).1⟩
  obtain ⟨j, hj, hle, hlt⟩ := t.exists_block (t'.lt hi)
  obtain ⟨hj', hlen⟩ := h j hj
  have := t'.unique hj' hi hle (by omega) (Nat.le_refl i) (by have := t'.pos hi; omega)
  exact this ▸ hj

end Tiling

end Lib
