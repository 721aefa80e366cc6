import Mathlib.Algebra.BigOperators.Group.List.Lemmas
import Mathlib.Algebra.Ring.Nat

/-!
# Sums over lists without repetitions

How a sum over a list of keys changes when the value of one key changes.
-/

namespace Lib

variable {ι M : Type} [AddCommMonoid M]

theorem pairwise_insert {r : ι → ι → Prop} {L R : List ι} {b : ι} (h : (L ++ R).Pairwise r) (hL : ∀ c ∈ L, r c b)
    (hR : ∀ c ∈ R, r b c) : (L ++ b :: R).Pairwise r := by
  obtain ⟨h1, h2, h3⟩ := List.pairwise_append.mp h
  refine List.pairwise_append.mpr ⟨h1, List.pairwise_cons.mpr ⟨hR, h2⟩, fun a ha c hc => ?_⟩
  rcases List.mem_cons.mp hc with rfl | hc
  · exact hL a ha
  · exact h3 a ha c hc

theorem sum_map_congr {l : List ι} {f g : ι → M} (h : ∀ i ∈ l, f i = g i) :
    (l.map f).sum = (l.map g).sum := by
  rw [List.map_congr_left h]

theorem countP_eq_sum_toNat (p : ι → Bool) (l : List ι) : l.countP p = (l.map fun i => (p i).toNat).sum := by
  induction l with
  | nil => rfl
  | cons i l ih =>
    rw [List.countP_cons, ih, List.map_cons, List.sum_cons, Nat.add_comm]
    cases p i with
    | true => rfl
    | false => rfl

theorem countP_lt_countP {p q : ι → Bool} {l : List ι} {i : ι} (h : ∀ j ∈ l, p j = true → q j = true) (hi : i ∈ l)
    (hp : p i = false) (hq : q i = true) : l.countP p < l.countP q := by
  obtain ⟨pre, post, rfl⟩ := List.append_of_mem hi
  have hpre : pre.countP p ≤ pre.countP q := List.countP_mono_left fun j hj => h j (List.mem_append_left _ hj)
  have hpost : post.countP p ≤ post.countP q :=
    List.countP_mono_left fun j hj => h j (List.mem_append_right _ (List.mem_cons_of_mem _ hj))
  rw [List.countP_append, List.countP_append, List.countP_cons_of_neg (by simp [hp]), List.countP_cons_of_pos hq]
  omega

theorem sum_map_change [DecidableEq ι] {l : List ι} {f g : ι → M} {i : ι} (hl : l.Nodup) (hi : i ∈ l)
    (h : ∀ j ∈ l, j ≠ i → g j = f j) : (l.map g).sum + f i = (l.map f).sum + g i := by
  have he : ((l.erase i).map g).sum = ((l.erase i).map f).sum := by
    apply sum_map_congr
    intro j hj
    rw [hl.mem_erase_iff] at hj
    exact h j hj.2 hj.1
  rw [← List.sum_map_erase f hi, ← List.sum_map_erase g hi, he, add_right_comm, add_comm (g i), add_right_comm]

theorem countP_change [DecidableEq ι] {l : List ι} {p q : ι → Bool} {i : ι} (hl : l.Nodup) (hi : i ∈ l)
    (h : ∀ j ∈ l, j ≠ i → q j = p j) : l.countP q + (p i).toNat = l.countP p + (q i).toNat := by
  have he : (l.erase i).countP q = (l.erase i).countP p := by
    apply List.countP_congr
    intro j hj
    rw [hl.mem_erase_iff] at hj
    rw [h j hj.2 hj.1]
  have hp := (List.perm_cons_erase hi).countP_eq p
  have hq := (List.perm_cons_erase hi).countP_eq q
  rw [hp, hq, List.countP_cons, List.countP_cons, he]
  cases p i <;> cases q i <;> simp

end Lib
