import Mathlib.Data.List.Nodup

/-!
# Circular lists with a sentinel

Nodes with a link to the next and to the previous one.
-/

namespace Lib

open Function

structure Links (α : Type) where
  next : α → α
  prev : α → α

namespace Links

variable {α : Type} [DecidableEq α]

def insertBefore (L : Links α) (head node : α) : Links α :=
  let L : Links α := { L with next := update L.next node head }
  let L : Links α := { L with prev := update L.prev node (L.prev head) }
  let L : Links α := { L with next := update L.next (L.prev head) node }
  { L with prev := update L.prev head node }

def unlink (L : Links α) (node : α) : Links α :=
  let L : Links α := { L with next := update L.next (L.prev node) (L.next node) }
  { L with prev := update L.prev (L.next node) (L.prev node) }

/-- The nodes from `a` to `t`; the first argument bounds their number. -/
def walk (L : Links α) (t : α) : Nat → α → List α
  | 0, _ => []
  | n + 1, a => if a = t then [] else a :: L.walk t n (L.next a)

end Links

variable {α : Type} {L L' : Links α} {a b t x : α} {xs ys : List α}

def Path (L : Links α) : α → List α → α → Prop
  | a, [], b => L.next a = b ∧ L.prev b = a
  | a, x :: xs, b => L.next a = x ∧ L.prev x = a ∧ Path L x xs b

namespace Path

theorem split (h : Path L a (xs ++ x :: ys) b) : Path L a xs x ∧ Path L x ys b := by
  induction xs generalizing a with
  | nil => exact ⟨⟨h.1, h.2.1⟩, h.2.2⟩
  | cons y xs ih =>
    obtain ⟨h1, h2⟩ := ih h.2.2
    exact ⟨⟨h.1, h.2.1, h1⟩, h2⟩

theorem congr (h : Path L a xs b) (hnext : ∀ y ∈ a :: xs, L'.next y = L.next y)
    (hprev : ∀ y ∈ xs ++ [b], L'.prev y = L.prev y) : Path L' a xs b := by
  induction xs generalizing a with
  | nil => exact ⟨(hnext a (by simp)).trans h.1, (hprev b (by simp)).trans h.2⟩
  | cons y xs ih =>
    refine ⟨(hnext a (by simp)).trans h.1, (hprev y (by simp)).trans h.2.1, ih h.2.2 ?_ ?_⟩
    · exact fun z hz => hnext z (List.mem_cons_of_mem _ hz)
    · exact fun z hz => hprev z (by simpa using Or.inr (by simpa using hz))

theorem next_eq (h : Path L a xs b) : L.next a = (xs ++ [b]).head (by simp) := by
  cases xs with
  | nil => exact h.1
  | cons y xs => exact h.1

theorem prev_eq (h : Path L a xs b) : L.prev b = (a :: xs).getLast (by simp) := by
  induction xs generalizing a with
  | nil => exact h.2
  | cons y xs ih =>
    rw [ih h.2.2]
    rfl

theorem next_last (h : Path L a (xs ++ ys) b) : L.next ((a :: xs).getLast (by simp)) = (ys ++ [b]).head (by simp) := by
  induction xs generalizing a with
  | nil => exact h.next_eq
  | cons y xs ih => exact ih h.2.2

theorem next_mem (h : Path L a xs b) : L.next a ∈ xs ++ [b] := by
  rw [h.next_eq]
  exact List.head_mem _

theorem prev_mem (h : Path L a xs b) : L.prev b ∈ a :: xs := by
  rw [h.prev_eq]
  exact List.getLast_mem _

variable [DecidableEq α]

theorem skip (h : Path L a (xs ++ x :: ys) b) (hnext : (a :: (xs ++ x :: ys)).Nodup)
    (hprev : (xs ++ x :: ys ++ [b]).Nodup) : Path (L.unlink x) a (xs ++ ys) b := by
  induction xs generalizing a with
  | nil =>
    obtain ⟨ha, hx, h⟩ := h
    have hax : a ≠ x := by
      rintro rfl
      simp at hnext
    have hunlink : L.unlink x = ⟨update L.next a (L.next x), update L.prev (L.next x) a⟩ := by
      simp [Links.unlink, hx, update_of_ne hax.symm]
    rw [hunlink]
    cases ys with
    | nil => exact ⟨(update_self ..).trans h.1, by rw [h.1]; exact update_self ..⟩
    | cons y ys =>
      obtain ⟨hxy, _, h⟩ := h
      rw [hxy]
      refine ⟨update_self .., update_self .., h.congr (fun z hz => ?_) fun z hz => ?_⟩
      · refine update_of_ne ?_ _ _
        rintro rfl
        simp only [List.nil_append, List.nodup_cons] at hnext
        exact hnext.1 (List.mem_cons_of_mem _ hz)
      refine update_of_ne ?_ _ _
      rintro rfl
      simp only [List.nil_append, List.cons_append, List.nodup_cons] at hprev
      exact hprev.2.1 hz
  | cons y xs ih =>
    obtain ⟨ha, hy, h⟩ := h
    have hnext' := (List.nodup_cons.mp hnext).2
    have hprev' : (xs ++ x :: ys ++ [b]).Nodup := by simp_all
    have hrest := ih h hnext' hprev'
    -- the node before `x` is among `y :: xs`, the node behind it among `ys ++ [b]`
    obtain ⟨hleft, hright⟩ := h.split
    have hbefore : L.prev x ∈ y :: xs := hleft.prev_mem
    have hafter : L.next x ∈ ys ++ [b] := hright.next_mem
    have hyx : x ≠ L.prev x := by grind
    have hunlink : L.unlink x = ⟨update L.next (L.prev x) (L.next x), update L.prev (L.next x) (L.prev x)⟩ := by
      simp [Links.unlink, update_of_ne hyx]
    rw [hunlink] at hrest ⊢
    refine ⟨?_, ?_, hrest⟩
    · refine (update_of_ne ?_ _ _).trans ha
      rintro rfl
      exact (List.nodup_cons.mp hnext).1 (List.mem_append_left _ hbefore)
    refine (update_of_ne ?_ _ _).trans hy
    intro e
    have : y ∈ xs ++ x :: ys ++ [b] := by simp_all
    exact (List.nodup_cons.mp hprev).1 this

end Path

structure Ring (L : Links α) (t : α) (xs : List α) : Prop where
  nodup : (t :: xs).Nodup
  path : Path L t xs t

namespace Ring

theorem nil (hnext : L.next t = t) (hprev : L.prev t = t) : Ring L t [] := ⟨by simp, hnext, hprev⟩

theorem not_mem (h : Ring L t xs) : t ∉ xs := (List.nodup_cons.mp h.nodup).1

theorem ne_tail (h : Ring L t (xs ++ x :: ys)) : x ≠ t := by
  rintro rfl
  exact h.not_mem (by simp)

theorem next_cons (h : Ring L t (x :: xs)) : L.next t = x := h.path.1

theorem next_nil (h : Ring L t []) : L.next t = t := h.path.1

theorem next_tail (h : Ring L t xs) : L.next t = (xs ++ [t]).head (by simp) := h.path.next_eq

theorem next_eq (h : Ring L t (xs ++ x :: ys)) : L.next x = (ys ++ [t]).head (by simp) := h.path.split.2.next_eq

variable [DecidableEq α]

theorem insert (h : Ring L t xs) (hx : x ∉ t :: xs) : Ring (L.insertBefore (L.next t) x) t (x :: xs) := by
  have hxt : x ≠ t := fun e => hx (by simp [e])
  cases xs with
  | nil =>
    obtain ⟨hnext, hprev⟩ := h.path
    refine ⟨by simpa using hxt.symm, ?_⟩
    simp [Path, Links.insertBefore, hnext, hprev, update_of_ne hxt, update_of_ne hxt.symm]
  | cons y ys =>
    obtain ⟨hnext, hprev, hpath⟩ := h.path
    have hxy : x ≠ y := fun e => hx (by simp [e])
    have hty : t ≠ y := fun e => h.not_mem (by simp [e])
    have hins : L.insertBefore (L.next t) x =
        ⟨update (update L.next x y) t x, update (update L.prev x t) y x⟩ := by
      simp [Links.insertBefore, hnext, hprev, update_of_ne hxy.symm]
    rw [hins]
    refine ⟨?_, ?_, ?_, ?_, ?_, ?_⟩
    · rw [List.nodup_cons, List.mem_cons, not_or]
      refine ⟨⟨hxt.symm, h.not_mem⟩, List.nodup_cons.mpr ⟨fun hm => hx (List.mem_cons_of_mem _ hm), ?_⟩⟩
      exact (List.nodup_cons.mp h.nodup).2
    · exact update_self ..
    · exact (update_of_ne hxy _ _).trans (update_self ..)
    · exact (update_of_ne hxt _ _).trans (update_self ..)
    · exact update_self ..
    · refine hpath.congr (fun z hz => ?_) fun z hz => ?_
      · have hzt : z ≠ t := fun e => h.not_mem (e ▸ hz)
        have hzx : z ≠ x := fun e => hx (List.mem_cons_of_mem _ (e ▸ hz))
        exact (update_of_ne hzt _ _).trans (update_of_ne hzx _ _)
      have hnodup := (List.nodup_cons.mp h.nodup).2
      have hzy : z ≠ y := by grind
      have hzx : z ≠ x := by grind
      exact (update_of_ne hzy _ _).trans (update_of_ne hzx _ _)

theorem unlink (h : Ring L t (xs ++ x :: ys)) : Ring (L.unlink x) t (xs ++ ys) := by
  have hsub : (xs ++ ys).Sublist (xs ++ x :: ys) := List.Sublist.append_left (List.sublist_cons_self x ys) xs
  refine ⟨h.nodup.sublist (List.Sublist.cons_cons t hsub), h.path.skip h.nodup ?_⟩
  rw [List.nodup_append_comm]
  exact h.nodup

theorem walk_eq (h : Path L a xs t) (hmem : t ∉ xs) {n : Nat} (hn : xs.length < n) :
    L.walk t n (L.next a) = xs := by
  induction xs generalizing a n with
  | nil =>
    cases n with
    | zero => omega
    | succ n => simp [Links.walk, h.1]
  | cons y xs ih =>
    cases n with
    | zero => simp at hn
    | succ n =>
      have hyt : y ≠ t := fun e => hmem (by simp [e])
      rw [Links.walk, h.1, if_neg hyt, ih h.2.2 (fun hm => hmem (List.mem_cons_of_mem _ hm)) (by simpa using hn)]

end Ring

end Lib
