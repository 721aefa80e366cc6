import Mathlib.Order.Lattice
import Mathlib.Data.List.Basic

/-!
# Tables in increasing order of their keys

What a search tree is to those who use it: entries with different keys, in the order of the keys.
-/

namespace Lib

structure Table (κ β : Type) [LinearOrder κ] where
  entries : List (κ × β)
  sorted : entries.Pairwise fun a b => a.1 < b.1

namespace Table

variable {κ β : Type} [LinearOrder κ] {t : Table κ β} {k k' : κ} {v w : β} {e : κ × β} {l : List (κ × β)}

def empty : Table κ β := ⟨[], .nil⟩

def find (t : Table κ β) (k : κ) : Option β := (t.entries.find? fun e => e.1 = k).map Prod.snd

def first (t : Table κ β) : Option (κ × β) := t.entries.head?

def insertEntry (k : κ) (v : β) : List (κ × β) → List (κ × β)
  | [] => [(k, v)]
  | e :: l =>
    if k < e.1 then (k, v) :: e :: l
    else if k = e.1 then (k, v) :: l
    else e :: insertEntry k v l

theorem mem_insertEntry (h : l.Pairwise fun a b => a.1 < b.1) :
    e ∈ insertEntry k v l ↔ e = (k, v) ∨ e ∈ l ∧ e.1 ≠ k := by
  induction l with
  | nil => simp [insertEntry]
  | cons a l ih =>
    obtain ⟨ha, hl⟩ := List.pairwise_cons.mp h
    simp only [insertEntry]
    split
    next hk => grind
    split
    next hk => grind
    constructor
    · grind
    · grind

theorem insertEntry_sorted (h : l.Pairwise fun a b => a.1 < b.1) :
    (insertEntry k v l).Pairwise fun a b => a.1 < b.1 := by
  induction l with
  | nil => simp [insertEntry]
  | cons a l ih =>
    obtain ⟨ha, hl⟩ := List.pairwise_cons.mp h
    simp only [insertEntry]
    split
    next hk => grind
    split
    · next hk => exact List.pairwise_cons.mpr ⟨hk ▸ ha, hl⟩
    rename_i hlt hk
    refine List.pairwise_cons.mpr ⟨fun b hb => ?_, ih hl⟩
    rcases (mem_insertEntry hl).mp hb with rfl | hb
    · exact lt_of_le_of_ne (not_lt.mp hlt) (fun h => hk h.symm)
    · exact ha b hb.1

def insert (t : Table κ β) (k : κ) (v : β) : Table κ β :=
  ⟨insertEntry k v t.entries, insertEntry_sorted t.sorted⟩

def erase (t : Table κ β) (k : κ) : Table κ β :=
  ⟨t.entries.filter fun e => e.1 ≠ k, t.sorted.filter _⟩

theorem unique (he : (k, v) ∈ t.entries) (hw : (k, w) ∈ t.entries) : v = w := by
  obtain ⟨l, hs⟩ := t
  induction l with
  | nil => cases he
  | cons a l ih =>
    obtain ⟨ha, hl⟩ := List.pairwise_cons.mp hs
    rcases List.mem_cons.mp he with rfl | hv
    · grind
    · grind

theorem find_eq_some : t.find k = some v ↔ (k, v) ∈ t.entries := by
  constructor
  · intro h
    obtain ⟨⟨k', v'⟩, he, rfl⟩ := Option.map_eq_some_iff.mp h
    have hk := List.find?_some he
    simp only [decide_eq_true_eq] at hk
    exact hk ▸ List.mem_of_find?_eq_some he
  intro h
  cases hf : t.entries.find? fun e => e.1 = k with
  | none =>
    have := List.find?_eq_none.mp hf _ h
    simp at this
  | some e =>
    have hk := List.find?_some hf
    simp only [decide_eq_true_eq] at hk
    have hm : (k, e.2) ∈ t.entries := hk ▸ List.mem_of_find?_eq_some hf
    simp [find, hf, unique hm h]

theorem find_eq_none : t.find k = none ↔ ∀ e ∈ t.entries, e.1 ≠ k := by
  simp [find]

@[simp, grind =] theorem find_empty : (empty : Table κ β).find k = none := rfl

@[grind =] theorem find_insert : (t.insert k v).find k' = if k' = k then some v else t.find k' := by
  ext w
  rw [find_eq_some]
  simp only [insert, mem_insertEntry t.sorted]
  split
  · next h => subst h; simp [eq_comm]
  · next h => simp [h, find_eq_some]

@[grind =] theorem find_erase : (t.erase k).find k' = if k' = k then none else t.find k' := by
  ext w
  rw [find_eq_some]
  simp only [erase, List.mem_filter]
  split
  · next h => simp [h]
  · next h => simp [h, find_eq_some]

theorem find_of_first (h : t.first = some e) : t.find e.1 = some e.2 := by
  rw [find_eq_some]
  exact List.mem_of_head? h

theorem find_of_first_none (h : t.first = none) : t.find k = none := by
  simp [find, List.head?_eq_none_iff.mp h]

theorem length_erase_first (h : t.first = some e) : (t.erase e.1).entries.length + 1 = t.entries.length := by
  obtain ⟨l, hs⟩ := t
  cases l with
  | nil => cases h
  | cons a l =>
    cases h
    obtain ⟨ha, hl⟩ := List.pairwise_cons.mp hs
    have hf : l.filter (fun b => decide ¬ b.1 = e.1) = l :=
      List.filter_eq_self.mpr fun b hb => by simpa using (ha b hb).ne'
    simp only [erase, List.filter_cons, ne_eq, not_true_eq_false, decide_false, Bool.false_eq_true,
      ↓reduceIte, List.length_cons]
    rw [hf]

end Table

end Lib
