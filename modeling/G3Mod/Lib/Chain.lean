import Mathlib.Data.List.Nodup
import Mathlib.Logic.Relation

/-!
# Linked lists and forests of parent links

`Follows link o l`: starting at `o` and following `link` one meets the elements of `l` and then the end.
-/

namespace Lib

variable {α : Type}

/-! ## Linked lists -/

def Follows (link : α → Option α → Prop) : Option α → List α → Prop
  | o, [] => o = none
  | o, t :: l => o = some t ∧ ∃ o', link t o' ∧ Follows link o' l

namespace Follows

variable {link link' : α → Option α → Prop} {o : Option α} {l l' pre post : List α} {t u : α}

theorem mono (h : Follows link o l) (hl : ∀ t ∈ l, ∀ o, link t o → link' t o) : Follows link' o l := by
  induction l generalizing o with
  | nil => exact h
  | cons t l ih =>
    obtain ⟨ho, o', ht, h⟩ := h
    exact ⟨ho, o', hl t (by simp) o' ht, ih h fun u hu => hl u (by simp [hu])⟩

theorem suffix (h : Follows link o (pre ++ t :: post)) : Follows link (some t) (t :: post) := by
  induction pre generalizing o with
  | nil =>
    obtain ⟨rfl, h⟩ := h
    exact ⟨rfl, h⟩
  | cons r pre ih =>
    obtain ⟨_, o', _, h⟩ := h
    exact ih h

theorem link_of_adjacent (h : Follows link o (pre ++ t :: u :: post)) : link t (some u) := by
  obtain ⟨_, o', ht, hu, _⟩ := h.suffix
  exact hu ▸ ht

theorem exists_link (h : Follows link o l) (ht : t ∈ l) : ∃ o', link t o' := by
  obtain ⟨pre, post, rfl⟩ := List.append_of_mem ht
  obtain ⟨_, o', hl, _⟩ := h.suffix
  exact ⟨o', hl⟩

section Unique

variable (hu : ∀ t o o', link t o → link t o' → o = o')

include hu

theorem unique (h : Follows link o l) (h' : Follows link o l') : l = l' := by
  induction l generalizing o l' with
  | nil =>
    cases l' with
    | nil => rfl
    | cons t l' => cases h.symm.trans h'.1
  | cons t l ih =>
    obtain ⟨ho, o1, ht, h⟩ := h
    cases l' with
    | nil => cases ho.symm.trans h'
    | cons t' l' =>
      obtain ⟨ho', o2, ht', h'⟩ := h'
      cases ho.symm.trans ho'
      cases hu t o1 o2 ht ht'
      rw [ih h h']

theorem nodup (h : Follows link o l) : l.Nodup := by
  induction l generalizing o with
  | nil => exact List.nodup_nil
  | cons t l ih =>
    have hl := h
    obtain ⟨rfl, o', _, h⟩ := h
    refine List.nodup_cons.mpr ⟨fun ht => ?_, ih h⟩
    obtain ⟨pre, post, rfl⟩ := List.append_of_mem ht
    have e := congrArg List.length (unique hu hl h.suffix)
    simp at e
    omega

theorem not_self (ht : link t (some t)) : ¬ Follows link (some t) l := by
  intro h
  have hnd := nodup hu h
  cases l with
  | nil => cases h
  | cons v l =>
    obtain ⟨e, o, hv, h⟩ := h
    cases e
    cases hu t o (some t) hv ht
    cases l with
    | nil => cases h
    | cons w l =>
      cases h.1
      simp at hnd

theorem adjacent (h : Follows link o l) (ht : t ∈ l) (hl : link t (some u)) :
    ∃ pre post, l = pre ++ t :: u :: post := by
  obtain ⟨pre, post, rfl⟩ := List.append_of_mem ht
  obtain ⟨_, o', ht', h'⟩ := h.suffix
  cases hu t o' (some u) ht' hl
  cases post with
  | nil => cases h'
  | cons v post =>
    cases h'.1
    exact ⟨pre, post, rfl⟩

end Unique

end Follows

section Forest

open Relation

variable {up : α → α → Prop} {r u x : α}

def Leaf (up : α → α → Prop) (r : α) : Prop := ∀ c, ¬ up c r

theorem Leaf.not_transGen (h : Leaf up r) : ¬ TransGen up x r := by
  intro hx
  obtain ⟨c, _, hc⟩ := TransGen.tail'_iff.mp hx
  exact h c hc

/-- Where every element has at most one child, all that descends from an element above the leaf `r` is
above `r` itself. -/
theorem Leaf.above_of_descends (hc : ∀ c c' p, up c p → up c' p → c = c') (hr : Leaf up r)
    (hu : ReflTransGen up r u) (hx : ReflTransGen up x u) : ReflTransGen up r x := by
  induction hx using ReflTransGen.head_induction_on with
  | refl => exact hu
  | head hxy _ ih =>
    rcases ReflTransGen.cases_tail ih with rfl | ⟨c, hrc, hcy⟩
    · exact absurd hxy (hr _)
    · exact hc _ _ _ hcy hxy ▸ hrc

theorem Leaf.unique (hc : ∀ c c' p, up c p → up c' p → c = c') (hr : Leaf up r) (hx : Leaf up x)
    (hru : ReflTransGen up r u) (hxu : ReflTransGen up x u) : r = x := by
  rcases ReflTransGen.cases_tail (hr.above_of_descends hc hru hxu) with e | ⟨c, _, h⟩
  · exact e.symm
  · exact absurd h (hx _)

theorem Leaf.transGen_avoid {up' : α → α → Prop} (hx : Leaf up x) (h : ∀ a b, a ≠ x → up a b → up' a b)
    (hr : r ≠ x) (hu : TransGen up r u) : TransGen up' r u := by
  induction hu with
  | single hru => exact .single (h _ _ hr hru)
  | tail hrb hbc ih =>
    refine .tail ih (h _ _ ?_ hbc)
    rintro rfl
    exact hx.not_transGen hrb

end Forest

end Lib
