import Mathlib.Data.List.Nodup

/-!
# Doubly linked lists with a head

Nodes with a link to the next and to the previous one, and a head that has no node of its own.
-/

namespace Lib

open Function

structure Link (α : Type) where
  prev : Option α
  next : Option α
  deriving DecidableEq, Repr

variable {α : Type}

def Linked (link : α → Link α) : Option α → Option α → List α → Prop
  | _, head, [] => head = none
  | prev, head, a :: l => head = some a ∧ (link a).prev = prev ∧ Linked link (some a) (link a).next l

section Changes

variable [DecidableEq α]

def setPrev (link : α → Link α) (prev : Option α) : Option α → α → Link α
  | none => link
  | some b => update link b { link b with prev := prev }

def setNext (link : α → Link α) (next : Option α) : Option α → α → Link α
  | none => link
  | some b => update link b { link b with next := next }

def pushFront (link : α → Link α) (head : Option α) (a : α) : α → Link α :=
  setPrev (update link a ⟨none, head⟩) (some a) head

def popFront (link : α → Link α) (a : α) : α → Link α :=
  setPrev (update link a { link a with prev := none }) none (link a).next

def unlink (link : α → Link α) (a : α) : α → Link α :=
  setPrev (setNext link (link a).next (link a).prev) (link a).prev (link a).next

end Changes

namespace Linked

variable {link link' : α → Link α} {prev prev' head : Option α} {a b c : α} {l pre post : List α}

theorem congr (h : Linked link prev head l) (hl : ∀ a ∈ l, link' a = link a) : Linked link' prev head l := by
  induction l generalizing prev head with
  | nil => exact h
  | cons a l ih =>
    obtain ⟨hhead, hprev, h⟩ := h
    have ha := hl a List.mem_cons_self
    exact ⟨hhead, by rw [ha, hprev], by rw [ha]; exact ih h fun b hb => hl b (List.mem_cons_of_mem a hb)⟩

theorem head_eq (h : Linked link prev head l) : head = l.head? := by
  cases l with
  | nil => exact h
  | cons a l => exact h.1

theorem next_eq (h : Linked link prev head (pre ++ a :: post)) : (link a).next = post.head? := by
  induction pre generalizing prev head with
  | nil => exact h.2.2.head_eq
  | cons b pre ih => exact ih h.2.2

theorem prev_eq (h : Linked link prev head (pre ++ a :: post)) : (link a).prev = pre.getLast?.or prev := by
  induction pre generalizing prev head with
  | nil => exact h.2.1
  | cons b pre ih =>
    rw [ih h.2.2]
    cases pre with
    | nil => rfl
    | cons c pre => simp [List.getLast?_cons]

variable [DecidableEq α]

theorem setPrev_of_ne (h : head ≠ some b) : setPrev link prev head b = link b := by
  cases head with
  | none => rfl
  | some c => exact update_of_ne (fun e => h (by rw [e])) _ _

theorem setNext_of_ne (h : head ≠ some b) : setNext link prev head b = link b := by
  cases head with
  | none => rfl
  | some c => exact update_of_ne (fun e => h (by rw [e])) _ _

theorem setPrev (h : Linked link prev head l) (hnodup : l.Nodup) (prev' : Option α) :
    Linked (Lib.setPrev link prev' head) prev' head l := by
  cases l with
  | nil => exact h
  | cons a l =>
    obtain ⟨rfl, _, h⟩ := h
    refine ⟨rfl, by rw [Lib.setPrev, update_self], ?_⟩
    rw [Lib.setPrev, update_self]
    refine h.congr fun b hb => update_of_ne ?_ _ _
    rintro rfl
    exact (List.nodup_cons.mp hnodup).1 hb

theorem pushFront (h : Linked link none head l) (hnodup : l.Nodup) (ha : a ∉ l) :
    Linked (Lib.pushFront link head a) none (some a) (a :: l) := by
  have hne : head ≠ some a := by
    rw [h.head_eq]
    exact fun e => ha (List.mem_of_mem_head? e)
  have hkeep : Linked (update link a ⟨none, head⟩) none head l := h.congr fun b hb => update_of_ne (by
    rintro rfl
    exact ha hb) _ _
  have hlink : Lib.pushFront link head a a = ⟨none, head⟩ := by
    rw [Lib.pushFront, setPrev_of_ne hne, update_self]
  refine ⟨rfl, by rw [hlink], ?_⟩
  rw [hlink]
  exact hkeep.setPrev hnodup (some a)

theorem popFront (h : Linked link none head (a :: l)) (hnodup : (a :: l).Nodup) :
    Linked (Lib.popFront link a) none (link a).next l := by
  obtain ⟨ha, hnodup⟩ := List.nodup_cons.mp hnodup
  have hkeep : Linked (update link a { link a with prev := none }) (some a) (link a).next l :=
    h.2.2.congr fun b hb => update_of_ne (by
      rintro rfl
      exact ha hb) _ _
  exact hkeep.setPrev hnodup none

theorem pushFront_of_not_mem (h : Linked link none head l) (ha : b ≠ a) (hl : b ∉ l) :
    Lib.pushFront link head a b = link b := by
  rw [Lib.pushFront, setPrev_of_ne (by rw [h.head_eq]; exact fun e => hl (List.mem_of_mem_head? e)),
    update_of_ne ha]

theorem popFront_of_not_mem (h : Linked link none head (a :: l)) (hl : b ∉ a :: l) :
    Lib.popFront link a b = link b := by
  rw [List.mem_cons, not_or] at hl
  rw [Lib.popFront, setPrev_of_ne (by rw [h.2.2.head_eq]; exact fun e => hl.2 (List.mem_of_mem_head? e)),
    update_of_ne hl.1]

theorem unlink_of_not_mem (h : Linked link none head (pre ++ a :: post)) (hl : b ∉ pre ++ post) :
    Lib.unlink link a b = link b := by
  rw [List.mem_append, not_or] at hl
  have hnext : (link a).next ≠ some b := by
    rw [h.next_eq]
    exact fun e => hl.2 (List.mem_of_mem_head? e)
  have hprev : (link a).prev ≠ some b := by
    rw [h.prev_eq, Option.or_none]
    exact fun e => hl.1 (List.mem_of_mem_getLast? e)
  rw [Lib.unlink, setPrev_of_ne hnext, setNext_of_ne hprev]

theorem unlink (h : Linked link prev head (pre ++ c :: a :: post)) (hnodup : (pre ++ c :: a :: post).Nodup) :
    Linked (Lib.unlink link a) prev head (pre ++ c :: post) := by
  have h' : Linked link prev head ((pre ++ [c]) ++ a :: post) := by simpa using h
  have hprev : (link a).prev = some c := by
    rw [h'.prev_eq]
    simp
  have hunlink : Lib.unlink link a = Lib.setPrev (update link c { link c with next := post.head? }) (some c) post.head? := by
    rw [Lib.unlink, hprev, h'.next_eq]
    rfl
  rw [hunlink]
  clear hunlink hprev h'
  -- the nodes up to `c` stay as they are
  induction pre generalizing prev head with
  | nil =>
    obtain ⟨hhead, hprev, _, _, h⟩ := h
    simp only [List.nil_append, List.nodup_cons, List.mem_cons, not_or] at hnodup
    obtain ⟨⟨_, hc⟩, _, hnodup⟩ := hnodup
    have hlink : Lib.setPrev (update link c { link c with next := post.head? }) (some c) post.head? c =
        { link c with next := post.head? } := by
      rw [setPrev_of_ne fun e => hc (List.mem_of_mem_head? e), update_self]
    refine ⟨hhead, by rw [hlink, hprev], ?_⟩
    rw [hlink]
    have hkeep : Linked (update link c { link c with next := post.head? }) (some a) (link a).next post :=
      h.congr fun b hb => update_of_ne (by
        rintro rfl
        exact hc hb) _ _
    rw [h.head_eq] at hkeep
    exact hkeep.setPrev hnodup (some c)
  | cons b pre ih =>
    obtain ⟨hhead, hprev, h⟩ := h
    rw [List.cons_append, List.nodup_cons] at hnodup
    obtain ⟨hb, hnodup⟩ := hnodup
    simp only [List.mem_append, List.mem_cons, not_or] at hb
    have hlink : Lib.setPrev (update link c { link c with next := post.head? }) (some c) post.head? b = link b := by
      rw [setPrev_of_ne fun e => hb.2.2.2 (List.mem_of_mem_head? e), update_of_ne hb.2.1]
    refine ⟨hhead, by rw [hlink, hprev], ?_⟩
    rw [hlink]
    exact ih h hnodup

end Linked

end Lib
