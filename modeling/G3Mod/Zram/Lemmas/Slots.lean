import G3Mod.Lib.ListSum
import G3Mod.Zram.Spec

/-!
# The objects of the table
-/

namespace G3Mod.Zram

open Function

variable {table : Nat → Entry} {live : Address → Option Object} {mem mem' : Memory} {r : Nat → Rep} {e : Entry}
  {a b : Address} {o : Object} {bs : List Byte} {w : Bool} {i j : Nat}

structure Has (live : Address → Option Object) (mem : Memory) (a : Address) (bs : List Byte) (w : Bool) : Prop where
  live : live a = some ⟨bs.length, w⟩
  mem : ∀ i b, bs[i]? = some b → mem a.1 (a.2 + i) = b

def Holds (live : Address → Option Object) (mem : Memory) (e : Entry) : Rep → Prop
  | .empty => e.page = none ∧ e.zero = false ∧ e.uncompressed = false
  | .zero => e.page = none ∧ e.zero = true ∧ e.uncompressed = false
  | .object bs w => e.zero = false ∧ e.uncompressed = w ∧ (w = true → e.offset = 0 ∧ bs.length = pageSize) ∧
      ∃ page, e.page = some page ∧ Has live mem (page, e.offset) bs w

def Apart (a : Address) (n : Nat) (b : Address) (m : Nat) : Prop := a.1 ≠ b.1 ∨ a.2 + n ≤ b.2 ∨ b.2 + m ≤ a.2

structure Heap (table : Nat → Entry) (live : Address → Option Object) (mem : Memory) (r : Nat → Rep) : Prop where
  holds : ∀ i, Holds live mem (table i) (r i)
  pos : ∀ {a o}, live a = some o → 0 < o.size
  apart : ∀ {a b o o'}, live a = some o → live b = some o' → a ≠ b → Apart a o.size b o'.size
  owner : ∀ {i j page}, (table i).page = some page → (table j).page = some page →
    (table i).offset = (table j).offset → i = j

theorem Heap.has (h : Heap table live mem r) {page : PageId} (hp : (table i).page = some page) :
    ∃ bs w, r i = .object bs w ∧ (table i).zero = false ∧ (table i).uncompressed = w ∧
      (w = true → (table i).offset = 0 ∧ bs.length = pageSize) ∧ Has live mem (page, (table i).offset) bs w := by
  have hi := h.holds i
  cases hr : r i with
  | empty | zero => rw [hr] at hi; rw [hi.1] at hp; cases hp
  | object bs w =>
    rw [hr] at hi
    obtain ⟨hz, hu, hw, page', hp', hhas⟩ := hi
    rw [hp] at hp'
    cases hp'
    exact ⟨bs, w, rfl, hz, hu, hw, hhas⟩

/-! ## Memory -/

theorem Has.load (h : Has live mem a bs w) : load a bs.length mem = bs := by
  apply List.ext_getElem
  · simp [Zram.load]
  · intro i hi hi'
    simpa [Zram.load] using h.mem i _ (List.getElem?_eq_getElem hi')

theorem Has.congr (h : Has live mem a bs w) (hm : ∀ i < bs.length, mem' a.1 (a.2 + i) = mem a.1 (a.2 + i)) :
    Has live mem' a bs w := by
  refine ⟨h.live, fun i b hb => ?_⟩
  rw [hm i (List.getElem?_eq_some_iff.mp hb).1]
  exact h.mem i b hb

theorem store_same {b : Byte} (hi : bs[i]? = some b) : store a bs mem a.1 (a.2 + i) = b := by
  have hlt := (List.getElem?_eq_some_iff.mp hi).1
  rw [store, if_pos ⟨rfl, by omega, by omega⟩, Nat.add_sub_cancel_left, List.getD_eq_getElem?_getD, hi]
  rfl

theorem store_apart {n : Nat} (h : Apart b n a bs.length) (hi : i < n) :
    store a bs mem b.1 (b.2 + i) = mem b.1 (b.2 + i) := by
  rw [store, if_neg]
  rintro ⟨h1, h2, h3⟩
  rcases h with h | h | h
  · exact h h1
  · omega
  · omega

theorem Holds.mono {live' : Address → Option Object} {x : Rep} (h : Holds live mem e x)
    (hhas : ∀ {page bs w}, e.page = some page → Has live mem (page, e.offset) bs w →
      Has live' mem' (page, e.offset) bs w) : Holds live' mem' e x := by
  cases x with
  | empty => exact h
  | zero => exact h
  | object bs w =>
    obtain ⟨hz, hu, hw, page, hp, h⟩ := h
    exact ⟨hz, hu, hw, page, hp, hhas hp h⟩

theorem Heap.agrees (h : Heap table live mem r)
    (hm : ∀ a o i, live a = some o → i < o.size → mem' a.1 (a.2 + i) = mem a.1 (a.2 + i)) :
    Heap table live mem' r := by
  refine ⟨fun i => (h.holds i).mono fun _ hhas => ?_, h.pos, h.apart, h.owner⟩
  exact hhas.congr fun i hi => hm _ _ i hhas.live hi

theorem Heap.setEntry (h : Heap table live mem r) {x : Rep} (hx : Holds live mem e x) (hp : e.page = none) :
    Heap (update table i e) live mem (update r i x) := by
  refine ⟨fun j => ?_, h.pos, h.apart, fun {j k page} hj hk ho => ?_⟩
  · by_cases hj : j = i
    · rw [hj, update_self, update_self]
      exact hx
    · rw [update_of_ne hj, update_of_ne hj]
      exact h.holds j
  by_cases hji : j = i
  · rw [hji, update_self, hp] at hj
    cases hj
  by_cases hki : k = i
  · rw [hki, update_self, hp] at hk
    cases hk
  · rw [update_of_ne hji] at hj ho
    rw [update_of_ne hki] at hk ho
    exact h.owner hj hk ho

theorem Heap.free (h : Heap table live mem r) {page : PageId} (hp : (table i).page = some page)
    (he : Holds live mem e .empty) :
    Heap (update table i e) (update live (page, (table i).offset) none) mem (update r i .empty) := by
  have hne : ∀ {j page'}, j ≠ i → (table j).page = some page' →
      (page', (table j).offset) ≠ (page, (table i).offset) := fun {j page'} hj hp' heq => by
    obtain ⟨h1, h2⟩ := Prod.mk.inj heq
    exact hj (h.owner hp' (h1 ▸ hp) h2)
  have hlive : ∀ {a o}, update live (page, (table i).offset) none a = some o →
      a ≠ (page, (table i).offset) ∧ live a = some o := fun {a o} ha => by
    by_cases heq : a = (page, (table i).offset)
    · rw [heq, update_self] at ha
      cases ha
    · rw [update_of_ne heq] at ha
      exact ⟨heq, ha⟩
  have hset := h.setEntry (i := i) he he.1
  refine ⟨fun j => ?_, fun ha => h.pos (hlive ha).2, fun ha hb => h.apart (hlive ha).2 (hlive hb).2, hset.owner⟩
  by_cases hj : j = i
  · rw [hj, update_self, update_self]
    exact he
  rw [update_of_ne hj, update_of_ne hj]
  refine (h.holds j).mono fun hp' hhas => ⟨?_, hhas.mem⟩
  rw [update_of_ne (hne hj hp')]
  exact hhas.live

theorem Heap.alloc (h : Heap table live mem r) (hr : r i = .empty) (hpos : 0 < bs.length)
    (hun : ∀ b o, live b = some o → Apart b o.size a bs.length)
    (he : e.zero = false ∧ e.uncompressed = w ∧ (w = true → e.offset = 0 ∧ bs.length = pageSize) ∧
      e.page = some a.1 ∧ e.offset = a.2) :
    Heap (update table i e) (update live a (some ⟨bs.length, w⟩)) (store a bs mem) (update r i (.object bs w)) := by
  obtain ⟨hz, hu, hw, hp, ho⟩ := he
  -- no object starts at the new one
  have hnew : ∀ {b o}, live b = some o → b ≠ a := fun {b o} hb heq => by
    subst heq
    have := h.pos hb
    rcases hun _ _ hb with h' | h' | h'
    · exact h' rfl
    · omega
    · omega
  refine ⟨fun j => ?_, fun {b o} hb => ?_, fun {b c o o'} hb hc hne => ?_, fun {j k page} hj hk heq => ?_⟩
  · by_cases hj : j = i
    · rw [hj, update_self, update_self]
      refine ⟨hz, hu, hw, a.1, hp, ?_, fun i b hb => ?_⟩
      · rw [ho]
        exact update_self a _ _
      · rw [ho]
        exact store_same hb
    rw [update_of_ne hj, update_of_ne hj]
    refine (h.holds j).mono fun _ hhas => ⟨?_, ?_⟩
    · rw [update_of_ne (hnew hhas.live)]
      exact hhas.live
    · exact (hhas.congr fun k hk => store_apart (hun _ _ hhas.live) hk).mem
  · by_cases hba : b = a
    · rw [hba, update_self] at hb
      cases hb
      exact hpos
    · rw [update_of_ne hba] at hb
      exact h.pos hb
  · by_cases hba : b = a
    · rw [hba, update_self] at hb
      cases hb
      rw [hba] at hne ⊢
      rw [update_of_ne (Ne.symm hne)] at hc
      rcases hun _ _ hc with h' | h' | h'
      · exact .inl (Ne.symm h')
      · exact .inr (.inr h')
      · exact .inr (.inl h')
    rw [update_of_ne hba] at hb
    by_cases hca : c = a
    · grind
    · rw [update_of_ne hca] at hc
      exact h.apart hb hc hne
  · have hold : ∀ {k}, k ≠ i → (table k).page = some page → (page, (table k).offset) ≠ a := fun {k} _ hk => by
      obtain ⟨_, _, _, _, _, _, hhas⟩ := h.has hk
      exact hnew hhas.live
    by_cases hji : j = i
    · grind
    rw [update_of_ne hji] at hj heq
    by_cases hki : k = i
    · grind
    · rw [update_of_ne hki] at hk heq
      exact h.owner hj hk heq

/-! # Freeing and storing a page -/

open Lib

variable {lzo : Lzo} {s s' : Zram} {x : Rep} {n : Nat} {p : Page} {sup : Supply}

/-! ## Counters -/

def Rep.stored : Rep → Nat
  | .object _ _ => 1
  | _ => 0

def Rep.zeros : Rep → Nat
  | .zero => 1
  | _ => 0

def Rep.expand : Rep → Nat
  | .object _ true => 1
  | _ => 0

def Rep.size : Rep → Nat
  | .object bs _ => bs.length
  | _ => 0

def Rep.good : Rep → Nat
  | .object bs _ => if bs.length ≤ pageSize / 2 then 1 else 0
  | _ => 0

def tally (n : Nat) (f : Rep → Nat) (r : Nat → Rep) : Nat := ((List.range n).map fun i => f (r i)).sum

theorem tally_update (f : Rep → Nat) (r : Nat → Rep) (x : Rep) (hi : i < n) :
    tally n f (update r i x) + f (r i) = tally n f r + f x := by
  have := sum_map_change (f := fun j => f (r j)) (g := fun j => f (update r i x j)) List.nodup_range
    (List.mem_range.mpr hi) fun j _ hj => by rw [update_of_ne hj]
  rwa [update_self] at this

theorem tally_empty {f : Rep → Nat} (hf : f .empty = 0) : tally n f (fun _ => .empty) = 0 := by
  simp [tally, hf]

structure Counts (n : Nat) (st : Stats) (r : Nat → Rep) : Prop where
  pagesStored : st.pagesStored = tally n Rep.stored r
  pagesZero : st.pagesZero = tally n Rep.zeros r
  pagesExpand : st.pagesExpand = tally n Rep.expand r
  comprSize : st.comprSize = tally n Rep.size r
  goodCompress : st.goodCompress = tally n Rep.good r

theorem Counts.update {st st' : Stats} (h : Counts n st r) (hi : i < n)
    (h1 : st'.pagesStored + (r i).stored = st.pagesStored + x.stored)
    (h2 : st'.pagesZero + (r i).zeros = st.pagesZero + x.zeros)
    (h3 : st'.pagesExpand + (r i).expand = st.pagesExpand + x.expand)
    (h4 : st'.comprSize + (r i).size = st.comprSize + x.size)
    (h5 : st'.goodCompress + (r i).good = st.goodCompress + x.good) : Counts n st' (update r i x) where
  pagesStored := by have := tally_update Rep.stored r x hi; have := h.pagesStored; omega
  pagesZero := by have := tally_update Rep.zeros r x hi; have := h.pagesZero; omega
  pagesExpand := by have := tally_update Rep.expand r x hi; have := h.pagesExpand; omega
  comprSize := by have := tally_update Rep.size r x hi; have := h.comprSize; omega
  goodCompress := by have := tally_update Rep.good r x hi; have := h.goodCompress; omega

theorem le_tally (f : Rep → Nat) (hf : f .empty = 0) (hi : i < n) : f (r i) ≤ tally n f r := by
  have := tally_update f r .empty hi
  omega

/-! ## The invariant -/

structure Inv (s : Zram) (r : Nat → Rep) : Prop where
  heap : Heap s.table s.live s.mem r
  counts : Counts s.numPages s.stats r

structure Same (s s' : Zram) : Prop where
  initDone : s'.initDone = s.initDone
  disksize : s'.disksize = s.disksize

theorem statDec_ok {v : Nat} (h : 0 < v) : statDec v = .ok (v - 1) := if_neg (Nat.ne_of_gt h)

theorem stat64Sub_ok {v d : Nat} (h : d ≤ v) : stat64Sub v d = .ok (v - d) := if_neg (Nat.not_lt.mpr h)

def Freed (i : Nat) (s : Zram) (r : Nat → Rep) : Prop :=
  ∃ s', zramFreePage i s = .ok s' ∧ Inv s' (update r i .empty) ∧ Same s s' ∧ s'.mem = s.mem

section

variable (h : Inv s r)

include h

theorem zramFreePage_zero (hi : i < s.numPages) (hr : r i = .zero) : Freed i s r := by
  have hholds := h.heap.holds i
  rw [hr] at hholds
  obtain ⟨hp, hz, hu⟩ := hholds
  have hpos : 0 < s.stats.pagesZero := by
    have := le_tally (r := r) Rep.zeros rfl hi
    rw [hr, ← h.counts.pagesZero] at this
    exact this
  have hempty : Holds s.live s.mem { s.table i with zero := false } .empty := ⟨hp, rfl, hu⟩
  refine ⟨{ s with
    table := update s.table i { s.table i with zero := false }
    stats := { s.stats with pagesZero := s.stats.pagesZero - 1 } }, ?_, ⟨h.heap.setEntry hempty hp, ?_⟩, ⟨rfl, rfl⟩, rfl⟩
  · simp only [zramFreePage, hp, hz, if_true, statDec_ok hpos, ok_bind]
  · have := Nat.sub_add_cancel hpos
    apply h.counts.update hi <;> simp [hr, Rep.stored, Rep.zeros, Rep.expand, Rep.size, Rep.good, this]

theorem Inv.object_counts (hi : i < s.numPages) (hr : r i = .object bs w) :
    bs.length ≤ s.stats.comprSize ∧ 1 ≤ s.stats.pagesStored ∧ (Rep.object bs w).expand ≤ s.stats.pagesExpand ∧
      (Rep.object bs w).good ≤ s.stats.goodCompress := by
  have h1 := le_tally (r := r) Rep.size rfl hi
  have h2 := le_tally (r := r) Rep.stored rfl hi
  have h3 := le_tally (r := r) Rep.expand rfl hi
  have h4 := le_tally (r := r) Rep.good rfl hi
  rw [hr, ← h.counts.comprSize] at h1
  rw [hr, ← h.counts.pagesStored] at h2
  rw [hr, ← h.counts.pagesExpand] at h3
  rw [hr, ← h.counts.goodCompress] at h4
  exact ⟨h1, h2, h3, h4⟩

theorem zramFreePage_whole (hi : i < s.numPages) (hr : r i = .object bs true) : Freed i s r := by
  have hholds := h.heap.holds i
  rw [hr] at hholds
  obtain ⟨hz, hu, hw, page, hp, hhas⟩ := hholds
  obtain ⟨ho, hlen⟩ := hw rfl
  obtain ⟨hsize, hstored, hexpand, _⟩ := h.object_counts hi hr
  have hlive := hhas.live
  have hempty : Holds s.live s.mem { s.table i with uncompressed := false, page := none, offset := 0 } .empty :=
    ⟨rfl, hz, rfl⟩
  have hheap := h.heap.free hp hempty
  rw [ho] at hheap hlive
  have hsub : stat64Sub s.stats.comprSize pageSize = .ok (s.stats.comprSize - bs.length) := by
    rw [← hlen]
    exact stat64Sub_ok hsize
  refine ⟨{ s with
    table := update s.table i { s.table i with uncompressed := false, page := none, offset := 0 }
    live := update s.live (page, 0) none
    stats := { s.stats with
      pagesExpand := s.stats.pagesExpand - 1
      comprSize := s.stats.comprSize - bs.length
      pagesStored := s.stats.pagesStored - 1 } }, ?_, ⟨hheap, ?_⟩, ⟨rfl, rfl⟩, rfl⟩
  · simp only [zramFreePage, hp, hu, if_true, Zram.free, hlive, ok_bind, statDec_ok hexpand, dropPage, hsub,
      statDec_ok hstored]
  have h1 := Nat.sub_add_cancel hsize
  have h2 := Nat.sub_add_cancel hstored
  have h3 : s.stats.pagesExpand - 1 + 1 = s.stats.pagesExpand := Nat.sub_add_cancel hexpand
  have hbad : ¬ bs.length ≤ pageSize / 2 := by rw [hlen]; decide
  apply h.counts.update hi <;> simp [hr, Rep.stored, Rep.zeros, Rep.expand, Rep.size, Rep.good, h1, h2, h3, hbad]

theorem zramFreePage_packed (hi : i < s.numPages) (hr : r i = .object bs false) : Freed i s r := by
  have hholds := h.heap.holds i
  rw [hr] at hholds
  obtain ⟨hz, hu, _, page, hp, hhas⟩ := hholds
  obtain ⟨hsize, hstored, _, hgood⟩ := h.object_counts hi hr
  have hempty : Holds s.live s.mem { s.table i with page := none, offset := 0 } .empty := ⟨rfl, hz, hu⟩
  refine ⟨{ s with
    table := update s.table i { s.table i with page := none, offset := 0 }
    live := update s.live (page, (s.table i).offset) none
    stats := { s.stats with
      goodCompress := s.stats.goodCompress - (Rep.object bs false).good
      comprSize := s.stats.comprSize - bs.length
      pagesStored := s.stats.pagesStored - 1 } }, ?_, ⟨h.heap.free hp hempty, ?_⟩, ⟨rfl, rfl⟩, rfl⟩
  · simp only [zramFreePage, hp, hu, Bool.false_eq_true, if_false, xvGetObjectSize, Zram.free, hhas.live, ok_bind,
      if_true, dropPage, stat64Sub_ok hsize, statDec_ok hstored]
    by_cases hle : bs.length ≤ pageSize / 2
    · simp only [Rep.good, if_pos hle] at hgood ⊢
      simp only [statDec_ok hgood, ok_bind]
    · simp only [Rep.good, if_neg hle, Nat.sub_zero]
  have h1 := Nat.sub_add_cancel hsize
  have h2 := Nat.sub_add_cancel hstored
  have h3 := Nat.sub_add_cancel hgood
  apply h.counts.update hi
  · simp [hr, Rep.stored, h2]
  · simp [hr, Rep.zeros]
  · simp [hr, Rep.expand]
  · simp [hr, Rep.size, h1]
  · rw [hr]
    exact h3

theorem zramFreePage_ok (hi : i < s.numPages) : Freed i s r := by
  cases hr : r i with
  | empty =>
    have hholds := h.heap.holds i
    rw [hr] at hholds
    refine ⟨s, ?_, ?_, ⟨rfl, rfl⟩, rfl⟩
    · simp [zramFreePage, hholds.1, hholds.2.1]
    · rw [← hr, update_eq_self]
      exact h
  | zero => exact zramFreePage_zero h hi hr
  | object bs w =>
    cases w with
    | true => exact zramFreePage_whole h hi hr
    | false => exact zramFreePage_packed h hi hr

theorem freeOld_ok (hi : i < s.numPages) :
    ∃ s', freeOld i s = .ok s' ∧ Inv s' (update r i .empty) ∧ Same s s' ∧ s'.mem = s.mem := by
  unfold freeOld
  split
  · exact zramFreePage_ok h hi
  rename_i hno
  refine ⟨s, rfl, ?_, ⟨rfl, rfl⟩, rfl⟩
  have hholds := h.heap.holds i
  have hempty : r i = .empty := by
    cases hr : r i with
    | empty => rfl
    | zero => rw [hr] at hholds; simp [hholds.2.1] at hno
    | object bs w =>
      rw [hr] at hholds
      obtain ⟨_, _, _, page, hp, _⟩ := hholds
      simp [hp] at hno
  rw [← hempty, update_eq_self]
  exact h

theorem Inv.agrees {mem : Memory} (hm : Agrees mem s) : Inv { s with mem := mem } r :=
  ⟨h.heap.agrees hm, h.counts⟩

theorem Inv.failWrite : Inv (failWrite s) r :=
  ⟨h.heap, ⟨h.counts.pagesStored, h.counts.pagesZero, h.counts.pagesExpand, h.counts.comprSize, h.counts.goodCompress⟩⟩

theorem Inv.memstore {a : Address} (hi : i < s.numPages) (hr : r i = .empty) (hpos : 0 < bs.length)
    (hun : Unused a bs.length s)
    (he : e.zero = false ∧ e.uncompressed = w ∧ (w = true → e.offset = 0 ∧ bs.length = pageSize) ∧
      e.page = some a.1 ∧ e.offset = a.2) : Inv (memstore i e a bs w s) (update r i (.object bs w)) := by
  refine ⟨h.heap.alloc hr hpos hun he, h.counts.update hi ?_ ?_ ?_ ?_ ?_⟩
  · rw [hr]; rfl
  · rw [hr]; rfl
  · rw [hr]
    cases w with
    | true => rfl
    | false => rfl
  · rw [hr]; rfl
  · rw [hr]
    show (if bs.length ≤ pageSize / 2 then s.stats.goodCompress + 1 else s.stats.goodCompress) =
      s.stats.goodCompress + (if bs.length ≤ pageSize / 2 then 1 else 0)
    split
    · rfl
    · rfl

theorem storeNew_inv (hi : i < s.numPages) (hr : r i = .empty)
    (hun : ∀ a, sup.alloc = some a → Unused (if need lzo p = pageSize then (a.1, 0) else a) (need lzo p) s) :
    Inv (storeNew lzo sup i p s).2 (update r i (rep lzo (if (storeNew lzo sup i p s).1 then some p else none))) ∧
      Same s (storeNew lzo sup i p s).2 := by
  have hholds := h.heap.holds i
  rw [hr] at hholds
  obtain ⟨hp, hz, hu⟩ := hholds
  have hfail : Inv s (update r i (rep lzo none)) := by
    rw [rep, ← hr, update_eq_self]
    exact h
  unfold storeNew
  split
  next hzero =>
    refine ⟨⟨?_, ?_⟩, ⟨rfl, rfl⟩⟩
    · simp only [if_true, rep, hzero]
      exact h.heap.setEntry ⟨hp, rfl, hu⟩ hp
    simp only [if_true, rep, hzero]
    refine h.counts.update hi ?_ ?_ ?_ ?_ ?_ <;> rw [hr] <;> rfl
  next hzero =>
    split
    · exact ⟨hfail.failWrite, ⟨rfl, rfl⟩⟩
    rename_i c hcomp
    simp only [need, hcomp] at hun
    split
    next hbig =>
      -- the page is stored as it is
      rw [if_pos hbig] at hun
      unfold allocPage
      cases ha : sup.alloc with
      | none => exact ⟨hfail.failWrite, ⟨rfl, rfl⟩⟩
      | some a =>
        refine ⟨?_, ⟨rfl, rfl⟩⟩
        simp only [if_true, rep, hzero, Bool.false_eq_true, if_false, hcomp, if_pos hbig, Option.map_some]
        have hlen : p.toList.length = pageSize := by simp
        refine h.memstore hi hr (by rw [hlen]; decide) ?_ ⟨hz, rfl, fun _ => ⟨rfl, hlen⟩, rfl, rfl⟩
        rw [hlen]
        exact hun a ha
    next hsmall =>
      rw [if_neg hsmall] at hun
      have hne : c.length ≠ pageSize := by
        have : maxZpageSize = 3072 := rfl
        have : pageSize = 4096 := rfl
        omega
      simp only [if_neg hne] at hun
      split
      · -- the entry has no page, and gets none
        have hsame : update s.table i { s.table i with page := none } = s.table := by
          rw [← hp, update_eq_self]
        refine ⟨?_, ⟨rfl, rfl⟩⟩
        simp only [hsame]
        exact hfail.failWrite
      rename_i a ha
      refine ⟨?_, ⟨rfl, rfl⟩⟩
      simp only [if_true, rep, hzero, Bool.false_eq_true, if_false, hcomp, if_neg hsmall]
      unfold xvMalloc at ha
      split at ha
      · cases ha
      next hok =>
        refine h.memstore hi hr (by omega) (hun a ha) ⟨hz, hu, fun hw => ?_, rfl, rfl⟩
        cases hw

end

theorem storePage_ok {wr : Nat → Option Page} (h : Inv s (rep lzo ∘ wr)) (hi : i < s.numPages)
    (hfit : ∀ s1, freeOld i s = .ok s1 → sup.Fits lzo p s1) :
    ∃ ok s', storePage lzo sup i p s = .ok (ok, s') ∧
      Inv s' (rep lzo ∘ update wr i (if ok then some p else none)) ∧ Same s s' := by
  obtain ⟨s1, hs1, hinv, hsame, hmem⟩ := freeOld_ok h hi
  obtain ⟨hagrees, hunused⟩ := hfit s1 hs1
  have hinv' := hinv.agrees hagrees
  have hi' : i < ({ s1 with mem := sup.mem } : Zram).numPages := by
    rw [hsame.disksize]
    exact hi
  obtain ⟨hnew, hsame'⟩ := storeNew_inv hinv' hi' (update_self _ _ _) hunused
  rw [update_idem] at hnew
  refine ⟨(storeNew lzo sup i p { s1 with mem := sup.mem }).1, (storeNew lzo sup i p { s1 with mem := sup.mem }).2,
    ?_, ?_, ⟨hsame'.initDone.trans hsame.initDone, hsame'.disksize.trans hsame.disksize⟩⟩
  · rw [storePage, hs1, ok_bind]
  · rw [comp_update]
    exact hnew

theorem writeLoop_ok (segs : List (Page × Supply)) (k : Nat) {wr : Nat → Option Page} (h : Inv s (rep lzo ∘ wr))
    (hi : i + segs.length ≤ s.numPages) (hall : WriteAllowed lzo segs i s) :
    ∃ m ok s', writeLoop lzo segs i k s = .ok ((k + m, ok), s') ∧
      Inv s' (rep lzo ∘ record (segs.map Prod.fst) i m ok wr) ∧ Same s s' := by
  induction segs generalizing i k s wr with
  | nil => exact ⟨0, true, s, rfl, h, ⟨rfl, rfl⟩⟩
  | cons seg segs ih =>
    simp only [List.length_cons] at hi
    obtain ⟨hfit, hrest⟩ := hall
    obtain ⟨ok, s1, hs1, hinv, hsame⟩ := storePage_ok h (by omega) hfit
    cases ok with
    | false =>
      refine ⟨0, false, s1, ?_, hinv, hsame⟩
      simp only [writeLoop, hs1, ok_bind, Bool.false_eq_true, if_false, Nat.add_zero]
    | true =>
      have hn : s1.numPages = s.numPages := by rw [Zram.numPages, hsame.disksize, Zram.numPages]
      obtain ⟨m, ok, s2, hs2, hinv2, hsame2⟩ := ih (k + 1) hinv (by omega) (hrest s1 hs1)
      refine ⟨m + 1, ok, s2, ?_, hinv2, ⟨hsame2.initDone.trans hsame.initDone, hsame2.disksize.trans hsame.disksize⟩⟩
      simp only [writeLoop, hs1, ok_bind, if_true, hs2, Nat.add_assoc, Nat.add_comm 1]

theorem toList_ofFn_mem {page : PageId} {o : Nat} {mem : Memory} (h : ∀ i b, p.toList[i]? = some b → mem page (o + i) = b) :
    (Vector.ofFn fun i : Fin pageSize => mem page (o + i)) = p := by
  apply Vector.ext
  intro i hi
  rw [Vector.getElem_ofFn]
  refine h i _ ?_
  rw [List.getElem?_eq_getElem (by simpa using hi), Vector.getElem_toList]

theorem eq_zeroPage (h : pageZeroFilled p = true) : p = zeroPage := by
  apply Vector.ext
  intro i hi
  rw [pageZeroFilled, List.all_eq_true] at h
  have := h p[i] (by rw [Vector.mem_toList_iff]; exact Vector.getElem_mem hi)
  rw [zeroPage, Vector.getElem_replicate]
  exact eq_of_beq this

theorem readPage_ok {wr : Nat → Option Page} (hlzo : lzo.Inverts) (h : Inv s (rep lzo ∘ wr)) (old : Page) :
    readPage lzo i old s = .ok (true, (wr i).getD old) := by
  have hholds := h.heap.holds i
  simp only [comp_apply] at hholds
  cases hw : wr i with
  | none =>
    rw [hw] at hholds
    obtain ⟨hp, hz, _⟩ := hholds
    simp [readPage, hp, hz]
  | some p =>
    simp only [hw, rep] at hholds
    split at hholds
    next hzero =>
      simp [readPage, hholds.2.1, eq_zeroPage hzero]
    split at hholds
    · obtain ⟨hz, hu, _, page, hp, hhas⟩ := hholds
      simp [readPage, hz, hp, hu, toList_ofFn_mem hhas.mem]
    rename_i c hcomp
    split at hholds
    · obtain ⟨hz, hu, _, page, hp, hhas⟩ := hholds
      simp [readPage, hz, hp, hu, toList_ofFn_mem hhas.mem]
    · obtain ⟨hz, hu, _, page, hp, hhas⟩ := hholds
      simp [readPage, hz, hp, hu, xvGetObjectSize, hhas.live, hhas.load, hlzo old hcomp]

theorem readLoop_ok {wr : Nat → Option Page} (hlzo : lzo.Inverts) (h : Inv s (rep lzo ∘ wr)) (olds : List Page) (i : Nat) :
    readLoop lzo s olds i = .ok (some (olds.mapIdx fun k old => (wr (i + k)).getD old)) := by
  induction olds generalizing i with
  | nil => rfl
  | cons old olds ih =>
    simp only [readLoop, readPage_ok hlzo h old, ok_bind, if_true, ih, List.mapIdx_cons, Option.map_some, Nat.add_zero,
      Nat.add_assoc, Nat.add_comm 1]

end G3Mod.Zram
