import G3Mod.Xvmalloc.Lemmas.Free

/-!
# The allocator keeps its heap in order
-/

namespace G3Mod.Xvmalloc

open Function Lib

variable {s t : State} {block : PageId → Nat → Prop} {pool : Pool} {header : Addr → Header} {p : PageId}
  {op : Op} {o : Out} {a b : Addr} {size n m i : Nat}

/-! ## The empty pool -/

theorem inv_init (h : machine.init s) : Inv s fun _ _ => False := by
  obtain ⟨hpool, howned, hlive⟩ := h
  refine ⟨fun p hp => ?_, ⟨fun _ => [], ?_, fun i a => ?_⟩, fun a n => ?_⟩
  · rw [howned] at hp
    cases hp
  · rw [hpool]
    refine ⟨fun _ => rfl, fun _ => List.nodup_nil, fun ha => ?_, fun hne => absurd rfl hne, ?_⟩
    · cases ha
    · exact ⟨fun j k _ => by simp [emptyPool], fun j => Nat.two_pow_pos _, fun j => by simp [emptyPool]⟩
  · refine ⟨fun ha => ?_, fun ha => ha.1.2.1.elim⟩
    cases ha
  · rw [hlive]
    refine ⟨fun hl => ?_, fun hl => hl.2.2.1.elim⟩
    cases hl

def start : State where
  pool := emptyPool
  header _ := ⟨0, 0⟩
  link _ := ⟨none, none⟩
  owned _ := false
  live _ := none

theorem start_init : machine.init start := ⟨rfl, fun _ => rfl, fun _ => rfl⟩

theorem findBlock_fits (h : Consistent pool header) (size : Nat) :
    (∀ i a, findBlock size pool = .ok (i, some a) →
      i < numFreeLists ∧ pool.freelist i = some a ∧ size ≤ (header a).size) ∧
    (∀ i, findBlock size pool = .ok (i, none) →
      ∀ j, getIndex size ≤ j → j < numFreeLists → pool.freelist j = none) ∧
    (size ≤ maxAllocSize → ∃ r, findBlock size pool = .ok r) := by
  rcases findBlock_spec h size with ⟨hx, hge⟩ | ⟨i, a, hx, hle, hlt, hhead⟩ | ⟨hx, hnone⟩
  · rw [hx]
    refine ⟨fun _ _ hc => ?_, fun _ hc => ?_, fun hsize => ?_⟩
    · cases hc
    · cases hc
    · exact absurd (getIndex_word_lt hsize) (Nat.not_lt.mpr hge)
  · rw [hx]
    refine ⟨fun i' a' hc => ?_, fun _ hc => ?_, fun _ => ⟨_, rfl⟩⟩
    · cases hc
      obtain ⟨hmin, hi⟩ := h.sizes i a hlt hhead
      exact ⟨hlt, hhead, size_le_of_index hmin (by rw [hi]; exact hle)⟩
    · cases hc
  · rw [hx]
    refine ⟨fun _ _ hc => ?_, fun _ _ => hnone, fun _ => ⟨_, rfl⟩⟩
    cases hc

theorem new_page_fits :
    Consistent (addPage 0 start).pool (addPage 0 start).header ∧
      findBlock 100 (addPage 0 start).pool = .ok (507, some ⟨0, 0⟩) ∧
      (addPage 0 start).pool.freelist 507 = some ⟨0, 0⟩ ∧ 100 ≤ ((addPage 0 start).header ⟨0, 0⟩).size := by
  have h := ((inv_init start_init).addPage (p := 0) rfl).consistent
  have hx : findBlock 100 (addPage 0 start).pool = .ok (507, some ⟨0, 0⟩) := rfl
  exact ⟨h, hx, ((findBlock_fits h 100).1 _ _ hx).2⟩

/-- What holds of the heap between two operations, in terms of what a walk over the pages and the lists meets. -/
structure HeapOk (s : State) (lists : Nat → List Addr) : Prop where
  /-- the blocks of a page follow each other without gaps -/
  tiles : ∀ p, s.owned p = true → Tiling pageSize (fun i => blockLen s ⟨p, i⟩) fun i => IsBlock s ⟨p, i⟩
  /-- no two neighbours are free -/
  apart : ∀ p i, IsBlock s ⟨p, i⟩ → IsBlock s ⟨p, i + blockLen s ⟨p, i⟩⟩ → testFlag (s.header ⟨p, i⟩) .blockFree = true →
    testFlag (s.header ⟨p, i + blockLen s ⟨p, i⟩⟩) .blockFree = false
  /-- a block knows the one before it -/
  back : ∀ p i, IsBlock s ⟨p, i⟩ → IsBlock s ⟨p, i + blockLen s ⟨p, i⟩⟩ →
    getBlockprev (s.header ⟨p, i + blockLen s ⟨p, i⟩⟩) = i ∧
      testFlag (s.header ⟨p, i + blockLen s ⟨p, i⟩⟩) .prevFree = testFlag (s.header ⟨p, i⟩) .blockFree
  first : ∀ p, s.owned p = true → getBlockprev (s.header ⟨p, 0⟩) = 0 ∧ testFlag (s.header ⟨p, 0⟩) .prevFree = false
  /-- the lists are linked both ways -/
  linked : ∀ i, Linked s.link none (s.pool.freelist i) (lists i)
  nodup : ∀ i, (lists i).Nodup
  /-- each large free block is in the list of its size and in no other -/
  listed : ∀ i a, a ∈ lists i ↔ IsBlock s a ∧ testFlag (s.header a) .blockFree = true ∧
    minAllocSize ≤ (s.header a).size ∧ getIndexForInsert (s.header a).size = i
  /-- the bitmaps have a bit for each list, and for each word of lists, that is not empty -/
  slbitmap : ∀ i, (s.pool.slbitmap (i / bitsPerLong)).testBit (i % bitsPerLong) = true ↔ lists i ≠ []
  flbitmap : ∀ j, s.pool.flbitmap.testBit j = true ↔ ∃ i, i / bitsPerLong = j ∧ lists i ≠ []
  bound : ∀ i, lists i ≠ [] → i < numFreeLists
  /-- an object has its bytes in a block of its own, and that in the page -/
  inside : ∀ a n, s.live a = some n → IsBlock s ⟨a.page, a.offset - xvAlign⟩ ∧ xvAlign ≤ a.offset ∧
    a.offset + n ≤ a.offset - xvAlign + blockLen s ⟨a.page, a.offset - xvAlign⟩ ∧ a.offset + n ≤ pageSize
  disjoint : ∀ a n b m, s.live a = some n → s.live b = some m → a ≠ b → a.page = b.page →
    a.offset + n ≤ b.offset ∨ b.offset + m ≤ a.offset

theorem Inv.block_of_isBlock (h : Inv s block) (ha : IsBlock s a) : s.owned a.page = true ∧ block a.page a.offset :=
  ⟨ha.1, (h.isBlock_iff ha.1).mp ha⟩

theorem Inv.live_inside (h : Inv s block) (ha : s.live a = some n) :
    IsBlock s ⟨a.page, a.offset - xvAlign⟩ ∧ xvAlign ≤ a.offset ∧
      a.offset + n ≤ a.offset - xvAlign + blockLen s ⟨a.page, a.offset - xvAlign⟩ ∧ a.offset + n ≤ pageSize := by
  obtain ⟨hle, hp, hb, _, hsize⟩ := (h.live a n).mp ha
  have hend := (h.page _ hp).tiling.end_le hb
  have halign := le_align (s.header ⟨a.page, a.offset - xvAlign⟩).size
  change a.offset - xvAlign + (align (s.header ⟨a.page, a.offset - xvAlign⟩).size xvAlign + xvAlign) ≤ pageSize at hend
  refine ⟨(h.isBlock_iff hp).mpr hb, hle, ?_, ?_⟩
  · rw [blockLen]
    omega
  · omega

theorem Inv.live_disjoint (h : Inv s block) (ha : s.live a = some n) (hb : s.live b = some m) (hne : a ≠ b)
    (hpage : a.page = b.page) : a.offset + n ≤ b.offset ∨ b.offset + m ≤ a.offset := by
  obtain ⟨q, i⟩ := a
  obtain ⟨q', j⟩ := b
  obtain rfl : q = q' := hpage
  obtain ⟨_, hlea, hina, _⟩ := h.live_inside ha
  obtain ⟨_, hleb, hinb, _⟩ := h.live_inside hb
  obtain ⟨_, hp, hba, _⟩ := (h.live _ n).mp ha
  obtain ⟨_, _, hbb, _⟩ := (h.live _ m).mp hb
  have hij : i ≠ j := by
    rintro rfl
    exact hne rfl
  have ht := (h.page _ hp).tiling
  dsimp only at *
  rcases Nat.lt_or_gt_of_ne hij with hlt | hgt
  · have := ht.end_le_of_lt hba hbb (by omega)
    refine .inl (Nat.le_trans hina ?_)
    exact Nat.le_trans this (Nat.sub_le _ _)
  · have := ht.end_le_of_lt hbb hba (by omega)
    refine .inr (Nat.le_trans hinb ?_)
    exact Nat.le_trans this (Nat.sub_le _ _)

theorem Inv.heapOk (h : Inv s block) : ∃ lists, HeapOk s lists := by
  have hpage : ∀ {p i}, IsBlock s ⟨p, i⟩ → PageOk (fun i => s.header ⟨p, i⟩) (block p) := fun hi => h.page _ hi.1
  have hblock : ∀ {p i}, IsBlock s ⟨p, i⟩ → block p i := fun hi => (h.block_of_isBlock hi).2
  obtain ⟨lists, hlists, hmem⟩ := h.listed
  refine ⟨lists, ?_⟩
  constructor
  case tiles =>
    intro p hp
    have heq : (fun i => IsBlock s ⟨p, i⟩) = block p := funext fun i => propext (h.isBlock_iff (a := ⟨p, i⟩) hp)
    rw [heq]
    exact (h.page p hp).tiling
  case apart => exact fun p i hi hj hfree => (hpage hi).apart (hblock hi) (hblock hj) rfl hfree
  case back => exact fun p i hi hj => (hpage hi).back (hblock hi) (hblock hj) rfl
  case first => exact fun p hp => (h.page p hp).first.symm
  case linked => exact hlists.linked
  case nodup => exact hlists.nodup
  case listed =>
    intro i a
    rw [hmem]
    constructor
    · rintro ⟨⟨hp, hb, hfree, hmin⟩, hi⟩
      exact ⟨(h.isBlock_iff hp).mpr hb, hfree, hmin, hi⟩
    · rintro ⟨ha, hfree, hmin, hi⟩
      obtain ⟨hp, hb⟩ := h.block_of_isBlock ha
      exact ⟨⟨hp, hb, hfree, hmin⟩, hi⟩
  case slbitmap =>
    intro i
    rw [hlists.bits.sl _ _ (Nat.mod_lt _ (by decide)), Nat.div_add_mod]
  case flbitmap =>
    intro j
    rw [hlists.bits.fl, ne_zero_iff_testBit]
    constructor
    · rintro ⟨k, hk⟩
      have hlt := lt_of_testBit (hlists.bits.word j) hk
      refine ⟨bitsPerLong * j + k, ?_, (hlists.bits.sl j k hlt).mp hk⟩
      rw [Nat.mul_add_div (by decide), Nat.div_eq_of_lt hlt, Nat.add_zero]
    · rintro ⟨i, rfl, hi⟩
      refine ⟨i % bitsPerLong, (hlists.bits.sl _ _ (Nat.mod_lt _ (by decide))).mpr ?_⟩
      rwa [Nat.div_add_mod]
  case bound => exact fun i hi => hlists.bound hi
  case inside => exact fun a n ha => h.live_inside ha
  case disjoint => exact fun a n b m ha hb hne hp => h.live_disjoint ha hb hne hp

theorem Inv.exec (h : Inv s block) (hop : op.Permitted s) :
    ∃ o t block', exec s op = .ok (o, t) ∧ Inv t block' := by
  cases op with
  | malloc size page => exact h.malloc hop
  | free obj =>
    obtain ⟨n, hn⟩ := Option.isSome_iff_exists.mp hop
    obtain ⟨hle, hused⟩ := (h.live obj n).mp hn
    obtain ⟨t, block', hx, h'⟩ := h.xvFree hused
    have hobj : (⟨obj.page, obj.offset - xvAlign + xvAlign⟩ : Addr) = obj := by rw [Nat.sub_add_cancel hle]
    rw [hobj] at hx h'
    exact ⟨_, _, block', by rw [Xvmalloc.exec, hx]; rfl, h'⟩
  | scribble header link => exact ⟨_, _, block, rfl, h.scribble hop⟩

theorem machine_inductive : machine.Inductive fun s => ∃ block, Inv s block where
  init h := ⟨_, inv_init h⟩
  step := by
    rintro s op ⟨block, h⟩ hop
    obtain ⟨o, t, block', hx, h'⟩ := h.exec hop
    exact ⟨o, t, hx, block', h'⟩

theorem reachable_heapOk (h : machine.Reachable s) :
    (∃ lists, HeapOk s lists) ∧ ∀ op, machine.enabled s op → ∃ o t, exec s op = .ok (o, t) := by
  obtain ⟨block, hinv⟩ := machine_inductive.reachable h
  exact ⟨hinv.heapOk, fun op hop => machine_inductive.safe h hop⟩

def after (s : State) (op : Op) : State :=
  match exec s op with
  | .ok (_, t) => t
  | .error _ => s

theorem reachable_after (h : machine.Reachable s) (hop : op.Permitted s) : machine.Reachable (after s op) := by
  obtain ⟨o, t, hx⟩ := machine_inductive.safe h hop
  have hafter : after s op = t := by
    rw [after, show exec s op = _ from hx]
  rw [hafter]
  exact h.step hop hx

def twoObjects : State := after (after (after start (.malloc 99 (some 0))) (.malloc 200 none)) (.free ⟨0, 4⟩)

theorem twoObjects_heapOk :
    machine.Reachable twoObjects ∧ twoObjects.live ⟨0, 108⟩ = some 200 ∧ ∃ lists, HeapOk twoObjects lists := by
  have h1 : machine.Reachable (after start (.malloc 99 (some 0))) :=
    reachable_after (.init start_init) fun _ _ => rfl
  have h2 : machine.Reachable (after (after start (.malloc 99 (some 0))) (.malloc 200 none)) :=
    reachable_after h1 fun _ hp => nomatch hp
  have h3 : machine.Reachable twoObjects := reachable_after h2 rfl
  exact ⟨h3, rfl, (reachable_heapOk h3).1⟩

/-- If `alloc_page` has the page `p` to give then the allocation succeeds, and one that fails leaves the pool as it is. -/
def Completes (size : Nat) (p : PageId) (s : State) : Prop :=
  (∃ obj t, xvMalloc size (some p) s = .ok (some obj, t)) ∧
    ∀ page t, (∀ q, page = some q → s.owned q = false) → xvMalloc size page s = .ok (none, t) →
      t.pool.totalPages = s.pool.totalPages ∧ t.pool.freelist = s.pool.freelist

theorem getIndex_lt_iff (hsize : size ≤ maxAllocSize) :
    getIndex (align size xvAlign) < numFreeLists ↔ size ≤ 4088 := by
  unfold getIndex numFreeLists maxAllocSize minAllocSize pageSize align flDelta xvAlign
  dsimp only
  split <;> omega

theorem addPage_freelist : (addPage p s).pool.freelist (numFreeLists - 1) = some ⟨p, 0⟩ := by
  have hhead : (addPage p s).pool.freelist (getIndexForInsert ((addPage p s).header ⟨p, 0⟩).size) = some ⟨p, 0⟩ :=
    update_self _ _ _
  have hindex : getIndexForInsert maxAllocSize = numFreeLists - 1 := by decide
  rwa [(addPage_header p s).1, hindex] at hhead

theorem xvMalloc_completes_iff (h : machine.Reachable s) (hp : s.owned p = false) (hpos : 1 ≤ size)
    (hsize : size ≤ maxAllocSize) : Completes size p s ↔ size ≤ 4088 := by
  obtain ⟨block, hinv⟩ := machine_inductive.reachable h
  rw [← getIndex_lt_iff hsize]
  have hop : ∀ q, some p = some q → s.owned q = false := by
    rintro q ⟨⟩
    exact hp
  constructor
  · rintro ⟨⟨obj, t, hx⟩, _⟩
    rcases hinv.xvMalloc_cases size hop with ⟨_, hx'⟩ | ⟨hnone, _⟩ | ⟨q, _, hx', _⟩ | ⟨_, _, _, _, _, _, _, hlt, _⟩
    · cases hx.symm.trans hx'
    · cases hnone
    · cases hx.symm.trans hx'
    · exact hlt
  intro hlt
  -- the new page is in a list that is searched
  have hlast : ∀ q, ¬ ∀ i, getIndex (align size xvAlign) ≤ i → i < numFreeLists →
      (addPage q s).pool.freelist i = none := fun q hnone => by
    have := hnone (numFreeLists - 1) (Nat.le_sub_one_of_lt hlt) (by decide)
    rw [addPage_freelist] at this
    cases this
  refine ⟨?_, fun page t hop' hx => ?_⟩
  · rcases hinv.xvMalloc_cases size hop with ⟨hbad, _⟩ | ⟨hnone, _⟩ | ⟨q, _, _, hnone⟩ | ⟨_, _, _, _, _, _, _, _, hx⟩
    · omega
    · cases hnone
    · exact absurd hnone (hlast q)
    · exact ⟨_, _, hx⟩
  rcases hinv.xvMalloc_cases size hop' with ⟨_, hx'⟩ | ⟨_, hx'⟩ | ⟨q, _, _, hnone⟩ | ⟨_, _, _, _, _, _, _, _, hx'⟩
  · cases hx.symm.trans hx'
    exact ⟨rfl, rfl⟩
  · cases hx.symm.trans hx'
    exact ⟨rfl, rfl⟩
  · exact absurd hnone (hlast q)
  · cases hx.symm.trans hx'

theorem start_completes : machine.Reachable start ∧ start.owned 0 = false ∧ Completes 4088 0 start :=
  ⟨.init start_init, rfl, (xvMalloc_completes_iff (.init start_init) rfl (by decide) (by decide)).mpr (by decide)⟩

/-- A size that is allowed, and a page for it, which is added for nothing. -/
theorem largest_size_fails :
    machine.Reachable start ∧ 4092 ≤ maxAllocSize ∧
      ∃ t, xvMalloc 4092 (some 0) start = .ok (none, t) ∧ t.pool.totalPages = 1 ∧ t.pool.freelist 507 = some ⟨0, 0⟩ :=
  ⟨.init start_init, by decide, addPage 0 start, rfl, rfl, rfl⟩

end G3Mod.Xvmalloc
