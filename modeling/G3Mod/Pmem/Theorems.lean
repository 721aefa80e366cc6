import G3Mod.Pmem.Lemmas.Alloc

/-!
# The buddy allocator over every run
-/

namespace G3Mod.Pmem

open Function Lib

variable {s : State} {size i j k len : Nat}

/-! ## What the bitmap says -/

/-- The block at `i`, of order `k`, is met by the walk along `PMEM_NEXT_INDEX` from 0. -/
def Block (s : Info) (i k : Nat) : Prop :=
  Reached s.numEntries (fun i => 2 ^ (s.bitmap i).order) i ∧ (s.bitmap i).order = k

def FreeBlock (s : Info) (i k : Nat) : Prop := Block s i k ∧ (s.bitmap i).allocated = false

structure Tiled (s : Info) : Prop where
  aligned : ∀ {i k}, Block s i k → 2 ^ k ∣ i
  inside : ∀ {i k}, Block s i k → i + 2 ^ k ≤ s.numEntries
  cover : ∀ x < s.numEntries, ∃! i, ∃ k, Block s i k ∧ i ≤ x ∧ x < i + 2 ^ k

/-- The live allocations are blocks that are marked allocated, long enough and disjoint. -/
structure LiveBlocks (s : State) : Prop where
  block : ∀ {i len}, s.live i = some len →
    ∃ k, Block s.info i k ∧ (s.info.bitmap i).allocated = true ∧ len ≤ pmemLen k
  disjoint : ∀ {i j k k'}, (s.live i).isSome → (s.live j).isSome → i ≠ j → Block s.info i k → Block s.info j k' →
    i + 2 ^ k ≤ j ∨ j + 2 ^ k' ≤ i

theorem Tidy.block_iff {s : Info} {head : Nat → Prop} (h : Tidy s head) :
    Block s i k ↔ head i ∧ (s.bitmap i).order = k := by
  rw [Block, h.blocks.tiling.reached_iff]

theorem Tidy.tiled {s : Info} {head : Nat → Prop} (h : Tidy s head) : Tiled s := by
  refine ⟨fun hb => ?_, fun hb => ?_, fun x hx => ?_⟩
  · obtain ⟨hi, rfl⟩ := h.block_iff.mp hb
    exact h.blocks.aligned hi
  · obtain ⟨hi, rfl⟩ := h.block_iff.mp hb
    exact h.blocks.tiling.end_le hi
  obtain ⟨i, hi, hle, hlt⟩ := h.blocks.tiling.exists_block hx
  refine ⟨i, ⟨_, h.block_iff.mpr ⟨hi, rfl⟩, hle, hlt⟩, ?_⟩
  rintro j ⟨k, hb, hjle, hjlt⟩
  obtain ⟨hj, rfl⟩ := h.block_iff.mp hb
  exact h.blocks.tiling.unique hj hi hjle hjlt hle hlt

/-! ## The invariant -/

structure Inv (size : Nat) (s : State) : Prop where
  tidy : ∃ head, Tidy s.info head
  numEntries : s.info.numEntries = size / minAlloc
  live : ∀ i, (s.live i).isSome = (s.info.bitmap i).allocated
  long : ∀ {i len}, s.live i = some len → len ≤ pmemLen (s.info.bitmap i).order

theorem inv_init (hn : size / minAlloc < 2 ^ 31) (h : (machine size).init s) : Inv size s := by
  obtain ⟨hs, hl⟩ := h
  obtain ⟨s0, hs0, hm⟩ := pmemSetup_made hn
  rw [hs0] at hs
  cases hs
  refine ⟨⟨_, hm.blocks hn, hm.coalesced, hm.noAllocator⟩, hm.numEntries, fun i => ?_, fun {i len} h => ?_⟩
  · rw [hl, hm.allocated]
    rfl
  · rw [hl] at h
    cases h

theorem Inv.exec (h : Inv size s) {op : Op} (hop : op.Permitted s) : ∃ o t, exec s op = .ok (o, t) ∧ Inv size t := by
  obtain ⟨head, ht⟩ := h.tidy
  cases op with
  | allocate len =>
    obtain ⟨r, s', hx, hbest, hnone, hsome⟩ := pmemAllocate_spec ht len
    cases r with
    | none =>
      refine ⟨none, { s with info := s' }, by simp only [Pmem.exec, hx, ok_bind], ?_⟩
      rw [hnone rfl]
      exact h
    | some b =>
      obtain ⟨hord, hm, head', ht'⟩ := hsome b rfl
      refine ⟨some b, { info := s', live := update s.live b (some len) }, by simp only [Pmem.exec, hx, ok_bind],
        ⟨head', ht'⟩, hm.numEntries.trans h.numEntries,
        fun i => ?_, fun {i len'} hl => ?_⟩
      · simp only [update_apply, hm.allocated]
        split
        · rfl
        · exact h.live i
      simp only [update_apply] at hl
      split at hl
      next e =>
        cases hl
        rw [e]
        have := ht.blocks.order_lt hbest.1
        have := hbest.2.2.1
        rw [hord]
        exact le_pmemLen hop (by omega)
      rename_i e
      have ha : (s.info.bitmap i).allocated = true := by rw [← h.live, hl]; rfl
      rw [hm.order i e ha]
      exact h.long hl
  | free index =>
    have ha : (s.info.bitmap index).allocated = true := by rw [← h.live]; exact hop
    obtain ⟨s', hx, hm, head', ht', -⟩ := pmemFree_spec ht ha
    refine ⟨none, { info := s', live := update s.live index none }, by simp only [Pmem.exec, hx, ok_bind],
      ⟨head', ht'⟩, hm.numEntries.trans h.numEntries,
      fun i => ?_, fun {i len'} hl => ?_⟩
    · simp only [update_apply, hm.allocated]
      split
      · rfl
      · exact h.live i
    simp only [update_apply] at hl
    split at hl
    · cases hl
    rename_i e
    have ha : (s.info.bitmap i).allocated = true := by rw [← h.live, hl]; rfl
    rw [hm.order i e ha]
    exact h.long hl

theorem machine_inductive (hn : size / minAlloc < 2 ^ 31) : (machine size).Inductive (Inv size) where
  init := inv_init hn
  step h hop := h.exec hop

theorem Inv.liveBlocks (h : Inv size s) : LiveBlocks s := by
  obtain ⟨head, ht⟩ := h.tidy
  refine ⟨fun {i len} hl => ?_, fun {i j k k'} _ _ hne hi hj => ?_⟩
  · have ha : (s.info.bitmap i).allocated = true := by rw [← h.live, hl]; rfl
    exact ⟨_, ht.block_iff.mpr ⟨ht.head_of_allocated ha, rfl⟩, ha, h.long hl⟩
  obtain ⟨hhi, rfl⟩ := ht.block_iff.mp hi
  obtain ⟨hhj, rfl⟩ := ht.block_iff.mp hj
  rcases Nat.lt_or_gt_of_ne hne with hlt | hlt
  · exact .inl (ht.blocks.tiling.end_le_of_lt hhi hhj hlt)
  · exact .inr (ht.blocks.tiling.end_le_of_lt hhj hhi hlt)

theorem Inv.restored (h : Inv size s) (hn : size / minAlloc < 2 ^ 31) (hl : ∀ i, s.live i = none) {s0 : Info}
    (hs0 : pmemSetup size false = .ok s0) : Block s.info i k ↔ Block s0 i k := by
  obtain ⟨head, ht⟩ := h.tidy
  obtain ⟨s1, hs1, hm⟩ := pmemSetup_made hn
  rw [hs0] at hs1
  cases hs1
  have ht0 : Tidy s0 fun x => ∃ a, Initial (size / minAlloc) x a := ⟨hm.blocks hn, hm.coalesced, hm.noAllocator⟩
  have hfree : ∀ i, (s.info.bitmap i).allocated = false := fun i => by rw [← h.live, hl]; rfl
  have hinit : ∀ {i}, head i → Initial (size / minAlloc) i (s.info.bitmap i).order := fun hi => by
    rw [← h.numEntries]
    exact ht.blocks.initial ht.coalesced hfree hi
  have hord : ∀ {i}, head i → (s0.bitmap i).order = (s.info.bitmap i).order := fun hi =>
    hm.order (Nat.zero_le _) (hinit hi)
  have ht1 := ht.blocks.tiling
  have ht2 := ht0.blocks.tiling
  rw [h.numEntries] at ht1
  rw [hm.numEntries] at ht2
  have hsame : (∃ a, Initial (size / minAlloc) i a) ↔ head i :=
    ht1.eq_of_subset ht2 fun x hx => ⟨⟨_, hinit hx⟩, by rw [hord hx]⟩
  rw [ht.block_iff, ht0.block_iff, hsame]
  exact and_congr_right fun hi => by rw [hord hi]

def AllocatesBest (s : Info) (len : Nat) (r : Option Nat) : Prop :=
  (r = none ↔ ¬ ∃ i k, FreeBlock s i k ∧ pmemOrder len ≤ k) ∧
    ∀ i, r = some i → ∃ k, FreeBlock s i k ∧ pmemOrder len ≤ k ∧
      ∀ j k', FreeBlock s j k' → pmemOrder len ≤ k' → k ≤ k'

theorem Tidy.allocatesBest {s : Info} {head : Nat → Prop} (h : Tidy s head) {r : Option Nat}
    (hr : Best s head (pmemOrder len) (fun _ => True) r) : AllocatesBest s len r := by
  have hfree : ∀ {i k}, FreeBlock s i k ↔ head i ∧ (s.bitmap i).order = k ∧ (s.bitmap i).allocated = false :=
    fun {i k} => by rw [FreeBlock, h.block_iff, and_assoc]
  cases r with
  | none =>
    refine ⟨iff_of_true rfl ?_, fun i e => by cases e⟩
    rintro ⟨i, k, hb, hle⟩
    obtain ⟨hi, rfl, hf⟩ := hfree.mp hb
    have := hr i hi trivial hf
    omega
  | some b =>
    obtain ⟨hb, hf, hle, hmin⟩ := hr
    have hblock : FreeBlock s b (s.bitmap b).order := hfree.mpr ⟨hb, rfl, hf⟩
    refine ⟨iff_of_false (by simp) fun hn => hn ⟨b, _, hblock, hle⟩, fun i e => ?_⟩
    cases e
    refine ⟨_, hblock, hle, fun j k' hj hle' => ?_⟩
    obtain ⟨hhj, rfl, hf'⟩ := hfree.mp hj
    exact hmin j hhj trivial hf' hle'

/-- The blocks tile the device, `pmem_allocate` takes the smallest sufficient order, and freeing undoes it. -/
theorem buddy_allocator (hn : size / minAlloc < 2 ^ 31) (h : (machine size).Reachable s) :
    Tiled s.info ∧ LiveBlocks s ∧
      (∀ len, ∃ r info, pmemAllocate len s.info = .ok (r, info) ∧ AllocatesBest s.info len r) ∧
      (∀ index, (s.live index).isSome → ∃ info, pmemFree index s.info = .ok info) ∧
      ((∀ index, s.live index = none) →
        ∃ s₀, pmemSetup size false = .ok s₀ ∧ ∀ i k, Block s.info i k ↔ Block s₀ i k) := by
  have hi := (machine_inductive hn).reachable h
  obtain ⟨head, ht⟩ := hi.tidy
  refine ⟨ht.tiled, hi.liveBlocks, fun len => ?_, fun index hl => ?_, fun hl => ?_⟩
  · obtain ⟨r, s', hx, hbest, _⟩ := pmemAllocate_spec ht len
    exact ⟨r, s', hx, ht.allocatesBest hbest⟩
  · obtain ⟨s', hx, _⟩ := pmemFree_spec ht (by rw [← hi.live]; exact hl)
    exact ⟨s', hx⟩
  · obtain ⟨s₀, hs0, _⟩ := pmemSetup_made hn
    exact ⟨s₀, hs0, fun i k => hi.restored hn hl hs0⟩

def sevenPages : State where
  info := ((pmemSetup (7 * 4096) false).toOption).getD ⟨0, 0, fun _ => ⟨false, 0⟩, false, false⟩
  live _ := none

theorem sevenPages_live : ∃ s, (machine (7 * 4096)).Reachable s ∧ s.live 6 = some 4096 ∧ s.live 4 = some 8192 ∧
    Tiled s.info ∧ LiveBlocks s := by
  have h : (machine (7 * 4096)).Run sevenPages _ _ :=
    Machine.run_of_execList [.allocate 4096, .allocate 8192] rfl
  have hr : (machine (7 * 4096)).Reachable _ := ⟨sevenPages, _, ⟨rfl, rfl⟩, h⟩
  have hb := buddy_allocator (by decide) hr
  exact ⟨_, hr, rfl, rfl, hb.1, hb.2.1⟩

/-! # The bounds of the bitmap

`pmem_free` looks at the buddy of the last block of the device, which lies behind the bitmap. -/

variable {l b : Nat}

/-- `x` is in the last of the blocks that `pmem_setup` makes, the one of the lowest order, or behind it. -/
def InLast (n x : Nat) : Prop := ∃ b k, n = b + 2 ^ k ∧ 2 ^ (k + 1) ∣ b ∧ b ≤ x

theorem last_unique {b' k' : Nat} (h : b + 2 ^ k = b' + 2 ^ k') (hd : 2 ^ (k + 1) ∣ b) (hd' : 2 ^ (k' + 1) ∣ b') : k = k' := by
  have hle : ∀ {b b' k k'}, b + 2 ^ k = b' + 2 ^ k' → 2 ^ (k + 1) ∣ b → 2 ^ (k' + 1) ∣ b' → ¬ k < k' := by
    intro b b' k k' h hd hd' hlt
    have hsum : 2 ^ (k + 1) ∣ b' + 2 ^ k' :=
      Nat.dvd_add ((pow_dvd_pow 2 (by omega)).trans hd') (pow_dvd_pow 2 hlt)
    exact not_pow_succ_dvd ((Nat.dvd_add_right hd).mp (h ▸ hsum))
  exact Nat.le_antisymm (Nat.not_lt.mp (hle h.symm hd' hd)) (Nat.not_lt.mp (hle h hd hd'))

theorem Tidy.last_order {s : Info} {head : Nat → Prop} (h : Tidy s head) (hn : s.numEntries = b + 2 ^ l) (hd : 2 ^ l ∣ b)
    (hfree : ∀ j, b ≤ j → (s.bitmap j).allocated = false) (hi : head i) (hle : b ≤ i) : l ≤ (s.bitmap i).order := by
  generalize hk : (s.bitmap i).order = k
  induction k using Nat.strongRecOn generalizing i with
  | _ k ih =>
    by_contra hlt
    have hin : buddyIndex i k / 2 ^ l = b / 2 ^ l := by
      rw [div_congr buddyIndex_div (by omega : k + 1 ≤ l)]
      exact (mem_block hd).mp ⟨hle, hn ▸ h.blocks.tiling.lt hi⟩
    obtain ⟨hble, hblt⟩ := (mem_block hd).mpr hin
    obtain ⟨hb, hbo⟩ := h.blocks.buddy hi (by rw [hk]; omega)
    rw [hk] at hb hbo
    rcases Nat.lt_or_eq_of_le hbo with ho | ho
    · exact absurd (ih _ ho hb hble rfl) (by omega)
    -- two free buddies of one order would have been merged
    have hc := h.coalesced i hi nofun (hfree i hle)
    rw [hk] at hc
    exact nomatch (hfree _ hble).symm.trans (hc hb nofun ho)

theorem Tidy.buddy_outside {s : Info} {head : Nat → Prop} (h : Tidy s head) (hn : s.numEntries = b + 2 ^ l)
    (hd : 2 ^ (l + 1) ∣ b) (hfree : ∀ j, b ≤ j → (s.bitmap j).allocated = false) {x : Nat} (hx : b ≤ x) (hi : head i)
    (hend : i ≤ x ∧ x < i + 2 ^ (s.bitmap i).order) : ¬ buddyIndex i (s.bitmap i).order < s.numEntries := by
  have hd' : 2 ^ l ∣ b := (pow_dvd_pow 2 (Nat.le_succ l)).trans hd
  have hle := h.blocks.tiling.end_le hi
  generalize hk : (s.bitmap i).order = k at *
  have hkl : l ≤ k := by
    by_contra hlt
    -- a block that is smaller than the last one is inside of it
    have hmem : x / 2 ^ l = i / 2 ^ l := div_congr ((mem_block (hk ▸ h.blocks.aligned hi)).mp hend) (by omega)
    have hib := (mem_block hd').mpr (hmem.symm.trans ((mem_block hd').mp ⟨hx, by omega⟩))
    exact absurd (h.last_order hn hd' hfree hi hib.1) (by omega)
  have hdvd : 2 ^ l ∣ i + 2 ^ k := Nat.dvd_add ((pow_dvd_pow 2 hkl).trans (hk ▸ h.blocks.aligned hi)) (pow_dvd_pow 2 hkl)
  have heq : i + 2 ^ k = b + 2 ^ l := by
    obtain ⟨q, hq⟩ := hdvd
    obtain ⟨r, rfl⟩ := hd'
    have : r < q := Nat.lt_of_mul_lt_mul_left (a := 2 ^ l) (by omega)
    have := Nat.mul_le_mul_left (2 ^ l) this
    rw [Nat.mul_succ] at this
    omega
  rcases Nat.lt_or_eq_of_le hkl with hlt | rfl
  · have hsum : 2 ^ (l + 1) ∣ b + 2 ^ l :=
      heq ▸ Nat.dvd_add ((pow_dvd_pow 2 hlt).trans (hk ▸ h.blocks.aligned hi)) (pow_dvd_pow 2 hlt)
    exact absurd ((Nat.dvd_add_right hd).mp hsum) not_pow_succ_dvd
  · obtain rfl : i = b := by omega
    rw [buddyIndex_lower hd]
    omega

/-- `pmem_free` of a live allocation stays inside the bitmap iff it is not the only one in the last block of
`pmem_setup`. -/
theorem free_inside_bitmap_iff (hn : size / minAlloc < 2 ^ 31) (h : (machine size).Reachable s)
    (hl : (s.live i).isSome) :
    (∀ x ∈ pmemFreeIndices i s.info, x < s.info.numEntries) ↔
      ¬ (InLast s.info.numEntries i ∧ ∀ j, (s.live j).isSome → InLast s.info.numEntries j → j = i) := by
  have hinv := (machine_inductive hn).reachable h
  obtain ⟨head, ht⟩ := hinv.tidy
  obtain ⟨s', -, hm, head', ht', b, hends⟩ := pmemFree_spec ht (by rw [← hinv.live]; exact hl)
  have haligned := ht'.blocks.aligned hends.head
  have hend := ht'.blocks.tiling.end_le hends.head
  have haround := (mem_block haligned).mpr hends.around
  rw [← hm.numEntries, hends.bound]
  constructor
  · rintro hlt ⟨⟨c, l, hc, hd, hle⟩, honly⟩
    refine ht'.buddy_outside hc hd (fun j hj => ?_) hle hends.head haround hlt
    rw [hm.allocated, ← hinv.live]
    split
    · rfl
    · next hne => exact Bool.eq_false_iff.mpr fun hj' => hne (honly j hj' ⟨c, l, hc, hd, hj⟩)
  refine fun hcond => by_contra fun hout => hcond ?_
  rcases buddyIndex_cases haligned with ⟨hd, e⟩ | ⟨j, hd, e, e'⟩
  · -- the block that the freed one has become ends the device
    have hc : s'.numEntries = b + 2 ^ (s'.bitmap b).order := by omega
    refine ⟨⟨b, _, hc, hd, haround.1⟩, fun j hj ⟨c, l, hc', hd', hle⟩ => by_contra fun hne => ?_⟩
    obtain rfl := last_unique (hc.symm.trans hc') hd hd'
    have hja : (s'.bitmap j).allocated = true := by rw [hm.allocated, if_neg hne, ← hinv.live, hj]
    have hjh := ht'.head_of_allocated hja
    have hjb := ht'.blocks.tiling.unique hjh hends.head (Nat.le_refl j) (Nat.lt_add_of_pos_right (Nat.two_pow_pos _))
      (by omega) (hc ▸ ht'.blocks.tiling.lt hjh)
    rw [hjb, hends.free] at hja
    cases hja
  · omega

theorem free_before_last_page : ∃ s, (machine (7 * 4096)).Reachable s ∧ (s.live 4).isSome ∧
    ∀ x ∈ pmemFreeIndices 4 s.info, x < s.info.numEntries := by
  have h : (machine (7 * 4096)).Run sevenPages _ _ := Machine.run_of_execList [.allocate 4096, .allocate 8192] rfl
  have hr : (machine (7 * 4096)).Reachable _ := ⟨sevenPages, _, ⟨rfl, rfl⟩, h⟩
  refine ⟨_, hr, rfl, (free_inside_bitmap_iff (by decide) hr rfl).mpr fun ⟨⟨b, k, hn, hd, hle⟩, _⟩ => ?_⟩
  have h6 : 7 = 6 + 2 ^ 0 := rfl
  obtain rfl := last_unique (h6.symm.trans hn) (by decide) hd
  have : 7 = b + 1 := hn
  omega

def onePage : State where
  info := ((pmemSetup 4096 false).toOption).getD ⟨0, 0, fun _ => ⟨false, 0⟩, false, false⟩
  live _ := none

/-- On a device of one page, the page is allocated and freed. -/
theorem free_reads_behind_bitmap : ∃ s, (machine 4096).Reachable s ∧ (s.live 0).isSome ∧
    pmemFreeIndices 0 s.info = [0, 0, 1] ∧ s.info.numEntries = 1 := by
  have h : (machine 4096).Run onePage _ _ := Machine.run_of_execList [.allocate 4096] rfl
  exact ⟨_, ⟨onePage, _, ⟨rfl, rfl⟩, h⟩, rfl, rfl, rfl⟩

theorem Tidy.order_ge {s : Info} {head : Nat → Prop} (h : Tidy s head) (hn : b + 2 ^ l ≤ s.numEntries) (hd : 2 ^ l ∣ b)
    (hfree : ∀ x, x / 2 ^ l = b / 2 ^ l → (s.bitmap x).allocated = false) (hi : head i) (hib : i / 2 ^ l = b / 2 ^ l) :
    l ≤ (s.bitmap i).order := by
  generalize hk : (s.bitmap i).order = k
  induction k using Nat.strongRecOn generalizing i with
  | _ k ih =>
    by_contra hlt
    have hin : buddyIndex i k / 2 ^ l = b / 2 ^ l := (div_congr buddyIndex_div (by omega : k + 1 ≤ l)).trans hib
    have hlast := ((mem_block hd).mpr hin).2
    obtain ⟨hb, hbo⟩ := h.blocks.buddy hi (by rw [hk]; omega)
    rw [hk] at hb hbo
    rcases Nat.lt_or_eq_of_le hbo with ho | ho
    · exact hlt (by have := ih _ ho hb hin rfl; omega)
    -- two free buddies of one order would have been merged
    have hc := h.coalesced i hi nofun (hfree i hib)
    rw [hk] at hc
    exact nomatch (hfree _ hin).symm.trans (hc hb nofun ho)

theorem Tidy.free_block {s : Info} {head : Nat → Prop} (h : Tidy s head) (hi : head i)
    (hf : (s.bitmap i).allocated = false) {x : Nat} (hx : x / 2 ^ (s.bitmap i).order = i / 2 ^ (s.bitmap i).order) :
    (s.bitmap x).allocated = false := by
  by_contra ha
  rw [Bool.not_eq_false] at ha
  rw [h.blocks.eq_of_mem (h.head_of_allocated ha) hi hx, hf] at ha
  cases ha

theorem Tidy.block_kept {s s' : Info} {head head' : Nat → Prop} (h : Tidy s head) (h' : Tidy s' head')
    (hn : s'.numEntries = s.numEntries) (ha : ∀ x, (s'.bitmap x).allocated = (s.bitmap x).allocated)
    (ho : ∀ x, (s.bitmap x).allocated = true → (s'.bitmap x).order = (s.bitmap x).order) (hi : head i) :
    head' i ∧ (s'.bitmap i).order = (s.bitmap i).order := by
  cases hf : (s.bitmap i).allocated with
  | true => exact ⟨h'.head_of_allocated ((ha i).trans hf), ho i hf⟩
  | false =>
    obtain ⟨j, hj, hij⟩ := h'.blocks.exists_block (hn ▸ h.blocks.tiling.lt hi)
    have hjf : (s'.bitmap j).allocated = false := by
      by_contra hja
      rw [Bool.not_eq_false, ha] at hja
      rw [ho j hja] at hij
      rw [h.blocks.eq_of_mem hi (h.head_of_allocated hja) hij, hja] at hf
      cases hf
    -- neither of the two blocks is smaller than the other, since the space of each is free in both states
    have hle : (s'.bitmap j).order ≤ (s.bitmap i).order := h.order_ge (hn ▸ h'.blocks.tiling.end_le hj)
      (h'.blocks.aligned hj) (fun x hx => (ha x).symm.trans (h'.free_block hj hjf hx)) hi hij
    have hji := (div_congr hij hle).symm
    have hge : (s.bitmap i).order ≤ (s'.bitmap j).order := h'.order_ge (hn ▸ h.blocks.tiling.end_le hi)
      (h.blocks.aligned hi) (fun x hx => (ha x).trans (h.free_block hi hf hx)) hj hji
    have hij' := (mem_block (h'.blocks.aligned hj)).mpr hij
    have hji' := (mem_block (h.blocks.aligned hi)).mpr hji
    obtain rfl : i = j := by omega
    exact ⟨hj, Nat.le_antisymm hle hge⟩

/-- The blocks do not depend on the history: if two runs leave the same live blocks, they leave the same free ones. -/
theorem blocks_determined {s' : State} (hn : size / minAlloc < 2 ^ 31) (h : (machine size).Reachable s)
    (h' : (machine size).Reachable s') (hl : ∀ i, (s.live i).isSome = (s'.live i).isSome)
    (ho : ∀ i k, (s.live i).isSome → Block s.info i k → Block s'.info i k) :
    Block s.info i k ↔ Block s'.info i k := by
  have hi := (machine_inductive hn).reachable h
  have hi' := (machine_inductive hn).reachable h'
  obtain ⟨head, ht⟩ := hi.tidy
  obtain ⟨head', ht'⟩ := hi'.tidy
  have he : s'.info.numEntries = s.info.numEntries := hi'.numEntries.trans hi.numEntries.symm
  have hkept : ∀ i, head i → head' i ∧ (s'.info.bitmap i).order = (s.info.bitmap i).order := by
    intro i
    apply ht.block_kept ht' he
    · intro x
      rw [← hi.live, ← hi'.live, hl]
    · intro x hx
      have hb := ho x _ ((hi.live x).trans hx) (ht.block_iff.mpr ⟨ht.head_of_allocated hx, rfl⟩)
      exact (ht'.block_iff.mp hb).2
  have hsame : head' i ↔ head i :=
    ht.blocks.tiling.eq_of_subset (he ▸ ht'.blocks.tiling) fun x hx => ⟨(hkept x hx).1, by rw [(hkept x hx).2]⟩
  rw [ht.block_iff, ht'.block_iff, hsame]
  exact and_congr_right fun hx => by rw [(hkept i hx).2]

theorem sevenPages_determined : ∃ s, (machine (7 * 4096)).Run sevenPages [(.allocate 4096, some 6), (.free 6, none)] s ∧
    ∀ i k, Block sevenPages.info i k ↔ Block s.info i k := by
  have h : (machine (7 * 4096)).Run sevenPages [(.allocate 4096, some 6), (.free 6, none)] _ :=
    Machine.run_of_execList [.allocate 4096, .free 6] rfl
  refine ⟨_, h, fun i k => blocks_determined (by decide) (.init ⟨rfl, rfl⟩) ⟨sevenPages, _, ⟨rfl, rfl⟩, h⟩ ?_ nofun⟩
  intro i
  change (none : Option Nat).isSome = (update (update (fun _ => none) 6 (some 4096)) 6 none i).isSome
  grind

end G3Mod.Pmem
