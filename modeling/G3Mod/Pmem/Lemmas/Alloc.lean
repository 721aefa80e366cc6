import G3Mod.Pmem.Lemmas.Loops

/-!
# The binary decomposition

`pmem_setup` makes one block for each bit of `num_entries`.
-/

namespace G3Mod.Pmem

open Function Lib

variable {s s' : Info} {head : Nat → Prop} {n i j k x y a c : Nat}

/-- The block of order `a` in the binary decomposition of `n` starts at `x`. -/
def Initial (n x a : Nat) : Prop := n.testBit a = true ∧ x = n / 2 ^ (a + 1) * 2 ^ (a + 1)

theorem testBit_iff : n.testBit a = true ↔ n / 2 ^ a % 2 = 1 := by
  rw [Nat.testBit_eq_decide_div_mod_eq, decide_eq_true_eq]

theorem upper_succ : n / 2 ^ a * 2 ^ a = n / 2 ^ (a + 1) * 2 ^ (a + 1) + n / 2 ^ a % 2 * 2 ^ a := by
  have h := Nat.div_add_mod (n / 2 ^ a) 2
  rw [Nat.div_div_eq_div_mul, ← Nat.pow_succ] at h
  calc n / 2 ^ a * 2 ^ a = (2 * (n / 2 ^ (a + 1)) + n / 2 ^ a % 2) * 2 ^ a := by rw [h]
    _ = n / 2 ^ (a + 1) * 2 ^ (a + 1) + n / 2 ^ a % 2 * 2 ^ a := by rw [Nat.pow_succ]; ring

/-! ## `pmem_setup` -/

structure Made (n i : Nat) (s : Info) : Prop where
  numEntries : s.numEntries = n
  noAllocator : s.noAllocator = false
  tiling : Tiling (n / 2 ^ i * 2 ^ i) (fun x => 2 ^ (s.bitmap x).order) fun x => ∃ a, i ≤ a ∧ Initial n x a
  order : ∀ {x a}, i ≤ a → Initial n x a → (s.bitmap x).order = a
  allocated : ∀ x, (s.bitmap x).allocated = false

theorem tiling_congr {len : Nat → Nat} {head' : Nat → Prop} (t : Tiling n len head) (h : ∀ x, head' x ↔ head x) :
    Tiling n len head' := by
  rw [show head' = head from funext fun x => propext (h x)]
  exact t

theorem Made.skip (h : Made n (i + 1) s) (hb : n.testBit i = false) : Made n i s := by
  have hne : ∀ {x a}, i ≤ a → Initial n x a → i + 1 ≤ a := fun {x a} ha hx => by
    refine Nat.lt_of_le_of_ne ha fun e => ?_
    rw [← e, Initial, hb] at hx
    cases hx.1
  have hmod : n / 2 ^ i % 2 = 0 := by
    have := mt testBit_iff.mpr (by rw [hb]; simp : ¬ n.testBit i = true)
    omega
  refine ⟨h.numEntries, h.noAllocator, ?_, fun ha hx => h.order (hne ha hx) hx, h.allocated⟩
  rw [upper_succ, hmod, Nat.zero_mul, Nat.add_zero]
  exact tiling_congr h.tiling fun x =>
    ⟨fun ⟨a, ha, hx⟩ => ⟨a, hne ha hx, hx⟩, fun ⟨a, ha, hx⟩ => ⟨a, by omega, hx⟩⟩

theorem Made.add (h : Made n (i + 1) s) (hb : n.testBit i = true) (hx : n / 2 ^ (i + 1) * 2 ^ (i + 1) = x) :
    Made n i (setOrders x x i s) := by
  have hself : ((setOrders x x i s).bitmap x).order = i := by rw [setOrders_order, if_pos (.inl rfl)]
  have hold : ∀ {y a}, i + 1 ≤ a → Initial n y a → ((setOrders x x i s).bitmap y).order = (s.bitmap y).order :=
    fun {y a} ha hy => by
      have := h.tiling.lt ⟨a, ha, hy⟩
      rw [setOrders_order, if_neg (by omega)]
  refine ⟨h.numEntries, h.noAllocator, ?_, ?_, fun y => ?_⟩
  · have ht := h.tiling.append (fun y => 2 ^ ((setOrders x x i s).bitmap y).order) (Nat.two_pow_pos _)
      fun y ⟨a, ha, hy⟩ => by rw [hold ha hy]
    rw [hx] at ht
    rw [hself] at ht
    rw [upper_succ, testBit_iff.mp hb, Nat.one_mul, hx]
    refine tiling_congr ht fun y => ⟨?_, ?_⟩
    · rintro ⟨a, ha, hy⟩
      rcases Nat.eq_or_lt_of_le ha with rfl | ha
      · exact .inr (hy.2.trans hx)
      · exact .inl ⟨a, ha, hy⟩
    · rintro (⟨a, ha, hy⟩ | hy)
      · exact ⟨a, by omega, hy⟩
      · exact ⟨i, Nat.le_refl i, hb, hy.trans hx.symm⟩
  · intro y a ha hy
    rcases Nat.eq_or_lt_of_le ha with rfl | ha
    · rw [hy.2, hx, hself]
    · rw [hold ha hy]
      exact h.order ha hy
  · rw [setOrders_allocated]
    exact h.allocated y

theorem update_eq (hk : k < 128) :
    { s with bitmap := update s.bitmap x ((s.bitmap x).withOrder k) } = setOrders x x k s := by
  congr 1
  funext y
  simp only [update_apply, Bits.withOrder, Nat.mod_eq_of_lt hk, or_self]
  split
  · next e => rw [e]
  · rfl

theorem setupLoop_made (hi : i ≤ 32) (h : Made n i s) :
    ∃ s', setupLoop i (n / 2 ^ i * 2 ^ i) s = .ok s' ∧ Made n 0 s' := by
  induction i generalizing s with
  | zero => exact ⟨s, rfl, h⟩
  | succ i ih =>
    cases hb : n.testBit i with
    | false =>
      have e : n / 2 ^ (i + 1) * 2 ^ (i + 1) = n / 2 ^ i * 2 ^ i := by
        have := mt testBit_iff.mpr (by rw [hb]; simp : ¬ n.testBit i = true)
        have hz : n / 2 ^ i % 2 = 0 := by omega
        rw [upper_succ (a := i), hz, Nat.zero_mul]
        rfl
      obtain ⟨s', hs', hm⟩ := ih (by omega) (h.skip hb)
      refine ⟨s', ?_, hm⟩
      rw [setupLoop, h.numEntries, hb, if_neg (by simp), e]
      exact hs'
    | true =>
      have e : n / 2 ^ i * 2 ^ i = n / 2 ^ (i + 1) * 2 ^ (i + 1) + 2 ^ i := by
        rw [upper_succ, testBit_iff.mp hb, Nat.one_mul]
      have hlt : n / 2 ^ (i + 1) * 2 ^ (i + 1) < s.numEntries := by
        have h1 := Nat.div_mul_le_self n (2 ^ i)
        have h2 := Nat.two_pow_pos i
        rw [h.numEntries]
        omega
      obtain ⟨s', hs', hm⟩ := ih (by omega) (h.add hb rfl)
      refine ⟨s', ?_, hm⟩
      rw [setupLoop, h.numEntries, hb, if_pos rfl, getBits_eq hlt, ok_bind, setBits_eq hlt, ok_bind, nextIndex, ← e,
        update_eq (by omega)]
      exact hs'

theorem pmemSetup_made {size : Nat} (hn : size / minAlloc < 2 ^ 31) :
    ∃ s, pmemSetup size false = .ok s ∧ Made (size / minAlloc) 0 s := by
  have hno : ∀ {x a}, 32 ≤ a → ¬ Initial (size / minAlloc) x a := fun {x a} ha hx => by
    have hlt : size / minAlloc < 2 ^ a :=
      Nat.lt_of_lt_of_le hn (Nat.pow_le_pow_right (by decide) (by omega))
    have := hx.1
    rw [Nat.testBit_lt_two_pow hlt] at this
    cases this
  have hz : size / minAlloc / 2 ^ 32 * 2 ^ 32 = 0 := by
    rw [Nat.div_eq_of_lt (Nat.lt_trans hn (by decide)), Nat.zero_mul]
  have hmade : Made (size / minAlloc) 32
      { size := size
        numEntries := size / minAlloc
        bitmap := fun _ => { allocated := false, order := 0 }
        noAllocator := false
        allocated := false } := by
    refine ⟨rfl, rfl, ?_, fun ha hx => absurd hx (hno ha), fun _ => rfl⟩
    rw [hz]
    exact tiling_congr .nil fun x => ⟨fun ⟨a, ha, hx⟩ => hno ha hx, False.elim⟩
  obtain ⟨s, hs, hm⟩ := setupLoop_made (Nat.le_refl 32) hmade
  rw [hz] at hs
  exact ⟨s, hs, hm⟩

theorem Made.blocks (h : Made n 0 s) (hn : n < 2 ^ 31) : Blocks s fun x => ∃ a, Initial n x a := by
  have ht := h.tiling
  rw [Nat.pow_zero, Nat.div_one, Nat.mul_one] at ht
  refine ⟨h.numEntries ▸ hn, ?_, ?_, fun _ => h.allocated _⟩
  · rw [h.numEntries]
    exact tiling_congr ht fun x => ⟨fun ⟨a, hx⟩ => ⟨a, Nat.zero_le a, hx⟩, fun ⟨a, _, hx⟩ => ⟨a, hx⟩⟩
  · rintro x ⟨a, hx⟩
    rw [h.order (Nat.zero_le a) hx, hx.2, Nat.pow_succ]
    exact ⟨n / (2 ^ a * 2) * 2, by ring⟩

theorem Made.coalesced (h : Made n 0 s) : Coalesced s (fun x => ∃ a, Initial n x a) none := by
  rintro x ⟨a, hx⟩ _ _ ⟨c, hy⟩ _ ho
  rw [h.order (Nat.zero_le a) hx] at hy ho
  rw [h.order (Nat.zero_le c) hy] at ho
  subst ho
  exact absurd (hy.2.trans hx.2.symm) buddyIndex_ne

section

variable (h : Blocks s head) (hco : Coalesced s head none) (hfree : ∀ i, (s.bitmap i).allocated = false)

include h hco hfree

theorem Blocks.lower (k : Nat) (hi : head i) (hk : (s.bitmap i).order = k) : 2 ^ (k + 1) ∣ i := by
  induction k using Nat.strongRecOn generalizing i with
  | _ k ih =>
    rcases buddyIndex_cases (hk ▸ h.aligned hi) with ⟨hd, _⟩ | ⟨j, hd, e, hb⟩
    · exact hd
    exfalso
    obtain ⟨p, hp, hpe⟩ := h.tiling.exists_previous hi (by omega)
    have hpa := h.aligned hp
    rcases Nat.lt_trichotomy (s.bitmap p).order k with hlt | heq | hgt
    · have h1 := ih _ hlt hp rfl
      have h2 : 2 ^ ((s.bitmap p).order + 1) ∣ i := Nat.dvd_trans (pow_dvd_pow 2 hlt) (hk ▸ h.aligned hi)
      rw [← hpe] at h2
      exact not_pow_succ_dvd ((Nat.dvd_add_right h1).mp h2)
    · -- the two are buddies, and both are free
      rw [heq] at hpe
      have hpj : p = j := by omega
      have := hco i hi (by simp) (hfree i) (by rw [hk, hb, ← hpj]; exact hp) (by simp) (by rw [hk, hb, ← hpj, heq])
      rw [hfree] at this
      cases this
    have h1 : 2 ^ (k + 1) ∣ i := by
      rw [← hpe]
      exact Nat.dvd_trans (pow_dvd_pow 2 hgt) (Nat.dvd_add hpa (Nat.dvd_refl _))
    rw [e] at h1
    exact not_pow_succ_dvd ((Nat.dvd_add_right hd).mp h1)

theorem Blocks.end_lt (hi : head i) : s.numEntries < i + 2 ^ ((s.bitmap i).order + 1) := by
  by_contra hle
  generalize hk : (s.bitmap i).order = k at *
  have hd := h.lower hco hfree k hi hk
  -- the last block of the pair
  obtain ⟨j, hj, hjle, hjlt⟩ := h.tiling.exists_block (x := i + 2 ^ (k + 1) - 1) (by omega)
  have hja := h.aligned hj
  have hjk : (s.bitmap j).order ≤ k := by
    by_contra hgt
    -- a larger block would contain the head `i`
    have hmem := (mem_block hja).mp ⟨hjle, hjlt⟩
    have hsame : (i + 2 ^ (k + 1) - 1) / 2 ^ (k + 1) = i / 2 ^ (k + 1) := (mem_block hd).mp ⟨by omega, by omega⟩
    have := h.eq_of_mem hi hj ((div_congr hsame (Nat.lt_of_not_le hgt)).symm.trans hmem)
    rw [← this, hk] at hgt
    omega
  have hend : j + 2 ^ (s.bitmap j).order = i + 2 ^ (k + 1) := by
    have h1 : 2 ^ (s.bitmap j).order ∣ i + 2 ^ (k + 1) :=
      Nat.dvd_trans (pow_dvd_pow 2 (Nat.le_succ_of_le hjk)) (Nat.dvd_add hd (Nat.dvd_refl _))
    have h2 := Nat.le_of_dvd (by omega) (Nat.dvd_sub h1 hja)
    omega
  have h1 : 2 ^ ((s.bitmap j).order + 1) ∣ i + 2 ^ (k + 1) :=
    Nat.dvd_trans (pow_dvd_pow 2 (Nat.succ_le_succ hjk)) (Nat.dvd_add hd (Nat.dvd_refl _))
  rw [← hend] at h1
  exact not_pow_succ_dvd ((Nat.dvd_add_right (h.lower hco hfree _ hj rfl)).mp h1)

theorem Blocks.initial (hi : head i) : Initial s.numEntries i (s.bitmap i).order := by
  have hend := h.end_lt hco hfree hi
  have hle := h.tiling.end_le hi
  obtain ⟨q, hq⟩ := h.lower hco hfree _ hi rfl
  generalize (s.bitmap i).order = k at *
  have hpos := Nat.two_pow_pos k
  rw [Nat.pow_succ] at hend hq
  have h1 : s.numEntries / 2 ^ (k + 1) = q := by
    rw [Nat.pow_succ, Nat.div_eq_iff (by omega), Nat.mul_comm q]
    omega
  have h2 : s.numEntries / 2 ^ k = 2 * q + 1 := by
    rw [Nat.div_eq_iff hpos]
    have e : (2 * q + 1) * 2 ^ k = 2 ^ k * 2 * q + 2 ^ k := by ring
    omega
  refine ⟨testBit_iff.mpr (by omega), ?_⟩
  rw [h1, hq, Nat.pow_succ, Nat.mul_comm]

end

/-! # `pmem_allocate` and `pmem_free` -/

variable {b len : Nat}

structure Tidy (s : Info) (head : Nat → Prop) : Prop where
  blocks : Blocks s head
  coalesced : Coalesced s head none
  allocator : s.noAllocator = false

theorem Tidy.head_of_allocated (h : Tidy s head) (hi : (s.bitmap i).allocated = true) : head i := by
  by_contra hn
  rw [h.blocks.clear hn] at hi
  cases hi

structure Marks (s s' : Info) (i : Nat) (v : Bool) : Prop where
  numEntries : s'.numEntries = s.numEntries
  allocated : ∀ j, (s'.bitmap j).allocated = if j = i then v else (s.bitmap j).allocated
  order : ∀ j, j ≠ i → (s.bitmap j).allocated = true → (s'.bitmap j).order = (s.bitmap j).order

def mark (i : Nat) (v : Bool) (s : Info) : Info :=
  { s with bitmap := update s.bitmap i { s.bitmap i with allocated := v } }

theorem mark_order {v : Bool} : ((mark i v s).bitmap j).order = (s.bitmap j).order := by
  unfold mark
  simp only [update_apply]
  split
  · next e => rw [e]
  · rfl

theorem mark_allocated {v : Bool} :
    ((mark i v s).bitmap j).allocated = if j = i then v else (s.bitmap j).allocated := by
  unfold mark
  simp only [update_apply]
  split <;> rfl

theorem Blocks.mark (h : Blocks s head) (hi : head i) (v : Bool) : Blocks (mark i v s) head := by
  refine ⟨h.size, ?_, ?_, fun {j} hj => ?_⟩
  · simp only [mark_order]
    exact h.tiling
  · simp only [mark_order]
    exact h.aligned
  · have hne : j ≠ i := fun e => hj (by rw [e]; exact hi)
    rw [mark_allocated, if_neg hne]
    exact h.clear hj

theorem Coalesced.mark (h : Coalesced s head (some i)) (v : Bool) : Coalesced (mark i v s) head (some i) := by
  intro j hj hne hf hb hne' ho
  simp only [mark_order] at hb hne' ho ⊢
  rw [mark_allocated, if_neg fun e => hne (by rw [e])] at hf
  rw [mark_allocated, if_neg fun e => hne' (by rw [e])]
  exact h j hj hne hf hb hne' ho

theorem Frame.marks {v : Bool} (h : Frame s s') : Marks s (mark i v s') i v := by
  refine ⟨h.numEntries, fun j => ?_, fun j hj ha => ?_⟩
  · rw [mark_allocated, h.allocated]
  · rw [mark_order]
    exact h.order j ha

theorem pmemAllocate_spec (h : Tidy s head) (len : Nat) :
    ∃ r s', pmemAllocate len s = .ok (r, s') ∧ Best s head (pmemOrder len) (fun _ => True) r ∧
      (r = none → s' = s) ∧
      ∀ b, r = some b → (s'.bitmap b).order = pmemOrder len ∧ Marks s s' b true ∧ ∃ head', Tidy s' head' := by
  have hle := pmemOrder_le len
  have hmod : pmemOrder len % 256 = pmemOrder len := Nat.mod_eq_of_lt (by omega)
  obtain ⟨r, hr, hbest⟩ := findLoop_spec (pmemOrder len) (s.numEntries + 1) 0 none h.blocks
    (by
      rcases Nat.eq_zero_or_pos s.numEntries with e | hpos
      · exact .inr e.symm
      · exact .inl (h.blocks.tiling.zero hpos))
    (fun i _ hi => absurd hi (Nat.not_lt_zero i)) (by omega)
  have hmax : ¬ maxOrder < pmemOrder len := by
    have : maxOrder = 128 := rfl
    omega
  rw [hmod] at hbest
  cases r with
  | none =>
    refine ⟨none, s, ?_, hbest, fun _ => rfl, fun b hb => by cases hb⟩
    simp only [pmemAllocate, h.allocator, Bool.false_eq_true, if_false, if_neg hmax, hr, ok_bind]
  | some b =>
    obtain ⟨hb, hfree, hord, hmin⟩ := hbest
    have hlt := h.blocks.order_lt hb
    obtain ⟨s', head', hs', h1, h2, h3, h4, h5⟩ := splitLoop_spec (pmemOrder len) maxOrder h.blocks
      h.coalesced.weaken hb hfree (by omega) (by have : maxOrder = 128 := rfl; omega)
    have hbn : b < s'.numEntries := h1.tiling.lt h3
    refine ⟨some b, mark b true s', ?_, ⟨hb, hfree, hord, hmin⟩, (fun e => by cases e), fun b' e => ?_⟩
    · simp only [pmemAllocate, h.allocator, Bool.false_eq_true, if_false, if_neg hmax, hr, ok_bind, hs',
        getBits_eq hbn, setBits_eq hbn, mark]
    cases e
    refine ⟨by rw [mark_order, h4, hmod], h5.marks, head', h1.mark h3 true, ?_, h5.noAllocator.trans h.allocator⟩
    refine (h2.mark true).settle fun hf => ?_
    rw [mark_allocated, if_pos rfl] at hf
    cases hf

/-- The entries of the bitmap that `pmem_free` reads and writes. -/
def pmemFreeIndices (index : Nat) (s : Info) : List Nat :=
  if s.noAllocator then [] else index :: freeLoopIndices maxOrder index (mark index false s)

theorem pmemFree_spec (h : Tidy s head) (hi : (s.bitmap i).allocated = true) :
    ∃ s', pmemFree i s = .ok s' ∧ Marks s s' i false ∧ ∃ head', Tidy s' head' ∧
      ∃ b, Ends s' head' i b (pmemFreeIndices i s) := by
  have hhead := h.head_of_allocated hi
  have hlt := h.blocks.tiling.lt hhead
  have hfree : ((mark i false s).bitmap i).allocated = false := by rw [mark_allocated, if_pos rfl]
  obtain ⟨s', head', hs', h1, h2, h3, b, -, hends⟩ := freeLoop_spec maxOrder (h.blocks.mark hhead false)
    (h.coalesced.weaken.mark false) hhead hfree (by have : maxOrder = 128 := rfl; omega)
  refine ⟨s', ?_, ⟨h3.numEntries, fun j => ?_, fun j hj ha => ?_⟩, head', ⟨h1, h2, h3.noAllocator.trans h.allocator⟩, b,
    hends.head, hends.free, hends.around, ?_⟩
  · rw [pmemFree, h.allocator, if_neg (by simp), getBits_eq hlt, ok_bind, setBits_eq hlt, ok_bind]
    exact hs'
  · rw [h3.allocated, mark_allocated]
  · rw [h3.order j (by rw [mark_allocated, if_neg hj]; exact ha), mark_order]
  · have hn : i < s'.numEntries := h3.numEntries ▸ hlt
    rw [← hends.bound, pmemFreeIndices, h.allocator]
    simp [hn]

end G3Mod.Pmem
