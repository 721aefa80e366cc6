import G3Mod.Xvmalloc.Model

/-!
# Searching for a block
-/

namespace G3Mod.Xvmalloc

open Function Lib

variable {pool : Pool} {header : Addr → Header} {a : Addr} {size i j k : Nat}

/-! ## Indices -/

theorem le_of_getIndex (size : Nat) : size ≤ minAllocSize + flDelta * getIndex size := by
  unfold getIndex align flDelta minAllocSize
  dsimp only
  split <;> omega

theorem le_of_getIndexForInsert (h : minAllocSize ≤ size) : minAllocSize + flDelta * getIndexForInsert size ≤ size := by
  unfold minAllocSize at h
  unfold getIndexForInsert maxAllocSize pageSize xvAlign flDelta minAllocSize
  dsimp only
  split <;> omega

theorem getIndexForInsert_lt (size : Nat) : getIndexForInsert size < numFreeLists := by
  unfold getIndexForInsert numFreeLists maxAllocSize pageSize xvAlign flDelta minAllocSize
  dsimp only
  split <;> omega

theorem getIndex_word_lt (h : size ≤ maxAllocSize) : getIndex size / bitsPerLong < maxFli := by
  unfold maxAllocSize pageSize xvAlign at h
  unfold getIndex align maxFli numFreeLists maxAllocSize pageSize xvAlign flDelta minAllocSize bitsPerLong
  dsimp only
  split <;> omega

theorem size_le_of_index (h : minAllocSize ≤ (header a).size) (hi : getIndex size ≤ getIndexForInsert (header a).size) :
    size ≤ (header a).size := by
  have h1 := le_of_getIndex size
  have h2 := le_of_getIndexForInsert h
  have : flDelta * getIndex size ≤ flDelta * getIndexForInsert (header a).size := Nat.mul_le_mul_left _ hi
  omega

/-! ## The bitmaps -/

/-- The bitmaps say which lists are not empty, and the heads of the lists have sizes that belong there. -/
structure Consistent (pool : Pool) (header : Addr → Header) : Prop where
  sl : ∀ j k, j < maxFli → k < bitsPerLong → ((pool.slbitmap j).testBit k = true ↔
    bitsPerLong * j + k < numFreeLists ∧ (pool.freelist (bitsPerLong * j + k)).isSome = true)
  word : ∀ j < maxFli, pool.slbitmap j < 2 ^ bitsPerLong
  fl : ∀ j, pool.flbitmap.testBit j = true ↔ j < maxFli ∧ pool.slbitmap j ≠ 0
  sizes : ∀ i a, i < numFreeLists → pool.freelist i = some a →
    minAllocSize ≤ (header a).size ∧ getIndexForInsert (header a).size = i

theorem word_lt_maxFli (h : i < numFreeLists) : i / bitsPerLong < maxFli := by
  unfold numFreeLists maxAllocSize pageSize xvAlign flDelta minAllocSize at h
  unfold maxFli numFreeLists maxAllocSize pageSize xvAlign flDelta minAllocSize bitsPerLong
  omega

theorem Consistent.testBit (h : Consistent pool header) (hi : i < numFreeLists) (hs : (pool.freelist i).isSome = true) :
    (pool.slbitmap (i / bitsPerLong)).testBit (i % bitsPerLong) = true := by
  rw [h.sl _ _ (word_lt_maxFli hi) (Nat.mod_lt _ (by decide)), Nat.div_add_mod]
  exact ⟨hi, hs⟩

theorem Consistent.flBit (h : Consistent pool header) (hi : i < numFreeLists) (hs : (pool.freelist i).isSome = true) :
    pool.flbitmap.testBit (i / bitsPerLong) = true :=
  (h.fl _).mpr ⟨word_lt_maxFli hi, ne_zero_iff_testBit.mpr ⟨_, h.testBit hi hs⟩⟩

theorem Consistent.found (h : Consistent pool header) (hj : j < maxFli) (hk : (pool.slbitmap j).testBit k = true) :
    ∃ a, foundList (bitsPerLong * j + k) pool = .ok (bitsPerLong * j + k, some a) := by
  have hlt := lt_of_testBit (h.word j hj) hk
  obtain ⟨hi, hs⟩ := (h.sl j k hj hlt).mp hk
  obtain ⟨a, ha⟩ := Option.isSome_iff_exists.mp hs
  exact ⟨a, by rw [foundList, if_pos hi, ha]⟩

theorem foundList_some {r : Nat × Option Addr} (hx : foundList i pool = .ok r) :
    r = (i, pool.freelist i) ∧ i < numFreeLists := by
  unfold foundList at hx
  split at hx
  next hi =>
    cases hx
    exact ⟨rfl, hi⟩
  · cases hx

theorem testBit_ffs_shiftRight {x n : Nat} (hx : x >>> n ≠ 0) (hlt : x < 2 ^ bitsPerLong) :
    x.testBit (n + ffs (x >>> n)) = true := by
  have := testBit_lowBit hx (Nat.lt_of_le_of_lt (Nat.shiftRight_le x n) hlt)
  rwa [Nat.testBit_shiftRight] at this

theorem Consistent.flbitmap_lt (h : Consistent pool header) : pool.flbitmap < 2 ^ bitsPerLong := by
  refine Nat.lt_pow_two_of_testBit _ fun j hj => ?_
  by_contra hbit
  obtain ⟨hlt, _⟩ := (h.fl j).mp (by simpa using hbit)
  have : maxFli ≤ bitsPerLong := by decide
  omega

def Finds (i : Nat) (pool : Pool) (r : Except Bug (Nat × Option Addr)) : Prop :=
  ∃ i' a, r = .ok (i', some a) ∧ i ≤ i' ∧ i' < numFreeLists ∧ pool.freelist i' = some a

theorem Consistent.finds (h : Consistent pool header) (hj : j < maxFli) (hk : (pool.slbitmap j).testBit k = true)
    (hi : i ≤ bitsPerLong * j + k) : Finds i pool (foundList (bitsPerLong * j + k) pool) := by
  obtain ⟨a, ha⟩ := h.found hj hk
  obtain ⟨heq, hlt⟩ := foundList_some ha
  exact ⟨_, a, ha, hi, hlt, (congrArg Prod.snd heq).symm⟩

theorem findInWords_spec (h : Consistent pool header) (i : Nat) :
    Finds i pool (findInWords i pool) ∨ findInWords i pool = .ok (0, none) ∧
      ∀ i', i / bitsPerLong < i' / bitsPerLong → i' < numFreeLists → pool.freelist i' = none := by
  unfold findInWords
  dsimp only
  by_cases hzero : pool.flbitmap >>> (i / bitsPerLong + 1) = 0
  · rw [if_pos hzero]
    refine .inr ⟨rfl, fun i' hlt hi' => ?_⟩
    by_contra hsome
    have hbit := h.flBit hi' (Option.isSome_iff_ne_none.mpr hsome)
    have : (pool.flbitmap >>> (i / bitsPerLong + 1)).testBit (i' / bitsPerLong - (i / bitsPerLong + 1)) = true := by
      rw [Nat.testBit_shiftRight, Nat.add_sub_cancel' hlt]
      exact hbit
    rw [hzero, Nat.zero_testBit] at this
    cases this
  · rw [if_neg hzero]
    have hbit := testBit_ffs_shiftRight hzero h.flbitmap_lt
    rw [Nat.add_right_comm] at hbit
    obtain ⟨hj, hne⟩ := (h.fl _).mp hbit
    have hlow := testBit_lowBit hne (h.word _ hj)
    have hdiv := Nat.div_add_mod i bitsPerLong
    have hmod : i % bitsPerLong < bitsPerLong := Nat.mod_lt _ (by decide)
    rw [slWord, if_pos hj, ok_bind, Nat.mul_comm _ bitsPerLong]
    refine .inl (h.finds hj hlow ?_)
    rw [Nat.mul_add, Nat.mul_add]
    omega

theorem findBlock_spec (h : Consistent pool header) (size : Nat) :
    findBlock size pool = .error .bounds ∧ maxFli ≤ getIndex size / bitsPerLong ∨
      Finds (getIndex size) pool (findBlock size pool) ∨ findBlock size pool = .ok (0, none) ∧
        ∀ i, getIndex size ≤ i → i < numFreeLists → pool.freelist i = none := by
  unfold findBlock
  by_cases hfl : pool.flbitmap = 0
  · rw [if_pos hfl]
    refine .inr (.inr ⟨rfl, fun i _ hi => ?_⟩)
    by_contra hsome
    have := h.flBit hi (Option.isSome_iff_ne_none.mpr hsome)
    rw [hfl, Nat.zero_testBit] at this
    cases this
  rw [if_neg hfl]
  dsimp only
  generalize getIndex size = g
  have hdiv := Nat.div_add_mod g bitsPerLong
  by_cases hj : g / bitsPerLong < maxFli
  · rw [slWord, if_pos hj, ok_bind]
    refine .inr ?_
    split
    next hbit =>
      have := h.finds hj hbit (Nat.le_of_eq hdiv.symm)
      rw [hdiv] at this
      exact .inl this
    rename_i hbit
    split
    next hrest =>
      have hlow := testBit_ffs_shiftRight hrest.2 (h.word _ hj)
      have := h.finds (i := g) hj hlow (by omega)
      rw [show bitsPerLong * (g / bitsPerLong) + (g % bitsPerLong + 1 +
        ffs (pool.slbitmap (g / bitsPerLong) >>> (g % bitsPerLong + 1))) =
        g + ffs (pool.slbitmap (g / bitsPerLong) >>> (g % bitsPerLong + 1)) + 1 by omega] at this
      exact .inl this
    rename_i hrest
    rcases findInWords_spec h g with hfind | ⟨heq, hnone⟩
    · exact .inl hfind
    refine .inr ⟨heq, fun i hi hlt => ?_⟩
    rcases Nat.lt_or_ge (g / bitsPerLong) (i / bitsPerLong) with hw | hw
    · exact hnone i hw hlt
    -- the list is one of the same word, so that its bit would have been found
    have hword : i / bitsPerLong = g / bitsPerLong := Nat.le_antisymm hw (Nat.div_le_div_right hi)
    have hidiv := Nat.div_add_mod i bitsPerLong
    have himod : i % bitsPerLong < bitsPerLong := Nat.mod_lt _ (by decide)
    rw [hword] at hidiv
    by_contra hsome
    have hib := h.testBit hlt (Option.isSome_iff_ne_none.mpr hsome)
    rw [hword] at hib
    rcases Nat.lt_or_ge (g % bitsPerLong) (i % bitsPerLong) with hk | hk
    · refine hrest ⟨by omega, ne_zero_iff_testBit.mpr ⟨i % bitsPerLong - (g % bitsPerLong + 1), ?_⟩⟩
      rw [Nat.testBit_shiftRight, Nat.add_sub_cancel' hk]
      exact hib
    · rw [show i % bitsPerLong = g % bitsPerLong by omega] at hib
      exact hbit hib
  · refine .inl ⟨?_, Nat.le_of_not_lt hj⟩
    rw [slWord, if_neg hj]
    rfl

/-! # The free lists -/

variable {pool' : Pool} {link link' : Addr → Link Addr} {lists : Nat → List Addr} {s : State} {b : Addr} {l : List
  Addr} {P Q : Nat → Prop}

structure Bits (pool : Pool) (P : Nat → Prop) : Prop where
  sl : ∀ j k, k < bitsPerLong → ((pool.slbitmap j).testBit k = true ↔ P (bitsPerLong * j + k))
  word : ∀ j, pool.slbitmap j < 2 ^ bitsPerLong
  fl : ∀ j, pool.flbitmap.testBit j = true ↔ pool.slbitmap j ≠ 0

theorem Bits.congr (h : Bits pool P) (hPQ : ∀ i, P i ↔ Q i) : Bits pool Q :=
  ⟨fun j k hk => (h.sl j k hk).trans (hPQ _), h.word, h.fl⟩

theorem index_eq_iff (hk : k < bitsPerLong) :
    bitsPerLong * j + k = i ↔ j = i / bitsPerLong ∧ k = i % bitsPerLong := by
  unfold bitsPerLong at *
  omega

theorem Bits.set (h : Bits pool P) (i : Nat) : Bits (setBits i pool) fun j => j = i ∨ P j where
  sl j k hk := by
    rw [index_eq_iff hk, ← h.sl j k hk]
    simp only [setBits, update_apply]
    split
    next hj =>
      rw [← hj, testBit_setBit, Bool.or_eq_true, decide_eq_true_eq]
      tauto
    · tauto
  word j := by
    simp only [setBits, update_apply]
    split
    · exact setBit_lt (h.word _) (Nat.mod_lt _ (by decide))
    · exact h.word j
  fl j := by
    simp only [setBits, testBit_setBit, Bool.or_eq_true, decide_eq_true_eq, h.fl, update_apply]
    split
    · next hj => exact ⟨fun _ => setBit_ne_zero, fun _ => .inr hj.symm⟩
    · tauto

theorem Bits.clear (h : Bits pool P) (i : Nat) : Bits (clearBits i pool) fun j => j ≠ i ∧ P j where
  sl j k hk := by
    rw [ne_eq, index_eq_iff hk, ← h.sl j k hk]
    simp only [clearBits, update_apply]
    split
    next hj =>
      rw [← hj, testBit_clearBit, Bool.and_eq_true, Bool.not_eq_true', decide_eq_false_iff_not]
      tauto
    · tauto
  word j := by
    simp only [clearBits, update_apply]
    split
    · exact clearBit_lt (h.word _)
    · exact h.word j
  fl j := by
    simp only [clearBits, update_apply]
    by_cases hj : j = i / bitsPerLong
    · subst hj
      rw [if_pos rfl]
      split
      · next hzero => simp [hzero]
      rename_i hne
      -- the word had a bit before, so that its own bit was set
      refine ⟨fun _ => hne, fun _ => (h.fl _).mpr fun hzero => hne ?_⟩
      rw [hzero, clearBit, Nat.zero_testBit, if_neg (by decide)]
    rw [if_neg hj, ← h.fl]
    split
    · rw [testBit_clearBit, decide_eq_false fun e => hj e.symm, Bool.not_false, Bool.and_true]
    · rfl

/-! ## The lists -/

structure Lists (pool : Pool) (link : Addr → Link Addr) (lists : Nat → List Addr) : Prop where
  linked : ∀ i, Linked link none (pool.freelist i) (lists i)
  nodup : ∀ i, (lists i).Nodup
  disjoint : ∀ {i j a}, a ∈ lists i → a ∈ lists j → i = j
  bound : ∀ {i}, lists i ≠ [] → i < numFreeLists
  bits : Bits pool fun i => lists i ≠ []

theorem Lists.isSome_iff (h : Lists pool link lists) : (pool.freelist i).isSome = true ↔ lists i ≠ [] := by
  rw [(h.linked i).head_eq]
  cases lists i <;> simp

theorem Lists.congr (h : Lists pool link lists) (hl : ∀ i, ∀ a ∈ lists i, link' a = link a) : Lists pool link' lists :=
  ⟨fun i => (h.linked i).congr (hl i), h.nodup, h.disjoint, h.bound, h.bits⟩

theorem mem_update : b ∈ update lists i l j ↔ (j = i ∧ b ∈ l) ∨ (j ≠ i ∧ b ∈ lists j) := by
  grind [update_apply]

theorem Lists.push (h : Lists pool link lists) (hi : i < numFreeLists) (ha : ∀ j, a ∉ lists j) :
    Lists (setBits i { pool with freelist := update pool.freelist i (some a) })
      (pushFront link (pool.freelist i) a) (update lists i (a :: lists i)) where
  linked j := by
    by_cases hj : j = i
    · subst hj
      simp only [setBits, update_self]
      exact (h.linked j).pushFront (h.nodup j) (ha j)
    simp only [setBits, update_of_ne hj]
    refine (h.linked j).congr fun b hb => (h.linked i).pushFront_of_not_mem ?_ fun hb' => hj (h.disjoint hb hb')
    rintro rfl
    exact ha j hb
  nodup j := by
    have := h.nodup j
    grind [update_apply]
  disjoint {j k b} hj hk := by
    have := @h.disjoint j k b
    grind
  bound {j} hj := by
    have := @h.bound j
    grind [update_apply]
  bits := by
    have hbits : Bits { pool with freelist := update pool.freelist i (some a) } fun i => lists i ≠ [] :=
      ⟨h.bits.sl, h.bits.word, h.bits.fl⟩
    exact (hbits.set i).congr fun j => by grind [update_apply]

theorem Lists.shrink (h : Lists pool link lists) (hsub : l.Sublist (lists i))
    (hfree : ∀ j, j ≠ i → pool'.freelist j = pool.freelist j) (hlink : ∀ b, b ∉ lists i → link' b = link b)
    (hi : Linked link' none (pool'.freelist i) l) (hbits : Bits pool' fun j => update lists i l j ≠ []) :
    Lists pool' link' (update lists i l) := by
  have hmem : ∀ {j b}, b ∈ update lists i l j → b ∈ lists j := fun {j b} hb => by
    grind [mem_update]
  refine ⟨fun j => ?_, fun j => ?_, fun hj hk => h.disjoint (hmem hj) (hmem hk), fun {j} hj => ?_, hbits⟩
  · by_cases hj : j = i
    · subst hj
      rw [update_self]
      exact hi
    · rw [update_of_ne hj, hfree j hj]
      exact (h.linked j).congr fun b hb => hlink b fun hb' => hj (h.disjoint hb hb')
  · have := (h.nodup i).sublist hsub
    have := h.nodup j
    grind [update_apply]
  · obtain ⟨b, hb⟩ := List.exists_mem_of_ne_nil _ hj
    exact h.bound (List.ne_nil_of_mem (hmem hb))

theorem removeBlockHead_lists (h : Lists s.pool s.link lists) (hl : lists i = a :: l) :
    Lists (removeBlockHead a i s).pool (removeBlockHead a i s).link (update lists i l) := by
  have hlinked := h.linked i
  have hnodup := h.nodup i
  rw [hl] at hlinked hnodup
  have hnext : (s.link a).next = l.head? := hlinked.2.2.head_eq
  have hfree : ∀ j, (removeBlockHead a i s).pool.freelist j = update s.pool.freelist i (s.link a).next j := fun j => by
    unfold removeBlockHead
    split <;> rfl
  refine h.shrink (by rw [hl]; exact List.sublist_cons_self a l) (by grind [update_apply]) (fun b hb => ?_) ?_ ?_
  · rw [hl] at hb
    exact hlinked.popFront_of_not_mem hb
  · rw [hfree, update_self]
    exact hlinked.popFront hnodup
  have hbits : Bits { s.pool with freelist := update s.pool.freelist i (s.link a).next } fun i => lists i ≠ [] :=
    ⟨h.bits.sl, h.bits.word, h.bits.fl⟩
  unfold removeBlockHead
  dsimp only
  rw [hnext] at hbits ⊢
  cases l with
  | nil =>
    exact (hbits.clear i).congr fun j => by grind [update_apply]
  | cons b l => grind

theorem removeBlock_lists (h : Lists s.pool s.link lists) (ha : a ∈ lists i) :
    Lists (removeBlock a i s).pool (removeBlock a i s).link (update lists i ((lists i).erase a)) := by
  have hnodup := h.nodup i
  have hhead := (h.linked i).head_eq
  unfold removeBlock
  cases hl : lists i with
  | nil =>
    rw [hl] at ha
    cases ha
  | cons c l =>
    rw [hl] at ha hhead hnodup
    by_cases hac : a = c
    · subst hac
      rw [if_pos (show s.pool.freelist i = some a from hhead), List.erase_cons_head]
      exact removeBlockHead_lists h hl
    rw [if_neg (by rw [hhead]; simpa using fun e => hac e.symm)]
    -- there is a block before `a`
    obtain ⟨pre, post, rfl⟩ := List.append_of_mem ((List.mem_cons.mp ha).resolve_left hac)
    obtain ⟨d, pre', hpre⟩ : ∃ d pre', c :: pre = pre' ++ [d] :=
      ⟨_, _, (List.dropLast_append_getLast (List.cons_ne_nil c pre)).symm⟩
    have heq : c :: (pre ++ a :: post) = pre' ++ d :: a :: post := by
      rw [← List.cons_append, hpre, List.append_assoc]
      rfl
    have hlinked := h.linked i
    rw [hl, heq] at hlinked
    rw [heq] at hnodup
    have herase : (c :: (pre ++ a :: post)).erase a = pre' ++ d :: post := by
      have ha' : a ∉ pre' ++ [d] := by grind
      rw [heq, List.append_cons, List.erase_append_right _ ha', List.erase_cons_head, ← List.append_cons]
    rw [herase]
    refine h.shrink (by rw [hl, heq]; exact .append (.refl _) (.cons_cons _ (.cons _ (.refl _)))) (fun _ _ => rfl)
      (fun b hb => ?_) (hlinked.unlink hnodup) ?_
    · rw [hl, heq] at hb
      have hlinked' : Linked s.link none (s.pool.freelist i) ((pre' ++ [d]) ++ a :: post) := by simpa using hlinked
      refine hlinked'.unlink_of_not_mem fun hm => hb ?_
      simp only [List.mem_append, List.mem_cons] at hm ⊢
      tauto
    · exact h.bits.congr fun j => by grind [update_apply]

end G3Mod.Xvmalloc
