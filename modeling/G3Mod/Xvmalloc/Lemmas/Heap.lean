import Mathlib.Algebra.Order.Group.Nat
import G3Mod.Xvmalloc.Lemmas.Lists

/-!
# The blocks of a page
-/

namespace G3Mod.Xvmalloc

open Function Lib

variable {h : Header} {f g : BlockFlag} {n off : Nat}

/-! ## Headers -/

theorem align_of_dvd (hn : 4 ∣ n) : align n xvAlign = n := by
  unfold align xvAlign
  omega

theorem dvd_align (n : Nat) : 4 ∣ align n xvAlign := by
  unfold align xvAlign
  omega

theorem le_align (n : Nat) : n ≤ align n xvAlign := by
  unfold align xvAlign
  omega

theorem or_mod_four (hoff : 4 ∣ off) (p : Nat) : off ||| p % 4 = off + p % 4 := by
  obtain ⟨k, rfl⟩ := hoff
  exact (Nat.two_pow_add_eq_or_of_lt (show p % 4 < 2 ^ 2 from Nat.mod_lt _ (by decide)) k).symm

@[simp, grind =] theorem size_setFlag : (setFlag f h).size = h.size := by
  unfold setFlag
  split <;> rfl

@[simp, grind =] theorem size_clearFlag : (clearFlag f h).size = h.size := by
  unfold clearFlag
  split <;> rfl

@[simp] theorem size_setBlockprev : (setBlockprev off h).size = h.size := rfl

@[simp] theorem testFlag_size (h : Header) (n : Nat) : testFlag { h with size := n } f = testFlag h f := rfl

theorem testFlag_blockFree : testFlag h .blockFree = true ↔ h.prev % 2 = 1 := by
  rw [testFlag, decide_eq_true_iff, BlockFlag.bit, Nat.div_one]

theorem testFlag_prevFree : testFlag h .prevFree = true ↔ h.prev / 2 % 2 = 1 := by
  rw [testFlag, decide_eq_true_iff, BlockFlag.bit]

theorem testFlag_setFlag : testFlag (setFlag f h) g = (testFlag h g || decide (f = g)) := by
  rw [Bool.eq_iff_iff, Bool.or_eq_true, decide_eq_true_eq]
  by_cases hf : testFlag h f = true
  · grind [setFlag]
  rw [setFlag, if_neg hf]
  cases f <;> cases g <;>
    simp only [testFlag_blockFree, testFlag_prevFree, BlockFlag.bit, reduceCtorEq, or_false, or_true, iff_true] at hf ⊢ <;>
    omega

theorem testFlag_clearFlag : testFlag (clearFlag f h) g = (testFlag h g && !decide (f = g)) := by
  rw [Bool.eq_iff_iff, Bool.and_eq_true, Bool.not_eq_true', decide_eq_false_iff_not]
  by_cases hf : testFlag h f = true
  · rw [clearFlag, if_pos hf]
    cases f <;> cases g <;>
      simp only [testFlag_blockFree, testFlag_prevFree, BlockFlag.bit, reduceCtorEq, not_true_eq_false,
        not_false_eq_true, and_false, and_true, iff_false] at hf ⊢ <;> omega
  · grind [clearFlag]

@[simp] theorem getBlockprev_setFlag : getBlockprev (setFlag f h) = getBlockprev h := by
  unfold setFlag
  split
  · rfl
  next hf =>
    cases f <;> simp only [testFlag_blockFree, testFlag_prevFree, BlockFlag.bit, getBlockprev, xvAlign] at hf ⊢ <;> omega

@[simp] theorem getBlockprev_clearFlag : getBlockprev (clearFlag f h) = getBlockprev h := by
  unfold clearFlag
  split
  next hf =>
    cases f <;> simp only [testFlag_blockFree, testFlag_prevFree, BlockFlag.bit, getBlockprev, xvAlign] at hf ⊢ <;> omega
  · rfl

theorem testFlag_setBlockprev (hoff : 4 ∣ off) : testFlag (setBlockprev off h) f = testFlag h f := by
  rw [setBlockprev, xvAlign, or_mod_four hoff, Bool.eq_iff_iff]
  cases f <;> simp only [testFlag_blockFree, testFlag_prevFree] <;> omega

theorem getBlockprev_setBlockprev (hoff : 4 ∣ off) : getBlockprev (setBlockprev off h) = off := by
  rw [getBlockprev, setBlockprev, xvAlign, or_mod_four hoff]
  dsimp only
  omega

/-! ## Pages -/

section Page

variable {hd hd' : Nat → Header} {block : Nat → Prop} {b lo ub n off i j : Nat}

def headerLen (h : Header) : Nat := align h.size xvAlign + xvAlign

abbrev Header.free (h : Header) : Bool := testFlag h .blockFree

abbrev Header.prevFree (h : Header) : Bool := testFlag h .prevFree

structure PageOk (hd : Nat → Header) (block : Nat → Prop) : Prop where
  tiling : Tiling pageSize (fun i => headerLen (hd i)) block
  aligned : ∀ {i}, block i → 4 ∣ i
  freeSize : ∀ {i}, block i → (hd i).free = true → 4 ∣ (hd i).size
  first : (hd 0).prevFree = false ∧ getBlockprev (hd 0) = 0
  back : ∀ {i j}, block i → block j → i + headerLen (hd i) = j → getBlockprev (hd j) = i ∧ (hd j).prevFree = (hd i).free
  apart : ∀ {i j}, block i → block j → i + headerLen (hd i) = j → (hd i).free = true → (hd j).free = false

structure SameSelf (h h' : Header) : Prop where
  size : h'.size = h.size
  free : h'.free = h.free

structure SameBack (h h' : Header) : Prop where
  prev : getBlockprev h' = getBlockprev h
  prevFree : h'.prevFree = h.prevFree

theorem SameSelf.headerLen {h h' : Header} (hs : SameSelf h h') : headerLen h' = headerLen h := by
  rw [Xvmalloc.headerLen, hs.size, Xvmalloc.headerLen]

theorem SameSelf.refl (h : Header) : SameSelf h h := ⟨rfl, rfl⟩

theorem SameBack.refl (h : Header) : SameBack h h := ⟨rfl, rfl⟩

theorem SameSelf.trans {h h' h'' : Header} (h1 : SameSelf h h') (h2 : SameSelf h' h'') : SameSelf h h'' :=
  ⟨h2.size.trans h1.size, h2.free.trans h1.free⟩

theorem SameBack.trans {h h' h'' : Header} (h1 : SameBack h h') (h2 : SameBack h' h'') : SameBack h h'' :=
  ⟨h2.prev.trans h1.prev, h2.prevFree.trans h1.prevFree⟩

theorem SameSelf.clearPrevFree (h : Header) : SameSelf h (clearFlag .prevFree h) :=
  ⟨size_clearFlag, by simp [Header.free, testFlag_clearFlag]⟩

theorem SameSelf.setPrevFree (h : Header) : SameSelf h (setFlag .prevFree h) :=
  ⟨size_setFlag, by simp [Header.free, testFlag_setFlag]⟩

theorem SameSelf.setBlockprev (h : Header) (hoff : 4 ∣ off) : SameSelf h (setBlockprev off h) :=
  ⟨rfl, testFlag_setBlockprev hoff⟩

theorem SameBack.clearFree (h : Header) (n : Nat) : SameBack h (clearFlag .blockFree { h with size := n }) :=
  ⟨getBlockprev_clearFlag, by simp [Header.prevFree, testFlag_clearFlag]⟩

theorem SameBack.setFree (h : Header) : SameBack h (setFlag .blockFree h) :=
  ⟨getBlockprev_setFlag, by simp [Header.prevFree, testFlag_setFlag]⟩

theorem PageOk.headerLen_free (h : PageOk hd block) (hb : block b) (hf : (hd b).free = true) :
    headerLen (hd b) = (hd b).size + 4 := by
  rw [headerLen, align_of_dvd (h.freeSize hb hf)]
  rfl

theorem dvd_headerLen (h : Header) : 4 ∣ headerLen h := by
  have := dvd_align h.size
  unfold headerLen xvAlign at *
  omega

theorem PageOk.congr (h : PageOk hd block) (hsame : ∀ i, block i → hd' i = hd i) : PageOk hd' block where
  tiling := h.tiling.congr fun i hi => by rw [hsame i hi]
  aligned := h.aligned
  freeSize {i} hi hf := by
    have := @h.freeSize i
    grind
  first := by
    rw [hsame 0 (h.tiling.zero (by decide))]
    exact h.first
  back {i j} hi hj hij := by
    have := @h.back i j
    grind
  apart {i j} hi hj hij hf := by
    have := @h.apart i j
    grind

theorem PageOk.single (hlen : headerLen (hd 0) = pageSize) (hsize : 4 ∣ (hd 0).size)
    (hfirst : (hd 0).prevFree = false ∧ getBlockprev (hd 0) = 0) : PageOk hd (· = 0) where
  tiling := by
    refine ⟨fun _ => rfl, ?_, ?_, ?_, ?_⟩
    · rintro i rfl
      decide
    · rintro i rfl
      rw [hlen]
      decide
    · rintro i rfl
      exact .inl (by rw [hlen, Nat.zero_add])
    · rintro i j rfl hj _ rfl
      exact absurd hj (Nat.lt_irrefl 0)
  aligned := by
    rintro i rfl
    exact Nat.dvd_zero 4
  freeSize := by
    rintro i rfl _
    exact hsize
  first := hfirst
  back := by
    rintro i j rfl rfl hij
    cases hij
  apart := by
    rintro i j rfl rfl hij
    cases hij

theorem PageOk.split (h : PageOk hd block) (hb : block b) (hf : (hd b).free = true) (hn : n + 4 ≤ (hd b).size)
    (hlen : headerLen (hd' b) = n + 4) (hused : (hd' b).free = false)
    (hrest : headerLen (hd' (b + n + 4)) = (hd b).size - n) (hsize : 4 ∣ (hd' (b + n + 4)).size)
    (hfree : (hd' (b + n + 4)).free = true)
    (hprev : getBlockprev (hd' (b + n + 4)) = b ∧ (hd' (b + n + 4)).prevFree = false)
    (hself : ∀ i, block i → i ≠ b → SameSelf (hd i) (hd' i))
    (hback : ∀ i, block i → i ≠ b + headerLen (hd b) → SameBack (hd i) (hd' i))
    (hnext : block (b + headerLen (hd b)) → getBlockprev (hd' (b + headerLen (hd b))) = b + n + 4 ∧
      (hd' (b + headerLen (hd b))).prevFree = true) : PageOk hd' fun i => block i ∨ i = b + n + 4 := by
  have hlenb := h.headerLen_free hb hf
  have htiling : Tiling pageSize (fun i => headerLen (hd' i)) fun i => block i ∨ i = b + n + 4 := by
    have hcut : Tiling pageSize (fun i => headerLen (hd' i)) fun i => block i ∨ i = b + (n + 4) :=
      h.tiling.split hb (by omega) (by omega) hlen (by rw [← Nat.add_assoc, hrest, hlenb]; omega)
        fun i hi hne => (hself i hi hne).headerLen
    exact hcut
  -- the rest is not a block yet
  have hnot : ¬ block (b + n + 4) := h.tiling.gap hb (by omega) (by omega)
  have hin : b + n + 4 < pageSize := htiling.lt (.inr rfl)
  have hend : ∀ i, block i → ∀ j, i + headerLen (hd i) = j → j ≠ b + n + 4 := fun i hi j hij e => by
    have := h.tiling.next hi
    grind
  have hlenSame := fun i hi e => (hself i hi e).headerLen
  have hsizeSame := fun i hi e => (hself i hi e).size
  have hfreeSame := fun i hi e => (hself i hi e).free
  have hpos : b + headerLen (hd b) ≠ 0 := by omega
  refine ⟨htiling, ?_, ?_, ?_, ?_, ?_⟩
  · rintro i (hi | rfl)
    · exact h.aligned hi
    have h1 := h.aligned hb
    have h2 := dvd_headerLen (hd' b)
    omega
  · intro i hi hfree'
    have := @h.freeSize i
    grind
  · have hs := hback 0 (h.tiling.zero (by decide)) hpos.symm
    rw [hs.prevFree, hs.prev]
    exact h.first
  · rintro i j (hi | rfl) hj hij
    · by_cases e : i = b
      · grind
      have hij' : i + headerLen (hd i) = j := by grind
      have hj' : block j := hj.resolve_right (hend i hi j hij')
      have hne : j ≠ b + headerLen (hd b) := fun hj'' => e (h.tiling.eq_of_end_eq hi hb (hij'.trans hj''))
      have hs' := hback j hj' hne
      rw [hs'.prev, hs'.prevFree, hfreeSame i hi e]
      exact h.back hi hj' hij'
    · obtain rfl : j = b + headerLen (hd b) := by omega
      rw [hfree]
      exact hnext (hj.resolve_right (by omega))
  · rintro i j (hi | rfl) hj hij hfree'
    · have := hend i hi j
      have := @h.apart i j
      grind
    obtain rfl : j = b + headerLen (hd b) := by omega
    have hblock := hj.resolve_right (by omega)
    rw [hfreeSame _ hblock (by omega)]
    exact h.apart hb hblock rfl hf

theorem PageOk.merged_len (h : PageOk hd block) (hlo : block lo) (hub : ub = pageSize ∨ block ub) (hlt : lo < ub)
    {k : Header} (hsize : k.size = ub - lo - 4) : headerLen k = ub - lo ∧ 4 ∣ k.size := by
  have hdlo := h.aligned hlo
  have hdub : 4 ∣ ub := by
    rcases hub with rfl | hub
    · decide
    · exact h.aligned hub
  have hdvd : 4 ∣ k.size := by
    omega
  refine ⟨?_, hdvd⟩
  rw [headerLen, align_of_dvd hdvd, hsize, xvAlign]
  omega

theorem PageOk.join (h : PageOk hd block) (hlo : block lo) (hub : ub = pageSize ∨ block ub) (hlt : lo < ub)
    (hleft : (hd' lo).free = true → ∀ i, block i → i + headerLen (hd i) = lo → (hd i).free = false)
    (hright : (hd' lo).free = true → block ub → (hd ub).free = false) (hlen : headerLen (hd' lo) = ub - lo)
    (hdvd : (hd' lo).free = true → 4 ∣ (hd' lo).size)
    (hself : ∀ i, block i → i < lo ∨ ub ≤ i → SameSelf (hd i) (hd' i))
    (hback : ∀ i, block i → i ≤ lo ∨ ub < i → SameBack (hd i) (hd' i))
    (hnext : block ub → getBlockprev (hd' ub) = lo ∧ (hd' ub).prevFree = (hd' lo).free) :
    PageOk hd' fun i => block i ∧ (i ≤ lo ∨ ub ≤ i) := by
  have hlenSame := fun i hi e => (hself i hi e).headerLen
  have hsizeSame := fun i hi e => (hself i hi e).size
  have hfreeSame := fun i hi e => (hself i hi e).free
  -- the end of a block other than `lo` that stays is not inside of the new one
  have hend : ∀ {i j}, block i → i ≤ lo ∨ ub ≤ i → i ≠ lo → i + headerLen (hd i) = j → j ≤ lo ∨ ub < j :=
    fun {i j} hi hout hne hij => by
      have hpos := h.tiling.pos hi
      rcases hout with hle | hge
      · have := h.tiling.end_le_of_lt hi hlo (by omega)
        exact .inl (by omega)
      · exact .inr (by omega)
  refine ⟨h.tiling.join hlo hub hlt hlen fun i hi hout => (hself i hi hout).headerLen, fun hi => h.aligned hi.1, ?_, ?_, ?_, ?_⟩
  · rintro i ⟨hi, hout⟩ hfree'
    have := @h.freeSize i
    grind
  · have hs := hback 0 (h.tiling.zero (by decide)) (.inl (Nat.zero_le _))
    rw [hs.prevFree, hs.prev]
    exact h.first
  · rintro i j ⟨hi, hout⟩ ⟨hj, _⟩ hij
    by_cases e : i = lo
    · subst e
      obtain rfl : j = ub := by omega
      exact hnext hj
    have hij' : i + headerLen (hd i) = j := by rwa [hlenSame i hi (by omega)] at hij
    have hs' := hback j hj (hend hi hout e hij')
    rw [hs'.prev, hs'.prevFree, hfreeSame i hi (by omega)]
    exact h.back hi hj hij'
  · rintro i j ⟨hi, hout⟩ ⟨hj, _⟩ hij hfree'
    by_cases e : i = lo
    · subst e
      obtain rfl : j = ub := by omega
      rw [hfreeSame j hj (.inr (Nat.le_refl j))]
      exact hright hfree' hj
    have hi' : i < lo ∨ ub ≤ i := by omega
    have hij' : i + headerLen (hd i) = j := by rwa [hlenSame i hi hi'] at hij
    rw [hfreeSame i hi hi'] at hfree'
    by_cases ej : j = lo
    · subst ej
      -- a free block in front of the new one, which then is not free
      refine Bool.eq_false_iff.2 fun hf => ?_
      rw [hleft hf i hi hij'] at hfree'
      cases hfree'
    · have hout' := hend hi hout e hij'
      rw [hfreeSame j hj (by omega)]
      exact h.apart hi hj hij' hfree'

end Page

/-! # The heap -/

variable {s s' : State} {F F' : Addr → Prop} {a b : Addr} {i : Nat} {c : Prop} [Decidable c]

attribute [grind ext] Addr

/-! ## The blocks in the lists -/

@[simp] theorem header_setHeader : (setHeader a h s).header a = h := update_self _ _ _

@[grind =] theorem header_setHeader_apply : (setHeader a h s).header b = if b = a then h else s.header b := by
  simp [setHeader, update_apply]

theorem header_setHeader_of_ne (hne : b ≠ a) : (setHeader a h s).header b = s.header b := update_of_ne hne _ _

def Listed (s : State) (F : Addr → Prop) : Prop :=
  ∃ lists, Lists s.pool s.link lists ∧ ∀ i a, a ∈ lists i ↔ F a ∧ getIndexForInsert (s.header a).size = i

section

variable (hl : Listed s F)

include hl

theorem Listed.congr (hpool : s'.pool = s.pool) (hlink : ∀ a, F a → s'.link a = s.link a)
    (hF : ∀ a, F' a ↔ F a)
    (hindex : ∀ a, F a → getIndexForInsert (s'.header a).size = getIndexForInsert (s.header a).size) :
    Listed s' F' := by
  obtain ⟨lists, hlists, hmem⟩ := hl
  refine ⟨lists, ?_, fun i a => ?_⟩
  · rw [hpool]
    exact hlists.congr fun i a ha => hlink a ((hmem i a).mp ha).1
  · rw [hmem, hF]
    exact and_congr_right fun ha => by rw [hindex a ha]

theorem Listed.setHeader (ha : ¬ F a) : Listed (setHeader a h s) F :=
  hl.congr rfl (fun _ _ => rfl) (fun _ => Iff.rfl) fun b hb => by grind

theorem Listed.insert (ha : ¬ F a) : Listed (insertBlock a s) fun b => F b ∨ b = a := by
  obtain ⟨lists, hlists, hmem⟩ := hl
  refine ⟨_, hlists.push (getIndexForInsert_lt _) fun j hj => ha ((hmem j a).mp hj).1, fun i b => ?_⟩
  change _ ↔ _ ∧ getIndexForInsert (s.header b).size = i
  grind

theorem Listed.remove (ha : F a) (hi : getIndexForInsert (s.header a).size = i) :
    Listed (removeBlock a i s) fun b => F b ∧ b ≠ a := by
  obtain ⟨lists, hlists, hmem⟩ := hl
  have hai := (hmem i a).mpr ⟨ha, hi⟩
  refine ⟨_, removeBlock_lists hlists hai, fun j b => ?_⟩
  have hheader : (removeBlock a i s).header = s.header := by
    unfold removeBlock
    split <;> rfl
  rw [mem_update, (hlists.nodup i).mem_erase_iff, hmem, hmem, hheader]
  grind

theorem Listed.head (hhead : s.pool.freelist i = some a) :
    F a ∧ getIndexForInsert (s.header a).size = i := by
  obtain ⟨lists, hlists, hmem⟩ := hl
  have := (hlists.linked i).head_eq
  rw [hhead] at this
  exact (hmem i a).mp (List.mem_of_mem_head? this.symm)

theorem Listed.removeHead (hhead : s.pool.freelist i = some a) :
    Listed (removeBlockHead a i s) fun b => F b ∧ b ≠ a := by
  obtain ⟨ha, hi⟩ := hl.head hhead
  have := hl.remove ha hi
  rwa [removeBlock, if_pos hhead] at this

theorem Listed.insert_if (ha : ¬ F a) :
    Listed (if c then insertBlock a s else s) fun b => F b ∨ b = a ∧ c := by
  split
  · next hc => exact (hl.insert ha).congr rfl (fun _ _ => rfl) (by simp [hc]) fun _ _ => rfl
  · next hc => exact hl.congr rfl (fun _ _ => rfl) (by simp [hc]) fun _ _ => rfl

theorem Listed.remove_if (ha : F a ↔ c) :
    Listed (if c then removeBlock a (getIndexForInsert (s.header a).size) s else s) fun b => F b ∧ b ≠ a := by
  split
  · next hc => exact hl.remove (ha.mpr hc) rfl
  rename_i hc
  refine hl.congr rfl (fun _ _ => rfl) (fun b => and_iff_left_of_imp fun hb => ?_) fun _ _ => rfl
  rintro rfl
  exact hc (ha.mp hb)

theorem Listed.consistent (hF : ∀ a, F a → minAllocSize ≤ (s.header a).size) :
    Consistent s.pool s.header := by
  have hl' := hl
  obtain ⟨lists, hlists, hmem⟩ := hl
  refine ⟨fun j k hj hk => ?_, fun j _ => hlists.bits.word j, fun j => ?_, fun i a _ ha => ?_⟩
  · rw [hlists.bits.sl j k hk, hlists.isSome_iff, iff_and_self]
    exact fun hne => hlists.bound hne
  · rw [hlists.bits.fl, iff_and_self]
    intro hne
    obtain ⟨k, hk⟩ := ne_zero_iff_testBit.mp hne
    have hlt := lt_of_testBit (hlists.bits.word j) hk
    have := word_lt_maxFli (hlists.bound ((hlists.bits.sl j k hlt).mp hk))
    rwa [Nat.mul_add_div (by decide), Nat.div_eq_of_lt hlt, Nat.add_zero] at this
  · obtain ⟨ha', hi⟩ := hl'.head ha
    exact ⟨hF a ha', hi⟩

end

/-! ## The invariant -/

variable {block block' : PageId → Nat → Prop} {p : PageId} {B : Nat → Prop}

def FreeBlock (s : State) (block : PageId → Nat → Prop) (a : Addr) : Prop :=
  s.owned a.page = true ∧ block a.page a.offset ∧ (s.header a).free = true ∧ minAllocSize ≤ (s.header a).size

def UsedBlock (s : State) (block : PageId → Nat → Prop) (n : Nat) (a : Addr) : Prop :=
  s.owned a.page = true ∧ block a.page a.offset ∧ (s.header a).free = false ∧ (s.header a).size = n

structure Inv (s : State) (block : PageId → Nat → Prop) : Prop where
  page : ∀ p, s.owned p = true → PageOk (fun i => s.header ⟨p, i⟩) (block p)
  listed : Listed s (FreeBlock s block)
  live : ∀ a n, s.live a = some n ↔ xvAlign ≤ a.offset ∧ UsedBlock s block n ⟨a.page, a.offset - xvAlign⟩

theorem Inv.consistent (h : Inv s block) : Consistent s.pool s.header := h.listed.consistent fun _ ha => ha.2.2.2

theorem Inv.isBlock_iff (h : Inv s block) (hp : s.owned a.page = true) : IsBlock s a ↔ block a.page a.offset := by
  rw [IsBlock, and_iff_right hp]
  exact (h.page _ hp).tiling.reached_iff

theorem Inv.scribble {header : Addr → Header} {link : Addr → Link Addr} (h : Inv s block)
    (hop : (Op.scribble header link).Permitted s) : Inv { s with header := header, link := link } block := by
  have hsame : ∀ a, s.owned a.page = true → block a.page a.offset → header a = s.header a := fun a hp ha =>
    (hop a ((h.isBlock_iff hp).mpr ha)).1
  refine ⟨fun p hp => (h.page p hp).congr fun i hi => hsame ⟨p, i⟩ hp hi, ?_, fun a n => ?_⟩
  · refine h.listed.congr rfl (fun a ha => ?_) ?_ ?_
    · exact (hop a ((h.isBlock_iff ha.1).mpr ha.2.1)).2 ha.2.2.1 ha.2.2.2
    · grind [FreeBlock]
    · grind [FreeBlock]
  · rw [h.live]
    grind [UsedBlock]

theorem Inv.change (h : Inv s block) (hpage : s'.owned p = true → PageOk (fun i => s'.header ⟨p, i⟩) B)
    (howned : ∀ q, q ≠ p → s'.owned q = s.owned q) (hheader : ∀ a : Addr, a.page ≠ p → s'.header a = s.header a)
    (hl : Listed s' F) (hF : ∀ a : Addr, a.page ≠ p → (F a ↔ FreeBlock s block a))
    (hFp : ∀ i, F ⟨p, i⟩ ↔ s'.owned p = true ∧ B i ∧ (s'.header ⟨p, i⟩).free = true ∧
      minAllocSize ≤ (s'.header ⟨p, i⟩).size)
    (hlive : ∀ a : Addr, a.page ≠ p → s'.live a = s.live a)
    (hlivep : ∀ i n, s'.live ⟨p, i⟩ = some n ↔ xvAlign ≤ i ∧ s'.owned p = true ∧ B (i - xvAlign) ∧
      (s'.header ⟨p, i - xvAlign⟩).free = false ∧ (s'.header ⟨p, i - xvAlign⟩).size = n) :
    Inv s' (update block p B) := by
  refine ⟨fun q hq => ?_, hl.congr rfl (fun _ _ => rfl) (fun a => ?_) fun _ _ => rfl, fun a n => ?_⟩
  · by_cases e : q = p
    · subst e
      rw [update_self]
      exact hpage hq
    · rw [update_of_ne e]
      refine (h.page q (howned q e ▸ hq)).congr fun i _ => hheader ⟨q, i⟩ e
  · obtain ⟨q, i⟩ := a
    by_cases e : q = p
    · rw [e, hFp, FreeBlock, update_self]
    · rw [hF ⟨q, i⟩ e, FreeBlock, FreeBlock, howned q e, update_of_ne e, hheader ⟨q, i⟩ e]
  obtain ⟨q, i⟩ := a
  by_cases e : q = p
  · rw [e, hlivep, UsedBlock, update_self]
  · rw [hlive ⟨q, i⟩ e, h.live, UsedBlock, UsedBlock, howned q e, update_of_ne e, hheader ⟨q, i - xvAlign⟩ e]

theorem Listed.totalPages (hl : Listed s F) (n : Nat) : Listed { s with pool := { s.pool with totalPages := n } } F := by
  obtain ⟨lists, hlists, hmem⟩ := hl
  exact ⟨lists, ⟨hlists.linked, hlists.nodup, hlists.disjoint, hlists.bound,
    ⟨hlists.bits.sl, hlists.bits.word, hlists.bits.fl⟩⟩, hmem⟩

theorem addPage_header (p : PageId) (s : State) :
    ((addPage p s).header ⟨p, 0⟩).size = maxAllocSize ∧ ((addPage p s).header ⟨p, 0⟩).free = true ∧
      ((addPage p s).header ⟨p, 0⟩).prevFree = false ∧ getBlockprev ((addPage p s).header ⟨p, 0⟩) = 0 := by
  have hheader : (addPage p s).header ⟨p, 0⟩ = setBlockprev 0 (clearFlag .prevFree (setFlag .blockFree
      { s.header ⟨p, 0⟩ with size := pageSize - xvAlign })) := update_self _ _ _
  have hzero : 4 ∣ 0 := Nat.dvd_zero 4
  rw [hheader, getBlockprev_setBlockprev hzero, Header.free, Header.prevFree, testFlag_setBlockprev hzero,
    testFlag_setBlockprev hzero, testFlag_clearFlag, testFlag_clearFlag, testFlag_setFlag, testFlag_setFlag]
  simp [maxAllocSize]

theorem not_freeBlock (hp : s.owned a.page = false) : ¬ FreeBlock s block a := fun ha =>
  Bool.false_ne_true (hp.symm.trans ha.1)

theorem Inv.addPage (h : Inv s block) (hp : s.owned p = false) : Inv (addPage p s) (update block p (· = 0)) := by
  obtain ⟨hsize, hfree, hprevFree, hprev⟩ := addPage_header p s
  have hnot : ∀ i, ¬ FreeBlock s block ⟨p, i⟩ := fun i => not_freeBlock hp
  have hother : ∀ a : Addr, a.page ≠ p → (Xvmalloc.addPage p s).header a = s.header a := fun a ha => by
    refine update_of_ne ?_ _ _
    rintro rfl
    exact ha rfl
  have howned : (Xvmalloc.addPage p s).owned p = true := update_self _ _ _
  refine h.change (F := fun a => FreeBlock s block a ∨ a = ⟨p, 0⟩) (fun _ => ?_) (fun q hq => update_of_ne hq _ _) hother
    ?_ ?_ ?_ (fun _ _ => rfl) ?_
  · refine .single ?_ ?_ ⟨hprevFree, hprev⟩
    · rw [headerLen, hsize]
      decide
    · rw [hsize]
      decide
  · refine Listed.insert (Listed.setHeader ?_ (hnot 0)) (hnot 0)
    exact (h.listed.totalPages _).congr rfl (fun _ _ => rfl) (fun _ => Iff.rfl) fun _ _ => rfl
  · grind
  · have : minAllocSize ≤ maxAllocSize := by decide
    grind
  · intro i n
    rw [show (Xvmalloc.addPage p s).live = s.live from rfl, h.live]
    grind [UsedBlock]

end G3Mod.Xvmalloc
