import Mathlib.Algebra.Order.Group.Nat
import Mathlib.Tactic.Ring.RingNF
import Mathlib.Data.Nat.Bitwise
import G3Mod.Pmem.Model

/-!
# Blocks and buddies

The blocks tile the bitmap, each aligned to its size, and the entries within a block are not marked allocated.
-/

namespace G3Mod.Pmem

open Function Lib

variable {s s' : Info} {head : Nat → Prop} {i j k x b curr : Nat}

/-! ## Buddies -/

@[grind =] theorem buddyIndex_buddyIndex : buddyIndex (buddyIndex i k) k = i := by
  rw [buddyIndex, buddyIndex, Nat.xor_assoc, Nat.xor_self, Nat.xor_zero]

theorem buddyIndex_div : buddyIndex i k / 2 ^ (k + 1) = i / 2 ^ (k + 1) := by
  rw [buddyIndex, Nat.xor_div_two_pow, Nat.div_eq_of_lt (Nat.pow_lt_pow_right (by decide) (Nat.lt_succ_self k)),
    Nat.xor_zero]

theorem buddyIndex_cases (h : 2 ^ k ∣ i) :
    (2 ^ (k + 1) ∣ i ∧ buddyIndex i k = i + 2 ^ k) ∨
      ∃ j, 2 ^ (k + 1) ∣ j ∧ i = j + 2 ^ k ∧ buddyIndex i k = j := by
  have hlow : ∀ q, buddyIndex (2 ^ (k + 1) * q) k = 2 ^ (k + 1) * q + 2 ^ k := fun q => by
    have hlt : 2 ^ k < 2 ^ (k + 1) := Nat.pow_lt_pow_right (by decide) (Nat.lt_succ_self k)
    apply Nat.eq_of_testBit_eq
    intro n
    rw [buddyIndex, Nat.testBit_xor, Nat.testBit_two_pow_mul_add _ hlt, Nat.testBit_two_pow_mul]
    by_cases hn : n < k + 1
    · simp [hn, Nat.not_le_of_lt hn]
    · grind
  obtain ⟨q, rfl⟩ := h
  rcases Nat.even_or_odd' q with ⟨r, rfl | rfl⟩
  · have e : 2 ^ k * (2 * r) = 2 ^ (k + 1) * r := by rw [Nat.pow_succ]; ring
    rw [e]
    exact .inl ⟨⟨r, rfl⟩, hlow r⟩
  · have e : 2 ^ k * (2 * r + 1) = 2 ^ (k + 1) * r + 2 ^ k := by rw [Nat.pow_succ]; ring
    refine .inr ⟨2 ^ (k + 1) * r, ⟨r, rfl⟩, e, ?_⟩
    rw [e, ← hlow, buddyIndex_buddyIndex]

theorem buddyIndex_ne : buddyIndex i k ≠ i := fun h => by
  have : (buddyIndex i k).testBit k = i.testBit k := by rw [h]
  rw [buddyIndex, Nat.testBit_xor, Nat.testBit_two_pow_self] at this
  simp at this

theorem mem_block (hj : 2 ^ k ∣ j) : (j ≤ x ∧ x < j + 2 ^ k) ↔ x / 2 ^ k = j / 2 ^ k := by
  obtain ⟨q, rfl⟩ := hj
  have hpos : 0 < 2 ^ k := Nat.two_pow_pos k
  rw [Nat.mul_div_cancel_left _ hpos, Nat.div_eq_iff hpos, Nat.mul_comm]
  omega

theorem div_congr (h : i / 2 ^ k = x / 2 ^ k) (hk : k ≤ j) : i / 2 ^ j = x / 2 ^ j := by
  obtain ⟨d, rfl⟩ := Nat.exists_eq_add_of_le hk
  rw [Nat.pow_add, ← Nat.div_div_eq_div_mul, ← Nat.div_div_eq_div_mul, h]

theorem not_pow_succ_dvd : ¬ 2 ^ (k + 1) ∣ 2 ^ k := fun h =>
  absurd (Nat.le_of_dvd (Nat.two_pow_pos k) h)
    (Nat.not_le_of_lt (Nat.pow_lt_pow_right (by decide) (Nat.lt_succ_self k)))

theorem buddyIndex_lower (h : 2 ^ (k + 1) ∣ i) : buddyIndex i k = i + 2 ^ k := by
  rcases buddyIndex_cases (Nat.dvd_trans (pow_dvd_pow 2 (Nat.le_succ k)) h) with ⟨_, e⟩ | ⟨j, hj, e, _⟩
  · exact e
  · rw [e] at h
    exact absurd ((Nat.dvd_add_right hj).mp h) not_pow_succ_dvd

structure Blocks (s : Info) (head : Nat → Prop) : Prop where
  size : s.numEntries < 2 ^ 31
  tiling : Tiling s.numEntries (fun i => 2 ^ (s.bitmap i).order) head
  aligned : ∀ {i}, head i → 2 ^ (s.bitmap i).order ∣ i
  clear : ∀ {i}, ¬ head i → (s.bitmap i).allocated = false

theorem Blocks.order_lt (h : Blocks s head) (hi : head i) : (s.bitmap i).order < 31 := by
  have hend := h.tiling.end_le hi
  have hsize := h.size
  exact (Nat.pow_lt_pow_iff_right (by decide : 1 < 2)).mp (Nat.lt_of_le_of_lt (by omega) hsize)

theorem Blocks.exists_block (h : Blocks s head) (hx : x < s.numEntries) :
    ∃ j, head j ∧ x / 2 ^ (s.bitmap j).order = j / 2 ^ (s.bitmap j).order := by
  obtain ⟨j, hj, hle, hlt⟩ := h.tiling.exists_block hx
  exact ⟨j, hj, (mem_block (h.aligned hj)).mp ⟨hle, hlt⟩⟩

theorem Blocks.eq_of_mem (h : Blocks s head) (hi : head i) (hj : head j)
    (hx : i / 2 ^ (s.bitmap j).order = j / 2 ^ (s.bitmap j).order) : i = j := by
  obtain ⟨hle, hlt⟩ := (mem_block (h.aligned hj)).mpr hx
  exact h.tiling.unique hi hj (Nat.le_refl i) (Nat.lt_add_of_pos_right (h.tiling.pos hi)) hle hlt

theorem Blocks.buddy (h : Blocks s head) (hi : head i)
    (hlt : buddyIndex i (s.bitmap i).order < s.numEntries) :
    head (buddyIndex i (s.bitmap i).order) ∧
      (s.bitmap (buddyIndex i (s.bitmap i).order)).order ≤ (s.bitmap i).order := by
  obtain ⟨j, hj, hmem⟩ := h.exists_block hlt
  have hle : (s.bitmap j).order ≤ (s.bitmap i).order := by
    by_contra hgt
    -- a larger block would contain both buddies
    have hmem' := (div_congr (buddyIndex_div (i := i)) (Nat.lt_of_not_le hgt)).symm.trans hmem
    rw [h.eq_of_mem hi hj hmem'] at hgt
    omega
  have hdvd : 2 ^ (s.bitmap j).order ∣ buddyIndex i (s.bitmap i).order := by
    have hi' := h.aligned hi
    refine Nat.dvd_trans (pow_dvd_pow 2 hle) ?_
    rcases buddyIndex_cases hi' with ⟨_, e⟩ | ⟨j', hj', _, e⟩
    · exact e ▸ Nat.dvd_add hi' (Nat.dvd_refl _)
    · exact e ▸ Nat.dvd_trans (pow_dvd_pow 2 (Nat.le_succ _)) hj'
  have e : buddyIndex i (s.bitmap i).order = j := by
    rw [← Nat.div_mul_cancel hdvd, hmem, Nat.div_mul_cancel (h.aligned hj)]
  exact e ▸ ⟨hj, hle⟩

/-! ## Changes of the bitmap -/

structure Frame (s s' : Info) : Prop where
  size : s'.size = s.size
  numEntries : s'.numEntries = s.numEntries
  noAllocator : s'.noAllocator = s.noAllocator
  allocated : ∀ i, (s'.bitmap i).allocated = (s.bitmap i).allocated
  order : ∀ i, (s.bitmap i).allocated = true → (s'.bitmap i).order = (s.bitmap i).order

theorem Frame.refl : Frame s s := ⟨rfl, rfl, rfl, fun _ => rfl, fun _ _ => rfl⟩

theorem Frame.trans {s'' : Info} (h : Frame s s') (h' : Frame s' s'') : Frame s s'' where
  size := h'.size.trans h.size
  numEntries := h'.numEntries.trans h.numEntries
  noAllocator := h'.noAllocator.trans h.noAllocator
  allocated i := (h'.allocated i).trans (h.allocated i)
  order i ha := (h'.order i (by rw [h.allocated]; exact ha)).trans (h.order i ha)

def setOrders (i j k : Nat) (s : Info) : Info :=
  { s with bitmap := fun x => if x = i ∨ x = j then { s.bitmap x with order := k } else s.bitmap x }

@[simp, grind =] theorem setOrders_allocated : ((setOrders i j k s).bitmap x).allocated = (s.bitmap x).allocated := by
  unfold setOrders
  dsimp only
  split <;> rfl

@[grind =] theorem setOrders_order :
    ((setOrders i j k s).bitmap x).order = if x = i ∨ x = j then k else (s.bitmap x).order := by
  unfold setOrders
  dsimp only
  split <;> rfl

theorem frame_setOrders (hi : (s.bitmap i).allocated = false) (hj : (s.bitmap j).allocated = false) :
    Frame s (setOrders i j k s) := by
  refine ⟨rfl, rfl, rfl, fun _ => setOrders_allocated, fun x hx => ?_⟩
  grind

theorem Blocks.split (h : Blocks s head) (hb : head b) (hk : (s.bitmap b).order = k + 1) :
    Blocks (setOrders b (b + 2 ^ k) k s) fun i => head i ∨ i = b + 2 ^ k := by
  have hpos : 0 < 2 ^ k := Nat.two_pow_pos k
  have hlen : 2 ^ (s.bitmap b).order = 2 ^ k + 2 ^ k := by rw [hk, Nat.pow_succ]; omega
  have hdvd : 2 ^ (k + 1) ∣ b := hk ▸ h.aligned hb
  refine ⟨h.size, ?_, ?_, ?_⟩
  · have hgap : ∀ i, head i → i ≠ b + 2 ^ k := fun i hi e =>
      h.tiling.gap hb (j := i) (by omega) (by omega) hi
    refine h.tiling.split hb hpos (by omega) ?_ ?_ fun i hi hne => ?_
    · rw [setOrders_order, if_pos (.inl rfl)]
    · rw [setOrders_order, if_pos (.inr rfl)]
      omega
    · rw [setOrders_order, if_neg (not_or.mpr ⟨hne, hgap i hi⟩)]
  · intro i hi
    have hb' : 2 ^ k ∣ b := Nat.dvd_trans (pow_dvd_pow 2 (Nat.le_succ k)) hdvd
    have hb'' := Nat.dvd_add hb' (Nat.dvd_refl (2 ^ k))
    have := h.aligned (i := i)
    grind
  · intro i hi
    rw [setOrders_allocated]
    exact h.clear fun hi' => hi (.inl hi')

theorem Blocks.merge (h : Blocks s head) (hb : head b) (hk : (s.bitmap b).order = k) (hdvd : 2 ^ (k + 1) ∣ b)
    (hb' : head (b + 2 ^ k)) (hk' : (s.bitmap (b + 2 ^ k)).order = k)
    (hfree : (s.bitmap (b + 2 ^ k)).allocated = false) :
    Blocks (setOrders b (b + 2 ^ k) (k + 1) s) fun i => head i ∧ i ≠ b + 2 ^ k := by
  refine ⟨h.size, ?_, ?_, ?_⟩
  · have ht := h.tiling.merge (fun i => 2 ^ ((setOrders b (b + 2 ^ k) (k + 1) s).bitmap i).order)
      hb (by rw [hk]; exact hb')
    rw [hk] at ht
    refine ht ?_ fun i hi h1 h2 => by rw [setOrders_order, if_neg (not_or.mpr ⟨h1, h2⟩)]
    rw [setOrders_order, if_pos (.inl rfl), hk', Nat.pow_succ]
    omega
  · rintro i ⟨hi, hne⟩
    have := h.aligned hi
    grind
  intro i hi
  have := h.clear (i := i)
  grind

/-- Two buddies of the same order are not both free, unless one of them is `except`. -/
def Coalesced (s : Info) (head : Nat → Prop) (except : Option Nat) : Prop :=
  ∀ i, head i → except ≠ some i → (s.bitmap i).allocated = false →
    head (buddyIndex i (s.bitmap i).order) → except ≠ some (buddyIndex i (s.bitmap i).order) →
    (s.bitmap (buddyIndex i (s.bitmap i).order)).order = (s.bitmap i).order →
    (s.bitmap (buddyIndex i (s.bitmap i).order)).allocated = true

theorem Coalesced.weaken (h : Coalesced s head none) : Coalesced s head (some curr) :=
  fun i hi _ hf hb _ => h i hi (by simp) hf hb (by simp)

theorem Coalesced.settle (h : Coalesced s head (some curr))
    (hc : (s.bitmap curr).allocated = false → head (buddyIndex curr (s.bitmap curr).order) →
      (s.bitmap (buddyIndex curr (s.bitmap curr).order)).order = (s.bitmap curr).order →
      (s.bitmap (buddyIndex curr (s.bitmap curr).order)).allocated = true) : Coalesced s head none := by
  intro i hi _ hf hb _ ho
  by_cases e : i = curr
  · subst e
    exact hc hf hb ho
  by_cases e' : buddyIndex i (s.bitmap i).order = curr
  · -- `i` is the buddy of `curr`
    grind
  · exact h i hi (by simpa using Ne.symm e) hf hb (by simpa using Ne.symm e') ho

theorem Coalesced.split (hs : Coalesced s head (some b)) (hb : 2 ^ (k + 1) ∣ b) :
    Coalesced (setOrders b (b + 2 ^ k) k s) (fun i => head i ∨ i = b + 2 ^ k) (some b) := by
  have hbuddy : buddyIndex (b + 2 ^ k) k = b := by rw [← buddyIndex_lower hb, buddyIndex_buddyIndex]
  intro i hi hne hf hbi hne' ho
  have hib : i ≠ b := fun e => hne (by rw [e])
  by_cases e : i = b + 2 ^ k
  · -- the buddy of the new block is `b`
    rw [e, setOrders_order, if_pos (.inr rfl), hbuddy] at hne'
    exact absurd rfl hne'
  have ho' : ((setOrders b (b + 2 ^ k) k s).bitmap i).order = (s.bitmap i).order := by
    rw [setOrders_order, if_neg (not_or.mpr ⟨hib, e⟩)]
  have hs := hs i
  grind

theorem Coalesced.merge (hs : Coalesced s head (some curr)) (hc : curr = b ∨ curr = b + 2 ^ k) :
    Coalesced (setOrders b (b + 2 ^ k) (k + 1) s) (fun i => head i ∧ i ≠ b + 2 ^ k) (some b) := by
  rintro i ⟨hi, hne1⟩ hne hf ⟨hbi, hne2⟩ hne' ho
  rw [setOrders_allocated] at hf ⊢
  have hib : i ≠ b := fun e => hne (by rw [e])
  have ho' : ((setOrders b (b + 2 ^ k) (k + 1) s).bitmap i).order = (s.bitmap i).order := by
    rw [setOrders_order, if_neg (by rintro (h | h); exacts [hib h, hne1 h])]
  rw [ho'] at hbi hne2 hne' ho ⊢
  have hb'' : buddyIndex i (s.bitmap i).order ≠ b := fun h => hne' (by rw [h])
  rw [setOrders_order, if_neg (by rintro (h | h); exacts [hb'' h, hne2 h])] at ho
  refine hs i hi ?_ hf hbi ?_ ho
  · grind
  · grind

/-! # The loops of the allocator -/

variable {o order fuel len : Nat} {best : Option Nat}

theorem getBits_eq (h : i < s.numEntries) : getBits i s = .ok (s.bitmap i) := if_pos h

theorem setBits_eq {v : Bits} (h : i < s.numEntries) :
    setBits i v s = .ok { s with bitmap := update s.bitmap i v } := if_pos h

theorem setOrders_comm : setOrders i j k s = setOrders j i k s := by
  unfold setOrders
  simp only [Or.comm]

theorem update_update_eq (hij : i ≠ j) (hk : k < 128) :
    { s with bitmap := update (update s.bitmap i ((s.bitmap i).withOrder k)) j ((s.bitmap j).withOrder k) } =
      setOrders i j k s := by
  congr 1
  funext x
  simp only [update_apply, Bits.withOrder, Nat.mod_eq_of_lt hk]
  by_cases hj : x = j
  · subst hj
    simp
  by_cases hi : x = i
  · subst hi
    simp [hj]
  · simp [hj, hi]

theorem freeLoop_merge (hc : curr < s.numEntries) (hk : (s.bitmap curr).order = k)
    (hb : buddyIndex curr k < s.numEntries) (hfree : (s.bitmap (buddyIndex curr k)).allocated = false)
    (ho : (s.bitmap (buddyIndex curr k)).order = k) (hlt : k + 1 < 128) :
    freeLoop (fuel + 1) curr s =
      freeLoop fuel (min (buddyIndex curr k) curr) (setOrders (buddyIndex curr k) curr (k + 1) s) := by
  have hne := buddyIndex_ne (i := curr) (k := k)
  rw [freeLoop, getBits_eq hc, ok_bind]
  simp only [hk]
  rw [if_pos ⟨hb, hfree, ho⟩, ho, setBits_eq hb, ok_bind, getBits_eq (by exact hc), ok_bind]
  simp only [update_of_ne (Ne.symm hne), hk]
  rw [setBits_eq (by exact hc), ok_bind]
  simp only
  rw [update_update_eq hne hlt, if_pos]
  exact Nat.lt_of_le_of_lt (Nat.min_le_right _ _) hc

theorem freeLoop_stop (hc : curr < s.numEntries)
    (h : ¬ (buddyIndex curr (s.bitmap curr).order < s.numEntries ∧
      (s.bitmap (buddyIndex curr (s.bitmap curr).order)).allocated = false ∧
      (s.bitmap (buddyIndex curr (s.bitmap curr).order)).order = (s.bitmap curr).order)) :
    freeLoop (fuel + 1) curr s = .ok s := by
  rw [freeLoop, getBits_eq hc, ok_bind]
  rw [if_neg h]

/-- The entries of the bitmap that the loop reads and writes, each buddy as the last one of its round. -/
def freeLoopIndices : Nat → Nat → Info → List Nat
  | 0, _, _ => []
  | fuel + 1, curr, s =>
    let order := (s.bitmap curr).order
    let buddy := buddyIndex curr order
    curr :: buddy ::
      if buddy < s.numEntries ∧ (s.bitmap buddy).allocated = false ∧ (s.bitmap buddy).order = order then
        freeLoopIndices fuel (min buddy curr) (setOrders buddy curr (order + 1) s)
      else []

structure Ends (s' : Info) (head' : Nat → Prop) (i b : Nat) (indices : List Nat) : Prop where
  head : head' b
  free : (s'.bitmap b).allocated = false
  around : i / 2 ^ (s'.bitmap b).order = b / 2 ^ (s'.bitmap b).order
  bound : (∀ x ∈ indices, x < s'.numEntries) ↔ buddyIndex b (s'.bitmap b).order < s'.numEntries

theorem freeLoop_spec (fuel : Nat) (h : Blocks s head) (hco : Coalesced s head (some curr)) (hc : head curr)
    (hfree : (s.bitmap curr).allocated = false) (hf : 31 ≤ fuel + (s.bitmap curr).order) :
    ∃ s' head', freeLoop fuel curr s = .ok s' ∧ Blocks s' head' ∧ Coalesced s' head' none ∧ Frame s s' ∧
      ∃ b, (s.bitmap curr).order ≤ (s'.bitmap b).order ∧ Ends s' head' curr b (freeLoopIndices fuel curr s) := by
  induction fuel generalizing s head curr with
  | zero =>
    have := h.order_lt hc
    omega
  | succ fuel ih =>
    have hlt := h.tiling.lt hc
    have hord := h.order_lt hc
    generalize hk : (s.bitmap curr).order = k at *
    by_cases hx : buddyIndex curr k < s.numEntries ∧ (s.bitmap (buddyIndex curr k)).allocated = false ∧
        (s.bitmap (buddyIndex curr k)).order = k
    · obtain ⟨hb, hbf, hbo⟩ := hx
      obtain ⟨hbh, _⟩ := h.buddy hc (by rw [hk]; exact hb)
      rw [freeLoop_merge hlt hk hb hbf hbo (by omega)]
      -- the lower of the two becomes the head of the merged block
      obtain ⟨b, hdvd, hpair⟩ : ∃ b, 2 ^ (k + 1) ∣ b ∧
          (curr = b ∧ buddyIndex curr k = b + 2 ^ k ∨ curr = b + 2 ^ k ∧ buddyIndex curr k = b) := by
        rcases buddyIndex_cases (hk ▸ h.aligned hc) with ⟨hd, e⟩ | ⟨j, hd, e, e'⟩
        · exact ⟨curr, hd, .inl ⟨rfl, e⟩⟩
        · exact ⟨j, hd, .inr ⟨e, e'⟩⟩
      have hset : setOrders (buddyIndex curr k) curr (k + 1) s = setOrders b (b + 2 ^ k) (k + 1) s ∧
          min (buddyIndex curr k) curr = b := by
        rcases hpair with ⟨e1, e2⟩ | ⟨e1, e2⟩
        · rw [e2, e1, setOrders_comm]
          exact ⟨rfl, Nat.min_eq_right (Nat.le_add_right _ _)⟩
        · simp_all
      rw [hset.1, hset.2]
      have hlow : head b ∧ (s.bitmap b).order = k ∧ (s.bitmap b).allocated = false := by grind
      have hup : head (b + 2 ^ k) ∧ (s.bitmap (b + 2 ^ k)).order = k ∧ (s.bitmap (b + 2 ^ k)).allocated = false := by
        grind
      have hord' : ((setOrders b (b + 2 ^ k) (k + 1) s).bitmap b).order = k + 1 := by
        rw [setOrders_order, if_pos (.inl rfl)]
      obtain ⟨s', head', hs', hblocks, hcoal, hframe, b', hle, hends⟩ := ih (h.merge hlow.1 hlow.2.1 hdvd hup.1 hup.2.1 hup.2.2)
        (hco.merge (hpair.imp And.left And.left)) ⟨hlow.1, by omega⟩ (by rw [setOrders_allocated]; exact hlow.2.2)
        (by rw [hord']; omega)
      rw [hord'] at hle
      refine ⟨s', head', hs', hblocks, hcoal, (frame_setOrders hlow.2.2 hup.2.2).trans hframe, b', by omega, hends.head,
        hends.free, .trans ?_ hends.around, ?_⟩
      · refine div_congr ?_ hle
        rcases hpair with ⟨e, -⟩ | ⟨-, e⟩
        · rw [e]
        · rw [← e, buddyIndex_div]
      · have hn : s'.numEntries = s.numEntries := hframe.numEntries
        rw [← hends.bound, freeLoopIndices]
        simp only [hk, hb, hbf, hbo, and_self, if_true, hset, List.forall_mem_cons, hn, hlt, true_and]
    · subst hk
      refine ⟨s, head, freeLoop_stop hlt hx, h, hco.settle fun _ hb ho => ?_, .refl, curr, le_rfl, hc, hfree, rfl, ?_⟩
      swap
      · simp [freeLoopIndices, hx, hlt]
      by_contra ha
      rw [Bool.not_eq_true] at ha
      exact hx ⟨h.tiling.lt hb, ha, ho⟩

/-! ## The search for the best fit -/

/-- Among the free blocks in `P` of order at least `o`, `best` is one of the smallest order. -/
def Best (s : Info) (head : Nat → Prop) (o : Nat) (P : Nat → Prop) : Option Nat → Prop
  | none => ∀ i, head i → P i → (s.bitmap i).allocated = false → (s.bitmap i).order < o
  | some b => head b ∧ (s.bitmap b).allocated = false ∧ o ≤ (s.bitmap b).order ∧
      ∀ i, head i → P i → (s.bitmap i).allocated = false → o ≤ (s.bitmap i).order →
        (s.bitmap b).order ≤ (s.bitmap i).order

section

variable {P P' : Nat → Prop} (hbest : Best s head o P best) (hP : ∀ i, head i → P' i → P i ∨ i = curr)
include hbest hP

theorem Best.skip (hx : (s.bitmap curr).allocated = false → (s.bitmap curr).order < o ∨
    ∃ b ∈ best, (s.bitmap b).order ≤ (s.bitmap curr).order) : Best s head o P' best := by
  cases best <;> grind [Best]

theorem Best.take (hc : head curr) (hfree : (s.bitmap curr).allocated = false) (ho : o < (s.bitmap curr).order)
    (hlt : ∀ b ∈ best, (s.bitmap curr).order < (s.bitmap b).order) : Best s head o P' (some curr) := by
  cases best <;> grind [Best]

end

theorem findLoop_spec (order fuel curr : Nat) (best : Option Nat) (h : Blocks s head) (hc : head curr ∨ curr = s.numEntries)
    (hbest : Best s head (order % 256) (· < curr) best) (hf : s.numEntries < fuel + curr) :
    ∃ r, findLoop order fuel curr best s = .ok r ∧ Best s head (order % 256) (fun _ => True) r := by
  induction fuel generalizing curr best with
  | zero =>
    rcases hc with hc | hc
    · have := h.tiling.lt hc
      omega
    · omega
  | succ fuel ih =>
    rcases hc with hc | hc
    · have hlt := h.tiling.lt hc
      have hnext : head (nextIndex curr (s.bitmap curr).order) ∨ nextIndex curr (s.bitmap curr).order = s.numEntries :=
        (h.tiling.next hc).symm
      have hf' : s.numEntries < fuel + nextIndex curr (s.bitmap curr).order := by
        have := Nat.two_pow_pos (s.bitmap curr).order
        rw [nextIndex]
        omega
      -- the blocks before the next one are those before `curr`, and `curr`
      have hbefore : ∀ i, head i → i < nextIndex curr (s.bitmap curr).order → i < curr ∨ i = curr := fun i hi hin => by
        by_contra hge
        exact h.tiling.gap hc (by omega) hin hi
      rw [findLoop, if_pos hlt, getBits_eq hlt, ok_bind]
      by_cases hfree : (s.bitmap curr).allocated = false
      · rw [if_pos hfree]
        by_cases heq : (s.bitmap curr).order = order % 256
        · rw [if_pos heq]
          exact ⟨some curr, rfl, hc, hfree, by omega, fun i _ _ _ hoi => by omega⟩
        rw [if_neg heq]
        split
        next hbetter => exact ih _ _ hnext (hbest.take hbefore hc hfree hbetter.1 hbetter.2) hf'
        next hbetter => exact ih _ _ hnext (hbest.skip hbefore fun _ => by grind) hf'
      · rw [if_neg hfree]
        exact ih _ _ hnext (hbest.skip hbefore fun h' => absurd h' hfree) hf'
    · rw [findLoop, if_neg (by omega)]
      have hlt := fun {i} => h.tiling.lt (i := i)
      exact ⟨best, rfl, by cases best <;> grind [Best]⟩

theorem splitLoop_split (hb : b < s.numEntries) (hk : (s.bitmap b).order = k + 1) (hlt : order % 256 ≤ k)
    (hbb : buddyIndex b k < s.numEntries) (hk' : k < 128) :
    splitLoop order (fuel + 1) b s = splitLoop order fuel b (setOrders b (buddyIndex b k) k s) := by
  have hne := buddyIndex_ne (i := b) (k := k)
  rw [splitLoop, getBits_eq hb, ok_bind, hk, if_pos (by omega), setBits_eq hb, ok_bind, getBits_eq (by exact hb), ok_bind]
  simp only [update_self, Nat.add_sub_cancel, Bits.withOrder, Nat.mod_eq_of_lt hk']
  rw [getBits_eq (by exact hbb), ok_bind, setBits_eq (by exact hbb), ok_bind]
  simp only [update_of_ne hne]
  have := update_update_eq (s := s) (Ne.symm hne) hk'
  simp only [Bits.withOrder, Nat.mod_eq_of_lt hk'] at this
  rw [this]

theorem splitLoop_spec (order fuel : Nat) (h : Blocks s head) (hco : Coalesced s head (some b)) (hb : head b)
    (hfree : (s.bitmap b).allocated = false) (ho : order % 256 ≤ (s.bitmap b).order)
    (hf : (s.bitmap b).order < fuel + order % 256) :
    ∃ s' head', splitLoop order fuel b s = .ok s' ∧ Blocks s' head' ∧ Coalesced s' head' (some b) ∧ head' b ∧
      (s'.bitmap b).order = order % 256 ∧ Frame s s' := by
  induction fuel generalizing s head with
  | zero => omega
  | succ fuel ih =>
    have hlt := h.tiling.lt hb
    by_cases hx : order % 256 < (s.bitmap b).order
    · obtain ⟨k, hk⟩ : ∃ k, (s.bitmap b).order = k + 1 := ⟨(s.bitmap b).order - 1, by omega⟩
      have hdvd : 2 ^ (k + 1) ∣ b := hk ▸ h.aligned hb
      have hord := h.order_lt hb
      have hend := h.tiling.end_le hb
      simp only [hk, Nat.pow_succ] at hend
      have hbuddy : buddyIndex b k = b + 2 ^ k := buddyIndex_lower hdvd
      have hclear : (s.bitmap (b + 2 ^ k)).allocated = false :=
        h.clear fun hh => h.tiling.gap hb (j := b + 2 ^ k) (by omega) (by simp only [hk, Nat.pow_succ]; omega) hh
      rw [splitLoop_split hlt hk (by omega) (by rw [hbuddy]; omega) (by omega), hbuddy]
      have hord' : ((setOrders b (b + 2 ^ k) k s).bitmap b).order = k := by
        rw [setOrders_order, if_pos (.inl rfl)]
      obtain ⟨s', head', hs', h1, h2, h3, h4, h5⟩ := ih (h.split hb hk) (hco.split hdvd) (.inl hb)
        (by rw [setOrders_allocated]; exact hfree) (by rw [hord']; omega) (by rw [hord']; omega)
      exact ⟨s', head', hs', h1, h2, h3, h4, (frame_setOrders hfree hclear).trans h5⟩
    · refine ⟨s, head, ?_, h, hco, hb, by omega, .refl⟩
      rw [splitLoop, getBits_eq hlt, ok_bind, if_neg hx]

theorem orderLoop_cases (n : Nat) : orderLoop n = 32 ∨ orderLoop n < 32 ∧ n < 2 ^ orderLoop n := by
  unfold orderLoop
  cases hf : (List.range 32).find? fun i => n >>> i = 0 with
  | none => exact .inl rfl
  | some i =>
    have hi := List.find?_some hf
    have hpos := Nat.two_pow_pos i
    simp only [decide_eq_true_eq, Nat.shiftRight_eq_div_pow, Nat.div_eq_zero_iff] at hi
    exact .inr ⟨List.mem_range.mp (List.mem_of_find?_eq_some hf), by simp only [Option.getD_some]; omega⟩

theorem pmemOrder_le (len : Nat) : pmemOrder len ≤ 32 := by
  rcases orderLoop_cases (((len + minAlloc - 1) % 2 ^ 32 / minAlloc + 2 ^ 32 - 1) % 2 ^ 32) with h | ⟨h, _⟩
  · exact Nat.le_of_eq h
  · exact Nat.le_of_lt h

theorem le_pmemLen (hlen : len < 2 ^ 32) (h : pmemOrder len < 32) : len ≤ pmemLen (pmemOrder len) := by
  unfold pmemOrder at h ⊢
  simp only at h ⊢
  have hmin : minAlloc = 4096 := rfl
  rw [pmemLen]
  rw [hmin] at h ⊢
  rcases orderLoop_cases (((len + 4096 - 1) % 2 ^ 32 / 4096 + 2 ^ 32 - 1) % 2 ^ 32) with h' | ⟨_, h'⟩
  · omega
  · omega

end G3Mod.Pmem
