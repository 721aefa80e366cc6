import G3Mod.Resource.Theorems

/-!
# What `allocate_resource` finds

A gap that consists of one address is not used, and a start that is rounded up past the last address becomes 0.
-/

namespace G3Mod.Resource

open Function Relation Lib

variable {s : State} {root new c : Id} {l : List Id} {w : Wish} {k x y g e a : Nat}

/-! ## Alignment -/

theorem and_highMask (hk : k ≤ 32) (hy : y < 2 ^ 32) : y &&& ((2 ^ 32 - 1) ^^^ (2 ^ k - 1)) = 2 ^ k * (y / 2 ^ k) := by
  apply Nat.eq_of_testBit_eq
  intro i
  rw [Nat.testBit_and, Nat.testBit_xor, Nat.testBit_two_pow_sub_one, Nat.testBit_two_pow_sub_one,
    Nat.testBit_two_pow_mul, Nat.testBit_div_two_pow]
  by_cases hki : k ≤ i
  · by_cases hi : i < 32
    · simp [hi, hki, Nat.not_lt.mpr hki]
    · have : y.testBit i = false :=
        Nat.testBit_lt_two_pow (Nat.lt_of_lt_of_le hy (Nat.pow_le_pow_right (by decide) (by omega)))
      simp [this, hki]
  · simp [hki, Nat.not_le.mp hki, Nat.lt_of_lt_of_le (Nat.not_le.mp hki) hk]

theorem pred_eq (h : 1 ≤ x) (hx : x ≤ 2 ^ 32) : pred x = x - 1 := by
  unfold pred wrap
  omega

theorem alignUp_dvd (hk : k < 32) : 2 ^ k ∣ alignUp x (2 ^ k) := by
  rw [alignUp, pred_eq Nat.one_le_two_pow (Nat.pow_le_pow_right (by decide) hk.le),
    and_highMask (y := wrap _) hk.le (Nat.mod_lt _ (by decide))]
  exact Nat.dvd_mul_right _ _

theorem alignUp_le (hk : k < 32) (ha : 2 ^ k ∣ a) (hx : x ≤ a) (hw : a < 2 ^ 32) :
    x ≤ alignUp x (2 ^ k) ∧ alignUp x (2 ^ k) ≤ a := by
  have hpos : 1 ≤ 2 ^ k := Nat.one_le_two_pow
  obtain ⟨q, rfl⟩ := ha
  obtain ⟨r, hr⟩ : 2 ^ k ∣ 2 ^ 32 := Nat.pow_dvd_pow 2 hk.le
  have hq : q + 1 ≤ r := Nat.lt_of_mul_lt_mul_left (hr ▸ hw)
  have hle : 2 ^ k * (q + 1) ≤ 2 ^ 32 := hr ▸ Nat.mul_le_mul_left _ hq
  rw [Nat.mul_succ] at hle
  have hwrap : wrap (x + (2 ^ k - 1)) = x + (2 ^ k - 1) := Nat.mod_eq_of_lt (by omega)
  rw [alignUp, pred_eq hpos (Nat.pow_le_pow_right (by decide) hk.le), hwrap, and_highMask hk.le (by omega)]
  have hdiv := Nat.div_add_mod (x + (2 ^ k - 1)) (2 ^ k)
  refine ⟨by omega, Nat.mul_le_mul_left _ ?_⟩
  rw [← Nat.lt_succ_iff, Nat.div_lt_iff_lt_mul (Nat.two_pow_pos k), Nat.succ_mul, Nat.mul_comm q]
  omega

/-! ## One gap -/

/-- The parameters of a call without `alignf`. -/
structure Wish.Plain (w : Wish) (k : Nat) : Prop where
  size : 1 ≤ w.size ∧ w.size < 2 ^ 32
  max : w.max < 2 ^ 32
  align : w.align = 2 ^ k ∧ k < 32
  alignf : w.alignf = none

/-- `a` is an aligned start from `g` on, with room for the size up to `e`, within the limits. -/
structure Spot (w : Wish) (g e a : Nat) : Prop where
  start : g ≤ a ∧ w.min ≤ a
  end_ : a + (w.size - 1) ≤ e ∧ a + (w.size - 1) ≤ w.max
  aligned : w.align ∣ a

theorem tryGap_eq (hw : w.Plain k) : tryGap w g e =
    if alignUp (max g w.min) w.align < min e w.max ∧ w.size - 1 ≤ min e w.max - alignUp (max g w.min) w.align then
      (true, alignUp (max g w.min) w.align, alignUp (max g w.min) w.align + (w.size - 1))
    else (false, alignUp (max g w.min) w.align, min e w.max) := by
  have hmax : (if g < w.min then w.min else g) = max g w.min := by grind
  have hmin : (if w.max < e then w.max else e) = min e w.max := by grind
  have hsize := hw.size
  simp only [tryGap, hmax, hmin, hw.alignf, pred_eq hsize.1 hsize.2.le]
  split
  · have := hw.max
    rw [wrap, Nat.mod_eq_of_lt (by omega)]
  · rfl

theorem tryGap_true (hw : w.Plain k) (h : (tryGap w g e).1 = true) : w.align ∣ (tryGap w g e).2.1 ∧
    (tryGap w g e).2.2 = (tryGap w g e).2.1 + (w.size - 1) ∧ (tryGap w g e).2.2 ≤ w.max ∧ (tryGap w g e).2.2 ≤ e := by
  rw [tryGap_eq hw] at h ⊢
  split at h
  · next hfit =>
    rw [if_pos hfit, hw.align.1]
    rw [hw.align.1] at hfit
    exact ⟨alignUp_dvd hw.align.2, rfl, by dsimp only; omega, by dsimp only; omega⟩
  · cases h

theorem Spot.le {e' : Nat} (ha : Spot w g e' a) (hw : w.Plain k) : g ≤ (tryGap w g e).2.1 := by
  have := alignUp_le hw.align.2 (hw.align.1 ▸ ha.aligned) (max_le ha.start.1 ha.start.2) (by have := hw.max; have := ha.end_; omega)
  rw [tryGap_eq hw, hw.align.1]
  split <;> dsimp only <;> omega

theorem Spot.missed (ha : Spot w g e a) (hw : w.Plain k) (h : (tryGap w g e).1 = false) : w.size = 1 ∧ (a = e ∨ a = w.max) := by
  have := alignUp_le hw.align.2 (hw.align.1 ▸ ha.aligned) (max_le ha.start.1 ha.start.2) (by have := hw.max; have := ha.end_; omega)
  have := hw.size
  have := ha.end_
  rw [tryGap_eq hw, hw.align.1] at h
  split at h
  · cases h
  · omega

def Last (w : Wish) (s : State) (root a : Nat) : Prop :=
  w.size = 1 ∧ (a = w.max ∨ a = (s.res root).end_ ∨ ∃ c, Child s c root ∧ (s.res c).start = a + 1)

def Clear (s : State) (l : List Id) (x y : Nat) : Prop := ∀ c ∈ l, y < (s.res c).start ∨ (s.res c).end_ < x

theorem findLoop_true (hw : w.Plain k) (h : (findLoop w root s l g).1 = true) : w.align ∣ (findLoop w root s l g).2.1 ∧
    (findLoop w root s l g).2.2 = (findLoop w root s l g).2.1 + (w.size - 1) ∧ (findLoop w root s l g).2.2 ≤ w.max := by
  induction l generalizing g with
  | nil =>
    have := tryGap_true hw h
    exact ⟨this.1, this.2.1, this.2.2.1⟩
  | cons this rest ih =>
    simp only [findLoop] at h ⊢
    split at h
    next hfound =>
      rw [if_pos hfound]
      have := tryGap_true hw hfound
      exact ⟨this.1, this.2.1, this.2.2.1⟩
    next hfound =>
      rw [if_neg hfound]
      exact ih h

/-- If there is a spot from `g` on, beside the resources of the list, it is missed, or the range that is found lies
beside them too. -/
theorem findLoop_spec (hw : w.Plain k) (h : Inv s) (hl : ∀ c ∈ l, Child s c root)
    (hsorted : l.Pairwise fun a b => (s.res a).end_ < (s.res b).start) (hg : ∀ c ∈ l, 1 ≤ (s.res c).start ∧ g ≤ (s.res c).start)
    (hend : (s.res root).end_ < 2 ^ 32) (ha : Spot w g (s.res root).end_ a) (hclear : Clear s l a (a + (w.size - 1))) :
    Last w s root a ∨ (findLoop w root s l g).1 = true ∧ g ≤ (findLoop w root s l g).2.1 ∧
      (findLoop w root s l g).2.2 ≤ (s.res root).end_ ∧
      Clear s l (findLoop w root s l g).2.1 (findLoop w root s l g).2.2 := by
  induction l generalizing g with
  | nil =>
    rw [findLoop]
    cases hfound : (tryGap w g (s.res root).end_).1 with
    | true => exact .inr ⟨rfl, ha.le hw, (tryGap_true hw hfound).2.2.2, nofun⟩
    | false =>
      obtain ⟨hsize, he⟩ := ha.missed hw hfound
      exact .inl ⟨hsize, he.symm.imp_right .inl⟩
  | cons this rest ih =>
    have hthis := hl this List.mem_cons_self
    have hin := h.inside hthis
    have hval := h.valid hthis
    obtain ⟨hpos, hgt⟩ := hg this List.mem_cons_self
    have hrest : ∀ c ∈ rest, (s.res this).end_ < (s.res c).start := fun c => List.rel_of_pairwise_cons hsorted
    simp only [findLoop, pred_eq hpos (show _ ≤ 2 ^ 32 by omega)]
    cases hfound : (tryGap w g ((s.res this).start - 1)).1 with
    | true =>
      have hlast := (tryGap_true hw hfound).2.2.2
      rw [if_pos rfl]
      refine .inr ⟨hfound, ha.le hw, by omega, fun c hc => .inl ?_⟩
      rcases List.mem_cons.mp hc with rfl | hc
      · omega
      · have := hrest c hc
        omega
    | false =>
      rw [if_neg Bool.false_ne_true]
      rcases hclear this List.mem_cons_self with hbefore | hafter
      · have hspot : Spot w g ((s.res this).start - 1) a := ⟨ha.start, by have := ha.end_; omega, ha.aligned⟩
        obtain ⟨hsize, he⟩ := hspot.missed hw hfound
        exact .inl ⟨hsize, he.symm.imp_right fun he => .inr ⟨this, hthis, by omega⟩⟩
      · have hwrap : wrap ((s.res this).end_ + 1) = (s.res this).end_ + 1 := Nat.mod_eq_of_lt (by have := ha.end_; omega)
        rw [hwrap]
        refine (ih (g := (s.res this).end_ + 1) (fun c hc => hl c (List.mem_cons_of_mem _ hc)) hsorted.of_cons (fun c hc => ?_)
          ⟨⟨hafter, ha.start.2⟩, ha.end_, ha.aligned⟩ fun c hc => hclear c (List.mem_cons_of_mem _ hc)).imp_right ?_
        · have := hrest c hc
          omega
        · rintro ⟨hf, hle, hle', hc⟩
          refine ⟨hf, by omega, hle', fun c hcl => ?_⟩
          rcases List.mem_cons.mp hcl with rfl | hcl
          · exact .inr hle
          · exact hc c hcl

/-! ## The call -/

/-- A range of the requested size within the root and the limits, aligned, and beside all children of the root. -/
structure Placement (w : Wish) (root : Id) (s : State) (a : Nat) : Prop where
  within : (s.res root).start ≤ a ∧ a + (w.size - 1) ≤ (s.res root).end_
  limits : w.min ≤ a ∧ a + (w.size - 1) ≤ w.max
  aligned : w.align ∣ a
  apart : Clear s (s.res root).children a (a + (w.size - 1))

theorem findResource_spec (hw : w.Plain k) (h : Inv s) (hend : (s.res root).end_ < 2 ^ 32) (ha : Placement w root s a) :
    Last w s root a ∨ (findResource w root s).1 = true ∧ (s.res root).start ≤ (findResource w root s).2.1 ∧
      (findResource w root s).2.2 ≤ (s.res root).end_ ∧
      Clear s (s.res root).children (findResource w root s).2.1 (findResource w root s).2.2 := by
  have hspot : Spot w (s.res root).start (s.res root).end_ a :=
    ⟨⟨ha.within.1, ha.limits.1⟩, ⟨ha.within.2, ha.limits.2⟩, ha.aligned⟩
  have hin : ∀ c ∈ (s.res root).children, _ := fun c hc => h.inside hc
  have hsorted := h.sorted root
  have hapart := ha.apart
  unfold findResource
  generalize hl : (s.res root).children = l at *
  cases l with
  | nil => exact findLoop_spec hw h (by simp [Child, hl]) hsorted nofun hend hspot hapart
  | cons this rest =>
    have hrest : ∀ c ∈ rest, (s.res this).end_ < (s.res c).start := fun c => List.rel_of_pairwise_cons hsorted
    dsimp only
    split
    next h0 =>
      -- the first child is skipped, and every spot lies behind it
      have hafter := (hapart this List.mem_cons_self).resolve_left (by omega)
      have hwrap : wrap ((s.res this).end_ + 1) = (s.res this).end_ + 1 :=
        Nat.mod_eq_of_lt (by have := ha.within; omega)
      rw [hwrap]
      refine (findLoop_spec (g := (s.res this).end_ + 1) hw h (fun c hc => by simp [Child, hl, hc]) hsorted.of_cons (fun c hc => ?_) hend
        ⟨⟨hafter, ha.limits.1⟩, hspot.end_, ha.aligned⟩ fun c hc => hapart c (List.mem_cons_of_mem _ hc)).imp_right ?_
      · have := hrest c hc
        omega
      · rintro ⟨hf, hle, hle', hc⟩
        have := hin this List.mem_cons_self
        refine ⟨hf, by omega, hle', fun c hcl => ?_⟩
        rcases List.mem_cons.mp hcl with rfl | hcl
        · exact .inr hle
        · exact hc c hcl
    next h0 =>
      refine findLoop_spec hw h (fun c hc => by rwa [Child, hl]) hsorted (fun c hc => ?_) hend hspot hapart
      have := hin c hc
      rcases List.mem_cons.mp hc with rfl | hc
      · omega
      · have := hrest c hc
        omega

theorem findResource_true (hw : w.Plain k) (h : (findResource w root s).1 = true) :
    w.align ∣ (findResource w root s).2.1 ∧ (findResource w root s).2.2 = (findResource w root s).2.1 + (w.size - 1) ∧
      (findResource w root s).2.2 ≤ w.max := by
  obtain ⟨l, g, he⟩ : ∃ l g, findResource w root s = findLoop w root s l g := by
    unfold findResource
    split
    · split <;> exact ⟨_, _, rfl⟩
    · exact ⟨_, _, rfl⟩
  rw [he] at h ⊢
  exact findLoop_true hw h

def request (size min max : Nat) : Wish := ⟨size, min, max, 4, none⟩

theorem memory_inv : Inv memory := enclosingMachine_inductive.init memory_init

theorem memory_spare : Spare memory 0 1 := spare_of_top (fun _ => child_memory) (fun _ => child_memory) (by decide)

end G3Mod.Resource
