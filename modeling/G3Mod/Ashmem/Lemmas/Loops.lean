import G3Mod.Ashmem.Lemmas.Ranges

/-!
# What the loops of the driver do
-/

namespace G3Mod.Ashmem

open Function

variable {s s₁ : State} {a b : AreaId} {i j : RangeId} {lo hi p : Nat} {v : Bool} {alloc purged ret : Bool}

def Covers (s : State) (a : AreaId) (p : Nat) (i : RangeId) : Prop :=
  i ∈ s.unpinned a ∧ (s.range i).pgstart ≤ p ∧ p ≤ (s.range i).pgend

def Holds (s : State) (a : AreaId) (p : Nat) (v : Bool) : Prop :=
  ∃ i, Covers s a p i ∧ (s.range i).purged = v

def Apart (lo hi : Nat) (r : Range) : Prop := r.pgend < lo ∨ hi < r.pgstart

theorem Inv.apart_of_not_meets (h : Inv s) (hl : lo ≤ hi) (hm : i ∈ s.unpinned a)
    (hn : ¬ pageRangeInRange (s.range i) lo hi = true) : Apart lo hi (s.range i) := by
  rw [pageRangeInRange_iff (h.bounds hm) hl] at hn
  unfold Apart
  omega

theorem Inv.ranges_apart (h : Inv s) (hi : i ∈ s.unpinned a) (hj : j ∈ s.unpinned a) (hne : i ≠ j) :
    (s.range j).pgend < (s.range i).pgstart ∨ (s.range i).pgend < (s.range j).pgstart := by
  have hp : (s.unpinned a).Pairwise fun i j => (s.range j).pgend < (s.range i).pgstart ∨
      (s.range i).pgend < (s.range j).pgstart := (h.order a).imp Or.inl
  have : Std.Symm fun i j => (s.range j).pgend < (s.range i).pgstart ∨
      (s.range i).pgend < (s.range j).pgstart := ⟨fun _ _ => Or.symm⟩
  exact hp.forall hi hj hne

theorem Inv.covers_unique (h : Inv s) (hi : Covers s a p i) (hj : Covers s a p j) : i = j := by
  by_contra hne
  have := h.ranges_apart hi.1 hj.1 hne
  obtain ⟨_, hi1, hi2⟩ := hi
  obtain ⟨_, hj1, hj2⟩ := hj
  omega

theorem Inv.holds_iff (h : Inv s) (hi : Covers s a p i) : Holds s a p v ↔ (s.range i).purged = v := by
  refine ⟨?_, fun hv => ⟨i, hi, hv⟩⟩
  rintro ⟨j, hj, hv⟩
  rwa [h.covers_unique hi hj]

/-! ## The pages after an operation on one range -/

theorem Inv.covers_rangeDel (h : Inv s) (hi : i ∈ s.unpinned a) :
    Covers (rangeDel i s) b p j ↔ j ≠ i ∧ Covers s b p j := by
  simp only [Covers, h.mem_rangeDel hi, rangeDel_range, and_assoc]

theorem covers_rangeShrink (hlo : (s.range i).pgstart ≤ lo) (hhi : hi ≤ (s.range i).pgend) :
    Covers (rangeShrink i lo hi s) b p j ↔ Covers s b p j ∧ (j = i → lo ≤ p ∧ p ≤ hi) := by
  grind [Covers, rangeShrink_unpinned, rangeShrink_range_self, rangeShrink_range_other]

theorem Inv.covers_rangeAlloc (h : Inv s) {prev : Option RangeId} :
    Covers (rangeAlloc true a prev purged lo hi s).1 b p j ↔
      (b = a ∧ j = s.next ∧ lo ≤ p ∧ p ≤ hi) ∨ Covers s b p j := by
  have hno : s.next ∉ s.unpinned b := fun hm => absurd (h.fresh hm) (lt_irrefl _)
  simp only [Covers, mem_rangeAlloc, rangeAlloc_range, update_apply]
  grind

theorem Inv.holds_rangeAlloc (h : Inv s) {prev : Option RangeId} :
    Holds (rangeAlloc true a prev purged lo hi s).1 b p v ↔
      (b = a ∧ lo ≤ p ∧ p ≤ hi ∧ purged = v) ∨ Holds s b p v := by
  have hold : ∀ {j}, j ∈ s.unpinned b → (rangeAlloc true a prev purged lo hi s).1.range j = s.range j :=
    h.rangeAlloc_range_old
  have hnew : (rangeAlloc true a prev purged lo hi s).1.range s.next = ⟨a, lo, hi, purged⟩ := by
    rw [rangeAlloc_range, update_self]
  simp only [Holds, h.covers_rangeAlloc]
  grind [Covers]

/-- `s₁` is `s` without the pages of the request that range `i` of area `a` has. -/
def Cut (a : AreaId) (lo hi : Nat) (i : RangeId) (s s₁ : State) : Prop :=
  ∀ b p v, Holds s₁ b p v ↔ Holds s b p v ∧ ¬ (b = a ∧ lo ≤ p ∧ p ≤ hi ∧ Covers s a p i)

theorem Inv.cut_rangeDel (h : Inv s) (hm : i ∈ s.unpinned a)
    (hsub : lo ≤ (s.range i).pgstart ∧ (s.range i).pgend ≤ hi) : Cut a lo hi i s (rangeDel i s) := by
  intro b p v
  have huniq := fun j => h.covers_unique (i := i) (j := j) (a := b) (p := p)
  have harea := fun hb => h.area_eq (b := b) hm hb
  simp only [Holds, h.covers_rangeDel hm, rangeDel_range]
  grind [Covers]

theorem Inv.cut_rangeShrink (h : Inv s) {l u : Nat} (hm : i ∈ s.unpinned a)
    (hl : (s.range i).pgstart ≤ l) (hu : u ≤ (s.range i).pgend)
    (hcut : ∀ p, (s.range i).pgstart ≤ p → p ≤ (s.range i).pgend →
      ((l ≤ p ∧ p ≤ u) ↔ ¬ (lo ≤ p ∧ p ≤ hi))) : Cut a lo hi i s (rangeShrink i l u s) := by
  intro b p v
  constructor
  · rintro ⟨j, hc, hv⟩
    rw [covers_rangeShrink hl hu] at hc
    rw [rangeShrink_purged] at hv
    refine ⟨⟨j, hc.1, hv⟩, ?_⟩
    rintro ⟨rfl, h1, h2, hci⟩
    have hji := h.covers_unique hc.1 hci
    exact (hcut p hci.2.1 hci.2.2).mp (hc.2 hji) ⟨h1, h2⟩
  rintro ⟨⟨j, hc, hv⟩, hn⟩
  refine ⟨j, (covers_rangeShrink hl hu).mpr ⟨hc, ?_⟩, by rw [rangeShrink_purged]; exact hv⟩
  rintro rfl
  obtain rfl := h.area_eq hc.1 hm
  refine (hcut p hc.2.1 hc.2.2).mpr ?_
  rintro ⟨h1, h2⟩
  exact hn ⟨rfl, h1, h2, hc⟩

/-! ## `ashmem_pin` -/

/-- The invariant; the request is no longer unpinned; whether a page of it was marked is returned. -/
structure PinPost (alloc : Bool) (a : AreaId) (lo hi : Nat) (ret : Bool) (s : State) (res : State × Bool) :
    Prop where
  inv : Inv res.1
  pages : alloc = true → ∀ b p v, Holds res.1 b p v ↔ Holds s b p v ∧ ¬ (b = a ∧ lo ≤ p ∧ p ≤ hi)
  result : res.2 = true ↔ ret = true ∨ ∃ p, lo ≤ p ∧ p ≤ hi ∧ Holds s a p wasPurged

theorem PinPost.done (h : Inv s) (hn : ∀ i ∈ s.unpinned a, Apart lo hi (s.range i)) :
    PinPost alloc a lo hi ret s (s, ret) where
  inv := h
  pages _ b p v := by grind [Holds, Covers, Apart]
  result := by grind [Holds, Covers, Apart]

theorem Inv.marked_iff (h : Inv s) (hm : i ∈ s.unpinned a) (hmeet : (s.range i).pgstart ≤ hi ∧ lo ≤ (s.range i).pgend)
    (hl : lo ≤ hi) (hcut : Cut a lo hi i s s₁) :
    ((ret || (s.range i).purged) = true ∨ ∃ p, lo ≤ p ∧ p ≤ hi ∧ Holds s₁ a p wasPurged) ↔
      ret = true ∨ ∃ p, lo ≤ p ∧ p ≤ hi ∧ Holds s a p wasPurged := by
  have hb := h.bounds hm
  constructor
  · rintro (hr | ⟨p, h1, h2, hh⟩)
    · rcases (Bool.or_eq_true _ _).mp hr with hr | hr
      · exact Or.inl hr
      · -- the first common page of the range and the request
        refine Or.inr ⟨max lo (s.range i).pgstart, by omega, by omega, i, ⟨hm, by omega, by omega⟩, hr⟩
    · exact Or.inr ⟨p, h1, h2, ((hcut a p _).mp hh).1⟩
  rintro (hr | ⟨p, h1, h2, j, hc, hv⟩)
  · exact Or.inl (by simp [hr])
  by_cases hj : j = i
  · subst hj
    exact Or.inl (by simp [hv])
  · refine Or.inr ⟨p, h1, h2, (hcut a p _).mpr ⟨⟨j, hc, hv⟩, ?_⟩⟩
    rintro ⟨_, _, _, hci⟩
    exact hj (h.covers_unique hc hci)

theorem PinPost.cut (h : Inv s) (hm : i ∈ s.unpinned a) (hl : lo ≤ hi)
    (hmeet : (s.range i).pgstart ≤ hi ∧ lo ≤ (s.range i).pgend) (hcut : Cut a lo hi i s s₁)
    {res : State × Bool} (hpost : PinPost alloc a lo hi (ret || (s.range i).purged) s₁ res) :
    PinPost alloc a lo hi ret s res where
  inv := hpost.inv
  pages ha b p v := by
    rw [hpost.pages ha, hcut]
    tauto
  result := by rw [hpost.result, h.marked_iff hm hmeet hl hcut]

theorem rangeShrink_rangeAlloc {l u : Nat} {prev : Option RangeId} (hne : i ≠ s.next) :
    rangeShrink i l u (rangeAlloc true a prev purged lo hi s).1 =
      (rangeAlloc true a prev purged lo hi (rangeShrink i l u s)).1 := by
  have hr : (rangeAlloc true a prev purged lo hi s).1.range i = s.range i := by
    rw [rangeAlloc_range, update_of_ne hne]
  ext1
  · simp only [rangeShrink_range, rangeAlloc_range, rangeShrink_next, hr]
    rw [update_comm hne]
  · simp only [rangeShrink_next, rangeAlloc_next]
  · simp only [rangeShrink_unpinned, rangeAlloc_unpinned, rangeShrink_next]
  · simp only [rangeShrink_lru, rangeAlloc_lru, rangeShrink_next]
  · simp only [rangeShrink_lruCount, rangeAlloc_lruCount, hr]
    split_ifs <;> omega

theorem pinPost_hole {pre rest : List RangeId} (h : Inv s) (hl : lo ≤ hi) (hs : s.unpinned a = pre ++ i :: rest)
    (hlo : (s.range i).pgstart < lo) (hhi : hi < (s.range i).pgend) :
    PinPost alloc a lo hi ret s
      (rangeShrink i (s.range i).pgstart (lo - 1)
        (rangeAlloc alloc a (some i) (s.range i).purged (hi + 1) (s.range i).pgend s).1,
      ret || (s.range i).purged) := by
  have hm : i ∈ s.unpinned a := by simp [hs]
  have hapart := fun {j} (hj : j ∈ s.unpinned a) => h.ranges_apart hj hm
  have hshrunk : Inv (rangeShrink i (s.range i).pgstart (lo - 1) s) :=
    h.shrinkRange le_rfl (by omega) (by omega) hm
  have hresult : (ret || (s.range i).purged) = true ↔
      ret = true ∨ ∃ p, lo ≤ p ∧ p ≤ hi ∧ Holds s a p wasPurged := by
    rw [Bool.or_eq_true]
    refine or_congr_right ⟨fun hv => ⟨lo, le_rfl, hl, i, ⟨hm, hlo.le, by omega⟩, hv⟩, ?_⟩
    rintro ⟨p, h1, h2, j, hc, hv⟩
    by_cases hj : j = i
    · subst hj; exact hv
    · grind [Covers]
  cases alloc with
  | false => exact ⟨hshrunk, by simp, hresult⟩
  | true =>
    rw [rangeShrink_rangeAlloc (h.fresh hm).ne]
    refine ⟨?_, fun _ b p v => ?_, hresult⟩
    · -- the new range goes between the ranges in front of `i` and `i`
      have hord := h.order a
      rw [hs, List.pairwise_append, List.pairwise_cons] at hord
      have hs1 : (rangeShrink i (s.range i).pgstart (lo - 1) s).unpinned a = pre ++ i :: rest := by
        rw [rangeShrink_unpinned]; exact hs
      refine hshrunk.allocRange hs1 (by omega) (fun j hj => ?_) fun j hj => ?_
      · have hlt := hord.2.2 j hj i (by simp)
        grind [rangeShrink_range_other]
      · have := hord.2.1.1 j
        grind [rangeShrink_range_self, rangeShrink_range_other]
    · rw [hshrunk.holds_rangeAlloc]
      have hcut : Cut a lo (s.range i).pgend i s (rangeShrink i (s.range i).pgstart (lo - 1) s) :=
        h.cut_rangeShrink hm le_rfl (by omega) (by omega)
      have hci : lo ≤ p → p ≤ (s.range i).pgend → Covers s a p i := fun h1 h2 => ⟨hm, by omega, h2⟩
      have hmark := fun hc => h.holds_iff (p := p) (v := v) (i := i) (a := a) hc
      rw [hcut]
      grind

/-- The loop of `ashmem_pin`, by induction on what is left of the list; the ranges in front no longer
meet the request. -/
theorem pinLoop_post (hl : lo ≤ hi) (rest : List RangeId) : ∀ (pre : List RangeId) (s : State) (ret : Bool),
    Inv s → s.unpinned a = pre ++ rest → (∀ j ∈ pre, Apart lo hi (s.range j)) →
      PinPost alloc a lo hi ret s (pinLoop alloc a lo hi rest s ret) := by
  induction rest with
  | nil =>
    intro pre s ret h hs hpre
    exact PinPost.done h (by simpa [hs] using hpre)
  | cons i rest ih =>
    intro pre s ret h hs hpre
    have hm : i ∈ s.unpinned a := by simp [hs]
    have hb := h.bounds hm
    have hnd : (pre ++ i :: rest).Nodup := hs ▸ h.nodup a
    have hnp : i ∉ pre := fun hx => (List.nodup_append.mp hnd).2.2 i hx i (by simp) rfl
    -- the rest of the list after range `i` has been shrunk to a part that does not meet the request
    have hshrunk : ∀ l u, (s.range i).pgstart ≤ l → l ≤ u → u ≤ (s.range i).pgend → (u < lo ∨ hi < l) →
        PinPost alloc a lo hi (ret || (s.range i).purged) (rangeShrink i l u s)
          (pinLoop alloc a lo hi rest (rangeShrink i l u s) (ret || (s.range i).purged)) := by
      intro l u h1 h2 h3 h4
      refine ih (pre ++ [i]) _ _ (h.shrinkRange h1 h2 h3 hm) (by simp [hs]) ?_
      intro j hj
      rcases List.mem_append.mp hj with hjp | hji
      · rw [rangeShrink_range_other (by rintro rfl; exact hnp hjp)]; exact hpre j hjp
      · rw [List.mem_singleton.mp hji, rangeShrink_range_self]; exact h4
    simp only [pinLoop, rangeBeforePage_iff, pageRangeSubsumesRange_iff]
    by_cases hbefore : (s.range i).pgend < lo
    · rw [if_pos hbefore]
      refine PinPost.done h fun j hj => ?_
      have hord := h.order a
      rw [hs, List.pairwise_append, List.pairwise_cons] at hord
      rw [hs] at hj
      rcases List.mem_append.mp hj with hj | hj
      · exact hpre j hj
      rcases List.mem_cons.mp hj with rfl | hj
      · exact Or.inl hbefore
      · have := hord.2.1.1 j hj
        exact Or.inl (by omega)
    rw [if_neg hbefore]
    by_cases hmeet : pageRangeInRange (s.range i) lo hi = true
    · rw [if_pos hmeet]
      rw [pageRangeInRange_iff hb hl] at hmeet
      by_cases h1 : lo ≤ (s.range i).pgstart ∧ (s.range i).pgend ≤ hi
      · rw [if_pos h1]
        refine PinPost.cut h hm hl hmeet (h.cut_rangeDel hm h1) ?_
        refine ih pre _ _ (h.delRange hm) ?_ fun j hj => by simpa using hpre j hj
        rw [h.rangeDel_unpinned_self hm, hs, List.erase_append_right _ hnp, List.erase_cons_head]
      rw [if_neg h1]
      by_cases h2 : lo ≤ (s.range i).pgstart
      · rw [if_pos h2]
        refine PinPost.cut h hm hl hmeet (h.cut_rangeShrink hm (by omega) le_rfl ?_)
          (hshrunk _ _ (by omega) (by omega) le_rfl (by omega))
        intro p _ _
        omega
      rw [if_neg h2]
      by_cases h3 : (s.range i).pgend ≤ hi
      · rw [if_pos h3]
        refine PinPost.cut h hm hl hmeet (h.cut_rangeShrink hm le_rfl (by omega) ?_)
          (hshrunk _ _ le_rfl (by omega) (by omega) (by omega))
        intro p _ _
        omega
      rw [if_neg h3]
      exact pinPost_hole h hl hs (by omega) (by omega)
    · rw [if_neg hmeet]
      refine ih (pre ++ [i]) s ret h (by simp [hs]) fun j hj => ?_
      rcases List.mem_append.mp hj with hj | hj
      · exact hpre j hj
      · rw [List.mem_singleton.mp hj]; exact h.apart_of_not_meets hl hm hmeet

theorem ashmemPin_post (alloc : Bool) (h : Inv s) (hl : lo ≤ hi) :
    PinPost alloc a lo hi notPurged s (ashmemPin alloc a lo hi s) :=
  pinLoop_post hl (s.unpinned a) [] s notPurged h rfl (by simp)

/-! ## `ashmem_unpin` -/

theorem unpinScan_cases (hl : lo ≤ hi) : ∀ {l : List RangeId},
    l.Pairwise (fun i j => (s.range j).pgend < (s.range i).pgstart) →
    (∀ i ∈ l, (s.range i).pgstart ≤ (s.range i).pgend) →
    (unpinScan s lo hi l = .covered ∧ ∃ i ∈ l, (s.range i).pgstart ≤ lo ∧ hi ≤ (s.range i).pgend) ∨
    (∃ i ∈ l, unpinScan s lo hi l = .merge i ∧ (s.range i).pgstart ≤ hi ∧ lo ≤ (s.range i).pgend) ∨
    (∃ pre post, l = pre ++ post ∧ unpinScan s lo hi l = .insert post.head? ∧
      (∀ j ∈ pre, hi < (s.range j).pgstart) ∧ ∀ j ∈ post, (s.range j).pgend < lo)
  | [], _, _ => Or.inr (Or.inr ⟨[], [], rfl, rfl, by simp, by simp⟩)
  | i :: rest, hord, hb => by
      rw [List.pairwise_cons] at hord
      have hbi := hb i (by simp)
      simp only [unpinScan, rangeBeforePage_iff, pageRangeSubsumedByRange_iff, pageRangeInRange_iff hbi hl]
      split_ifs with h1 h2 h3
      · refine Or.inr (Or.inr ⟨[], i :: rest, rfl, rfl, by simp, ?_⟩)
        intro j hj
        rcases List.mem_cons.mp hj with rfl | hj
        · exact h1
        · have := hord.1 j hj; omega
      · exact Or.inl ⟨rfl, i, by simp, h2⟩
      · exact Or.inr (Or.inl ⟨i, by simp, rfl, h3⟩)
      · rcases unpinScan_cases hl hord.2 (fun j hj => hb j (by simp [hj])) with
          ⟨he, j, hj, hc⟩ | ⟨j, hj, he, hc⟩ | ⟨pre, post, rfl, he, hpre, hpost⟩
        · exact Or.inl ⟨he, j, by simp [hj], hc⟩
        · exact Or.inr (Or.inl ⟨j, by simp [hj], he, hc⟩)
        · grind

theorem Inv.unpinScan_cases (h : Inv s) (hl : lo ≤ hi) :
    (unpinScan s lo hi (s.unpinned a) = .covered ∧
      ∃ i ∈ s.unpinned a, (s.range i).pgstart ≤ lo ∧ hi ≤ (s.range i).pgend) ∨
    (∃ i ∈ s.unpinned a, unpinScan s lo hi (s.unpinned a) = .merge i ∧
      (s.range i).pgstart ≤ hi ∧ lo ≤ (s.range i).pgend) ∨
    (∃ pre post, s.unpinned a = pre ++ post ∧ unpinScan s lo hi (s.unpinned a) = .insert post.head? ∧
      (∀ j ∈ pre, hi < (s.range j).pgstart) ∧ ∀ j ∈ post, (s.range j).pgend < lo) :=
  Ashmem.unpinScan_cases hl (h.order a) fun _ hi => h.bounds hi

/-- What `ashmem_unpin` does from `restart` on with `[lo, hi]` and the marks so far. -/
structure UnpinPost (alloc : Bool) (a : AreaId) (lo hi : Nat) (purged : Bool) (s : State) (res : State × Int) :
    Prop where
  inv : Inv res.1
  ret : alloc = true → res.2 = 0
  pages : alloc = true → ∀ b p, (∃ v, Holds res.1 b p v) ↔ (∃ v, Holds s b p v) ∨ (b = a ∧ lo ≤ p ∧ p ≤ hi)
  marks : alloc = true → ∀ b p, (Holds s b p wasPurged ∨ (purged = true ∧ b = a ∧ lo ≤ p ∧ p ≤ hi)) →
    Holds res.1 b p wasPurged

/-- By induction on the passes. Once a mark is collected, the request has a page of a range merged before, so no range
covers it. -/
theorem unpinLoop_post : ∀ (n : Nat) {s : State} {lo hi : Nat} {purged : Bool}, Inv s → lo ≤ hi →
    (s.unpinned a).length < n →
    (purged = true → ∃ q, lo ≤ q ∧ q ≤ hi ∧ ∀ i, ¬ Covers s a q i) →
    UnpinPost alloc a lo hi purged s (unpinLoop alloc a n s lo hi purged)
  | 0, _, _, _, _, _, _, hn, _ => absurd hn (Nat.not_lt_zero _)
  | n + 1, s, lo, hi, purged, h, hl, hn, hq => by
      rcases h.unpinScan_cases (a := a) hl with ⟨he, i, hm, hc⟩ | ⟨i, hm, he, hc⟩ | ⟨pre, post, hs, he, hpre, hpost⟩
      · simp only [unpinLoop, he]
        refine ⟨h, fun _ => rfl, fun _ b p => ?_, fun _ b p => ?_⟩
        · refine ⟨Or.inl, ?_⟩
          rintro (hh | ⟨rfl, h1, h2⟩)
          · exact hh
          · exact ⟨(s.range i).purged, i, (⟨hm, by omega, by omega⟩ : Covers s b p i), rfl⟩
        rintro (hh | ⟨hp, _⟩)
        · exact hh
        · obtain ⟨q, h1, h2, hno⟩ := hq hp
          exact absurd ⟨hm, by omega, by omega⟩ (hno i)
      · simp only [unpinLoop, he]
        have hb := h.bounds hm
        have hlen : ((rangeDel i s).unpinned a).length < n := by
          rw [h.rangeDel_unpinned_self hm, List.length_erase_of_mem hm]
          have := List.length_pos_of_mem hm
          omega
        have hfree : (purged || (s.range i).purged) = true →
            ∃ q, min (s.range i).pgstart lo ≤ q ∧ q ≤ max (s.range i).pgend hi ∧
              ∀ j, ¬ Covers (rangeDel i s) a q j := by
          intro _
          refine ⟨(s.range i).pgstart, by omega, by omega, fun j hj => ?_⟩
          rw [h.covers_rangeDel hm] at hj
          exact hj.1 (h.covers_unique hj.2 ⟨hm, le_rfl, hb⟩)
        have hpost := unpinLoop_post n (h.delRange hm) (by omega) hlen hfree
        have hcut : Cut a (min (s.range i).pgstart lo) (max (s.range i).pgend hi) i s (rangeDel i s) :=
          h.cut_rangeDel hm ⟨by omega, by omega⟩
        refine ⟨hpost.inv, hpost.ret, fun ha b p => ?_, fun ha b p hh => hpost.marks ha b p ?_⟩
        · rw [hpost.pages ha]
          simp only [hcut b p]
          have hci : (s.range i).pgstart ≤ p → p ≤ (s.range i).pgend → ∃ v, Holds s a p v :=
            fun h1 h2 => ⟨_, i, ⟨hm, h1, h2⟩, rfl⟩
          grind [Covers]
        · rw [hcut]
          have hmark := fun hc => h.holds_iff (p := p) (v := wasPurged) (i := i) (a := a) hc
          grind [Covers]
      · simp only [unpinLoop, he]
        cases alloc with
        | false => exact ⟨h, by simp, by simp, by simp⟩
        | true =>
          refine ⟨h.allocRange hs hl hpre hpost, fun _ => rfl, fun _ b p => ?_, fun _ b p hh => ?_⟩
          · simp only [h.holds_rangeAlloc]
            constructor
            · grind
            · rintro (⟨v, hh⟩ | ⟨hb, h1, h2⟩)
              · exact ⟨v, Or.inr hh⟩
              · exact ⟨purged, Or.inl ⟨hb, h1, h2, rfl⟩⟩
          rw [h.holds_rangeAlloc]
          rcases hh with hh | ⟨hp, hb, h1, h2⟩
          · exact Or.inr hh
          · exact Or.inl ⟨hb, h1, h2, hp⟩

theorem ashmemUnpin_post (alloc : Bool) (h : Inv s) (hl : lo ≤ hi) :
    UnpinPost alloc a lo hi notPurged s (ashmemUnpin alloc a lo hi s) :=
  unpinLoop_post _ h hl (Nat.lt_succ_self _) (by simp)

theorem pinStatusLoop_iff (hl : lo ≤ hi) : ∀ {l : List RangeId},
    l.Pairwise (fun i j => (s.range j).pgend < (s.range i).pgstart) →
    (∀ i ∈ l, (s.range i).pgstart ≤ (s.range i).pgend) →
    (pinStatusLoop s lo hi l = .isUnpinned ↔ ∃ i ∈ l, (s.range i).pgstart ≤ hi ∧ lo ≤ (s.range i).pgend)
  | [], _, _ => by simp [pinStatusLoop]
  | i :: rest, hord, hb => by
      rw [List.pairwise_cons] at hord
      have ih := pinStatusLoop_iff hl hord.2 fun j hj => hb j (by simp [hj])
      simp only [pinStatusLoop, rangeBeforePage_iff, pageRangeInRange_iff (hb i (by simp)) hl]
      split_ifs with h1 h2
      · grind
      · simp [h2]
      · simp [ih, h2]

/-- The loop purges the shortest front of the LRU list that has `nr` pages, or all of it. -/
structure ShrinkPost (nr : Int) (s : State) (res : State × List RangeId) : Prop where
  inv : Inv res.1
  lru : s.lru = res.2 ++ res.1.lru
  unpinned : res.1.unpinned = s.unpinned
  range : ∀ j, res.1.range j =
    if j ∈ res.2 then { s.range j with purged := wasPurged } else s.range j
  enough : nr ≤ (res.2.map fun i => rangeSize (s.range i)).sum ∨ res.1.lru = []
  shortest : ∀ k, 0 < k → k < res.2.length → ((res.2.take k).map fun i => rangeSize (s.range i)).sum < nr

theorem shrinkLoop_post : ∀ (l : List RangeId) (nr : Int) {s : State}, Inv s → s.lru = l →
    ShrinkPost nr s (shrinkLoop l nr s)
  | [], nr, s, h, hl => by
      exact ⟨h, by simp [shrinkLoop], rfl, by simp [shrinkLoop], Or.inr hl, by simp [shrinkLoop]⟩
  | i :: rest, nr, s, h, hl => by
      have hm : i ∈ s.lru := by simp [hl]
      have hpl : (purge i s).lru = rest := by rw [purge_lru, hl, List.erase_cons_head]
      have hrange : ∀ j, (purge i s).range j = if j = i then { s.range j with purged := wasPurged } else s.range j := by
        grind [purge_range_self, purge_range_other]
      simp only [shrinkLoop, purge_rangeSize]
      split_ifs with hend
      · refine ⟨h.purgeRange hm, by simp [hpl, hl], rfl, by simp [hrange], Or.inl ?_, ?_⟩
        · grind
        · intro k hk0 hk
          have hk : k < 1 := hk
          omega
      have hpost := shrinkLoop_post rest (nr - rangeSize (s.range i)) (h.purgeRange hm) hpl
      refine ⟨hpost.inv, ?_, hpost.unpinned, fun j => ?_, ?_, ?_⟩
      · rw [hl, List.cons_append, ← hpost.lru, hpl]
      · rw [hpost.range j, hrange]
        grind
      · refine hpost.enough.imp_left fun hsum => ?_
        simp only [purge_rangeSize] at hsum
        simp only [List.map_cons, List.sum_cons]
        omega
      · intro k hk0 hk
        obtain ⟨k, rfl⟩ : ∃ k', k = k' + 1 := ⟨k - 1, by omega⟩
        simp only [List.take_succ_cons, List.map_cons, List.sum_cons]
        cases k with
        | zero => simp only [List.take_zero, List.map_nil, List.sum_nil]; omega
        | succ k =>
          have := hpost.shortest (k + 1) (by omega) (by simpa using hk)
          simp only [purge_rangeSize] at this
          omega

theorem ashmemShrink_inv (h : Inv s) (nr : Int) (gfpFs locked : Bool) :
    Inv (ashmemShrink nr gfpFs locked s).1 := by
  unfold ashmemShrink
  split_ifs
  · exact h
  · exact h
  · exact h
  · exact (shrinkLoop_post s.lru nr h rfl).inv

theorem foldl_rangeDel : ∀ (l : List RangeId) {s : State}, Inv s → s.unpinned a = l →
    Inv (l.foldl (fun s i => rangeDel i s) s) ∧
    (l.foldl (fun s i => rangeDel i s) s).unpinned a = [] ∧
    ∀ b p v, b ≠ a → (Holds (l.foldl (fun s i => rangeDel i s) s) b p v ↔ Holds s b p v)
  | [], s, h, hl => ⟨h, hl, fun _ _ _ _ => Iff.rfl⟩
  | i :: rest, s, h, hl => by
      have hm : i ∈ s.unpinned a := by simp [hl]
      have hd : (rangeDel i s).unpinned a = rest := by
        rw [h.rangeDel_unpinned_self hm, hl, List.erase_cons_head]
      obtain ⟨h1, h2, h3⟩ := foldl_rangeDel rest (h.delRange hm) hd
      refine ⟨h1, h2, fun b p v hb => (h3 b p v hb).trans ?_⟩
      simp only [Holds, Covers, rangeDel_range, h.rangeDel_unpinned_other hm hb]

theorem ashmemRelease_inv (h : Inv s) : Inv (ashmemRelease a s) := (foldl_rangeDel _ h rfl).1

end G3Mod.Ashmem
