import Mathlib.Algebra.Ring.Int.Defs
import G3Mod.Lib.ListSum
import G3Mod.Ashmem.Model

/-!
# What the operations on single ranges do to the lists
-/

namespace G3Mod.Ashmem

open Function

/-! ## The macros as propositions -/

@[simp]
theorem rangeOnLru_iff {r : Range} : rangeOnLru r = true ↔ r.purged = notPurged := by
  simp [rangeOnLru]

@[simp]
theorem rangeBeforePage_iff {r : Range} {p : Nat} : rangeBeforePage r p = true ↔ r.pgend < p := by
  simp [rangeBeforePage]

@[simp]
theorem pageRangeSubsumesRange_iff {r : Range} {lo hi : Nat} :
    pageRangeSubsumesRange r lo hi = true ↔ lo ≤ r.pgstart ∧ r.pgend ≤ hi := by
  simp [pageRangeSubsumesRange]

@[simp]
theorem pageRangeSubsumedByRange_iff {r : Range} {lo hi : Nat} :
    pageRangeSubsumedByRange r lo hi = true ↔ r.pgstart ≤ lo ∧ hi ≤ r.pgend := by
  simp [pageRangeSubsumedByRange]

theorem pageRangeInRange_iff {r : Range} {lo hi : Nat} (hr : r.pgstart ≤ r.pgend) (hl : lo ≤ hi) :
    pageRangeInRange r lo hi = true ↔ r.pgstart ≤ hi ∧ lo ≤ r.pgend := by
  simp only [pageRangeInRange, pageInRange, Bool.or_eq_true, Bool.and_eq_true, decide_eq_true_eq,
    pageRangeSubsumesRange_iff]
  omega

/-- Unpinned lists are descending and disjoint; the LRU list and `lru_count` are of the ranges not purged. -/
structure Inv (s : State) : Prop where
  order : ∀ a, (s.unpinned a).Pairwise fun i j => (s.range j).pgend < (s.range i).pgstart
  bounds : ∀ {a i}, i ∈ s.unpinned a → (s.range i).pgstart ≤ (s.range i).pgend
  owner : ∀ {a i}, i ∈ s.unpinned a → (s.range i).asma = a
  fresh : ∀ {a i}, i ∈ s.unpinned a → i < s.next
  lruNodup : s.lru.Nodup
  lruMem : ∀ i, i ∈ s.lru ↔ (∃ a, i ∈ s.unpinned a) ∧ (s.range i).purged = notPurged
  count : s.lruCount = (s.lru.map fun i => rangeSize (s.range i)).sum

variable {s : State} {a b : AreaId} {i j : RangeId}

theorem Inv.init : Inv State.init := by
  constructor <;> simp [State.init]

theorem Inv.nodup (h : Inv s) (a : AreaId) : (s.unpinned a).Nodup := by
  refine (h.order a).imp_of_mem fun {i j} hi _ hij => ?_
  rintro rfl
  have := h.bounds hi
  omega

theorem Inv.area_eq (h : Inv s) (ha : i ∈ s.unpinned a) (hb : i ∈ s.unpinned b) : a = b :=
  (h.owner ha).symm.trans (h.owner hb)

/-! ## `range_del` -/

@[simp]
theorem rangeDel_range : (rangeDel i s).range j = s.range j := by
  unfold rangeDel; split <;> rfl

@[simp]
theorem rangeDel_next : (rangeDel i s).next = s.next := by
  unfold rangeDel; split <;> rfl

theorem rangeDel_unpinned : (rangeDel i s).unpinned =
    update s.unpinned (s.range i).asma ((s.unpinned (s.range i).asma).erase i) := by
  unfold rangeDel; split <;> rfl

theorem rangeDel_lru : (rangeDel i s).lru =
    if (s.range i).purged = notPurged then s.lru.erase i else s.lru := by
  unfold rangeDel; simp only [rangeOnLru_iff]; split <;> rfl

theorem rangeDel_lruCount : (rangeDel i s).lruCount =
    if (s.range i).purged = notPurged then s.lruCount - rangeSize (s.range i) else s.lruCount := by
  unfold rangeDel; simp only [rangeOnLru_iff]; split <;> rfl

theorem Inv.rangeDel_unpinned_self (h : Inv s) (hi : i ∈ s.unpinned a) :
    (rangeDel i s).unpinned a = (s.unpinned a).erase i := by
  rw [rangeDel_unpinned, h.owner hi, update_self]

theorem Inv.rangeDel_unpinned_other (h : Inv s) (hi : i ∈ s.unpinned a) (hb : b ≠ a) :
    (rangeDel i s).unpinned b = s.unpinned b := by
  rw [rangeDel_unpinned, h.owner hi, update_of_ne hb]

theorem Inv.mem_rangeDel (h : Inv s) (hi : i ∈ s.unpinned a) :
    j ∈ (rangeDel i s).unpinned b ↔ j ≠ i ∧ j ∈ s.unpinned b := by
  grind [h.rangeDel_unpinned_self, h.rangeDel_unpinned_other, (h.nodup b).mem_erase_iff]

theorem Inv.rangeDel_sublist (h : Inv s) (hi : i ∈ s.unpinned a) :
    ((rangeDel i s).unpinned b).Sublist (s.unpinned b) := by
  by_cases hb : b = a
  · subst hb
    rw [h.rangeDel_unpinned_self hi]
    exact List.erase_sublist
  · rw [h.rangeDel_unpinned_other hi hb]

theorem Inv.length_rangeDel (h : Inv s) (hi : i ∈ s.unpinned a) :
    ((rangeDel i s).unpinned a).length + 1 = (s.unpinned a).length := by
  rw [h.rangeDel_unpinned_self hi, List.length_erase_of_mem hi]
  exact Nat.sub_add_cancel (List.length_pos_of_mem hi)

theorem Inv.delRange (h : Inv s) (hi : i ∈ s.unpinned a) : Inv (rangeDel i s) where
  order b := by
    simp only [rangeDel_range]
    exact (h.order b).sublist (h.rangeDel_sublist hi)
  bounds hj := by simpa using h.bounds ((h.mem_rangeDel hi).mp hj).2
  owner hj := by simpa using h.owner ((h.mem_rangeDel hi).mp hj).2
  fresh hj := by simpa using h.fresh ((h.mem_rangeDel hi).mp hj).2
  lruNodup := by
    rw [rangeDel_lru]
    split
    · exact h.lruNodup.erase i
    · exact h.lruNodup
  lruMem j := by
    simp only [rangeDel_range, h.mem_rangeDel hi, rangeDel_lru]
    have := h.lruMem j
    split <;> grind [h.lruNodup.mem_erase_iff]
  count := by
    simp only [rangeDel_range, rangeDel_lru, rangeDel_lruCount]
    split
    next hp =>
      have hmem : i ∈ s.lru := (h.lruMem i).mpr ⟨⟨a, hi⟩, hp⟩
      have := List.sum_map_erase (fun i => rangeSize (s.range i)) hmem
      rw [h.count]
      omega
    next => exact h.count

/-! ## `range_shrink` -/

variable {lo hi : Nat}

@[simp]
theorem rangeShrink_next : (rangeShrink i lo hi s).next = s.next := by
  unfold rangeShrink; simp only; split <;> rfl

@[simp]
theorem rangeShrink_unpinned : (rangeShrink i lo hi s).unpinned = s.unpinned := by
  unfold rangeShrink; simp only; split <;> rfl

@[simp]
theorem rangeShrink_lru : (rangeShrink i lo hi s).lru = s.lru := by
  unfold rangeShrink; simp only; split <;> rfl

theorem rangeShrink_range : (rangeShrink i lo hi s).range =
    update s.range i { s.range i with pgstart := lo, pgend := hi } := by
  unfold rangeShrink; simp only; split <;> rfl

theorem rangeShrink_lruCount : (rangeShrink i lo hi s).lruCount =
    if (s.range i).purged = notPurged then
      s.lruCount - (rangeSize (s.range i) - rangeSize { s.range i with pgstart := lo, pgend := hi })
    else s.lruCount := by
  unfold rangeShrink; simp only [rangeOnLru_iff]; split <;> rfl

theorem rangeShrink_range_self : (rangeShrink i lo hi s).range i =
    { s.range i with pgstart := lo, pgend := hi } := by
  rw [rangeShrink_range, update_self]

theorem rangeShrink_range_other (hj : j ≠ i) : (rangeShrink i lo hi s).range j = s.range j := by
  rw [rangeShrink_range, update_of_ne hj]

@[simp]
theorem rangeShrink_purged : ((rangeShrink i lo hi s).range j).purged = (s.range j).purged := by
  grind [rangeShrink_range_self, rangeShrink_range_other]

@[simp]
theorem rangeShrink_asma : ((rangeShrink i lo hi s).range j).asma = (s.range j).asma := by
  grind [rangeShrink_range_self, rangeShrink_range_other]

theorem rangeShrink_within (hlo : (s.range i).pgstart ≤ lo) (hhi : hi ≤ (s.range i).pgend) :
    (s.range j).pgstart ≤ ((rangeShrink i lo hi s).range j).pgstart ∧
      ((rangeShrink i lo hi s).range j).pgend ≤ (s.range j).pgend := by
  grind [rangeShrink_range_self, rangeShrink_range_other]

theorem Inv.shrinkRange (h : Inv s) (hlo : (s.range i).pgstart ≤ lo) (hlh : lo ≤ hi)
    (hhi : hi ≤ (s.range i).pgend) (hm : i ∈ s.unpinned a) : Inv (rangeShrink i lo hi s) where
  order b := by
    rw [rangeShrink_unpinned]
    refine (h.order b).imp fun {j k} hjk => ?_
    have hj := rangeShrink_within (j := j) hlo hhi
    have hk := rangeShrink_within (j := k) hlo hhi
    omega
  bounds {b j} hj := by
    rw [rangeShrink_unpinned] at hj
    have := h.bounds hj
    grind [rangeShrink_range_self, rangeShrink_range_other]
  owner hj := by simpa using h.owner (by simpa using hj)
  fresh hj := by simpa using h.fresh (by simpa using hj)
  lruNodup := by simpa using h.lruNodup
  lruMem j := by simpa using h.lruMem j
  count := by
    rw [rangeShrink_lru, rangeShrink_lruCount, h.count]
    split
    next hp =>
      have hmem : i ∈ s.lru := (h.lruMem i).mpr ⟨⟨a, hm⟩, hp⟩
      have hsum := Lib.sum_map_change (f := fun i => rangeSize (s.range i))
        (g := fun j => rangeSize ((rangeShrink i lo hi s).range j)) h.lruNodup hmem
        (fun j _ hj => by rw [rangeShrink_range_other hj])
      rw [rangeShrink_range_self] at hsum
      omega
    rename_i hp
    refine Lib.sum_map_congr fun j hj => ?_
    have hji : j ≠ i := by
      rintro rfl
      exact hp ((h.lruMem j).mp hj).2
    rw [rangeShrink_range_other hji]

/-! ## `range_alloc` -/

theorem mem_listAddTail {new : RangeId} : ∀ {prev : Option RangeId} {l : List RangeId},
    j ∈ listAddTail new prev l ↔ j = new ∨ j ∈ l
  | none, l => by simp [listAddTail, or_comm]
  | some _, [] => by simp [listAddTail]
  | some p, x :: xs => by
      simp only [listAddTail]
      split
      · simp
      · simp only [List.mem_cons, mem_listAddTail]
        tauto

theorem listAddTail_split {new : RangeId} (pre post : List RangeId) (hpre : ∀ p ∈ post.head?, p ∉ pre) :
    listAddTail new post.head? (pre ++ post) = pre ++ new :: post := by
  cases post with
  | nil => simp [listAddTail]
  | cons p post =>
    simp only [List.head?_cons, Option.mem_def, Option.some.injEq, forall_eq'] at hpre ⊢
    induction pre with
    | nil => simp [listAddTail]
    | cons x pre ih =>
      simp only [List.mem_cons, not_or] at hpre
      rw [List.cons_append, listAddTail, if_neg (Ne.symm hpre.1), ih hpre.2, List.cons_append]

variable {prev : Option RangeId} {purged : Bool}

@[simp]
theorem rangeAlloc_false : rangeAlloc false a prev purged lo hi s = (s, -enomem) := rfl

theorem rangeAlloc_range : (rangeAlloc true a prev purged lo hi s).1.range =
    update s.range s.next ⟨a, lo, hi, purged⟩ := by
  simp only [rangeAlloc, if_true]; split <;> rfl

theorem rangeAlloc_next : (rangeAlloc true a prev purged lo hi s).1.next = s.next + 1 := by
  simp only [rangeAlloc, if_true]; split <;> rfl

theorem rangeAlloc_unpinned : (rangeAlloc true a prev purged lo hi s).1.unpinned =
    update s.unpinned a (listAddTail s.next prev (s.unpinned a)) := by
  simp only [rangeAlloc, if_true]; split <;> rfl

theorem rangeAlloc_lru : (rangeAlloc true a prev purged lo hi s).1.lru =
    if purged = notPurged then s.lru ++ [s.next] else s.lru := by
  simp only [rangeAlloc, if_true, rangeOnLru_iff, update_self]; split <;> rfl

theorem rangeAlloc_lruCount : (rangeAlloc true a prev purged lo hi s).1.lruCount =
    if purged = notPurged then s.lruCount + rangeSize ⟨a, lo, hi, purged⟩ else s.lruCount := by
  simp only [rangeAlloc, if_true, rangeOnLru_iff, update_self]
  split
  · simp [lruAdd]
  · rfl

theorem mem_rangeAlloc : j ∈ (rangeAlloc true a prev purged lo hi s).1.unpinned b ↔
    (b = a ∧ j = s.next) ∨ j ∈ s.unpinned b := by
  rw [rangeAlloc_unpinned, update_apply]
  grind [mem_listAddTail]

theorem Inv.rangeAlloc_range_old (h : Inv s) (hj : j ∈ s.unpinned b) :
    (rangeAlloc true a prev purged lo hi s).1.range j = s.range j := by
  rw [rangeAlloc_range, update_of_ne (h.fresh hj).ne]

theorem Inv.allocRange (h : Inv s) {pre post : List RangeId} (hs : s.unpinned a = pre ++ post)
    (hlh : lo ≤ hi) (hpre : ∀ j ∈ pre, hi < (s.range j).pgstart)
    (hpost : ∀ j ∈ post, (s.range j).pgend < lo) :
    Inv (rangeAlloc true a post.head? purged lo hi s).1 := by
  have hnd : (pre ++ post).Nodup := hs ▸ h.nodup a
  have hadd : listAddTail s.next post.head? (s.unpinned a) = pre ++ s.next :: post := by
    rw [hs]
    refine listAddTail_split pre post fun p hp hp' => ?_
    exact (List.nodup_append.mp hnd).2.2 p hp' p (List.mem_of_mem_head? hp) rfl
  have hnew : (rangeAlloc true a post.head? purged lo hi s).1.range s.next = ⟨a, lo, hi, purged⟩ := by
    rw [rangeAlloc_range, update_self]
  have hold : ∀ {b j}, j ∈ s.unpinned b → (rangeAlloc true a post.head? purged lo hi s).1.range j = s.range j :=
    h.rangeAlloc_range_old
  have hnl : s.next ∉ s.lru := by
    rw [h.lruMem]
    rintro ⟨⟨b, hb⟩, _⟩
    exact absurd (h.fresh hb) (lt_irrefl _)
  constructor
  case order =>
    intro b
    have ho : (s.unpinned b).Pairwise fun i j => ((rangeAlloc true a post.head? purged lo hi s).1.range j).pgend <
        ((rangeAlloc true a post.head? purged lo hi s).1.range i).pgstart :=
      (h.order b).imp_of_mem fun {i j} hi hj hij => by rwa [hold hi, hold hj]
    by_cases hb : b = a
    · subst hb
      rw [rangeAlloc_unpinned, update_self, hadd]
      refine Lib.pairwise_insert (hs ▸ ho) (fun j hj => ?_) fun j hj => ?_
      · rw [hnew, hold (hs ▸ List.mem_append_left _ hj)]
        exact hpre j hj
      · rw [hnew, hold (hs ▸ List.mem_append_right _ hj)]
        exact hpost j hj
    · rwa [rangeAlloc_unpinned, update_of_ne hb]
  case bounds =>
    intro b j hj
    have := @h.bounds b j
    grind [mem_rangeAlloc]
  case owner =>
    intro b j hj
    have := @h.owner b j
    grind [mem_rangeAlloc]
  case fresh =>
    intro b j hj
    have := @h.fresh b j
    grind [mem_rangeAlloc, rangeAlloc_next]
  case lruNodup =>
    rw [rangeAlloc_lru]
    split
    · exact h.lruNodup.append (List.nodup_singleton _) (by simpa using hnl)
    · exact h.lruNodup
  case lruMem =>
    intro j
    have := h.lruMem j
    simp only [mem_rangeAlloc, rangeAlloc_lru]
    grind
  case count =>
    have hsame : ∀ j ∈ s.lru, rangeSize ((rangeAlloc true a post.head? purged lo hi s).1.range j) =
        rangeSize (s.range j) := by
      intro j hj
      obtain ⟨⟨b, hb⟩, _⟩ := (h.lruMem j).mp hj
      rw [hold hb]
    rw [rangeAlloc_lru, rangeAlloc_lruCount]
    split
    · rw [List.map_append, List.sum_append, Lib.sum_map_congr hsame, h.count]
      simp [hnew]
    · rw [Lib.sum_map_congr hsame, h.count]

/-! ## Purging -/

theorem purge_range : (purge i s).range =
    update s.range i { s.range i with purged := wasPurged } := rfl

theorem purge_range_self : (purge i s).range i = { s.range i with purged := wasPurged } := by
  rw [purge_range, update_self]

theorem purge_range_other (hj : j ≠ i) : (purge i s).range j = s.range j := by
  rw [purge_range, update_of_ne hj]

theorem purge_place : ((purge i s).range j).asma = (s.range j).asma ∧
    ((purge i s).range j).pgstart = (s.range j).pgstart ∧
    ((purge i s).range j).pgend = (s.range j).pgend := by
  grind [purge_range_self, purge_range_other]

theorem purge_rangeSize : rangeSize ((purge i s).range j) = rangeSize (s.range j) := by
  obtain ⟨_, h1, h2⟩ := purge_place (s := s) (i := i) (j := j)
  rw [rangeSize, rangeSize, h1, h2]

@[simp]
theorem purge_unpinned : (purge i s).unpinned = s.unpinned := rfl

theorem purge_lru : (purge i s).lru = s.lru.erase i := rfl

theorem Inv.purgeRange (h : Inv s) (hi : i ∈ s.lru) : Inv (purge i s) where
  order b := by
    simpa only [purge_unpinned, (purge_place (s := s) (i := i)).2.1, (purge_place (s := s) (i := i)).2.2]
      using h.order b
  bounds {b j} hj := by
    have := purge_place (s := s) (i := i) (j := j)
    have := h.bounds hj
    omega
  owner hj := purge_place.1.trans (h.owner hj)
  fresh hj := h.fresh hj
  lruNodup := h.lruNodup.erase i
  lruMem j := by
    rw [purge_lru, h.lruNodup.mem_erase_iff, purge_unpinned]
    by_cases hj : j = i
    · subst hj; simp [purge_range_self]
    · rw [purge_range_other hj, h.lruMem]; simp [hj]
  count := by
    have hsum := List.sum_map_erase (fun i => rangeSize (s.range i)) hi
    have hcount : (purge i s).lruCount = s.lruCount - rangeSize ((purge i s).range i) := rfl
    rw [hcount, purge_rangeSize, h.count, purge_lru]
    simp only [purge_rangeSize]
    omega

end G3Mod.Ashmem
