import G3Mod.Ashmem.Theorems

/-!
# Allocations that fail
-/

namespace G3Mod.Ashmem

open Function Set

variable {s : State} {a b : AreaId} {i : RangeId} {lo hi p : Nat} {alloc ret : Bool} {m : PageSets}

/-! ## `ashmem_unpin` -/

theorem length_unpinLoop_le : ∀ (n : Nat) {s : State} {lo hi : Nat} {purged : Bool}, Inv s → lo ≤ hi →
    ((unpinLoop false a n s lo hi purged).1.unpinned a).length ≤ (s.unpinned a).length
  | 0, _, _, _, _, _, _ => le_rfl
  | n + 1, s, lo, hi, purged, h, hl => by
      rcases h.unpinScan_cases (a := a) hl with ⟨he, -⟩ | ⟨i, hm, he, -⟩ | ⟨_, _, -, he, -⟩
      · simp only [unpinLoop, he]
        exact le_rfl
      · simp only [unpinLoop, he]
        have hrec : min (s.range i).pgstart lo ≤ max (s.range i).pgend hi := by omega
        have hlen := h.length_rangeDel hm
        exact (length_unpinLoop_le n (h.delRange hm) hrec).trans (by omega)
      · simp only [unpinLoop, he, rangeAlloc_false]
        exact le_rfl

theorem ashmemUnpin_unchanged_iff (h : Inv s) (hl : lo ≤ hi) (hret : (ashmemUnpin alloc a lo hi s).2 = -enomem) :
    (ashmemUnpin alloc a lo hi s).1 = s ↔ ∀ i ∈ s.unpinned a, Apart lo hi (s.range i) := by
  cases alloc with
  | true =>
    rw [(ashmemUnpin_post true h hl).ret rfl] at hret
    cases hret
  | false =>
    unfold ashmemUnpin at hret ⊢
    rcases h.unpinScan_cases (a := a) hl with ⟨he, -⟩ | ⟨i, hm, he, hc⟩ | ⟨pre, post, hs, he, hpre, hpost⟩
    · simp only [unpinLoop, he] at hret
      cases hret
    · simp only [unpinLoop, he]
      refine iff_of_false (fun heq => ?_) fun hall => ?_
      · -- the range has been deleted for good
        have hrec : min (s.range i).pgstart lo ≤ max (s.range i).pgend hi := by omega
        have hle : ((unpinLoop false a (s.unpinned a).length (rangeDel i s) (min (s.range i).pgstart lo)
            (max (s.range i).pgend hi) (notPurged || (s.range i).purged)).1.unpinned a).length ≤ _ :=
          length_unpinLoop_le _ (h.delRange hm) hrec
        have hlen := h.length_rangeDel hm
        rw [heq] at hle
        omega
      · have := hall i hm
        unfold Apart at this
        omega
    · simp only [unpinLoop, he, rangeAlloc_false, true_iff]
      intro j hj
      rw [hs, List.mem_append] at hj
      rcases hj with hj | hj
      · exact .inr (hpre j hj)
      · exact .inl (hpost j hj)

theorem unpinLoop_uncovered : ∀ (n : Nat) {s : State} {lo hi : Nat} {purged : Bool}, Inv s → lo ≤ hi →
    (s.unpinned a).length < n → (∃ q, lo ≤ q ∧ q ≤ hi ∧ ∀ i, ¬ Covers s a q i) →
    (unpinLoop false a n s lo hi purged).2 = -enomem
  | 0, _, _, _, _, _, _, hn, _ => absurd hn (Nat.not_lt_zero _)
  | n + 1, s, lo, hi, purged, h, hl, hn, ⟨q, h1, h2, hno⟩ => by
      rcases h.unpinScan_cases (a := a) hl with ⟨-, i, hm, hc⟩ | ⟨i, hm, he, -⟩ | ⟨_, _, -, he, -⟩
      · exact absurd ⟨hm, by omega, by omega⟩ (hno i)
      · simp only [unpinLoop, he]
        have hlen := h.length_rangeDel hm
        refine unpinLoop_uncovered n (h.delRange hm) (by omega) (by omega) ⟨q, by omega, by omega, fun j hj => ?_⟩
        exact hno j ((h.covers_rangeDel hm).mp hj).2
      · simp only [unpinLoop, he, rangeAlloc_false]

theorem ashmemUnpin_false_cases (h : Inv s) (hl : lo ≤ hi) :
    ashmemUnpin false a lo hi s = (s, 0) ∨ (ashmemUnpin false a lo hi s).2 = -enomem := by
  unfold ashmemUnpin
  rcases h.unpinScan_cases (a := a) hl with ⟨he, -⟩ | ⟨i, hm, he, -⟩ | ⟨_, _, -, he, -⟩
  · simp only [unpinLoop, he, true_or]
  · simp only [unpinLoop, he]
    have hb := h.bounds hm
    have hlen := h.length_rangeDel hm
    refine .inr (unpinLoop_uncovered _ (h.delRange hm) (by omega) (by omega) ⟨(s.range i).pgstart, by omega, by omega, fun j hj => ?_⟩)
    rw [h.covers_rangeDel hm] at hj
    exact hj.1 (h.covers_unique hj.2 ⟨hm, le_rfl, hb⟩)
  · simp only [unpinLoop, he, rangeAlloc_false, or_true]

def Splits (lo hi : Nat) (r : Range) : Prop := r.pgstart < lo ∧ hi < r.pgend

instance {r : Range} : Decidable (Splits lo hi r) := inferInstanceAs (Decidable (_ ∧ _))

theorem pinLoop_alloc (l : List RangeId) : ∀ {s : State} {ret : Bool}, l.Nodup →
    (∀ i ∈ l, ¬ Splits lo hi (s.range i)) → pinLoop alloc a lo hi l s ret = pinLoop true a lo hi l s ret := by
  induction l with
  | nil => intro s ret _ _; rfl
  | cons i l ih =>
    intro s ret hnd hno
    obtain ⟨hi', hnd⟩ := List.nodup_cons.mp hnd
    have hrest : ∀ s1 : State, (∀ j, j ≠ i → s1.range j = s.range j) → ∀ j ∈ l, ¬ Splits lo hi (s1.range j) := by
      intro s1 hsame j hj
      have hji : j ≠ i := fun heq => hi' (heq ▸ hj)
      rw [hsame j hji]
      exact hno j (List.mem_cons_of_mem _ hj)
    have hself := hno i (List.mem_cons_self ..)
    simp only [pinLoop]
    split
    · rfl
    split
    · split
      · exact ih hnd (hrest _ fun j _ => by rw [rangeDel_range])
      split
      · exact ih hnd (hrest _ fun j hj => rangeShrink_range_other hj)
      split
      · exact ih hnd (hrest _ fun j hj => rangeShrink_range_other hj)
      next h1 h2 =>
        exact absurd ⟨Nat.lt_of_not_le h1, Nat.lt_of_not_le h2⟩ hself
    · exact ih hnd (hrest _ fun _ _ => rfl)

theorem ashmemPin_alloc (h : Inv s) (hno : ∀ i ∈ s.unpinned a, ¬ Splits lo hi (s.range i)) :
    ashmemPin alloc a lo hi s = ashmemPin true a lo hi s :=
  pinLoop_alloc (s.unpinned a) (h.nodup a) hno

theorem pinLoop_split (h : Inv s) (hl : lo ≤ hi) (hsplit : Splits lo hi (s.range i)) : ∀ (l : List RangeId), i ∈ l →
    l.Pairwise (fun i j => (s.range j).pgend < (s.range i).pgstart) → (∀ j ∈ l, j ∈ s.unpinned a) →
    pinLoop false a lo hi l s ret =
      (rangeShrink i (s.range i).pgstart (lo - 1) s, ret || (s.range i).purged)
  | j :: l, hi', hord, hin => by
      obtain ⟨hlo, hhi⟩ := hsplit
      have hbj := h.bounds (hin j (List.mem_cons_self ..))
      simp only [pinLoop, rangeBeforePage_iff, pageRangeInRange_iff hbj hl, pageRangeSubsumesRange_iff]
      rcases List.mem_cons.mp hi' with rfl | hil
      · rw [if_neg (by omega), if_pos (by omega), if_neg (by omega), if_neg (by omega), if_neg (by omega), rangeAlloc_false]
      · have hlt := (List.pairwise_cons.mp hord).1 i hil
        rw [if_neg (by omega), if_neg (by omega)]
        exact pinLoop_split h hl ⟨hlo, hhi⟩ l hil (List.pairwise_cons.mp hord).2 fun k hk => hin k (List.mem_cons_of_mem _ hk)

theorem ashmemPin_split (h : Inv s) (hl : lo ≤ hi) (hm : i ∈ s.unpinned a) (hsplit : Splits lo hi (s.range i)) :
    ashmemPin false a lo hi s = (rangeShrink i (s.range i).pgstart (lo - 1) s, (s.range i).purged) :=
  (pinLoop_split h hl hsplit (s.unpinned a) hm (h.order a) fun _ => id).trans (by rw [Bool.false_or])

theorem ashmemPin_marks_iff (h : Inv s) (hl : lo ≤ hi) :
    (∀ b p, Holds s b p wasPurged → ¬ (b = a ∧ lo ≤ p ∧ p ≤ hi) → Holds (ashmemPin false a lo hi s).1 b p wasPurged) ↔
      ∀ i ∈ s.unpinned a, (s.range i).purged = wasPurged → ¬ Splits lo hi (s.range i) := by
  by_cases hex : ∃ i ∈ s.unpinned a, Splits lo hi (s.range i)
  · obtain ⟨i, hm, hsplit⟩ := hex
    obtain ⟨hlo, hhi⟩ := id hsplit
    rw [ashmemPin_split h hl hm hsplit]
    have honly : ∀ j ∈ s.unpinned a, Splits lo hi (s.range j) → j = i := fun j hj hs =>
      h.covers_unique (p := lo) ⟨hj, hs.1.le, hl.trans hs.2.le⟩ ⟨hm, hlo.le, hl.trans hhi.le⟩
    constructor
    · intro hkeep j hj hpurged hs
      obtain rfl := honly j hj hs
      -- the page after the request is lost
      have hnext := hkeep a (hi + 1) ⟨j, ⟨hm, by omega, by omega⟩, hpurged⟩ (by omega)
      obtain ⟨k, hc, -⟩ := hnext
      rw [covers_rangeShrink le_rfl (by omega)] at hc
      have hkj := h.covers_unique hc.1 ⟨hm, by omega, by omega⟩
      have := hc.2 hkj
      omega
    · rintro hno b p ⟨j, hc, hv⟩ -
      have hji : j ≠ i := by
        rintro rfl
        exact hno j hm hv hsplit
      refine ⟨j, (covers_rangeShrink le_rfl (by omega)).mpr ⟨hc, fun heq => absurd heq hji⟩, ?_⟩
      rw [rangeShrink_purged]
      exact hv
  · have hno : ∀ i ∈ s.unpinned a, ¬ Splits lo hi (s.range i) := fun i hi hs => hex ⟨i, hi, hs⟩
    rw [ashmemPin_alloc h hno]
    refine iff_of_true (fun b p hh hout => ?_) fun i hi _ => hno i hi
    exact ((ashmemPin_post true h hl).pages rfl b p wasPurged).mpr ⟨hh, hout⟩

/-! ## Runs -/

/-- `ashmem_unpin` has merged no range, and `ashmem_pin` splits none that has been purged. -/
def Op.Harmless (s : State) : Op → Prop
  | .pin alloc a lo hi => alloc = true ∨
      ∀ i ∈ s.unpinned a, (s.range i).purged = wasPurged → ¬ Splits lo hi (s.range i)
  | .unpin alloc a lo hi => alloc = true ∨ ((ashmemUnpin alloc a lo hi s).2 = -enomem →
      ∀ i ∈ s.unpinned a, Apart lo hi (s.range i))
  | .shrink _ _ _ => True
  | .release _ => True

def harmlessMachine : Lib.Machine State Op Out Empty where
  init s := s = State.init
  enabled s op := op.Permitted ∧ op.Harmless s
  exec s op := .ok (exec s op)

/-- The page sets when calls may fail: a failed `ashmem_unpin` unpins nothing. -/
def PageSets.heed (m : PageSets) : Op × Out → PageSets
  | (.unpin alloc a lo hi, out) => if out.ret = 0 then m.step (.unpin alloc a lo hi, out) else m
  | e => m.step e

def PageSets.heeded (es : List (Op × Out)) : PageSets := es.foldl PageSets.heed PageSets.init

structure Remembers (s : State) (m : PageSets) : Prop where
  inv : Inv s
  purged : ∀ b p, p ∈ m.purged b → Holds s b p wasPurged

theorem Remembers.pin (h : Remembers s m) (hl : lo ≤ hi) (hop : (Op.pin alloc a lo hi).Harmless s) (out : Out) :
    Remembers (ashmemPin alloc a lo hi s).1 (m.step (.pin alloc a lo hi, out)) where
  inv := (ashmemPin_post alloc h.inv hl).inv
  purged b p hp := by
    obtain ⟨hm, hout⟩ := PageSets.purged_pin.mp hp
    have hold := h.purged b p hm
    cases alloc with
    | true => exact ((ashmemPin_post true h.inv hl).pages rfl b p wasPurged).mpr ⟨hold, hout⟩
    | false =>
      rcases hop with hop | hop
      · cases hop
      · exact (ashmemPin_marks_iff h.inv hl).mpr hop b p hold hout

theorem Remembers.unpin (h : Remembers s m) (hl : lo ≤ hi) (hop : (Op.unpin alloc a lo hi).Harmless s)
    (out : Out) (hout : out.ret = (ashmemUnpin alloc a lo hi s).2) :
    Remembers (ashmemUnpin alloc a lo hi s).1 (m.heed (.unpin alloc a lo hi, out)) := by
  have hpurged : ∀ b p, p ∈ (m.heed (.unpin alloc a lo hi, out)).purged b → p ∈ m.purged b := by
    intro b p hp
    by_cases hret : out.ret = 0
    · rw [PageSets.heed, if_pos hret] at hp
      exact PageSets.purged_unpin hp
    · rwa [PageSets.heed, if_neg hret] at hp
  refine ⟨(ashmemUnpin_post alloc h.inv hl).inv, fun b p hp => ?_⟩
  have hold := h.purged b p (hpurged b p hp)
  cases alloc with
  | true => exact (ashmemUnpin_post true h.inv hl).marks rfl b p (.inl hold)
  | false =>
    have hsame : (ashmemUnpin false a lo hi s).1 = s := by
      rcases ashmemUnpin_false_cases (a := a) h.inv hl with heq | hret
      · rw [heq]
      · rcases hop with hop | hop
        · cases hop
        · exact (ashmemUnpin_unchanged_iff h.inv hl hret).mpr (hop hret)
    rw [hsame]
    exact hold

theorem Remembers.represents (h : Remembers s m) : Represents s ⟨pages s, m.purged⟩ := ⟨h.inv, fun _ => rfl, h.purged⟩

theorem Remembers.exec (h : Remembers s m) {op : Op} (hop : op.Permitted) (hh : op.Harmless s) :
    Remembers (Ashmem.exec s op).2 (m.heed (op, (Ashmem.exec s op).1)) := by
  cases op with
  | pin alloc a lo hi => exact h.pin hop hh (Ashmem.exec s (.pin alloc a lo hi)).1
  | unpin alloc a lo hi => exact h.unpin hop hh (Ashmem.exec s (.unpin alloc a lo hi)).1 rfl
  | shrink nr gfpFs locked =>
    have hrep := h.represents.shrink nr gfpFs locked
    exact ⟨hrep.inv, hrep.purged⟩
  | release a =>
    have hrep := h.represents.release (a := a) (Ashmem.exec s (.release a)).1
    exact ⟨hrep.inv, hrep.purged⟩

theorem remembers_run {es : List (Op × Out)} (h : harmlessMachine.Run State.init es s) :
    Remembers s (PageSets.heeded es) := by
  refine h.summary (fun {s m l o t} hs hl hx => ?_) ⟨Inv.init, fun b p hp => by simp [PageSets.init] at hp⟩
  have hx : Ashmem.exec s l = (o, t) := Except.ok.inj hx
  have hrep := hs.exec hl.1 hl.2
  rw [hx] at hrep
  exact hrep

/-- A failed allocation is harmless exactly when `ashmem_unpin` meets no range of the area and `ashmem_pin` splits no
purged one. -/
theorem failed_allocation_harmless (alloc : Bool) (a : AreaId) (h : machine.Reachable s) (hl : lo ≤ hi) :
    ((ashmemUnpin alloc a lo hi s).2 = -enomem →
      ((ashmemUnpin alloc a lo hi s).1 = s ↔ ∀ i ∈ s.unpinned a, Apart lo hi (s.range i))) ∧
    ((∀ b p, Holds s b p wasPurged → ¬ (b = a ∧ lo ≤ p ∧ p ≤ hi) →
        Holds (ashmemPin false a lo hi s).1 b p wasPurged) ↔
      ∀ i ∈ s.unpinned a, (s.range i).purged = wasPurged → ¬ Splits lo hi (s.range i)) ∧
    ∀ es, harmlessMachine.Run State.init es s → (Icc lo hi ∩ (PageSets.heeded es).purged a).Nonempty →
      (ashmemPin alloc a lo hi s).2 = wasPurged := by
  have hinv := machine_inductive.reachable h
  refine ⟨ashmemUnpin_unchanged_iff hinv hl, ashmemPin_marks_iff hinv hl, fun es hr => ?_⟩
  rintro ⟨p, ⟨h1, h2⟩, hp⟩
  exact (ashmemPin_post alloc hinv hl).result.mpr (.inr ⟨p, h1, h2, (remembers_run hr).purged a p hp⟩)

theorem failed_allocation_harmless_front :
    (∀ b p, Holds purgedState b p wasPurged → ¬ (b = 0 ∧ 0 ≤ p ∧ p ≤ 4) →
      Holds (ashmemPin false 0 0 4 purgedState).1 b p wasPurged) ∧
    (ashmemPin false 0 0 4 purgedState).2 = wasPurged := by
  have h0 : harmlessMachine.Run State.init [] State.init := .nil
  have h1 := h0.snoc (l := Op.unpin true 0 0 9) ⟨show 0 ≤ 9 by decide, .inl rfl⟩ rfl
  have h2 := h1.snoc (l := Op.shrink 1 true true) ⟨trivial, trivial⟩ rfl
  have hreach : machine.Reachable purgedState := ⟨_, _, rfl, h2.mono rfl fun h => h.1⟩
  have h := failed_allocation_harmless false 0 hreach (show 0 ≤ 4 by decide)
  refine ⟨h.2.1.mpr (by decide), h.2.2 _ h2 ⟨3, by simp, ?_⟩⟩
  refine .inr ⟨0, 9, ?_, by simp⟩
  decide

/-- A request that cannot be merged unpins nothing, and purged pages are pinned without a word. -/
theorem failed_allocation_loses :
    (∃ s, machine.Reachable s ∧ s.unpinned 0 = [0] ∧ (ashmemUnpin false 0 9 10 s).2 = -enomem ∧
      (ashmemUnpin false 0 9 10 s).1.unpinned 0 = [] ∧ s.lruCount = 10 ∧ (ashmemUnpin false 0 9 10 s).1.lruCount = 0) ∧
    7 ∈ (PageSets.after purgedHistory).purged 0 ∧ (ashmemPin false 0 3 4 purgedState).2 = wasPurged ∧
      (ashmemPin true 0 7 7 (ashmemPin false 0 3 4 purgedState).1).2 = notPurged := by
  refine ⟨⟨_, (Lib.Machine.Reachable.init (M := machine) rfl).step (l := Op.unpin true 0 0 9)
    (show 0 ≤ 9 by decide) rfl, by decide, by decide, by decide, by decide, by decide⟩, ?_, by decide, by decide⟩
  simp [PageSets.after, purgedHistory, PageSets.step, PageSets.truncatedPages]

end G3Mod.Ashmem
