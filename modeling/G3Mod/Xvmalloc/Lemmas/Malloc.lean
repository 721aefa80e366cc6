import G3Mod.Xvmalloc.Lemmas.Heap

/-!
# Handing out a block
-/

namespace G3Mod.Xvmalloc

open Function Lib

variable {s : State} {block : PageId → Nat → Prop} {F : Addr → Prop} {a b : Addr} {index i n m : Nat} {c : Prop} [Decidable c]

/-! ## Fields that stay -/

@[simp] theorem insert_if_header : (if c then insertBlock a s else s).header = s.header := by
  split <;> rfl

@[simp] theorem insert_if_owned : (if c then insertBlock a s else s).owned = s.owned := by
  split <;> rfl

@[simp] theorem insert_if_live : (if c then insertBlock a s else s).live = s.live := by
  split <;> rfl

def restHeader (a : Addr) (m : Nat) (s : State) : Header :=
  setBlockprev a.offset (clearFlag .prevFree (setFlag .blockFree
    { s.header ⟨a.page, a.offset + m + xvAlign⟩ with size := (s.header a).size - m - xvAlign }))

theorem restHeader_size : (restHeader a m s).size = (s.header a).size - m - xvAlign := by
  simp [restHeader]

theorem restHeader_free (ha : 4 ∣ a.offset) : (restHeader a m s).free = true ∧ (restHeader a m s).prevFree = false := by
  rw [restHeader, Header.free, Header.prevFree, testFlag_setBlockprev ha, testFlag_setBlockprev ha, testFlag_clearFlag,
    testFlag_clearFlag, testFlag_setFlag, testFlag_setFlag]
  simp

theorem splitBlock_rest (hm : m + xvAlign ≤ (s.header a).size) :
    splitBlock a m s =
      let tmp : Addr := ⟨a.page, a.offset + m + xvAlign⟩
      let next : Addr := ⟨a.page, a.offset + (s.header a).size + xvAlign⟩
      let s' := setHeader tmp (restHeader a m s) s
      let s' := if minAllocSize ≤ (s.header a).size - m - xvAlign then insertBlock tmp s' else s'
      if next.offset ≠ pageSize then setHeader next (setBlockprev tmp.offset (s.header next)) s' else s' := by
  have hne : (s.header a).size - m ≠ 0 := by
    unfold xvAlign at hm
    omega
  unfold splitBlock
  dsimp only
  rw [if_pos hne, size_setBlockprev, size_clearFlag, size_setFlag]
  have h1 : a.offset + m + xvAlign + xvAlign + ((s.header a).size - m - xvAlign) =
      a.offset + (s.header a).size + xvAlign := by omega
  have h2 : a.offset + m + xvAlign + ((s.header a).size - m - xvAlign) + xvAlign =
      a.offset + (s.header a).size + xvAlign := by omega
  have hnext : (⟨a.page, a.offset + (s.header a).size + xvAlign⟩ : Addr) ≠ ⟨a.page, a.offset + m + xvAlign⟩ := by
    rw [ne_eq, Addr.mk.injEq]
    omega
  rw [h1, h2, insert_if_header, header_setHeader_of_ne hnext]
  rfl

theorem splitBlock_whole (hm : (s.header a).size = m) :
    splitBlock a m s =
      let next : Addr := ⟨a.page, a.offset + m + xvAlign⟩
      if next.offset ≠ pageSize then setHeader next (clearFlag .prevFree (s.header next)) s else s := by
  unfold splitBlock
  rw [if_neg (by omega)]

@[simp] theorem splitBlock_owned : (splitBlock a m s).owned = s.owned := by
  unfold splitBlock
  dsimp only
  split <;> split <;> first | exact insert_if_owned | rfl

@[simp] theorem splitBlock_live : (splitBlock a m s).live = s.live := by
  unfold splitBlock
  dsimp only
  split <;> split <;> first | exact insert_if_live | rfl

section Rest

variable (hm : m + xvAlign ≤ (s.header a).size)
include hm

theorem rest_ne_next : (⟨a.page, a.offset + m + xvAlign⟩ : Addr) ≠ ⟨a.page, a.offset + (s.header a).size + xvAlign⟩ := by
  rw [ne_eq, Addr.mk.injEq]
  unfold xvAlign at hm
  omega

theorem splitBlock_header_rest : (splitBlock a m s).header b =
    if b = ⟨a.page, a.offset + (s.header a).size + xvAlign⟩ ∧ b.offset ≠ pageSize then
      setBlockprev (a.offset + m + xvAlign) (s.header b)
    else if b = ⟨a.page, a.offset + m + xvAlign⟩ then restHeader a m s else s.header b := by
  rw [splitBlock_rest hm]
  dsimp only
  split <;> simp only [header_setHeader_apply, insert_if_header] <;> grind

theorem Listed.splitBlock_rest (hl : Listed s F) (hrest : ¬ F ⟨a.page, a.offset + m + xvAlign⟩)
    (hnext : ¬ F ⟨a.page, a.offset + (s.header a).size + xvAlign⟩) :
    Listed (splitBlock a m s) fun b =>
      F b ∨ b = ⟨a.page, a.offset + m + xvAlign⟩ ∧ minAllocSize ≤ (s.header a).size - m - xvAlign := by
  rw [Xvmalloc.splitBlock_rest hm]
  have hins := (hl.setHeader (h := restHeader a m s) hrest).insert_if
    (c := minAllocSize ≤ (s.header a).size - m - xvAlign) hrest
  dsimp only
  split
  · have := rest_ne_next hm
    exact hins.setHeader (by grind)
  · exact hins

end Rest

section Whole

variable (hm : (s.header a).size = m)
include hm

theorem splitBlock_header_whole : (splitBlock a m s).header b =
    if b = ⟨a.page, a.offset + m + xvAlign⟩ ∧ b.offset ≠ pageSize then clearFlag .prevFree (s.header b)
    else s.header b := by
  rw [splitBlock_whole hm]
  grind

theorem Listed.splitBlock_whole (hl : Listed s F) (hnext : ¬ F ⟨a.page, a.offset + m + xvAlign⟩) :
    Listed (splitBlock a m s) F := by
  rw [Xvmalloc.splitBlock_whole hm]
  dsimp only
  split
  · exact hl.setHeader hnext
  · exact hl

end Whole

theorem Inv.use {s' : State} {B : Nat → Prop} (h : Inv s block) (ha : FreeBlock s block a)
    (hpage : PageOk (fun i => s'.header ⟨a.page, i⟩) B) (howned : s'.owned = s.owned)
    (hheader : ∀ b : Addr, b.page ≠ a.page → s'.header b = s.header b)
    (hlive : s'.live = update s.live ⟨a.page, a.offset + xvAlign⟩ (some n))
    (hB : B a.offset) (hused : (s'.header a).free = false) (hsize : (s'.header a).size = n)
    (hself : ∀ i, block a.page i → i ≠ a.offset → B i ∧ SameSelf (s.header ⟨a.page, i⟩) (s'.header ⟨a.page, i⟩))
    (hnew : ∀ i, B i → ¬ block a.page i → (s'.header ⟨a.page, i⟩).free = true)
    (hl : Listed s' fun b => FreeBlock s block b ∧ b ≠ a ∨
      b.page = a.page ∧ B b.offset ∧ ¬ block a.page b.offset ∧ minAllocSize ≤ (s'.header b).size) :
    Inv s' (update block a.page B) := by
  obtain ⟨hp, hb, hfree, _⟩ := ha
  have hsize' := fun i hi e => (hself i hi e).2.size
  have hfree' := fun i hi e => (hself i hi e).2.free
  refine h.change (fun _ => hpage) (fun q _ => by rw [howned]) hheader hl ?_ ?_ ?_ ?_
  · grind
  · intro i
    grind [FreeBlock]
  · intro b hb
    rw [hlive, update_apply]
    grind
  · intro i k
    rw [hlive, update_apply]
    have := h.live ⟨a.page, i⟩ k
    grind [UsedBlock]

section Take

variable (h : Inv s block) (hhead : s.pool.freelist index = some a)
include h hhead

theorem Inv.next_not_free : ¬ FreeBlock s block ⟨a.page, a.offset + (s.header a).size + xvAlign⟩ := by
  obtain ⟨⟨hp, hb, hfree, _⟩, _⟩ := h.listed.head hhead
  have hpage := h.page _ hp
  have hlen := hpage.headerLen_free hb hfree
  have hapart := fun hn => hpage.apart hb hn rfl hfree
  rw [hlen, ← Nat.add_assoc] at hapart
  exact fun hf => Bool.false_ne_true ((hapart hf.2.1).symm.trans hf.2.2.1)

theorem Inv.takeBlock_whole (hn : (s.header a).size = align n xvAlign) :
    Inv { takeBlock a index n s with live := update s.live ⟨a.page, a.offset + xvAlign⟩ (some n) }
      (update block a.page fun i => block a.page i ∧
        (i ≤ a.offset ∨ a.offset + align n xvAlign + xvAlign ≤ i)) := by
  have ha := (h.listed.head hhead).1
  obtain ⟨hp, hb, hfree, _⟩ := id ha
  have hpage := h.page _ hp
  let next : Addr := ⟨a.page, a.offset + align n xvAlign + xvAlign⟩
  have hend : a.offset + headerLen (s.header a) = a.offset + align n xvAlign + xvAlign := by
    rw [headerLen, hn, align_of_dvd (dvd_align n), ← Nat.add_assoc]
  have hgap := fun i => hpage.tiling.gap hb (j := i)
  have hgt : a.offset < a.offset + align n xvAlign + xvAlign := by
    unfold xvAlign
    omega
  -- the headers after it
  have hn' : ((removeBlockHead a index s).header a).size = align n xvAlign := hn
  have hheader : ∀ b, (takeBlock a index n s).header b =
      if b = a then clearFlag .blockFree { s.header a with size := n }
      else if b = next ∧ b.offset ≠ pageSize then clearFlag .prevFree (s.header b) else s.header b := fun b => by
    have hs : (removeBlockHead a index s).header = s.header := rfl
    rw [takeBlock, header_setHeader_apply, splitBlock_header_whole hn', splitBlock_header_whole hn', hs]
    grind
  have hused : ((takeBlock a index n s).header a).free = false := by
    rw [hheader, if_pos rfl, Header.free, testFlag_clearFlag]
    simp
  have hsame : ∀ i, block a.page i → i ≠ a.offset →
      SameSelf (s.header ⟨a.page, i⟩) ((takeBlock a index n s).header ⟨a.page, i⟩) := fun i hi hne => by
    have := SameSelf.clearPrevFree (s.header ⟨a.page, i⟩)
    have := SameSelf.refl (s.header ⟨a.page, i⟩)
    grind
  refine h.use ha ?_ splitBlock_owned ?_ rfl ⟨hb, .inl (Nat.le_refl _)⟩ hused ?_
    (fun i hi hne => ⟨⟨hi, by grind⟩, hsame i hi hne⟩) (fun i hi hnot => absurd hi.1 hnot) ?_
  · refine hpage.join hb (hend ▸ hpage.tiling.next hb) hgt (by simp [hused]) (by simp [hused]) ?_ (by simp [hused])
      (fun i hi _ => hsame i hi (by omega)) (fun i hi hne => ?_) fun hi => ?_
    · dsimp only
      rw [hheader, if_pos rfl, headerLen, size_clearFlag]
      dsimp only
      omega
    · have := SameBack.clearFree (s.header a) n
      have := SameBack.refl (s.header ⟨a.page, i⟩)
      grind
    have hback := hpage.back hb hi hend
    have := hpage.tiling.lt hi
    rw [hused, hheader, if_neg (by grind), if_pos ⟨rfl, by grind⟩, getBlockprev_clearFlag, Header.prevFree, testFlag_clearFlag]
    exact ⟨hback.1, by simp⟩
  · grind
  · dsimp only
    rw [hheader, if_pos rfl, size_clearFlag]
  · have hnot : ¬ (FreeBlock s block next ∧ next ≠ a) := fun hf => h.next_not_free hhead (by rw [hn]; exact hf.1)
    have hl := (h.listed.removeHead hhead).splitBlock_whole hn' hnot
    refine (hl.setHeader fun hf => hf.2 rfl).congr rfl (fun _ _ => rfl) (fun b => ?_) fun _ _ => rfl
    exact or_iff_left fun hb => hb.2.2.1 hb.2.1.1

theorem Inv.takeBlock_part (hn : align n xvAlign < (s.header a).size) :
    Inv { takeBlock a index n s with live := update s.live ⟨a.page, a.offset + xvAlign⟩ (some n) }
      (update block a.page fun i => block a.page i ∨ i = a.offset + align n xvAlign + xvAlign) := by
  have ha := (h.listed.head hhead).1
  obtain ⟨hp, hb, hfree, _⟩ := id ha
  have hpage := h.page _ hp
  have hoff : 4 ∣ a.offset := hpage.aligned hb
  have hsize : 4 ∣ (s.header a).size := hpage.freeSize hb hfree
  have hdvd := dvd_align n
  have hm : align n xvAlign + xvAlign ≤ ((removeBlockHead a index s).header a).size := by
    change _ ≤ (s.header a).size
    unfold xvAlign at *
    omega
  let tmp : Addr := ⟨a.page, a.offset + align n xvAlign + xvAlign⟩
  let next : Addr := ⟨a.page, a.offset + (s.header a).size + xvAlign⟩
  have hend : a.offset + headerLen (s.header a) = next.offset := by
    rw [hpage.headerLen_free hb hfree, ← Nat.add_assoc]
    rfl
  have htmp_lt : tmp.offset < next.offset := by
    dsimp only [tmp, next, xvAlign] at hn ⊢
    omega
  have htmp_gt : a.offset < tmp.offset := by
    dsimp only [tmp, xvAlign]
    omega
  have hdtmp : 4 ∣ tmp.offset := by
    dsimp only [tmp, xvAlign] at hdvd ⊢
    omega
  have hnot : ¬ block a.page tmp.offset := hpage.tiling.gap hb htmp_gt (by rw [hend]; exact htmp_lt)
  -- the headers after it
  have hheader : ∀ b, (takeBlock a index n s).header b =
      if b = a then clearFlag .blockFree { s.header a with size := n }
      else if b = next ∧ b.offset ≠ pageSize then setBlockprev tmp.offset (s.header b)
      else if b = tmp then restHeader a (align n xvAlign) s else s.header b := fun b => by
    have hs : (removeBlockHead a index s).header = s.header := rfl
    have hr : restHeader a (align n xvAlign) (removeBlockHead a index s) = restHeader a (align n xvAlign) s := rfl
    rw [takeBlock, header_setHeader_apply, splitBlock_header_rest hm, splitBlock_header_rest hm, hs, hr]
    grind
  have hrest : (takeBlock a index n s).header tmp = restHeader a (align n xvAlign) s := by grind
  have hused : ((takeBlock a index n s).header a).free = false := by
    rw [hheader, if_pos rfl, Header.free, testFlag_clearFlag]
    simp
  obtain ⟨hfree', hprev'⟩ := restHeader_free (s := s) (m := align n xvAlign) hoff
  have hsame : ∀ i, block a.page i → i ≠ a.offset →
      SameSelf (s.header ⟨a.page, i⟩) ((takeBlock a index n s).header ⟨a.page, i⟩) := fun i hi hio => by
    have := SameSelf.setBlockprev (s.header ⟨a.page, i⟩) hdtmp
    have := SameSelf.refl (s.header ⟨a.page, i⟩)
    grind
  have hdvd' : 4 ∣ (restHeader a (align n xvAlign) s).size := by
    rw [restHeader_size]
    unfold xvAlign at *
    omega
  have hlen' : headerLen (restHeader a (align n xvAlign) s) = (s.header a).size - align n xvAlign := by
    rw [headerLen, align_of_dvd hdvd', restHeader_size]
    unfold xvAlign at *
    omega
  refine h.use ha ?_ splitBlock_owned ?_ rfl (.inl hb) hused ?_ (fun i hi hio => ⟨.inl hi, hsame i hi hio⟩) ?_ ?_
  · refine hpage.split hb hfree hm ?_ hused ((congrArg headerLen hrest).trans hlen') (hrest ▸ hdvd')
      ((congrArg Header.free hrest).trans hfree') ?_ hsame (fun i hi hin => ?_) fun hi => ?_
    · dsimp only
      rw [hheader, if_pos rfl, headerLen, size_clearFlag]
      rfl
    · change getBlockprev ((takeBlock a index n s).header tmp) = a.offset ∧ ((takeBlock a index n s).header tmp).prevFree = false
      rw [hrest]
      exact ⟨getBlockprev_setBlockprev hoff, hprev'⟩
    · have := SameBack.clearFree (s.header a) n
      have := SameBack.refl (s.header ⟨a.page, i⟩)
      grind
    · dsimp only at hi ⊢
      rw [hend] at hi ⊢
      have hback := hpage.back hb hi hend
      have := hpage.tiling.lt hi
      rw [hheader, if_neg (by grind), if_pos ⟨rfl, by grind⟩, getBlockprev_setBlockprev hdtmp, Header.prevFree,
        testFlag_setBlockprev hdtmp]
      exact ⟨rfl, hback.2.trans hfree⟩
  · grind
  · dsimp only
    rw [hheader, if_pos rfl, size_clearFlag]
  · rintro i (hi | rfl) hnot'
    · exact absurd hi hnot'
    · exact (congrArg Header.free hrest).trans hfree'
  · have hnext' : ¬ (FreeBlock s block next ∧ next ≠ a) := fun hf => h.next_not_free hhead hf.1
    have hl := (h.listed.removeHead hhead).splitBlock_rest hm (fun hf => hnot hf.1.2.1) hnext'
    refine (hl.setHeader ?_).congr rfl (fun _ _ => rfl) (fun b => or_congr Iff.rfl ?_) fun _ _ => rfl
    · grind
    · have hsize' := restHeader_size (s := s) (a := a) (m := align n xvAlign)
      change _ ↔ b = tmp ∧ _ ≤ (s.header a).size - align n xvAlign - xvAlign
      grind

end Take

theorem takeBlock_live : (takeBlock a index n s).live = s.live := splitBlock_live

variable {size : Nat} {page : Option PageId} {s' : State} {obj : Option Addr}

theorem align_le_maxAllocSize (hsize : size ≤ maxAllocSize) : align size xvAlign ≤ maxAllocSize := by
  unfold maxAllocSize pageSize align xvAlign at *
  omega

theorem Inv.findBlock (h : Inv s block) (hsize : size ≤ maxAllocSize) :
    (∃ i a, findBlock size s.pool = .ok (i, some a) ∧ s.pool.freelist i = some a ∧ size ≤ (s.header a).size ∧
      getIndex size < numFreeLists) ∨
      findBlock size s.pool = .ok (0, none) ∧
        ∀ i, getIndex size ≤ i → i < numFreeLists → s.pool.freelist i = none := by
  rcases findBlock_spec h.consistent size with ⟨_, hge⟩ | ⟨i, a, hx, hle, hlt, hhead⟩ | hnone
  · exact absurd (getIndex_word_lt hsize) (Nat.not_lt.mpr hge)
  · obtain ⟨ha, hi⟩ := h.listed.head hhead
    exact .inl ⟨i, a, hx, hhead, size_le_of_index ha.2.2.2 (by rw [hi]; exact hle), Nat.lt_of_le_of_lt hle hlt⟩
  · exact .inr hnone

theorem Inv.take (h : Inv s block) (hhead : s.pool.freelist index = some a) (hn : align n xvAlign ≤ (s.header a).size) :
    ∃ block', Inv { takeBlock a index n s with live := update s.live ⟨a.page, a.offset + xvAlign⟩ (some n) } block' := by
  rcases Nat.lt_or_eq_of_le hn with hlt | heq
  · exact ⟨_, h.takeBlock_part hhead hlt⟩
  · exact ⟨_, h.takeBlock_whole hhead heq.symm⟩

theorem Inv.xvMalloc_cases (h : Inv s block) (size : Nat) (hop : ∀ p, page = some p → s.owned p = false) :
    (size = 0 ∨ maxAllocSize < size) ∧ xvMalloc size page s = .ok (none, s) ∨
    page = none ∧ xvMalloc size page s = .ok (none, s) ∨
    (∃ p, page = some p ∧ xvMalloc size page s = .ok (none, Xvmalloc.addPage p s) ∧
      ∀ i, getIndex (align size xvAlign) ≤ i → i < numFreeLists → (Xvmalloc.addPage p s).pool.freelist i = none) ∨
    ∃ s1 block1 i a, Inv s1 block1 ∧ s1.pool.freelist i = some a ∧ align size xvAlign ≤ (s1.header a).size ∧
      getIndex (align size xvAlign) < numFreeLists ∧
      xvMalloc size page s = .ok (some ⟨a.page, a.offset + xvAlign⟩, takeBlock a i size s1) := by
  unfold xvMalloc
  by_cases hsize : size = 0 ∨ maxAllocSize < size
  · rw [if_pos hsize]
    exact .inl ⟨hsize, rfl⟩
  rw [if_neg hsize]
  rw [not_or, Nat.not_lt] at hsize
  have hle := align_le_maxAllocSize hsize.2
  refine .inr ?_
  rcases h.findBlock hle with ⟨i, a, hx, hhead, hfit, hlt⟩ | ⟨hx, _⟩
  · refine .inr (.inr ⟨s, block, i, a, h, hhead, hfit, hlt, ?_⟩)
    rw [hx, ok_bind]
    rfl
  rw [hx, ok_bind, if_pos rfl]
  cases page with
  | none => exact .inl ⟨rfl, rfl⟩
  | some p =>
    have h1 := h.addPage (hop p rfl)
    simp only [growPool, Option.map_some]
    rcases h1.findBlock hle with ⟨i, a, hx1, hhead, hfit, hlt⟩ | ⟨hx1, hnone1⟩
    · refine .inr (.inr ⟨_, _, i, a, h1, hhead, hfit, hlt, ?_⟩)
      rw [hx1, ok_bind]
      rfl
    · refine .inr (.inl ⟨p, rfl, ?_, hnone1⟩)
      rw [hx1, ok_bind]
      rfl

theorem Inv.malloc (h : Inv s block) (hop : (Op.malloc size page).Permitted s) :
    ∃ o s' block', exec s (.malloc size page) = .ok (o, s') ∧ Inv s' block' := by
  rcases h.xvMalloc_cases size hop with ⟨_, hx⟩ | ⟨_, hx⟩ | ⟨p, hp, hx, _⟩ | ⟨s1, block1, i, a, h1, hhead, hfit, _, hx⟩
  · exact ⟨_, s, block, by rw [exec, hx]; rfl, h⟩
  · exact ⟨_, s, block, by rw [exec, hx]; rfl, h⟩
  · exact ⟨_, _, _, by rw [exec, hx]; rfl, h.addPage (hop p hp)⟩
  · obtain ⟨block', h'⟩ := h1.take hhead hfit
    rw [← takeBlock_live (a := a) (n := size)] at h'
    exact ⟨_, _, block', by rw [exec, hx]; rfl, h'⟩

end G3Mod.Xvmalloc
