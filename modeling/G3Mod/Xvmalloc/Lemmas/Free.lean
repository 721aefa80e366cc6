import G3Mod.Xvmalloc.Lemmas.Malloc

/-!
# Freeing a block
-/

namespace G3Mod.Xvmalloc

open Function Lib

variable {s t : State} {block : PageId → Nat → Prop} {F : Addr → Prop} {a b : Addr} {i lo ub n : Nat} {c : Prop}
  [Decidable c]

/-! ## Fields that stay -/

theorem removeBlock_same : (removeBlock a i s).header = s.header ∧ (removeBlock a i s).owned = s.owned ∧
    (removeBlock a i s).live = s.live := by
  unfold removeBlock
  split <;> exact ⟨rfl, rfl, rfl⟩

@[simp] theorem remove_if_header : (if c then removeBlock a i s else s).header = s.header := by
  grind [removeBlock_same]

@[simp] theorem remove_if_owned : (if c then removeBlock a i s else s).owned = s.owned := by
  grind [removeBlock_same]

@[simp] theorem remove_if_live : (if c then removeBlock a i s else s).live = s.live := by
  grind [removeBlock_same]

/-! ## Merging -/

@[grind =] def Outside (a : Addr) (lo ub : Nat) (b : Addr) : Prop := b.page ≠ a.page ∨ b.offset < lo ∨ ub ≤ b.offset

/-- From `s` on, the blocks of the page of `a` from `lo` up to `ub` have been merged. -/
structure Merged (s : State) (block : PageId → Nat → Prop) (a : Addr) (lo ub : Nat) (t : State) : Prop where
  start : block a.page lo
  stop : ub = pageSize ∨ block a.page ub
  inside : lo ≤ a.offset ∧ a.offset < ub
  free : ∀ i, block a.page i → lo ≤ i → i < ub → i ≠ a.offset → (s.header ⟨a.page, i⟩).free = true
  size : lo + (t.header ⟨a.page, lo⟩).size + xvAlign = ub
  back : SameBack (s.header ⟨a.page, lo⟩) (t.header ⟨a.page, lo⟩)
  header : ∀ b, Outside a lo ub b → t.header b = s.header b
  listed : Listed t fun b => FreeBlock s block b ∧ Outside a lo ub b
  owned : t.owned = s.owned
  live : t.live = s.live

theorem not_outside (hle : lo ≤ i) (hlt : i < ub) : ¬ Outside a lo ub ⟨a.page, i⟩ := by
  grind

theorem outside_cons (hle : lo ≤ i) (hlt : i ≤ ub) :
    Outside a lo ub b ↔ Outside a i ub b ∧ Outside a lo i b := by
  grind

theorem Inv.outside_block (h : Inv s block) (hp : s.owned a.page = true) (hi : block a.page i)
    (hf : FreeBlock s block b) :
    Outside a i (i + headerLen (s.header ⟨a.page, i⟩)) b ↔ b ≠ ⟨a.page, i⟩ := by
  have hpage := h.page _ hp
  have hpos := hpage.tiling.pos hi
  constructor
  · grind
  intro hne
  have := hpage.tiling.gap hi (j := b.offset)
  have := hf.2.1
  grind

theorem Merged.listed_absorb {d : Addr} {k : Header} {lo' ub' : Nat} (hm : Merged s block a lo ub t)
    (hp : s.owned b.page = true) (hb : block b.page b.offset) (hfree : (s.header b).free = true) (hout : Outside a lo ub b)
    (houter : ∀ e, FreeBlock s block e → (Outside a lo' ub' e ↔ e ≠ b ∧ Outside a lo ub e))
    (hd : ¬ Outside a lo' ub' d) :
    Listed (setHeader d k (if minAllocSize ≤ (s.header b).size then
      removeBlock b (getIndexForInsert (s.header b).size) t else t))
      fun e => FreeBlock s block e ∧ Outside a lo' ub' e := by
  have hiff : FreeBlock s block b ∧ Outside a lo ub b ↔ minAllocSize ≤ (s.header b).size :=
    ⟨fun hf => hf.1.2.2.2, fun hmin => ⟨⟨hp, hb, hfree, hmin⟩, hout⟩⟩
  have hl := hm.listed.remove_if hiff
  rw [hm.header b hout] at hl
  refine Listed.setHeader (hl.congr rfl (fun _ _ => rfl) (fun e => ?_) fun _ _ => rfl) fun hf => hd hf.2
  have := houter e
  tauto

theorem releaseBlock_eq (hsize : b.offset + (t.header b).size + xvAlign = ub) :
    releaseBlock b t =
      let t' := setHeader b (setFlag .blockFree (t.header b)) t
      let t' := if minAllocSize ≤ (t.header b).size then insertBlock b t' else t'
      if ub ≠ pageSize then
        setHeader ⟨b.page, ub⟩ (setBlockprev b.offset (setFlag .prevFree (t.header ⟨b.page, ub⟩))) t'
      else t' := by
  have hne : (⟨b.page, ub⟩ : Addr) ≠ b := by grind [xvAlign]
  unfold releaseBlock
  dsimp only
  rw [header_setHeader, size_setFlag, hsize, insert_if_header, header_setHeader_of_ne hne]

theorem releaseBlock_live : (releaseBlock b t).live = t.live := by
  unfold releaseBlock
  dsimp only
  split <;> exact insert_if_live

theorem releaseBlock_header (hsize : b.offset + (t.header b).size + xvAlign = ub) (c : Addr) :
    (releaseBlock b t).header c =
      if c = ⟨b.page, ub⟩ ∧ ub ≠ pageSize then setBlockprev b.offset (setFlag .prevFree (t.header c))
      else if c = b then setFlag .blockFree (t.header b) else t.header c := by
  rw [releaseBlock_eq hsize]
  dsimp only
  split <;> simp only [header_setHeader_apply, insert_if_header] <;> grind

section Used

variable (h : Inv s block) (ha : UsedBlock s block n a)
include h ha

theorem Merged.begin :
    Merged s block a a.offset (a.offset + headerLen (s.header a))
      (setHeader a { s.header a with size := align (s.header a).size xvAlign } s) := by
  obtain ⟨hp, hb, hused, _⟩ := id ha
  have hpage := h.page _ hp
  have hpos : 0 < headerLen (s.header a) := hpage.tiling.pos hb
  have hnot : ¬ FreeBlock s block a := fun hf => Bool.false_ne_true (hused.symm.trans hf.2.2.1)
  refine ⟨hb, ?_, ⟨Nat.le_refl _, by omega⟩, fun i hi hle hlt hne => ?_, ?_, ?_, fun b hout => ?_, ?_, rfl, rfl⟩
  · exact hpage.tiling.next hb
  · exact absurd hi (hpage.tiling.gap hb (Nat.lt_of_le_of_ne hle hne.symm) hlt)
  · change _ + ((setHeader a _ s).header a).size + _ = _
    rw [header_setHeader, headerLen, Nat.add_assoc]
  · change SameBack (s.header a) ((setHeader a _ s).header a)
    rw [header_setHeader]
    exact ⟨rfl, rfl⟩
  · grind
  · refine (h.listed.setHeader hnot).congr rfl (fun _ _ => rfl) (fun b => and_iff_left_of_imp fun hf => ?_) fun _ _ => rfl
    refine (h.outside_block hp hb hf).mpr ?_
    rintro rfl
    exact hnot hf

theorem Merged.next (hm : Merged s block a a.offset ub t) :
    ∃ ub', Merged s block a a.offset ub' (mergeNext a t) ∧
      (block a.page ub' → (s.header ⟨a.page, ub'⟩).free = false) := by
  obtain ⟨hp, hb, _, _⟩ := ha
  have hpage := h.page _ hp
  have hout : Outside a a.offset ub ⟨a.page, ub⟩ := .inr (.inr (Nat.le_refl _))
  have hsize : a.offset + (t.header a).size + xvAlign = ub := hm.size
  unfold mergeNext
  dsimp only
  rw [hsize, remove_if_header, hm.header _ hout]
  by_cases hc : ub ≠ pageSize ∧ testFlag (s.header ⟨a.page, ub⟩) .blockFree = true
  · rw [if_pos hc]
    have hub := hm.stop.resolve_left hc.1
    have hlen : headerLen (s.header ⟨a.page, ub⟩) = (s.header ⟨a.page, ub⟩).size + xvAlign :=
      hpage.headerLen_free hub hc.2
    have hcons : ∀ b, Outside a a.offset (ub + headerLen (s.header ⟨a.page, ub⟩)) b ↔
        Outside a ub (ub + headerLen (s.header ⟨a.page, ub⟩)) b ∧ Outside a a.offset ub b := fun b =>
      outside_cons (Nat.le_of_lt hm.inside.2) (Nat.le_add_right _ _)
    have hnot : ¬ Outside a a.offset (ub + headerLen (s.header ⟨a.page, ub⟩)) a := fun ho =>
      not_outside (Nat.le_refl _) hm.inside.2 ((hcons a).mp ho).2
    refine ⟨ub + headerLen (s.header ⟨a.page, ub⟩), ⟨hb, hpage.tiling.next hub, ⟨Nat.le_refl _, ?_⟩, ?_, ?_, ?_, ?_, ?_, ?_, ?_⟩,
      fun hub' => hpage.apart hub hub' rfl hc.2⟩
    · exact Nat.lt_of_lt_of_le hm.inside.2 (Nat.le_add_right _ _)
    · intro i hi hle hlt hne
      have := hm.free i
      have := hpage.tiling.gap hub (j := i)
      grind
    · grind
    · change SameBack (s.header a) ((setHeader a _ _).header a)
      rw [header_setHeader]
      exact ⟨hm.back.prev, hm.back.prevFree⟩
    · intro b hb'
      rw [header_setHeader_apply, remove_if_header]
      have := hm.header b ((hcons b).mp hb').2
      grind
    · refine hm.listed_absorb hp hub hc.2 hout (fun e hf => ?_) hnot
      rw [hcons, h.outside_block hp hub hf]
    · exact remove_if_owned.trans hm.owned
    · exact remove_if_live.trans hm.live
  · rw [if_neg hc]
    refine ⟨ub, hm, fun hub => ?_⟩
    rw [not_and, Bool.not_eq_true] at hc
    exact hc (Nat.ne_of_lt (hpage.tiling.lt hub))

theorem Merged.prev (hm : Merged s block a a.offset ub t) :
    ∃ lo t', mergePrev a t = .ok (⟨a.page, lo⟩, t') ∧ Merged s block a lo ub t' ∧
      ∀ i, block a.page i → i + headerLen (s.header ⟨a.page, i⟩) = lo → (s.header ⟨a.page, i⟩).free = false := by
  obtain ⟨hp, hb, _, _⟩ := ha
  have hpage := h.page _ hp
  have hprevFree : testFlag (t.header a) .prevFree = testFlag (s.header a) .prevFree := hm.back.prevFree
  have hprev : getBlockprev (t.header a) = getBlockprev (s.header a) := hm.back.prev
  unfold mergePrev
  dsimp only
  rw [hprevFree, hprev]
  by_cases hc : testFlag (s.header a) .prevFree = true
  · rw [if_pos hc]
    have hpos : 0 < a.offset := by
      have := hpage.first.1
      grind
    obtain ⟨i, hi, hend⟩ := hpage.tiling.exists_previous hb hpos
    obtain ⟨hpi, hflag⟩ := hpage.back hi hb hend
    have hpi : getBlockprev (s.header a) = i := hpi
    have hfree : (s.header ⟨a.page, i⟩).free = true := hflag.symm.trans hc
    have hlen : headerLen (s.header ⟨a.page, i⟩) = (s.header ⟨a.page, i⟩).size + xvAlign :=
      hpage.headerLen_free hi hfree
    have hlt : i < a.offset := by
      have := hpage.tiling.pos hi
      omega
    have hout : Outside a a.offset ub ⟨a.page, i⟩ := .inr (.inl hlt)
    have hcons : ∀ b, Outside a i ub b ↔ Outside a a.offset ub b ∧ Outside a i a.offset b := fun b =>
      outside_cons (Nat.le_of_lt hlt) (Nat.le_of_lt hm.inside.2)
    have hnot : ¬ Outside a i ub ⟨a.page, i⟩ := not_outside (Nat.le_refl _) (Nat.lt_trans hlt hm.inside.2)
    rw [hpi, remove_if_header, hm.header _ hout, if_neg]
    · refine ⟨i, _, rfl, ⟨hi, hm.stop, ⟨Nat.le_of_lt hlt, hm.inside.2⟩, ?_, ?_, ?_, ?_, ?_, ?_, ?_⟩, ?_⟩
      · intro j hj hle hlt' hne
        have := hm.free j
        have := hpage.tiling.gap hi (j := j)
        grind
      · have hsize : a.offset + (t.header a).size + xvAlign = ub := hm.size
        rw [header_setHeader]
        dsimp only at hend ⊢
        omega
      · rw [header_setHeader]
        exact ⟨rfl, rfl⟩
      · intro b hb'
        rw [header_setHeader_apply, remove_if_header]
        have := hm.header b ((hcons b).mp hb').1
        grind
      · refine hm.listed_absorb hp hi hfree hout (fun e hf => ?_) hnot
        rw [hcons, and_comm, ← h.outside_block hp hi hf, hend]
      · exact remove_if_owned.trans hm.owned
      · exact remove_if_live.trans hm.live
      · intro j hj hji
        have := hpage.apart hj hi hji
        grind
    · omega
  · rw [if_neg hc]
    refine ⟨a.offset, t, rfl, hm, fun i hi hend => ?_⟩
    have := (hpage.back hi hb hend).2
    exact this.symm.trans (by simpa using hc)

theorem Merged.release (hm : Merged s block a lo ub t)
    (hleft : ∀ i, block a.page i → i + headerLen (s.header ⟨a.page, i⟩) = lo → (s.header ⟨a.page, i⟩).free = false)
    (hright : block a.page ub → (s.header ⟨a.page, ub⟩).free = false) :
    Inv { releaseBlock ⟨a.page, lo⟩ t with live := update t.live ⟨a.page, a.offset + xvAlign⟩ none }
      (update block a.page fun i => block a.page i ∧ (i ≤ lo ∨ ub ≤ i)) := by
  obtain ⟨hp, hb, hused, _⟩ := ha
  have hpage := h.page _ hp
  have hlo : 4 ∣ lo := hpage.aligned hm.start
  have hlt : lo < ub := Nat.lt_of_le_of_lt hm.inside.1 hm.inside.2
  have heq := releaseBlock_eq (b := ⟨a.page, lo⟩) hm.size
  -- the headers after it
  have hheader := releaseBlock_header (b := ⟨a.page, lo⟩) hm.size
  have hlt' := fun {i} hi => hpage.tiling.lt (i := i) hi
  have hself : (releaseBlock ⟨a.page, lo⟩ t).header ⟨a.page, lo⟩ = setFlag .blockFree (t.header ⟨a.page, lo⟩) := by grind
  have hout := hm.header
  have hother : ∀ b, Outside a lo ub b → b ≠ ⟨a.page, ub⟩ → (releaseBlock ⟨a.page, lo⟩ t).header b = s.header b := by
    grind
  have hfree : ((releaseBlock ⟨a.page, lo⟩ t).header ⟨a.page, lo⟩).free = true := by
    rw [hself, Header.free, testFlag_setFlag]
    simp
  have hnext : block a.page ub → (releaseBlock ⟨a.page, lo⟩ t).header ⟨a.page, ub⟩ =
      setBlockprev lo (setFlag .prevFree (s.header ⟨a.page, ub⟩)) := by grind
  have hsame : ∀ i, block a.page i → i < lo ∨ ub ≤ i →
      SameSelf (s.header ⟨a.page, i⟩) ((releaseBlock ⟨a.page, lo⟩ t).header ⟨a.page, i⟩) := fun i hi hout => by
    have := (SameSelf.setPrevFree (s.header ⟨a.page, i⟩)).trans (.setBlockprev _ hlo)
    have := SameSelf.refl (s.header ⟨a.page, i⟩)
    grind
  have howned : (releaseBlock ⟨a.page, lo⟩ t).owned = s.owned := by
    rw [heq]
    dsimp only
    split <;> exact insert_if_owned.trans hm.owned
  have hsize := fun i hi ho => (hsame i hi ho).size
  have hfrees := fun i hi ho => (hsame i hi ho).free
  refine h.change (F := fun b => (FreeBlock s block b ∧ Outside a lo ub b) ∨
    b = ⟨a.page, lo⟩ ∧ minAllocSize ≤ (t.header ⟨a.page, lo⟩).size) (fun _ => ?_) (fun q _ => ?_) (fun b hbp => ?_)
    ?_ ?_ ?_ ?_ ?_
  · have hlen := hpage.merged_len hm.start hm.stop hlt (k := (releaseBlock ⟨a.page, lo⟩ t).header ⟨a.page, lo⟩) (by
      have := hm.size
      rw [hself, size_setFlag]
      unfold xvAlign at this
      omega)
    refine hpage.join hm.start hm.stop hlt (fun _ => hleft) (fun _ => hright) hlen.1 (fun _ => hlen.2) hsame ?_ ?_
    · intro i hi hout
      have := hm.back.trans (.setFree _)
      have := SameBack.refl (s.header ⟨a.page, i⟩)
      grind
    intro hub
    rw [hnext hub, hfree, getBlockprev_setBlockprev hlo, Header.prevFree, testFlag_setBlockprev hlo, testFlag_setFlag]
    simp
  · exact congrFun howned q
  · exact hother b (.inl hbp) (by grind)
  · have hl := (hm.listed.setHeader (a := ⟨a.page, lo⟩) (h := setFlag .blockFree (t.header ⟨a.page, lo⟩)) fun hf =>
      not_outside (Nat.le_refl _) hlt hf.2).insert_if (c := minAllocSize ≤ (t.header ⟨a.page, lo⟩).size)
      fun hf => not_outside (Nat.le_refl _) hlt hf.2
    refine Listed.congr (s := releaseBlock ⟨a.page, lo⟩ t) ?_ rfl (fun _ _ => rfl) (fun _ => Iff.rfl) fun _ _ => rfl
    rw [heq]
    dsimp only
    split
    · exact hl.setHeader (by grind [FreeBlock])
    · exact hl
  · grind
  · intro i
    have := hm.start
    by_cases e : i = lo
    · have := congrArg Header.size hself
      grind
    · clear heq hheader hother hnext
      grind [FreeBlock]
  · intro b hbp
    dsimp only
    rw [update_apply, hm.live]
    grind
  · intro i k
    dsimp only
    rw [howned, hp, eq_self, true_and, hm.live, update_apply]
    have hin := hm.inside
    have hl := h.live ⟨a.page, i⟩ k
    have := hm.free (i - xvAlign)
    clear heq hheader hother hnext
    simp only [UsedBlock] at hl
    by_cases e : i - xvAlign = lo <;> grind

theorem Merged.giveBack (hm : Merged s block a lo ub t) (hsize : (t.header ⟨a.page, lo⟩).size = pageSize - xvAlign) :
    Inv { freePage a.page t with live := update t.live ⟨a.page, a.offset + xvAlign⟩ none }
      (update block a.page (block a.page)) := by
  obtain ⟨hp, hb, _, _⟩ := ha
  have hpage := h.page _ hp
  have hub : ub ≤ pageSize := by
    rcases hm.stop with rfl | hub
    · exact Nat.le_refl _
    · exact Nat.le_of_lt (hpage.tiling.lt hub)
  have hwhole : lo = 0 ∧ ub = pageSize := by
    have := hm.size
    omega
  obtain ⟨rfl, rfl⟩ := hwhole
  have howned : (freePage a.page t).owned a.page = false := update_self _ _ _
  refine h.change (F := fun b => FreeBlock s block b ∧ Outside a 0 pageSize b)
    (fun hp' => absurd (howned.symm.trans hp') Bool.false_ne_true) (fun q hq => ?_) (fun b hbp => ?_) ?_
    (fun b hbp => and_iff_left (.inl hbp)) ?_ ?_ ?_
  · exact (update_of_ne hq _ _).trans (congrFun hm.owned q)
  · exact hm.header b (.inl hbp)
  · exact (hm.listed.totalPages _).congr rfl (fun _ _ => rfl) (fun _ => Iff.rfl) fun _ _ => rfl
  · intro i
    refine ⟨fun hf => ?_, fun hf => absurd (howned.symm.trans hf.1) Bool.false_ne_true⟩
    exact absurd hf.2 (not_outside (Nat.zero_le _) (hpage.tiling.lt hf.1.2.1))
  · intro b hbp
    dsimp only
    rw [update_apply, hm.live]
    grind
  · intro i n
    dsimp only
    rw [howned, hm.live, update_apply]
    have := h.live ⟨a.page, i⟩ n
    have := hm.free (i - xvAlign)
    have := fun hi => hpage.tiling.lt (i := i - xvAlign) hi
    grind [UsedBlock]

theorem Inv.xvFree :
    ∃ t block', xvFree ⟨a.page, a.offset + xvAlign⟩ s = .ok t ∧
      Inv { t with live := update t.live ⟨a.page, a.offset + xvAlign⟩ none } block' := by
  obtain ⟨ub, hnext, hright⟩ := (Merged.begin h ha).next h ha
  obtain ⟨lo, t, hx, hm, hleft⟩ := hnext.prev h ha
  have hused : testFlag (s.header a) .blockFree = false := ha.2.2.1
  unfold Xvmalloc.xvFree
  simp only [Nat.add_sub_cancel, hused, Bool.false_eq_true, if_false, hx, ok_bind]
  split
  · next hsize => exact ⟨_, _, rfl, hm.giveBack h ha hsize⟩
  · have hrel := hm.release h ha hleft hright
    rw [← releaseBlock_live (b := ⟨a.page, lo⟩)] at hrel
    exact ⟨_, _, rfl, hrel⟩

end Used

end G3Mod.Xvmalloc
