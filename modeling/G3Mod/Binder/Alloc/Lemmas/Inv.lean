import G3Mod.Rbtree.Lemmas
import G3Mod.Binder.Alloc.Lemmas.Layout

/-!
# The trees of free and of allocated buffers
-/

namespace G3Mod.Binder.Alloc

open Rbtree

variable {p : Proc} {sz sz' : Nat → Nat} {F F' : Nat → Prop} {t : RbTree Nat} {b : Nat}

/-- The tree holds the buffers with `F`, each once and in the order of `sz`. -/
structure FreeTree (sz : Nat → Nat) (F : Nat → Prop) (t : RbTree Nat) : Prop where
  valid : Valid t
  mem : ∀ b, b ∈ t.inorder ↔ F b
  nodup : t.inorder.Nodup
  sorted : t.inorder.Pairwise fun a c => sz a ≤ sz c

abbrev AllocTree : (Nat → Prop) → RbTree Nat → Prop := FreeTree id

theorem FreeTree.congr (h : FreeTree sz F t) (hsz : ∀ b, F b → sz' b = sz b) (hF : ∀ b, F b ↔ F' b) :
    FreeTree sz' F' t where
  valid := h.valid
  mem b := (h.mem b).trans (hF b)
  nodup := h.nodup
  sorted := by
    refine h.sorted.imp_of_mem ?_
    intro a c ha hc hac
    rw [hsz a ((h.mem a).mp ha), hsz c ((h.mem c).mp hc)]
    exact hac

theorem FreeTree.nil : FreeTree sz (fun _ => False) .nil :=
  ⟨⟨_, .nil⟩, by simp, by simp, by simp⟩

/-! ## Removal -/

theorem mem_erased {pre post : List Nat} {c : Nat} (h : (pre ++ b :: post).Nodup) :
    c ∈ pre ++ post ↔ c ∈ pre ++ b :: post ∧ c ≠ b := by
  grind

theorem FreeTree.erase (h : FreeTree sz F t) (hb : F b) :
    ∃ t', rbErase b t = some t' ∧ FreeTree sz (fun c => F c ∧ c ≠ b) t' := by
  obtain ⟨t', ht, hv, pre, post, hpre, hpost⟩ := rbErase_spec h.valid ((h.mem b).mpr hb)
  have hsub : t'.inorder.Sublist t.inorder := by
    rw [hpre, hpost]
    simp
  refine ⟨t', ht, hv, ?_, h.nodup.sublist hsub, h.sorted.sublist hsub⟩
  intro c
  rw [hpost, mem_erased (hpre ▸ h.nodup), ← hpre, h.mem]

theorem FreeTree.eraseFree (h : FreeTree sz F p.freeBuffers) (hb : F b) :
    ∃ t, eraseFree b p = .ok { p with freeBuffers := t } ∧ FreeTree sz (fun c => F c ∧ c ≠ b) t := by
  obtain ⟨t, ht, herased⟩ := h.erase hb
  exact ⟨t, by simp only [Alloc.eraseFree, ht]; rfl, herased⟩

theorem FreeTree.eraseAllocated (h : AllocTree F p.allocatedBuffers) (hb : F b) :
    ∃ t, eraseAllocated b p = .ok { p with allocatedBuffers := t } ∧ AllocTree (fun c => F c ∧ c ≠ b) t := by
  obtain ⟨t, ht, herased⟩ := h.erase hb
  exact ⟨t, by simp only [Alloc.eraseAllocated, ht]; rfl, herased⟩

theorem FreeTree.insertAt (side : Nat → Except Bug Side) (h : FreeTree sz F t) (hb : ¬ F b)
    (hside : ∀ c, F c → side c = .ok (if sz b < sz c then .left else .right)) :
    ∃ path t', descend side t [] = .ok path ∧ rbInsert path b = some t' ∧ FreeTree sz (fun c => F c ∨ c = b) t' := by
  have hmono : t.inorder.Pairwise fun a c =>
      (if sz b < sz a then Side.left else .right) = .left → (if sz b < sz c then Side.left else .right) = .left := by
    refine h.sorted.imp ?_
    intro a c hac ha
    simp only [ite_eq_left_iff, reduceCtorEq, imp_false, not_not] at ha ⊢
    omega
  obtain ⟨path, t', L, R, hpath, ht, hv, hold, hnew, hL, hR⟩ :=
    descend_rbInsert b h.valid (fun c hc => hside c ((h.mem c).mp hc)) hmono
  have hLle : ∀ c ∈ L, sz c ≤ sz b := by grind
  have hRle : ∀ c ∈ R, sz b ≤ sz c := by grind
  have hperm : t'.inorder.Perm (b :: t.inorder) := by
    rw [hnew, hold]
    exact List.perm_middle
  refine ⟨path, t', hpath, ht, hv, ?_, ?_, ?_⟩
  · intro c
    rw [hperm.mem_iff, List.mem_cons, h.mem, or_comm]
  · rw [hperm.nodup_iff, List.nodup_cons, h.mem]
    exact ⟨hb, h.nodup⟩
  · rw [hnew]
    exact Lib.pairwise_insert (hold ▸ h.sorted) hLle hRle

theorem FreeTree.insert (h : FreeTree (binderBufferSize p) F p.freeBuffers)
    (hF : ∀ c, F c → p.free c = true) (hb : ¬ F b) (hfree : p.free b = true) :
    ∃ t, binderInsertFreeBuffer b p = .ok { p with freeBuffers := t } ∧
      FreeTree (binderBufferSize p) (fun c => F c ∨ c = b) t := by
  obtain ⟨path, t, hpath, ht, hinserted⟩ := h.insertAt (freeSide p (binderBufferSize p b)) hb (by
    intro c hc
    simp only [freeSide, hF c hc, Bool.not_true, Bool.false_eq_true, if_false]
    split <;> rfl)
  exact ⟨t, by simp [binderInsertFreeBuffer, hfree, hpath, ht, ofTree], hinserted⟩

theorem FreeTree.insertAllocated (h : AllocTree F p.allocatedBuffers) (hF : ∀ c, F c → p.free c = false)
    (hb : ¬ F b) (hfree : p.free b = false) :
    ∃ t, binderInsertAllocatedBuffer b p = .ok { p with allocatedBuffers := t } ∧
      AllocTree (fun c => F c ∨ c = b) t := by
  obtain ⟨path, t, hpath, ht, hinserted⟩ := h.insertAt (allocatedSide p b) hb (by
    intro c hc
    grind [allocatedSide])
  exact ⟨t, by simp [binderInsertAllocatedBuffer, hfree, hpath, ht, ofTree], hinserted⟩

theorem bestFit_spec (size : Nat) : ∀ (t : RbTree Nat) (best : Option Nat),
    (∀ c ∈ t.inorder, p.free c = true) →
    ∃ r exact, bestFit p size t best = .ok (r, exact) ∧
      ∀ b, r = some b → (b ∈ t.inorder ∧
        (exact = true → binderBufferSize p b = size) ∧ (exact = false → size < binderBufferSize p b)) ∨
        (best = some b ∧ exact = false)
  | .nil, best, _ => ⟨best, false, rfl, fun b hb => .inr ⟨hb, rfl⟩⟩
  | .node c l d r, best, h => by
      have hd := h d (by simp)
      simp only [bestFit, hd, Bool.not_true, Bool.false_eq_true, if_false]
      split
      · rename_i hlt
        obtain ⟨s, exact, hs, hspec⟩ := bestFit_spec size l (some d) fun c hc => h c (by simp [hc])
        refine ⟨s, exact, hs, ?_⟩
        intro b hb
        rcases hspec b hb with ⟨hm, hsz⟩ | ⟨hbd, hex⟩
        · exact .inl ⟨by simp [hm], hsz⟩
        · simp_all
      split
      · obtain ⟨s, exact, hs, hspec⟩ := bestFit_spec size r best fun c hc => h c (by simp [hc])
        refine ⟨s, exact, hs, ?_⟩
        intro b hb
        rcases hspec b hb with ⟨hm, hsz⟩ | hbest
        · exact .inl ⟨by simp [hm], hsz⟩
        · exact .inr hbest
      refine ⟨some d, true, rfl, ?_⟩
      rintro b hb
      cases hb
      exact .inl ⟨by simp, fun _ => by omega, nofun⟩

/-! # The invariant of the allocator

One buffer, which is named, may be in transit between the two trees. -/

def charge (p : Proc) (b : Nat) : Nat :=
  if !p.free b && (p.header b).asyncTransaction then
    align (p.header b).dataSize + align (p.header b).offsetsSize + headerSize
  else 0

/-- The invariant, with `x` the buffer in transit: it is in neither tree, and it may have free
neighbours. -/
structure Inv (x : Option Nat) (p : Proc) : Prop where
  aligned : Aligned p
  small : p.bufferSize ≤ 2 ^ 22
  spaced : Spaced p.buffer p.areaEnd p.buffers
  apart : Apart x p.buffers p.free
  pages : Covers p.firstPage (Used p.areaEnd p.buffers p.free) p.pages
  freeTree : FreeTree (binderBufferSize p) (fun b => b ∈ p.buffers ∧ p.free b = true ∧ x ≠ some b)
    p.freeBuffers
  allocTree : AllocTree (fun b => b ∈ p.buffers ∧ p.free b = false ∧ x ≠ some b) p.allocatedBuffers
  fits : ∀ b, Live p b →
    align (p.header b).dataSize + align (p.header b).offsetsSize ≤ binderBufferSize p b
  async : p.freeAsyncSpace + (p.buffers.map (charge p)).sum = p.bufferSize / 2

variable {p p' : Proc} {x : Option Nat} {b c n q : Nat} {pre post : List Nat}

/-! ## Headers -/

@[simp] theorem Proc.setHeader_header_self {h : Header} : (p.setHeader b h).header b = h :=
  Function.update_self ..

theorem Proc.setHeader_header_other {h : Header} (hc : c ≠ b) : (p.setHeader b h).header c = p.header c :=
  Function.update_of_ne hc ..

@[simp] theorem Proc.setFree_free_self {v : Bool} : (p.setFree b v).free b = v := by
  simp [Proc.setFree, Proc.free]

theorem Proc.setFree_free_other {v : Bool} (hc : c ≠ b) : (p.setFree b v).free c = p.free c := by
  simp [Proc.setFree, Proc.free, Proc.setHeader_header_other hc]

theorem charge_free (h : p.free b = true) : charge p b = 0 := by
  simp [charge, h]

theorem charge_congr (h : p'.header b = p.header b) : charge p' b = charge p b := by
  simp [charge, Proc.free, h]

theorem Inv.bufferSize_eq (h : Inv x p) (hb : b ∈ p.buffers) :
    data b + binderBufferSize p b = p.dataEnd b := by
  have := h.spaced.data_le_endOf hb
  change data b ≤ p.dataEnd b at this
  unfold binderBufferSize
  omega

theorem Inv.bufferSize_le (h : Inv x p) (hb : b ∈ p.buffers) :
    binderBufferSize p b ≤ p.bufferSize := by
  have h1 := h.bufferSize_eq hb
  have h2 := h.spaced.endOf_le_end (b := b)
  have h3 := h.spaced.start_le hb
  change p.dataEnd b ≤ p.buffer + p.bufferSize at h2
  rw [data_eq] at h1
  omega

theorem Aligned.areaEnd_eq (h : Aligned p) : p.areaEnd = 4096 * (p.firstPage + pageCount p) := by
  unfold Proc.areaEnd
  rw [h.buffer, h.bufferSize]
  exact (Nat.mul_add ..).symm

theorem Aligned.used_dataEnd (h : Aligned p) (hb : p.dataEnd b % 4096 ≠ 0) :
    Used p.areaEnd p.buffers p.free (p.dataEnd b) := by
  refine used_endOf ?_
  intro he
  change p.dataEnd b = _ at he
  rw [he, h.areaEnd_eq] at hb
  omega

theorem Inv.insertFree (h : Inv (some b) p) (hb : b ∈ p.buffers) (hf : p.free b = true)
    (ha : Apart none p.buffers p.free) : ∃ p', binderInsertFreeBuffer b p = .ok p' ∧ Inv none p' := by
  obtain ⟨t, ht, hft⟩ := h.freeTree.insert (b := b) (fun c hc => hc.2.1) (fun hc => hc.2.2 rfl) hf
  refine ⟨_, ht, ⟨h.aligned.buffer, h.aligned.bufferSize⟩, h.small, h.spaced, ha, h.pages, ?_, ?_, h.fits, h.async⟩
  · refine hft.congr (fun _ _ => rfl) ?_
    intro c
    change _ ↔ c ∈ p.buffers ∧ p.free c = true ∧ _
    grind
  refine h.allocTree.congr (fun _ _ => rfl) ?_
  intro c
  change _ ↔ c ∈ p.buffers ∧ p.free c = false ∧ _
  grind

theorem binderDeleteFreeBuffer_eq (ha : Aligned p) (hl : p.buffers = pre ++ q :: b :: post)
    (hs : Spaced p.buffer p.areaEnd p.buffers)
    (hp : Covers p.firstPage (Used p.areaEnd p.buffers p.free) p.pages) (hq : p.free q = true)
    (hb : p.free b = true) :
    ∃ pages, binderDeleteFreeBuffer b p = .ok { p with buffers := pre ++ q :: post, pages := pages } ∧
      Covers p.firstPage (Used p.areaEnd (pre ++ q :: post) p.free) pages := by
  have hmb : b ∈ p.buffers := by rw [hl]; simp
  have hmq : q ∈ p.buffers := by rw [hl]; simp
  have hsl := hl ▸ hs
  have hprev : prev b p.buffers = some q := by rw [hl]; exact prev_self hsl.nodup
  have herase : p.buffers.erase b = pre ++ q :: post := by rw [hl]; exact erase_after hsl.nodup
  have hqb : data q ≤ b := by
    have := hsl.data_le_endOf (b := q) (by simp)
    rwa [(endOf_inserted hsl.nodup).1] at this
  have gap : HeaderGap (Used p.areaEnd p.buffers p.free) (Used p.areaEnd (pre ++ q :: post) p.free) q b
      (next b p.buffers) :=
    { removed := fun y => by rw [hl]; exact hsl.used_remove hq hb
      before := hqb
      after := fun m hm => hs.endOf_of_next hmb hm
      header := fun y h1 h2 => ⟨b, hmb, .inl ⟨h1, h2⟩⟩
      last := used_last hmq
      next := fun m hm => used_next hm
      gap := fun y hy => by rw [hl]; exact hsl.used_gap hq hy }
  simp only [binderDeleteFreeBuffer, hprev, hq, Bool.not_true, Bool.false_eq_true, if_false, herase]
  split
  · rename_i hfree
    have hbe := hs.inside b hmb
    have hbs := hs.start_le hmb
    rw [data_eq, ha.areaEnd_eq] at hbe
    rw [ha.buffer] at hbs
    have hrange := unmapPageRange_eq (p := { p with buffers := pre ++ q :: post })
      (s := if freePageStart q b (next b p.buffers) then b / 4096 else (b + 39) / 4096)
      (e := (if freePageEnd q b (next b p.buffers) then (b + 39) / 4096 else b / 4096) + 1)
      ⟨ha.buffer, ha.bufferSize⟩ (by
        change p.firstPage ≤ _
        split <;> omega) (by
        change _ ≤ p.firstPage + pageCount p
        split <;> omega) (fun _ => gap.mapped hp hfree)
    have hstart : (if freePageStart q b (next b p.buffers) then bufferStartPage b else bufferEndPage b) =
        4096 * (if freePageStart q b (next b p.buffers) then b / 4096 else (b + 39) / 4096) := by
      split <;> exact pageMask_eq _
    have hend : (if freePageEnd q b (next b p.buffers) then bufferEndPage b else bufferStartPage b) + pageSize =
        4096 * ((if freePageEnd q b (next b p.buffers) then (b + 39) / 4096 else b / 4096) + 1) := by
      congr 1
      split <;> exact pageMask_eq _
    refine ⟨_, ?_, gap.unmapHeader hp hfree⟩
    rw [hstart, hend, hrange]
    rfl
  · rename_i hfree
    exact ⟨p.pages, rfl, gap.keepHeader hp hfree⟩

theorem Inv.joined (h : Inv x p) (hl : p.buffers = pre ++ q :: b :: post) (hq : p.free q = true)
    (hb : p.free b = true) {pages : Nat → Bool} {t : RbTree Nat}
    (hp : Covers p.firstPage (Used p.areaEnd (pre ++ q :: post) p.free) pages)
    (ht : FreeTree (binderBufferSize p) (fun c => c ∈ p.buffers ∧ p.free c = true ∧ c ≠ q ∧ c ≠ b) t)
    (ha : Apart (some q) (pre ++ q :: post) p.free) (hx : x = some q ∨ x = some b) :
    Inv (some q) { p with buffers := pre ++ q :: post, pages := pages, freeBuffers := t } := by
  have hsl := hl ▸ h.spaced
  have hnotb := notMem_insert hsl.nodup
  have hsize : ∀ c, c ≠ q → c ≠ b →
      binderBufferSize { p with buffers := pre ++ q :: post, pages := pages, freeBuffers := t } c
        = binderBufferSize p c := by
    intro c hcq hcb
    change endOf p.areaEnd (pre ++ q :: post) c - data c = endOf p.areaEnd p.buffers c - data c
    rw [hl, endOf_insert hcq hcb]
  have hmem : ∀ c, c ≠ b → (c ∈ p.buffers ↔ c ∈ pre ++ q :: post) := by
    intro c hcb
    rw [hl, mem_insert]
    simp [hcb]
  have hused : ∀ c, p.free c = false → c ≠ q ∧ c ≠ b := by grind
  refine ⟨⟨h.aligned.buffer, h.aligned.bufferSize⟩, h.small, hsl.remove, ha, hp, ?_, ?_, ?_, ?_⟩
  · refine ht.congr (fun c hc => hsize c hc.2.2.1 hc.2.2.2) ?_
    intro c
    change _ ↔ c ∈ pre ++ q :: post ∧ p.free c = true ∧ _
    grind
  · refine h.allocTree.congr (fun _ _ => rfl) ?_
    intro c
    change _ ↔ c ∈ pre ++ q :: post ∧ p.free c = false ∧ _
    grind
  · rintro c ⟨hc, hf⟩
    obtain ⟨hcq, hcb⟩ := hused c hf
    rw [hsize c hcq hcb]
    exact h.fits c ⟨(hmem c hcb).mpr hc, hf⟩
  · have hasync := h.async
    rw [hl] at hasync
    simp only [List.map_append, List.map_cons, List.sum_append, List.sum_cons, charge_free hb, Nat.zero_add]
      at hasync
    simp only [List.map_append, List.map_cons, List.sum_append, List.sum_cons]
    exact hasync

theorem mergeNext_inv (h : Inv (some b) p) (hb : b ∈ p.buffers) (hf : p.free b = true) :
    ∃ p', mergeNext b p = .ok p' ∧ Inv (some b) p' ∧ b ∈ p'.buffers ∧ p'.free b = true ∧
      ∀ c, next b p'.buffers = some c → p'.free c = false := by
  unfold mergeNext
  cases hn : next b p.buffers with
  | none => exact ⟨p, rfl, h, hb, hf, by rw [hn]; exact nofun⟩
  | some n =>
    cases hfn : p.free n with
    | false => simp [*]
    | true =>
      obtain ⟨pre, post, hl⟩ := next_eq_some hn
      have hnd := hl ▸ h.spaced.nodup
      have hnb : n ≠ b := by
        rintro rfl
        exact notMem_insert hnd (by simp)
      obtain ⟨t, ht, hft⟩ := h.freeTree.eraseFree (b := n)
        ⟨by rw [hl]; simp, hfn, fun he => hnb (Option.some.inj he).symm⟩
      obtain ⟨pages, hdel, hcov⟩ := binderDeleteFreeBuffer_eq (p := { p with freeBuffers := t })
        ⟨h.aligned.buffer, h.aligned.bufferSize⟩ hl h.spaced h.pages hf hfn
      have hap := (hl ▸ h.apart).joinNext hnd hfn
      simp only [hfn, if_true, ht, Lib.ok_bind, hdel]
      refine ⟨_, rfl, h.joined hl hf hfn hcov ?_ hap.1 (.inl rfl), by simp, hf, hap.2⟩
      refine hft.congr (fun _ _ => rfl) ?_
      intro c
      grind

theorem mergePrev_inv (h : Inv (some b) p) (hb : b ∈ p.buffers) (hf : p.free b = true)
    (hnext : ∀ c, next b p.buffers = some c → p.free c = false) :
    ∃ r p', mergePrev b p = .ok (r, p') ∧ Inv (some r) p' ∧ r ∈ p'.buffers ∧ p'.free r = true ∧
      Apart none p'.buffers p'.free := by
  unfold mergePrev
  cases hq : prev b p.buffers with
  | none =>
    exact ⟨b, p, rfl, h, hb, hf, h.apart.done h.spaced.nodup (by rw [hq]; exact nofun) hnext⟩
  | some q =>
    cases hfq : p.free q with
    | false =>
      refine ⟨b, p, by simp only [hfq]; rfl, h, hb, hf, h.apart.done h.spaced.nodup ?_ hnext⟩
      intro c hc
      cases hq.symm.trans hc
      exact hfq
    | true =>
      obtain ⟨pre, post, hl⟩ := prev_eq_some hq
      have hnd := hl ▸ h.spaced.nodup
      have hqb : q ≠ b := by
        rintro rfl
        exact notMem_insert hnd (by simp)
      obtain ⟨pages, hdel, hcov⟩ := binderDeleteFreeBuffer_eq h.aligned hl h.spaced h.pages hfq hf
      obtain ⟨t, ht, hft⟩ := FreeTree.eraseFree
        (p := { p with buffers := pre ++ q :: post, pages := pages }) h.freeTree (b := q)
        ⟨by rw [hl]; simp, hfq, fun he => hqb (Option.some.inj he).symm⟩
      have hap := (hl ▸ h.apart).joinPrev hnd hfq (by rw [← hl]; exact hnext)
      simp only [hfq, if_true, hdel, Lib.ok_bind, ht]
      refine ⟨q, _, rfl, h.joined hl hfq hf hcov ?_ ?_ (.inr rfl), by simp, hfq, hap⟩
      · grind
      · intro a c hac h1 h2
        rcases hap a c hac h1 h2 with h3 | h3 <;> cases h3

end G3Mod.Binder.Alloc
