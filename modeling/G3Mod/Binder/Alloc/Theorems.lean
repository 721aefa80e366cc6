import G3Mod.Binder.Alloc.Lemmas.Take

/-!
# The buffer allocator over whole runs
-/

namespace G3Mod.Binder.Alloc

open Lib Rbtree

variable {p : Proc} {b : Nat}

/-! ## The first state -/

theorem Inv.single (ha : Aligned p) (hsmall : p.bufferSize ≤ 2 ^ 22) (hcount : 0 < pageCount p)
    (hbuffers : p.buffers = [p.buffer]) (hf : p.free p.buffer = true)
    (hpages : ∀ i, p.pages i = true ↔ i = 0)
    (hft : FreeTree (binderBufferSize p) (fun c => False ∨ c = p.buffer) p.freeBuffers)
    (hat : AllocTree (fun _ => False) p.allocatedBuffers) (hasync : p.freeAsyncSpace = p.bufferSize / 2) :
    Inv none p := by
  have hend := ha.areaEnd_eq
  have hbase := ha.buffer
  have hnone : ∀ c, c ∈ p.buffers → p.free c = false → False := by simp_all
  refine ⟨ha, hsmall, ⟨by rw [hbuffers]; rfl, by rw [hbuffers]; simp, ?_⟩, ?_, ?_, ?_, ?_, ?_, ?_⟩
  · intro c hc
    rw [hbuffers, List.mem_singleton] at hc
    rw [hc, data_eq, hend, hbase]
    omega
  · intro a c hac
    rw [hbuffers] at hac
    simp [next] at hac
  · intro i
    rw [hpages i]
    constructor
    · rintro rfl
      exact ⟨p.buffer, ⟨p.buffer, by rw [hbuffers]; simp, .inl (by rw [data_eq]; omega)⟩, by omega⟩
    rintro ⟨x, ⟨c, hc, hx | hx⟩, hxi⟩
    · rw [hbuffers, List.mem_singleton] at hc
      rw [hc, data_eq] at hx
      omega
    · exact (hnone c hc hx.1).elim
  · grind
  · exact hat.congr (fun _ _ => rfl) fun c => ⟨False.elim, fun hc => hnone c hc.1 hc.2.1⟩
  · exact fun c hc => (hnone c hc.1 hc.2).elim
  · rw [hbuffers, hasync, List.map_singleton, List.sum_singleton, charge_free hf, Nat.add_zero]

theorem mmap_pages {k n : Nat} (env : PageEnv) (memory : Nat → Header) (hn : 0 < n) :
    (∃ pages : Nat → Bool, mapPageRange env (4096 * k) (4096 * k + pageSize) true
        (unmapped memory (4096 * k) (4096 * n))
          = .ok (true, { unmapped memory (4096 * k) (4096 * n) with pages := pages }) ∧
        ∀ i, pages i = true ↔ i = 0) ∨
      mapPageRange env (4096 * k) (4096 * k + pageSize) true (unmapped memory (4096 * k) (4096 * n))
        = .ok (false, unmapped memory (4096 * k) (4096 * n)) := by
  have hfirst : (unmapped memory (4096 * k) (4096 * n)).firstPage = k :=
    Nat.mul_div_cancel_left k (by decide)
  have hcount : pageCount (unmapped memory (4096 * k) (4096 * n)) = n :=
    Nat.mul_div_cancel_left n (by decide)
  have hmap := mapPageRange_eq (p := unmapped memory (4096 * k) (4096 * n)) env true (s := k) (e := k + 1)
    ⟨by rw [hfirst]; rfl, by rw [hcount]; rfl⟩ hfirst.le (by rw [hfirst, hcount]; omega) fun _ _ _ => rfl
  refine hmap.imp_left fun hmap => ⟨_, hmap, ?_⟩
  intro i
  split
  · exact ⟨fun _ => by omega, fun _ => rfl⟩
  · exact ⟨nofun, fun hi => by omega⟩

theorem binderMmap_inv {buffer bufferSize : Nat} (env : PageEnv) (memory : Nat → Header)
    (h : ValidArea buffer bufferSize) :
    binderMmap env memory buffer bufferSize = .ok none ∨
      ∃ p, binderMmap env memory buffer bufferSize = .ok (some p) ∧ Inv none p := by
  obtain ⟨k, rfl⟩ := h.buffer_dvd
  obtain ⟨n, rfl⟩ := h.size_dvd
  have hn : 0 < n := Nat.pos_of_mul_pos_left h.size_pos
  have hsize := h.size_le
  rw [pageSize_eq] at hsize ⊢
  unfold binderMmap
  rcases mmap_pages (k := k) env memory hn with ⟨pages, hmap, hpages⟩ | hmap
  · right
    obtain ⟨t, ht, hft⟩ := FreeTree.insert (b := 4096 * k) (F := fun _ => False)
      (p := ({ unmapped memory (4096 * k) (4096 * n) with
        pages := pages, buffers := [4096 * k] }).setFree (4096 * k) true)
      FreeTree.nil nofun nofun Proc.setFree_free_self
    rw [hmap, ok_bind]
    simp only [ht, ok_bind]
    have hfirst : 4096 * k / pageSize = k := Nat.mul_div_cancel_left k (by decide)
    have hcount : 4096 * n / pageSize = n := Nat.mul_div_cancel_left n (by decide)
    refine ⟨_, rfl, Inv.single ⟨?_, ?_⟩ hsize ?_ rfl Proc.setFree_free_self hpages hft .nil rfl⟩
    · exact congrArg (4096 * ·) hfirst.symm
    · exact congrArg (4096 * ·) hcount.symm
    · exact Nat.lt_of_lt_of_eq hn hcount.symm
  · rw [hmap, ok_bind]
    exact .inl rfl

/-! ## Every run -/

theorem Inv.markTransaction (h : Inv none p) (v : Bool) : Inv none (setTransaction b v p) := by
  have hfree : (setTransaction b v p).free = p.free := by
    funext c
    by_cases hc : c = b
    · rw [hc]
      unfold Proc.free setTransaction
      rw [Proc.setHeader_header_self]
    · exact Proc.free_congr (Proc.setHeader_header_other hc)
  have hheader : ∀ c, align ((setTransaction b v p).header c).dataSize +
      align ((setTransaction b v p).header c).offsetsSize =
        align (p.header c).dataSize + align (p.header c).offsetsSize ∧
      charge (setTransaction b v p) c = charge p c := by
    intro c
    by_cases hc : c = b
    · subst hc
      have hself : (setTransaction c v p).header c = { p.header c with transaction := v } :=
        Proc.setHeader_header_self
      unfold charge
      rw [hfree, hself]
      exact ⟨rfl, rfl⟩
    have hother : (setTransaction b v p).header c = p.header c := Proc.setHeader_header_other hc
    unfold charge
    rw [hfree, hother]
    exact ⟨rfl, rfl⟩
  refine ⟨⟨h.aligned.buffer, h.aligned.bufferSize⟩, h.small, h.spaced, by rw [hfree]; exact h.apart,
    by rw [hfree]; exact h.pages, by rw [hfree]; exact h.freeTree, by rw [hfree]; exact h.allocTree, ?_, ?_⟩
  · rintro c ⟨hc, hfc⟩
    rw [(hheader c).1]
    rw [hfree] at hfc
    exact h.fits c ⟨hc, hfc⟩
  · rw [show charge (setTransaction b v p) = charge p from funext fun c => (hheader c).2]
    exact h.async

theorem exec_inv (h : Inv none p) {op : Op} (hop : op.Permitted p) :
    ∃ r p', exec p op = .ok (r, p') ∧ Inv none p' := by
  cases op with
  | alloc env junk dataSize offsetsSize isAsync =>
    obtain ⟨r, p', hr, hinv⟩ := binderAllocBuf_inv (o := offsetsSize) isAsync h hop.1 env junk
    cases r with
    | none => exact ⟨none, p', by simp only [exec, hr, ok_bind], hinv⟩
    | some b => exact ⟨some b, setTransaction b true p', by simp only [exec, hr, ok_bind], hinv.markTransaction true⟩
  | free b =>
    have hfree : (setTransaction b false p).free b = false :=
      (congrArg Header.free Proc.setHeader_header_self).trans hop.2
    obtain ⟨p', hp', hinv⟩ := binderFreeBuf_inv (h.markTransaction false) (b := b) ⟨hop.1, hfree⟩
      (congrArg Header.transaction Proc.setHeader_header_self)
    exact ⟨none, p', by simp only [exec, hp', ok_bind], hinv⟩
  | vmaClose =>
    exact ⟨none, _, rfl, ⟨h.aligned.buffer, h.aligned.bufferSize⟩, h.small, h.spaced, h.apart, h.pages,
      h.freeTree, h.allocTree, h.fits, h.async⟩

theorem machine_inductive : machine.Inductive (Inv none) where
  init := by
    rintro p ⟨env, memory, buffer, bufferSize, hv, hp⟩
    rcases binderMmap_inv env memory hv with hnone | ⟨p', hp', hinv⟩
    · rw [hnone] at hp
      cases hp
    · rw [hp'] at hp
      cases hp
      exact hinv
  step h hop := exec_inv h hop

/-- From the address `a` on, the buffers of the list follow each other, header and data, to the end of the
area. -/
def TilesFrom (p : Proc) : Nat → List Nat → Prop
  | a, [] => a = p.areaEnd
  | a, b :: l => b = a ∧ TilesFrom p (data b + binderBufferSize p b) l

structure Consistent (p : Proc) : Prop where
  tiles : TilesFrom p p.buffer p.buffers
  apart : ∀ a c, next a p.buffers = some c → ¬ (p.free a = true ∧ p.free c = true)
  freeMem : ∀ b, b ∈ p.freeBuffers.inorder ↔ b ∈ p.buffers ∧ p.free b = true
  freeNodup : p.freeBuffers.inorder.Nodup
  freeSorted : p.freeBuffers.inorder.Pairwise fun a c => binderBufferSize p a ≤ binderBufferSize p c
  allocatedMem : ∀ b, b ∈ p.allocatedBuffers.inorder ↔ Live p b
  allocatedSorted : p.allocatedBuffers.inorder.Pairwise (· < ·)
  fits : ∀ b, Live p b →
    align (p.header b).dataSize + align (p.header b).offsetsSize ≤ binderBufferSize p b
  async : p.freeAsyncSpace + (p.buffers.map (charge p)).sum = p.bufferSize / 2

theorem Inv.tilesFrom {x : Option Nat} (h : Inv x p) : ∀ {pre post : List Nat} {b : Nat},
    p.buffers = pre ++ b :: post → TilesFrom p b (b :: post)
  | pre, [], b, hl => by
      refine ⟨rfl, ?_⟩
      have hend : p.dataEnd b = p.areaEnd := by
        unfold Proc.dataEnd
        rw [hl, next_self (hl ▸ h.spaced).notMem_pre]
        rfl
      exact (h.bufferSize_eq (by rw [hl]; simp)).trans hend
  | pre, c :: post, b, hl => by
      have hend : p.dataEnd b = c := by
        unfold Proc.dataEnd
        rw [hl, next_self (hl ▸ h.spaced).notMem_pre]
        rfl
      refine ⟨rfl, ?_⟩
      rw [h.bufferSize_eq (by rw [hl]; simp), hend]
      exact Inv.tilesFrom h (show p.buffers = (pre ++ [b]) ++ c :: post by simpa using hl)

theorem Inv.consistent (h : Inv none p) : Consistent p where
  tiles := by
    have hfirst := h.spaced.first
    cases hl : p.buffers with
    | nil =>
      rw [hl] at hfirst
      cases hfirst
    | cons b l =>
      rw [hl] at hfirst
      cases hfirst
      exact h.tilesFrom (show p.buffers = [] ++ p.buffer :: l from hl)
  apart a c hac := by
    rintro ⟨ha, hc⟩
    rcases h.apart a c hac ha hc with h | h <;> cases h
  freeMem b := (h.freeTree.mem b).trans ⟨fun hb => ⟨hb.1, hb.2.1⟩, fun hb => ⟨hb.1, hb.2, nofun⟩⟩
  freeNodup := h.freeTree.nodup
  freeSorted := h.freeTree.sorted
  allocatedMem b := (h.allocTree.mem b).trans ⟨fun hb => ⟨hb.1, hb.2.1⟩, fun hb => ⟨hb.1, hb.2, nofun⟩⟩
  allocatedSorted := (h.allocTree.sorted.and h.allocTree.nodup).imp fun hac => Nat.lt_of_le_of_ne hac.1 hac.2
  fits := h.fits
  async := h.async

/-- From `binder_mmap` on, the allocator is consistent and no call runs into a `BUG`. -/
theorem allocator_consistent :
    (∀ env memory buffer bufferSize, ValidArea buffer bufferSize →
      ∃ r, binderMmap env memory buffer bufferSize = .ok r) ∧
    ∀ p, machine.Reachable p → Consistent p ∧ ∀ op : Op, op.Permitted p → ∃ r, exec p op = .ok r := by
  refine ⟨?_, ?_⟩
  · intro env memory buffer bufferSize h
    rcases binderMmap_inv env memory h with hnone | ⟨p, hp, -⟩
    · exact ⟨none, hnone⟩
    · exact ⟨some p, hp⟩
  intro p h
  refine ⟨(machine_inductive.reachable h).consistent, ?_⟩
  intro op hop
  obtain ⟨o, u, hx⟩ := machine_inductive.safe h hop
  exact ⟨(o, u), hx⟩

def sampleEnv : PageEnv := ⟨true, fun _ => .mapped⟩

def sampleHeader : Header := ⟨false, false, false, 0, 0⟩

theorem sampleRun_reachable :
    ∃ p, machine.Reachable p ∧ p.buffers = [65536, 65684, 70724] ∧ p.pages 1 = true := by
  have harea : ValidArea 65536 8192 := ⟨by decide, by decide, by decide, by decide, by decide⟩
  have h0 : machine.Reachable _ := .init ⟨sampleEnv, fun _ => sampleHeader, 65536, 8192, harea, rfl⟩
  have h1 := h0.step (l := Op.alloc sampleEnv sampleHeader 100 8 true) ⟨by decide, by decide⟩ rfl
  have h2 := h1.step (l := Op.alloc sampleEnv sampleHeader 5000 0 false) ⟨by decide, by decide⟩ rfl
  have h3 := h2.step (l := Op.free 65536) ⟨by decide, by decide⟩ rfl
  exact ⟨_, h3, by decide, by decide⟩

theorem sampleRun_consistent :
    ∃ p, machine.Reachable p ∧ p.buffers = [65536, 65684, 70724] ∧ Consistent p := by
  obtain ⟨p, hp, hbuffers, -⟩ := sampleRun_reachable
  exact ⟨p, hp, hbuffers, (allocator_consistent.2 p hp).1⟩

/-- The addresses of the page `i` of the area meet the interval from `lo` up to `hi`. -/
def PageMeets (p : Proc) (i lo hi : Nat) : Prop :=
  ∃ x, p.buffer + i * pageSize ≤ x ∧ x < p.buffer + (i + 1) * pageSize ∧ lo ≤ x ∧ x < hi

/-- Mapped are the pages that meet a header or the data of a buffer in use, in every reachable state. -/
theorem pages_are_those_in_use (h : machine.Reachable p) :
    (∀ i, p.pages i = true ↔
      (∃ b ∈ p.buffers, PageMeets p i b (data b)) ∨
      ∃ b, Live p b ∧ PageMeets p i (data b) (data b + binderBufferSize p b)) ∧
    ∀ op : Op, op.Permitted p → ∃ r, exec p op = .ok r := by
  have hinv := machine_inductive.reachable h
  refine ⟨?_, ?_⟩
  · intro i
    rw [hinv.pages i]
    have hpage : ∀ x, x / 4096 = p.firstPage + i ↔
        p.buffer + i * pageSize ≤ x ∧ x < p.buffer + (i + 1) * pageSize := by
      intro x
      have := hinv.aligned.buffer
      rw [pageSize_eq]
      omega
    constructor
    · rintro ⟨x, ⟨b, hb, hx | ⟨hf, hx⟩⟩, hxi⟩
      · exact .inl ⟨b, hb, x, ((hpage x).mp hxi).1, ((hpage x).mp hxi).2, hx⟩
      · refine .inr ⟨b, ⟨hb, hf⟩, x, ((hpage x).mp hxi).1, ((hpage x).mp hxi).2, ?_⟩
        rw [hinv.bufferSize_eq hb]
        exact hx
    rintro (⟨b, hb, x, h1, h2, hx⟩ | ⟨b, ⟨hb, hf⟩, x, h1, h2, hx⟩)
    · exact ⟨x, ⟨b, hb, .inl hx⟩, (hpage x).mpr ⟨h1, h2⟩⟩
    · rw [hinv.bufferSize_eq hb] at hx
      exact ⟨x, ⟨b, hb, .inr ⟨hf, hx⟩⟩, (hpage x).mpr ⟨h1, h2⟩⟩
  · intro op hop
    obtain ⟨o, u, hx⟩ := machine_inductive.safe h hop
    exact ⟨(o, u), hx⟩

theorem sampleRun_pages :
    ∃ p, machine.Reachable p ∧ p.pages 1 = true ∧
      ((∃ b ∈ p.buffers, PageMeets p 1 b (data b)) ∨
        ∃ b, Live p b ∧ PageMeets p 1 (data b) (data b + binderBufferSize p b)) := by
  obtain ⟨p, hp, -, hpage⟩ := sampleRun_reachable
  exact ⟨p, hp, hpage, ((pages_are_those_in_use hp).1 1).mp hpage⟩

theorem alignedSize_wraps {dataSize offsetsSize : Nat}
    (h : wordModulus ≤ (dataSize + 3) / 4 * 4 + (offsetsSize + 3) / 4 * 4) :
    alignedSize dataSize offsetsSize < dataSize ∨ alignedSize dataSize offsetsSize < offsetsSize := by
  unfold alignedSize align
  unfold wordModulus at h ⊢
  omega

/-- If `binder_alloc_buf` returns `NULL` the process is as it was; and sizes that do not fit a word are refused. -/
theorem alloc_failure_atomic (env : PageEnv) (junk : Header) (dataSize offsetsSize : Nat) (isAsync : Bool) (p : Proc) :
    (∀ p', binderAllocBuf env junk dataSize offsetsSize isAsync p = .ok (none, p') → p' = p) ∧
    (wordModulus ≤ (dataSize + 3) / 4 * 4 + (offsetsSize + 3) / 4 * 4 →
      binderAllocBuf env junk dataSize offsetsSize isAsync p = .ok (none, p)) := by
  constructor
  · intro p' h
    simp only [binderAllocBuf] at h
    split at h
    · cases h; rfl
    split at h
    · cases h; rfl
    split at h
    · cases h; rfl
    obtain ⟨⟨best, exact⟩, _, h⟩ := bind_ok h
    cases best with
    | none => cases h; rfl
    | some b =>
      obtain ⟨⟨ok, q⟩, hmap, h⟩ := bind_ok h
      cases ok with
      | false =>
        cases h
        exact mapPageRange_failed hmap
      | true =>
        obtain ⟨r, _, h⟩ := bind_ok h
        cases h
  · intro hwrap
    have hsmall := alignedSize_wraps hwrap
    simp only [binderAllocBuf]
    split
    · rfl
    · rw [if_pos (by simpa using hsmall)]

def isRefused : Except Bug (Option Nat × Proc) → Bool
  | .ok (none, _) => true
  | _ => false

theorem isRefused_iff {r : Except Bug (Option Nat × Proc)} : isRefused r = true ↔ ∃ p, r = .ok (none, p) := by
  rcases r with _ | ⟨_ | _, _⟩ <;> simp [isRefused]

def thirdPageEnv : PageEnv := ⟨true, fun i => if i = 2 then .vmInsertPageFailed else .mapped⟩

theorem alloc_failure_atomic_third_page :
    ∃ p, machine.Reachable p ∧
      (∃ p', binderAllocBuf thirdPageEnv sampleHeader 9000 0 false p = .ok (none, p') ∧ p' = p) ∧
      binderAllocBuf sampleEnv sampleHeader 4294967295 0 false p = .ok (none, p) := by
  have harea : ValidArea 65536 12288 := ⟨by decide, by decide, by decide, by decide, by decide⟩
  have h0 : machine.Reachable _ := .init ⟨sampleEnv, fun _ => sampleHeader, 65536, 12288, harea, rfl⟩
  have hfails : ∀ p, isRefused (binderAllocBuf thirdPageEnv sampleHeader 9000 0 false p) = true →
      ∃ p', binderAllocBuf thirdPageEnv sampleHeader 9000 0 false p = .ok (none, p') ∧ p' = p := by
    intro p hp
    obtain ⟨p', hp'⟩ := isRefused_iff.mp hp
    exact ⟨p', hp', (alloc_failure_atomic _ _ _ _ _ _).1 p' hp'⟩
  refine ⟨_, h0, hfails _ (by decide +kernel), ?_⟩
  exact (alloc_failure_atomic _ _ _ _ _ _).2 (by decide)

theorem mapLoop_refused {env : PageEnv} {start : Nat} {q : Proc} : ∀ {n a : Nat} {p : Proc},
    mapLoop env start n a p = .ok (false, q) → ∃ i, env.result i ≠ .mapped
  | n + 1, a, p, h => by
    by_cases hm : env.result (pageIndex p a) = .mapped
    · simp only [mapLoop, hm] at h
      split at h
      · cases h
      split at h
      · cases h
      · exact mapLoop_refused h
    · exact ⟨_, hm⟩

theorem bestFit_least {size : Nat} {r : Option Nat} {exact : Bool} : ∀ {t : RbTree Nat} {best : Option Nat},
    bestFit p size t best = .ok (r, exact) →
    (t.inorder.Pairwise fun a c => binderBufferSize p a ≤ binderBufferSize p c) →
    (r = best ∨ ∃ b ∈ t.inorder, r = some b ∧ size ≤ binderBufferSize p b) ∧
      ∀ c ∈ t.inorder, size ≤ binderBufferSize p c → ∃ b, r = some b ∧ binderBufferSize p b ≤ binderBufferSize p c
  | .nil, best, h, _ => by
    cases h
    simp
  | .node _ l d u, best, h, hs => by
    rw [RbTree.inorder, List.pairwise_append, List.pairwise_cons] at hs
    obtain ⟨hl, ⟨hd, hu⟩, hlt⟩ := hs
    have hld : ∀ a ∈ l.inorder, binderBufferSize p a ≤ binderBufferSize p d := fun a ha => hlt a ha d (by simp)
    simp only [bestFit] at h
    split at h
    · cases h
    split at h
    · -- what comes after `d` is no smaller, and `d` is the best one so far
      have ih := bestFit_least h hl
      grind [RbTree.inorder]
    split at h
    · -- what comes before `d` is too small
      have ih := bestFit_least h hu
      grind [RbTree.inorder]
    · cases h
      grind [RbTree.inorder]

/-- `binder_alloc_buf` takes a smallest free buffer that is large enough, and it fails only for the causes below. -/
theorem alloc_best_fit (h : machine.Reachable p) {env : PageEnv} {junk : Header} {d o : Nat} {isAsync : Bool}
    {r : Option Nat} {p' : Proc} (hr : binderAllocBuf env junk d o isAsync p = .ok (r, p')) :
    (∀ b, r = some b → b ∈ p.buffers ∧ p.free b = true ∧ alignedSize d o ≤ binderBufferSize p b ∧
      ∀ c ∈ p.buffers, p.free c = true → alignedSize d o ≤ binderBufferSize p c →
        binderBufferSize p b ≤ binderBufferSize p c) ∧
    (r = none → (∀ c ∈ p.buffers, p.free c = true → binderBufferSize p c < alignedSize d o) ∨
      alignedSize d o < max d o ∨ (isAsync = true ∧ p.freeAsyncSpace < (alignedSize d o + headerSize) % wordModulus) ∨
      p.vma = false ∨ env.mm = false ∨ ∃ i, env.result i ≠ .mapped) := by
  have hc := (machine_inductive.reachable h).consistent
  simp only [binderAllocBuf] at hr
  split at hr
  · cases hr
    simp_all
  split at hr
  · cases hr
    simp_all
  split at hr
  · cases hr
    simp_all
  obtain ⟨⟨best, exact⟩, hb, hr⟩ := bind_ok hr
  obtain ⟨hmem, hleast⟩ := bestFit_least hb hc.freeSorted
  cases best with
  | none =>
    cases hr
    refine ⟨nofun, fun _ => .inl fun c hm hf => ?_⟩
    have := hleast c ((hc.freeMem c).mpr ⟨hm, hf⟩)
    grind
  | some b =>
    obtain ⟨⟨ok, q⟩, hmap, hr⟩ := bind_ok hr
    cases ok with
    | false =>
      cases hr
      refine ⟨nofun, fun _ => ?_⟩
      simp only [mapPageRange] at hmap
      split at hmap
      · cases hmap
      split at hmap
      · simp_all
      · simp [mapLoop_refused hmap]
    | true =>
      obtain ⟨p'', _, hr⟩ := bind_ok hr
      cases hr
      refine ⟨?_, nofun⟩
      rintro b' ⟨⟩
      obtain ⟨b', hb', ⟨⟩, hfit⟩ := hmem.resolve_left nofun
      obtain ⟨hm, hf⟩ := (hc.freeMem b).mp hb'
      refine ⟨hm, hf, hfit, fun c hcm hcf hcs => ?_⟩
      obtain ⟨b', ⟨⟩, hle⟩ := hleast c ((hc.freeMem c).mpr ⟨hcm, hcf⟩) hcs
      exact hle

theorem sampleRun_best_fit : ∃ p r p', machine.Reachable p ∧
    binderAllocBuf sampleEnv sampleHeader 24 0 false p = .ok (r, p') ∧
      ∀ b, r = some b → alignedSize 24 0 ≤ binderBufferSize p b := by
  obtain ⟨p, hp, -⟩ := sampleRun_reachable
  obtain ⟨r, p', hr, -⟩ :=
    binderAllocBuf_inv (d := 24) (o := 0) false (machine_inductive.reachable hp) (by decide) sampleEnv sampleHeader
  exact ⟨p, r, p', hp, hr, fun b hb => ((alloc_best_fit hp hr).1 b hb).2.2.1⟩

/-- Nothing leaks: once all buffers have been freed the allocator is as `binder_mmap` left it. -/
theorem all_freed (h : machine.Reachable p) (hf : ∀ b, ¬Live p b) :
    p.buffers = [p.buffer] ∧ p.freeBuffers.inorder = [p.buffer] ∧ p.allocatedBuffers = .nil ∧
      p.freeAsyncSpace = p.bufferSize / 2 ∧ ∀ i, p.pages i = true ↔ i = 0 := by
  have hi := machine_inductive.reachable h
  have hc := hi.consistent
  have hfree : ∀ b ∈ p.buffers, p.free b = true := by simpa [Live] using hf
  have hone : p.buffers = [p.buffer] := by
    obtain ⟨l, hl⟩ := List.head?_eq_some_iff.mp hi.spaced.first
    cases l with
    | nil => exact hl
    | cons c l =>
      -- two neighbours would both be free
      have hn : next p.buffer p.buffers = some c := by simp [hl, next]
      exact absurd ⟨hfree _ (by simp [hl]), hfree c (by simp [hl])⟩ (hc.apart _ c hn)
  refine ⟨hone, List.perm_singleton.mp ?_, ?_, ?_, fun i => ?_⟩
  · apply (List.perm_ext_iff_of_nodup hc.freeNodup (List.nodup_singleton _)).mpr
    intro b
    rw [hc.freeMem, ← hone]
    exact and_iff_left_of_imp (hfree b)
  · cases ht : p.allocatedBuffers with
    | nil => rfl
    | node c l b r => exact absurd ((hc.allocatedMem b).mp (by simp [ht])) (hf b)
  · simpa [hone, charge, hfree p.buffer] using hc.async
  · have hbase := hi.aligned.buffer
    have hused : ∀ x, Used p.areaEnd p.buffers p.free x ↔ p.buffer ≤ x ∧ x < data p.buffer := by
      simp [Used, hone, hfree p.buffer]
    simp only [hi.pages i, hused, data_eq]
    constructor
    · rintro ⟨x, hx, hxi⟩
      omega
    · rintro rfl
      exact ⟨p.buffer, by omega⟩

theorem all_freed_one : ∃ p, machine.Reachable p ∧ (∀ b, ¬Live p b) ∧ p.buffers = [p.buffer] := by
  obtain ⟨p, hp, hb, hf⟩ : ∃ p, machine.Reachable p ∧ p.buffers = [65536] ∧ p.free 65536 = true := by
    have harea : ValidArea 65536 8192 := ⟨by decide, by decide, by decide, by decide, by decide⟩
    have h0 : machine.Reachable _ := .init ⟨sampleEnv, fun _ => sampleHeader, 65536, 8192, harea, rfl⟩
    have h1 := h0.step (l := Op.alloc sampleEnv sampleHeader 100 8 true) ⟨by decide, by decide⟩ rfl
    exact ⟨_, h1.step (l := Op.free 65536) ⟨by decide, by decide⟩ rfl, by decide, by decide⟩
  have hl : ∀ b, ¬Live p b := by simp [Live, hb, hf]
  exact ⟨p, hp, hl, (all_freed hp hl).1⟩

end G3Mod.Binder.Alloc
