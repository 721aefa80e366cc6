import G3Mod.Binder.Alloc.Lemmas.Inv

/-!
# `binder_free_buf`
-/

namespace G3Mod.Binder.Alloc

open Lib

variable {p : Proc} {b : Nat} {t : Rbtree.RbTree Nat}

theorem Inv.live_alignedSize {x : Option Nat} (h : Inv x p) (hb : Live p b) :
    alignedSize (p.header b).dataSize (p.header b).offsetsSize =
      align (p.header b).dataSize + align (p.header b).offsetsSize := by
  have h1 := h.fits b hb
  have h2 := h.bufferSize_le hb.1
  have h3 := h.small
  exact Nat.mod_eq_of_lt (by unfold wordModulus; omega)

theorem Inv.dataPages {x : Option Nat} (h : Inv x p) (hb : b ∈ p.buffers) :
    p.firstPage ≤ (data b + 4095) / 4096 ∧ p.dataEnd b / 4096 ≤ p.firstPage + pageCount p := by
  have h1 := h.spaced.start_le hb
  have h2 := h.spaced.endOf_le_end (b := b)
  change p.dataEnd b ≤ _ at h2
  rw [h.aligned.areaEnd_eq] at h2
  rw [h.aligned.buffer] at h1
  rw [data_eq]
  omega

def released (p : Proc) (b : Nat) (pages : Nat → Bool) (t : Rbtree.RbTree Nat) : Proc :=
  ({ p with freeAsyncSpace := p.freeAsyncSpace + charge p b, pages := pages, allocatedBuffers := t }).setFree
    b true

variable {pages : Nat → Bool}

theorem released_free_self : (released p b pages t).free b = true := Proc.setFree_free_self

theorem released_free_other {c : Nat} (hc : c ≠ b) : (released p b pages t).free c = p.free c :=
  Proc.setFree_free_other hc

theorem released_free {c : Nat} : (released p b pages t).free c = if c = b then true else p.free c := by
  split
  next h => exact h ▸ released_free_self
  next h => exact released_free_other h

theorem released_header_other {c : Nat} (hc : c ≠ b) : (released p b pages t).header c = p.header c :=
  Proc.setHeader_header_other hc

theorem Inv.unmapData (h : Inv none p) (hb : Live p b) (a : Nat) :
    ∃ pages, unmapPageRange (pageAlign (data b)) (pageMask (data b + binderBufferSize p b))
        { p with freeAsyncSpace := a } = .ok { p with freeAsyncSpace := a, pages := pages } ∧
      Covers p.firstPage (fun x => Used p.areaEnd p.buffers p.free x ∧ ¬ (data b ≤ x ∧ x < p.dataEnd b))
        pages := by
  obtain ⟨hfirst, hlast⟩ := h.dataPages hb.1
  have hmapped : ∀ i, (data b + 4095) / 4096 ≤ p.firstPage + i → p.firstPage + i < p.dataEnd b / 4096 →
      p.pages i = true := by
    intro i h1 h2
    refine (h.pages i).mpr ⟨4096 * (p.firstPage + i), ⟨b, hb.1, .inr ⟨hb.2, ?_⟩⟩, by omega⟩
    change data b ≤ _ ∧ _ < p.dataEnd b
    omega
  have hrange := unmapPageRange_eq (p := { p with freeAsyncSpace := a })
    ⟨h.aligned.buffer, h.aligned.bufferSize⟩ hfirst hlast hmapped
  rw [h.bufferSize_eq hb.1, pageAlign_eq, pageMask_eq, hrange]
  exact ⟨_, rfl, h.pages.unmap (by rw [data_eq]; omega) (used_last hb.1)
    h.aligned.used_dataEnd⟩

theorem Inv.release (h : Inv none p) (hb : Live p b)
    (hp : Covers p.firstPage
      (fun x => Used p.areaEnd p.buffers p.free x ∧ ¬ (data b ≤ x ∧ x < p.dataEnd b)) pages)
    (ht : AllocTree (fun c => (c ∈ p.buffers ∧ p.free c = false ∧ none ≠ some c) ∧ c ≠ b) t) :
    Inv (some b) (released p b pages t) where
  aligned := ⟨h.aligned.buffer, h.aligned.bufferSize⟩
  small := h.small
  spaced := h.spaced
  apart := h.apart.free fun c hc => released_free_other hc
  pages := by
    refine hp.congr fun y => ?_
    have halloc := used_alloc (f := (released p b pages t).free) (e := p.areaEnd) (x := y) hb.1 hb.2
      released_free_self fun c _ hc => (released_free_other hc).symm
    have hnot : data b ≤ y ∧ y < p.dataEnd b → ¬ Used p.areaEnd p.buffers (released p b pages t).free y :=
      fun hy => h.spaced.not_used hb.1 released_free_self hy.1 hy.2
    tauto
  freeTree := by
    refine h.freeTree.congr (fun _ _ => rfl) ?_
    intro c
    have := hb.2
    change _ ↔ c ∈ p.buffers ∧ _
    rw [released_free]
    grind
  allocTree := by
    refine ht.congr (fun _ _ => rfl) ?_
    intro c
    change _ ↔ c ∈ p.buffers ∧ _
    rw [released_free]
    grind
  fits := by
    rintro c ⟨hc, hf⟩
    rw [released_free] at hf
    have hcb : c ≠ b := by grind
    rw [if_neg hcb] at hf
    rw [released_header_other hcb]
    exact h.fits c ⟨hc, hf⟩
  async := by
    have hsum := sum_map_change (f := charge p) (g := charge (released p b pages t)) h.spaced.nodup hb.1
      fun c _ hc => charge_congr (released_header_other hc)
    rw [charge_free released_free_self] at hsum
    have hasync := h.async
    change p.freeAsyncSpace + charge p b + (p.buffers.map (charge (released p b pages t))).sum = p.bufferSize / 2
    omega

theorem binderFreeBuf_inv (h : Inv none p) (hb : Live p b) (htr : (p.header b).transaction = false) :
    ∃ p', binderFreeBuf b p = .ok p' ∧ Inv none p' := by
  have hsize := h.live_alignedSize hb
  have hstart := h.spaced.start_le hb.1
  have hend := h.spaced.inside b hb.1
  rw [data_eq] at hend
  have hfits : ¬ binderBufferSize p b < align (p.header b).dataSize + align (p.header b).offsetsSize := by
    have := h.fits b hb
    omega
  have harea : (decide (b < p.buffer) || decide (p.areaEnd < b)) = false := by
    simp only [Bool.or_eq_false_iff, decide_eq_false_iff_not]
    omega
  have hcharge : (if (p.header b).asyncTransaction then
      { p with freeAsyncSpace := p.freeAsyncSpace + (align (p.header b).dataSize
        + align (p.header b).offsetsSize + headerSize) } else p) =
      { p with freeAsyncSpace := p.freeAsyncSpace + charge p b } := by
    simp only [charge, hb.2]
    cases (p.header b).asyncTransaction <;> rfl
  obtain ⟨pages, hunmap, hcov⟩ := h.unmapData hb (p.freeAsyncSpace + charge p b)
  obtain ⟨t, ht, htree⟩ := FreeTree.eraseAllocated (b := b)
    (p := { p with freeAsyncSpace := p.freeAsyncSpace + charge p b, pages := pages }) h.allocTree
    ⟨hb.1, hb.2, by simp⟩
  obtain ⟨p1, h1, hinv1, hb1, hf1, hnext⟩ := mergeNext_inv (h.release hb hcov htree) hb.1 released_free_self
  obtain ⟨r, p2, h2, hinv2, hr, hfr, hap⟩ := mergePrev_inv hinv1 hb1 hf1 hnext
  obtain ⟨p3, h3, hinv3⟩ := hinv2.insertFree hr hfr hap
  refine ⟨p3, ?_, hinv3⟩
  unfold released at h1
  simp only [binderFreeBuf, hb.2, hsize, hfits, htr, harea, Bool.false_eq_true, if_false, hcharge,
    hunmap, ok_bind, ht, h1, h2, h3]

/-! # `binder_alloc_buf` -/

variable {p' : Proc} {n size d o hi : Nat} {pre post : List Nat}

theorem alignedSize_exact (hd : d < wordModulus) (h : d ≤ alignedSize d o) :
    alignedSize d o = align d + align o := by
  unfold alignedSize align wordModulus at *
  omega

theorem usedSize_cases {bufferSize : Nat} {exact : Bool} (he : exact = true → bufferSize = size) :
    (usedSize size bufferSize exact = size ∧ bufferSize ≤ size + 44) ∨
      (usedSize size bufferSize exact = size + headerSize ∧ size + 44 < bufferSize) := by
  cases exact with
  | true => exact .inl ⟨he rfl, by rw [he rfl]; omega⟩
  | false =>
    by_cases hroom : bufferSize ≤ size + 40 + 4
    · exact .inl ⟨if_pos hroom, hroom⟩
    · exact .inr ⟨if_neg hroom, by omega⟩

theorem Inv.mapData (h : Inv none p) (hb : b ∈ p.buffers) (hf : p.free b = true)
    (used : Nat) (hused : data b + used ≤ p.dataEnd b)
    (hhi : hi = data b + used ∨ (hi = p.dataEnd b ∧ p.dataEnd b ≤ data b + used + 44)) (env : PageEnv) :
    (∃ pages, mapPageRange env (pageAlign (data b)) (endPageAddr b (binderBufferSize p b) used) false p
          = .ok (true, { p with pages := pages }) ∧
        Covers p.firstPage (fun x => Used p.areaEnd p.buffers p.free x ∨ (data b ≤ x ∧ x < hi)) pages) ∨
      mapPageRange env (pageAlign (data b)) (endPageAddr b (binderBufferSize p b) used) false p
        = .ok (false, p) := by
  have hstart := h.spaced.start_le hb
  have hend := h.spaced.endOf_le_end (b := b)
  change p.dataEnd b ≤ _ at hend
  rw [h.aligned.areaEnd_eq] at hend
  rw [h.aligned.buffer] at hstart
  have hrange : endPageAddr b (binderBufferSize p b) used =
      4096 * min ((data b + used + 4095) / 4096) (p.dataEnd b / 4096) := by
    unfold endPageAddr
    rw [h.bufferSize_eq hb, pageAlign_eq, pageMask_eq]
    omega
  have hclear : ∀ i, (data b + 4095) / 4096 ≤ p.firstPage + i →
      p.firstPage + i < min ((data b + used + 4095) / 4096) (p.dataEnd b / 4096) → p.pages i = false := by
    intro i h1 h2
    cases hpi : p.pages i with
    | false => rfl
    | true =>
      obtain ⟨x, hx, hxi⟩ := (h.pages i).mp hpi
      refine absurd hx (h.spaced.not_used hb hf (by omega) ?_)
      change x < p.dataEnd b
      omega
  rw [pageAlign_eq, hrange]
  rcases mapPageRange_eq env false h.aligned (by rw [data_eq]; omega) (by omega) hclear
    with hmap | hmap
  · exact .inl ⟨_, hmap, h.pages.map (by rw [data_eq]; omega) (used_last hb)
      h.aligned.used_dataEnd hused hhi⟩
  · exact .inr hmap

/-! ## Handing a buffer out -/

def Header.taken (h : Header) (d o : Nat) (isAsync : Bool) : Header :=
  { h with free := false, dataSize := d, offsetsSize := o, asyncTransaction := isAsync }

def asyncCharge (d o : Nat) (isAsync : Bool) : Nat := if isAsync then align d + align o + headerSize else 0

variable {isAsync : Bool}

theorem charge_taken (h : p'.header b = (p.header b).taken d o isAsync) :
    charge p' b = asyncCharge d o isAsync := by
  simp only [charge, Proc.free, h, Header.taken, asyncCharge, Bool.not_false, Bool.true_and]

theorem Proc.areaEnd_congr (h1 : p'.buffer = p.buffer) (h2 : p'.bufferSize = p.bufferSize) :
    p'.areaEnd = p.areaEnd := by
  unfold Proc.areaEnd
  rw [h1, h2]

theorem Proc.firstPage_congr (h : p'.buffer = p.buffer) : p'.firstPage = p.firstPage := by
  unfold Proc.firstPage
  rw [h]

theorem Proc.free_congr {c : Nat} (h : p'.header c = p.header c) : p'.free c = p.free c := by
  unfold Proc.free
  rw [h]

theorem Header.free_taken (h : p'.header b = (p.header b).taken d o isAsync) :
    p'.free b = false := by
  unfold Proc.free
  rw [h]
  rfl

theorem Aligned.congr (h : Aligned p) (h1 : p'.buffer = p.buffer) (h2 : p'.bufferSize = p.bufferSize) :
    Aligned p' where
  buffer := by rw [Proc.firstPage_congr h1, h1]; exact h.buffer
  bufferSize := by unfold pageCount; rw [h2]; exact h.bufferSize

theorem Inv.allot (ns : List Nat) (h : Inv none p) (hl : p.buffers = pre ++ b :: post) (hf : p.free b = true)
    (hbuffer : p'.buffer = p.buffer) (hbufferSize : p'.bufferSize = p.bufferSize)
    (hbuffers : p'.buffers = pre ++ b :: (ns ++ post)) (hself : p'.header b = (p.header b).taken d o isAsync)
    (hns : ∀ n ∈ ns, n ≠ b ∧ p'.free n = true) (hother : ∀ c ∈ p.buffers, c ≠ b → p'.header c = p.header c)
    (hsizes : ∀ c ∈ p.buffers, c ≠ b → binderBufferSize p' c = binderBufferSize p c)
    (hspaced : Spaced p.buffer p.areaEnd p'.buffers) (hapart : Apart none p'.buffers p'.free)
    (hp : Covers p.firstPage (Used p.areaEnd p'.buffers p'.free) p'.pages)
    (hft : FreeTree (binderBufferSize p')
      (fun c => ((c ∈ p.buffers ∧ p.free c = true ∧ none ≠ some c) ∧ c ≠ b) ∨ c ∈ ns) p'.freeBuffers)
    (hat : AllocTree (fun c => (c ∈ p.buffers ∧ p.free c = false ∧ none ≠ some c) ∨ c = b)
      p'.allocatedBuffers)
    (hsize : align d + align o ≤ binderBufferSize p' b)
    (hasync : p'.freeAsyncSpace + asyncCharge d o isAsync = p.freeAsyncSpace) : Inv none p' := by
  have harea : p'.areaEnd = p.areaEnd := Proc.areaEnd_congr hbuffer hbufferSize
  have hfself : p'.free b = false := Header.free_taken hself
  have hfother : ∀ c ∈ p.buffers, c ≠ b → p'.free c = p.free c :=
    fun c hc hcb => Proc.free_congr (hother c hc hcb)
  have hb : b ∈ p.buffers := by rw [hl]; simp
  refine ⟨h.aligned.congr hbuffer hbufferSize, by rw [hbufferSize]; exact h.small,
    by rw [hbuffer, harea]; exact hspaced, hapart,
    by rw [Proc.firstPage_congr hbuffer, harea]; exact hp, ?_, ?_, ?_, ?_⟩
  · refine hft.congr (fun _ _ => rfl) fun c => ?_
    grind
  · refine hat.congr (fun _ _ => rfl) fun c => ?_
    grind
  · rintro c ⟨hc, hfc⟩
    by_cases hcb : c = b
    · subst hcb
      rw [hself]
      exact hsize
    have hc : c ∈ p.buffers := by grind
    rw [hfother c hc hcb] at hfc
    rw [hother c hc hcb, hsizes c hc hcb]
    exact h.fits c ⟨hc, hfc⟩
  · have hsum := sum_map_change (f := charge p) (g := charge p') h.spaced.nodup hb
      fun c hc hcb => charge_congr (hother c hc hcb)
    rw [charge_free hf, charge_taken hself] at hsum
    have hzero : (ns.map (charge p')).sum = 0 := by
      refine List.sum_eq_zero fun x hx => ?_
      obtain ⟨n, hn, rfl⟩ := List.mem_map.mp hx
      exact charge_free (hns n hn).2
    have hnew : (p'.buffers.map (charge p')).sum = (p.buffers.map (charge p')).sum := by
      rw [hbuffers, hl]
      simp only [List.map_append, List.map_cons, List.sum_append, List.sum_cons, hzero, Nat.zero_add]
    have := h.async
    omega

theorem Inv.moveTrees (h : Inv none p) (hb : b ∈ p.buffers) (hf : p.free b = true) (pages : Nat → Bool) :
    ∃ t1 t2, eraseFree b { p with pages := pages } = .ok { p with pages := pages, freeBuffers := t1 } ∧
      binderInsertAllocatedBuffer b (({ p with pages := pages, freeBuffers := t1 }).setFree b false) =
        .ok { (({ p with pages := pages, freeBuffers := t1 }).setFree b false) with allocatedBuffers := t2 } ∧
      FreeTree (binderBufferSize p)
        (fun c => (c ∈ p.buffers ∧ p.free c = true ∧ none ≠ some c) ∧ c ≠ b) t1 ∧
      AllocTree (fun c => (c ∈ p.buffers ∧ p.free c = false ∧ none ≠ some c) ∨ c = b) t2 := by
  obtain ⟨t1, ht1, hft⟩ := FreeTree.eraseFree (p := { p with pages := pages }) (b := b) h.freeTree
    ⟨hb, hf, nofun⟩
  have hne : ∀ c, c ∈ p.buffers ∧ p.free c = false ∧ none ≠ some c → c ≠ b := by
    rintro c ⟨-, hc, -⟩ rfl
    rw [hf] at hc
    cases hc
  obtain ⟨t2, ht2, hat⟩ := FreeTree.insertAllocated
    (p := ({ p with pages := pages, freeBuffers := t1 }).setFree b false) (b := b) h.allocTree
    (fun c hc => (Proc.setFree_free_other (hne c hc)).trans hc.2.1) (fun hc => hne b hc rfl)
    Proc.setFree_free_self
  exact ⟨t1, t2, ht1, ht2, hft, hat⟩

theorem recordAlloc_eq {h : Header} (hp : p.header b = { h with free := false })
    (hsize : size = align d + align o) (hasync : isAsync = true → size + headerSize ≤ p.freeAsyncSpace) :
    ∃ a, recordAlloc b size d o isAsync p = { p.setHeader b (h.taken d o isAsync) with freeAsyncSpace := a } ∧
      a + asyncCharge d o isAsync = p.freeAsyncSpace := by
  subst hsize
  simp only [recordAlloc, hp]
  cases isAsync with
  | false => exact ⟨_, rfl, rfl⟩
  | true => exact ⟨_, rfl, Nat.sub_add_cancel (hasync rfl)⟩

variable {pages : Nat → Bool}

theorem takeBuffer_whole (junk : Header) (h : Inv none p)
    (hb : b ∈ p.buffers) (hf : p.free b = true) (hsize : size = align d + align o)
    (hfit : size ≤ binderBufferSize p b)
    (hasync : isAsync = true → size + headerSize ≤ p.freeAsyncSpace)
    (hp : Covers p.firstPage
      (fun x => Used p.areaEnd p.buffers p.free x ∨ (data b ≤ x ∧ x < p.dataEnd b)) pages) :
    ∃ p', takeBuffer junk b size size d o isAsync { p with pages := pages } = .ok p' ∧ Inv none p' := by
  obtain ⟨t1, t2, ht1, ht2, hft, hat⟩ := h.moveTrees hb hf pages
  obtain ⟨a, he, ha⟩ := recordAlloc_eq (p := { (({ p with pages := pages, freeBuffers := t1 }).setFree b false) with
    allocatedBuffers := t2 }) (b := b) (h := p.header b) Proc.setHeader_header_self hsize hasync
  simp only [takeBuffer, ht1, ok_bind, ht2, ne_eq, not_true_eq_false, if_false, he]
  let p' : Proc := { ({ (({ p with pages := pages, freeBuffers := t1 }).setFree b false) with
    allocatedBuffers := t2 }).setHeader b ((p.header b).taken d o isAsync) with freeAsyncSpace := a }
  have hself : p'.header b = (p.header b).taken d o isAsync := Proc.setHeader_header_self
  have hother : ∀ c, c ≠ b → p'.header c = p.header c := fun c hc =>
    (Proc.setHeader_header_other hc).trans (Proc.setHeader_header_other hc)
  have hfree : ∀ c, c ≠ b → p'.free c = p.free c := fun c hc => Proc.free_congr (hother c hc)
  obtain ⟨pre, post, hl⟩ := List.append_of_mem hb
  refine ⟨p', rfl, h.allot [] hl hf rfl rfl hl hself nofun (fun c _ => hother c) (fun _ _ _ => rfl) h.spaced
    (h.apart.alloc fun c hc => ?_) (hp.congr fun x => used_alloc hb (Header.free_taken hself) hf fun c _ => hfree c)
    (hft.congr (fun _ _ => rfl) (by simp)) hat (hsize ▸ hfit) ha⟩
  by_cases hcb : c = b
  · rw [hcb]
    exact hf
  · rw [← hfree c hcb]
    exact hc

theorem takeBuffer_split (junk : Header) (h : Inv none p)
    (hb : b ∈ p.buffers) (hf : p.free b = true) (hsize : size = align d + align o)
    (hfit : data (data b + size) ≤ p.dataEnd b)
    (hasync : isAsync = true → size + headerSize ≤ p.freeAsyncSpace)
    (hp : Covers p.firstPage
      (fun x => Used p.areaEnd p.buffers p.free x ∨ (data b ≤ x ∧ x < data (data b + size))) pages) :
    ∃ p', takeBuffer junk b size (size + headerSize) d o isAsync { p with pages := pages } = .ok p' ∧
      Inv none p' := by
  obtain ⟨t1, t2, ht1, ht2, hft, hat⟩ := h.moveTrees hb hf pages
  obtain ⟨pre, post, hl⟩ := List.append_of_mem hb
  have hsl := hl ▸ h.spaced
  have hins := hsl.insert (n := data b + size) (Nat.le_add_right ..) (by rw [← hl]; exact hfit)
  have hnot := notMem_insert hins.nodup
  have hnb : data b + size ≠ b := by
    rw [data_eq]
    omega
  have hne : size + headerSize ≠ size := by
    rw [headerSize_eq]
    omega
  have hadd : listAdd (data b + size) b p.buffers = pre ++ b :: (data b + size) :: post := by
    rw [hl]
    exact listAdd_self hsl.notMem_pre
  have hold : ∀ c ∈ p.buffers, c ≠ data b + size := by
    rintro c hc rfl
    exact hnot (hl ▸ hc)
  let m : Proc := ({ (({ p with pages := pages, freeBuffers := t1 }).setFree b false) with
    allocatedBuffers := t2, buffers := listAdd (data b + size) b p.buffers }).setHeader (data b + size)
    { junk with free := true }
  have hmn : m.free (data b + size) = true := congrArg Header.free Proc.setHeader_header_self
  have hmself : m.header b = { p.header b with free := false } :=
    (Proc.setHeader_header_other (Ne.symm hnb)).trans Proc.setHeader_header_self
  have hmother : ∀ c, c ≠ b → c ≠ data b + size → m.header c = p.header c := fun c hcb hcn =>
    (Proc.setHeader_header_other hcn).trans (Proc.setHeader_header_other hcb)
  have hsizes : ∀ c ∈ p.buffers, c ≠ b → binderBufferSize m c = binderBufferSize p c := by
    intro c hc hcb
    change endOf p.areaEnd (listAdd (data b + size) b p.buffers) c - data c = endOf p.areaEnd p.buffers c - data c
    rw [hadd, hl, endOf_insert hcb (hold c hc)]
  have hmfree : FreeTree (binderBufferSize m)
      (fun c => (c ∈ p.buffers ∧ p.free c = true ∧ none ≠ some c) ∧ c ≠ b) m.freeBuffers := by
    exact hft.congr (fun c hc => hsizes c hc.1.1 hc.2) fun _ => Iff.rfl
  obtain ⟨t3, ht3, hft3⟩ := hmfree.insert (b := data b + size)
    (fun c hc => (Proc.free_congr (hmother c hc.2 (hold c hc.1.1))).trans hc.1.2.1)
    (fun hc => hold _ hc.1.1 rfl) hmn
  obtain ⟨a, he, ha⟩ := recordAlloc_eq (p := { m with freeBuffers := t3 }) (b := b) (h := p.header b) hmself hsize hasync
  have hx : takeBuffer junk b size (size + headerSize) d o isAsync { p with pages := pages } =
      .ok { ({ m with freeBuffers := t3 } : Proc).setHeader b ((p.header b).taken d o isAsync) with freeAsyncSpace := a } := by
    simp only [takeBuffer, ht1, ok_bind, ht2, ne_eq, hne, not_false_eq_true, if_true]
    rw [← he]
    exact congrArg (· >>= _) ht3
  let p' : Proc := { ({ m with freeBuffers := t3 } : Proc).setHeader b ((p.header b).taken d o isAsync) with
    freeAsyncSpace := a }
  have hself : p'.header b = (p.header b).taken d o isAsync := Proc.setHeader_header_self
  have hfn : p'.free (data b + size) = true := (Proc.free_congr (p := m) (Proc.setHeader_header_other hnb)).trans hmn
  have hother : ∀ c, c ≠ b → c ≠ data b + size → p'.header c = p.header c := fun c hcb hcn =>
    (Proc.setHeader_header_other hcb).trans (hmother c hcb hcn)
  have hfree := fun c hcb hcn => Proc.free_congr (hother c hcb hcn)
  have hfself := Header.free_taken hself
  have hlist : p'.buffers = pre ++ b :: (data b + size) :: post := hadd
  refine ⟨p', hx, h.allot [data b + size] hl hf rfl rfl hlist hself (by simp [hnb, hfn])
    (fun c hc hcb => hother c hcb (hold c hc)) hsizes ?_ ?_ (hp.congr fun x => ?_) (hft3.congr (fun _ _ => rfl) (by simp))
    hat ?_ ha⟩
  · rw [hlist]
    exact hins
  · rw [hlist]
    exact (hl ▸ h.apart).split hins.nodup hf hfself hfree
  · rw [hlist, hl]
    exact used_split hins hf hfself hfn hfree
  · change _ ≤ endOf p.areaEnd p'.buffers b - data b
    rw [hlist, (endOf_inserted hins.nodup).1]
    omega

theorem binderAllocBuf_inv (isAsync : Bool) (h : Inv none p) (hd : d < wordModulus) (env : PageEnv)
    (junk : Header) : ∃ r p', binderAllocBuf env junk d o isAsync p = .ok (r, p') ∧ Inv none p' := by
  have hnone : ∃ r p', (.ok (none, p) : Except Bug (Option Nat × Proc)) = .ok (r, p') ∧ Inv none p' := ⟨none, p, rfl, h⟩
  unfold binderAllocBuf
  simp only
  split
  · exact hnone
  split
  · exact hnone
  rename_i hcheck
  split
  · exact hnone
  rename_i hspace
  simp only [Bool.or_eq_true, decide_eq_true_eq, not_or, Nat.not_lt] at hcheck
  have hsize := alignedSize_exact hd hcheck.1
  generalize alignedSize d o = size at *
  obtain ⟨r, exact, hfit, hspec⟩ := bestFit_spec (p := p) size p.freeBuffers none fun c hc =>
    ((h.freeTree.mem c).mp hc).2.1
  rw [hfit, ok_bind]
  cases r with
  | none => exact hnone
  | some b =>
    obtain ⟨hmem, hexact, hless⟩ := (hspec b rfl).resolve_right nofun
    obtain ⟨hb, hf, -⟩ := (h.freeTree.mem b).mp hmem
    have hend := h.bufferSize_eq hb
    have hsmall := h.small
    have hle := h.bufferSize_le hb
    have hroom : size ≤ binderBufferSize p b := by grind
    have hasync : isAsync = true → size + headerSize ≤ p.freeAsyncSpace := by
      rintro rfl
      simp only [Bool.true_and, decide_eq_true_eq, Nat.not_lt] at hspace
      rw [Nat.mod_eq_of_lt (by unfold wordModulus headerSize; omega)] at hspace
      exact hspace
    simp only
    rcases usedSize_cases hexact
      with ⟨hused, hslack⟩ | ⟨hused, hslack⟩
    · rw [hused]
      rcases h.mapData hb hf size (by omega) (.inr ⟨rfl, by omega⟩) env
        with ⟨pages, hmap, hp⟩ | hmap
      · obtain ⟨p', htake, hinv⟩ := takeBuffer_whole junk h hb hf hsize hroom hasync hp
        rw [hmap, ok_bind]
        simp only [htake, ok_bind]
        exact ⟨some b, p', rfl, hinv⟩
      · rw [hmap, ok_bind]
        exact hnone
    · rw [hused]
      have hdata : data (data b + size) = data b + (size + headerSize) := rfl
      have hfits : data (data b + size) ≤ p.dataEnd b := by
        rw [hdata, headerSize_eq]
        omega
      rcases h.mapData hb hf (size + headerSize) (hdata ▸ hfits) (.inl hdata)
        env with ⟨pages, hmap, hp⟩ | hmap
      · obtain ⟨p', htake, hinv⟩ := takeBuffer_split junk h hb hf hsize hfits hasync hp
        rw [hmap, ok_bind]
        simp only [htake, ok_bind]
        exact ⟨some b, p', rfl, hinv⟩
      · rw [hmap, ok_bind]
        exact hnone

end G3Mod.Binder.Alloc
