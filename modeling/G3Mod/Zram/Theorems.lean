import G3Mod.Zram.Lemmas.Slots

/-!
# The disk holds what has been written to it
-/

namespace G3Mod.Zram

open Function Lib

variable {lzo : Lzo} {s s₀ s₁ t : Zram} {r : Nat → Rep} {wr : Nat → Option Page} {op : Op} {o : Out}
  {es : List (Op × Out)} {outcome : InitOutcome} {ram i : Nat}

/-! ## Statistics -/

theorem countP_tally {p : Nat → Bool} {f : Rep → Nat} {n : Nat} (h : ∀ i, (p i).toNat = f (r i)) :
    (List.range n).countP p = tally n f r := by
  rw [countP_eq_sum_toNat, tally]
  exact sum_map_congr fun i _ => h i

theorem Inv.storedLength (h : Inv s r) (i : Nat) : s.storedLength i = (r i).size := by
  have hholds := h.heap.holds i
  cases hr : r i with
  | empty | zero => rw [hr] at hholds; simp [Zram.storedLength, hholds.1, Rep.size]
  | object bs w =>
    rw [hr] at hholds
    obtain ⟨_, _, _, page, hp, hhas⟩ := hholds
    simp [Zram.storedLength, hp, hhas.live, Rep.size]

theorem Inv.flags (h : Inv s r) (i : Nat) : (s.table i).page.isSome.toNat = (r i).stored ∧
    (s.table i).zero.toNat = (r i).zeros ∧ (s.table i).uncompressed.toNat = (r i).expand := by
  have hholds := h.heap.holds i
  cases hr : r i with
  | empty | zero =>
    rw [hr] at hholds
    simp [hholds.1, hholds.2.1, hholds.2.2, Rep.stored, Rep.zeros, Rep.expand]
  | object bs w =>
    rw [hr] at hholds
    obtain ⟨hz, hu, _, page, hp, _⟩ := hholds
    cases w <;> simp [hz, hu, hp, Rep.stored, Rep.zeros, Rep.expand]

theorem Inv.statsOk (h : Inv s r) : StatsOk s where
  pagesStored := by
    rw [h.counts.pagesStored]
    exact (countP_tally fun i => (h.flags i).1).symm
  pagesZero := by
    rw [h.counts.pagesZero]
    exact (countP_tally fun i => (h.flags i).2.1).symm
  pagesExpand := by
    rw [h.counts.pagesExpand]
    exact (countP_tally fun i => (h.flags i).2.2).symm
  comprSize := by
    rw [h.counts.comprSize, tally]
    exact sum_map_congr fun i _ => (h.storedLength i).symm
  goodCompress := by
    rw [h.counts.goodCompress]
    refine (countP_tally fun i => ?_).symm
    rw [h.storedLength i]
    have hholds := h.heap.holds i
    cases hr : r i with
    | empty | zero => rw [hr] at hholds; simp [hholds.1, Rep.good]
    | object bs w =>
      rw [hr] at hholds
      obtain ⟨_, _, _, page, hp, _⟩ := hholds
      simp only [hp, Option.isSome_some, Bool.true_and, Rep.good, Rep.size]
      split <;> next hle => simp [hle]

/-! ## Initialization -/

structure Tracks (lzo : Lzo) (s : Zram) (wr : Nat → Option Page) : Prop where
  inv : Inv s (rep lzo ∘ wr)
  masked : ∃ d, s.disksize = pageMask d
  fresh : s.initDone = false → ∀ i, wr i = none

theorem pageMask_pageMask (d : Nat) : pageMask (pageMask d) = pageMask d := by
  unfold pageMask pageSize
  omega

theorem Inv.empty (h : Inv s (fun _ => .empty)) (n : Nat) (done : Bool) :
    Inv { s with disksize := n, initDone := done, table := fun _ => emptyEntry } (fun _ => .empty) where
  heap := ⟨fun _ => ⟨rfl, rfl, rfl⟩, h.heap.pos, h.heap.apart, fun hp => by cases hp⟩
  counts := by
    have hc := h.counts
    refine ⟨?_, ?_, ?_, ?_, ?_⟩
    · rw [hc.pagesStored, tally_empty rfl, tally_empty rfl]
    · rw [hc.pagesZero, tally_empty rfl, tally_empty rfl]
    · rw [hc.pagesExpand, tally_empty rfl, tally_empty rfl]
    · rw [hc.comprSize, tally_empty rfl, tally_empty rfl]
    · rw [hc.goodCompress, tally_empty rfl, tally_empty rfl]

theorem Inv.reset (h : Inv s (fun _ => .empty)) : Inv (resetEmpty s) (fun _ => .empty) where
  heap := (h.empty 0 false).heap
  counts := ⟨(tally_empty rfl).symm, (tally_empty rfl).symm, (tally_empty rfl).symm, (tally_empty rfl).symm,
    (tally_empty rfl).symm⟩

theorem Tracks.of_empty (h : Inv s (fun _ => .empty)) (hm : ∃ d, s.disksize = pageMask d) (hw : ∀ i, wr i = none) :
    Tracks lzo s wr := by
  have hrep : rep lzo ∘ wr = fun _ => .empty := by
    funext i
    simp only [comp_apply, hw i, rep]
  exact ⟨hrep ▸ h, hm, fun _ => hw⟩

theorem Tracks.ready (h : Tracks lzo s wr) (outcome : InitOutcome) (ram : Nat) :
    zramReady outcome ram s = .error .nullTable ∨
      (∃ s₁, zramReady outcome ram s = .ok (true, s₁) ∧ Tracks lzo s₁ wr ∧ s₁.initDone = true ∧
        s.numPages ≤ s₁.numPages) ∨
      ∃ s₁, zramReady outcome ram s = .ok (false, s₁) ∧ (∀ i, wr i = none) ∧ Inv s₁ (fun _ => .empty) ∧
        s₁.disksize = pageMask 0 := by
  unfold zramReady
  by_cases hd : s.initDone = true
  · rw [if_pos hd]
    exact .inr (.inl ⟨s, rfl, h, hd, Nat.le_refl _⟩)
  rw [if_neg hd]
  have hw := h.fresh (by simpa using hd)
  have hrep : rep lzo ∘ wr = fun _ => .empty := by
    funext i
    simp only [comp_apply, hw i, rep]
  have hinv := hrep ▸ h.inv
  have hempty := hinv.empty (zramSetDisksize ram s.disksize) true
  have hreset := (hinv.empty (zramSetDisksize ram s.disksize) s.initDone).reset
  cases outcome with
  | ok =>
    refine .inr (.inl ⟨_, rfl, .of_empty hempty ⟨_, rfl⟩ hw, rfl, ?_⟩)
    obtain ⟨d, hdisk⟩ := h.masked
    show s.disksize / pageSize ≤ zramSetDisksize ram s.disksize / pageSize
    by_cases h0 : s.disksize = 0
    · rw [h0, Nat.zero_div]
      exact Nat.zero_le _
    · rw [zramSetDisksize, if_neg h0, hdisk, pageMask_pageMask]
  | noWorkmem | noBuffer =>
    simp only [zramInitDevice]
    split
    · exact .inr (.inr ⟨_, rfl, hw, hreset, rfl⟩)
    · exact .inl rfl
  | noTable | noPool => exact .inr (.inr ⟨_, rfl, hw, hreset, rfl⟩)

theorem record_none {ps : List Page} (hw : ∀ i, wr i = none) (j : Nat) : record ps i 0 false wr j = none := by
  cases ps with
  | nil => exact hw j
  | cons p ps =>
    simp only [record, Bool.false_eq_true, if_false, update_apply, hw, ite_self]

theorem Tracks.write (h : Tracks lzo s wr) {first : Nat} {segs : List (Page × Supply)}
    (hp : (Op.write first segs outcome ram).Permitted lzo s) :
    exec lzo s (.write first segs outcome ram) = .error .nullTable ∨
      ∃ o t, exec lzo s (.write first segs outcome ram) = .ok (o, t) ∧
        Tracks lzo t (writtenStep wr (.write first segs outcome ram, o)) := by
  obtain ⟨hn, hall⟩ := hp
  rcases h.ready outcome ram with he | ⟨s₁, hs1, htracks, hdone, hle⟩ | ⟨s₁, hs1, hw, hinv, hdisk⟩
  · left
    simp only [exec, zramWrite, he]
    rfl
  · right
    have hcount : Inv (countWrite s₁) (rep lzo ∘ wr) :=
      ⟨htracks.inv.heap, ⟨htracks.inv.counts.pagesStored, htracks.inv.counts.pagesZero, htracks.inv.counts.pagesExpand,
        htracks.inv.counts.comprSize, htracks.inv.counts.goodCompress⟩⟩
    obtain ⟨m, ok, s2, hs2, hinv2, hsame⟩ := writeLoop_ok segs 0 hcount (Nat.le_trans hn hle) (hall s₁ hs1)
    rw [Nat.zero_add] at hs2
    refine ⟨.write m ok, s2, ?_, hinv2, ?_, fun hf => ?_⟩
    · simp only [exec, zramWrite, hs1, ok_bind, if_true, hs2]
    · rw [hsame.disksize]
      exact htracks.masked
    · rw [hsame.initDone] at hf
      exact absurd (hdone.symm.trans hf) (by decide)
  · right
    refine ⟨.write 0 false, s₁, ?_, .of_empty hinv ⟨0, hdisk⟩ (record_none hw)⟩
    simp only [exec, zramWrite, hs1, ok_bind, Bool.false_eq_true, if_false]

theorem Tracks.slotFree (h : Tracks lzo s wr) {index : Nat} {mem : Memory} (hp : (Op.slotFree index mem).Permitted lzo s) :
    ∃ o t, exec lzo s (.slotFree index mem) = .ok (o, t) ∧
      Tracks lzo t (writtenStep wr (.slotFree index mem, o)) := by
  obtain ⟨hdone, hi, hm⟩ := hp
  obtain ⟨s₁, hs1, hinv, hsame, _⟩ := zramFreePage_ok h.inv hi
  have hinv1 := hinv.agrees (hm s₁ hs1)
  have hrep : rep lzo ∘ update wr index none = update (rep lzo ∘ wr) index .empty := comp_update _ _ _ _
  refine ⟨.done, { s₁ with mem := mem, stats := { s₁.stats with notifyFree := s₁.stats.notifyFree + 1 } }, ?_,
    ⟨?_, ?_, fun hf => ?_⟩⟩
  · simp only [exec, zramSlotFreeNotify, hs1, ok_bind]
  · rw [writtenStep, hrep]
    exact ⟨hinv1.heap, ⟨hinv1.counts.pagesStored, hinv1.counts.pagesZero, hinv1.counts.pagesExpand,
      hinv1.counts.comprSize, hinv1.counts.goodCompress⟩⟩
  · show ∃ d, s₁.disksize = pageMask d
    rw [hsame.disksize]
    exact h.masked
  · have hf' : s₁.initDone = false := hf
    rw [hsame.initDone, hdone] at hf'
    cases hf'

theorem Tracks.read (hlzo : lzo.Inverts) (h : Tracks lzo s wr) (first : Nat) (olds : List Page) :
    ∃ t, exec lzo s (.read first olds) = .ok (.read (some (olds.mapIdx fun k old => (wr (first + k)).getD old)), t) ∧
      Tracks lzo t wr := by
  by_cases hd : s.initDone = true
  · refine ⟨{ s with stats := { s.stats with numReads := s.stats.numReads + 1 } }, ?_,
      ⟨⟨h.inv.heap, ⟨h.inv.counts.pagesStored, h.inv.counts.pagesZero, h.inv.counts.pagesExpand,
        h.inv.counts.comprSize, h.inv.counts.goodCompress⟩⟩, h.masked, h.fresh⟩⟩
    simp only [exec, zramRead, hd, if_true, readLoop_ok hlzo h.inv, ok_bind, Option.isSome_some]
  refine ⟨s, ?_, h⟩
  have hw := h.fresh (by simpa using hd)
  have hsame : olds.mapIdx (fun k old => (wr (first + k)).getD old) = olds := by
    apply List.ext_getElem
    · exact List.length_mapIdx
    · intro k _ _
      rw [List.getElem_mapIdx, hw, Option.getD_none]
  simp only [exec, zramRead, hd, Bool.false_eq_true, if_false, ok_bind, hsame]

theorem Tracks.step (hlzo : lzo.Inverts) (h : Tracks lzo s wr) (hp : op.Permitted lzo s) :
    exec lzo s op = .error .nullTable ∨
      ∃ o t, exec lzo s op = .ok (o, t) ∧ Tracks lzo t (writtenStep wr (op, o)) := by
  cases op with
  | write first segs outcome ram => exact h.write hp
  | read first olds =>
    obtain ⟨t, ht, htracks⟩ := h.read hlzo first olds
    exact .inr ⟨_, t, ht, htracks⟩
  | slotFree index mem => exact .inr (h.slotFree hp)

/-! ## Runs -/

theorem tracks_init (h : (machine lzo).init s) : Tracks lzo s fun _ => none := by
  obtain ⟨hdone, hmask, htable, hstats, hlive⟩ := h
  refine .of_empty ⟨⟨fun i => ?_, fun ha => ?_, fun ha => ?_, fun hp => ?_⟩, ?_⟩ hmask fun _ => rfl
  · rw [htable]
    exact ⟨rfl, rfl, rfl⟩
  · rw [hlive] at ha
    cases ha
  · rw [hlive] at ha
    cases ha
  · rw [htable] at hp
    cases hp
  · rw [hstats]
    exact ⟨(tally_empty rfl).symm, (tally_empty rfl).symm, (tally_empty rfl).symm, (tally_empty rfl).symm,
      (tally_empty rfl).symm⟩

theorem tracks_run (hlzo : lzo.Inverts) (h0 : (machine lzo).init s₀) (h : (machine lzo).Run s₀ es s) :
    Tracks lzo s (written es) := by
  refine h.summary (R := fun s wr => Tracks lzo s wr) (f := writtenStep) ?_ (tracks_init h0)
  intro s wr op o t htracks hp hx
  rcases htracks.step hlzo hp with he | ⟨o', t', hx', ht⟩
  · rw [show (machine lzo).exec s op = exec lzo s op from rfl, he] at hx
    cases hx
  · rw [show (machine lzo).exec s op = exec lzo s op from rfl, hx'] at hx
    cases hx
    exact ht

/-- The counters are those of the table, and a read gives every page as it was last successfully written. -/
theorem zram_stores_what_was_written (hlzo : lzo.Inverts) (h₀ : (machine lzo).init s₀)
    (h : (machine lzo).Run s₀ es s) :
    StatsOk s ∧
      (∀ op b, op.Permitted lzo s → exec lzo s op = .error b → b = .nullTable) ∧
      ∀ first olds, ∃ pages t, exec lzo s (.read first olds) = .ok (.read (some pages), t) ∧
        pages.length = olds.length ∧
        ∀ k p, k < olds.length → written es (first + k) = some p → pages[k]? = some p := by
  have htracks := tracks_run hlzo h₀ h
  refine ⟨htracks.inv.statsOk, fun op b hp hx => ?_, fun first olds => ?_⟩
  · rcases htracks.step hlzo hp with he | ⟨o, t, hx', _⟩
    · rw [he] at hx
      cases hx
      rfl
    · rw [hx'] at hx
      cases hx
  · obtain ⟨t, ht, _⟩ := htracks.read hlzo first olds
    refine ⟨_, t, ht, List.length_mapIdx, fun k p hk hw => ?_⟩
    rw [List.getElem?_mapIdx, List.getElem?_eq_getElem hk, Option.map_some, hw, Option.getD_some]

def plainLzo : Lzo where
  compress p := some p.toList
  decompress c _ := (true, Vector.ofFn fun i => c.getD i 0)

theorem plainLzo_inverts : plainLzo.Inverts := by
  intro p c old hc
  cases hc
  have : (Vector.ofFn fun i : Fin pageSize => p.toList.getD i 0) = p := by
    apply Vector.ext
    intro i hi
    simp [hi]
  simp [plainLzo, this]

def twoPages : Zram where
  initDone := false
  disksize := 8192
  table _ := emptyEntry
  stats := noStats
  live _ := none
  mem _ _ := 0

theorem twoPages_init : (machine plainLzo).init twoPages := ⟨rfl, ⟨8192, by decide⟩, rfl, rfl, fun _ => rfl⟩

def zeroWritten : Zram :=
  { twoPages with
    initDone := true
    table := update (fun _ => emptyEntry) 0 { emptyEntry with zero := true }
    stats := { noStats with numWrites := 1, pagesZero := 1 } }

def zeroWrite : Op := .write 0 [(zeroPage, ⟨none, fun _ _ => 0⟩)] .ok 0

theorem zeroWrite_run : (machine plainLzo).Run twoPages [(zeroWrite, .write 1 true)] zeroWritten := by
  have hzero : pageZeroFilled zeroPage = true := by
    simp only [pageZeroFilled, List.all_eq_true, zeroPage, Vector.mem_toList_iff, Vector.mem_replicate]
    rintro x ⟨_, rfl⟩
    rfl
  have hdisk : zramSetDisksize 0 8192 = 8192 := by decide
  refine Machine.Run.cons ⟨by decide, fun s₁ hs1 => ⟨fun s2 hs2 => ⟨?_, fun a ha => by cases ha⟩, fun _ _ => trivial⟩⟩
    ?_ .nil
  · simp only [zramReady, twoPages, Bool.false_eq_true, if_false, zramInitDevice] at hs1
    cases hs1
    cases hs2
    intro a o i ha
    cases ha
  · simp [machine, exec, zeroWrite, zramWrite, zramReady, zramInitDevice, twoPages, countWrite, writeLoop, storePage,
      freeOld, storeNew, emptyEntry, hzero, zeroWritten, noStats, hdisk]

theorem zero_page_read : ∃ pages t, exec plainLzo zeroWritten (.read 0 [zeroPage]) = .ok (.read (some pages), t) ∧
    pages[0]? = some zeroPage := by
  obtain ⟨_, _, hread⟩ := zram_stores_what_was_written plainLzo_inverts twoPages_init zeroWrite_run
  obtain ⟨pages, t, ht, _, hpages⟩ := hread 0 [zeroPage]
  exact ⟨pages, t, ht, hpages 0 zeroPage (by decide) rfl⟩

end G3Mod.Zram
