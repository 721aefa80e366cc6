import G3Mod.Logger.Lemmas.Refine

/-!
# The echo of boot-time messages

`do_write_log_from_user` copies a segment that begins with `!@` also to `klog_buf`, from where it is printed.
-/

namespace G3Mod.Logger

variable {log log' : Log} {klog klog' : Nat → Byte} {buffer : Nat → Byte} {seg : Segment} {bs rest : List Byte}
  {count off size i : Nat} {reads : List Nat}

def markFirst : Byte := 0x21

def markSecond : Byte := 0x40

/-- Whether `strncmp(buffer + off, "!@", 2)` is 0, and the offsets that it reads. -/
def compareMark (off : Nat) (buffer : Nat → Byte) : Bool × List Nat :=
  if buffer off = markFirst then (buffer (off + 1) == markSecond, [off, off + 1]) else (false, [off])

/-- `klog_buf` after a segment of `count` bytes has been written at `off`, and the offsets of the log that are read. -/
def fillKlog (off count : Nat) (buffer klog : Nat → Byte) : (Nat → Byte) × List Nat :=
  let cleared : Nat → Byte := fun x => if x < 255 then 0 else klog x
  let (same, compared) := compareMark off buffer
  if same then
    let n := if count < 255 then count else 255
    (Function.update (memcpy 0 ((List.range n).map fun i => buffer (off + i)) cleared) 255 0,
      compared ++ (List.range n).map (off + ·))
  else (cleared, compared)

/-- `do_write_log_from_user` with `klog_buf`, and the offsets of the log that are read for it. -/
def writeWithKlog (seg : Segment) (count : Nat) (log : Log) (klog : Nat → Byte) :
    Except Log (Log × (Nat → Byte) × List Nat) :=
  match doWriteLogFromUser seg count log with
  | .error log' => .error log'
  | .ok log' => .ok (log', fillKlog log.wOff (seg.base.take count).length log'.buffer klog)

/-- The first bytes of `klog_buf` are the ones of the segment, and nothing outside of the log was read for them. -/
structure Echoed (size : Nat) (bs : List Byte) (klog : Nat → Byte) (reads : List Nat) : Prop where
  bytes : (List.range (min bs.length 255)).map klog = bs.take 255
  inside : ∀ x ∈ reads, x < size

theorem compareMark_of_mark (h0 : buffer off = markFirst) (h1 : buffer (off + 1) = markSecond) :
    compareMark off buffer = (true, [off, off + 1]) := by
  rw [compareMark, if_pos h0, h1]
  rfl

theorem fillKlog_of_mark (h0 : buffer off = markFirst) (h1 : buffer (off + 1) = markSecond) :
    fillKlog off count buffer klog =
      (Function.update (memcpy 0 ((List.range (min count 255)).map fun i => buffer (off + i))
          fun x => if x < 255 then 0 else klog x) 255 0,
        [off, off + 1] ++ (List.range (min count 255)).map (off + ·)) := by
  have hn : (if count < 255 then count else 255) = min count 255 := by
    split <;> omega
  simp only [fillKlog, compareMark_of_mark h0 h1, hn, if_true]

theorem echoed_of_held (h : ∀ i b, i < 255 → bs[i]? = some b → buffer (off + i) = b)
    (hbs : bs = markFirst :: markSecond :: rest)
    (hfit : off + min bs.length 255 ≤ size) :
    Echoed size bs (fillKlog off bs.length buffer klog).1 (fillKlog off bs.length buffer klog).2 := by
  have h0 : buffer off = markFirst := h 0 _ (by decide) (by rw [hbs]; rfl)
  have h1 : buffer (off + 1) = markSecond := h 1 _ (by decide) (by rw [hbs]; rfl)
  rw [fillKlog_of_mark h0 h1]
  dsimp only
  constructor
  · apply List.ext_getElem
    · rw [List.length_map, List.length_range, List.length_take, Nat.min_comm]
    intro i hi hi'
    rw [List.length_map, List.length_range] at hi
    rw [List.getElem_map, List.getElem_range, Function.update_of_ne (by omega), List.getElem_take]
    have hcopy := memcpy_of_mem (w := 0) (x := i) (fun x => if x < 255 then 0 else klog x)
      ((List.range (min bs.length 255)).map fun i => buffer (off + i)) (Nat.zero_le _)
      (by rw [List.length_map, List.length_range]; omega)
    rw [Nat.sub_zero, List.getElem?_map, List.getElem?_range hi, Option.map_some, Option.some_inj] at hcopy
    rw [hcopy]
    exact h i _ (by omega) (List.getElem?_eq_getElem (by omega))
  · grind

/-- A segment is echoed as it is exactly when what `klog_buf` takes of it fits before the end of the ring. -/
theorem writeWithKlog_echoed_iff (hs : Sized log) (hw : log.wOff < log.size)
    (hmark : seg.base.take count = markFirst :: markSecond :: rest) (hlen : (seg.base.take count).length ≤ log.size)
    (hx : writeWithKlog seg count log klog = .ok (log', klog', reads)) :
    Echoed log.size (seg.base.take count) klog' reads ↔
      log.wOff + min (seg.base.take count).length 255 ≤ log.size := by
  cases hwrite : doWriteLogFromUser seg count log with
  | error l => rw [writeWithKlog, hwrite] at hx; cases hx
  | ok l =>
    rw [writeWithKlog, hwrite] at hx
    obtain ⟨rfl, hfill⟩ := Prod.mk.inj (Except.ok.inj hx)
    obtain rfl : _ = klog' := congrArg Prod.fst hfill
    obtain rfl : _ = reads := congrArg Prod.snd hfill
    obtain ⟨hwrote, _⟩ := doWriteLogFromUser_ok hs (Nat.mod_eq_of_lt hw).symm hlen hwrite
    have hheld : ∀ i b, (seg.base.take count)[i]? = some b → l.buffer ((log.wOff + i) % log.size) = b :=
      hwrote.size ▸ hwrote.held
    have h0 : l.buffer log.wOff = markFirst := by
      have := hheld 0 markFirst (by rw [hmark]; rfl)
      rwa [Nat.add_zero, Nat.mod_eq_of_lt hw] at this
    constructor
    · intro he
      by_contra hout
      have hin := he.inside
      -- `strncmp` reads past the end itself, or else finds the mark, so that `memcpy` does
      by_cases hlast : log.wOff + 1 = log.size
      · have := hin (log.wOff + 1) (by
          simp only [fillKlog, compareMark, h0, if_true]
          split
          · exact List.mem_append_left _ (by simp)
          · simp)
        omega
      have h1 : l.buffer (log.wOff + 1) = markSecond := by
        have := hheld 1 markSecond (by rw [hmark]; rfl)
        rwa [Nat.mod_eq_of_lt (by omega)] at this
      rw [fillKlog_of_mark h0 h1] at hin
      have := hin log.size (by
        refine List.mem_append_right _ (List.mem_map.mpr ⟨log.size - log.wOff, ?_, by omega⟩)
        rw [List.mem_range]
        omega)
      omega
    · intro hfit
      refine echoed_of_held (fun i b hi hb => ?_) hmark hfit
      have hlt := (List.getElem?_eq_some_iff.mp hb).1
      have := hheld i b hb
      rwa [Nat.mod_eq_of_lt (by omega)] at this

def zeroLog (off : Nat) : Log where
  buffer _ := 0
  wOff := off
  head := off
  size := 2 ^ 13
  rOff _ := none

def goSegment : Segment := ⟨[0x21, 0x40, 0x67, 0x6f], .ok, .ok⟩

theorem zeroLog_sized (off : Nat) : Sized (zeroLog off) := ⟨⟨13, rfl⟩, (by decide : entryMaxLen < 2 ^ 13)⟩

theorem go_echoed : ∃ log' klog' reads, writeWithKlog goSegment 4 (zeroLog 8188) (fun _ => 0) = .ok (log', klog', reads) ∧
    Echoed 8192 goSegment.base klog' reads := by
  refine ⟨_, _, _, rfl, ?_⟩
  have hmark : goSegment.base.take 4 = markFirst :: markSecond :: [0x67, 0x6f] := rfl
  exact (writeWithKlog_echoed_iff (zeroLog_sized 8188) (by decide) hmark (by decide) rfl).mpr (by decide)

/-- The last two bytes of the segment are at the start of the ring; `klog_buf` gets the memory behind the log instead. -/
theorem go_not_echoed : ∃ log' klog' reads,
    writeWithKlog goSegment 4 (zeroLog 8190) (fun _ => 0) = .ok (log', klog', reads) ∧
      (List.range 4).map klog' = [0x21, 0x40, 0, 0] ∧ 8192 ∈ reads ∧ ¬ Echoed 8192 goSegment.base klog' reads :=
  ⟨_, _, _, rfl, by decide, by decide, fun h => absurd (h.inside 8192 (by decide)) (by decide)⟩

end G3Mod.Logger
