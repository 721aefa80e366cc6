import Mathlib.Data.Option.Defs
import G3Mod.Logger.Lemmas.Entries

/-!
# Writing an entry
-/

namespace G3Mod.Logger

variable {log log' : Log} {W orig len ret count : Nat} {bs stamp : List Byte} {c : Copy} {seg : Segment}
  {segs : List Segment}

@[simp] theorem Copy.length_bytes : (c.bytes bs).length = bs.length := by
  cases c with
  | ok => rfl
  | fault junk => rw [Copy.bytes, List.length_map, List.length_range]

theorem Copy.bytes_of_not_fails (h : c.fails = false) : c.bytes bs = bs := by
  cases c with
  | ok => rfl
  | fault junk => cases h

theorem Wrote.setWOff (h : Wrote log W bs log') (off : Nat) : Wrote log W bs { log' with wOff := off } :=
  ⟨h.size, h.head, h.rOff, h.held, h.rest⟩

theorem doWriteLogFromUser_ok (hs : Sized log) (hw : log.wOff = W % log.size)
    (hlen : (seg.base.take count).length ≤ log.size) (h : doWriteLogFromUser seg count log = .ok log') :
    Wrote log W (seg.base.take count) log' ∧ log'.wOff = (W + (seg.base.take count).length) % log.size := by
  have hwrote := doWriteLog_wrote hs hw hlen
  -- both copies went well, so that the call did what `do_write_log` does
  suffices log' = doWriteLog (seg.base.take count) log by rwa [this]
  simp only [doWriteLogFromUser] at h
  split at h
  · cases h
  rename_i hfirst
  have hbytes : seg.first.bytes ((seg.base.take count).take
      (min (seg.base.take count).length (log.size - log.wOff))) =
      (seg.base.take count).take (min (seg.base.take count).length (log.size - log.wOff)) := by
    rw [Classical.not_and_iff_not_or_not, not_not, Bool.not_eq_true] at hfirst
    rcases hfirst with h0 | hok
    · rw [h0, List.take_zero]
      exact List.eq_nil_of_length_eq_zero Copy.length_bytes
    · exact Copy.bytes_of_not_fails hok
  rw [hbytes] at h
  simp only [doWriteLog]
  split at h
  next hne =>
    split at h
    · cases h
    rename_i hsecond
    rw [Copy.bytes_of_not_fails (Bool.eq_false_of_not_eq_true hsecond)] at h
    cases h
    rw [if_pos hne]
  next heq =>
    cases h
    rw [if_neg heq]

theorem doWriteLogFromUser_error (hs : Sized log) (hw : log.wOff = W % log.size)
    (hlen : (seg.base.take count).length ≤ log.size) (h : doWriteLogFromUser seg count log = .error log') :
    ∃ bs, bs.length ≤ (seg.base.take count).length ∧ Wrote log W bs log' := by
  have htake : (seg.first.bytes ((seg.base.take count).take
      (min (seg.base.take count).length (log.size - log.wOff)))).length =
      min (seg.base.take count).length (log.size - log.wOff) := by
    rw [Copy.length_bytes, List.length_take]
    omega
  simp only [doWriteLogFromUser] at h
  split at h
  · cases h
    have := wrote_split _ [] hs.pos hw (by rw [htake, List.length_nil]; omega) (by rw [htake]; omega) (.inl rfl)
    exact ⟨_, by rw [List.append_nil, htake]; omega, this⟩
  split at h
  next hne =>
    split at h
    · cases h
      have hdrop : (seg.second.bytes ((seg.base.take count).drop
          (min (seg.base.take count).length (log.size - log.wOff)))).length =
          (seg.base.take count).length - min (seg.base.take count).length (log.size - log.wOff) := by
        rw [Copy.length_bytes, List.length_drop]
      refine ⟨_, ?_, wrote_split _ _ hs.pos hw (by omega) (by omega) (.inr (by omega))⟩
      rw [List.length_append, htake, hdrop]
      omega
    · cases h
  · cases h

/-! ## The segments -/

def segmentBytes (segs : List Segment) : List Byte := (segs.map Segment.base).flatten

theorem segmentBytes_cons : segmentBytes (seg :: segs) = seg.base ++ segmentBytes segs := by
  rw [segmentBytes, List.map_cons, List.flatten_cons, segmentBytes]

theorem length_segmentBytes : (segmentBytes segs).length = kiLeft segs := by
  induction segs with
  | nil => rfl
  | cons seg segs ih =>
    rw [segmentBytes_cons, List.length_append, ih, kiLeft, kiLeft, List.map_cons, List.sum_cons]

theorem take_min_length : bs.take (min bs.length len) = bs.take len := by
  rw [Nat.min_comm, ← List.take_take, List.take_length]

theorem take_segmentBytes (hret : ret ≤ len) : (segmentBytes (seg :: segs)).take (len - ret) =
    seg.base.take (len - ret) ++ (segmentBytes segs).take (len - (ret + min seg.base.length (len - ret))) := by
  rw [segmentBytes_cons, List.take_append]
  congr 2
  omega

theorem segmentLoop_spec {r : Option Nat} (hs : Sized log) (hw : log.wOff = W % log.size) (hret : ret ≤ len)
    (hlen : len - ret ≤ log.size) (h : segmentLoop orig len segs ret log = (r, log')) :
    ∃ bs, bs.length ≤ len - ret ∧ Wrote log W bs log' ∧
      if r.isSome then bs = (segmentBytes segs).take (len - ret) ∧ log'.wOff = (W + bs.length) % log.size
      else log'.wOff = orig := by
  induction segs generalizing W ret log with
  | nil =>
    cases h
    exact ⟨[], Nat.zero_le _, .nil, by simpa [segmentBytes] using hw⟩
  | cons seg segs ih =>
    have hcount : (seg.base.take (len - ret)).length = min seg.base.length (len - ret) := by
      rw [List.length_take, Nat.min_comm]
    rw [segmentLoop] at h
    split at h
    next log1 hx =>
      cases h
      have h1 := doWriteLogFromUser_error hs hw (by rw [take_min_length, hcount]; omega) hx
      rw [take_min_length, hcount] at h1
      obtain ⟨bs, hle, hwrote⟩ := h1
      exact ⟨bs, by omega, hwrote.setWOff _, rfl⟩
    rename_i log1 hx
    have h1 := doWriteLogFromUser_ok hs hw (by rw [take_min_length, hcount]; omega) hx
    rw [take_min_length] at h1
    obtain ⟨hwrote, hoff⟩ := h1
    have hs1 : Sized log1 := ⟨hwrote.size ▸ hs.pow, hwrote.size ▸ hs.large⟩
    obtain ⟨bs, hle, hwrote', hend⟩ := ih hs1 (hwrote.size ▸ hoff) (by omega) (by rw [hwrote.size]; omega) h
    refine ⟨_, ?_, hwrote.trans hwrote' hs.pos (by omega), ?_⟩
    · rw [List.length_append]
      omega
    split at hend
    · next hr =>
      rw [if_pos hr, take_segmentBytes hret, hend.1]
      refine ⟨rfl, ?_⟩
      rw [hend.2, hwrote.size, hend.1, List.length_append, Nat.add_assoc]
    · next hr => rwa [if_neg hr]

def entryLen (segs : List Segment) : Nat := headerSize + min (kiLeft segs) entryMaxPayload

theorem entryLen_le (segs : List Segment) : entryLen segs ≤ entryMaxLen := by
  have : entryMaxPayload = 4076 := rfl
  have : headerSize = 20 := rfl
  have : entryMaxLen = 4096 := rfl
  unfold entryLen
  omega

theorem length_header (hstamp : stamp.length + 2 = headerSize) : (header len stamp).length = headerSize := by
  rw [header, List.length_append, ← hstamp, Nat.add_comm]
  rfl

theorem entryOf_eq : entryOf stamp segs = header (min (kiLeft segs) entryMaxPayload) stamp ++
    (segmentBytes segs).take (min (kiLeft segs) entryMaxPayload) := by
  rw [entryOf, payload]
  congr 1
  rw [← length_segmentBytes, take_min_length]
  rfl

theorem length_entryOf (hstamp : stamp.length + 2 = headerSize) : (entryOf stamp segs).length = entryLen segs := by
  rw [entryOf_eq, List.length_append, length_header hstamp, List.length_take, length_segmentBytes, entryLen]
  omega

theorem entryOf_framed (hstamp : stamp.length + 2 = headerSize) : Framed (entryOf stamp segs) where
  len := by
    have hlen : min (kiLeft segs) entryMaxPayload < 65536 :=
      Nat.lt_of_le_of_lt (Nat.min_le_right _ _) (by decide)
    refine ⟨_, _, stamp ++ (segmentBytes segs).take (min (kiLeft segs) entryMaxPayload), entryOf_eq, ?_⟩
    rw [length_entryOf hstamp, entryLen, le16, UInt8.toNat_ofNat', UInt8.toNat_ofNat']
    congr 1
    omega
  le := length_entryOf hstamp ▸ entryLen_le segs

theorem loggerAioWrite_cases {ret : Option Nat} (hs : Sized log) (hw : log.wOff = W % log.size)
    (hstamp : stamp.length + 2 = headerSize) (hne : min (kiLeft segs) entryMaxPayload ≠ 0)
    (h : loggerAioWrite orig stamp segs log = (ret, log')) :
    match ret with
    | some _ => Wrote (fixUpReaders (entryLen segs) log) W (entryOf stamp segs) log' ∧
        log'.wOff = (W + (entryOf stamp segs).length) % log.size
    | none => log'.wOff = orig ∧
        ∃ bs, bs.length ≤ entryLen segs ∧ Wrote (fixUpReaders (entryLen segs) log) W bs log' := by
  have hlarge := hs.large
  have hle := entryLen_le segs
  have hs' : Sized (fixUpReaders (entryLen segs) log) := ⟨hs.pow, hs.large⟩
  have hhead : (header (min (kiLeft segs) entryMaxPayload) stamp).length = headerSize := length_header hstamp
  have hlen : headerSize + min (kiLeft segs) entryMaxPayload = entryLen segs := rfl
  have hfits : (header (min (kiLeft segs) entryMaxPayload) stamp).length ≤ (fixUpReaders (entryLen segs) log).size := by
    rw [hhead]
    show headerSize ≤ log.size
    omega
  obtain ⟨hwrote, hoff⟩ := doWriteLog_wrote (W := W) hs' hw hfits
  simp only [loggerAioWrite, if_neg hne, hlen] at h
  have hs1 : Sized (doWriteLog (header (min (kiLeft segs) entryMaxPayload) stamp)
      (fixUpReaders (entryLen segs) log)) := ⟨hs.pow, hs.large⟩
  have hsize : (fixUpReaders (entryLen segs) log).size = log.size := rfl
  have hsize1 : (doWriteLog (header (min (kiLeft segs) entryMaxPayload) stamp)
      (fixUpReaders (entryLen segs) log)).size = log.size := rfl
  cases ret with
  | some n =>
    obtain ⟨_, -, hwrote', rfl, hoff'⟩ := segmentLoop_spec hs1 hoff (Nat.zero_le _) (by omega) h
    rw [Nat.sub_zero] at hwrote' hoff'
    simp only [entryOf_eq]
    refine ⟨hwrote.trans hwrote' hs.pos ?_, ?_⟩
    · rw [hhead, List.length_take]
      omega
    · rw [hoff', hsize1, List.length_append, Nat.add_assoc]
  | none =>
    obtain ⟨bs, hbs, hwrote', horig⟩ := segmentLoop_spec hs1 hoff (Nat.zero_le _) (by omega) h
    refine ⟨horig, _, ?_, hwrote.trans hwrote' hs.pos ?_⟩
    · rw [List.length_append, hhead]
      omega
    · rw [hhead]
      omega

/-! # The ring holds the end of the queue -/

open Function

variable {f f' : Fifo} {es : List (List Byte)} {e : List Byte} {n off L : Nat} {r : ReaderId} {rd : Reader} {recv :
  List (List Byte)}

/-- The offset `off` is that of entry `n` of `es`, from where all entries are in the buffer. -/
structure At (log : Log) (es : List (List Byte)) (n off : Nat) : Prop where
  le : n ≤ es.length
  off : off = (es.take n).flatten.length % log.size
  lt : es.flatten.length < (es.take n).flatten.length + log.size
  held : Held log (es.take n).flatten.length (es.drop n).flatten

theorem take_add_drop (es : List (List Byte)) (n : Nat) : (es.take n).flatten.length + (es.drop n).flatten.length = es.flatten.length := by
  rw [← List.length_append, ← List.flatten_append, List.take_append_drop]

theorem length_take_add (n m : Nat) :
    (es.take (n + m)).flatten.length = (es.take n).flatten.length + ((es.drop n).take m).flatten.length := by
  rw [List.take_add, List.flatten_append, List.length_append]

theorem At.advance {m : Nat} (h : At log es n off) (hm : n + m ≤ es.length) :
    At log es (n + m) ((es.take (n + m)).flatten.length % log.size) where
  le := hm
  off := rfl
  lt := by
    have := h.lt
    rw [length_take_add]
    omega
  held := by
    have := h.held
    rw [← List.take_append_drop m (es.drop n), List.flatten_append, held_append, List.drop_drop] at this
    rw [length_take_add]
    exact this.2

theorem At.fixUp (h : At log f.entries n off) (hs : Sized log) (hw : log.wOff = f.total % log.size)
    (he : ∀ e ∈ f.entries, Framed e) (hL : 0 < L) (hLm : L ≤ entryMaxLen) :
    At log f.entries (f.lap log.size L n) (fixUp log L off) ∧
      f.total + L < f.pos (f.lap log.size L n) + log.size := by
  have hlt := h.lt
  have hsum := take_add_drop f.entries n
  obtain ⟨heq, hfit⟩ := fixUp_eq hs hw (fun e hm => he e (List.mem_of_mem_drop hm)) h.held hsum hlt hL hLm
  rw [← h.off] at heq
  unfold Fifo.lap
  rw [heq]
  by_cases hlap : f.Lapped log.size L n
  · have hle : dropCount L (f.entries.drop n) ≤ f.entries.length - n := by
      rw [← List.length_drop]
      exact dropCount_le
    have hge := le_dropCount (hfit hlap)
    have hn := h.le
    have hadv := h.advance (m := dropCount L (f.entries.drop n)) (by omega)
    rw [if_pos hlap]
    rw [length_take_add] at hadv
    rw [show (if (f.entries.take n).flatten.length + log.size ≤ f.total + L then _ else _) = _ from if_pos hlap]
    refine ⟨hadv, ?_⟩
    unfold Fifo.pos Fifo.total
    rw [length_take_add]
    omega
  · rw [if_neg hlap, show (if (f.entries.take n).flatten.length + log.size ≤ f.total + L then _ else _) = _ from
      if_neg hlap, ← h.off]
    exact ⟨h, Nat.lt_of_not_le hlap⟩

theorem At.wrote (h : At log es n off) (hb : log'.size = log.size)
    (hkeep : ∀ {P cs}, Held log P cs → P + cs.length = es.flatten.length → cs.length + L ≤ log.size → Held log' P cs)
    (hlt : es.flatten.length + L < (es.take n).flatten.length + log.size) : At log' es n off where
  le := h.le
  off := hb ▸ h.off
  lt := hb ▸ h.lt
  held := hkeep h.held (take_add_drop es n) (by have := take_add_drop es n; omega)

theorem At.snoc (h : At log es n off) (hheld : Held log es.flatten.length e)
    (hlt : es.flatten.length + e.length < (es.take n).flatten.length + log.size) : At log (es ++ [e]) n off := by
  have htake : (es ++ [e]).take n = es.take n := List.take_append_of_le_length h.le
  refine ⟨?_, ?_, ?_, ?_⟩
  · rw [List.length_append]
    exact Nat.le_add_right_of_le h.le
  · rw [htake]
    exact h.off
  · rw [htake, List.flatten_append, List.length_append]
    simpa using hlt
  · rw [htake, List.drop_append_of_le_length h.le, List.flatten_append, held_append, take_add_drop]
    exact ⟨h.held, by simpa using hheld⟩

structure Rel (log : Log) (f : Fifo) : Prop where
  sized : Sized log
  wOff : log.wOff = f.total % log.size
  framed : ∀ e ∈ f.entries, Framed e
  head : At log f.entries f.head log.head
  reader : ∀ r, Option.Rel (fun off rd => At log f.entries rd.next off) (log.rOff r) (f.reader r)

theorem Rel.walk (h : Rel log f) (ha : At log f.entries n off) : ∃ m < log.size, Walk log off m := by
  have hsum := take_add_drop f.entries n
  have hlt := ha.lt
  refine ⟨_, ?_, ha.off ▸ walk_entries h.sized h.wOff (fun e hm => h.framed e (List.mem_of_mem_drop hm)) ha.held hsum⟩
  omega

theorem Rel.readable (h : Rel log f) (ha : At log f.entries n off) : readable log off = f.entries.drop n := by
  have hsum := take_add_drop f.entries n
  have hlt := ha.lt
  rw [ha.off]
  exact readableLoop_eq _ h.sized h.wOff (fun e hm => h.framed e (List.mem_of_mem_drop hm)) ha.held hsum hlt (by omega)

theorem Rel.next (h : Rel log f) (hrd : f.reader r = some rd) :
    ∃ off, log.rOff r = some off ∧ At log f.entries rd.next off := by
  have := h.reader r
  rw [hrd] at this
  revert this
  cases log.rOff r with
  | none => intro h; cases h
  | some off => intro h; cases h with | some ha => exact ⟨off, rfl, ha⟩

theorem Rel.place (h : Rel log f) (hoff : log.rOff r = some off) :
    ∃ rd, f.reader r = some rd ∧ At log f.entries rd.next off := by
  have := h.reader r
  rw [hoff] at this
  revert this
  cases f.reader r with
  | none => intro h; cases h
  | some rd => intro h; cases h with | some ha => exact ⟨rd, rfl, ha⟩

theorem At.next (h : At log es n off) (hs : Sized log) (hw : log.wOff = es.flatten.length % log.size)
    (he : ∀ e ∈ es, Framed e) (hne : log.wOff ≠ off) : ∃ e, es[n]? = some e ∧ getEntryLen off log = e.length ∧
      readBytes off e.length log = e ∧ At log es (n + 1) (loggerOffset (off + e.length) log) := by
  have hn : n < es.length := by
    refine Nat.lt_of_le_of_ne h.le fun heq => hne ?_
    rw [h.off, heq, List.take_length, hw]
  have hdrop : es.drop n = es[n] :: es.drop (n + 1) := List.drop_eq_getElem_cons hn
  have hfr := he _ (List.getElem_mem hn)
  have hheld := h.held
  rw [hdrop, List.flatten_cons] at hheld
  have hle := hfr.le
  have hlarge := hs.large
  refine ⟨es[n], List.getElem?_eq_getElem hn, ?_, ?_, ?_⟩
  · rw [h.off, getEntryLen_eq hs hfr hheld]
  · rw [h.off, readBytes_eq hs (held_append.mp hheld).1 (by omega)]
  · have := h.advance (m := 1) hn
    rw [length_take_add, hdrop, List.take_succ_cons, List.take_zero, List.flatten_singleton] at this
    rwa [hs.offset_eq, h.off, Nat.mod_add_mod]

/-- The reader has got `recv`, the entries `got` in order; the others up to the next one are dropped. -/
structure Reader.Got (rd : Reader) (es recv : List (List Byte)) : Prop where
  le : rd.start ≤ rd.next
  sorted : rd.got.Pairwise (· < ·)
  perm : (rd.got ++ rd.dropped).Perm (List.range' rd.start (rd.next - rd.start))
  recv : recv = rd.got.map fun i => es.getD i []

theorem Reader.Got.lt (h : rd.Got es recv) {i : Nat} (hi : i ∈ rd.got) : i < rd.next := by
  have := h.perm.subset (List.mem_append_left _ hi)
  rw [List.mem_range'_1] at this
  omega

theorem newReader_got : (newReader n).Got es [] := ⟨Nat.le_refl _, .nil, by simp [newReader], rfl⟩

theorem Reader.Got.skipTo (h : rd.Got es recv) (hn : rd.next ≤ n) : (rd.skipTo n).Got es recv where
  le := Nat.le_trans h.le hn
  sorted := h.sorted
  perm := by
    have hle := h.le
    have happ : List.range' rd.start (n - rd.start) =
        List.range' rd.start (rd.next - rd.start) ++ List.range' rd.next (n - rd.next) := by
      have := List.range'_append_1 (s := rd.start) (m := rd.next - rd.start) (n := n - rd.next)
      rw [Nat.add_sub_cancel' hle] at this
      rw [this]
      congr 1
      omega
    show (rd.got ++ (rd.dropped ++ List.range' rd.next (n - rd.next))).Perm (List.range' rd.start (n - rd.start))
    rw [← List.append_assoc, happ]
    exact h.perm.append_right _
  recv := h.recv

theorem Reader.Got.readNext (h : rd.Got es recv) (he : es[rd.next]? = some e) :
    rd.readNext.Got es (recv ++ [e]) where
  le := Nat.le_succ_of_le h.le
  sorted := by
    refine List.pairwise_append.mpr ⟨h.sorted, List.pairwise_singleton _ _, ?_⟩
    intro i hi j hj
    rw [List.mem_singleton.mp hj]
    exact h.lt hi
  perm := by
    have hle := h.le
    have hone : List.range' rd.start (rd.next + 1 - rd.start) = List.range' rd.start (rd.next - rd.start) ++ [rd.next] := by
      rw [Nat.sub_add_comm hle, List.range'_1_concat, Nat.add_sub_cancel' hle]
    show ((rd.got ++ [rd.next]) ++ rd.dropped).Perm (List.range' rd.start (rd.next + 1 - rd.start))
    rw [hone, List.append_assoc]
    have hswap : ([rd.next] ++ rd.dropped).Perm (rd.dropped ++ [rd.next]) := List.perm_append_comm
    refine (hswap.append_left _).trans ?_
    rw [← List.append_assoc]
    exact h.perm.append_right _
  recv := by
    show recv ++ [e] = (rd.got ++ [rd.next]).map fun i => es.getD i []
    rw [List.map_append, ← h.recv, List.map_singleton, List.getD_eq_getElem?_getD, he, Option.getD_some]

theorem Reader.Got.append {es' : List (List Byte)} (h : rd.Got es recv) (hn : rd.next ≤ es.length) :
    rd.Got (es ++ es') recv where
  le := h.le
  sorted := h.sorted
  perm := h.perm
  recv := by
    rw [h.recv]
    refine List.map_congr_left fun i hi => ?_
    rw [List.getD_eq_getElem?_getD, List.getD_eq_getElem?_getD,
      List.getElem?_append_left (Nat.lt_of_lt_of_le (h.lt hi) hn)]

end G3Mod.Logger
