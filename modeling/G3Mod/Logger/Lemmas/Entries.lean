import Mathlib.Algebra.Order.Group.Nat
import G3Mod.Logger.Spec

/-!
# The ring buffer

The byte at position `x` among all bytes ever written is at the offset `x % size`.
-/

namespace G3Mod.Logger

open Function

variable {log log' log'' : Log} {k W P L x i w n : Nat} {bs cs : List Byte}

structure Sized (log : Log) : Prop where
  pow : ∃ k, log.size = 2 ^ k
  large : entryMaxLen < log.size

theorem Sized.pos (h : Sized log) : 0 < log.size := Nat.lt_of_le_of_lt (Nat.zero_le _) h.large

theorem Sized.offset_eq (h : Sized log) : loggerOffset n log = n % log.size := by
  obtain ⟨k, hk⟩ := h.pow
  rw [loggerOffset, hk, Nat.and_two_pow_sub_one_eq_mod]

theorem Sized.two_mul_le (h : Sized log) : 2 * entryMaxLen ≤ log.size := by
  obtain ⟨k, hk⟩ := h.pow
  have hlt := h.large
  rw [hk] at hlt ⊢
  have hmax : entryMaxLen = 2 ^ 12 := rfl
  rw [hmax] at hlt ⊢
  have : 12 < k := (Nat.pow_lt_pow_iff_right (by decide)).mp hlt
  calc 2 * 2 ^ 12 = 2 ^ 13 := by decide
    _ ≤ 2 ^ k := Nat.pow_le_pow_right (by decide) this

/-! ## What the buffer holds -/

def Held (log : Log) (P : Nat) (bs : List Byte) : Prop :=
  ∀ i b, bs[i]? = some b → log.buffer ((P + i) % log.size) = b

theorem Held.nil : Held log P [] := fun i b h => by simp at h

theorem held_append : Held log P (bs ++ cs) ↔ Held log P bs ∧ Held log (P + bs.length) cs := by
  constructor
  · intro h
    refine ⟨fun i b hb => h i b ?_, fun i b hb => ?_⟩
    · grind
    · rw [Nat.add_assoc]
      apply h
      rw [List.getElem?_append_right (Nat.le_add_right _ _), Nat.add_sub_cancel_left, hb]
  rintro ⟨h1, h2⟩ i b hb
  by_cases hi : i < bs.length
  · rw [List.getElem?_append_left hi] at hb
    exact h1 i b hb
  · rw [List.getElem?_append_right (Nat.le_of_not_lt hi)] at hb
    have := h2 _ b hb
    rwa [Nat.add_assoc, Nat.add_sub_cancel' (Nat.le_of_not_lt hi)] at this

structure Wrote (log : Log) (W : Nat) (bs : List Byte) (log' : Log) : Prop where
  size : log'.size = log.size
  head : log'.head = log.head
  rOff : log'.rOff = log.rOff
  held : Held log' W bs
  rest : ∀ x < log.size, (∀ i < bs.length, (W + i) % log.size ≠ x) → log'.buffer x = log.buffer x

theorem mod_ne (hi : P < W) (hlt : W < P + n) : P % n ≠ W % n := by
  intro h
  have hsub : (W - P) % n = 0 := Nat.sub_mod_eq_zero_of_mod_eq h.symm
  rw [Nat.mod_eq_of_lt (by omega)] at hsub
  omega

theorem Wrote.keeps (h : Wrote log W cs log') (hpos : 0 < log.size) (hh : Held log P bs) (hW : P + bs.length = W)
    (hlt : bs.length + cs.length ≤ log.size) : Held log' P bs := by
  intro i b hb
  have hi := (List.getElem?_eq_some_iff.mp hb).1
  rw [h.size, h.rest _ (Nat.mod_lt _ hpos)]
  · exact hh i b hb
  · intro j hj
    exact Ne.symm (mod_ne (by omega) (by omega))

theorem Wrote.nil : Wrote log W [] log := ⟨rfl, rfl, rfl, .nil, fun _ _ _ => rfl⟩

theorem Wrote.trans (h : Wrote log W bs log') (h' : Wrote log' (W + bs.length) cs log'') (hpos : 0 < log.size)
    (hlen : bs.length + cs.length ≤ log.size) : Wrote log W (bs ++ cs) log'' where
  size := h'.size.trans h.size
  head := h'.head.trans h.head
  rOff := h'.rOff.trans h.rOff
  held := held_append.mpr ⟨h'.keeps (h.size ▸ hpos) h.held rfl (by rw [h.size]; exact hlen), h'.held⟩
  rest x hx hne := by
    rw [List.length_append] at hne
    rw [h'.rest x (h.size ▸ hx), h.rest x hx]
    · exact fun i hi => hne i (by omega)
    · intro i hi
      rw [h.size, Nat.add_assoc]
      exact hne _ (by omega)

theorem memcpy_of_mem (buffer : Nat → Byte) (bs : List Byte) (h : w ≤ x) (h' : x < w + bs.length) :
    some (memcpy w bs buffer x) = bs[x - w]? := by
  rw [memcpy, if_pos ⟨h, h'⟩, List.getD_eq_getElem?_getD, List.getElem?_eq_getElem (by omega)]
  rfl

theorem memcpy_of_not_mem {buffer : Nat → Byte} (h : ¬ (w ≤ x ∧ x < w + bs.length)) :
    memcpy w bs buffer x = buffer x := by rw [memcpy, if_neg h]

theorem add_mod_cases (hpos : 0 < n) (hi : i < n) :
    (W + i) % n = if W % n + i < n then W % n + i else W % n + i - n := by
  have hw := Nat.mod_lt W hpos
  rw [Nat.add_mod, Nat.mod_eq_of_lt hi]
  split
  · next h => exact Nat.mod_eq_of_lt h
  · next h => rw [Nat.mod_eq_sub_mod (by omega), Nat.mod_eq_of_lt (by omega)]

theorem wrote_split (bs cs : List Byte) (hpos : 0 < log.size) (hw : log.wOff = W % log.size) (hlen : bs.length + cs.length ≤ log.size)
    (hend : bs.length ≤ log.size - log.wOff) (hcs : cs = [] ∨ bs.length = log.size - log.wOff) :
    Wrote log W (bs ++ cs) { log with buffer := memcpy 0 cs (memcpy log.wOff bs log.buffer) } := by
  have hwlt : W % log.size < log.size := Nat.mod_lt _ hpos
  rw [hw] at hend hcs ⊢
  have hshort : cs.length ≤ W % log.size := by
    rcases hcs with rfl | h
    · exact Nat.zero_le _
    · omega
  refine ⟨rfl, rfl, rfl, fun i b hb => ?_, fun x hx hne => ?_⟩
  · have hi := (List.getElem?_eq_some_iff.mp hb).1
    rw [List.length_append] at hi
    show memcpy 0 cs (memcpy (W % log.size) bs log.buffer) ((W + i) % log.size) = b
    rw [add_mod_cases hpos (by omega)]
    by_cases h : i < bs.length
    · rw [List.getElem?_append_left h] at hb
      rw [if_pos (by omega), memcpy_of_not_mem (by omega)]
      have := memcpy_of_mem (w := W % log.size) (x := W % log.size + i) log.buffer bs
        (by omega) (by omega)
      rw [Nat.add_sub_cancel_left, hb] at this
      exact Option.some.inj this
    have hcs : bs.length = log.size - W % log.size := by grind
    rw [List.getElem?_append_right (by omega)] at hb
    rw [if_neg (by omega)]
    have := memcpy_of_mem (w := 0) (x := W % log.size + i - log.size)
      (memcpy (W % log.size) bs log.buffer) cs (by omega) (by omega)
    rw [show W % log.size + i - log.size - 0 = i - bs.length by omega, hb] at this
    exact Option.some.inj this
  · rw [List.length_append] at hne
    show memcpy 0 cs (memcpy (W % log.size) bs log.buffer) x = log.buffer x
    rw [memcpy_of_not_mem, memcpy_of_not_mem]
    · intro hin
      refine hne (x - W % log.size) (by omega) ?_
      rw [add_mod_cases hpos (by omega), if_pos (by omega)]
      omega
    intro hin
    have hcs : bs.length = log.size - W % log.size := by grind
    refine hne (bs.length + x) (by omega) ?_
    rw [add_mod_cases hpos (by omega), if_neg (by omega)]
    omega

theorem memcpy_nil {buffer : Nat → Byte} : memcpy w [] buffer = buffer := by
  funext x
  exact memcpy_of_not_mem (by simp only [List.length_nil]; omega)

theorem doWriteLog_wrote (hs : Sized log) (hw : log.wOff = W % log.size) (hlen : bs.length ≤ log.size) :
    Wrote log W bs (doWriteLog bs log) ∧ (doWriteLog bs log).wOff = (W + bs.length) % log.size := by
  have hpos := hs.pos
  refine ⟨?_, ?_⟩
  · have htake : (bs.take (min bs.length (log.size - log.wOff))).length = min bs.length (log.size - log.wOff) := by
      rw [List.length_take]
      omega
    have hdrop : (bs.drop (min bs.length (log.size - log.wOff))).length =
        bs.length - min bs.length (log.size - log.wOff) := List.length_drop
    have h := wrote_split (bs.take (min bs.length (log.size - log.wOff)))
      (bs.drop (min bs.length (log.size - log.wOff))) hpos hw (by omega) (by omega) (by
        by_cases hle : bs.length ≤ log.size - log.wOff
        · exact .inl (by rw [Nat.min_eq_left hle, List.drop_length])
        · exact .inr (by rw [htake, Nat.min_eq_right (by omega)]))
    rw [List.take_append_drop] at h
    refine ⟨rfl, rfl, rfl, fun i b hb => ?_, fun x hx hne => ?_⟩
    · have := h.held i b hb
      simp only [doWriteLog]
      split
      · exact this
      next he =>
        rw [not_not] at he
        rwa [← he, List.drop_length, memcpy_nil, he] at this
    have := h.rest x hx hne
    simp only [doWriteLog]
    split
    · exact this
    next he =>
      rw [not_not] at he
      rwa [← he, List.drop_length, memcpy_nil, he] at this
  · simp only [doWriteLog]
    rw [hs.offset_eq, hw, Nat.mod_add_mod]

/-! # Entries in the ring -/

variable {off len count fuel : Nat} {e rest : List Byte} {es : List (List Byte)}

structure Framed (e : List Byte) : Prop where
  len : ∃ b₀ b₁ bs, e = b₀ :: b₁ :: bs ∧ e.length = headerSize + le16 b₀ b₁
  le : e.length ≤ entryMaxLen

theorem Framed.pos (h : Framed e) : 0 < e.length := by
  obtain ⟨b0, b1, bs, _, hl⟩ := h.len
  rw [hl]
  exact Nat.lt_of_lt_of_le (by decide : 0 < headerSize) (Nat.le_add_right _ _)

theorem getEntryLen_eq (hs : Sized log) (he : Framed e) (h : Held log P (e ++ rest)) :
    getEntryLen (P % log.size) log = e.length := by
  obtain ⟨b0, b1, bs, rfl, hl⟩ := he.len
  have hlt := Nat.mod_lt P hs.pos
  have hlarge : 4096 < log.size := hs.large
  have h0 : log.buffer (P % log.size) = b0 := by
    have := h 0 b0 rfl
    rwa [Nat.add_zero] at this
  have h1 := h 1 b1 rfl
  rw [add_mod_cases hs.pos (by omega)] at h1
  rw [hl, getEntryLen, h0]
  congr 1
  split
  next hend =>
    -- the length goes around the end of the buffer
    rw [if_neg (by omega), show P % log.size + 1 - log.size = 0 by omega] at h1
    rw [h1]
  next hend =>
    rw [if_pos (by omega)] at h1
    rw [h1]

theorem dropCount_le : dropCount len es ≤ es.length := by
  induction es generalizing len with
  | nil => exact Nat.le_refl 0
  | cons e es ih =>
    rw [dropCount]
    split
    · exact Nat.succ_le_succ ih
    · exact Nat.succ_le_succ (Nat.zero_le _)

theorem le_dropCount (h : len ≤ es.flatten.length) : len ≤ ((es.take (dropCount len es)).flatten).length := by
  induction es generalizing len with
  | nil => exact h
  | cons e es ih =>
    rw [dropCount]
    split
    · grind
    · simp_all

theorem getNextEntryLoop_eq (fuel : Nat) (hs : Sized log) (he : ∀ e ∈ es, Framed e) (h : Held log P es.flatten)
    (hc : count < len) (hlen : len ≤ count + es.flatten.length) (hf : len ≤ fuel + count) :
    getNextEntryLoop len log fuel (P % log.size) count =
      (P + ((es.take (dropCount (len - count) es)).flatten).length) % log.size := by
  induction fuel generalizing P count es with
  | zero => omega
  | succ fuel ih =>
    cases es with
    | nil => simp only [List.flatten_nil, List.length_nil] at hlen; omega
    | cons e es =>
      have hfr := he e List.mem_cons_self
      have hpos := hfr.pos
      rw [List.flatten_cons] at h hlen
      rw [List.length_append] at hlen
      have hnr := getEntryLen_eq hs hfr h
      rw [getNextEntryLoop, dropCount]
      simp only [hnr, hs.offset_eq, Nat.mod_add_mod]
      split
      next hlt =>
        rw [if_pos (by omega), ih (fun e' he' => he e' (List.mem_cons_of_mem _ he')) (held_append.mp h).2 hlt
          (by omega) (by omega), List.take_succ_cons, List.flatten_cons, List.length_append,
          Nat.sub_add_eq, Nat.add_assoc]
      next hge => grind

theorem clockInterval_iff (hpos : 0 < log.size) (hP : P ≤ W) (hW : W < P + log.size) (hL : 0 < L) (hLs : L < log.size) :
    clockInterval (W % log.size) ((W + L) % log.size) (P % log.size) = true ↔ P + log.size ≤ W + L := by
  have hlt := Nat.mod_lt P hpos
  -- the offsets of `W` and `W + L`, counted from the one of `P`
  have hw := add_mod_cases (W := P) (i := W - P) hpos (by omega)
  rw [Nat.add_sub_cancel' hP] at hw
  have hwl := add_mod_cases (W := W) (i := L) hpos hLs
  unfold clockInterval
  rw [hwl, hw]
  split
  · split
    · grind
    · grind
  · split
    · grind
    · grind

theorem fixUp_eq (hs : Sized log) (hw : log.wOff = W % log.size) (he : ∀ e ∈ es, Framed e)
    (h : Held log P es.flatten) (hW : P + es.flatten.length = W) (hlt : W < P + log.size) (hL : 0 < L)
    (hLm : L ≤ entryMaxLen) :
    fixUp log L (P % log.size) =
        (if P + log.size ≤ W + L then P + ((es.take (dropCount L es)).flatten).length else P) % log.size ∧
      (P + log.size ≤ W + L → L ≤ es.flatten.length) := by
  have htwo := hs.two_mul_le
  have hclock := clockInterval_iff (W := W) (P := P) (L := L) hs.pos (by omega) hlt hL (by omega)
  have hfit : P + log.size ≤ W + L → L ≤ es.flatten.length := by omega
  refine ⟨?_, hfit⟩
  rw [fixUp, hw, hs.offset_eq, Nat.mod_add_mod]
  split
  next hc =>
    have hlap := hclock.mp hc
    have hfit := hfit hlap
    rw [if_pos hlap, getNextEntry, getNextEntryLoop_eq (L + 1) hs he h hL (by omega) (by omega), Nat.sub_zero]
  · next hc => rw [if_neg fun h => hc (hclock.mpr h)]

theorem readBytes_eq (hs : Sized log) (h : Held log P e) (hle : e.length ≤ log.size) :
    readBytes (P % log.size) e.length log = e := by
  have hlt := Nat.mod_lt P hs.pos
  have hbyte : ∀ i (hi : i < e.length), log.buffer ((P + i) % log.size) = e[i] := fun i hi =>
    h i _ (List.getElem?_eq_getElem hi)
  have hoff : ∀ i, i < e.length → (P + i) % log.size =
      if P % log.size + i < log.size then P % log.size + i else P % log.size + i - log.size := fun i hi => by
    rcases Nat.lt_or_ge i log.size with h' | h'
    · exact add_mod_cases hs.pos h'
    · omega
  apply List.ext_getElem
  · simp only [readBytes, List.length_append, List.length_map, List.length_range]
    split
    · simp only [List.length_map, List.length_range]
      omega
    · simp only [List.length_nil]
      omega
  intro i hi hi'
  rw [← hbyte i hi', hoff i hi']
  simp only [readBytes, List.getElem_append, List.length_map, List.length_range, List.getElem_map, List.getElem_range]
  split
  · next h1 => rw [if_pos (by omega)]
  next h1 => grind

/-! ## Walking through the log -/

/-- Going from entry to entry from the offset `off` leads to the write offset, in `n` bytes. -/
inductive Walk (log : Log) : Nat → Nat → Prop
  | done : Walk log log.wOff 0
  | step {off n : Nat} : Walk log (loggerOffset (off + getEntryLen off log) log) n →
      Walk log off (getEntryLen off log + n)

def readableLoop (log : Log) : Nat → Nat → List (List Byte)
  | 0, _ => []
  | fuel + 1, off =>
    if log.wOff = off then []
    else readBytes off (getEntryLen off log) log ::
      readableLoop log fuel (loggerOffset (off + getEntryLen off log) log)

def readable (log : Log) (off : Nat) : List (List Byte) := readableLoop log log.size off

theorem walk_entries (hs : Sized log) (hw : log.wOff = W % log.size) (he : ∀ e ∈ es, Framed e)
    (h : Held log P es.flatten) (hW : P + es.flatten.length = W) :
    Walk log (P % log.size) es.flatten.length := by
  induction es generalizing P with
  | nil =>
    rw [List.flatten_nil, List.length_nil, Nat.add_zero] at hW
    rw [hW, ← hw]
    exact .done
  | cons e es ih =>
    rw [List.flatten_cons] at h hW ⊢
    rw [List.length_append] at hW ⊢
    have hnr := getEntryLen_eq hs (he e List.mem_cons_self) h
    rw [← hnr]
    apply Walk.step
    rw [hnr, hs.offset_eq, Nat.mod_add_mod]
    exact ih (fun e' he' => he e' (List.mem_cons_of_mem _ he')) (held_append.mp h).2 (by omega)

theorem readableLoop_eq (fuel : Nat) (hs : Sized log) (hw : log.wOff = W % log.size) (he : ∀ e ∈ es, Framed e)
    (h : Held log P es.flatten) (hW : P + es.flatten.length = W) (hlt : W < P + log.size)
    (hf : es.flatten.length < fuel) : readableLoop log fuel (P % log.size) = es := by
  induction es generalizing P fuel with
  | nil =>
    rw [List.flatten_nil, List.length_nil, Nat.add_zero] at hW
    cases fuel with
    | zero => rfl
    | succ fuel => rw [readableLoop, if_pos (by rw [hw, hW])]
  | cons e es ih =>
    have hfr := he e List.mem_cons_self
    have hpos := hfr.pos
    have hle := hfr.le
    rw [List.flatten_cons] at h hW hf
    rw [List.length_append] at hW hf
    have hnr := getEntryLen_eq hs hfr h
    cases fuel with
    | zero => omega
    | succ fuel =>
      rw [readableLoop, if_neg (by rw [hw]; exact Ne.symm (mod_ne (by omega) hlt)), hnr, hs.offset_eq, Nat.mod_add_mod,
        readBytes_eq hs (held_append.mp h).1 (by omega),
        ih fuel (fun e' he' => he e' (List.mem_cons_of_mem _ he')) (held_append.mp h).2 (by omega) (by omega) (by omega)]

theorem wOff_of_readableLoop (fuel : Nat) (hs : Sized log) (he : ∀ e ∈ es, Framed e) (h : Held log P es.flatten)
    (hf : es.length < fuel) (hr : readableLoop log fuel (P % log.size) = es) :
    log.wOff = (P + es.flatten.length) % log.size := by
  induction es generalizing P fuel with
  | nil =>
    cases fuel with
    | zero => exact absurd hf (Nat.not_lt_zero _)
    | succ fuel =>
      rw [readableLoop] at hr
      split at hr
      · next heq => exact heq
      · cases hr
  | cons e es ih =>
    cases fuel with
    | zero => exact absurd hf (Nat.not_lt_zero _)
    | succ fuel =>
      rw [List.flatten_cons] at h ⊢
      rw [readableLoop] at hr
      split at hr
      · cases hr
      rw [getEntryLen_eq hs (he e List.mem_cons_self) h, hs.offset_eq, Nat.mod_add_mod] at hr
      rw [List.length_append, ← Nat.add_assoc]
      exact ih fuel (fun e' he' => he e' (List.mem_cons_of_mem _ he')) (held_append.mp h).2
        (Nat.lt_of_succ_lt_succ hf) (List.cons.inj hr).2

theorem length_le_flatten (he : ∀ e ∈ es, Framed e) : es.length ≤ es.flatten.length := by
  induction es with
  | nil => exact Nat.le_refl _
  | cons e es ih =>
    have hpos := (he e List.mem_cons_self).pos
    have := ih fun e' he' => he e' (List.mem_cons_of_mem _ he')
    rw [List.flatten_cons, List.length_append, List.length_cons]
    omega

theorem readable_wOff : readable log log.wOff = [] := by
  unfold readable
  cases log.size with
  | zero => rfl
  | succ n => rw [readableLoop, if_pos rfl]

theorem wOff_of_readable_nil (hpos : 0 < log.size) (h : readable log off = []) : log.wOff = off := by
  unfold readable at h
  cases hn : log.size with
  | zero => omega
  | succ n =>
    rw [hn, readableLoop] at h
    split at h
    · next heq => exact heq
    · cases h

end G3Mod.Logger
