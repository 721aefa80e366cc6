import G3Mod.Sipc.Model

/-!
# Rings are queues
-/

namespace G3Mod.Sipc

variable {size : Nat}

theorem mod_wrap {x : Nat} (h : x < 2 * size) : x % size = if x < size then x else x - size := by
  split
  · exact Nat.mod_eq_of_lt ‹_›
  · rw [Nat.mod_eq_sub_mod (by omega), Nat.mod_eq_of_lt (by omega)]

theorem circCnt_eq {head tail : Nat} (h1 : head < size) (h2 : tail < size) :
    circCnt head tail size = if tail ≤ head then head - tail else head + size - tail := by
  rw [circCnt, mod_wrap (by omega)]
  split <;> split <;> omega

namespace Ring

variable (rb : Ring size)

theorem cnt_eq : rb.cnt = if rb.tail ≤ rb.head then rb.head - rb.tail else rb.head + size - rb.tail :=
  circCnt_eq rb.head_lt rb.tail_lt

theorem cnt_lt : rb.cnt < size := Nat.mod_lt _ (Nat.zero_lt_of_lt rb.head_lt)

theorem space_eq : rb.space = size - 1 - rb.cnt := by
  have h2 := rb.tail_lt
  rw [cnt_eq, space, circSpace, circCnt, mod_wrap (by omega)]
  split <;> split <;> omega

theorem spaceToEnd_eq : circSpaceToEnd rb.head rb.tail size = min rb.space (size - rb.head) := by
  have h1 := rb.head_lt
  have h2 := rb.tail_lt
  rw [space_eq, cnt_eq, circSpaceToEnd, mod_wrap (by omega)]
  split <;> split <;> split <;> omega

theorem cntToEnd_eq : circCntToEnd rb.head rb.tail size = min rb.cnt (size - rb.tail) := by
  have h1 := rb.head_lt
  rw [cnt_eq, circCntToEnd, mod_wrap (by omega)]
  split <;> split <;> split <;> omega

@[simp] theorem length_contents : rb.contents.length = rb.cnt := by simp [contents]

theorem space_add_length : rb.space + rb.contents.length + 1 = size := by
  have := rb.cnt_lt
  rw [length_contents, space_eq]
  omega

/-! ## One round -/

theorem range_map_getD (bs : List Byte) : ((List.range bs.length).map fun i => bs.getD i 0) = bs := by
  refine List.ext_getElem (by simp) fun i h1 h2 => ?_
  simp [List.getD_eq_getElem?_getD, h2]

theorem cnt_write (buf : Nat → Byte) {c : Nat} (hc : c ≤ rb.space) :
    (({ rb with buf := buf } : Ring size).setHead (rb.head + c)).cnt = rb.cnt + c := by
  have h1 := rb.head_lt
  have h2 := rb.tail_lt
  have h4 := rb.space_eq
  have h5 := rb.cnt_eq
  have hwrap : (rb.head + c) % size = _ := mod_wrap (by omega)
  show circCnt ((rb.head + c) % size) rb.tail size = _
  rw [circCnt_eq (Nat.mod_lt _ (by omega)) h2]
  split at h5 <;> split at hwrap <;> split <;> omega

theorem contents_write_round (bs : List Byte) (h1 : bs.length ≤ rb.space) (h2 : rb.head + bs.length ≤ size) :
    (({ rb with buf := memcpy rb.buf rb.head bs } : Ring size).setHead (rb.head + bs.length)).contents =
      rb.contents ++ bs := by
  have ht := rb.tail_lt
  have hlt := rb.cnt_lt
  have hcnt := rb.cnt_eq
  have hs := rb.space_eq
  unfold contents
  rw [cnt_write _ _ h1, List.range_add, List.map_append, List.map_map]
  congr 1
  · refine List.map_congr_left fun i hi => ?_
    rw [List.mem_range] at hi
    simp only [setHead, memcpy]
    rw [if_neg]
    rw [mod_wrap (by omega)]
    split at hcnt <;> split <;> omega
  refine .trans (List.map_congr_left fun i hi => ?_) (range_map_getD bs)
  rw [List.mem_range] at hi
  simp only [setHead, memcpy, Function.comp]
  have hpos : (rb.tail + (rb.cnt + i)) % size = rb.head + i := by
    rw [mod_wrap (by omega)]
    split at hcnt <;> split <;> omega
  rw [hpos, if_pos (by omega), Nat.add_sub_cancel_left]

theorem cnt_read {c : Nat} (hc : c ≤ rb.cnt) : (rb.setTail (rb.tail + c)).cnt = rb.cnt - c := by
  have h1 := rb.head_lt
  have h2 := rb.tail_lt
  have h3 := rb.cnt_lt
  have h5 := rb.cnt_eq
  have hwrap : (rb.tail + c) % size = _ := mod_wrap (by omega)
  show circCnt rb.head ((rb.tail + c) % size) size = _
  rw [circCnt_eq h1 (Nat.mod_lt _ (by omega))]
  split at h5 <;> split at hwrap <;> split <;> omega

theorem contents_setTail {c : Nat} (hc : c ≤ rb.cnt) : (rb.setTail (rb.tail + c)).contents = rb.contents.drop c := by
  unfold contents
  rw [cnt_read _ hc]
  refine List.ext_getElem (by simp) fun i h1 h2 => ?_
  simp only [List.getElem_map, List.getElem_range, List.getElem_drop, setTail]
  rw [Nat.mod_add_mod, Nat.add_assoc]

theorem take_contents {c : Nat} (h1 : c ≤ rb.cnt) (h2 : rb.tail + c ≤ size) :
    ((List.range c).map fun i => rb.buf (rb.tail + i)) = rb.contents.take c := by
  refine List.ext_getElem (by simp [h1]) fun i hi h3 => ?_
  simp only [List.length_map, List.length_range] at hi
  simp only [contents, List.getElem_map, List.getElem_range, List.getElem_take]
  rw [Nat.mod_eq_of_lt (by omega)]

/-! ## The loops -/

structure Wrote (rb : Ring size) (bs : List Byte) (rb' : Ring size) (n : Nat) : Prop where
  len : n = bs.length
  contents : rb'.contents = rb.contents ++ bs
  tail : rb'.tail = rb.tail

section

variable {rb rb' rb'' : Ring size} {bs bs' : List Byte} {n n' : Nat}

theorem Wrote.space (h : rb.Wrote bs rb' n) : rb'.space + bs.length = rb.space := by
  have h1 := rb.space_add_length
  have h2 := rb'.space_add_length
  rw [h.contents, List.length_append] at h2
  omega

theorem Wrote.append (h : rb.Wrote bs rb' n) (h' : rb'.Wrote bs' rb'' n') : rb.Wrote (bs ++ bs') rb'' (n + n') where
  len := by rw [h.len, h'.len, List.length_append]
  contents := by rw [h'.contents, h.contents, List.append_assoc]
  tail := h'.tail.trans h.tail

end

theorem writeLoop_spec : ∀ (fuel : Nat) (rb : Ring size) (bs : List Byte) (len : Nat), bs.length ≤ rb.space →
    bs.length < fuel → ∃ rb', writeLoop fuel rb bs len = (rb', len + bs.length) ∧ rb.Wrote bs rb' bs.length
  | fuel + 1, rb, bs, len, hs, hf => by
      have hh := rb.head_lt
      rw [writeLoop]
      simp only [spaceToEnd_eq]
      generalize hc : (if bs.length < min rb.space (size - rb.head) then bs.length
        else min rb.space (size - rb.head)) = c
      have hce : rb.head + c ≤ size := by split at hc <;> omega
      have hcb : c ≤ bs.length := by split at hc <;> omega
      by_cases h0 : c = 0
      · obtain rfl : bs = [] := List.length_eq_zero_iff.1 (by split at hc <;> omega)
        exact ⟨rb, if_pos h0, rfl, (List.append_nil _).symm, rfl⟩
      rw [if_neg h0]
      have hlen : (bs.take c).length = c := by rw [List.length_take]; omega
      have hround := contents_write_round rb (bs.take c) (by omega) (by omega)
      rw [hlen] at hround
      generalize hrb : ({ rb with buf := memcpy rb.buf rb.head (bs.take c) } : Ring size).setHead (rb.head + c) = rb1 at hround
      have hw : rb.Wrote (bs.take c) rb1 c := ⟨hlen.symm, hround, hrb ▸ rfl⟩
      have hspace := hw.space
      have hdrop : (bs.drop c).length = bs.length - c := List.length_drop
      obtain ⟨rb', h1, h2⟩ := writeLoop_spec fuel rb1 (bs.drop c) (len + c) (by omega) (by omega)
      have happ := hw.append h2
      rw [List.take_append_drop, hdrop, Nat.add_sub_cancel' hcb] at happ
      refine ⟨rb', ?_, happ⟩
      rw [h1, hdrop, Nat.add_assoc, Nat.add_sub_cancel' hcb]

theorem write_spec {bs : List Byte} (hs : bs.length ≤ rb.space) : rb.Wrote bs (rb.write bs).1 (rb.write bs).2 := by
  obtain ⟨rb', hw, h⟩ := writeLoop_spec (bs.length + 1) rb bs 0 hs (Nat.lt_succ_self _)
  rwa [write, hw, Nat.zero_add]

theorem Wrote.write {rb rb' : Ring size} {bs bs' : List Byte} {n : Nat} (h : rb.Wrote bs rb' n)
    (hs : bs.length + bs'.length ≤ rb.space) : rb.Wrote (bs ++ bs') (rb'.write bs').1 (n + (rb'.write bs').2) := by
  have := h.space
  exact h.append (rb'.write_spec (by omega))

theorem readLoop_spec : ∀ (fuel : Nat) (rb : Ring size) (n : Nat) (bs : List Byte), n ≤ rb.cnt → n < fuel →
    (readLoop fuel rb n bs).1 = bs ++ rb.contents.take n ∧ (readLoop fuel rb n bs).2.contents = rb.contents.drop n
  | fuel + 1, rb, n, bs, hn, hf => by
      have ht := rb.tail_lt
      rw [readLoop]
      simp only [cntToEnd_eq]
      generalize hc : (if n < min rb.cnt (size - rb.tail) then n else min rb.cnt (size - rb.tail)) = c
      have hcs : c ≤ rb.cnt := by split at hc <;> omega
      have hce : rb.tail + c ≤ size := by split at hc <;> omega
      have hcn : c ≤ n := by split at hc <;> omega
      by_cases h0 : c = 0
      · grind
      rw [if_neg h0, take_contents rb hcs hce]
      have hcnt := cnt_read rb hcs
      have hdrop := contents_setTail rb hcs
      obtain ⟨h1, h2⟩ := readLoop_spec fuel (rb.setTail (rb.tail + c)) (n - c) (bs ++ rb.contents.take c) (by omega)
        (by omega)
      refine ⟨?_, ?_⟩
      · rw [h1, hdrop, List.append_assoc, ← List.take_add, Nat.add_sub_cancel' hcn]
      · rw [h2, hdrop, List.drop_drop, Nat.add_sub_cancel' hcn]

theorem read_spec {n : Nat} (hn : n ≤ rb.cnt) :
    (rb.read n).1 = rb.contents.take n ∧ (rb.read n).2.contents = rb.contents.drop n := by
  have := readLoop_spec (n + 1) rb n [] hn (Nat.lt_succ_self _)
  rwa [List.nil_append] at this

theorem read_front {rb : Ring size} {n : Nat} {bs rest : List Byte} (hc : rb.contents = bs ++ rest) (hn : bs.length = n) :
    ∃ rb', rb.read n = (bs, rb') ∧ rb'.contents = rest := by
  have hlen : n ≤ rb.cnt := by
    rw [← rb.length_contents, hc, List.length_append]
    omega
  obtain ⟨h1, h2⟩ := rb.read_spec hlen
  refine ⟨(rb.read n).2, Prod.ext ?_ rfl, ?_⟩
  · rw [h1, hc, ← hn, List.take_left]
  · rw [h2, hc, ← hn, List.drop_left]

theorem contents_empty (h : 0 < size) : (empty size h).contents = [] := by
  simp [contents, cnt, circCnt, empty]

end Ring

end G3Mod.Sipc
