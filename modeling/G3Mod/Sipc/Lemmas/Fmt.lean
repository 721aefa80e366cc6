import G3Mod.Sipc.Lemmas.Ring

/-!
# The FMT channel speaks in frames
-/

namespace G3Mod.Sipc

open Lib.Channel

/-! ## Frames -/

theorem ofLe16_le16 {n : Nat} (h : n < 65536) : ofLe16 (UInt8.ofNat n) (UInt8.ofNat (n / 256)) = n := by
  simp only [ofLe16, UInt8.toNat_ofNat']
  omega

structure FmtFrame where
  control : Byte
  data : List Byte

namespace FmtFrame

def head (f : FmtFrame) : List Byte := [hdlcStart] ++ (le16 (fmtHdrSize + f.data.length) ++ [f.control])

def enc (f : FmtFrame) : List Byte := f.head ++ f.data ++ [hdlcEnd]

/-- The frames that `_write_fmt` writes and `_read_fmt` can take. -/
def Ok (f : FmtFrame) : Prop :=
  f.data.length < fmtSz ∧
    (f.control = 0x81 ∧ f.data.length + 1 ≤ fragBlockMax ∨ f.control = 0x01 ∨ f.control = 0x00)

def recv (acc : List Byte) (f : FmtFrame) : List Byte × List (List Byte) :=
  if f.control = 0x81 then (acc ++ f.data, [])
  else if f.control = 0x01 then ([], [acc ++ f.data])
  else (acc, [f.data])

theorem enc_ne_nil (f : FmtFrame) : f.enc ≠ [] := by simp [enc]

theorem length_enc (f : FmtFrame) : f.enc.length = f.data.length + 5 := by
  simp only [enc, head, le16, List.length_append, List.length_cons, List.length_nil]
  omega

theorem frameLen_enc {f : FmtFrame} (hf : f.data.length < fmtSz) (rest : List Byte) :
    fmtFrameLen (f.enc ++ rest) = some f.enc.length := by
  have hsz : fmtSz = 4096 := rfl
  have hhdr : fmtHdrSize = 3 := rfl
  have hle : ofLe16 _ _ = _ := ofLe16_le16 (show fmtHdrSize + f.data.length < 65536 by omega)
  simp only [enc, head, le16, List.cons_append, List.nil_append, fmtFrameLen, hle, List.length_append, List.length_cons,
    List.length_nil]
  rw [if_pos (by omega)]
  congr 1
  omega

end FmtFrame

def FmtSync (fi : FragInfo) (acc : List Byte) : Option Skb → Prop
  | none => fi.skb = 0 ∧ acc = []
  | some m => fi.skb = m.ptr ∧ acc = m.data.take fi.offset ∧ fi.offset < m.data.length

def FmtMessage (m : Skb) : Prop := m.ptr ≠ 0 ∧ m.data ≠ []

def FragFits {size : Nat} (rb : Ring size) (fi : FragInfo) (m : Skb) : Prop :=
  fmtSpace rb < ((m.data.length - (fragStart fi m).offset : Nat) : Int) → fmtSpace rb + 1 ≤ fragBlockMax

section

variable {size : Nat}

theorem writeFmtBuf_spec (rb : Ring size) (skb : Skb) (fi : FragInfo) {wlen : Nat} (control : Byte)
    (hs : (wlen : Int) ≤ fmtSpace rb) (hw : fi.offset + wlen ≤ skb.data.length) :
    rb.Wrote (FmtFrame.enc ⟨control, (skb.data.drop fi.offset).take wlen⟩) (writeFmtBuf rb skb fi wlen control).1
      (writeFmtBuf rb skb fi wlen control).2 := by
  have hlen : ((skb.data.drop fi.offset).take wlen).length = wlen := by
    rw [List.length_take, List.length_drop]
    omega
  have hbytes : [hdlcStart] ++ (le16 (fmtHdrSize + wlen) ++ [control]) ++ (skb.data.drop fi.offset).take wlen ++ [hdlcEnd] =
      FmtFrame.enc ⟨control, (skb.data.drop fi.offset).take wlen⟩ := by
    simp only [FmtFrame.enc, FmtFrame.head, hlen]
  rw [writeFmtBuf, hbytes]
  apply rb.write_spec
  rw [FmtFrame.length_enc, hlen]
  simp only [fmtSpace, fmtHdrSize] at hs
  omega

/-- What comes of `_write_fmt` with `remain` bytes to go; a message is cut at most once, since the ring is full then. -/
inductive Sent (skb : Skb) (rb : Ring size) (fi : FragInfo) (remain : Nat) : Ring size × FragInfo × Option Nat → Prop
  | nothing : remain = 0 → Sent skb rb fi remain (rb, fi, some 0)
  | full : 0 < remain → fmtSpace rb < fmtTxMin → Sent skb rb fi remain (rb, fi, none)
  | cut {wlen : Nat} : fmtSpace rb = wlen → 5 ≤ wlen → wlen < remain →
      Sent skb rb fi remain
        ((writeFmtBuf rb skb fi wlen 0x81).1, { fi with offset := fi.offset + wlen }, none)
  | rest : 0 < remain → (remain : Int) ≤ fmtSpace rb →
      Sent skb rb fi remain
        ((writeFmtBuf rb skb fi remain (if fi.offset = 0 then 0x0 else 0x1)).1, ⟨0, 0⟩, some (remain + 5))

theorem writeFmt_sent (rb : Ring size) (fi : FragInfo) (skb : Skb) :
    ∃ r, writeFmt rb fi skb = .ok r ∧ Sent skb rb (fragStart fi skb) (skb.data.length - (fragStart fi skb).offset) r := by
  rw [writeFmt]
  generalize fragStart fi skb = fi
  generalize hremain : skb.data.length - fi.offset = remain
  by_cases hpos : 0 < remain
  · by_cases hmin : fmtSpace rb < fmtTxMin
    · refine ⟨_, ?_, .full hpos hmin⟩
      simp only [writeFmtLoop, hpos, hmin, if_true]
    have hmin' : 5 ≤ fmtSpace rb := Int.not_lt.1 hmin
    obtain ⟨k, rfl⟩ : ∃ k, remain = k + 1 := ⟨remain - 1, by omega⟩
    by_cases hcut : ((k + 1 : Nat) : Int) > fmtSpace rb
    · obtain ⟨wlen, hwlen⟩ : ∃ wlen : Nat, fmtSpace rb = wlen := ⟨(fmtSpace rb).toNat, by omega⟩
      have hw := writeFmtBuf_spec rb skb fi 0x81 (Int.le_of_eq hwlen.symm) (by omega)
      have hlen : (FmtFrame.enc ⟨0x81, (skb.data.drop fi.offset).take wlen⟩).length = wlen + 5 := by
        rw [FmtFrame.length_enc, List.length_take, List.length_drop]
        omega
      have hn := hw.len.trans hlen
      have hfull := hlen ▸ hw.space
      have hspace : fmtSpace (writeFmtBuf rb skb fi wlen 0x81).1 < fmtTxMin := by
        simp only [fmtSpace, fmtHdrSize, fmtTxMin] at hwlen ⊢
        omega
      refine ⟨_, ?_, .cut hwlen (by omega) (by omega)⟩
      rw [writeFmtLoop, if_pos hpos, if_neg hmin, if_pos hcut, show (0x1 ||| fmtMbMask : Byte) = 0x81 by decide]
      simp only [hwlen, Int.toNat_natCast, hn]
      rw [writeFmtLoop, if_pos (by simp only [fmtHdrSize]; omega), if_pos hspace]
      rfl
    · have hn := (writeFmtBuf_spec rb skb fi (if fi.offset = 0 then 0x0 else 0x1) (Int.not_lt.1 hcut) (by omega)).len
      rw [FmtFrame.length_enc, List.length_take_of_le (by rw [List.length_drop]; omega)] at hn
      refine ⟨_, ?_, .rest hpos (Int.not_lt.1 hcut)⟩
      rw [writeFmtLoop, if_pos hpos, if_neg hmin, if_neg hcut]
      simp only [hn]
      rw [writeFmtLoop, if_neg (by simp only [fmtHdrSize]; omega), Nat.zero_add, if_pos (show 0 < k + 1 + 5 by omega)]
  · refine ⟨_, ?_, .nothing (by omega)⟩
    rw [writeFmtLoop, if_neg hpos]
    rfl

theorem writeFmt_spec {rb : Ring fmtSz} {fi : FragInfo} {skb : Skb} {acc : List Byte} {pend : Option Skb}
    (hm : FmtMessage skb) (hfit : FragFits rb fi skb) (hsync : FmtSync fi acc pend) (hp : ∀ m ∈ pend, m = skb) :
    ∃ rb' fi' r fs, writeFmt rb fi skb = .ok (rb', fi', r) ∧ rb'.contents = rb.contents ++ encs FmtFrame.enc fs ∧
      (∀ f ∈ fs, f.Ok) ∧ (recvs FmtFrame.recv acc fs).2 = (if r.isSome then [skb.data] else []) ∧
      FmtSync fi' (recvs FmtFrame.recv acc fs).1 (if r.isSome then none else some skb) := by
  have hlen : 0 < skb.data.length := List.length_pos_iff.2 hm.2
  have hstart : (fragStart fi skb).skb = skb.ptr ∧ acc = skb.data.take (fragStart fi skb).offset ∧
      (fragStart fi skb).offset < skb.data.length := by
    cases pend with
    | none =>
      obtain ⟨h0, hacc⟩ := hsync
      rw [fragStart, if_pos (by rw [h0]; exact hm.1)]
      exact ⟨rfl, by simp [hacc], hlen⟩
    | some m =>
      obtain rfl := hp m rfl
      obtain ⟨h0, hacc, hoff⟩ := hsync
      rw [fragStart, if_neg (not_not_intro h0.symm)]
      exact ⟨h0, hacc, hoff⟩
  obtain ⟨hskb, rfl, hoff⟩ := hstart
  have hring := rb.space_add_length
  have hspace : fmtSpace rb + 5 = rb.space := by
    simp only [fmtSpace, fmtHdrSize]
    omega
  obtain ⟨_, hw, hs⟩ := writeFmt_sent rb fi skb
  rw [hw]
  unfold FragFits at hfit
  generalize fragStart fi skb = fi at hskb hoff hs hfit
  cases hs with
  | nothing h0 => omega
  | full => exact ⟨rb, fi, none, [], rfl, by simp, nofun, rfl, hskb, rfl, hoff⟩
  | @cut wlen hwlen hmin hcut =>
    have hdata : ((skb.data.drop fi.offset).take wlen).length = wlen := by
      rw [List.length_take, List.length_drop]
      omega
    have hrecv : FmtFrame.recv (skb.data.take fi.offset) ⟨0x81, (skb.data.drop fi.offset).take wlen⟩ =
        (skb.data.take (fi.offset + wlen), []) := by
      simp [FmtFrame.recv, List.take_add]
    refine ⟨_, _, _, [⟨0x81, (skb.data.drop fi.offset).take wlen⟩], rfl, ?_, ?_, ?_, ?_⟩
    · simpa using (writeFmtBuf_spec rb skb fi 0x81 (Int.le_of_eq hwlen.symm) (by omega)).contents
    · refine List.forall_mem_singleton.2 ⟨?_, .inl ⟨rfl, ?_⟩⟩ <;> simp only [hdata] <;> omega
    · simp only [recvs, hrecv]
      rfl
    · simp only [recvs, hrecv]
      exact ⟨hskb, rfl, by simp only; omega⟩
  | rest hpos hle =>
    -- the rest of the message is the last frame
    have hdata : (skb.data.drop fi.offset).take (skb.data.length - fi.offset) = skb.data.drop fi.offset :=
      List.take_of_length_le (Nat.le_of_eq List.length_drop)
    have hc := (writeFmtBuf_spec rb skb fi (if fi.offset = 0 then 0x0 else 0x1) hle (by omega)).contents
    rw [hdata] at hc
    refine ⟨_, _, _, [⟨if fi.offset = 0 then 0x0 else 0x1, skb.data.drop fi.offset⟩], rfl, by simpa using hc, ?_, ?_, ?_⟩
    · refine List.forall_mem_singleton.2 ⟨by simp only [List.length_drop]; omega, .inr ?_⟩
      by_cases h0 : fi.offset = 0 <;> simp [h0]
    · by_cases h0 : fi.offset = 0 <;> simp [recvs, FmtFrame.recv, h0]
    · by_cases h0 : fi.offset = 0 <;> simp [recvs, FmtFrame.recv, h0, FmtSync]

end

/-! ## The receiver -/

/-- The fragments of a message under way are in the list of its id, which is 1. -/
structure Merging (fh : FragHead) (acc : List Byte) : Prop where
  zero : fh.bitmap 0 = false
  one : fh.bitmap 1 = false ∧ fh.lists = [] ∧ acc = [] ∨
    fh.bitmap 1 = true ∧ ∃ fl, fh.lists = [fl] ∧ fl.msgId = 1 ∧ fl.blocks.flatten = acc

section

variable {size : Nat}

theorem read_head {rb : Ring size} {f : FmtFrame} {rest : List Byte} (hc : rb.contents = f.enc ++ rest) :
    ∃ rb', rb.read (fmtHdrSize + 1) = (f.head, rb') ∧ rb'.contents = f.data ++ [hdlcEnd] ++ rest :=
  Ring.read_front (by simp [hc, FmtFrame.enc]) rfl

theorem read_data {rb : Ring size} {data rest : List Byte} (hc : rb.contents = data ++ [hdlcEnd] ++ rest) :
    ∃ rb', rb.read (data.length + 1) = (data ++ [hdlcEnd], rb') ∧ rb'.contents = rest :=
  Ring.read_front hc (by simp)

theorem prepareFragBlock_spec (fl : FragList) {n : Nat} (hn : n ≤ fragBlockMax) :
    ∃ fl', prepareFragBlock fl n = .ok fl' ∧ fl'.msgId = fl.msgId ∧ fl'.blocks ≠ [] ∧
      fl'.blocks.flatten = fl.blocks.flatten := by
  rw [prepareFragBlock, if_neg (Nat.not_lt.2 hn)]
  cases hb : fl.blocks.getLast? with
  | none => simp_all
  | some fb => grind

theorem FragList.flatten_fill {fl : FragList} (h : fl.blocks ≠ []) (data : List Byte) :
    (fl.fill data).blocks.flatten = fl.blocks.flatten ++ data := by
  conv_rhs => rw [← List.dropLast_append_getLast h]
  simp [fill, List.getLast?_eq_some_getLast h]

theorem Merging.fragListOf {fh : FragHead} {acc : List Byte} (hm : Merging fh acc) :
    ∃ fl fh', Sipc.fragListOf 0x81 fh = (fl, fh') ∧ fl.msgId = 1 ∧ fl.blocks.flatten = acc ∧ fh'.lists = [fl] ∧
      fh'.bitmap 1 = true ∧ fh'.bitmap 0 = false := by
  have hid : (0x81 : Byte) &&& fmtIdMask = 1 := by decide
  obtain ⟨h1, h2, rfl⟩ | ⟨h1, fl, h2, h3, rfl⟩ := hm.one
  · have hfind : findFragList 0x81 fh = none := by simp [findFragList, hid, h1]
    refine ⟨⟨1, 0, []⟩, ⟨[⟨1, 0, []⟩], Function.update fh.bitmap 1 true⟩, ?_, rfl, rfl, rfl, by simp, ?_⟩
    · simp only [Sipc.fragListOf, hfind, createFragList, hid, h2]
    · simpa using hm.zero
  · have hfind : findFragList 0x81 fh = some fl := by simp [findFragList, hid, h1, h2, h3]
    exact ⟨fl, fh, by simp only [Sipc.fragListOf, hfind], h3, rfl, h2, h1, hm.zero⟩

theorem readFmtFrag_spec {rb : Ring size} {fh : FragHead} {acc data rest : List Byte} (hm : Merging fh acc)
    (hd : data.length + 1 ≤ fragBlockMax) (hc : rb.contents = data ++ [hdlcEnd] ++ rest) :
    ∃ rb' fh', readFmtFrag fh (fmtHdrSize + data.length) 0x81 rb = .ok (rb', fh', data.length + 1) ∧ rb'.contents = rest ∧
      Merging fh' (acc ++ data) := by
  obtain ⟨rb', hr, hc'⟩ := read_data hc
  obtain ⟨fl, fh', hof, h1, h2, h3, h4, h5⟩ := hm.fragListOf
  obtain ⟨fl', hp, hid, hne, hfl⟩ := prepareFragBlock_spec fl hd
  refine ⟨rb', fh'.put (fl'.fill data), ?_, hc', h5, .inr ⟨h4, fl'.fill data, ?_, hid.trans h1, ?_⟩⟩
  · simp [readFmtFrag, hof, hp, hr]
  · simp [FragHead.put, h3, FragList.fill, hid]
  · rw [FragList.flatten_fill hne, hfl, h2]

theorem readFmtLast_spec {rb : Ring size} {fh : FragHead} {acc data rest : List Byte} {control : Byte}
    (hm : Merging fh acc) (hk : control = 0x01 ∨ control = 0x00) (hc : rb.contents = data ++ [hdlcEnd] ++ rest) :
    ∃ rb' fh', readFmtLast fh (fmtHdrSize + data.length) control rb =
        .ok (rb', fh', data.length + 1, if control = 0x01 then acc ++ data else data) ∧
      rb'.contents = rest ∧ Merging fh' (if control = 0x01 then [] else acc) := by
  obtain ⟨rb', hr, hc'⟩ := read_data hc
  have hid : (0x01 : Byte) &&& fmtIdMask &&& fmtIdMask = 0x01 := by decide
  obtain rfl | rfl := hk
  · obtain ⟨h1, h2, rfl⟩ | ⟨h1, fl, h2, h3, rfl⟩ := hm.one
    · have hfind : findFragList (0x01 &&& fmtIdMask) fh = none := by simp [findFragList, hid, h1]
      refine ⟨rb', fh, ?_, hc', hm⟩
      simp [readFmtLast, hfind, hr]
    have hfind : findFragList (0x01 &&& fmtIdMask) fh = some fl := by simp [findFragList, hid, h1, h2, h3]
    refine ⟨rb', destroyFragList fl fh, ?_, hc', ?_, .inl ⟨?_, ?_, rfl⟩⟩
    · simp [readFmtLast, hfind, hr]
    · simpa [destroyFragList, h3] using hm.zero
    · simp [destroyFragList, h3]
    · simp [destroyFragList, h2]
  · have hfind : findFragList 0x00 fh = none := by simp [findFragList, hm.zero]
    refine ⟨rb', fh, ?_, hc', hm⟩
    simp [readFmtLast, hfind, hr]

theorem readFmtLoop_round {rb rb1 : Ring size} {f : FmtFrame} (hr : rb.read (fmtHdrSize + 1) = (f.head, rb1))
    (hlen : f.data.length < fmtSz) {inbuf : Int} (hi : 0 < inbuf) (fuel : Nat) (fh : FragHead) (ds : List (List Byte)) :
    readFmtLoop (fuel + 1) rb fh inbuf ds =
      if isFmtLast f.control then
        match readFmtLast fh (fmtHdrSize + f.data.length) f.control rb1 with
        | .error e => .error e
        | .ok (rb, fh, r, d) => readFmtLoop fuel rb fh (inbuf - 4 - r) (ds ++ [d])
      else
        match readFmtFrag fh (fmtHdrSize + f.data.length) f.control rb1 with
        | .error e => .error e
        | .ok (rb, fh, r) => readFmtLoop fuel rb fh (inbuf - 4 - r) ds := by
  have hsz : fmtSz = 4096 := rfl
  have hhdr : fmtHdrSize = 3 := rfl
  have hle : ofLe16 _ _ = _ := ofLe16_le16 (show fmtHdrSize + f.data.length < 65536 by omega)
  have hhead : f.head = [hdlcStart, UInt8.ofNat (fmtHdrSize + f.data.length),
    UInt8.ofNat ((fmtHdrSize + f.data.length) / 256), f.control] := rfl
  rw [hhead] at hr
  rw [readFmtLoop, if_pos hi]
  simp only [hr, hle]
  rfl

theorem readFmtLoop_spec : ∀ (fs : List FmtFrame) (fuel : Nat) (rb : Ring size) (fh : FragHead) (acc : List Byte)
    (ds : List (List Byte)), rb.contents = encs FmtFrame.enc fs → (∀ f ∈ fs, f.Ok) → Merging fh acc → fs.length < fuel →
    ∃ rb' fh', readFmtLoop fuel rb fh rb.cnt ds = .ok (rb', fh', ds ++ (recvs FmtFrame.recv acc fs).2) ∧
      rb'.contents = [] ∧ Merging fh' (recvs FmtFrame.recv acc fs).1
  | [], fuel + 1, rb, fh, acc, ds, hc, _, hm, _ => by
      have h0 : rb.cnt = 0 := by
        rw [← rb.length_contents, hc]
        rfl
      exact ⟨rb, fh, by simp [readFmtLoop, h0, recvs], hc, hm⟩
  | f :: fs, fuel + 1, rb, fh, acc, ds, hc, hok, hm, hf => by
      obtain ⟨hlen, hk⟩ := hok f List.mem_cons_self
      have hrest : ∀ g ∈ fs, g.Ok := fun g hg => hok g (List.mem_cons_of_mem _ hg)
      obtain ⟨rb1, hr1, hc1⟩ := read_head hc
      have hcnt : (rb.cnt : Int) = (f.data.length + 5 + (encs FmtFrame.enc fs).length : Nat) := by
        rw [← rb.length_contents, hc, encs_cons, List.length_append, FmtFrame.length_enc]
      have hinbuf : ∀ rb2 : Ring size, rb2.contents = encs FmtFrame.enc fs →
          (rb.cnt : Int) - 4 - (f.data.length + 1 : Nat) = rb2.cnt := by
        intro rb2 hc2
        rw [hcnt, ← rb2.length_contents, hc2]
        omega
      rw [readFmtLoop_round hr1 hlen (by omega)]
      obtain ⟨hk, hd⟩ | hk := hk
      · obtain ⟨rb2, fh2, hr2, hc2, hm2⟩ := readFmtFrag_spec hm hd hc1
        have ih := readFmtLoop_spec fs fuel rb2 fh2 (acc ++ f.data) ds hc2 hrest hm2 (by simpa using hf)
        rw [hk, if_neg (by decide), hr2]
        simp only [hinbuf rb2 hc2, recvs, FmtFrame.recv, hk, if_true, List.nil_append]
        exact ih
      obtain ⟨rb2, fh2, hr2, hc2, hm2⟩ := readFmtLast_spec hm hk hc1
      have ih := readFmtLoop_spec fs fuel rb2 fh2 _ (ds ++ [if f.control = 0x01 then acc ++ f.data else f.data]) hc2 hrest
        hm2 (by simpa using hf)
      have hlast : isFmtLast f.control = true := by obtain hk | hk := hk <;> rw [hk] <;> decide
      have hrecv : FmtFrame.recv acc f = (if f.control = 0x01 then [] else acc,
          [if f.control = 0x01 then acc ++ f.data else f.data]) := by
        obtain hk | hk := hk <;> simp [FmtFrame.recv, hk]
      rw [if_pos hlast, hr2]
      simp only [hinbuf rb2 hc2, recvs, hrecv]
      rw [← List.append_assoc]
      exact ih

theorem readFmt_bug {rb : Ring size} {rest : List Byte} {f : FmtFrame} (fh : FragHead) (hc : rb.contents = f.enc ++ rest)
    (hlen : f.data.length < fmtSz) (hk : f.control = 0x81) (hd : fragBlockMax < f.data.length + 1) :
    readFmt rb fh = .error .bug := by
  obtain ⟨rb1, hr1, -⟩ := read_head hc
  have hpos : (0 : Int) < rb.cnt := by
    rw [← rb.length_contents, hc, List.length_append, FmtFrame.length_enc]
    omega
  have hfrag : readFmtFrag fh (fmtHdrSize + f.data.length) 0x81 rb1 = .error .bug := by
    rw [readFmtFrag, if_neg (by omega)]
    simp [prepareFragBlock, hd]
  rw [readFmt, readFmtLoop_round hr1 hlen hpos, hk, if_neg (by decide), hfrag]

theorem readFmt_spec {rb : Ring size} {fh : FragHead} {acc : List Byte} {fs : List FmtFrame}
    (hc : rb.contents = encs FmtFrame.enc fs) (hok : ∀ f ∈ fs, f.Ok) (hm : Merging fh acc) :
    ∃ rb' fh', readFmt rb fh = .ok (rb', fh', (recvs FmtFrame.recv acc fs).2) ∧ rb'.contents = [] ∧
      Merging fh' (recvs FmtFrame.recv acc fs).1 := by
  have hlen := length_le_encs FmtFrame.enc_ne_nil fs
  rw [← hc, rb.length_contents] at hlen
  exact readFmtLoop_spec fs _ rb fh acc [] hc hok hm (Nat.lt_succ_of_le hlen)

end

def FmtAllow (rb : Ring fmtSz) (fi : FragInfo) (m : Skb) : Prop := FmtMessage m ∧ FragFits rb fi m

theorem fmt_speaks : fmt.Speaks FmtAllow Skb.data FmtFrame.enc FmtFrame.Ok FmtFrame.recv FmtSync Merging [] where
  enc_ne_nil f h := absurd h f.enc_ne_nil
  frameLen_nil := rfl
  frameLen_enc f rest hf := FmtFrame.frameLen_enc hf.1 rest
  contents_pop q n hn := q.contents_setTail (by rwa [← q.length_contents])
  contents_push q bs hbs := (q.write_spec hbs).contents
  contents_out := Ring.contents_empty _
  contents_inn := Ring.contents_empty _
  sync_start := ⟨rfl, rfl⟩
  rel_start := ⟨rfl, .inl ⟨rfl, rfl, rfl⟩⟩
  write q w m acc pend ha hs hp := by
    obtain ⟨q', w', r, fs, hw, hrest⟩ := writeFmt_spec ha.1 ha.2 hs hp
    refine ⟨q', w', r.isSome, fs, ?_, hrest⟩
    simp only [fmt, hw]
  read q r acc fs hc hok hm := readFmt_spec hc hok hm

end G3Mod.Sipc
