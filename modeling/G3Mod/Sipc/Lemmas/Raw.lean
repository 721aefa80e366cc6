import G3Mod.Sipc.Lemmas.Fmt

/-!
# The RAW channel speaks in frames
-/

namespace G3Mod.Sipc

open Lib.Channel

/-! ## Frames -/

theorem ofLe32_le32 {n : Nat} (h : n < 4294967296) :
    ofLe32 (UInt8.ofNat n) (UInt8.ofNat (n / 256)) (UInt8.ofNat (n / 65536)) (UInt8.ofNat (n / 65536 / 256)) = n := by
  simp only [ofLe32, ofLe16, UInt8.toNat_ofNat']
  omega

structure RawFrame where
  res : Byte
  data : List Byte

namespace RawFrame

def head (f : RawFrame) : List Byte := [hdlcStart] ++ setRawHdr f.res (f.data.length + rawHdrSize)

def enc (f : RawFrame) : List Byte := f.head ++ f.data ++ [hdlcEnd]

def ResOk (pdpDevs : Byte → Bool) (res : Byte) : Prop :=
  pnRaw (chid res) = res ∧ (pnPdpStart ≤ res → res ≤ pnPdpEnd → pdpDevs (res - pnPdpStart) = true)

def Ok (pdpDevs : Byte → Bool) (f : RawFrame) : Prop := f.data.length < rawSz ∧ ResOk pdpDevs f.res

def recv (_ : Unit) (f : RawFrame) : Unit × List (Byte × List Byte) := ((), [(f.res, f.data)])

theorem enc_ne_nil (f : RawFrame) : f.enc ≠ [] := by simp [enc]

theorem length_enc (f : RawFrame) : f.enc.length = f.data.length + 8 := by
  simp only [enc, head, setRawHdr, le32, le16, List.length_append, List.length_cons, List.length_nil]
  omega

theorem frameLen_enc {f : RawFrame} (hf : f.data.length < rawSz) (rest : List Byte) :
    rawFrameLen (f.enc ++ rest) = some f.enc.length := by
  have hlen := f.length_enc
  have hsz : rawSz = 1048576 := rfl
  have hhdr : rawHdrSize = 6 := rfl
  have hle : ofLe32 _ _ _ _ = _ := ofLe32_le32 (show f.data.length + rawHdrSize < 4294967296 by omega)
  simp only [enc, head, setRawHdr, le32, le16, List.cons_append, List.nil_append, rawFrameLen, hle, List.length_append,
    List.length_cons, List.length_nil]
  rw [if_pos (by omega)]
  congr 1

end RawFrame

section

variable {size : Nat}

theorem writeRawSkb_spec {rb : Ring size} {skb : Skb} (res : Byte) (hs : skb.data.length + 8 ≤ rb.space) :
    rb.Wrote (RawFrame.enc ⟨res, skb.data⟩) (writeRawSkb rb res skb).1 (writeRawSkb rb res skb).2 := by
  have hlen : (RawFrame.enc ⟨res, skb.data⟩).length = skb.data.length + 8 := RawFrame.length_enc _
  have hbytes : [hdlcStart] ++ setRawHdr res (rawHdrSize + 1 + skb.data.length + 1 - 1 - 1) ++ skb.data ++ [hdlcEnd] =
      RawFrame.enc ⟨res, skb.data⟩ := by
    rw [RawFrame.enc, RawFrame.head]
    simp only
    rw [show rawHdrSize + 1 + skb.data.length + 1 - 1 - 1 = skb.data.length + rawHdrSize by omega]
  rw [writeRawSkb, hbytes]
  exact rb.write_spec (by omega)

theorem writeRawBuf_spec {rb : Ring size} {skb : Skb} (res : Byte) (hs : skb.data.length + 8 ≤ rb.space) :
    rb.Wrote (RawFrame.enc ⟨res, skb.data⟩) (writeRawBuf rb res skb).1 (writeRawBuf rb res skb).2 := by
  have hh : (setRawHdr res (skb.data.length + rawHdrSize)).length = 6 := rfl
  have h1 := rb.write_spec (show [hdlcStart].length ≤ rb.space by rw [List.length_singleton]; omega)
  have h2 := h1.write (show _ + (setRawHdr res (skb.data.length + rawHdrSize)).length ≤ rb.space by
    rw [List.length_singleton, hh]; omega)
  have h3 := h2.write (show _ + skb.data.length ≤ rb.space by
    rw [List.length_append, List.length_singleton, hh]; omega)
  have h4 := h3.write (show _ + [hdlcEnd].length ≤ rb.space by
    simp only [List.length_append, List.length_singleton, hh]; omega)
  simp only [writeRawBuf, RawFrame.enc, RawFrame.head]
  exact h4

theorem writeRaw_spec (rb : Ring size) (skb : Skb) (res : Byte) :
    writeRaw rb skb res = (rb, none) ∨
      ∃ rb' n, writeRaw rb skb res = (rb', some n) ∧ rb.Wrote (RawFrame.enc ⟨res, skb.data⟩) rb' n := by
  have hhdr : rawHdrSize = 6 := rfl
  rw [writeRaw]
  split
  · exact .inl rfl
  have hs : skb.data.length + 8 ≤ rb.space := by omega
  split
  · have hw := writeRawSkb_spec res hs
    generalize writeRawSkb rb res skb = w at hw
    exact .inr ⟨_, _, rfl, hw⟩
  · have hw := writeRawBuf_spec res hs
    generalize writeRawBuf rb res skb = w at hw
    exact .inr ⟨_, _, rfl, hw⟩

/-! ## The receiver -/

theorem readRawData_spec {pdpDevs : Byte → Bool} {rb : Ring size} {f : RawFrame} {rest : List Byte} (hf : f.Ok pdpDevs)
    (hc : rb.contents = f.data ++ [hdlcEnd] ++ rest) :
    ∃ rb', readRawData pdpDevs rb f.data.length f.res = .ok (rb', f.data.length + 1, some f.data) ∧ rb'.contents = rest := by
  obtain ⟨rb', hr, hc'⟩ := read_data hc
  refine ⟨rb', ?_, hc'⟩
  rw [readRawData]
  split
  · rename_i hpdp
    simp [readPdp, hf.2.2 hpdp.1 hpdp.2, hr]
  · simp [readPn, hr, Except.map]

theorem readRawLoop_spec {pdpDevs : Byte → Bool} : ∀ (fs : List RawFrame) (fuel : Nat) (rb : Ring size)
    (ds : List (Byte × List Byte)), rb.contents = encs RawFrame.enc fs → (∀ f ∈ fs, f.Ok pdpDevs) → fs.length < fuel →
    ∃ rb', readRawLoop pdpDevs fuel rb rb.cnt ds = .ok (rb', ds ++ (recvs RawFrame.recv () fs).2) ∧ rb'.contents = []
  | [], fuel + 1, rb, ds, hc, _, _ => by
      have h0 : rb.cnt = 0 := by
        rw [← rb.length_contents, hc]
        rfl
      exact ⟨rb, by simp [readRawLoop, h0, recvs], hc⟩
  | f :: fs, fuel + 1, rb, ds, hc, hok, hf => by
      have hfok := hok f List.mem_cons_self
      have hsz : rawSz = 1048576 := rfl
      have hhdr : rawHdrSize = 6 := rfl
      have hlt := hfok.1
      have hrest : ∀ g ∈ fs, g.Ok pdpDevs := fun g hg => hok g (List.mem_cons_of_mem _ hg)
      obtain ⟨rb1, hr1, hc1⟩ : ∃ rb', rb.read (rawHdrSize + 1) = (f.head, rb') ∧
          rb'.contents = f.data ++ [hdlcEnd] ++ encs RawFrame.enc fs := Ring.read_front (by simp [hc, RawFrame.enc]) rfl
      obtain ⟨rb2, hr2, hc2⟩ := readRawData_spec hfok hc1
      have hcnt : (rb.cnt : Int) = (f.data.length + 8 + (encs RawFrame.enc fs).length : Nat) := by
        rw [← rb.length_contents, hc, encs_cons, List.length_append, RawFrame.length_enc]
      have hinbuf : (rb.cnt : Int) - 7 - ((f.data.length : Int) + 1) = rb2.cnt := by
        rw [hcnt, ← rb2.length_contents, hc2]
        omega
      have hle : ofLe32 _ _ _ _ = _ := ofLe32_le32 (show f.data.length + rawHdrSize < 4294967296 by omega)
      have hhead : f.head = [hdlcStart, UInt8.ofNat (f.data.length + rawHdrSize),
        UInt8.ofNat ((f.data.length + rawHdrSize) / 256), UInt8.ofNat ((f.data.length + rawHdrSize) / 65536),
        UInt8.ofNat ((f.data.length + rawHdrSize) / 65536 / 256), chid f.res, 0] := rfl
      obtain ⟨rb', ih, hc'⟩ := readRawLoop_spec fs fuel rb2 (ds ++ [(f.res, f.data)]) hc2 hrest (by simpa using hf)
      refine ⟨rb', ?_, hc'⟩
      rw [hhead] at hr1
      rw [readRawLoop, if_pos (by omega)]
      simp only [hr1, hle, hfok.2.1, Nat.add_sub_cancel, hr2]
      rw [if_neg (not_not_intro rfl), if_neg (by omega)]
      simpa [recvs, RawFrame.recv, hinbuf] using ih

end

theorem readRaw_spec {pdpDevs : Byte → Bool} {rb : Ring rawSz} {fs : List RawFrame}
    (hc : rb.contents = encs RawFrame.enc fs) (hok : ∀ f ∈ fs, f.Ok pdpDevs) :
    ∃ rb', readRaw pdpDevs rb = .ok (rb', (recvs RawFrame.recv () fs).2) ∧ rb'.contents = [] := by
  have hlen := length_le_encs RawFrame.enc_ne_nil fs
  rw [← hc, rb.length_contents] at hlen
  exact readRawLoop_spec fs _ rb [] hc hok (Nat.lt_succ_of_le hlen)

def RawAllow (pdpDevs : Byte → Bool) (_ : Ring rawSz) (_ : Unit) (m : Byte × Skb) : Prop :=
  m.2.data ≠ [] ∧ RawFrame.ResOk pdpDevs m.1

-- the two equations are between functions: the kernel then compares the sides without running `_write_raw`, `_read_raw`
theorem raw_write_eq (pdpDevs : Byte → Bool) : (raw pdpDevs).write = fun q _ m =>
    match writeRaw q m.2 m.1 with
    | (rb, r) => .ok (rb, (), r.isSome) := rfl

theorem raw_write {pdpDevs : Byte → Bool} {q rb : Ring rawSz} {w : Unit} {m : Byte × Skb} {r : Option Nat}
    (h : writeRaw q m.2 m.1 = (rb, r)) : (raw pdpDevs).write q w m = .ok (rb, (), r.isSome) := by
  rw [raw_write_eq]
  beta_reduce
  rw [h]

theorem raw_read_eq (pdpDevs : Byte → Bool) : (raw pdpDevs).read = fun q _ =>
    (readRaw pdpDevs q).map fun (rb, ds) => (rb, (), ds) := rfl

theorem raw_read {pdpDevs : Byte → Bool} {q rb : Ring rawSz} {r : Unit} {ds : List (Byte × List Byte)}
    (h : readRaw pdpDevs q = .ok (rb, ds)) : (raw pdpDevs).read q r = .ok (rb, (), ds) := by
  rw [raw_read_eq]
  beta_reduce
  rw [h]
  rfl

theorem raw_speaks (pdpDevs : Byte → Bool) : (raw pdpDevs).Speaks (RawAllow pdpDevs) (fun m => (m.1, m.2.data)) RawFrame.enc
    (RawFrame.Ok pdpDevs) RawFrame.recv (fun _ _ _ => True) (fun _ _ => True) () where
  enc_ne_nil f h := absurd h f.enc_ne_nil
  frameLen_nil := by simp only [raw, rawFrameLen]
  frameLen_enc f rest hf := RawFrame.frameLen_enc hf.1 rest
  contents_pop q n hn := q.contents_setTail (by rwa [← q.length_contents])
  contents_push q bs hbs := (q.write_spec hbs).contents
  contents_out := by simp only [raw, Ring.contents_empty]
  contents_inn := by simp only [raw, Ring.contents_empty]
  sync_start := trivial
  rel_start := trivial
  write q w m acc pend ha _ _ := by
    obtain hw | ⟨rb, n, hw, hr⟩ := writeRaw_spec q m.2 m.1
    · exact ⟨q, (), false, [], raw_write hw, (List.append_nil _).symm, by simp, rfl, trivial⟩
    · refine ⟨rb, (), true, [⟨m.1, m.2.data⟩], raw_write hw, ?_, ?_, rfl, trivial⟩
      · show rb.contents = q.contents ++ _
        simpa using hr.contents
      have hlen := hr.space
      have hsz := q.space_add_length
      rw [RawFrame.length_enc] at hlen
      exact List.forall_mem_singleton.2 ⟨by simp only at hlen ⊢; omega, ha.2⟩
  read q r acc fs hc hok _ := by
    obtain ⟨rb, hr, hc'⟩ := readRaw_spec hc hok
    exact ⟨rb, (), raw_read hr, hc', trivial⟩

end G3Mod.Sipc
