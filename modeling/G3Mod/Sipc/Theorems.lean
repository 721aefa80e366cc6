import G3Mod.Sipc.Lemmas.Raw

/-!
# Framing is inverted by the receiver
-/

namespace G3Mod.Sipc

open Lib.Channel

/-- If fragments fit a block and packets find their device, messages are delivered in order, each once and whole. -/
theorem framing_inverted (pdpDevs : Byte → Bool) :
    (∀ s, (fmt.machine FmtAllow).Reachable s →
      (∀ op, fmt.Permitted FmtAllow s op → ∃ t, fmt.exec s op = .ok ((), t)) ∧
      s.delivered <+: s.written.map Skb.data ∧ (fmt.Idle s → s.delivered = s.written.map Skb.data)) ∧
    (∀ s, ((raw pdpDevs).machine (RawAllow pdpDevs)).Reachable s →
      (∀ op, (raw pdpDevs).Permitted (RawAllow pdpDevs) s op → ∃ t, (raw pdpDevs).exec s op = .ok ((), t)) ∧
      s.delivered <+: s.written.map (fun m => (m.1, m.2.data)) ∧
      ((raw pdpDevs).Idle s → s.delivered = s.written.map fun m => (m.1, m.2.data))) :=
  ⟨fun _ hs => fmt_speaks.faithful hs, fun _ hs => (raw_speaks pdpDevs).faithful hs⟩

theorem framing_inverted_short :
    (∃ s, (fmt.machine FmtAllow).Reachable s ∧ s.written.map Skb.data = [[1, 2, 3]] ∧
      s.delivered <+: s.written.map Skb.data) ∧
    (raw fun _ => true).start.delivered = (raw fun _ => true).start.written.map fun m => (m.1, m.2.data) := by
  let m : Skb := ⟨4, [1, 2, 3], 0, 0⟩
  have h0 : (fmt.machine FmtAllow).Reachable fmt.start := Lib.Machine.Reachable.init rfl
  have e1 : fmt.Permitted FmtAllow fmt.start (.write m) :=
    ⟨⟨⟨by decide, by decide⟩, fun h => absurd h (by decide)⟩, nofun⟩
  have h1 := h0.step (show (fmt.machine FmtAllow).enabled fmt.start (.write m) from e1) rfl
  have hraw := (framing_inverted fun _ => true).2 _ (Lib.Machine.Reachable.init rfl)
  exact ⟨⟨_, h1, rfl, ((framing_inverted fun _ => true).1 _ h1).2.1⟩,
    hraw.2.2 ⟨Ring.contents_empty _, rfl, Ring.contents_empty _⟩⟩

/-! ## A fragment larger than a block -/

theorem write_long {m : Skb} (hm : FmtMessage m) (hlen : 4090 < m.data.length) :
    ∃ rb fi, writeFmt (Ring.empty fmtSz (by decide)) ⟨0, 0⟩ m = .ok (rb, fi, none) ∧
      rb.contents = FmtFrame.enc ⟨0x81, m.data.take 4090⟩ := by
  have hstart : fragStart ⟨0, 0⟩ m = ⟨m.ptr, 0⟩ := if_pos hm.1
  have hspace : fmtSpace (Ring.empty fmtSz (by decide)) = (4090 : Nat) := by decide
  obtain ⟨_, hw, hs⟩ := writeFmt_sent (Ring.empty fmtSz (by decide)) ⟨0, 0⟩ m
  rw [hw]
  rw [hstart] at hs
  cases hs with
  | nothing h0 => simp only at h0; omega
  | full _ h => exact absurd h (by decide)
  | cut hwlen =>
    obtain rfl := Int.ofNat.inj (hspace.symm.trans hwlen)
    refine ⟨_, _, rfl, ?_⟩
    rw [(writeFmtBuf_spec _ _ _ 0x81 (Int.le_of_eq hspace.symm) (by simp only; omega)).contents,
      Ring.contents_empty]
    rfl
  | rest _ hle => simp only [hspace] at hle; omega

theorem bug_of_long {m : Skb} (hm : FmtMessage m) (hlen : 4090 < m.data.length) :
    ∃ s, (fmt.machine fun _ _ m => FmtMessage m).Reachable s ∧ fmt.exec s .read = .error .bug := by
  obtain ⟨rb, fi, hw, hc⟩ := write_long hm hlen
  have hdata : (m.data.take 4090).length = 4090 := by
    rw [List.length_take]
    omega
  have henc : (FmtFrame.enc ⟨0x81, m.data.take 4090⟩).length = 4095 := by
    rw [FmtFrame.length_enc, hdata]
  have hsmall : (m.data.take 4090).length < fmtSz := by
    rw [hdata]
    decide
  have hfl : fmtFrameLen (FmtFrame.enc ⟨0x81, m.data.take 4090⟩) = some 4095 := by
    have := FmtFrame.frameLen_enc (f := ⟨0x81, m.data.take 4090⟩) hsmall []
    rwa [List.append_nil, henc] at this
  have hroom : 4095 ≤ (Ring.empty fmtSz (by decide)).space := by decide
  have hwrite : fmt.write fmt.out₀ fmt.tx₀ m = .ok (rb, fi, false) := by
    simp only [fmt, hw]
    rfl
  obtain ⟨s, hs, hinn⟩ := relay (fun _ _ m => FmtMessage m) hm hwrite
    (show fmtFrameLen rb.contents = some rb.contents.length by rw [hc, hfl, henc])
    (show rb.contents.length ≤ (Ring.empty fmtSz (by decide)).space by rw [hc, henc]; exact hroom)
  have hcon : s.inn.contents = FmtFrame.enc ⟨0x81, m.data.take 4090⟩ ++ [] := by
    rw [hinn]
    show ((Ring.empty fmtSz (by decide)).write rb.contents).1.contents = _
    rw [hc, (Ring.write_spec _ (by rw [henc]; exact hroom)).contents, Ring.contents_empty, List.append_nil, List.nil_append]
  have hread : fmt.read s.inn s.rx = .error .bug := readFmt_bug s.rx hcon hsmall rfl (by simp only [hdata]; decide)
  exact ⟨s, hs, exec_read_error hread⟩

/-- A message of 4091 bytes, written into the empty ring. -/
theorem framing_bug : ∃ s, (fmt.machine fun _ _ m => FmtMessage m).Reachable s ∧ fmt.exec s .read = .error .bug :=
  bug_of_long (m := ⟨4, List.replicate 4091 0, 0, 0⟩) ⟨by decide, nofun⟩ (by rw [List.length_replicate]; decide)

/-! # What is acknowledged

`sipc_read` of `drivers/svnet/sipc4.c` and the data mailbox that it writes. -/

inductive Ipcidx where
  | fmt
  | raw
  | rfs
  deriving DecidableEq

structure MailboxData where
  maskReqAck : BitVec 32
  maskResAck : BitVec 32

def mbData : Ipcidx → MailboxData
  | .fmt => ⟨0x0020, 0x0008⟩
  | .raw => ⟨0x0010, 0x0004⟩
  | .rfs => ⟨0x0400, 0x0200⟩

def mbOf (x : BitVec 32) : BitVec 32 := 0x0080 ||| x

def rfsSz : Nat := 0x100000

def rbSize : Ipcidx → Nat
  | .fmt => fmtSz
  | .raw => rawSz
  | .rfs => rfsSz

def Contains (w mask : BitVec 32) : Prop := w &&& mask = mask

instance (w mask : BitVec 32) : Decidable (Contains w mask) := inferInstanceAs (Decidable (_ = _))

/-- What `sipc_read` reads: the rings that the modem writes, and the state of the readers. -/
structure Inn (σ : Type) where
  rb : (i : Ipcidx) → Ring (rbSize i)
  si : σ

/-- The readers of `rb_info`, with what they return. -/
abbrev RbRead (σ : Type) := (i : Ipcidx) → Nat → σ → Ring (rbSize i) → Int × σ × Ring (rbSize i)

def ebadmsg : Int := 74

section

variable {σ : Type} (rbRead : RbRead σ) (mailbox : BitVec 32)

def readChannels : List Ipcidx → Inn σ → Int → BitVec 32 → Inn σ × Int × BitVec 32
  | [], s, r, res => (s, r, res)
  | i :: is, s, r, res =>
    let inbuf := (s.rb i).cnt
    if inbuf = 0 then readChannels is s r res
    else
      let (r, si, rb) := rbRead i inbuf s.si (s.rb i)
      if r < 0 then
        (⟨Function.update s.rb i (if r = -ebadmsg then rb.setTail rb.head else rb), si⟩, r, res)
      else
        readChannels is ⟨Function.update s.rb i rb, si⟩ r
          (if mailbox &&& (mbData i).maskReqAck ≠ 0 then (mbData i).maskResAck else res)

/-- `sipc_read`, with what `_get_auth` returns: the rings, the value returned and the data mailbox. -/
def sipcRead (auth : Int) (s : Inn σ) : Inn σ × Int × Option (BitVec 32) :=
  if auth ≠ 0 then (s, auth, none)
  else
    let (s, r, res) := readChannels rbRead mailbox [.fmt, .raw, .rfs] s 0 0
    (s, r, if res ≠ 0 then some (mbOf res) else none)

/-- The modem has asked for an acknowledgement of what is in the ring. -/
def Asked (s : Inn σ) (i : Ipcidx) : Prop := mailbox &&& (mbData i).maskReqAck ≠ 0 ∧ (s.rb i).cnt ≠ 0

instance (s : Inn σ) (i : Ipcidx) : Decidable (Asked mailbox s i) := inferInstanceAs (Decidable (_ ∧ _))

theorem readChannels_res (is : List Ipcidx) (s : Inn σ) (r : Int) (res : BitVec 32) (hnd : is.Nodup)
    (h : 0 ≤ (readChannels rbRead mailbox is s r res).2.1) :
    (readChannels rbRead mailbox is s r res).2.2 =
      is.foldl (fun res i => if Asked mailbox s i then (mbData i).maskResAck else res) res := by
  induction is generalizing s r res with
  | nil => rfl
  | cons i is ih =>
    obtain ⟨hi, hnd⟩ := List.nodup_cons.1 hnd
    simp only [readChannels] at h ⊢
    rw [List.foldl_cons]
    by_cases h0 : (s.rb i).cnt = 0
    · rw [if_pos h0] at h ⊢
      rw [if_neg fun hk => hk.2 h0]
      exact ih s r res hnd h
    · rw [if_neg h0] at h ⊢
      generalize rbRead i (s.rb i).cnt s.si (s.rb i) = w at h ⊢
      by_cases hr : w.1 < 0
      · rw [if_pos hr] at h
        exact absurd h (Int.not_le.2 hr)
      rw [if_neg hr] at h ⊢
      have hask : Asked mailbox s i ↔ mailbox &&& (mbData i).maskReqAck ≠ 0 := and_iff_left h0
      rw [ih _ _ _ hnd h]
      simp only [hask]
      refine List.foldl_ext _ _ _ fun res j hj => if_congr ?_ rfl rfl
      simp only [Asked, Function.update_of_ne (ne_of_mem_of_not_mem hj hi)]

/-- If `sipc_read` returns 0, the mailbox acknowledges what the modem has asked for and nothing else, iff it has not
asked twice. -/
theorem sipcRead_acks_iff (auth : Int) (s : Inn σ) (h : (sipcRead rbRead mailbox auth s).2.1 = 0) :
    (∀ i, (∃ m ∈ (sipcRead rbRead mailbox auth s).2.2, Contains m (mbData i).maskResAck) ↔ Asked mailbox s i) ↔
      ∀ i j, Asked mailbox s i → Asked mailbox s j → i = j := by
  by_cases ha : auth ≠ 0
  · simp only [sipcRead, if_pos ha] at h
    exact absurd h ha
  simp only [sipcRead, if_neg ha] at h ⊢
  rw [readChannels_res rbRead mailbox _ s 0 0 (by decide) (Int.le_of_eq h.symm)]
  have hall : ∀ P : Ipcidx → Prop, (∀ i, P i) ↔ P .fmt ∧ P .raw ∧ P .rfs :=
    fun P => ⟨fun h => ⟨h _, h _, h _⟩, fun h i => by cases i; exacts [h.1, h.2.1, h.2.2]⟩
  simp only [hall]
  by_cases h1 : Asked mailbox s .fmt <;> by_cases h2 : Asked mailbox s .raw <;> by_cases h3 : Asked mailbox s .rfs <;>
    simp [h1, h2, h3, mbData, mbOf, Contains]

end

def filled (n : Ipcidx → Nat) : Inn Unit :=
  ⟨fun i => (Ring.empty (rbSize i) (by cases i <;> decide)).setHead (n i), ()⟩

def readAll : RbRead Unit := fun _ _ _ rb => (0, (), rb.setTail rb.head)

theorem one_acknowledged :
    ∃ m ∈ (sipcRead readAll 0x0430 0 (filled fun i => if i = .raw then 9 else 0)).2.2,
      Contains m (mbData .raw).maskResAck :=
  ((sipcRead_acks_iff readAll 0x0430 0 (filled fun i => if i = .raw then 9 else 0) (by decide)).2
    (by rintro (_ | _ | _) (_ | _ | _) <;> decide) .raw).2 (by decide)

/-- With data in two rings only the later one is acknowledged. -/
theorem ack_overwritten :
    (sipcRead readAll 0x0030 0 (filled fun _ => 9)).2 = (0, some 0x0084) ∧
      Asked 0x0030 (filled fun _ => 9) .fmt ∧ ¬ Contains 0x0084 (mbData .fmt).maskResAck := by
  decide

end G3Mod.Sipc
