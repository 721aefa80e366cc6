import G3Mod.Lib.Link

/-!
# Modem IPC framing

The FMT and RAW channels of `drivers/svnet/sipc4.c`. A `struct ringbuf` is written by one side and read by the other;
sizes are powers of two, so that `& (size - 1)` is `% size`. Allocations succeed.
-/

namespace G3Mod.Sipc

abbrev Byte := UInt8

/-! ## `linux/circ_buf.h` -/

def circCnt (head tail size : Nat) : Nat := (head + size - tail) % size

def circSpace (head tail size : Nat) : Nat := circCnt tail (head + 1) size

def circCntToEnd (head tail size : Nat) : Nat :=
  let e := size - tail
  let n := (head + e) % size
  if n < e then n else e

def circSpaceToEnd (head tail size : Nat) : Nat :=
  let e := size - 1 - head
  let n := (e + tail) % size
  if n ≤ e then n else e + 1

/-! ## Rings -/

structure Ring (size : Nat) where
  buf : Nat → Byte
  head : Nat
  tail : Nat
  head_lt : head < size
  tail_lt : tail < size

def memcpy (buf : Nat → Byte) (dst : Nat) (bs : List Byte) : Nat → Byte := fun x =>
  if dst ≤ x ∧ x < dst + bs.length then bs.getD (x - dst) 0 else buf x

namespace Ring

variable {size : Nat}

def cnt (rb : Ring size) : Nat := circCnt rb.head rb.tail size

def space (rb : Ring size) : Nat := circSpace rb.head rb.tail size

def setHead (rb : Ring size) (n : Nat) : Ring size :=
  { rb with head := n % size, head_lt := Nat.mod_lt _ (Nat.zero_lt_of_lt rb.head_lt) }

def setTail (rb : Ring size) (n : Nat) : Ring size :=
  { rb with tail := n % size, tail_lt := Nat.mod_lt _ (Nat.zero_lt_of_lt rb.tail_lt) }

def writeLoop : Nat → Ring size → List Byte → Nat → Ring size × Nat
  | 0, rb, _, len => (rb, len)
  | fuel + 1, rb, bs, len =>
    let c := circSpaceToEnd rb.head rb.tail size
    let c := if bs.length < c then bs.length else c
    if c = 0 then (rb, len)
    else writeLoop fuel ({ rb with buf := memcpy rb.buf rb.head (bs.take c) }.setHead (rb.head + c)) (bs.drop c) (len + c)

/-- `__write`: the ring and the number of bytes written. -/
def write (rb : Ring size) (bs : List Byte) : Ring size × Nat := writeLoop (bs.length + 1) rb bs 0

def readLoop : Nat → Ring size → Nat → List Byte → List Byte × Ring size
  | 0, rb, _, bs => (bs, rb)
  | fuel + 1, rb, n, bs =>
    let c := circCntToEnd rb.head rb.tail size
    let c := if n < c then n else c
    if c = 0 then (bs, rb)
    else readLoop fuel (rb.setTail (rb.tail + c)) (n - c) (bs ++ (List.range c).map fun i => rb.buf (rb.tail + i))

/-- `__read`: the bytes and the ring; the source returns their number. -/
def read (rb : Ring size) (n : Nat) : List Byte × Ring size := readLoop (n + 1) rb n []

def contents (rb : Ring size) : List Byte := (List.range rb.cnt).map fun i => rb.buf ((rb.tail + i) % size)

def empty (size : Nat) (h : 0 < size) : Ring size := ⟨fun _ => 0, 0, 0, h, h⟩

end Ring

/-! ## Frames -/

def hdlcStart : Byte := 0x7F

def hdlcEnd : Byte := 0x7E

structure Skb where
  ptr : Nat
  data : List Byte
  headroom : Nat
  tailroom : Nat
  deriving DecidableEq

def le16 (n : Nat) : List Byte := [UInt8.ofNat n, UInt8.ofNat (n / 256)]

def ofLe16 (b₀ b₁ : Byte) : Nat := b₀.toNat + 256 * b₁.toNat

def le32 (n : Nat) : List Byte := le16 n ++ le16 (n / 65536)

def ofLe32 (b₀ b₁ b₂ b₃ : Byte) : Nat := ofLe16 b₀ b₁ + 65536 * ofLe16 b₂ b₃

/-- `BUG()`, `-EBADMSG`, a length shorter than the header, and a loop that does not end. -/
inductive Fault where
  | bug
  | badMsg
  | shortLen
  | hang
  deriving DecidableEq, Repr

/-! ## The FMT channel -/

def fmtSz : Nat := 0x1000

def fmtHdrSize : Nat := 3

def fmtIdMask : Byte := 0x7F

def fmtMbMask : Byte := 0x80

def fmtTxMin : Int := 5

def isFmtLast (control : Byte) : Bool := control &&& fmtMbMask = 0

/-- `struct frag_info`; the null pointer is 0. -/
structure FragInfo where
  skb : Nat
  offset : Nat

section

variable {size : Nat}

def writeFmtBuf (rb : Ring size) (skb : Skb) (fi : FragInfo) (wlen : Nat) (control : Byte) : Ring size × Nat :=
  rb.write ([hdlcStart] ++ (le16 (fmtHdrSize + wlen) ++ [control]) ++ (skb.data.drop fi.offset).take wlen ++ [hdlcEnd])

def fmtSpace (rb : Ring size) : Int := rb.space - (fmtHdrSize + 1 + 1 : Nat)

/-- The loop of `_write_fmt`; `none` is `-ENOSPC`. -/
def writeFmtLoop (skb : Skb) :
    Nat → Ring size → FragInfo → Nat → Nat → Except Fault (Ring size × FragInfo × Option Nat)
  | 0, _, _, _, _ => .error .hang
  | fuel + 1, rb, fi, remain, len =>
    if 0 < remain then
      let space := fmtSpace rb
      if space < fmtTxMin then .ok (rb, fi, none)
      else
        let (wlen, control) :=
          if (remain : Int) > space then (space.toNat, 0x1 ||| fmtMbMask)
          else (remain, if fi.offset = 0 then 0x0 else 0x1)
        let (rb, n) := writeFmtBuf rb skb fi wlen control
        let wlen := n - (1 + fmtHdrSize + 1)
        writeFmtLoop skb fuel rb { fi with offset := fi.offset + wlen } (remain - wlen) (len + n)
    else .ok (rb, if 0 < len then ⟨0, 0⟩ else fi, some len)

/-- The place in the message at which `_write_fmt` begins: a new packet begins at 0. -/
def fragStart (fi : FragInfo) (skb : Skb) : FragInfo :=
  if skb.ptr ≠ fi.skb then ⟨skb.ptr, 0⟩ else fi

def writeFmt (rb : Ring size) (fi : FragInfo) (skb : Skb) : Except Fault (Ring size × FragInfo × Option Nat) :=
  let fi := fragStart fi skb
  let remain := skb.data.length - fi.offset
  writeFmtLoop skb (remain + 1) rb fi remain 0

def fragBlockMax : Nat := 4096 - 8 - 4 - 4

structure FragList where
  msgId : Byte
  len : Nat
  blocks : List (List Byte)

structure FragHead where
  lists : List FragList
  bitmap : Byte → Bool

def findFragList (control : Byte) (fh : FragHead) : Option FragList :=
  let msgId := control &&& fmtIdMask
  if fh.bitmap msgId then fh.lists.find? fun fl => fl.msgId = msgId else none

def destroyFragList (fl : FragList) (fh : FragHead) : FragHead where
  lists := fh.lists.filter fun fl' => fl'.msgId ≠ fl.msgId
  bitmap := Function.update fh.bitmap fl.msgId false

def createFragList (control : Byte) (fh : FragHead) : FragList × FragHead :=
  let msgId := control &&& fmtIdMask
  let fh :=
    match findFragList control fh with
    | some fl => destroyFragList fl fh
    | none => fh
  let fl : FragList := ⟨msgId, 0, []⟩
  (fl, ⟨fl :: fh.lists, Function.update fh.bitmap msgId true⟩)

/-- The list of a message, which its first fragment makes. -/
def fragListOf (control : Byte) (fh : FragHead) : FragList × FragHead :=
  match findFragList control fh with
  | some fl => (fl, fh)
  | none => createFragList control fh

/-- `_prepare_frag_block`: the list with the block into which `size` bytes are read at its end. -/
def prepareFragBlock (fl : FragList) (size : Nat) : Except Fault FragList :=
  if size > fragBlockMax then .error .bug
  else
    match fl.blocks.getLast? with
    | none => .ok { fl with blocks := [[]] }
    | some fb => .ok (if size > fragBlockMax - fb.length then { fl with blocks := fl.blocks ++ [[]] } else fl)

def FragList.fill (fl : FragList) (data : List Byte) : FragList :=
  { fl with
    len := fl.len + data.length
    blocks := fl.blocks.dropLast ++ [fl.blocks.getLastD [] ++ data] }

def FragHead.put (fh : FragHead) (fl : FragList) : FragHead :=
  { fh with lists := fh.lists.map fun fl' => if fl'.msgId = fl.msgId then fl else fl' }

/-- `_read_fmt_frag`: the ring, the lists and the number of bytes read. -/
def readFmtFrag (fh : FragHead) (len : Nat) (control : Byte) (rb : Ring size) :
    Except Fault (Ring size × FragHead × Nat) :=
  if len < fmtHdrSize then .error .shortLen
  else
    let dataLen := len - fmtHdrSize
    let readLen := dataLen + 1
    let (fl, fh) := fragListOf control fh
    match prepareFragBlock fl readLen with
    | .error e => .error e
    | .ok fl =>
      let (bs, rb) := rb.read readLen
      if bs.length ≠ readLen then .error .badMsg
      else .ok (rb, fh.put (fl.fill (bs.take dataLen)), bs.length)

/-- `_read_fmt_last`: the packet that is passed on comes with the rest. -/
def readFmtLast (fh : FragHead) (len : Nat) (control : Byte) (rb : Ring size) :
    Except Fault (Ring size × FragHead × Nat × List Byte) :=
  if len < fmtHdrSize then .error .shortLen
  else
    let dataLen := len - fmtHdrSize
    let readLen := dataLen + 1
    let (filled, fh) :=
      match findFragList (control &&& fmtIdMask) fh with
      | some fl => (fl.blocks.flatten, destroyFragList fl fh)
      | none => ([], fh)
    let (bs, rb) := rb.read readLen
    if bs.length ≠ readLen then .error .badMsg
    else .ok (rb, fh, bs.length, filled ++ bs.take dataLen)

/-- The loop of `_read_fmt`, with the packets passed on so far. -/
def readFmtLoop : Nat → Ring size → FragHead → Int → List (List Byte) →
    Except Fault (Ring size × FragHead × List (List Byte))
  | 0, _, _, _, _ => .error .hang
  | fuel + 1, rb, fh, inbuf, ds =>
    if 0 < inbuf then
      let (buf, rb) := rb.read (fmtHdrSize + 1)
      match buf with
      | [b₀, b₁, b₂, control] =>
        if b₀ ≠ hdlcStart then .error .badMsg
        else
          let inbuf := inbuf - buf.length
          let len := ofLe16 b₁ b₂
          if isFmtLast control then
            match readFmtLast fh len control rb with
            | .error e => .error e
            | .ok (rb, fh, r, d) => readFmtLoop fuel rb fh (inbuf - r) (ds ++ [d])
          else
            match readFmtFrag fh len control rb with
            | .error e => .error e
            | .ok (rb, fh, r) => readFmtLoop fuel rb fh (inbuf - r) ds
      | _ => .error .badMsg
    else .ok (rb, fh, ds)

/-- `_read_fmt`, called with the number of bytes in the ring. -/
def readFmt (rb : Ring size) (fh : FragHead) : Except Fault (Ring size × FragHead × List (List Byte)) :=
  readFmtLoop (rb.cnt + 1) rb fh rb.cnt []

end

/-- The length of the FMT frame at the front of a stream of bytes, once it is complete. -/
def fmtFrameLen : List Byte → Option Nat
  | _ :: b₁ :: b₂ :: rest =>
    let n := ofLe16 b₁ b₂ + 2
    if n ≤ rest.length + 3 then some n else none
  | _ => none

/-- The FMT channel: messages are packets, and what is delivered is their data. -/
def fmt : Lib.Channel (Ring fmtSz) FragInfo FragHead Skb (List Byte) Byte Fault where
  contents := Ring.contents
  room := Ring.space
  push rb bs := (rb.write bs).1
  pop rb n := rb.setTail (rb.tail + n)
  frameLen := fmtFrameLen
  write rb fi skb :=
    match writeFmt rb fi skb with
    | .error e => .error e
    | .ok (rb, fi, r) => .ok (rb, fi, r.isSome)
  read := readFmt
  out₀ := Ring.empty fmtSz (by decide)
  inn₀ := Ring.empty fmtSz (by decide)
  tx₀ := ⟨0, 0⟩
  rx₀ := ⟨[], fun _ => false⟩

/-! ## The RAW channel -/

def rawSz : Nat := 0x100000

def rawHdrSize : Nat := 6

def chid (res : Byte) : Byte := res &&& 0x1F

def pnRaw (channel : Byte) : Byte := 0x20 ||| channel

def pnPdpStart : Byte := pnRaw 10

def pnPdpEnd : Byte := pnRaw 24

def setRawHdr (res : Byte) (len : Nat) : List Byte := le32 len ++ [chid res, 0]

section

variable {size : Nat}

def writeRawBuf (rb : Ring size) (res : Byte) (skb : Skb) : Ring size × Nat :=
  let h := setRawHdr res (skb.data.length + rawHdrSize)
  let (rb, n₁) := rb.write [hdlcStart]
  let (rb, n₂) := rb.write h
  let (rb, n₃) := rb.write skb.data
  let (rb, n₄) := rb.write [hdlcEnd]
  (rb, n₁ + n₂ + n₃ + n₄)

/-- `_write_raw_skb`: the frame is made in the packet itself. -/
def writeRawSkb (rb : Ring size) (res : Byte) (skb : Skb) : Ring size × Nat :=
  let len := rawHdrSize + 1 + skb.data.length + 1
  rb.write ([hdlcStart] ++ setRawHdr res (len - 1 - 1) ++ skb.data ++ [hdlcEnd])

/-- `_write_raw`; `none` is `-ENOSPC`. -/
def writeRaw (rb : Ring size) (skb : Skb) (res : Byte) : Ring size × Option Nat :=
  if rb.space < skb.data.length + rawHdrSize + 1 + 1 then (rb, none)
  else if skb.headroom > rawHdrSize + 1 ∧ skb.tailroom > 1 then
    let (rb, len) := writeRawSkb rb res skb
    (rb, some len)
  else
    let (rb, len) := writeRawBuf rb res skb
    (rb, some len)

/-- `_read_pn`: the ring, the number of bytes read and the data. -/
def readPn (rb : Ring size) (len : Nat) : Except Fault (Ring size × Nat × List Byte) :=
  let readLen := len + 1
  let (bs, rb) := rb.read readLen
  if bs.length ≠ readLen then .error .badMsg else .ok (rb, bs.length, bs.take len)

/-- `_read_pdp`: without a device the data is dropped. -/
def readPdp (dev : Bool) (rb : Ring size) (len : Nat) : Except Fault (Ring size × Nat × Option (List Byte)) :=
  let readLen := len + 1
  if !dev then
    let (bs, rb) := rb.read readLen
    .ok (rb, bs.length, none)
  else
    let (bs, rb) := rb.read readLen
    if bs.length ≠ readLen then .error .badMsg else .ok (rb, bs.length, some (bs.take len))

/-- `_read_pdp` for a resource of `PN_PDP_START` to `PN_PDP_END`, `_read_pn` for the others. -/
def readRawData (pdpDevs : Byte → Bool) (rb : Ring size) (len : Nat) (res : Byte) :
    Except Fault (Ring size × Nat × Option (List Byte)) :=
  if pnPdpStart ≤ res ∧ res ≤ pnPdpEnd then readPdp (pdpDevs (res - pnPdpStart)) rb len
  else (readPn rb len).map fun (rb, r, d) => (rb, r, some d)

/-- The loop of `_read_raw`, with the packets passed on so far. -/
def readRawLoop (pdpDevs : Byte → Bool) : Nat → Ring size → Int → List (Byte × List Byte) →
    Except Fault (Ring size × List (Byte × List Byte))
  | 0, _, _, _ => .error .hang
  | fuel + 1, rb, inbuf, ds =>
    if 0 < inbuf then
      let (buf, rb) := rb.read (rawHdrSize + 1)
      match buf with
      | [b₀, b₁, b₂, b₃, b₄, channel, _] =>
        if b₀ ≠ hdlcStart then .error .badMsg
        else
          let inbuf := inbuf - buf.length
          let res := pnRaw channel
          let len := ofLe32 b₁ b₂ b₃ b₄
          if len < rawHdrSize then .error .shortLen
          else
            match readRawData pdpDevs rb (len - rawHdrSize) res with
            | .error e => .error e
            | .ok (rb, r, d) => readRawLoop pdpDevs fuel rb (inbuf - r) (ds ++ (d.map (res, ·)).toList)
      | _ => .error .badMsg
    else .ok (rb, ds)

/-- `_read_raw`, called with the number of bytes in the ring. -/
def readRaw (pdpDevs : Byte → Bool) (rb : Ring size) : Except Fault (Ring size × List (Byte × List Byte)) :=
  readRawLoop pdpDevs (rb.cnt + 1) rb rb.cnt []

end

/-- The length of the RAW frame at the front of a stream of bytes, once it is complete. -/
def rawFrameLen : List Byte → Option Nat
  | _ :: b₁ :: b₂ :: b₃ :: b₄ :: rest =>
    let n := ofLe32 b₁ b₂ b₃ b₄ + 2
    if n ≤ rest.length + 5 then some n else none
  | _ => none

/-- The RAW channel; `pdpDevs` are the devices of the receiver. -/
def raw (pdpDevs : Byte → Bool) : Lib.Channel (Ring rawSz) Unit Unit (Byte × Skb) (Byte × List Byte) Byte Fault where
  contents := Ring.contents
  room := Ring.space
  push rb bs := (rb.write bs).1
  pop rb n := rb.setTail (rb.tail + n)
  frameLen := rawFrameLen
  write rb _ m :=
    let (rb, r) := writeRaw rb m.2 m.1
    .ok (rb, (), r.isSome)
  read rb _ := (readRaw pdpDevs rb).map fun (rb, ds) => (rb, (), ds)
  out₀ := Ring.empty rawSz (by decide)
  inn₀ := Ring.empty rawSz (by decide)
  tx₀ := ()
  rx₀ := ()

end G3Mod.Sipc
