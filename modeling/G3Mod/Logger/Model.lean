import Mathlib.Algebra.Ring.Nat
import G3Mod.Lib.Machine

/-!
# The log device of `drivers/staging/android/logger.c`

One log. The sections under `log->mutex` are atomic; that of `logger_aio_write` gets the write offset that was read
before the mutex was taken. A copy from user space may fail, and then leaves anything behind where it would have
written.
-/

namespace G3Mod.Logger

def headerSize : Nat := 20

def entryMaxLen : Nat := 4096

def entryMaxPayload : Nat := entryMaxLen - headerSize

abbrev ReaderId := Nat

abbrev Byte := UInt8

/-- `struct logger_log`, with the `r_off` of its readers. -/
structure Log where
  buffer : Nat → Byte
  wOff : Nat
  head : Nat
  size : Nat
  rOff : ReaderId → Option Nat

def loggerOffset (n : Nat) (log : Log) : Nat := n &&& (log.size - 1)

def le16 (b₀ b₁ : Byte) : Nat := b₀.toNat + 256 * b₁.toNat

def getEntryLen (off : Nat) (log : Log) : Nat :=
  headerSize + if log.size - off = 1 then le16 (log.buffer off) (log.buffer 0)
    else le16 (log.buffer off) (log.buffer (off + 1))

/-! ## Readers -/

/-- The loop of `get_next_entry`. An entry is not empty, so that there are at most `len` turns. -/
def getNextEntryLoop (len : Nat) (log : Log) : Nat → Nat → Nat → Nat
  | 0, off, _ => off
  | fuel + 1, off, count =>
    let nr := getEntryLen off log
    if count + nr < len then getNextEntryLoop len log fuel (loggerOffset (off + nr) log) (count + nr)
    else loggerOffset (off + nr) log

def getNextEntry (off len : Nat) (log : Log) : Nat := getNextEntryLoop len log (len + 1) off 0

def clockInterval (a b c : Nat) : Bool := if b < a then decide (a < c ∨ c ≤ b) else decide (a < c ∧ c ≤ b)

def fixUp (log : Log) (len off : Nat) : Nat :=
  if clockInterval log.wOff (loggerOffset (log.wOff + len) log) off then getNextEntry off len log else off

def fixUpReaders (len : Nat) (log : Log) : Log :=
  { log with head := fixUp log len log.head, rOff := fun r => (log.rOff r).map (fixUp log len) }

/-! ## Writing -/

def memcpy (dst : Nat) (bs : List Byte) (buffer : Nat → Byte) : Nat → Byte := fun x =>
  if dst ≤ x ∧ x < dst + bs.length then bs.getD (x - dst) 0 else buffer x

def doWriteLog (bs : List Byte) (log : Log) : Log :=
  let len := min bs.length (log.size - log.wOff)
  let buffer := memcpy log.wOff (bs.take len) log.buffer
  { log with
    buffer := if bs.length ≠ len then memcpy 0 (bs.drop len) buffer else buffer
    wOff := loggerOffset (log.wOff + bs.length) log }

/-- A `copy_from_user`: it succeeds, or leaves some bytes behind and fails. -/
inductive Copy where
  | ok
  | fault (junk : Nat → Byte)

/-- A segment of the vector, and what becomes of the two copies from it. -/
structure Segment where
  base : List Byte
  first : Copy
  second : Copy

def Copy.bytes (bs : List Byte) : Copy → List Byte
  | .ok => bs
  | .fault junk => (List.range bs.length).map junk

def Copy.fails : Copy → Bool
  | .ok => false
  | .fault _ => true

/-- `do_write_log_from_user` of the first `count` bytes of a segment; the error holds the log as it is left. -/
def doWriteLogFromUser (seg : Segment) (count : Nat) (log : Log) : Except Log Log :=
  let bs := seg.base.take count
  let len := min bs.length (log.size - log.wOff)
  let log₁ := { log with buffer := memcpy log.wOff (seg.first.bytes (bs.take len)) log.buffer }
  if len ≠ 0 ∧ seg.first.fails then .error log₁
  else if bs.length ≠ len then
    let log₂ := { log₁ with buffer := memcpy 0 (seg.second.bytes (bs.drop len)) log₁.buffer }
    if seg.second.fails then .error log₂
    else .ok { log₂ with wOff := loggerOffset (log.wOff + bs.length) log }
  else .ok { log₁ with wOff := loggerOffset (log.wOff + bs.length) log }

def segmentLoop (orig len : Nat) : List Segment → Nat → Log → Option Nat × Log
  | [], ret, log => (some ret, log)
  | seg :: segs, ret, log =>
    match doWriteLogFromUser seg (min seg.base.length (len - ret)) log with
    | .error log => (none, { log with wOff := orig })
    | .ok log => segmentLoop orig len segs (ret + min seg.base.length (len - ret)) log

/-- The header of an entry; `stamp` holds its bytes after the length. -/
def header (len : Nat) (stamp : List Byte) : List Byte :=
  [UInt8.ofNat (len % 256), UInt8.ofNat (len / 256)] ++ stamp

def kiLeft (segs : List Segment) : Nat := (segs.map fun seg => seg.base.length).sum

/-- `logger_aio_write` with the offset `orig` read at its start; `none` stands for `-EFAULT`. -/
def loggerAioWrite (orig : Nat) (stamp : List Byte) (segs : List Segment) (log : Log) : Option Nat × Log :=
  let len := min (kiLeft segs) entryMaxPayload
  if len = 0 then (some 0, log)
  else segmentLoop orig len segs 0 (doWriteLog (header len stamp) (fixUpReaders (headerSize + len) log))

inductive ReadRet where
  | entry (bytes : List Byte)
  | eagain
  | einval
  | efault
  deriving DecidableEq, Repr

def readBytes (off count : Nat) (log : Log) : List Byte :=
  let len := min count (log.size - off)
  (List.range len).map (fun i => log.buffer (off + i)) ++
    if count ≠ len then (List.range (count - len)).map log.buffer else []

/-- `logger_read` of a reader at `off` with `O_NONBLOCK`; `fault`: a copy to user space fails. -/
def loggerRead (r : ReaderId) (off count : Nat) (fault : Bool) (log : Log) : ReadRet × Log :=
  if log.wOff = off then (.eagain, log)
  else
    let ret := getEntryLen off log
    if count < ret then (.einval, log)
    else if fault then (.efault, log)
    else
      (.entry (readBytes off ret log),
        { log with rOff := Function.update log.rOff r (some (loggerOffset (off + ret) log)) })

def loggerOpen (r : ReaderId) (log : Log) : Log := { log with rOff := Function.update log.rOff r (some log.head) }

def loggerRelease (r : ReaderId) (log : Log) : Log := { log with rOff := Function.update log.rOff r none }

def flushLog (log : Log) : Log :=
  { log with head := log.wOff, rOff := fun r => (log.rOff r).map fun _ => log.wOff }

/-! ## The machine -/

abbrev WriterId := Nat

/-- The log, and the offsets that the writers have read but not yet used. -/
structure State where
  log : Log
  orig : WriterId → Option Nat

inductive Op where
  | beginWrite (w : WriterId)
  | write (w : WriterId) (stamp : List Byte) (segs : List Segment)
  | open_ (r : ReaderId)
  | read (r : ReaderId) (count : Nat) (fault : Bool)
  | flush
  | release (r : ReaderId)

inductive Out where
  | done
  | write (ret : Option Nat)
  | read (ret : ReadRet)

inductive Bug where
  | notOpen
  deriving DecidableEq, Repr

def exec (s : State) : Op → Except Bug (Out × State)
  | .beginWrite w => .ok (.done, { s with orig := Function.update s.orig w (some s.log.wOff) })
  | .write w stamp segs =>
    match s.orig w with
    | none => .error .notOpen
    | some orig =>
      let (ret, log) := loggerAioWrite orig stamp segs s.log
      .ok (.write ret, { log := log, orig := Function.update s.orig w none })
  | .open_ r => .ok (.done, { s with log := loggerOpen r s.log })
  | .read r count fault =>
    match s.log.rOff r with
    | none => .error .notOpen
    | some off =>
      let (ret, log) := loggerRead r off count fault s.log
      .ok (.read ret, { s with log := log })
  | .flush => .ok (.done, { s with log := flushLog s.log })
  | .release r => .ok (.done, { s with log := loggerRelease r s.log })

/-- A writer writes what it has begun, with the 18 bytes of the header after the length, and a reader is opened once. -/
def Op.Permitted (s : State) : Op → Prop
  | .beginWrite w => s.orig w = none
  | .write w stamp _ => (s.orig w).isSome ∧ stamp.length + 2 = headerSize
  | .open_ r => s.log.rOff r = none
  | .read r _ _ => (s.log.rOff r).isSome
  | .flush => True
  | .release r => (s.log.rOff r).isSome

instance {s : State} {op : Op} : Decidable (op.Permitted s) := by
  cases op <;> unfold Op.Permitted <;> infer_instance

def machine (k : Nat) : Lib.Machine State Op Out Bug where
  init s := s.log.size = 2 ^ k ∧ s.log.wOff = 0 ∧ s.log.head = 0 ∧ (∀ r, s.log.rOff r = none) ∧ ∀ w, s.orig w = none
  enabled s op := op.Permitted s
  exec := exec

instance {k : Nat} {s : State} {op : Op} : Decidable ((machine k).enabled s op) :=
  inferInstanceAs (Decidable (op.Permitted s))

end G3Mod.Logger
