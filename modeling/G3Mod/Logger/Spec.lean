import G3Mod.Logger.Model

/-!
# The log as a queue of entries

All entries that have been written, in order, with the place of each reader among them.
-/

namespace G3Mod.Logger

/-- A reader: the entry it started at, the one it reads next, and the ones that it got and lost. -/
structure Reader where
  start : Nat
  next : Nat
  got : List Nat
  dropped : List Nat
  deriving DecidableEq, Repr

structure Fifo where
  entries : List (List Byte)
  head : Nat
  reader : ReaderId → Option Reader

def emptyFifo : Fifo where
  entries := []
  head := 0
  reader _ := none

def Fifo.total (f : Fifo) : Nat := f.entries.flatten.length

def Fifo.pos (f : Fifo) (n : Nat) : Nat := (f.entries.take n).flatten.length

def dropCount : Nat → List (List Byte) → Nat
  | _, [] => 0
  | len, e :: es => if e.length < len then dropCount (len - e.length) es + 1 else 1

/-- A write of `len` bytes reaches the entry `n` in a ring of `size` bytes. -/
def Fifo.Lapped (f : Fifo) (size len n : Nat) : Prop := f.pos n + size ≤ f.total + len

instance {f : Fifo} {size len n : Nat} : Decidable (f.Lapped size len n) := inferInstanceAs (Decidable (_ ≤ _))

def Fifo.lap (f : Fifo) (size len n : Nat) : Nat :=
  if f.Lapped size len n then n + dropCount len (f.entries.drop n) else n

def Reader.skipTo (n : Nat) (rd : Reader) : Reader :=
  { rd with next := n, dropped := rd.dropped ++ List.range' rd.next (n - rd.next) }

def Reader.readNext (rd : Reader) : Reader := { rd with next := rd.next + 1, got := rd.got ++ [rd.next] }

def newReader (n : Nat) : Reader where
  start := n
  next := n
  got := []
  dropped := []

def Fifo.setReader (r : ReaderId) (rd : Option Reader) (f : Fifo) : Fifo :=
  { f with reader := Function.update f.reader r rd }

def payload (segs : List Segment) : List Byte := (segs.map Segment.base).flatten.take entryMaxPayload

def entryOf (stamp : List Byte) (segs : List Segment) : List Byte :=
  header (min (kiLeft segs) entryMaxPayload) stamp ++ payload segs

def Fifo.write (size : Nat) (stamp : List Byte) (segs : List Segment) (ok : Bool) (f : Fifo) : Fifo :=
  let len := min (kiLeft segs) entryMaxPayload
  if len = 0 then f
  else
    { entries := if ok then f.entries ++ [entryOf stamp segs] else f.entries
      head := f.lap size (headerSize + len) f.head
      reader := fun r => (f.reader r).map fun rd => rd.skipTo (f.lap size (headerSize + len) rd.next) }

def Fifo.step (size : Nat) (f : Fifo) : Op × Out → Fifo
  | (.write _ stamp segs, .write ret) => f.write size stamp segs ret.isSome
  | (.open_ r, _) => f.setReader r (some (newReader f.head))
  | (.read r _ _, .read (.entry _)) => f.setReader r ((f.reader r).map Reader.readNext)
  | (.flush, _) =>
    { f with head := f.entries.length, reader := fun r => (f.reader r).map (Reader.skipTo f.entries.length) }
  | (.release r, _) => f.setReader r none
  | _ => f

def receive (r : ReaderId) (bs : List (List Byte)) : Op × Out → List (List Byte)
  | (.open_ r', _) => if r' = r then [] else bs
  | (.read r' _ _, .read (.entry b)) => if r' = r then bs ++ [b] else bs
  | _ => bs

def Fifo.after (size : Nat) (es : List (Op × Out)) : Fifo := es.foldl (Fifo.step size) emptyFifo

def received (r : ReaderId) (es : List (Op × Out)) : List (List Byte) := es.foldl (receive r) []

/-! ## Writes that fail -/

def Op.Succeeds (s : State) : Op → Prop
  | .write w stamp segs => ∀ orig, s.orig w = some orig → (loggerAioWrite orig stamp segs s.log).1.isSome
  | _ => True

/-- A write fails only if no other one has moved the write offset since it was read. -/
def Op.Careful (s : State) : Op → Prop
  | .write w stamp segs => ∀ orig, s.orig w = some orig →
      (loggerAioWrite orig stamp segs s.log).1 = none → orig = s.log.wOff
  | _ => True

theorem Op.Succeeds.careful {s : State} {op : Op} (h : op.Succeeds s) : op.Careful s := by
  cases op with
  | write w stamp segs =>
    intro orig horig hnone
    have := h orig horig
    rw [hnone] at this
    cases this
  | _ => trivial

def successMachine (k : Nat) : Lib.Machine State Op Out Bug :=
  { machine k with enabled := fun s op => op.Permitted s ∧ op.Succeeds s }

def carefulMachine (k : Nat) : Lib.Machine State Op Out Bug :=
  { machine k with enabled := fun s op => op.Permitted s ∧ op.Careful s }

end G3Mod.Logger
