import Mathlib.Algebra.Ring.Nat
import G3Mod.Lib.Machine
import G3Mod.Lib.Tiling

/-!
# The buddy allocator of `drivers/misc/pmem.c`

One device `pmem[id]`. The entry of the bitmap at the first page of a block holds its order and whether it is allocated;
the other entries keep what was written to them earlier. `none` stands for the index `-1`. An access outside the bitmap
is an error, except that a buddy past the end is never free to merge with.
-/

namespace G3Mod.Pmem

def minAlloc : Nat := 4096

def maxOrder : Nat := 128

structure Bits where
  allocated : Bool
  order : Nat
  deriving DecidableEq, Repr

structure Info where
  size : Nat
  numEntries : Nat
  bitmap : Nat → Bits
  noAllocator : Bool
  allocated : Bool

inductive Bug where
  | outOfBounds (index : Nat)
  | endless
  deriving DecidableEq, Repr

/-! ## The bitmap -/

def getBits (index : Nat) (s : Info) : Except Bug Bits :=
  if index < s.numEntries then .ok (s.bitmap index) else .error (.outOfBounds index)

def setBits (index : Nat) (b : Bits) (s : Info) : Except Bug Info :=
  if index < s.numEntries then .ok { s with bitmap := Function.update s.bitmap index b }
  else .error (.outOfBounds index)

/-- Assignment to the field of seven bits. -/
def Bits.withOrder (order : Nat) (b : Bits) : Bits := { b with order := order % 128 }

def buddyIndex (index order : Nat) : Nat := index ^^^ 2 ^ order

def nextIndex (index order : Nat) : Nat := index + 2 ^ order

def pmemLen (order : Nat) : Nat := 2 ^ order * minAlloc

def freeLoop : Nat → Nat → Info → Except Bug Info
  | 0, _, _ => .error .endless
  | fuel + 1, curr, s => do
      let c ← getBits curr s
      let buddy := buddyIndex curr c.order
      -- an entry past the end is taken not to be free
      if buddy < s.numEntries ∧ (s.bitmap buddy).allocated = false ∧ (s.bitmap buddy).order = c.order then do
        let s ← setBits buddy ((s.bitmap buddy).withOrder ((s.bitmap buddy).order + 1)) s
        let c ← getBits curr s
        let s ← setBits curr (c.withOrder (c.order + 1)) s
        if min buddy curr < s.numEntries then freeLoop fuel (min buddy curr) s else .ok s
      else .ok s

def pmemFree (index : Nat) (s : Info) : Except Bug Info :=
  if s.noAllocator then .ok { s with allocated := false }
  else do
    let b ← getBits index s
    let s ← setBits index { b with allocated := false } s
    freeLoop maxOrder index s

def orderLoop (len : Nat) : Nat := ((List.range 32).find? fun i => len >>> i = 0).getD 32

/-- `pmem_order`, with `unsigned long` of 32 bits. -/
def pmemOrder (len : Nat) : Nat :=
  let len := (len + minAlloc - 1) % 2 ^ 32 / minAlloc
  orderLoop ((len + 2 ^ 32 - 1) % 2 ^ 32)

def findLoop (order : Nat) : Nat → Nat → Option Nat → Info → Except Bug (Option Nat)
  | 0, _, _, _ => .error .endless
  | fuel + 1, curr, best, s =>
    if curr < s.numEntries then do
      let c ← getBits curr s
      let next := nextIndex curr c.order
      if c.allocated = false then
        if c.order = order % 256 then .ok (some curr)
        else if order % 256 < c.order ∧ ∀ b ∈ best, c.order < (s.bitmap b).order then
          findLoop order fuel next (some curr) s
        else findLoop order fuel next best s
      else findLoop order fuel next best s
    else .ok best

def splitLoop (order : Nat) : Nat → Nat → Info → Except Bug Info
  | 0, _, _ => .error .endless
  | fuel + 1, best, s => do
      let c ← getBits best s
      if order % 256 < c.order then do
        let s ← setBits best (c.withOrder (c.order - 1)) s
        let c ← getBits best s
        let buddy := buddyIndex best c.order
        let b ← getBits buddy s
        let s ← setBits buddy (b.withOrder c.order) s
        splitLoop order fuel best s
      else .ok s

def pmemAllocate (len : Nat) (s : Info) : Except Bug (Option Nat × Info) :=
  let order := pmemOrder len
  if s.noAllocator then
    if s.size < len ∨ s.allocated then .ok (none, s) else .ok (some len, { s with allocated := true })
  else if maxOrder < order then .ok (none, s)
  else do
    match ← findLoop order (s.numEntries + 1) 0 none s with
    | none => .ok (none, s)
    | some best => do
        let s ← splitLoop order maxOrder best s
        let c ← getBits best s
        let s ← setBits best { c with allocated := true } s
        .ok (some best, s)

/-- The loop over the bits of `num_entries`, from bit `i - 1` down. -/
def setupLoop : Nat → Nat → Info → Except Bug Info
  | 0, _, s => .ok s
  | i + 1, index, s =>
    if s.numEntries.testBit i then do
      let c ← getBits index s
      let s ← setBits index (c.withOrder i) s
      setupLoop i (nextIndex index i) s
    else setupLoop i index s

def pmemSetup (size : Nat) (noAllocator : Bool) : Except Bug Info :=
  setupLoop 32 0
    { size := size
      numEntries := size / minAlloc
      bitmap := fun _ => { allocated := false, order := 0 }
      noAllocator := noAllocator
      allocated := false }

/-- The device, and for each live allocation the length that was asked for. -/
structure State where
  info : Info
  live : Nat → Option Nat

inductive Op where
  | allocate (len : Nat)
  | free (index : Nat)
  deriving DecidableEq, Repr

def exec (s : State) : Op → Except Bug (Option Nat × State)
  | .allocate len => do
      let (r, info) ← pmemAllocate len s.info
      match r with
      | none => .ok (none, { s with info := info })
      | some index => .ok (some index, { info := info, live := Function.update s.live index (some len) })
  | .free index => do
      let info ← pmemFree index s.info
      .ok (none, { info := info, live := Function.update s.live index none })

/-- Lengths are of type `unsigned long`, and only live indices are freed. -/
def Op.Permitted (s : State) : Op → Prop
  | .allocate len => len < 2 ^ 32
  | .free index => (s.live index).isSome

instance {s : State} {op : Op} : Decidable (op.Permitted s) := by
  cases op <;> unfold Op.Permitted <;> infer_instance

/-- The machine of a device with an allocator, of `num_entries` within the range of `int`. -/
def machine (size : Nat) : Lib.Machine State Op (Option Nat) Bug where
  init s := pmemSetup size false = .ok s.info ∧ s.live = fun _ => none
  enabled s op := op.Permitted s
  exec := exec

instance {size : Nat} {s : State} {op : Op} : Decidable ((machine size).enabled s op) :=
  inferInstanceAs (Decidable (op.Permitted s))

end G3Mod.Pmem
