import Mathlib.Algebra.Ring.Nat
import G3Mod.Lib.Machine

/-!
# The compressed block device of `compcache/zram_drv.c`

Pages of the disk are kept compressed in memory. The compressor is a parameter. The two allocators are given by what
they promise: an object is a range of bytes in a page that no other object uses; anything outside of the objects may
change with every call. A decrement of a counter at zero is an error.
-/

namespace G3Mod.Zram

open Function

def pageSize : Nat := 4096

def maxZpageSize : Nat := pageSize / 4 * 3

def xvMaxAllocSize : Nat := pageSize - 4

def defaultDisksizePercRam : Nat := 25

abbrev Byte := UInt8

abbrev Page := Vector Byte pageSize

abbrev PageId := Nat

abbrev Address := PageId × Nat

abbrev Memory := PageId → Nat → Byte

/-- `lzo1x_1_compress`, and `lzo1x_decompress_safe` into a page: whether it succeeds, and the page that it leaves. -/
structure Lzo where
  compress : Page → Option (List Byte)
  decompress : List Byte → Page → Bool × Page

structure Entry where
  page : Option PageId
  offset : Nat
  uncompressed : Bool
  zero : Bool
  deriving DecidableEq, Repr

def emptyEntry : Entry := ⟨none, 0, false, false⟩

structure Stats where
  comprSize : Nat
  numReads : Nat
  numWrites : Nat
  failedReads : Nat
  failedWrites : Nat
  notifyFree : Nat
  pagesZero : Nat
  pagesStored : Nat
  goodCompress : Nat
  pagesExpand : Nat
  deriving DecidableEq, Repr

def noStats : Stats := ⟨0, 0, 0, 0, 0, 0, 0, 0, 0, 0⟩

/-- An allocated object: a `whole` page from `alloc_page`, or one from `xv_malloc`. -/
structure Object where
  size : Nat
  whole : Bool
  deriving DecidableEq, Repr

/-- `struct zram`, with the objects in use and the memory they are in. -/
structure Zram where
  initDone : Bool
  disksize : Nat
  table : Nat → Entry
  stats : Stats
  live : Address → Option Object
  mem : Memory

inductive Bug where
  /-- `zram->table` is used while it is `NULL` -/
  | nullTable
  /-- an object is used or freed that is not there -/
  | noObject
  /-- a counter is decremented below zero -/
  | underflow
  deriving DecidableEq, Repr

def statDec (v : Nat) : Except Bug Nat := if v = 0 then .error .underflow else .ok (v - 1)

def stat64Sub (v dec : Nat) : Except Bug Nat := if v < dec then .error .underflow else .ok (v - dec)

/-! ## Memory -/

def load (a : Address) (size : Nat) (mem : Memory) : List Byte := (List.range size).map fun i => mem a.1 (a.2 + i)

def store (a : Address) (bs : List Byte) (mem : Memory) : Memory := fun page x =>
  if page = a.1 ∧ a.2 ≤ x ∧ x < a.2 + bs.length then bs.getD (x - a.2) 0 else mem page x

def xvGetObjectSize (a : Address) (s : Zram) : Except Bug Nat :=
  match s.live a with
  | some o => if o.whole then .error .noObject else .ok o.size
  | none => .error .noObject

/-- `xv_free`, and `__free_page` for a `whole` page. -/
def free (a : Address) (whole : Bool) (s : Zram) : Except Bug Zram :=
  match s.live a with
  | some o => if o.whole = whole then .ok { s with live := update s.live a none } else .error .noObject
  | none => .error .noObject

/-- What the allocators do during a call: the address they hand out, if any, and the memory that they leave. -/
structure Supply where
  alloc : Option Address
  mem : Memory

def xvMalloc (size : Nat) (sup : Supply) : Option Address :=
  if size = 0 ∨ xvMaxAllocSize < size then none else sup.alloc

def allocPage (sup : Supply) : Option PageId := sup.alloc.map Prod.fst

/-- The end of `zram_free_page`: an object of `clen` bytes is gone. -/
def dropPage (index clen : Nat) (e : Entry) (s : Zram) : Except Bug Zram := do
  let comprSize ← stat64Sub s.stats.comprSize clen
  let pagesStored ← statDec s.stats.pagesStored
  .ok { s with
    table := update s.table index { e with page := none, offset := 0 }
    stats := { s.stats with comprSize := comprSize, pagesStored := pagesStored } }

def zramFreePage (index : Nat) (s : Zram) : Except Bug Zram :=
  let e := s.table index
  match e.page with
  | none =>
    if e.zero then do
      let pagesZero ← statDec s.stats.pagesZero
      .ok { s with
        table := update s.table index { e with zero := false }
        stats := { s.stats with pagesZero := pagesZero } }
    else .ok s
  | some page =>
    if e.uncompressed then do
      let s ← free (page, 0) true s
      let pagesExpand ← statDec s.stats.pagesExpand
      dropPage index pageSize { e with uncompressed := false }
        { s with stats := { s.stats with pagesExpand := pagesExpand } }
    else do
      let clen ← xvGetObjectSize (page, e.offset) s
      let s ← free (page, e.offset) false s
      let goodCompress ← if clen ≤ pageSize / 2 then statDec s.stats.goodCompress else .ok s.stats.goodCompress
      dropPage index clen e { s with stats := { s.stats with goodCompress := goodCompress } }

/-! ## Writing -/

def pageZeroFilled (p : Page) : Bool := p.toList.all (· == 0)

def zeroPage : Page := Vector.replicate pageSize 0

def failWrite (s : Zram) : Zram := { s with stats := { s.stats with failedWrites := s.stats.failedWrites + 1 } }

/-- The bytes `bs` are stored at `a` and the statistics updated; `e` is the entry of the table. -/
def memstore (index : Nat) (e : Entry) (a : Address) (bs : List Byte) (whole : Bool) (s : Zram) : Zram :=
  { s with
    table := update s.table index e
    live := update s.live a (some ⟨bs.length, whole⟩)
    mem := store a bs s.mem
    stats := { s.stats with
      comprSize := s.stats.comprSize + bs.length
      pagesStored := s.stats.pagesStored + 1
      pagesExpand := if whole then s.stats.pagesExpand + 1 else s.stats.pagesExpand
      goodCompress := if bs.length ≤ pageSize / 2 then s.stats.goodCompress + 1 else s.stats.goodCompress } }

/-- `zram_write` frees the slot first, if there is something in it. -/
def freeOld (index : Nat) (s : Zram) : Except Bug Zram :=
  if (s.table index).page.isSome || (s.table index).zero then zramFreePage index s else .ok s

/-- `zram_write` into a slot that is empty. -/
def storeNew (lzo : Lzo) (sup : Supply) (index : Nat) (p : Page) (s : Zram) : Bool × Zram :=
  let e := s.table index
  if pageZeroFilled p then
    (true, { s with
      table := update s.table index { e with zero := true }
      stats := { s.stats with pagesZero := s.stats.pagesZero + 1 } })
  else
    match lzo.compress p with
    | none => (false, failWrite s)
    | some c =>
      if maxZpageSize < c.length then
        match allocPage sup with
        | none => (false, failWrite s)
        | some page =>
          (true, memstore index { e with uncompressed := true, page := some page, offset := 0 } (page, 0) p.toList
            true s)
      else
        match xvMalloc c.length sup with
        | none => (false, failWrite { s with table := update s.table index { e with page := none } })
        | some a => (true, memstore index { e with page := some a.1, offset := a.2 } a c false s)

def storePage (lzo : Lzo) (sup : Supply) (index : Nat) (p : Page) (s : Zram) : Except Bug (Bool × Zram) := do
  let s ← freeOld index s
  .ok (storeNew lzo sup index p { s with mem := sup.mem })

/-- The loop of `zram_write`: how many pages have been stored, and whether all have. -/
def writeLoop (lzo : Lzo) : List (Page × Supply) → Nat → Nat → Zram → Except Bug ((Nat × Bool) × Zram)
  | [], _, stored, s => .ok ((stored, true), s)
  | (p, sup) :: segs, index, stored, s => do
      let (ok, s) ← storePage lzo sup index p s
      if ok then writeLoop lzo segs (index + 1) (stored + 1) s else .ok ((stored, false), s)

/-! ## Initialization -/

/-- A `u64` with the `unsigned long` mask of pages applied. -/
def pageMask (d : Nat) : Nat := d % 2 ^ 32 / pageSize * pageSize

def zramSetDisksize (totalramBytes disksize : Nat) : Nat :=
  pageMask (if disksize = 0 then defaultDisksizePercRam * (totalramBytes / 100) else disksize)

/-- What becomes of the allocations of `zram_init_device`. -/
inductive InitOutcome where
  | ok
  | noWorkmem
  | noBuffer
  | noTable
  | noPool
  deriving DecidableEq, Repr

/-- `zram_reset_device` of a device without pages. -/
def resetEmpty (s : Zram) : Zram :=
  { s with initDone := false, disksize := 0, table := fun _ => emptyEntry, stats := noStats }

/-- `zram_init_device`; `zram_reset_device` goes through the table even if there is none. -/
def zramInitDevice (outcome : InitOutcome) (totalramBytes : Nat) (s : Zram) : Except Bug (Bool × Zram) :=
  let s := { s with disksize := zramSetDisksize totalramBytes s.disksize }
  match outcome with
  | .ok => .ok (true, { s with initDone := true, table := fun _ => emptyEntry })
  | .noWorkmem | .noBuffer => if s.disksize / pageSize = 0 then .ok (false, resetEmpty s) else .error .nullTable
  | .noTable | .noPool => .ok (false, resetEmpty s)

def zramReady (outcome : InitOutcome) (totalramBytes : Nat) (s : Zram) : Except Bug (Bool × Zram) :=
  if s.initDone then .ok (true, s) else zramInitDevice outcome totalramBytes s

def countWrite (s : Zram) : Zram := { s with stats := { s.stats with numWrites := s.stats.numWrites + 1 } }

def zramWrite (lzo : Lzo) (first : Nat) (segs : List (Page × Supply)) (outcome : InitOutcome) (totalramBytes : Nat)
    (s : Zram) : Except Bug ((Nat × Bool) × Zram) := do
  let (ok, s) ← zramReady outcome totalramBytes s
  if ok then writeLoop lzo segs first 0 (countWrite s)
  else .ok ((0, false), s)

/-- One turn of the loop of `zram_read`: whether the page can be read, and what the page of the request holds then. -/
def readPage (lzo : Lzo) (index : Nat) (old : Page) (s : Zram) : Except Bug (Bool × Page) :=
  let e := s.table index
  if e.zero then .ok (true, zeroPage)
  else
    match e.page with
    | none => .ok (true, old)
    | some page =>
      if e.uncompressed then .ok (true, Vector.ofFn fun i => s.mem page (e.offset + i))
      else do
        let size ← xvGetObjectSize (page, e.offset) s
        .ok (lzo.decompress (load (page, e.offset) size s.mem) old)

/-- The loop of `zram_read`; `none` stands for an error. -/
def readLoop (lzo : Lzo) (s : Zram) : List Page → Nat → Except Bug (Option (List Page))
  | [], _ => .ok (some [])
  | old :: olds, index => do
      let (ok, p) ← readPage lzo index old s
      if ok then do
        let ps ← readLoop lzo s olds (index + 1)
        .ok (ps.map (p :: ·))
      else .ok none

def zramRead (lzo : Lzo) (first : Nat) (olds : List Page) (s : Zram) : Except Bug (Option (List Page) × Zram) :=
  if s.initDone then do
    let ps ← readLoop lzo s olds first
    let failedReads := if ps.isSome then s.stats.failedReads else s.stats.failedReads + 1
    .ok (ps, { s with stats := { s.stats with numReads := s.stats.numReads + 1, failedReads := failedReads } })
  else .ok (some olds, s)

/-- `zram_slot_free_notify`; `mem` is the memory that the allocator leaves. -/
def zramSlotFreeNotify (index : Nat) (mem : Memory) (s : Zram) : Except Bug Zram := do
  let s ← zramFreePage index s
  .ok { s with mem := mem, stats := { s.stats with notifyFree := s.stats.notifyFree + 1 } }

def Unused (a : Address) (size : Nat) (s : Zram) : Prop :=
  ∀ b o, s.live b = some o → b.1 ≠ a.1 ∨ b.2 + o.size ≤ a.2 ∨ a.2 + size ≤ b.2

def Agrees (mem : Memory) (s : Zram) : Prop :=
  ∀ a o i, s.live a = some o → i < o.size → mem a.1 (a.2 + i) = s.mem a.1 (a.2 + i)

def need (lzo : Lzo) (p : Page) : Nat :=
  match lzo.compress p with
  | none => 0
  | some c => if maxZpageSize < c.length then pageSize else c.length

/-- The memory that is handed out is not used, and is a page where a page is asked for. -/
structure Supply.Fits (lzo : Lzo) (p : Page) (s : Zram) (sup : Supply) : Prop where
  agrees : Agrees sup.mem s
  unused : ∀ a, sup.alloc = some a →
    Unused (if need lzo p = pageSize then (a.1, 0) else a) (need lzo p) s

def WriteAllowed (lzo : Lzo) : List (Page × Supply) → Nat → Zram → Prop
  | [], _, _ => True
  | (p, sup) :: segs, index, s => (∀ s₁, freeOld index s = .ok s₁ → sup.Fits lzo p s₁) ∧
      ∀ s₁, storePage lzo sup index p s = .ok (true, s₁) → WriteAllowed lzo segs (index + 1) s₁

inductive Op where
  | write (first : Nat) (segs : List (Page × Supply)) (outcome : InitOutcome) (totalramBytes : Nat)
  | read (first : Nat) (olds : List Page)
  | slotFree (index : Nat) (mem : Memory)

inductive Out where
  | write (stored : Nat) (ok : Bool)
  | read (pages : Option (List Page))
  | done

def exec (lzo : Lzo) (s : Zram) : Op → Except Bug (Out × Zram)
  | .write first segs outcome totalram => do
      let ((stored, ok), s) ← zramWrite lzo first segs outcome totalram s
      .ok (.write stored ok, s)
  | .read first olds => do
      let (ps, s) ← zramRead lzo first olds s
      .ok (.read ps, s)
  | .slotFree index mem => do
      let s ← zramSlotFreeNotify index mem s
      .ok (.done, s)

/-- The pages of a request are on the disk, and the allocators keep their promise. -/
def Op.Permitted (lzo : Lzo) (s : Zram) : Op → Prop
  | .write first segs outcome totalram => first + segs.length ≤ s.disksize / pageSize ∧
      ∀ s₁, zramReady outcome totalram s = .ok (true, s₁) → WriteAllowed lzo segs first (countWrite s₁)
  | .read first olds => first + olds.length ≤ s.disksize / pageSize
  | .slotFree index mem => s.initDone ∧ index < s.disksize / pageSize ∧
      ∀ s₁, zramFreePage index s = .ok s₁ → Agrees mem s₁

/-- A device that is not initialized, with the size that `disksize_store` has set. -/
def machine (lzo : Lzo) : Lib.Machine Zram Op Out Bug where
  init s := s.initDone = false ∧ (∃ d, s.disksize = pageMask d) ∧ s.table = (fun _ => emptyEntry) ∧
    s.stats = noStats ∧ ∀ a, s.live a = none
  enabled s op := op.Permitted lzo s
  exec := exec lzo

end G3Mod.Zram
