import G3Mod.Lib.Bits
import G3Mod.Lib.Linked
import G3Mod.Lib.Machine
import G3Mod.Lib.Tiling

/-!
# The memory allocator of `xvmalloc-kmod/xvmalloc.c`

A page is a sequence of blocks with headers. Free blocks that are large enough are in lists by size, with links in the
blocks, and two levels of bitmaps say which lists are not empty. Headers and links are functions of the address; what
is between the headers may change at any time. Words have 32 bits.
-/

namespace G3Mod.Xvmalloc

open Function

def pageSize : Nat := 4096

def xvAlign : Nat := 4

def minAllocSize : Nat := 32

def maxAllocSize : Nat := pageSize - xvAlign

def flDelta : Nat := 8

def numFreeLists : Nat := (maxAllocSize - minAllocSize) / flDelta + 1

def bitsPerLong : Nat := 32

def maxFli : Nat := (numFreeLists + bitsPerLong - 1) / bitsPerLong

def align (n a : Nat) : Nat := (n + a - 1) / a * a

abbrev PageId := Nat

@[ext] structure Addr where
  page : PageId
  offset : Nat
  deriving DecidableEq, Repr

/-! ## Headers -/

structure Header where
  size : Nat
  prev : Nat
  deriving DecidableEq, Repr

inductive BlockFlag where
  | blockFree
  | prevFree
  deriving DecidableEq, Repr

def BlockFlag.bit : BlockFlag → Nat
  | .blockFree => 1
  | .prevFree => 2

def testFlag (h : Header) (flag : BlockFlag) : Bool := h.prev / flag.bit % 2 = 1

def setFlag (flag : BlockFlag) (h : Header) : Header :=
  if testFlag h flag then h else { h with prev := h.prev + flag.bit }

def clearFlag (flag : BlockFlag) (h : Header) : Header :=
  if testFlag h flag then { h with prev := h.prev - flag.bit } else h

def getBlockprev (h : Header) : Nat := h.prev / xvAlign * xvAlign

def setBlockprev (offset : Nat) (h : Header) : Header := { h with prev := offset ||| h.prev % xvAlign }

structure Pool where
  flbitmap : Nat
  slbitmap : Nat → Nat
  freelist : Nat → Option Addr
  totalPages : Nat

/-- The pool, the memory of its pages, the pages it has, and the objects it has handed out with the sizes asked for. -/
structure State where
  pool : Pool
  header : Addr → Header
  link : Addr → Lib.Link Addr
  owned : PageId → Bool
  live : Addr → Option Nat

inductive Bug where
  /-- `slbitmap` or `freelist` used outside of the array -/
  | bounds
  /-- `BUG_ON(test_flag(block, BLOCK_FREE))` -/
  | doubleFree
  /-- the block before is not where its size says -/
  | lostPrev
  deriving DecidableEq, Repr

def setHeader (a : Addr) (h : Header) (s : State) : State := { s with header := update s.header a h }

/-! ## Searching -/

def getIndexForInsert (size : Nat) : Nat :=
  let size := if maxAllocSize < size then maxAllocSize else size
  (size / flDelta * flDelta - minAllocSize) / flDelta

def getIndex (size : Nat) : Nat :=
  let size := if size < minAllocSize then minAllocSize else size
  (align size flDelta - minAllocSize) / flDelta

def ffs (word : Nat) : Nat := Lib.lowBit bitsPerLong word

def slWord (i : Nat) (pool : Pool) : Except Bug Nat := if i < maxFli then .ok (pool.slbitmap i) else .error .bounds

/-- The head of the list that has been found. -/
def foundList (i : Nat) (pool : Pool) : Except Bug (Nat × Option Addr) :=
  if i < numFreeLists then .ok (i, pool.freelist i) else .error .bounds

/-- The second part of `find_block`, in the words after that of `slindex`. -/
def findInWords (slindex : Nat) (pool : Pool) : Except Bug (Nat × Option Addr) :=
  let flbitmap := pool.flbitmap >>> (slindex / bitsPerLong + 1)
  if flbitmap = 0 then .ok (0, none)
  else do
    let flindex := slindex / bitsPerLong + ffs flbitmap + 1
    let slbitmap ← slWord flindex pool
    foundList (flindex * bitsPerLong + ffs slbitmap) pool

/-- The index of the list, and the block; `none` if `*page` is left `NULL`. -/
def findBlock (size : Nat) (pool : Pool) : Except Bug (Nat × Option Addr) :=
  if pool.flbitmap = 0 then .ok (0, none)
  else do
    let slindex := getIndex size
    let slbitmap ← slWord (slindex / bitsPerLong) pool
    let slbitstart := slindex % bitsPerLong
    if slbitmap.testBit slbitstart then foundList slindex pool
    else
      let rest := slbitmap >>> (slbitstart + 1)
      if slbitstart + 1 ≠ bitsPerLong ∧ rest ≠ 0 then foundList (slindex + ffs rest + 1) pool
      else findInWords slindex pool

def setBits (slindex : Nat) (pool : Pool) : Pool :=
  let flindex := slindex / bitsPerLong
  { pool with
    slbitmap := update pool.slbitmap flindex (Lib.setBit (pool.slbitmap flindex) (slindex % bitsPerLong))
    flbitmap := Lib.setBit pool.flbitmap flindex }

def clearBits (slindex : Nat) (pool : Pool) : Pool :=
  let flindex := slindex / bitsPerLong
  let word := Lib.clearBit (pool.slbitmap flindex) (slindex % bitsPerLong)
  { pool with
    slbitmap := update pool.slbitmap flindex word
    flbitmap := if word = 0 then Lib.clearBit pool.flbitmap flindex else pool.flbitmap }

def insertBlock (a : Addr) (s : State) : State :=
  let slindex := getIndexForInsert (s.header a).size
  { s with
    link := Lib.pushFront s.link (s.pool.freelist slindex) a
    pool := setBits slindex { s.pool with freelist := update s.pool.freelist slindex (some a) } }

def removeBlockHead (a : Addr) (slindex : Nat) (s : State) : State :=
  let pool := { s.pool with freelist := update s.pool.freelist slindex (s.link a).next }
  { s with
    link := Lib.popFront s.link a
    pool := if (s.link a).next = none then clearBits slindex pool else pool }

def removeBlock (a : Addr) (slindex : Nat) (s : State) : State :=
  if s.pool.freelist slindex = some a then removeBlockHead a slindex s
  else { s with link := Lib.unlink s.link a }

/-! ## Pages -/

def addPage (p : PageId) (s : State) : State :=
  let a : Addr := ⟨p, 0⟩
  let s := { s with pool := { s.pool with totalPages := s.pool.totalPages + 1 }, owned := update s.owned p true }
  let h : Header := { s.header a with size := pageSize - xvAlign }
  insertBlock a (setHeader a (setBlockprev 0 (clearFlag .prevFree (setFlag .blockFree h))) s)

def growPool (page : Option PageId) (s : State) : Option State := page.map (addPage · s)

/-- The part of `xv_malloc` that splits the block `a` of which `size` bytes are used. -/
def splitBlock (a : Addr) (size : Nat) (s : State) : State :=
  let tmp : Addr := ⟨a.page, a.offset + size + xvAlign⟩
  let tmpsize := (s.header a).size - size
  if tmpsize ≠ 0 then
    let h : Header := { s.header tmp with size := tmpsize - xvAlign }
    let h := setBlockprev a.offset (clearFlag .prevFree (setFlag .blockFree h))
    let s := setHeader tmp h s
    let s := if minAllocSize ≤ h.size then insertBlock tmp s else s
    if tmp.offset + xvAlign + h.size ≠ pageSize then
      let next : Addr := ⟨a.page, tmp.offset + h.size + xvAlign⟩
      setHeader next (setBlockprev tmp.offset (s.header next)) s
    else s
  else if tmp.offset ≠ pageSize then setHeader tmp (clearFlag .prevFree (s.header tmp)) s
  else s

/-- The part of `xv_malloc` after a block has been found; `origsize` is the size asked for. -/
def takeBlock (a : Addr) (index origsize : Nat) (s : State) : State :=
  let s := splitBlock a (align origsize xvAlign) (removeBlockHead a index s)
  setHeader a (clearFlag .blockFree { s.header a with size := origsize }) s

/-- What `find_block` has found is handed out; `none` stands for `-ENOMEM`. -/
def finishMalloc (size : Nat) (found : Nat × Option Addr) (s : State) : Option Addr × State :=
  match found.2 with
  | none => (none, s)
  | some a => (some ⟨a.page, a.offset + xvAlign⟩, takeBlock a found.1 size s)

/-- `xv_malloc`; `page` is what `alloc_page` returns if it is called. -/
def xvMalloc (size : Nat) (page : Option PageId) (s : State) : Except Bug (Option Addr × State) :=
  if size = 0 ∨ maxAllocSize < size then .ok (none, s)
  else do
    let found ← findBlock (align size xvAlign) s.pool
    if found.2 = none then
      match growPool page s with
      | none => .ok (none, s)
      | some s => do
          let found ← findBlock (align size xvAlign) s.pool
          .ok (finishMalloc size found s)
    else .ok (finishMalloc size found s)

/-- The block after `a` is taken in if it is free. -/
def mergeNext (a : Addr) (s : State) : State :=
  let size := (s.header a).size
  let next : Addr := ⟨a.page, a.offset + size + xvAlign⟩
  if next.offset ≠ pageSize ∧ testFlag (s.header next) .blockFree then
    let s := if minAllocSize ≤ (s.header next).size then
      removeBlock next (getIndexForInsert (s.header next).size) s else s
    setHeader a { s.header a with size := size + (s.header next).size + xvAlign } s
  else s

/-- The block is taken into the one before it if that is free; the answer is the block that there is then. -/
def mergePrev (a : Addr) (s : State) : Except Bug (Addr × State) :=
  if testFlag (s.header a) .prevFree then
    let prev : Addr := ⟨a.page, getBlockprev (s.header a)⟩
    let size := (s.header prev).size
    if prev.offset ≠ a.offset - size - xvAlign then .error .lostPrev
    else
      let s := if minAllocSize ≤ size then removeBlock prev (getIndexForInsert size) s else s
      .ok (prev, setHeader prev { s.header prev with size := size + (s.header a).size + xvAlign } s)
  else .ok (a, s)

/-- The free block `a` is put into its list, and the block after it gets to know. -/
def releaseBlock (a : Addr) (s : State) : State :=
  let s := setHeader a (setFlag .blockFree (s.header a)) s
  let size := (s.header a).size
  let s := if minAllocSize ≤ size then insertBlock a s else s
  if a.offset + size + xvAlign ≠ pageSize then
    let next : Addr := ⟨a.page, a.offset + size + xvAlign⟩
    setHeader next (setBlockprev a.offset (setFlag .prevFree (s.header next))) s
  else s

def freePage (p : PageId) (s : State) : State :=
  { s with owned := update s.owned p false, pool := { s.pool with totalPages := s.pool.totalPages - 1 } }

def xvFree (obj : Addr) (s : State) : Except Bug State :=
  let a : Addr := ⟨obj.page, obj.offset - xvAlign⟩
  if testFlag (s.header a) .blockFree then .error .doubleFree
  else do
    let s := setHeader a { s.header a with size := align (s.header a).size xvAlign } s
    let (b, s) ← mergePrev a (mergeNext a s)
    if (s.header b).size = pageSize - xvAlign then .ok (freePage a.page s) else .ok (releaseBlock b s)

/-! ## The machine -/

def blockLen (s : State) (a : Addr) : Nat := align (s.header a).size xvAlign + xvAlign

/-- Going from block to block in a page of the pool one comes to `a`. -/
def IsBlock (s : State) (a : Addr) : Prop :=
  s.owned a.page = true ∧ Lib.Reached pageSize (fun i => blockLen s ⟨a.page, i⟩) a.offset

inductive Op where
  | malloc (size : Nat) (page : Option PageId)
  | free (obj : Addr)
  /-- others write to the memory that the allocator does not use -/
  | scribble (header : Addr → Header) (link : Addr → Lib.Link Addr)

inductive Out where
  | malloc (obj : Option Addr)
  | done
  deriving DecidableEq, Repr

def exec (s : State) : Op → Except Bug (Out × State)
  | .malloc size page => do
      let (obj, s) ← xvMalloc size page s
      match obj with
      | none => .ok (.malloc none, s)
      | some a => .ok (.malloc (some a), { s with live := update s.live a (some size) })
  | .free obj => do
      let s ← xvFree obj s
      .ok (.done, { s with live := update s.live obj none })
  | .scribble header link => .ok (.done, { s with header := header, link := link })

/-- `alloc_page` gives an unused page; objects are freed once; nobody writes to headers and links. -/
def Op.Permitted (s : State) : Op → Prop
  | .malloc _ page => ∀ p, page = some p → s.owned p = false
  | .free obj => (s.live obj).isSome = true
  | .scribble header link => ∀ a, IsBlock s a →
      header a = s.header a ∧ (testFlag (s.header a) .blockFree = true → minAllocSize ≤ (s.header a).size → link a = s.link a)

def emptyPool : Pool where
  flbitmap := 0
  slbitmap _ := 0
  freelist _ := none
  totalPages := 0

def machine : Lib.Machine State Op Out Bug where
  init s := s.pool = emptyPool ∧ (∀ p, s.owned p = false) ∧ ∀ a, s.live a = none
  enabled s op := op.Permitted s
  exec := exec

end G3Mod.Xvmalloc
