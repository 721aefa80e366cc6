import Mathlib.Algebra.Ring.Nat
import G3Mod.Rbtree.Model
import G3Mod.Lib.Machine

/-!
# The binder buffer allocator

The per-process buffer area of `binder.c`: `binder_mmap`, `binder_alloc_buf`, `binder_free_buf` and the functions they
call. A buffer is named by the address of its header, which is in the area; its size is read off the next header.
Addresses do not wrap around; sizes from user space are computed modulo `2 ^ 32`. Every `BUG` and every use of a bad
pointer is an error.
-/

namespace G3Mod.Binder.Alloc

open Rbtree

def pageSize : Nat := 4096

def headerSize : Nat := 40

def wordModulus : Nat := 2 ^ 32

def align (x : Nat) : Nat := (x + 3) % wordModulus / 4 * 4

def pageMask (x : Nat) : Nat := x / pageSize * pageSize

def pageAlign (x : Nat) : Nat := pageMask (x + (pageSize - 1))

/-- The fields of `struct binder_buffer` that the allocator reads. -/
structure Header where
  free : Bool
  asyncTransaction : Bool
  transaction : Bool
  dataSize : Nat
  offsetsSize : Nat
  deriving DecidableEq, Repr

/-- The fields of `struct binder_proc` that the allocator uses. -/
structure Proc where
  vma : Bool
  buffer : Nat
  bufferSize : Nat
  pages : Nat → Bool
  buffers : List Nat
  header : Nat → Header
  freeBuffers : RbTree Nat
  allocatedBuffers : RbTree Nat
  freeAsyncSpace : Nat

inductive Bug where
  /-- `BUG_ON(!new_buffer->free)` and `BUG_ON(!buffer->free)` on the free tree -/
  | notFree (b : Nat)
  /-- `BUG_ON(new_buffer->free)` and `BUG_ON(buffer->free)` on the allocated tree -/
  | isFree (b : Nat)
  /-- `BUG()` in `binder_insert_allocated_buffer` -/
  | duplicate (b : Nat)
  /-- `BUG_ON(*page)` -/
  | pageInUse (i : Nat)
  /-- `BUG_ON(size > buffer_size)` -/
  | tooSmall (b : Nat)
  /-- `BUG_ON(buffer->transaction != NULL)` -/
  | hasTransaction (b : Nat)
  /-- the two range checks of `binder_free_buf` -/
  | outOfArea (b : Nat)
  /-- `BUG_ON(proc->buffers.next == &buffer->entry)` -/
  | firstBuffer (b : Nat)
  /-- an index beyond the end of `proc->pages` -/
  | pageIndex (i : Nat)
  /-- `__free_page(NULL)` -/
  | noPage (i : Nat)
  /-- a tree operation on a node that is not in the tree, or through a null pointer -/
  | tree
  /-- a list entry taken from the list head -/
  | listEnd
  deriving DecidableEq, Repr

/-! ## The list of buffers -/

def next (b : Nat) : List Nat → Option Nat
  | [] => none
  | x :: xs => if x = b then xs.head? else next b xs

def prev (b : Nat) : List Nat → Option Nat
  | [] => none
  | [_] => none
  | x :: y :: xs => if y = b then some x else prev b (y :: xs)

def listAdd (n b : Nat) : List Nat → List Nat
  | [] => []
  | x :: xs => if x = b then x :: n :: xs else x :: listAdd n b xs

namespace Proc

variable (p : Proc)

def areaEnd : Nat := p.buffer + p.bufferSize

def free (b : Nat) : Bool := (p.header b).free

def dataEnd (b : Nat) : Nat := (next b p.buffers).getD p.areaEnd

def setHeader (b : Nat) (h : Header) : Proc := { p with header := Function.update p.header b h }

def setFree (b : Nat) (v : Bool) : Proc := p.setHeader b { p.header b with free := v }

def setPage (i : Nat) (v : Bool) : Proc := { p with pages := Function.update p.pages i v }

end Proc

def data (b : Nat) : Nat := b + headerSize

def binderBufferSize (p : Proc) (b : Nat) : Nat := p.dataEnd b - data b

/-! ## The two trees -/

def ofTree {α : Type} : Option α → Except Bug α
  | none => .error .tree
  | some t => .ok t

def freeSide (p : Proc) (newBufferSize : Nat) (b : Nat) : Except Bug Side :=
  if !p.free b then .error (.notFree b)
  else if newBufferSize < binderBufferSize p b then .ok .left
  else .ok .right

def binderInsertFreeBuffer (b : Nat) (p : Proc) : Except Bug Proc :=
  if !p.free b then .error (.notFree b)
  else do
    let path ← descend (freeSide p (binderBufferSize p b)) p.freeBuffers []
    let t ← ofTree (rbInsert path b)
    .ok { p with freeBuffers := t }

def allocatedSide (p : Proc) (newBuffer : Nat) (b : Nat) : Except Bug Side :=
  if p.free b then .error (.isFree b)
  else if newBuffer < b then .ok .left
  else if b < newBuffer then .ok .right
  else .error (.duplicate b)

def binderInsertAllocatedBuffer (b : Nat) (p : Proc) : Except Bug Proc :=
  if p.free b then .error (.isFree b)
  else do
    let path ← descend (allocatedSide p b) p.allocatedBuffers []
    let t ← ofTree (rbInsert path b)
    .ok { p with allocatedBuffers := t }

def eraseFree (b : Nat) (p : Proc) : Except Bug Proc := do
  let t ← ofTree (rbErase b p.freeBuffers)
  .ok { p with freeBuffers := t }

def eraseAllocated (b : Nat) (p : Proc) : Except Bug Proc := do
  let t ← ofTree (rbErase b p.allocatedBuffers)
  .ok { p with allocatedBuffers := t }

/-- The search of `binder_alloc_buf`: the best fit, and whether it is exact. -/
def bestFit (p : Proc) (size : Nat) : RbTree Nat → Option Nat → Except Bug (Option Nat × Bool)
  | .nil, best => .ok (best, false)
  | .node _ l b r, best =>
    if !p.free b then .error (.notFree b)
    else if size < binderBufferSize p b then bestFit p size l (some b)
    else if binderBufferSize p b < size then bestFit p size r best
    else .ok (some b, true)

/-! ## Pages -/

inductive PageResult where
  | mapped
  | allocPageFailed
  | mapVmAreaFailed
  | vmInsertPageFailed
  deriving DecidableEq, Repr

/-- Whether `get_task_mm` gives the address space, and the outcome at each page. -/
structure PageEnv where
  mm : Bool
  result : Nat → PageResult

def pageCount (p : Proc) : Nat := p.bufferSize / pageSize

def pageIndex (p : Proc) (pageAddr : Nat) : Nat := (pageAddr - p.buffer) / pageSize

/-- `n` turns of the loop at `free_range`, downwards from `pageAddr`. -/
def freeLoop : Nat → Nat → Proc → Except Bug Proc
  | 0, _, p => .ok p
  | n + 1, pageAddr, p =>
    let i := pageIndex p pageAddr
    if pageCount p ≤ i then .error (.pageIndex i)
    else if !p.pages i then .error (.noPage i)
    else freeLoop n (pageAddr - pageSize) (p.setPage i false)

/-- `n` turns of the mapping loop, upwards from `pageAddr`: whether all pages were mapped. -/
def mapLoop (env : PageEnv) (start : Nat) : Nat → Nat → Proc → Except Bug (Bool × Proc)
  | 0, _, p => .ok (true, p)
  | n + 1, pageAddr, p =>
    let i := pageIndex p pageAddr
    if pageCount p ≤ i then .error (.pageIndex i)
    else if p.pages i then .error (.pageInUse i)
    else
      match env.result i with
      | .mapped => mapLoop env start n (pageAddr + pageSize) (p.setPage i true)
      | .allocPageFailed => do
          -- `*page` is null: the freeing loop starts at the page below
          let p ← freeLoop ((pageAddr - start) / pageSize) (pageAddr - pageSize) p
          .ok (false, p)
      | .mapVmAreaFailed | .vmInsertPageFailed => do
          -- the page is there: the freeing loop starts with it
          let p ← freeLoop ((pageAddr - start) / pageSize + 1) pageAddr (p.setPage i true)
          .ok (false, p)

/-- `binder_update_page_range` with `allocate` set: whether it returned 0. -/
def mapPageRange (env : PageEnv) (start stop : Nat) (vma : Bool) (p : Proc) : Except Bug (Bool × Proc) :=
  if stop ≤ start then .ok (true, p)
  else if !(vma || (env.mm && p.vma)) then .ok (false, p)
  else mapLoop env start ((stop - start + (pageSize - 1)) / pageSize) start p

/-- `binder_update_page_range` with `allocate` clear. -/
def unmapPageRange (start stop : Nat) (p : Proc) : Except Bug Proc :=
  if stop ≤ start then .ok p
  else freeLoop ((stop - start) / pageSize) (stop - pageSize) p

def alignedSize (dataSize offsetsSize : Nat) : Nat := (align dataSize + align offsetsSize) % wordModulus

def recordAlloc (b size dataSize offsetsSize : Nat) (isAsync : Bool) (p : Proc) : Proc :=
  let p := p.setHeader b
    { p.header b with dataSize := dataSize, offsetsSize := offsetsSize, asyncTransaction := isAsync }
  if isAsync then { p with freeAsyncSpace := p.freeAsyncSpace - (size + headerSize) } else p

/-- `binder_alloc_buf` once the pages are there; `junk` is the memory where a new header comes to lie. -/
def takeBuffer (junk : Header) (b : Nat) (size used dataSize offsetsSize : Nat) (isAsync : Bool) (p : Proc) :
    Except Bug Proc := do
  let p ← eraseFree b p
  let p ← binderInsertAllocatedBuffer b (p.setFree b false)
  let p ←
    if used ≠ size then
      let n := data b + size
      binderInsertFreeBuffer n
        (({ p with buffers := listAdd n b p.buffers }).setHeader n { junk with free := true })
    else .ok p
  .ok (recordAlloc b size dataSize offsetsSize isAsync p)

/-- `buffer_size` as `binder_alloc_buf` leaves it, with room for another header where there is enough. -/
def usedSize (size bufferSize : Nat) (exact : Bool) : Nat :=
  if exact then bufferSize
  else if bufferSize ≤ size + headerSize + 4 then size
  else size + headerSize

def endPageAddr (b : Nat) (bufferSize used : Nat) : Nat :=
  min (pageAlign (data b + used)) (pageMask (data b + bufferSize))

def binderAllocBuf (env : PageEnv) (junk : Header) (dataSize offsetsSize : Nat) (isAsync : Bool) (p : Proc) :
    Except Bug (Option Nat × Proc) :=
  let size := alignedSize dataSize offsetsSize
  if !p.vma then .ok (none, p)
  else if size < dataSize || size < offsetsSize then .ok (none, p)
  else if isAsync && p.freeAsyncSpace < (size + headerSize) % wordModulus then .ok (none, p)
  else do
    match ← bestFit p size p.freeBuffers none with
    | (none, _) => .ok (none, p)
    | (some b, exact) =>
      let bufferSize := binderBufferSize p b
      let used := usedSize size bufferSize exact
      match ← mapPageRange env (pageAlign (data b)) (endPageAddr b bufferSize used) false p with
      | (false, p) => .ok (none, p)
      | (true, p) =>
        let p ← takeBuffer junk b size used dataSize offsetsSize isAsync p
        .ok (some b, p)

/-! ## Release -/

def bufferStartPage (b : Nat) : Nat := pageMask b

def bufferEndPage (b : Nat) : Nat := pageMask (b + headerSize - 1)

def freePageStart (q b : Nat) (n : Option Nat) : Bool :=
  !(bufferEndPage q == bufferStartPage b) &&
    !(n.any fun n => bufferStartPage n == bufferEndPage b && bufferStartPage n == bufferStartPage b)

def freePageEnd (q b : Nat) (n : Option Nat) : Bool :=
  !(bufferEndPage q == bufferStartPage b && bufferEndPage q == bufferEndPage b) &&
    !(n.any fun n => bufferStartPage n == bufferEndPage b)

def binderDeleteFreeBuffer (b : Nat) (p : Proc) : Except Bug Proc :=
  match prev b p.buffers with
  | none => .error (.firstBuffer b)
  | some q =>
    if !p.free q then .error (.notFree q)
    else
      let n := next b p.buffers
      let p := { p with buffers := p.buffers.erase b }
      if freePageStart q b n || freePageEnd q b n then
        unmapPageRange (if freePageStart q b n then bufferStartPage b else bufferEndPage b)
          ((if freePageEnd q b n then bufferEndPage b else bufferStartPage b) + pageSize) p
      else .ok p

/-- The part of `binder_free_buf` that joins the buffer with a free one after it. -/
def mergeNext (b : Nat) (p : Proc) : Except Bug Proc :=
  match next b p.buffers with
  | none => .ok p
  | some n =>
    if p.free n then do
      let p ← eraseFree n p
      binderDeleteFreeBuffer n p
    else .ok p

/-- The part of `binder_free_buf` that joins the buffer with a free one before it. -/
def mergePrev (b : Nat) (p : Proc) : Except Bug (Nat × Proc) :=
  match prev b p.buffers with
  | none => .ok (b, p)
  | some q =>
    if p.free q then do
      let p ← binderDeleteFreeBuffer b p
      let p ← eraseFree q p
      .ok (q, p)
    else .ok (b, p)

def binderFreeBuf (b : Nat) (p : Proc) : Except Bug Proc :=
  let bufferSize := binderBufferSize p b
  let size := alignedSize (p.header b).dataSize (p.header b).offsetsSize
  if p.free b then .error (.isFree b)
  else if bufferSize < size then .error (.tooSmall b)
  else if (p.header b).transaction then .error (.hasTransaction b)
  else if b < p.buffer || p.areaEnd < b then .error (.outOfArea b)
  else do
    let p := if (p.header b).asyncTransaction then
        { p with freeAsyncSpace := p.freeAsyncSpace + (size + headerSize) } else p
    let p ← unmapPageRange (pageAlign (data b)) (pageMask (data b + bufferSize)) p
    let p ← eraseAllocated b p
    let p ← mergeNext b (p.setFree b true)
    let (b, p) ← mergePrev b p
    binderInsertFreeBuffer b p

/-! ## The process's run -/

/-- The process before `binder_mmap`; `memory` is what the headers' memory holds. -/
def unmapped (memory : Nat → Header) (buffer bufferSize : Nat) : Proc where
  vma := false
  buffer := buffer
  bufferSize := bufferSize
  pages := fun _ => false
  buffers := []
  header := memory
  freeBuffers := .nil
  allocatedBuffers := .nil
  freeAsyncSpace := 0

/-- `binder_mmap` of an area of `bufferSize` bytes at `buffer`; `none` when the first page cannot be
mapped. -/
def binderMmap (env : PageEnv) (memory : Nat → Header) (buffer bufferSize : Nat) :
    Except Bug (Option Proc) := do
  match ← mapPageRange env buffer (buffer + pageSize) true (unmapped memory buffer bufferSize) with
  | (false, _) => .ok none
  | (true, p) =>
    let p ← binderInsertFreeBuffer buffer (({ p with buffers := [buffer] }).setFree buffer true)
    .ok (some { p with freeAsyncSpace := bufferSize / 2, vma := true })

/-- The areas that `binder_mmap` sets up: whole pages, at least one and at most 4 MB of them. -/
structure ValidArea (buffer bufferSize : Nat) : Prop where
  buffer_dvd : pageSize ∣ buffer
  buffer_pos : 0 < buffer
  size_dvd : pageSize ∣ bufferSize
  size_pos : 0 < bufferSize
  size_le : bufferSize ≤ 2 ^ 22

def Mapped (p : Proc) : Prop :=
  ∃ env memory buffer bufferSize, ValidArea buffer bufferSize ∧
    binderMmap env memory buffer bufferSize = .ok (some p)

inductive Op where
  /-- `binder_alloc_buf`; on success the caller stores its transaction in the buffer -/
  | alloc (env : PageEnv) (junk : Header) (dataSize offsetsSize : Nat) (isAsync : Bool)
  /-- the caller clears `buffer->transaction` and calls `binder_free_buf` -/
  | free (b : Nat)
  | vmaClose

def setTransaction (b : Nat) (v : Bool) (p : Proc) : Proc :=
  p.setHeader b { p.header b with transaction := v }

def exec (p : Proc) : Op → Except Bug (Option Nat × Proc)
  | .alloc env junk dataSize offsetsSize isAsync => do
      match ← binderAllocBuf env junk dataSize offsetsSize isAsync p with
      | (none, p) => .ok (none, p)
      | (some b, p) => .ok (some b, setTransaction b true p)
  | .free b => do
      let p ← binderFreeBuf b (setTransaction b false p)
      .ok (none, p)
  | .vmaClose => .ok (none, { p with vma := false })

def Live (p : Proc) (b : Nat) : Prop := b ∈ p.buffers ∧ p.free b = false

/-- The arguments a caller may pass: sizes are 32-bit words, and only a live buffer is freed. -/
def Op.Permitted (p : Proc) : Op → Prop
  | .alloc _ _ dataSize offsetsSize _ => dataSize < wordModulus ∧ offsetsSize < wordModulus
  | .free b => Live p b
  | .vmaClose => True

def machine : Lib.Machine Proc Op (Option Nat) Bug where
  init := Mapped
  enabled p op := op.Permitted p
  exec := exec

end G3Mod.Binder.Alloc
