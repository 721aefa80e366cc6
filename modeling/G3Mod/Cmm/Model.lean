import Mathlib.Algebra.Ring.Nat
import G3Mod.Lib.Machine
import G3Mod.Lib.Ring

/-!
# The codec memory manager `s3c-cmm.c`

Two areas of physical memory, one cached and one not, are given out in pieces. Those in use and the free ones are on two
circular lists, each with a sentinel and a moving head. `kmalloc` never fails here and gives any address that is not in
use. Loops stop with `hang` when they take more rounds than there are nodes.
-/

namespace G3Mod.Cmm

open Function Lib

abbrev Ptr := Nat

def maxInstanceNum : Nat := 10

def cachedMemSize : Nat := 4 * 1024 * 1024

def nonCachedMemSize : Nat := 4 * 1024 * 1024

/-- `CODEC_MEM_START`, where the two areas are mapped, and the choices of `kmalloc`. -/
structure Env where
  start : Nat
  cachedVirAddr : Nat
  nonCachedVirAddr : Nat
  kmalloc : Nat → List Ptr → Ptr
  fresh : ∀ n used, kmalloc n used ∉ used
  start_pos : 0 < start
  start_le : start + (cachedMemSize + nonCachedMemSize) ≤ 2 ^ 32
  cached_pos : 0 < cachedVirAddr
  cached_le : cachedVirAddr + cachedMemSize ≤ 2 ^ 32
  nonCached_pos : 0 < nonCachedVirAddr
  nonCached_le : nonCachedVirAddr + nonCachedMemSize ≤ 2 ^ 32

/-- `ALLOC_MEM_T` without the links; the two physical addresses share one place. -/
structure AllocMem where
  pAddr : Nat
  vAddr : Nat
  uAddr : Nat
  size : Nat
  instNo : Nat
  cacheFlag : Int
  deriving DecidableEq, Repr

structure FreeMem where
  startAddr : Nat
  size : Nat
  cacheFlag : Int
  deriving DecidableEq, Repr

structure AllocArg where
  cacheFlag : Int
  buffSize : Nat
  cachedMappedAddr : Nat
  nonCachedMappedAddr : Nat
  deriving DecidableEq, Repr

structure State where
  instanceNo : List Bool
  used : List Ptr
  mallocs : Nat
  allocLinks : Links Ptr
  allocMem : Ptr → AllocMem
  allocHead : Ptr
  allocTail : Ptr
  freeLinks : Links Ptr
  freeMem : Ptr → FreeMem
  freeHead : Ptr
  freeTail : Ptr

inductive Fault where
  | hang
  deriving DecidableEq, Repr

/-! ## Nodes -/

def kmalloc (env : Env) (s : State) : Ptr × State :=
  let p := env.kmalloc s.mallocs s.used
  (p, { s with used := p :: s.used, mallocs := s.mallocs + 1 })

def kfree (p : Ptr) (s : State) : State := { s with used := s.used.erase p }

def insertNodeToAllocList (node : Ptr) (s : State) : State :=
  { s with allocLinks := s.allocLinks.insertBefore s.allocHead node, allocHead := node }

def insertNodeToFreeList (node : Ptr) (s : State) : State :=
  { s with freeLinks := s.freeLinks.insertBefore s.freeHead node, freeHead := node }

def deleteNodeFromAllocList (node : Ptr) (s : State) : State :=
  if node = s.allocTail then s
  else
    let s := if node = s.allocHead then { s with allocHead := s.allocLinks.next node } else s
    kfree node { s with allocLinks := s.allocLinks.unlink node }

def deleteNodeFromFreeList (node : Ptr) (s : State) : State :=
  if node = s.freeTail then s
  else
    let s := if node = s.freeHead then { s with freeHead := s.freeLinks.next node } else s
    kfree node { s with freeLinks := s.freeLinks.unlink node }

def releaseAllocMem (env : Env) (node : Ptr) (s : State) : State :=
  let (freeNode, s) := kmalloc env s
  let a := s.allocMem node
  let s := { s with
    freeMem := update s.freeMem freeNode ⟨a.pAddr, a.size, if a.cacheFlag ≠ 0 then 1 else 0⟩ }
  deleteNodeFromAllocList node (insertNodeToFreeList freeNode s)

/-- The inner loop of `MergeFragmentation`: `node1` takes in the first neighbour that it finds. -/
def mergeInner (s : State) (node1 : Ptr) : Nat → Ptr → Except Fault State
  | 0, _ => .error .hang
  | fuel + 1, node2 =>
    if node2 = s.freeTail then .ok s
    else
      let m1 := s.freeMem node1
      let m2 := s.freeMem node2
      if (m1.startAddr + m1.size) % 2 ^ 32 = m2.startAddr ∧ m1.cacheFlag = m2.cacheFlag then
        let m := { m1 with size := (m1.size + m2.size) % 2 ^ 32 }
        .ok (deleteNodeFromFreeList node2 { s with freeMem := update s.freeMem node1 m })
      else if m1.startAddr = (m2.startAddr + m2.size) % 2 ^ 32 ∧ m1.cacheFlag = m2.cacheFlag then
        let m := { m1 with startAddr := m2.startAddr, size := (m1.size + m2.size) % 2 ^ 32 }
        .ok (deleteNodeFromFreeList node2 { s with freeMem := update s.freeMem node1 m })
      else mergeInner s node1 fuel (s.freeLinks.next node2)

def mergeOuter : Nat → Ptr → State → Except Fault State
  | 0, _, _ => .error .hang
  | fuel + 1, node1, s =>
    if node1 = s.freeTail then .ok s
    else do
      let s ← mergeInner s node1 s.used.length s.freeHead
      mergeOuter fuel (s.freeLinks.next node1) s

def mergeFragmentation (s : State) : Except Fault State := mergeOuter s.used.length s.freeHead s

/-! ## Taking memory -/

def fits (allocSize : Nat) (cacheFlag : Int) (m : FreeMem) : Bool :=
  decide (allocSize ≤ m.size) && (if cacheFlag ≠ 0 then m.cacheFlag ≠ 0 else m.cacheFlag = 0)

def better (s : State) (allocSize : Nat) (cacheFlag : Int) (node : Ptr) : Option Ptr → Bool
  | some m => fits allocSize cacheFlag (s.freeMem node) && decide ((s.freeMem node).size < (s.freeMem m).size)
  | none => fits allocSize cacheFlag (s.freeMem node)

/-- The search of `GetMemArea`; `best` is `match_node`. -/
def bestLoop (s : State) (allocSize : Nat) (cacheFlag : Int) : Nat → Ptr → Option Ptr → Except Fault (Option Ptr)
  | 0, _, _ => .error .hang
  | fuel + 1, node, best =>
    if node = s.freeTail then .ok best
    else
      bestLoop s allocSize cacheFlag fuel (s.freeLinks.next node)
        (if better s allocSize cacheFlag node best then some node else best)

def cut (allocSize : Nat) (m : FreeMem) : FreeMem :=
  { m with startAddr := (m.startAddr + allocSize) % 2 ^ 32, size := m.size - allocSize }

/-- The end of `GetMemArea`: the first part of the piece of `node` is taken. -/
def takeFrom (allocSize : Nat) (node : Ptr) (s : State) : State :=
  let s := { s with freeMem := update s.freeMem node (cut allocSize (s.freeMem node)) }
  if (s.freeMem node).size = 0 then deleteNodeFromFreeList node s else s

def getMemArea (allocSize : Nat) (cacheFlag : Int) (s : State) : Except Fault (Nat × State) :=
  if s.freeHead = s.freeTail then .ok (0, s)
  else do
    match ← bestLoop s allocSize cacheFlag s.used.length s.freeHead none with
    | none => .ok (0, s)
    | some node => .ok ((s.freeMem node).startAddr, takeFrom allocSize node s)

def virAddr (env : Env) (arg : AllocArg) (p : Nat) : Nat :=
  if arg.cacheFlag ≠ 0 then (env.cachedVirAddr + (p - env.start)) % 2 ^ 32
  else (env.nonCachedVirAddr + (p - env.start - cachedMemSize)) % 2 ^ 32

def userAddr (env : Env) (arg : AllocArg) (p : Nat) : Nat :=
  if arg.cacheFlag ≠ 0 then (arg.cachedMappedAddr + (p - env.start)) % 2 ^ 32
  else (arg.nonCachedMappedAddr + (p - env.start - cachedMemSize)) % 2 ^ 32

/-- `GetCodecVirAddr`: the address for the caller, if there is memory. -/
def getCodecVirAddr (env : Env) (instNo : Nat) (arg : AllocArg) (s : State) : Except Fault (Option Nat × State) := do
  let (pStartAddr, s) ← getMemArea arg.buffSize arg.cacheFlag s
  if pStartAddr = 0 then .ok (none, s)
  else
    let (node, s) := kmalloc env s
    -- the piece and the node are lost in this case
    if virAddr env arg pStartAddr = 0 then .ok (none, s)
    else
      let m : AllocMem := ⟨pStartAddr, virAddr env arg pStartAddr, userAddr env arg pStartAddr, arg.buffSize, instNo,
        arg.cacheFlag⟩
      .ok (some m.uAddr, insertNodeToAllocList node { s with allocMem := update s.allocMem node m })

/-! ## File operations -/

def getInstanceNo (s : State) : Option Nat × State :=
  match s.instanceNo.findIdx? (· = false) with
  | some i => (some i, { s with instanceNo := s.instanceNo.set i true })
  | none => (none, s)

/-- The loop of `s3c_cmm_release`, which steps back before it removes a node. -/
def releaseLoop (env : Env) (instNo : Nat) : Nat → Ptr → State → Except Fault State
  | 0, _, _ => .error .hang
  | fuel + 1, node, s =>
    if node = s.allocTail then .ok s
    else if (s.allocMem node).instNo = instNo then
      let back := s.allocLinks.prev node
      let s := releaseAllocMem env node s
      releaseLoop env instNo fuel (s.allocLinks.next back) s
    else releaseLoop env instNo fuel (s.allocLinks.next node) s

def cmmRelease (env : Env) (instNo : Nat) (s : State) : Except Fault State := do
  let s ← releaseLoop env instNo s.used.length s.allocHead s
  let s ← mergeFragmentation s
  .ok { s with instanceNo := s.instanceNo.set instNo false }

def findLoop (s : State) (uAddr : Nat) : Nat → Ptr → Except Fault Ptr
  | 0, _ => .error .hang
  | fuel + 1, node =>
    if node = s.allocTail then .ok node
    else if (s.allocMem node).uAddr = uAddr then .ok node
    else findLoop s uAddr fuel (s.allocLinks.next node)

def memFree (env : Env) (uAddr : Nat) (s : State) : Except Fault (Bool × State) := do
  let node ← findLoop s uAddr s.used.length s.allocHead
  if node = s.allocTail then .ok (false, s) else .ok (true, releaseAllocMem env node s)

/-- The first half of `s3c_cmm_init`: two lists with nothing but a sentinel. -/
def initLists (env : Env) : State :=
  let s : State := ⟨List.replicate maxInstanceNum false, [], 0, ⟨id, id⟩, fun _ => ⟨0, 0, 0, 0, 0, 0⟩, 0, 0, ⟨id, id⟩,
    fun _ => ⟨0, 0, 0⟩, 0, 0⟩
  let (node, s) := kmalloc env s
  let s := { s with
    allocLinks := ⟨update s.allocLinks.next node node, update s.allocLinks.prev node node⟩
    allocHead := node
    allocTail := node }
  let (node, s) := kmalloc env s
  { s with
    freeLinks := ⟨update s.freeLinks.next node node, update s.freeLinks.prev node node⟩
    freeHead := node
    freeTail := node }

def addFree (env : Env) (m : FreeMem) (s : State) : State :=
  let (node, s) := kmalloc env s
  insertNodeToFreeList node { s with freeMem := update s.freeMem node m }

def cmmInit (env : Env) : State :=
  addFree env ⟨env.start + cachedMemSize, nonCachedMemSize, 0⟩ (addFree env ⟨env.start, cachedMemSize, 1⟩ (initLists env))

inductive Op where
  | open_
  | alloc (instNo : Nat) (arg : AllocArg)
  | free (instNo : Nat) (uAddr : Nat)
  | merge (instNo : Nat)
  | release (instNo : Nat)
  deriving DecidableEq, Repr

inductive Output where
  | instance_ (n : Option Nat)
  | address (a : Option Nat)
  | freed (b : Bool)
  | done
  deriving DecidableEq, Repr

def exec (env : Env) (s : State) : Op → Except Fault (Output × State)
  | .open_ => let (n, s) := getInstanceNo s; .ok (.instance_ n, s)
  | .alloc instNo arg => do
      let (a, s) ← getCodecVirAddr env instNo arg s
      .ok (.address a, s)
  | .free _ uAddr => do
      let (b, s) ← memFree env uAddr s
      .ok (.freed b, s)
  | .merge _ => do
      let s ← mergeFragmentation s
      .ok (.done, s)
  | .release instNo => do
      let s ← cmmRelease env instNo s
      .ok (.done, s)

/-- Calls come through an open instance; sizes are positive numbers of type `int`. -/
def Op.Permitted (s : State) : Op → Prop
  | .open_ => True
  | .alloc instNo arg => s.instanceNo[instNo]? = some true ∧ 0 < arg.buffSize ∧ arg.buffSize < 2 ^ 31
  | .free instNo _ | .merge instNo | .release instNo => s.instanceNo[instNo]? = some true

def machine (env : Env) : Machine State Op Output Fault where
  init s := s = cmmInit env
  enabled s op := op.Permitted s
  exec := exec env

def allocList (s : State) : List AllocMem := (s.allocLinks.walk s.allocTail s.used.length s.allocHead).map s.allocMem

def freeList (s : State) : List FreeMem := (s.freeLinks.walk s.freeTail s.used.length s.freeHead).map s.freeMem

end G3Mod.Cmm
