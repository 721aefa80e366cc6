import G3Mod.Lib.Machine

/-!
# The unpinned ranges of `mm/ashmem.c`

Ranges are objects with an address (`RangeId`), which the lists hold. Page numbers and counts are unbounded: what
`ashmem_pin_unpin` lets through names pages of one 32-bit area.
-/

namespace G3Mod.Ashmem

abbrev RangeId := Nat
abbrev AreaId := Nat

abbrev notPurged : Bool := false
abbrev wasPurged : Bool := true

inductive PinStatus
  | isUnpinned
  | isPinned
  deriving DecidableEq, Repr

def enomem : Int := 12

structure Range where
  asma : AreaId
  pgstart : Nat
  pgend : Nat
  purged : Bool
  deriving DecidableEq, Repr

/-- The range objects, and the address of the next one that the slab hands out. -/
@[ext]
structure State where
  range : RangeId → Range
  next : RangeId
  unpinned : AreaId → List RangeId
  lru : List RangeId
  lruCount : Int

def State.init : State where
  range _ := ⟨0, 0, 0, notPurged⟩
  next := 0
  unpinned _ := []
  lru := []
  lruCount := 0

/-! ## The macros -/

def rangeSize (r : Range) : Int := (r.pgend : Int) - r.pgstart + 1

def rangeOnLru (r : Range) : Bool := r.purged == notPurged

def pageRangeSubsumesRange (r : Range) (start fin : Nat) : Bool := start ≤ r.pgstart && r.pgend ≤ fin

def pageRangeSubsumedByRange (r : Range) (start fin : Nat) : Bool := r.pgstart ≤ start && fin ≤ r.pgend

def pageInRange (r : Range) (page : Nat) : Bool := r.pgstart ≤ page && page ≤ r.pgend

def pageRangeInRange (r : Range) (start fin : Nat) : Bool :=
  pageInRange r start || pageInRange r fin || pageRangeSubsumesRange r start fin

def rangeBeforePage (r : Range) (page : Nat) : Bool := r.pgend < page

def lruAdd (i : RangeId) (s : State) : State :=
  { s with lru := s.lru ++ [i], lruCount := s.lruCount + rangeSize (s.range i) }

def lruDel (i : RangeId) (s : State) : State :=
  { s with lru := s.lru.erase i, lruCount := s.lruCount - rangeSize (s.range i) }

/-- `list_add_tail(new, prev)`: in front of `prev`, or at the end when `prev` is the list head. -/
def listAddTail (new : RangeId) : Option RangeId → List RangeId → List RangeId
  | none, l => l ++ [new]
  | some _, [] => [new]
  | some p, x :: xs => if x = p then new :: x :: xs else x :: listAddTail new (some p) xs

/-- `alloc` is whether `kmem_cache_zalloc` returns an object. -/
def rangeAlloc (alloc : Bool) (asma : AreaId) (prev : Option RangeId) (purged : Bool) (start fin : Nat)
    (s : State) : State × Int :=
  if alloc then
    let i := s.next
    let s₁ := { s with
      range := Function.update s.range i ⟨asma, start, fin, purged⟩
      next := i + 1
      unpinned := Function.update s.unpinned asma (listAddTail i prev (s.unpinned asma)) }
    (if rangeOnLru (s₁.range i) then lruAdd i s₁ else s₁, 0)
  else (s, -enomem)

def rangeDel (i : RangeId) (s : State) : State :=
  let a := (s.range i).asma
  let s₁ := { s with unpinned := Function.update s.unpinned a ((s.unpinned a).erase i) }
  if rangeOnLru (s.range i) then lruDel i s₁ else s₁

def rangeShrink (i : RangeId) (start fin : Nat) (s : State) : State :=
  let pre := rangeSize (s.range i)
  let r := { s.range i with pgstart := start, pgend := fin }
  let s₁ := { s with range := Function.update s.range i r }
  if rangeOnLru r then { s₁ with lruCount := s₁.lruCount - (pre - rangeSize r) } else s₁

/-! ## Pinning and unpinning -/

/-- The loop of `ashmem_pin`, over what is left of the list; `ret` accumulates `ASHMEM_WAS_PURGED`. -/
def pinLoop (alloc : Bool) (asma : AreaId) (pgstart pgend : Nat) :
    List RangeId → State → Bool → State × Bool
  | [], s, ret => (s, ret)
  | i :: rest, s, ret =>
    let r := s.range i
    if rangeBeforePage r pgstart then (s, ret)
    else if pageRangeInRange r pgstart pgend then
      if pageRangeSubsumesRange r pgstart pgend then
        pinLoop alloc asma pgstart pgend rest (rangeDel i s) (ret || r.purged)
      else if pgstart ≤ r.pgstart then
        pinLoop alloc asma pgstart pgend rest (rangeShrink i (pgend + 1) r.pgend s) (ret || r.purged)
      else if r.pgend ≤ pgend then
        pinLoop alloc asma pgstart pgend rest (rangeShrink i r.pgstart (pgstart - 1) s) (ret || r.purged)
      else
        -- the request punches a hole: the result of range_alloc is not looked at
        let s₁ := (rangeAlloc alloc asma (some i) r.purged (pgend + 1) r.pgend s).1
        (rangeShrink i r.pgstart (pgstart - 1) s₁, ret || r.purged)
    else pinLoop alloc asma pgstart pgend rest s ret

def ashmemPin (alloc : Bool) (asma : AreaId) (pgstart pgend : Nat) (s : State) : State × Bool :=
  pinLoop alloc asma pgstart pgend (s.unpinned asma) s notPurged

inductive Scan
  | covered
  | merge (i : RangeId)
  | insert (prev : Option RangeId)

def unpinScan (s : State) (pgstart pgend : Nat) : List RangeId → Scan
  | [] => .insert none
  | i :: rest =>
    let r := s.range i
    if rangeBeforePage r pgstart then .insert (some i)
    else if pageRangeSubsumedByRange r pgstart pgend then .covered
    else if pageRangeInRange r pgstart pgend then .merge i
    else unpinScan s pgstart pgend rest

/-- `ashmem_unpin` from its label `restart`; a restart has removed a range, so the fuel is enough. -/
def unpinLoop (alloc : Bool) (asma : AreaId) : Nat → State → Nat → Nat → Bool → State × Int
  | 0, s, _, _, _ => (s, 0)
  | n + 1, s, pgstart, pgend, purged =>
    match unpinScan s pgstart pgend (s.unpinned asma) with
    | .covered => (s, 0)
    | .merge i =>
      let r := s.range i
      unpinLoop alloc asma n (rangeDel i s) (min r.pgstart pgstart) (max r.pgend pgend)
        (purged || r.purged)
    | .insert prev => rangeAlloc alloc asma prev purged pgstart pgend s

def ashmemUnpin (alloc : Bool) (asma : AreaId) (pgstart pgend : Nat) (s : State) : State × Int :=
  unpinLoop alloc asma ((s.unpinned asma).length + 1) s pgstart pgend notPurged

def pinStatusLoop (s : State) (pgstart pgend : Nat) : List RangeId → PinStatus
  | [] => .isPinned
  | i :: rest =>
    if rangeBeforePage (s.range i) pgstart then .isPinned
    else if pageRangeInRange (s.range i) pgstart pgend then .isUnpinned
    else pinStatusLoop s pgstart pgend rest

def ashmemGetPinStatus (asma : AreaId) (pgstart pgend : Nat) (s : State) : PinStatus :=
  pinStatusLoop s pgstart pgend (s.unpinned asma)

/-- The body of the loop of `ashmem_shrink` after `vmtruncate_range`. -/
def purge (i : RangeId) (s : State) : State :=
  lruDel i { s with range := Function.update s.range i { s.range i with purged := wasPurged } }

/-- The loop of `ashmem_shrink`; it returns the ranges it has handed to `vmtruncate_range`. -/
def shrinkLoop : List RangeId → Int → State → State × List RangeId
  | [], _, s => (s, [])
  | i :: rest, nr, s =>
    let s₁ := purge i s
    let nr₁ := nr - rangeSize (s₁.range i)
    if nr₁ ≤ 0 then (s₁, [i])
    else
      let res := shrinkLoop rest nr₁ s₁
      (res.1, i :: res.2)

/-- `gfpFs` is the bit `__GFP_FS` of the mask, `locked` the result of `mutex_trylock`. -/
def ashmemShrink (nrToScan : Int) (gfpFs locked : Bool) (s : State) : State × List RangeId × Int :=
  if nrToScan ≠ 0 && !gfpFs then (s, [], -1)
  else if nrToScan = 0 then (s, [], s.lruCount)
  else if !locked then (s, [], -1)
  else
    let res := shrinkLoop s.lru nrToScan s
    (res.1, res.2, res.1.lruCount)

def ashmemRelease (asma : AreaId) (s : State) : State :=
  (s.unpinned asma).foldl (fun s i => rangeDel i s) s

inductive Op
  | pin (alloc : Bool) (asma : AreaId) (pgstart pgend : Nat)
  | unpin (alloc : Bool) (asma : AreaId) (pgstart pgend : Nat)
  | shrink (nrToScan : Int) (gfpFs locked : Bool)
  | release (asma : AreaId)

structure Out where
  ret : Int
  truncated : List (AreaId × Nat × Nat)

def purgedRet (b : Bool) : Int := if b then 1 else 0

def exec (s : State) : Op → Out × State
  | .pin alloc a lo hi =>
    let res := ashmemPin alloc a lo hi s
    (⟨purgedRet res.2, []⟩, res.1)
  | .unpin alloc a lo hi =>
    let res := ashmemUnpin alloc a lo hi s
    (⟨res.2, []⟩, res.1)
  | .shrink nr gfpFs locked =>
    let res := ashmemShrink nr gfpFs locked s
    (⟨res.2.2, res.2.1.map fun i => ((s.range i).asma, (s.range i).pgstart, (s.range i).pgend)⟩, res.1)
  | .release a => (⟨0, []⟩, ashmemRelease a s)

def Op.Permitted : Op → Prop
  | .pin _ _ lo hi => lo ≤ hi
  | .unpin _ _ lo hi => lo ≤ hi
  | .shrink _ _ _ => True
  | .release _ => True

def machine : Lib.Machine State Op Out Empty where
  init s := s = State.init
  enabled _ op := op.Permitted
  exec s op := .ok (exec s op)

end G3Mod.Ashmem
