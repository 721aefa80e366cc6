import Mathlib.Algebra.Ring.Nat
import G3Mod.Lib.Machine

/-!
# The id allocator of `lib/idr.c`

The radix tree with `IDR_BITS = 5`. A layer is named by its distance from the leaves and its place at that distance:
`ary[m]` of the layer `(l, k)` with `0 < l` is the layer `(l - 1, 32 * k + m)` if there is one. An empty top layer
moves up. User pointers are numbers, 0 is null. An id is the 32-bit pattern of an `int`. Of the zeroed layers on the
free list only their number is kept.
-/

namespace G3Mod.Idr

def idrBits : Nat := 5

def idrSize : Nat := 32

def maxLevel : Nat := 7

def idrFreeMax : Nat := maxLevel + maxLevel

abbrev Name := Nat × Nat

/-- `struct idr_layer`. `ary` holds the user pointers of a layer with `layer = 0`. -/
structure Layer where
  bitmap : Nat → Bool
  ary : Nat → Nat
  count : Int
  layer : Nat

/-- `struct idr`. `top` is the level of the top layer, whose name is `(level, 0)`. -/
structure State where
  layer : Name → Option Layer
  top : Option Nat
  layers : Nat
  idFreeCnt : Nat

inductive Bug where
  /-- a pointer to no layer is followed -/
  | noLayer (p : Name)
  /-- `idp->top` is followed when it is null -/
  | noTop
  /-- `pa[0]` was not set -/
  | noPath
  /-- `BUG_ON(n == 0)` and `BUG_ON(n != p->layer*IDR_BITS)` of `idr_find` -/
  | levels
  /-- a loop does not end -/
  | endless
  deriving DecidableEq, Repr

/-! ## Layers -/

def getLayer (p : Name) (s : State) : Except Bug Layer :=
  match s.layer p with
  | none => .error (.noLayer p)
  | some n => .ok n

def setLayer (p : Name) (n : Option Layer) (s : State) : State :=
  { s with layer := Function.update s.layer p n }

def child (p : Name) (m : Nat) : Name := (p.1 - 1, idrSize * p.2 + m)

def newLayer (layer : Nat) : Layer where
  bitmap _ := false
  ary _ := 0
  count := 0
  layer := layer

def Layer.full (n : Layer) : Bool := (List.range idrSize).all n.bitmap

def Layer.setBit (m : Nat) (b : Bool) (n : Layer) : Layer := { n with bitmap := Function.update n.bitmap m b }

def Layer.findNextZero (n : Layer) (start : Nat) : Nat :=
  ((List.range' start (idrSize - start)).find? fun m => !n.bitmap m).getD idrSize

def getFromFreeList (s : State) : Option State :=
  if s.idFreeCnt = 0 then none else some { s with idFreeCnt := s.idFreeCnt - 1 }

/-- `idr_pre_get`. `avail` is the number of layers that the slab can still give. -/
def idrPreGet (avail : Nat) (s : State) : State × Bool :=
  if idrFreeMax ≤ s.idFreeCnt + avail then ({ s with idFreeCnt := max s.idFreeCnt idrFreeMax }, true)
  else ({ s with idFreeCnt := s.idFreeCnt + avail }, false)

def digit (id l : Nat) : Nat := (id >>> (idrBits * l)) % idrSize

def nextAt (id l : Nat) : Nat := ((id ||| (2 ^ (idrBits * l) - 1)) + 1) % 2 ^ 32

def replaceDigit (id l n m : Nat) : Nat := (((id >>> (idrBits * l)) ^^^ n ^^^ m) <<< (idrBits * l)) % 2 ^ 32

def maxIdBit : Nat := 2 ^ 31

/-! ## `sub_alloc` -/

structure Search where
  idr : State
  p : Name
  l : Nat
  id : Nat
  pa : Nat → Option Name

inductive Found where
  | id (id : Nat) (pa : Nat → Option Name)
  | noMemory
  | needToGrow (id : Nat)
  | noMoreSpace

def restart (s : State) (id : Nat) (pa : Nat → Option Name) : Except Bug Search :=
  match s.top with
  | none => .error .noTop
  | some lv =>
    .ok { idr := s, p := (lv, 0), l := s.layers - 1, id := id, pa := Function.update pa s.layers none }

def makeChild (p : Name) (n : Layer) (m l : Nat) (s : State) : Option State :=
  match s.layer (child p m) with
  | some _ => some s
  | none => (getFromFreeList s).map fun s =>
    setLayer (child p m) (some (newLayer (l - 1))) (setLayer p (some { n with count := n.count + 1 }) s)

def goBack (c : Search) : Except Bug (Search ⊕ (Found × State)) :=
  let l := c.l + 1
  let id := nextAt c.id l
  match c.pa l with
  | none => .ok (.inr (.needToGrow id, c.idr))
  | some p =>
    if c.id >>> (idrBits * (l + 1)) = id >>> (idrBits * (l + 1)) then
      .ok (.inl { c with p := p, l := l, id := id })
    else do
      let c ← restart c.idr id c.pa
      .ok (.inl c)

def goDown (c : Search) (n : Layer) (m : Nat) : Except Bug (Search ⊕ (Found × State)) :=
  let id := if m = digit c.id c.l then c.id else replaceDigit c.id c.l (digit c.id c.l) m
  if maxIdBit ≤ id then .ok (.inr (.noMoreSpace, c.idr))
  else if c.l = 0 then .ok (.inr (.id id (Function.update c.pa 0 (some c.p)), c.idr))
  else
    match makeChild c.p n m c.l c.idr with
    | none => .ok (.inr (.noMemory, c.idr))
    | some s =>
      .ok (.inl { idr := s, p := child c.p m, l := c.l - 1, id := id, pa := Function.update c.pa c.l (some c.p) })

def subAllocStep (c : Search) : Except Bug (Search ⊕ (Found × State)) := do
  let n ← getLayer c.p c.idr
  let m := n.findNextZero (digit c.id c.l)
  if m = idrSize then goBack c else goDown c n m

def subAllocLoop : Nat → Search → Except Bug (Found × State)
  | 0, _ => .error .endless
  | fuel + 1, c => do
      match ← subAllocStep c with
      | .inl c => subAllocLoop fuel c
      | .inr r => .ok r

def subAllocFuel : Nat := 512

def subAlloc (startingId : Nat) (s : State) : Except Bug (Found × State) := do
  let c ← restart s startingId fun _ => none
  subAllocLoop subAllocFuel c

/-! ## `idr_get_empty_slot` -/

def outOfRange (id layers : Nat) : Prop := id < maxIdBit ∧ 2 ^ (idrBits * layers) ≤ id

instance {id layers : Nat} : Decidable (outOfRange id layers) := inferInstanceAs (Decidable (_ ∧ _))

/-- What was built above the old top goes back to the free list. `p` is the level of the layer. -/
def tearDown (top : Option Nat) : Nat → State → State
  | p, s =>
    if top = some p then s
    else
      let s := { setLayer (p, 0) none s with idFreeCnt := s.idFreeCnt + 1 }
      match p with
      | 0 => s
      | p + 1 => if (s.layer (p, 0)).isSome then tearDown top p s else s

def raiseTop (p : Nat) (n : Layer) (s : State) : State :=
  setLayer (p + 1, 0) (some { n with layer := n.layer + 1 }) (setLayer (p, 0) none s)

def addTop (p : Nat) (n : Layer) (layers : Nat) (s : State) : State :=
  setLayer (p + 1, 0) (some ((({ newLayer (layers - 1) with count := 1 } : Layer)).setBit 0 n.full)) s

/-- The loop that adds layers to the top. `p` is the level of the top layer so far. -/
def growLoop : Nat → Nat → Nat → Nat → State → Except Bug (Option (Nat × Nat) × State)
  | 0, _, _, _, _ => .error .endless
  | fuel + 1, id, p, layers, s =>
    if layers < maxLevel - 1 ∧ outOfRange id layers then do
      let n ← getLayer (p, 0) s
      let layers := layers + 1
      if n.count = 0 then growLoop fuel id (p + 1) layers (raiseTop p n s)
      else
        match getFromFreeList s with
        | none => .ok (none, tearDown s.top p s)
        | some s => growLoop fuel id (p + 1) layers (addTop p n layers s)
    else .ok (some (p, layers), s)

/-- The top layer so far, which is a new one if the tree is empty. -/
def firstTop (s : State) : Option (Nat × Nat × State) :=
  match s.top with
  | some p => some (p, s.layers, s)
  | none => (getFromFreeList s).map fun s => (0, 1, setLayer (0, 0) (some (newLayer 0)) s)

/-- From `build_up:` to the call of `sub_alloc`, after which the loop may start again. -/
def getEmptySlotLoop : Nat → Nat → State → Except Bug (Found × State)
  | 0, _, _ => .error .endless
  | fuel + 1, id, s =>
    match firstTop s with
    | none => .ok (.noMemory, s)
    | some (p, layers, s) => do
        match ← growLoop maxLevel id p layers s with
        | (none, s) => .ok (.noMemory, s)
        | (some (p, layers), s) => do
            let s := { s with top := some p, layers := layers }
            match ← subAlloc id s with
            | (.needToGrow id, s) => getEmptySlotLoop fuel id s
            | r => .ok r

def idrGetEmptySlot (startingId : Nat) (s : State) : Except Bug (Found × State) :=
  getEmptySlotLoop maxLevel startingId s

def markFullLoop (pa : Nat → Option Name) : Nat → Name → Nat → Nat → State → Except Bug State
  | 0, _, _, _, _ => .error .endless
  | fuel + 1, p, l, id, s => do
      let n ← getLayer p s
      if n.full then
        match pa (l + 1) with
        | none => .ok s
        | some q => do
            let id := id >>> idrBits
            let n ← getLayer q s
            markFullLoop pa fuel q (l + 1) id (setLayer q (some (n.setBit (id % idrSize) true)) s)
      else .ok s

/-- The pointer is installed and the slot marked full (`idr_mark_full`). -/
def install (pa : Nat → Option Name) (id ptr : Nat) (s : State) : Except Bug State :=
  match pa 0 with
  | none => .error .noPath
  | some p => do
      let n ← getLayer p s
      let n := { n with ary := Function.update n.ary (id % idrSize) ptr, count := n.count + 1 }
      markFullLoop pa (maxLevel + 1) p 0 id (setLayer p (some (n.setBit (id % idrSize) true)) s)

inductive Errno where
  | eagain
  | enospc
  deriving DecidableEq, Repr

def idrGetNewAbove (ptr startingId : Nat) (s : State) : Except Bug (Except Errno Nat × State) := do
  match ← idrGetEmptySlot startingId s with
  | (.id id pa, s) => do
      let s ← install pa id ptr s
      .ok (.ok id, s)
  | (.noMemory, s) => .ok (.error .eagain, s)
  | (_, s) => .ok (.error .enospc, s)

/-! ## `idr_remove` -/

/-- The way down in `sub_remove`; the layers passed are collected, the last one first. -/
def removeDown (id : Nat) : Nat → Name → List Name → State → Except Bug (List Name × State)
  | 0, p, path, s => .ok (p :: path, s)
  | l + 1, p, path, s =>
    match s.layer p with
    | none => .ok (p :: path, s)
    | some n =>
      let m := digit id (l + 1)
      removeDown id l (child p m) (p :: path) (setLayer p (some (n.setBit m false)) s)

/-- The counts of the layers passed are decremented, and the layers that become empty are freed. -/
def removeUp : List Name → State → Except Bug State
  | [], s => .ok { s with top := none, layers := 0 }
  | p :: path, s => do
      let n ← getLayer p s
      if n.count - 1 = 0 then removeUp path (setLayer p none s)
      else .ok (setLayer p (some { n with count := n.count - 1 }) s)

def Layer.clearSlot (m : Nat) (n : Layer) : Layer :=
  { n.setBit m false with ary := Function.update n.ary m 0 }

def subRemove (id : Nat) (s : State) : Except Bug State :=
  match s.top with
  | none => .ok s
  | some lv => do
      let (path, s) ← removeDown id (s.layers - 1) (lv, 0) [] s
      match path with
      | [] => .ok s
      | p :: _ =>
        match s.layer p with
        | none => .ok s
        | some n =>
          if n.bitmap (id % idrSize) then
            removeUp path (setLayer p (some (n.clearSlot (id % idrSize))) s)
          else .ok s

def shrink (s : State) : Except Bug State :=
  match s.top with
  | none => .ok s
  | some lv => do
      let n ← getLayer (lv, 0) s
      if n.count = 1 ∧ 1 < s.layers ∧ (s.layer (child (lv, 0) 0)).isSome then
        .ok { setLayer (lv, 0) none s with top := some (lv - 1), layers := s.layers - 1 }
      else .ok s

def idrRemove (id : Nat) (s : State) : Except Bug State := do
  let s ← subRemove (id % maxIdBit) s
  let s ← shrink s
  .ok { s with idFreeCnt := min s.idFreeCnt (idrFreeMax - 1) }

def findLoop (id : Nat) : Nat → Name → State → Except Bug Nat
  | 0, _, _ => .ok 0
  | l + 1, p, s =>
    match s.layer p with
    | none => .ok 0
    | some n =>
      if l ≠ n.layer then .error .levels
      else if l = 0 then .ok (n.ary (digit id 0))
      else findLoop id l (child p (digit id l)) s

def idrFind (id : Nat) (s : State) : Except Bug Nat :=
  match s.top with
  | none => .ok 0
  | some lv => do
      let n ← getLayer (lv, 0) s
      let id := id % maxIdBit
      if 2 ^ ((n.layer + 1) * idrBits) ≤ id then .ok 0 else findLoop id (n.layer + 1) (lv, 0) s

def replaceLoop (id : Nat) : Nat → Name → State → Name
  | 0, p, _ => p
  | l + 1, p, s =>
    match s.layer p with
    | none => p
    | some _ => replaceLoop id l (child p (digit id (l + 1))) s

/-- `idr_replace`; `none` stands for `ERR_PTR`. -/
def idrReplace (ptr id : Nat) (s : State) : Except Bug (Option Nat × State) :=
  match s.top with
  | none => .ok (none, s)
  | some lv => do
      let n ← getLayer (lv, 0) s
      let id := id % maxIdBit
      if 2 ^ ((n.layer + 1) * idrBits) ≤ id then .ok (none, s)
      else
        let p := replaceLoop id n.layer (lv, 0) s
        match s.layer p with
        | none => .ok (none, s)
        | some n =>
          if n.bitmap (id % idrSize) then
            .ok (some (n.ary (id % idrSize)),
              setLayer p (some { n with ary := Function.update n.ary (id % idrSize) ptr }) s)
          else .ok (none, s)

/-! ## The machine -/

inductive Op where
  | preGet (avail : Nat)
  | getNewAbove (ptr startingId : Nat)
  | find (id : Nat)
  | replace (ptr id : Nat)
  | remove (id : Nat)
  deriving DecidableEq, Repr

inductive Out where
  | preGet (ok : Bool)
  | getNewAbove (r : Except Errno Nat)
  | find (ptr : Nat)
  | replace (old : Option Nat)
  | remove

def exec (s : State) : Op → Except Bug (Out × State)
  | .preGet avail => .ok (.preGet (idrPreGet avail s).2, (idrPreGet avail s).1)
  | .getNewAbove ptr startingId => do
      let (r, s) ← idrGetNewAbove ptr startingId s
      .ok (.getNewAbove r, s)
  | .find id => do
      let ptr ← idrFind id s
      .ok (.find ptr, s)
  | .replace ptr id => do
      let (old, s) ← idrReplace ptr id s
      .ok (.replace old, s)
  | .remove id => do
      let s ← idrRemove id s
      .ok (.remove, s)

def emptyIdr : State where
  layer _ := none
  top := none
  layers := 0
  idFreeCnt := 0

def value (s : State) (i : Nat) : Option Nat :=
  match s.layer (0, i / idrSize) with
  | none => none
  | some n => if n.bitmap (i % idrSize) then some (n.ary (i % idrSize)) else none

/-- Ids are not negative, and only allocated ids are removed. -/
def Op.Permitted (s : State) : Op → Prop
  | .preGet _ => True
  | .getNewAbove _ startingId => startingId < maxIdBit
  | .find id => id < maxIdBit
  | .replace _ id => id < maxIdBit
  | .remove id => id < maxIdBit ∧ (value s id).isSome

instance {s : State} {op : Op} : Decidable (op.Permitted s) := by
  cases op <;> unfold Op.Permitted <;> infer_instance

def machine : Lib.Machine State Op Out Bug where
  init s := s = emptyIdr
  enabled s op := op.Permitted s
  exec := exec

instance {s : State} {op : Op} : Decidable (machine.enabled s op) :=
  inferInstanceAs (Decidable (op.Permitted s))

end G3Mod.Idr
