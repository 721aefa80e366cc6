import Mathlib.Logic.Relation
import Mathlib.Algebra.Ring.Nat
import G3Mod.Lib.Machine

/-!
# The resource tree of `kernel/resource.c`

A resource has its range, the flag `IORESOURCE_BUSY` and its place in the tree. `children` is the list from `child` along
`sibling`. Calls that hold `resource_lock` are atomic. Addresses have 32 bits (`resource_size_t`). A region that has been
freed keeps its contents until it is allocated again.
-/

namespace G3Mod.Resource

open Function

abbrev Id := Nat

structure Resource where
  start : Nat
  end_ : Nat
  busy : Bool
  parent : Option Id
  children : List Id
  deriving DecidableEq, Repr

/-- All resources, with a list of those that have been handed to the functions below. -/
structure State where
  res : Id → Resource
  known : List Id

inductive Bug where
  /-- `old->parent` is `NULL` in `__release_resource` -/
  | nullParent
  /-- a loop goes on for longer than there are resources or addresses -/
  | loops
  deriving DecidableEq, Repr

def setRange (i : Id) (start end_ : Nat) (s : State) : State :=
  { s with res := update s.res i { s.res i with start := start, end_ := end_ } }

def setParent (i : Id) (p : Option Id) (s : State) : State :=
  { s with res := update s.res i { s.res i with parent := p } }

def setChildren (i : Id) (l : List Id) (s : State) : State :=
  { s with res := update s.res i { s.res i with children := l } }

/-! ## Requests and releases -/

/-- The loop of `__request_resource` over the children: the place for the new range, or the child in the way. -/
def requestLoop (start end_ : Nat) (s : State) : List Id → Except Id (List Id × List Id)
  | [] => .ok ([], [])
  | tmp :: rest =>
    if end_ < (s.res tmp).start then .ok ([], tmp :: rest)
    else if (s.res tmp).end_ < start then (requestLoop start end_ s rest).map fun r => (tmp :: r.1, r.2)
    else .error tmp

/-- `__request_resource`: the conflict, if there is one. -/
def requestResource (root new : Id) (s : State) : Option Id × State :=
  let start := (s.res new).start
  let end_ := (s.res new).end_
  if end_ < start then (some root, s)
  else if start < (s.res root).start then (some root, s)
  else if (s.res root).end_ < end_ then (some root, s)
  else
    match requestLoop start end_ s (s.res root).children with
    | .error tmp => (some tmp, s)
    | .ok (pre, post) => (none, setParent new (some root) (setChildren root (pre ++ new :: post) s))

/-- `__release_resource`: whether the resource has been found. -/
def releaseResource (old : Id) (s : State) : Except Bug (Bool × State) :=
  match (s.res old).parent with
  | none => .error .nullParent
  | some p =>
    if old ∈ (s.res p).children then
      .ok (true, setParent old none (setChildren p ((s.res p).children.erase old) s))
    else .ok (false, s)

/-! ## Allocation -/

def wrap (n : Nat) : Nat := n % 2 ^ 32

def pred (n : Nat) : Nat := wrap (n + (2 ^ 32 - 1))

def alignUp (x a : Nat) : Nat := wrap (x + pred a) &&& ((2 ^ 32 - 1) ^^^ pred a)

/-- What `allocate_resource` is asked for; `alignf` may change the range as it likes. -/
structure Wish where
  size : Nat
  min : Nat
  max : Nat
  align : Nat
  alignf : Option (Nat → Nat → Nat × Nat)

/-- One turn of the loop of `find_resource`: the range, and whether it is large enough. -/
def tryGap (w : Wish) (start end_ : Nat) : Bool × Nat × Nat :=
  let start := if start < w.min then w.min else start
  let end_ := if w.max < end_ then w.max else end_
  let start := alignUp start w.align
  let (start, end_) := match w.alignf with
    | none => (start, end_)
    | some f => f start end_
  if start < end_ ∧ pred w.size ≤ end_ - start then (true, start, wrap (start + pred w.size)) else (false, start, end_)

def findLoop (w : Wish) (root : Id) (s : State) : List Id → Nat → Bool × Nat × Nat
  | [], start => tryGap w start (s.res root).end_
  | this :: rest, start =>
    let r := tryGap w start (pred (s.res this).start)
    if r.1 then r else findLoop w root s rest (wrap ((s.res this).end_ + 1))

def findResource (w : Wish) (root : Id) (s : State) : Bool × Nat × Nat :=
  match (s.res root).children with
  | this :: rest =>
    if (s.res this).start = 0 then findLoop w root s rest (wrap ((s.res this).end_ + 1))
    else findLoop w root s (this :: rest) (s.res root).start
  | [] => findLoop w root s [] (s.res root).start

def allocateResource (w : Wish) (root new : Id) (s : State) : Bool × State :=
  let r := findResource w root s
  let s := setRange new r.2.1 r.2.2 s
  if r.1 then
    let q := requestResource root new s
    (q.1.isNone, q.2)
  else (false, s)

/-! ## Insertion -/

/-- How the first loop of `__insert_resource` ends. -/
inductive Descent where
  | done
  | conflict (c : Id)
  /-- the child `first` of `parent` is in the way -/
  | stop (parent first : Id)
  deriving DecidableEq, Repr

def descend (new : Id) : Nat → Id → State → Except Bug (Descent × State)
  | 0, _, _ => .error .loops
  | fuel + 1, parent, s =>
    match requestResource parent new s with
    | (none, s) => .ok (.done, s)
    | (some first, s) =>
      let f := s.res first
      let n := s.res new
      if first = parent then .ok (.conflict first, s)
      else if n.start < f.start ∨ f.end_ < n.end_ then .ok (.stop parent first, s)
      else if f.start = n.start ∧ f.end_ = n.end_ then .ok (.stop parent first, s)
      else descend new fuel first s

/-- The second loop: the siblings that lie inside of the new range, and those behind it. -/
def coverLoop (new : Id) (s : State) : List Id → Except Id (List Id × List Id)
  | [] => .ok ([], [])
  | next :: rest =>
    if (s.res next).start < (s.res new).start ∨ (s.res new).end_ < (s.res next).end_ then .error next
    else
      match rest with
      | [] => .ok ([next], [])
      | sibling :: _ =>
        if (s.res new).end_ < (s.res sibling).start then .ok ([next], rest)
        else (coverLoop new s rest).map fun r => (next :: r.1, r.2)

def setParents (l : List Id) (p : Id) (s : State) : State := l.foldl (fun s i => setParent i (some p) s) s

/-- The resources `run` become children of `new`, which takes their place. -/
def adopt (parent new : Id) (pre run post : List Id) (s : State) : State :=
  setChildren parent (pre ++ new :: post) (setParents run new (setChildren new run (setParent new (some parent) s)))

/-- `__insert_resource`: the conflict, if there is one. -/
def insertResource (parent new : Id) (s : State) : Except Bug (Option Id × State) := do
  let (d, s) ← descend new (s.known.length + 1) parent s
  match d with
  | .done => .ok (none, s)
  | .conflict c => .ok (some c, s)
  | .stop parent first =>
    let l := (s.res parent).children
    match coverLoop new s (l.dropWhile (· ≠ first)) with
    | .error c => .ok (some c, s)
    | .ok (run, post) => .ok (none, adopt parent new (l.takeWhile (· ≠ first)) run post s)

def expandLoop (root new : Id) : Nat → State → Except Bug State
  | 0, _ => .error .loops
  | fuel + 1, s => do
      let (conflict, s) ← insertResource root new s
      match conflict with
      | none => .ok s
      | some c =>
        if c = root then .ok s
        else
          let n := s.res new
          let k := s.res c
          expandLoop root new fuel (setRange new (if k.start < n.start then k.start else n.start)
            (if n.end_ < k.end_ then k.end_ else n.end_) s)

def insertResourceExpandToFit (root new : Id) (s : State) : Except Bug State :=
  if (s.res new).parent.isSome then .ok s
  else
    expandLoop root new (((s.res new).start - (s.res root).start) + ((s.res root).end_ - (s.res new).end_) + 1) s

def regionLoop (res : Id) : Nat → Id → State → Except Bug (Bool × State)
  | 0, _, _ => .error .loops
  | fuel + 1, parent, s =>
    match requestResource parent res s with
    | (none, s) => .ok (true, s)
    | (some c, s) =>
      if c ≠ parent ∧ (s.res c).busy = false then regionLoop res fuel c s else .ok (false, s)

/-- A resource from `kzalloc`, filled in by `__request_region`. -/
def newRegion (res : Id) (start n : Nat) (s : State) : State :=
  { res := update s.res res ⟨start, pred (wrap (start + n)), true, none, []⟩, known := res :: s.known }

/-- `__request_region` with the memory `res`. -/
def requestRegion (parent : Id) (start n : Nat) (res : Id) (s : State) : Except Bug (Bool × State) :=
  regionLoop res (s.known.length + 2) parent (newRegion res start n s)

def checkRegion (parent : Id) (start n : Nat) (res : Id) (s : State) : Except Bug (Bool × State) := do
  let (ok, s) ← requestRegion parent start n res s
  if ok then do
    let (_, s) ← releaseResource res s
    .ok (true, s)
  else .ok (false, s)

def covering (start end_ : Nat) (s : State) (l : List Id) : Option Id :=
  l.find? fun i => decide ((s.res i).start ≤ start ∧ end_ ≤ (s.res i).end_)

def releaseLoop (start end_ : Nat) : Nat → Id → State → Except Bug (Bool × State)
  | 0, _, _ => .error .loops
  | fuel + 1, parent, s =>
    match covering start end_ s (s.res parent).children with
    | none => .ok (false, s)
    | some res =>
      if (s.res res).busy = false then releaseLoop start end_ fuel res s
      else if (s.res res).start ≠ start ∨ (s.res res).end_ ≠ end_ then .ok (false, s)
      else .ok (true, setChildren parent ((s.res parent).children.erase res) s)

def releaseRegion (parent : Id) (start n : Nat) (s : State) : Except Bug (Bool × State) :=
  releaseLoop start (pred (wrap (start + n))) (s.known.length + 1) parent s

/-! ## The machine -/

/-- The calls. The caller fills in the range and the flag of a resource before it hands it over. -/
inductive Op where
  | request (root new : Id) (start end_ : Nat) (busy : Bool)
  | release (old : Id)
  | allocate (root new : Id) (w : Wish) (busy : Bool)
  | insert (parent new : Id) (start end_ : Nat) (busy : Bool)
  | expand (root new : Id) (start end_ : Nat) (busy : Bool)
  | requestRegion (parent : Id) (start n : Nat) (res : Id)
  | checkRegion (parent : Id) (start n : Nat) (res : Id)
  | releaseRegion (parent : Id) (start n : Nat)

inductive Out where
  | ok
  | conflict
  deriving DecidableEq, Repr

def outOf (b : Bool) : Out := if b then .ok else .conflict

def handOver (new start end_ : Nat) (busy : Bool) (s : State) : State :=
  { res := update s.res new { s.res new with start := start, end_ := end_, busy := busy }, known := new :: s.known }

def exec (s : State) : Op → Except Bug (Out × State)
  | .request root new start end_ busy =>
    let q := requestResource root new (handOver new start end_ busy s)
    .ok (outOf q.1.isNone, q.2)
  | .release old => do
      let (ok, s) ← releaseResource old s
      .ok (outOf ok, s)
  | .allocate root new w busy =>
    let q := allocateResource w root new (handOver new (s.res new).start (s.res new).end_ busy s)
    .ok (outOf q.1, q.2)
  | .insert parent new start end_ busy => do
      let (c, s) ← insertResource parent new (handOver new start end_ busy s)
      .ok (outOf c.isNone, s)
  | .expand root new start end_ busy => do
      let s ← insertResourceExpandToFit root new (handOver new start end_ busy s)
      .ok (.ok, s)
  | .requestRegion parent start n res => do
      let (ok, s) ← requestRegion parent start n res s
      .ok (outOf ok, s)
  | .checkRegion parent start n res => do
      let (ok, s) ← checkRegion parent start n res s
      .ok (outOf ok, s)
  | .releaseRegion parent start n => do
      let (ok, s) ← releaseRegion parent start n s
      .ok (outOf ok, s)

def Child (s : State) (c p : Id) : Prop := c ∈ (s.res p).children

def Spare (s : State) (root new : Id) : Prop := (∀ p, ¬ Child s new p) ∧ ¬ Relation.ReflTransGen (Child s) root new

/-- A resource that is handed over is not in a tree yet, and one that is released has a parent. -/
def Op.Permitted (s : State) : Op → Prop
  | .request root new _ _ _ => Spare s root new
  | .release old => (s.res old).parent ≠ none
  | .allocate root new _ _ => Spare s root new
  | .insert parent new _ _ _ => Spare s parent new
  | .expand root new _ _ _ => Spare s root new
  | .requestRegion parent _ _ res => (∀ p, ¬ Child s res p) ∧ parent ≠ res
  | .checkRegion parent _ _ res => (∀ p, ¬ Child s res p) ∧ parent ≠ res
  | .releaseRegion _ _ _ => True

def machine : Lib.Machine State Op Out Bug where
  init s := (∀ i, (s.res i).children = []) ∧ s.known = []
  enabled s op := op.Permitted s
  exec := exec

end G3Mod.Resource
