import G3Mod.Lib.Machine
import G3Mod.Lib.Table

/-!
# Binder nodes and references

The nodes and references of `binder.c` with their counts, which are C `int`s, the `BINDER_WORK_NODE` step of
`binder_thread_read`, and the release of threads and processes. Following a pointer to freed memory is an error. Of a
node's work item only the list it is on is kept. Death notifications are left out.
-/

namespace G3Mod.Binder.Refs

open Function Lib

abbrev ProcId := Nat
abbrev ThreadId := Nat
abbrev NodeId := Nat
abbrev RefId := Nat

/-! ## Counts -/

def intMax : Int := 2147483647

def intMin : Int := -2147483648

def incr (x : Int) : Int := if x = intMax then intMin else x + 1

def decr (x : Int) : Int := if x = intMin then intMax else x - 1

/-! ## The state -/

structure TodoList where
  proc : ProcId
  thread : Option ThreadId
  deriving DecidableEq, Repr

/-- `struct binder_node`. `work` is the list that `work.entry` is on. -/
structure Node where
  work : Option TodoList
  proc : Option ProcId
  refs : List RefId
  internalStrongRefs : Int
  localWeakRefs : Int
  localStrongRefs : Int
  ptr : Nat
  cookie : Nat
  hasStrongRef : Bool
  pendingStrongRef : Bool
  hasWeakRef : Bool
  pendingWeakRef : Bool
  acceptFds : Bool
  minPriority : Nat
  deriving DecidableEq, Repr

structure Ref where
  proc : ProcId
  node : NodeId
  desc : Nat
  strong : Int
  weak : Int
  deriving DecidableEq, Repr

/-- `struct binder_proc`: its trees, and the numbers of its open files. -/
structure Proc where
  nodes : Table Nat NodeId
  refsByDesc : Table Nat RefId
  refsByNode : Table NodeId RefId
  files : List Nat

/-- `none` on a heap is memory that was never allocated or has been freed. -/
structure State where
  proc : ProcId → Option Proc
  node : NodeId → Option Node
  ref : RefId → Option Ref
  contextMgrNode : Option NodeId
  next : Nat

inductive Bug where
  /-- a pointer to a freed process, node or reference is followed -/
  | freedProc (p : ProcId)
  | freedNode (n : NodeId)
  | freedRef (r : RefId)
  /-- `BUG()` in `binder_get_ref_for_node` -/
  | descInUse (d : Nat)
  /-- a loop that empties a tree does not end -/
  | endless
  deriving DecidableEq, Repr

inductive Status where
  | ok
  | einval
  deriving DecidableEq, Repr

inductive Command where
  | increfs
  | acquire
  | release
  | decrefs
  deriving DecidableEq, Repr

inductive Event where
  /-- `kfree` of a node, with the node as it was then -/
  | freed (n : NodeId) (nd : Node)
  | command (c : Command) (ptr cookie : Nat)
  deriving DecidableEq, Repr

def getProc (p : ProcId) (s : State) : Except Bug Proc :=
  match s.proc p with
  | none => .error (.freedProc p)
  | some pr => .ok pr

def getNode (n : NodeId) (s : State) : Except Bug Node :=
  match s.node n with
  | none => .error (.freedNode n)
  | some nd => .ok nd

def getRef (r : RefId) (s : State) : Except Bug Ref :=
  match s.ref r with
  | none => .error (.freedRef r)
  | some rf => .ok rf

@[simps node ref next contextMgrNode] def setProc (p : ProcId) (pr : Option Proc) (s : State) : State := { s with proc := update s.proc p pr }

@[simps proc ref next contextMgrNode] def setNode (n : NodeId) (nd : Option Node) (s : State) : State := { s with node := update s.node n nd }

@[simps proc node next contextMgrNode] def setRef (r : RefId) (rf : Option Ref) (s : State) : State := { s with ref := update s.ref r rf }

/-! ## Nodes -/

def binderGetNode (p : ProcId) (ptr : Nat) (s : State) : Except Bug (Option NodeId) := do
  let pr ← getProc p s
  pure (pr.nodes.find ptr)

def newNode (p : ProcId) (ptr cookie : Nat) : Node where
  work := none
  proc := some p
  refs := []
  internalStrongRefs := 0
  localWeakRefs := 0
  localStrongRefs := 0
  ptr := ptr
  cookie := cookie
  hasStrongRef := false
  pendingStrongRef := false
  hasWeakRef := false
  pendingWeakRef := false
  acceptFds := false
  minPriority := 0

/-- `rb_link_node` and `rb_insert_color` of a new node. -/
def addNode (p : ProcId) (pr : Proc) (nd : Node) (s : State) : State :=
  { s with
    proc := update s.proc p (some { pr with nodes := pr.nodes.insert nd.ptr s.next })
    node := update s.node s.next (some nd)
    next := s.next + 1 }

/-- `alloc` is whether `kzalloc` succeeds. -/
def binderNewNode (p : ProcId) (ptr cookie : Nat) (alloc : Bool) (s : State) :
    Except Bug (Option NodeId × State) := do
  let pr ← getProc p s
  match pr.nodes.find ptr with
  | some _ => pure (none, s)
  | none => pure (if alloc then (some s.next, addNode p pr (newNode p ptr cookie) s) else (none, s))

/-- `list_del_init` and `list_add_tail` to the target list, if the user does not hold the node yet. -/
def Node.offer (target : Option TodoList) (nd : Node) : Node :=
  if nd.hasStrongRef = false ∧ target.isSome then { nd with work := target } else nd

/-- `binder_inc_node` with `strong`. `mgr` is `node == binder_context_mgr_node`. -/
def Node.incStrong (mgr internal : Bool) (target : Option TodoList) (nd : Node) : Status × Node :=
  if internal then
    if target = none ∧ nd.internalStrongRefs = 0 ∧ ¬ (mgr = true ∧ nd.hasStrongRef = true) then (.einval, nd)
    else (.ok, { nd with internalStrongRefs := incr nd.internalStrongRefs }.offer target)
  else (.ok, { nd with localStrongRefs := incr nd.localStrongRefs }.offer target)

/-- The `work` part of `binder_inc_node` without `strong`. -/
def Node.requestWeak (target : Option TodoList) (nd : Node) : Status × Node :=
  if nd.hasWeakRef = false ∧ nd.work = none then
    match target with
    | none => (.einval, nd)
    | some l => (.ok, { nd with work := some l })
  else (.ok, nd)

/-- `binder_inc_node` without `strong`. -/
def Node.incWeak (internal : Bool) (target : Option TodoList) (nd : Node) : Status × Node :=
  if internal then nd.requestWeak target
  else { nd with localWeakRefs := incr nd.localWeakRefs }.requestWeak target

def Node.inc (mgr strong internal : Bool) (target : Option TodoList) (nd : Node) : Status × Node :=
  if strong then nd.incStrong mgr internal target else nd.incWeak internal target

def binderIncNode (n : NodeId) (strong internal : Bool) (target : Option TodoList) (s : State) :
    Except Bug (Status × State) := do
  let nd ← getNode n s
  let r := nd.inc (s.contextMgrNode = some n) strong internal target
  pure (r.1, setNode n (some r.2) s)

/-- The counting part of `binder_dec_node`. -/
def Node.dec (strong internal : Bool) (nd : Node) : Node :=
  if strong then
    if internal then { nd with internalStrongRefs := decr nd.internalStrongRefs }
    else { nd with localStrongRefs := decr nd.localStrongRefs }
  else
    if internal then nd
    else { nd with localWeakRefs := decr nd.localWeakRefs }

/-- `binder_dec_node` returns early: other counts of the same kind are left. -/
def Node.Held (strong : Bool) (nd : Node) : Prop :=
  if strong then nd.localStrongRefs ≠ 0 ∨ nd.internalStrongRefs ≠ 0
  else nd.localWeakRefs ≠ 0 ∨ nd.refs ≠ []

instance {strong : Bool} {nd : Node} : Decidable (nd.Held strong) := by
  unfold Node.Held; infer_instance

/-- `rb_erase` of a node that is still in its process's tree, and `kfree`. -/
def freeNode (n : NodeId) (nd : Node) (s : State) : Except Bug (List Event × State) :=
  match nd.proc with
  | none => pure ([.freed n nd], setNode n none s)
  | some p => do
      let pr ← getProc p s
      pure ([.freed n nd], setNode n none (setProc p (some { pr with nodes := pr.nodes.erase nd.ptr }) s))

/-- The last part of `binder_dec_node`, for a node that its process does not hold. -/
def freeUnused (n : NodeId) (nd : Node) (s : State) : Except Bug (List Event × State) :=
  if nd.refs = [] ∧ nd.localStrongRefs = 0 ∧ nd.localWeakRefs = 0 then freeNode n { nd with work := none } s
  else pure ([], setNode n (some nd) s)

def dropNode (n : NodeId) (nd : Node) (s : State) : Except Bug (List Event × State) :=
  match nd.proc with
  | some p =>
    if nd.hasStrongRef = true ∨ nd.hasWeakRef = true then
      pure ([], setNode n (some { nd with work := nd.work.or (some ⟨p, none⟩) }) s)
    else freeUnused n nd s
  | none => freeUnused n nd s

def binderDecNode (n : NodeId) (strong internal : Bool) (s : State) : Except Bug (List Event × State) := do
  let nd ← getNode n s
  if (nd.dec strong internal).Held strong then pure ([], setNode n (some (nd.dec strong internal)) s)
  else dropNode n (nd.dec strong internal) s

/-! ## References -/

def binderGetRef (p : ProcId) (desc : Nat) (s : State) : Except Bug (Option RefId) := do
  let pr ← getProc p s
  pure (pr.refsByDesc.find desc)

/-- The loop of `binder_get_ref_for_node` that chooses a descriptor. -/
def nextDesc : Nat → List (Nat × RefId) → Nat
  | d, [] => d
  | d, e :: l => if d < e.1 then d else nextDesc (e.1 + 1) l

def Proc.addRef (desc : Nat) (n : NodeId) (r : RefId) (pr : Proc) : Proc :=
  { pr with refsByDesc := pr.refsByDesc.insert desc r, refsByNode := pr.refsByNode.insert n r }

/-- A new reference in both trees of its process and on its node's list. -/
def linkRef (p : ProcId) (pr : Proc) (n : NodeId) (nd : Node) (desc : Nat) (s : State) : State :=
  { s with
    proc := update s.proc p (some (pr.addRef desc n s.next))
    node := update s.node n (some { nd with refs := s.next :: nd.refs })
    ref := update s.ref s.next (some ⟨p, n, desc, 0, 0⟩)
    next := s.next + 1 }

/-- The second half of `binder_get_ref_for_node`. -/
def addRef (p : ProcId) (pr : Proc) (n : NodeId) (desc : Nat) (s : State) : Except Bug (Option RefId × State) := do
  let nd ← getNode n s
  match pr.refsByDesc.find desc with
  | some _ => .error (.descInUse desc)
  | none => pure (some s.next, linkRef p pr n nd desc s)

def descStart (n : NodeId) (s : State) : Nat := if s.contextMgrNode = some n then 0 else 1

/-- `alloc` is whether `kzalloc` succeeds. -/
def binderGetRefForNode (p : ProcId) (n : NodeId) (alloc : Bool) (s : State) :
    Except Bug (Option RefId × State) := do
  let pr ← getProc p s
  match pr.refsByNode.find n with
  | some r => pure (some r, s)
  | none =>
    if alloc then addRef p pr n (nextDesc (descStart n s) pr.refsByDesc.entries) s
    else pure (none, s)

def Proc.eraseRef (rf : Ref) (pr : Proc) : Proc :=
  { pr with refsByDesc := pr.refsByDesc.erase rf.desc, refsByNode := pr.refsByNode.erase rf.node }

/-- The strong part of `binder_delete_ref`. -/
def dropStrong (rf : Ref) (s : State) : Except Bug (List Event × State) :=
  if rf.strong ≠ 0 then binderDecNode rf.node true true s else pure ([], s)

def unlinkRef (r : RefId) (n : NodeId) (s : State) : Except Bug State := do
  let nd ← getNode n s
  pure (setNode n (some { nd with refs := nd.refs.erase r }) s)

def binderDeleteRef (r : RefId) (s : State) : Except Bug (List Event × State) := do
  let rf ← getRef r s
  let pr ← getProc rf.proc s
  let x ← dropStrong rf (setProc rf.proc (some (pr.eraseRef rf)) s)
  let s₂ ← unlinkRef r rf.node x.2
  let y ← binderDecNode rf.node false true s₂
  pure (x.1 ++ y.1, setRef r none y.2)

/-- `binder_inc_node` for the first count of its kind. -/
def incNodeIfFirst (count : Int) (n : NodeId) (strong : Bool) (target : Option TodoList) (s : State) :
    Except Bug (Status × State) :=
  if count = 0 then binderIncNode n strong true target s else pure (.ok, s)

def Ref.inc (strong : Bool) (rf : Ref) : Ref :=
  if strong then { rf with strong := incr rf.strong } else { rf with weak := incr rf.weak }

def Ref.dec (strong : Bool) (rf : Ref) : Ref :=
  if strong then { rf with strong := decr rf.strong } else { rf with weak := decr rf.weak }

def Ref.count (strong : Bool) (rf : Ref) : Int := if strong then rf.strong else rf.weak

def binderIncRef (r : RefId) (strong : Bool) (target : Option TodoList) (s : State) :
    Except Bug (Status × State) := do
  let rf ← getRef r s
  let x ← incNodeIfFirst (rf.count strong) rf.node strong target s
  match x.1 with
  | .einval => pure (.einval, x.2)
  | .ok => pure (.ok, setRef r (some (rf.inc strong)) x.2)

/-- `binder_dec_node` for the last strong count; the weak count of a reference is not counted at the
node. -/
def decNodeIfLast (strong : Bool) (rf : Ref) (s : State) : Except Bug (List Event × State) :=
  if strong = true ∧ rf.strong = 0 then binderDecNode rf.node true true s else pure ([], s)

def deleteIfUnused (r : RefId) (rf : Ref) (s : State) : Except Bug (List Event × State) :=
  if rf.strong = 0 ∧ rf.weak = 0 then binderDeleteRef r s else pure ([], s)

def binderDecRef (r : RefId) (strong : Bool) (s : State) : Except Bug (Status × List Event × State) := do
  let rf ← getRef r s
  if rf.count strong = 0 then pure (.einval, [], s)
  else
    let x ← decNodeIfLast strong (rf.dec strong) (setRef r (some (rf.dec strong)) s)
    let y ← deleteIfUnused r (rf.dec strong) x.2
    pure (.ok, x.1 ++ y.1, y.2)

/-! ## What the process is told -/

def Node.strong (nd : Node) : Bool := nd.internalStrongRefs ≠ 0 ∨ nd.localStrongRefs ≠ 0

def Node.weak (nd : Node) : Bool := nd.refs ≠ [] ∨ nd.localWeakRefs ≠ 0 ∨ nd.strong

/-- The command that is due for a node, and the node after it. -/
def Node.report (nd : Node) : Option (Command × Node) :=
  if nd.weak = true ∧ nd.hasWeakRef = false then
    some (.increfs,
      { nd with hasWeakRef := true, pendingWeakRef := true, localWeakRefs := incr nd.localWeakRefs })
  else if nd.strong = true ∧ nd.hasStrongRef = false then
    some (.acquire,
      { nd with hasStrongRef := true, pendingStrongRef := true, localStrongRefs := incr nd.localStrongRefs })
  else if nd.strong = false ∧ nd.hasStrongRef = true then
    some (.release, { nd with hasStrongRef := false })
  else if nd.weak = false ∧ nd.hasWeakRef = true then
    some (.decrefs, { nd with hasWeakRef := false })
  else none

/-- `rb_erase(&node->rb_node, &proc->nodes)` and `kfree` in `binder_thread_read`. -/
def freeRead (p : ProcId) (n : NodeId) (nd : Node) (s : State) : Except Bug (List Event × State) := do
  let pr ← getProc p s
  pure ([.freed n nd], setNode n none (setProc p (some { pr with nodes := pr.nodes.erase nd.ptr }) s))

/-- One pass of the loop of `binder_thread_read`, in process `p`, over the work item of `n`. -/
def workNode (p : ProcId) (n : NodeId) (s : State) : Except Bug (List Event × State) := do
  let nd ← getNode n s
  match nd.report with
  | some (c, nd') => pure ([.command c nd.ptr nd.cookie], setNode n (some nd') s)
  | none =>
    if nd.weak = false ∧ nd.strong = false then freeRead p n { nd with work := none } s
    else pure ([], setNode n (some { nd with work := none }) s)

def Node.pending (strong : Bool) (nd : Node) : Bool :=
  if strong then nd.pendingStrongRef else nd.pendingWeakRef

def Node.clearPending (strong : Bool) (nd : Node) : Node :=
  if strong then { nd with pendingStrongRef := false } else { nd with pendingWeakRef := false }

/-- The rest of `BC_INCREFS_DONE` and `BC_ACQUIRE_DONE`, for the node that was found. -/
def acknowledge (n : NodeId) (cookie : Nat) (strong : Bool) (s : State) : Except Bug (List Event × State) := do
  let nd ← getNode n s
  if cookie = nd.cookie ∧ nd.pending strong = true then
    binderDecNode n strong false (setNode n (some (nd.clearPending strong)) s)
  else pure ([], s)

/-- `BC_ACQUIRE_DONE` if `strong`, and `BC_INCREFS_DONE`. -/
def bcDone (p : ProcId) (ptr cookie : Nat) (strong : Bool) (s : State) : Except Bug (List Event × State) := do
  let o ← binderGetNode p ptr s
  match o with
  | none => pure ([], s)
  | some n => acknowledge n cookie strong s

/-! ## Processes -/

def newProc : Proc := ⟨.empty, .empty, .empty, []⟩

def Node.manage (nd : Node) : Node :=
  { nd with
    localWeakRefs := incr nd.localWeakRefs
    localStrongRefs := incr nd.localStrongRefs
    hasStrongRef := true
    hasWeakRef := true }

/-- `BINDER_SET_CONTEXT_MGR` of a permitted user. -/
def setContextMgr (p : ProcId) (alloc : Bool) (s : State) : Except Bug State :=
  match s.contextMgrNode with
  | some _ => pure s
  | none => do
      let x ← binderNewNode p 0 0 alloc s
      match x.1 with
      | none => pure x.2
      | some n => do
          let nd ← getNode n x.2
          pure { setNode n (some nd.manage) x.2 with contextMgrNode := some n }

/-- `binder_release_work` on the lists in `gone`, for the work items of nodes. -/
def releaseWork (gone : TodoList → Bool) (s : State) : State :=
  { s with node := fun n => (s.node n).map fun nd => if nd.work.any gone then { nd with work := none } else nd }

/-- The context manager is gone with its process. -/
def forgetContextMgr (p : ProcId) (s : State) : Except Bug State :=
  match s.contextMgrNode with
  | none => pure s
  | some n => do
      let nd ← getNode n s
      pure (if nd.proc = some p then { s with contextMgrNode := none } else s)

/-- The body of the loop of `binder_deferred_release` over the process's nodes. -/
def releaseNode (p : ProcId) (ptr : Nat) (n : NodeId) (s : State) : Except Bug (List Event × State) := do
  let pr ← getProc p s
  let nd ← getNode n s
  let s₁ := setProc p (some { pr with nodes := pr.nodes.erase ptr }) s
  if nd.refs = [] then pure ([.freed n { nd with work := none }], setNode n none s₁)
  else pure ([], setNode n
    (some { nd with work := none, proc := none, localStrongRefs := 0, localWeakRefs := 0 }) s₁)

def releaseNodes (p : ProcId) : Nat → State → Except Bug (List Event × State)
  | 0, s => do
      let pr ← getProc p s
      match pr.nodes.first with
      | none => pure ([], s)
      | some _ => .error .endless
  | fuel + 1, s => do
      let pr ← getProc p s
      match pr.nodes.first with
      | none => pure ([], s)
      | some e => do
          let x ← releaseNode p e.1 e.2 s
          let y ← releaseNodes p fuel x.2
          pure (x.1 ++ y.1, y.2)

def releaseRefs (p : ProcId) : Nat → State → Except Bug (List Event × State)
  | 0, s => do
      let pr ← getProc p s
      match pr.refsByDesc.first with
      | none => pure ([], s)
      | some _ => .error .endless
  | fuel + 1, s => do
      let pr ← getProc p s
      match pr.refsByDesc.first with
      | none => pure ([], s)
      | some e => do
          let x ← binderDeleteRef e.2 s
          let y ← releaseRefs p fuel x.2
          pure (x.1 ++ y.1, y.2)

/-- The part of `binder_deferred_release` that is about nodes and references. -/
def deferredRelease (p : ProcId) (s : State) : Except Bug (List Event × State) := do
  let pr ← getProc p s
  let s₁ ← forgetContextMgr p s
  let x ← releaseNodes p pr.nodes.entries.length (releaseWork (fun l => l.proc = p ∧ l.thread ≠ none) s₁)
  let y ← releaseRefs p pr.refsByDesc.entries.length x.2
  pure (x.1 ++ y.1, setProc p none (releaseWork (fun l => l.proc = p ∧ l.thread = none) y.2))

/-! ## The machine -/

inductive Op where
  | openProc (p : ProcId)
  | setContextMgr (p : ProcId) (alloc : Bool)
  | newNode (p : ProcId) (ptr cookie : Nat) (alloc : Bool)
  | getRefForNode (p : ProcId) (n : NodeId) (alloc : Bool)
  | incRef (r : RefId) (strong : Bool) (target : Option TodoList)
  | decRef (r : RefId) (strong : Bool)
  | deleteRef (r : RefId)
  | incNode (n : NodeId) (strong : Bool) (target : Option TodoList)
  | decNode (n : NodeId) (strong : Bool)
  | workNode (p : ProcId) (n : NodeId)
  | bcDone (p : ProcId) (ptr cookie : Nat) (strong : Bool)
  | setFiles (p : ProcId) (files : List Nat)
  | threadExit (p : ProcId) (a : ThreadId)
  | deferredRelease (p : ProcId)
  deriving DecidableEq, Repr

def setFiles (p : ProcId) (files : List Nat) (s : State) : Except Bug State := do
  let pr ← getProc p s
  pure (setProc p (some { pr with files := files }) s)

/-- The operations on nodes and references; direct calls have `internal == 0`. -/
def exec (s : State) : Op → Except Bug (List Event × State)
  | .openProc p => .ok ([], setProc p (some newProc) s)
  | .setContextMgr p alloc => do let s' ← setContextMgr p alloc s; pure ([], s')
  | .newNode p ptr cookie alloc => do let x ← binderNewNode p ptr cookie alloc s; pure ([], x.2)
  | .getRefForNode p n alloc => do let x ← binderGetRefForNode p n alloc s; pure ([], x.2)
  | .incRef r strong target => do let x ← binderIncRef r strong target s; pure ([], x.2)
  | .decRef r strong => do let x ← binderDecRef r strong s; pure x.2
  | .deleteRef r => binderDeleteRef r s
  | .incNode n strong target => do let x ← binderIncNode n strong false target s; pure ([], x.2)
  | .decNode n strong => binderDecNode n strong false s
  | .workNode p n => workNode p n s
  | .bcDone p ptr cookie strong => bcDone p ptr cookie strong s
  | .setFiles p files => do let s' ← setFiles p files s; pure ([], s')
  | .threadExit p a => .ok ([], releaseWork (fun l => l = ⟨p, some a⟩) s)
  | .deferredRelease p => deferredRelease p s

/-- A target list is the list of a thread of the node's own process. -/
def Node.Targets (nd : Node) (target : Option TodoList) : Prop := ∀ l ∈ target, nd.proc = some l.proc

instance {nd : Node} {target : Option TodoList} : Decidable (nd.Targets target) := by
  unfold Node.Targets; infer_instance

/-- The pointers that an operation is given are valid, and a thread reads work of its own process. -/
def Op.Permitted (s : State) : Op → Prop
  | .openProc p => s.proc p = none
  | .setContextMgr p _ => s.proc p ≠ none
  | .newNode p _ _ _ => s.proc p ≠ none
  | .getRefForNode p n _ => s.proc p ≠ none ∧ s.node n ≠ none
  | .incRef r _ target => ∃ rf ∈ s.ref r, ∃ nd ∈ s.node rf.node, nd.Targets target
  | .decRef r _ => s.ref r ≠ none
  | .deleteRef r => s.ref r ≠ none
  | .incNode n _ target => ∃ nd ∈ s.node n, nd.Targets target
  | .decNode n _ => s.node n ≠ none
  | .workNode p n => ∃ nd ∈ s.node n, ∃ l ∈ nd.work, l.proc = p
  | .bcDone p _ _ _ => s.proc p ≠ none
  | .setFiles p _ => s.proc p ≠ none
  | .threadExit p _ => s.proc p ≠ none
  | .deferredRelease p => s.proc p ≠ none

/-- No count of a reference, and no count of the references at a node, is at its largest value when it is
incremented. -/
def Op.NoOverflow (s : State) : Op → Prop
  | .incRef r strong _ => ∃ rf ∈ s.ref r, rf.count strong ≠ intMax ∧
      (strong = true → ∃ nd ∈ s.node rf.node, nd.internalStrongRefs ≠ intMax)
  | _ => True

instance {s : State} {op : Op} : Decidable (op.Permitted s) := by
  cases op <;> unfold Op.Permitted <;> infer_instance

instance {s : State} {op : Op} : Decidable (op.NoOverflow s) := by
  cases op <;> unfold Op.NoOverflow <;> infer_instance

def emptyState : State where
  proc _ := none
  node _ := none
  ref _ := none
  contextMgrNode := none
  next := 0

def machine : Machine State Op (List Event) Bug where
  init s := s = emptyState
  enabled s op := op.Permitted s ∧ op.NoOverflow s
  exec := exec

instance {s : State} {op : Op} : Decidable (machine.enabled s op) :=
  inferInstanceAs (Decidable (op.Permitted s ∧ op.NoOverflow s))

def fullMachine : Machine State Op (List Event) Bug where
  init s := s = emptyState
  enabled s op := op.Permitted s
  exec := exec

instance {s : State} {op : Op} : Decidable (fullMachine.enabled s op) := inferInstanceAs (Decidable (op.Permitted s))

/-! ## Faults while a command is written -/

/-- `workNode` when `put_user` fails: the process does not get the command. -/
def workNodeFault (p : ProcId) (n : NodeId) (s : State) : Except Bug (List Event × State) := do
  let nd ← getNode n s
  match nd.report with
  | some (_, nd') => pure ([], setNode n (some nd') s)
  | none => workNode p n s

inductive ReadOp where
  | call (op : Op)
  | workNodeFault (p : ProcId) (n : NodeId)
  deriving DecidableEq, Repr

def ReadOp.exec (s : State) : ReadOp → Except Bug (List Event × State)
  | .call op => Refs.exec s op
  | .workNodeFault p n => Refs.workNodeFault p n s

def ReadOp.Permitted (s : State) : ReadOp → Prop
  | .call op => op.Permitted s
  | .workNodeFault p n => (Op.workNode p n).Permitted s

instance {s : State} {op : ReadOp} : Decidable (op.Permitted s) := by
  cases op <;> unfold ReadOp.Permitted <;> infer_instance

def readMachine : Machine State ReadOp (List Event) Bug where
  init s := s = emptyState
  enabled s op := op.Permitted s
  exec := ReadOp.exec

instance {s : State} {op : ReadOp} : Decidable (readMachine.enabled s op) := inferInstanceAs (Decidable (op.Permitted s))

end G3Mod.Binder.Refs
