import G3Mod.Binder.Refs.Model
import G3Mod.Binder.Transaction.Model

/-!
# The objects in a transaction

`binder_transaction` as a whole: it finds its target, fills a buffer, translates the objects at the offsets, and takes
one of its exits. `binder_transaction_buffer_release` undoes the translation. References and nodes are those of
`Refs`, stacks and queues those of `Transaction`. Offsets are multiples of four; security contexts, priorities and the
log are left out.
-/

namespace G3Mod.Binder.Objects

open Function Lib Refs

open Transaction (ReturnError)

/-! ## Data -/

inductive Kind where
  | binder (strong : Bool)
  | handle (strong : Bool)
  | fd
  deriving DecidableEq, Repr

def Kind.code : Kind → Nat
  | .binder true => 0x73622a85
  | .binder false => 0x77622a85
  | .handle true => 0x73682a85
  | .handle false => 0x77682a85
  | .fd => 0x66642a85

def Kind.ofCode (code : Nat) : Option Kind :=
  if code = 0x73622a85 then some (.binder true)
  else if code = 0x77622a85 then some (.binder false)
  else if code = 0x73682a85 then some (.handle true)
  else if code = 0x77682a85 then some (.handle false)
  else if code = 0x66642a85 then some .fd
  else none

/-- The data of a buffer: `data_size`, and the word at each offset that is a multiple of four. -/
structure Data where
  size : Nat
  word : Nat → Nat

namespace Data

/-- The members of the `struct flat_binder_object` at an offset; `object` is the union of `binder` and `handle`. -/
def type (d : Data) (off : Nat) : Option Kind := Kind.ofCode (d.word off)

def flags (d : Data) (off : Nat) : Nat := d.word (off + 4)

def object (d : Data) (off : Nat) : Nat := d.word (off + 8)

def cookie (d : Data) (off : Nat) : Nat := d.word (off + 12)

def setType (off : Nat) (k : Kind) (d : Data) : Data := { d with word := update d.word off k.code }

def setObject (off v : Nat) (d : Data) : Data := { d with word := update d.word (off + 8) v }

def setCookie (off v : Nat) (d : Data) : Data := { d with word := update d.word (off + 12) v }

def Valid (d : Data) (off : Nat) : Prop := 16 ≤ d.size ∧ off ≤ d.size - 16 ∧ off % 4 = 0

instance {d : Data} {off : Nat} : Decidable (d.Valid off) := by unfold Valid; infer_instance

end Data

/-! ## Translation -/

/-- What `binder_transaction` knows when it translates; `garbage` is `return_error` before it is set. -/
structure Call where
  proc : ProcId
  thread : ThreadId
  target : ProcId
  node : Option NodeId
  acceptFds : Bool
  garbage : Nat

structure Luck where
  node : Bool
  ref : Bool
  fd : Bool

/-- The sender's node for a `BINDER_TYPE_BINDER`, which may be new. -/
def senderNode (c : Call) (luck : Luck) (off : Nat) (d : Data) (s : State) : Except Bug (Option NodeId × State) := do
  let o ← binderGetNode c.proc (d.object off) s
  match o with
  | some n => pure (some n, s)
  | none => do
      let x ← binderNewNode c.proc (d.object off) (d.cookie off) luck.node s
      match x.1 with
      | none => pure (none, x.2)
      | some n => do
          let nd ← getNode n x.2
          pure (some n, setNode n (some { nd with
            minPriority := d.flags off % 0x100
            acceptFds := d.flags off / 0x100 % 2 = 1 }) x.2)

/-- The target gets a counted reference to `n`; its descriptor is returned. -/
def giveRef (c : Call) (luck : Luck) (n : NodeId) (strong : Bool) (list : Option TodoList) (s : State) :
    Except Bug (Option Nat × State) := do
  let x ← binderGetRefForNode c.target n luck.ref s
  match x.1 with
  | none => pure (none, x.2)
  | some r => do
      let rf ← getRef r x.2
      let y ← binderIncRef r strong list x.2
      pure (some rf.desc, y.2)

/-- `BINDER_TYPE_BINDER` and `BINDER_TYPE_WEAK_BINDER`. `return_error` is not set for a wrong cookie. -/
def translateBinder (c : Call) (luck : Luck) (strong : Bool) (off : Nat) (d : Data) (s : State) :
    Except Bug (Except ReturnError Data × State) := do
  let x ← senderNode c luck off d s
  match x.1 with
  | none => pure (.error .failedReply, x.2)
  | some n => do
      let nd ← getNode n x.2
      if d.cookie off ≠ nd.cookie then pure (.error (.unset c.garbage), x.2)
      else do
        let y ← giveRef c luck n strong (some ⟨c.proc, some c.thread⟩) x.2
        match y.1 with
        | none => pure (.error .failedReply, y.2)
        | some desc => pure (.ok ((d.setType off (.handle strong)).setObject off desc), y.2)

def translateHandle (c : Call) (luck : Luck) (strong : Bool) (off : Nat) (d : Data) (s : State) :
    Except Bug (Except ReturnError Data × State) := do
  let o ← binderGetRef c.proc (d.object off) s
  match o with
  | none => pure (.error .failedReply, s)
  | some r => do
      let rf ← getRef r s
      let nd ← getNode rf.node s
      if nd.proc = some c.target then do
        let x ← binderIncNode rf.node strong false none s
        pure (.ok (((d.setType off (.binder strong)).setObject off nd.ptr).setCookie off nd.cookie), x.2)
      else do
        let y ← giveRef c luck rf.node strong none s
        match y.1 with
        | none => pure (.error .failedReply, y.2)
        | some desc => pure (.ok (d.setObject off desc), y.2)

/-- `in_reply_to->flags & TF_ACCEPT_FDS`, or `target_node->accept_fds`. -/
def fdsAllowed (c : Call) (s : State) : Except Bug Bool :=
  match c.node with
  | none => pure c.acceptFds
  | some n => do
      let nd ← getNode n s
      pure nd.acceptFds

def unusedFd (files : List Nat) : Nat :=
  ((List.range (files.length + 1)).find? fun fd => fd ∉ files).getD 0

def translateFd (c : Call) (luck : Luck) (off : Nat) (d : Data) (s : State) :
    Except Bug (Except ReturnError Data × State) := do
  let allowed ← fdsAllowed c s
  if allowed = false then pure (.error .failedReply, s)
  else do
    let sender ← getProc c.proc s
    if d.object off ∉ sender.files then pure (.error .failedReply, s)
    else if luck.fd = false then pure (.error .failedReply, s)
    else do
      let pr ← getProc c.target s
      let fd := unusedFd pr.files
      pure (.ok (d.setObject off fd), setProc c.target (some { pr with files := fd :: pr.files }) s)

def translate (c : Call) (luck : Luck) (off : Nat) (d : Data) (s : State) :
    Except Bug (Except ReturnError Data × State) :=
  if d.Valid off then
    match d.type off with
    | some (.binder strong) => translateBinder c luck strong off d s
    | some (.handle strong) => translateHandle c luck strong off d s
    | some .fd => translateFd c luck off d s
    | none => pure (.error .failedReply, s)
  else pure (.error .failedReply, s)

/-- The loop over the offsets from the `k`-th on; a failure comes with its number and `return_error`. -/
def translateLoop (c : Call) (luck : Nat → Luck) : List Nat → Nat → Data → State →
    Except Bug (Data × Option (Nat × ReturnError) × State)
  | [], _, d, s => pure (d, none, s)
  | off :: offs, k, d, s => do
      let x ← translate c (luck k) off d s
      match x.1 with
      | .error e => pure (d, some (k, e), x.2)
      | .ok d' => translateLoop c luck offs (k + 1) d' x.2

def releaseTarget (node : Option NodeId) (s : State) : Except Bug (List Event × State) :=
  match node with
  | none => pure ([], s)
  | some n => binderDecNode n true false s

def closeFd (p : ProcId) (fd : Nat) (s : State) : Except Bug State := do
  let pr ← getProc p s
  pure (setProc p (some { pr with files := pr.files.erase fd }) s)

/-- One turn of the loop of `binder_transaction_buffer_release`; `failed` is `failed_at != NULL`. -/
def releaseObject (p : ProcId) (failed : Bool) (off : Nat) (d : Data) (s : State) : Except Bug (List Event × State) :=
  if d.Valid off then
    match d.type off with
    | some (.binder strong) => do
        let o ← binderGetNode p (d.object off) s
        match o with
        | none => pure ([], s)
        | some n => binderDecNode n strong false s
    | some (.handle strong) => do
        let o ← binderGetRef p (d.object off) s
        match o with
        | none => pure ([], s)
        | some r => do
            let x ← binderDecRef r strong s
            pure x.2
    | some .fd => if failed then do let s' ← closeFd p (d.object off) s; pure ([], s') else pure ([], s)
    | none => pure ([], s)
  else pure ([], s)

def releaseLoop (p : ProcId) (failed : Bool) (d : Data) : List Nat → State → Except Bug (List Event × State)
  | [], s => pure ([], s)
  | off :: offs, s => do
      let x ← releaseObject p failed off d s
      let y ← releaseLoop p failed d offs x.2
      pure (x.1 ++ y.1, y.2)

def bufferRelease (p : ProcId) (node : Option NodeId) (failed : Bool) (d : Data) (offs : List Nat) (s : State) :
    Except Bug (List Event × State) := do
  let x ← releaseTarget node s
  let y ← releaseLoop p failed d offs x.2
  pure (x.1 ++ y.1, y.2)

/-- The payload of a `struct binder_transaction_data`. -/
structure Payload where
  data : Data
  offsets : List Nat
  aligned : Bool

structure Env where
  t : Bool
  tcomplete : Bool
  buffer : Bool
  copyData : Bool
  copyOffsets : Bool
  luck : Nat → Luck

def holdTarget (node : Option NodeId) (s : State) : Except Bug State :=
  match node with
  | none => pure s
  | some n => do
      let x ← binderIncNode n true false none s
      pure x.2

/-- The objects of a buffer that has just been filled, as far as the copies succeed. -/
def translateAll (c : Call) (pl : Payload) (env : Env) (s : State) :
    Except Bug (Data × Option (Nat × ReturnError) × State) :=
  if env.copyData ∧ env.copyOffsets ∧ pl.aligned then translateLoop c env.luck pl.offsets 0 pl.data s
  else pure (pl.data, some (0, .failedReply), s)

/-- `binder_transaction` from the allocation of `t` on, as far as references go. -/
def fill (c : Call) (pl : Payload) (env : Env) (s : State) : Except Bug (Except ReturnError Data × List Event × State) :=
  if env.t ∧ env.tcomplete ∧ env.buffer then do
    let s₁ ← holdTarget c.node s
    let x ← translateAll c pl env s₁
    match x.2.1 with
    | none => pure (.ok x.1, [], x.2.2)
    | some (k, e) => do
        let y ← bufferRelease c.target c.node true x.1 (pl.offsets.take k) x.2.2
        pure (.error e, y)
  else pure (.error .failedReply, [], s)

/-! ## `binder_transaction` -/

/-- References and files on the one side, stacks and queues on the other. -/
structure World where
  refs : State
  txs : Transaction.State

inductive Stop where
  | refs (b : Bug)
  | txs (b : Transaction.Bug)

def onRefs {A : Type} : Except Bug A → Except Stop A
  | .error b => .error (.refs b)
  | .ok a => .ok a

def onTxs {A : Type} : Except Transaction.Bug A → Except Stop A
  | .error b => .error (.txs b)
  | .ok a => .ok a

/-- `struct binder_transaction_data`, and what `return_error` holds before it is set. -/
structure Request where
  handle : Nat
  oneWay : Bool
  payload : Payload
  garbage : Nat

/-- Where a transaction goes. `acceptFds` is that of the transaction that is answered. -/
structure Route where
  inReplyTo : Option Nat
  proc : ProcId
  thread : Option ThreadId
  node : Option NodeId
  acceptFds : Bool

/-- How `binder_transaction` ends; an error exit has `in_reply_to` and `return_error` at the end of the function. -/
inductive Exit where
  | accepted (d : Data)
  | failed (inReplyTo : Option Nat) (error : ReturnError)

/-- The part of `binder_transaction` for a reply that finds the target. -/
def routeReply (a : ThreadId) (fds : Bool) (t : Transaction.State) :
    Except Transaction.Bug (Except (Option Nat × ReturnError) Route × Transaction.State) := do
  let th ← Transaction.getThread a t
  match th.stack with
  | none => pure (.error (none, .failedReply), t)
  | some inReplyTo => do
      let x ← Transaction.getTx inReplyTo t
      if x.toThread ≠ some a then pure (.error (none, .failedReply), t)
      else
        let t := Transaction.setThread a (some { th with stack := x.toParent }) t
        match x.fromThread with
        | none => pure (.error (some inReplyTo, .deadReply), t)
        | some f => do
            let fth ← Transaction.getThread f t
            if fth.stack ≠ some inReplyTo then do
              let _ ← Transaction.peekStack fth t
              pure (.error (none, .failedReply), t)
            else pure (.ok ⟨some inReplyTo, fth.proc, some f, none, fds⟩, t)

/-- `target_node` of a transaction, or `return_error`. -/
def targetNode (p : ProcId) (handle : Nat) (s : State) : Except Bug (Except ReturnError NodeId) :=
  if handle ≠ 0 then do
    let o ← binderGetRef p handle s
    match o with
    | none => pure (.error .failedReply)
    | some r => do
        let rf ← getRef r s
        pure (.ok rf.node)
  else
    match s.contextMgrNode with
    | none => pure (.error .deadReply)
    | some n => pure (.ok n)

/-- The part of `binder_transaction` for a call that finds the target thread. -/
def routeCall (a : ThreadId) (oneWay : Bool) (n : NodeId) (p : ProcId) (t : Transaction.State) :
    Except Transaction.Bug (Except (Option Nat × ReturnError) Route) :=
  if oneWay then pure (.ok ⟨none, p, none, some n, false⟩)
  else do
    let waits ← Transaction.awaitsReply a t
    if waits then pure (.error (none, .failedReply))
    else do
      let z ← Transaction.targetThread a p t
      pure (.ok ⟨none, p, z, some n, false⟩)

def route (a : ThreadId) (tr : Request) (reply fds : Bool) (w : World) :
    Except Stop (Except (Option Nat × ReturnError) Route × Transaction.State) :=
  if reply then onTxs (routeReply a fds w.txs)
  else do
    let th ← onTxs (Transaction.getThread a w.txs)
    let o ← onRefs (targetNode th.proc tr.handle w.refs)
    match o with
    | .error e => pure (.error (none, e), w.txs)
    | .ok n => do
        let nd ← onRefs (getNode n w.refs)
        match nd.proc with
        | none => pure (.error (none, .deadReply), w.txs)
        | some p => do
            let r ← onTxs (routeCall a tr.oneWay n p w.txs)
            pure (r, w.txs)

def accept (a : ThreadId) (oneWay : Bool) (r : Route) (t : Transaction.State) :
    Except Transaction.Bug Transaction.State := do
  let th ← Transaction.getThread a t
  match r.inReplyTo, r.thread, r.node with
  | some inReplyTo, some f, _ => Transaction.acceptReply a f r.proc inReplyTo oneWay t
  | _, z, some n => pure (if oneWay then Transaction.acceptOneWay a n r.proc t
      else Transaction.acceptSync a th n r.proc z t)
  | _, _, none => pure t

def binderTransaction (a : ThreadId) (tr : Request) (reply fds : Bool) (env : Env) (w : World) :
    Except Stop (Exit × World) := do
  let th ← onTxs (Transaction.getThread a w.txs)
  let x ← route a tr reply fds w
  match x.1 with
  | .error (inReplyTo, e) => do
      let t ← onTxs (Transaction.transactionFailed a inReplyTo e x.2)
      pure (.failed inReplyTo e, ⟨w.refs, t⟩)
  | .ok r => do
      let y ← onRefs (fill ⟨th.proc, a, r.proc, r.node, r.acceptFds, tr.garbage⟩ tr.payload env w.refs)
      match y.1 with
      | .error e => do
          let t ← onTxs (Transaction.transactionFailed a r.inReplyTo e x.2)
          pure (.failed r.inReplyTo e, ⟨y.2.2, t⟩)
      | .ok d => do
          let t ← onTxs (accept a tr.oneWay r x.2)
          pure (.accepted d, ⟨y.2.2, t⟩)

end G3Mod.Binder.Objects
