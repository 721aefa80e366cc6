import G3Mod.Lib.Machine

/-!
# Binder transactions

The transactions of `binder.c` between any number of processes and threads. A buffer has the number of its transaction
(`debug_id`), and numbers are not used twice. Following a pointer to freed memory is an error, as is every `BUG`.
Reference counts, the memory of the buffers and the work items that name no transaction are left out.
-/

namespace G3Mod.Binder.Transaction

abbrev ThreadId := Nat
abbrev ProcId := Nat
abbrev NodeId := Nat

/-- The values of `return_error`. A failed transaction may also leave a value that was never set. -/
inductive ReturnError where
  | ok
  | transactionComplete
  | failedReply
  | deadReply
  | unset (code : Nat)
  deriving DecidableEq, Repr

inductive Work where
  | transaction (t : Nat)
  | transactionComplete
  deriving DecidableEq, Repr

inductive Place where
  | thread (a : ThreadId)
  | proc (p : ProcId)
  | async (n : NodeId)
  deriving DecidableEq, Repr

/-- `struct binder_transaction`. `fromThread` is `from`; `buffer` says whether the pointer is set. -/
structure Tx where
  fromThread : Option ThreadId
  fromParent : Option Nat
  toThread : Option ThreadId
  toParent : Option Nat
  buffer : Bool
  oneWay : Bool
  deriving DecidableEq, Repr

/-- `struct binder_buffer`. `transaction` says whether the pointer is set. -/
structure Buffer where
  proc : ProcId
  transaction : Bool
  targetNode : Option NodeId
  asyncTransaction : Bool
  allowUserFree : Bool
  deriving DecidableEq, Repr

/-- `struct binder_thread`. `waiting` is `wait_for_proc_work` inside `binder_thread_read`. -/
structure Thread where
  proc : ProcId
  stack : Option Nat
  returnError : ReturnError
  returnError2 : ReturnError
  waiting : Option Bool
  deriving DecidableEq, Repr

structure Node where
  proc : Option ProcId
  hasAsyncTransaction : Bool
  deriving DecidableEq, Repr

/-- `none` on a heap is memory that was never allocated or has been freed. -/
structure State where
  thread : ThreadId → Option Thread
  todo : Place → List Work
  node : NodeId → Node
  tx : Nat → Option Tx
  buffer : Nat → Option Buffer
  next : Nat

inductive Bug where
  /-- a pointer to a freed transaction, thread or buffer is followed -/
  | freedTx (t : Nat)
  | freedThread (a : ThreadId)
  | freedBuffer (t : Nat)
  /-- `BUG_ON(t->buffer == NULL)`, or `t->buffer` followed when it is null -/
  | nullBuffer (t : Nat)
  /-- the two `BUG_ON`s of `binder_pop_transaction` -/
  | popStack (t : Nat)
  | popFrom (t : Nat)
  /-- `BUG_ON(t->flags & TF_ONE_WAY)` -/
  | replyToOneWay (t : Nat)
  /-- `BUG()` in `binder_free_thread` -/
  | freeThread (t : Nat)
  /-- `BUG_ON(thread->return_error != BR_OK)` -/
  | returnErrorSet (a : ThreadId)
  /-- `BUG_ON(!has_async_transaction)` -/
  | noAsyncTransaction (n : NodeId)
  /-- a loop over a list of transactions does not end -/
  | endless
  deriving DecidableEq, Repr

/-! ## Access to the heaps -/

def getTx (t : Nat) (s : State) : Except Bug Tx :=
  match s.tx t with
  | none => .error (.freedTx t)
  | some x => .ok x

def getThread (a : ThreadId) (s : State) : Except Bug Thread :=
  match s.thread a with
  | none => .error (.freedThread a)
  | some th => .ok th

def getBuffer (t : Nat) (s : State) : Except Bug Buffer :=
  match s.buffer t with
  | none => .error (.freedBuffer t)
  | some b => .ok b

@[simps thread todo node buffer next] def setTx (t : Nat) (x : Option Tx) (s : State) : State := { s with tx := Function.update s.tx t x }

@[simps todo node tx buffer next] def setThread (a : ThreadId) (th : Option Thread) (s : State) : State :=
  { s with thread := Function.update s.thread a th }

@[simps thread todo node tx next] def setBuffer (t : Nat) (b : Option Buffer) (s : State) : State :=
  { s with buffer := Function.update s.buffer t b }

@[simps thread todo tx buffer next] def setNode (n : NodeId) (d : Node) (s : State) : State := { s with node := Function.update s.node n d }

@[simps thread node tx buffer next] def setTodo (p : Place) (l : List Work) (s : State) : State :=
  { s with todo := Function.update s.todo p l }

def addTail (p : Place) (w : Work) (s : State) : State := setTodo p (s.todo p ++ [w]) s

/-- `if (t->buffer) t->buffer->transaction = NULL`. -/
def clearBufferTransaction (t : Nat) (x : Tx) (s : State) : Except Bug State :=
  if x.buffer then do
    let b ← getBuffer t s
    .ok (setBuffer t (some { b with transaction := false }) s)
  else .ok s

/-- The end of `binder_pop_transaction`, where the transaction is freed. -/
def freeTx (t : Nat) (s : State) : Except Bug State := do
  let x ← getTx t s
  let s ← clearBufferTransaction t x s
  .ok (setTx t none s)

def binderPopTransaction (targetThread : Option ThreadId) (t : Nat) (s : State) : Except Bug State :=
  match targetThread with
  | none => freeTx t s
  | some a => do
      let th ← getThread a s
      if th.stack ≠ some t then .error (.popStack t)
      else
        let x ← getTx t s
        if x.fromThread ≠ some a then .error (.popFrom t)
        else freeTx t (setThread a (some { th with stack := x.fromParent }) s)

def Thread.shiftError (th : Thread) : Thread :=
  if th.returnError ≠ .ok ∧ th.returnError2 = .ok then
    { th with returnError2 := th.returnError, returnError := .ok }
  else th

def failedReplyLoop (error : ReturnError) : Nat → Nat → State → Except Bug State
  | 0, _, _ => .error .endless
  | fuel + 1, t, s => do
      let x ← getTx t s
      match x.fromThread with
      | some a =>
        let th ← getThread a s
        let th := th.shiftError
        let s := setThread a (some th) s
        if th.returnError = .ok then do
          let s ← binderPopTransaction (some a) t s
          let th ← getThread a s
          .ok (setThread a (some { th with returnError := error }) s)
        else .ok s
      | none =>
        let s ← binderPopTransaction none t s
        match x.fromParent with
        | none => .ok s
        | some next => failedReplyLoop error fuel next s

def binderSendFailedReply (t : Nat) (error : ReturnError) (s : State) : Except Bug State := do
  let x ← getTx t s
  if x.oneWay then .error (.replyToOneWay t) else failedReplyLoop error (s.next + 1) t s

/-! ## `binder_transaction` -/

def transactionFailed (a : ThreadId) (inReplyTo : Option Nat) (error : ReturnError) (s : State) :
    Except Bug State := do
  let th ← getThread a s
  if th.returnError ≠ .ok then .error (.returnErrorSet a)
  else
    match inReplyTo with
    | none => .ok (setThread a (some { th with returnError := error }) s)
    | some t =>
      binderSendFailedReply t error (setThread a (some { th with returnError := .transactionComplete }) s)

/-- The loop that picks a thread of the target process from the callers. -/
def callerLoop (p : ProcId) : Nat → Option Nat → Option ThreadId → State → Except Bug (Option ThreadId)
  | _, none, found, _ => .ok found
  | 0, some _, _, _ => .error .endless
  | fuel + 1, some t, found, s => do
      let x ← getTx t s
      match x.fromThread with
      | none => callerLoop p fuel x.fromParent found s
      | some f => do
          let th ← getThread f s
          callerLoop p fuel x.fromParent (if th.proc = p then some f else found) s

/-- What the target of a `BC_TRANSACTION` is found to be. -/
inductive Target where
  | invalidHandle
  | noContextManager
  | node (n : NodeId)
  deriving DecidableEq, Repr

inductive Event where
  /-- `binder_transaction` accepted the transaction for the node -/
  | accepted (t : Nat) (n : NodeId) (oneWay : Bool)
  /-- `BR_TRANSACTION` -/
  | transaction (t : Nat) (n : NodeId) (oneWay : Bool)
  | reply (t : Nat)
  | transactionComplete
  /-- an error code written from `return_error` or `return_error2` -/
  | error (e : ReturnError)
  deriving DecidableEq, Repr

def newBuffer (p : ProcId) (node : Option NodeId) (async : Bool) : Buffer where
  proc := p
  transaction := true
  targetNode := node
  asyncTransaction := async
  allowUserFree := false

@[simps thread todo node next] def newTx (x : Tx) (b : Buffer) (s : State) : State :=
  { s with
    tx := Function.update s.tx s.next (some x)
    buffer := Function.update s.buffer s.next (some b)
    next := s.next + 1 }

/-- The thread that a new synchronous transaction goes to. -/
def targetThread (a : ThreadId) (p : ProcId) (s : State) : Except Bug (Option ThreadId) := do
  let th ← getThread a s
  callerLoop p (s.next + 1) th.stack none s

/-- The thread waits for a reply: the top of its stack is a transaction that it sent. -/
def awaitsReply (a : ThreadId) (s : State) : Except Bug Bool := do
  let th ← getThread a s
  match th.stack with
  | none => .ok false
  | some top => do
      let x ← getTx top s
      .ok (decide (x.toThread ≠ some a))

/-- The end of an accepted `BC_TRANSACTION` that is not one-way. -/
def acceptSync (a : ThreadId) (th : Thread) (n : NodeId) (p : ProcId) (target : Option ThreadId)
    (s : State) : State :=
  let t := s.next
  let s := newTx
    { fromThread := some a, fromParent := th.stack, toThread := target, toParent := none, buffer := true,
      oneWay := false }
    (newBuffer p (some n) false) s
  let s := setThread a (some { th with stack := some t }) s
  let s := addTail (match target with | some z => .thread z | none => .proc p) (.transaction t) s
  addTail (.thread a) .transactionComplete s

/-- A `BC_TRANSACTION` that is not one-way, to a node of the process `p`. -/
def sendSync (a : ThreadId) (n : NodeId) (p : ProcId) (outcome : Option ReturnError) (s : State) :
    Except Bug (List Event × State) := do
  let th ← getThread a s
  let waits ← awaitsReply a s
  if waits then do
    let s ← transactionFailed a none .failedReply s
    .ok ([], s)
  else
    let target ← targetThread a p s
    match outcome with
    | some error => do
        let s ← transactionFailed a none error s
        .ok ([], s)
    | none => .ok ([.accepted s.next n false], acceptSync a th n p target s)

/-- The end of an accepted one-way `BC_TRANSACTION`. -/
def acceptOneWay (a : ThreadId) (n : NodeId) (p : ProcId) (s : State) : State :=
  let t := s.next
  let s := newTx
    { fromThread := none, fromParent := none, toThread := none, toParent := none, buffer := true,
      oneWay := true }
    (newBuffer p (some n) true) s
  let s :=
    if (s.node n).hasAsyncTransaction then addTail (.async n) (.transaction t) s
    else addTail (.proc p) (.transaction t) (setNode n { s.node n with hasAsyncTransaction := true } s)
  addTail (.thread a) .transactionComplete s

/-- A one-way `BC_TRANSACTION` to a node of the process `p`. -/
def sendOneWay (a : ThreadId) (n : NodeId) (p : ProcId) (outcome : Option ReturnError) (s : State) :
    Except Bug (List Event × State) :=
  match outcome with
  | some error => do
      let s ← transactionFailed a none error s
      .ok ([], s)
  | none => .ok ([.accepted s.next n true], acceptOneWay a n p s)

/-- `BC_TRANSACTION`. `outcome` is the value of `return_error` if one of the allocations, copies or
translations fails. -/
def bcTransaction (a : ThreadId) (target : Target) (oneWay : Bool) (outcome : Option ReturnError)
    (s : State) : Except Bug (List Event × State) :=
  match target with
  | .invalidHandle => do
      let s ← transactionFailed a none .failedReply s
      .ok ([], s)
  | .noContextManager => do
      let s ← transactionFailed a none .deadReply s
      .ok ([], s)
  | .node n =>
    match (s.node n).proc with
    | none => do
        let s ← transactionFailed a none .deadReply s
        .ok ([], s)
    | some p => if oneWay then sendOneWay a n p outcome s else sendSync a n p outcome s

/-- The transaction whose number is printed when a reply finds another one on the target's stack. -/
def peekStack (th : Thread) (s : State) : Except Bug (Option Tx) :=
  match th.stack with
  | none => .ok none
  | some u => do
      let x ← getTx u s
      .ok (some x)

/-- The end of an accepted `BC_REPLY` to the thread `f` of the process `p`. -/
def acceptReply (a f : ThreadId) (p : ProcId) (inReplyTo : Nat) (oneWay : Bool) (s : State) :
    Except Bug State := do
  let t := s.next
  let s := newTx
    { fromThread := none, fromParent := none, toThread := some f, toParent := none, buffer := true,
      oneWay := oneWay }
    (newBuffer p none false) s
  let s ← binderPopTransaction (some f) inReplyTo s
  .ok (addTail (.thread a) .transactionComplete (addTail (.thread f) (.transaction t) s))

/-- `BC_REPLY`. `oneWay` is the flag that the replying thread passes, which has no meaning here. -/
def bcReply (a : ThreadId) (oneWay : Bool) (outcome : Option ReturnError) (s : State) :
    Except Bug (List Event × State) := do
  let th ← getThread a s
  match th.stack with
  | none => do
      let s ← transactionFailed a none .failedReply s
      .ok ([], s)
  | some inReplyTo => do
      let x ← getTx inReplyTo s
      if x.toThread ≠ some a then do
        let s ← transactionFailed a none .failedReply s
        .ok ([], s)
      else
        let s := setThread a (some { th with stack := x.toParent }) s
        match x.fromThread with
        | none => do
            let s ← transactionFailed a (some inReplyTo) .deadReply s
            .ok ([], s)
        | some f => do
            let fth ← getThread f s
            if fth.stack ≠ some inReplyTo then do
              let _ ← peekStack fth s
              let s ← transactionFailed a none .failedReply s
              .ok ([], s)
            else
              match outcome with
              | some error => do
                  let s ← transactionFailed a (some inReplyTo) error s
                  .ok ([], s)
              | none => do
                  let s ← acceptReply a f fth.proc inReplyTo oneWay s
                  .ok ([], s)

/-- `buffer->transaction->buffer = NULL` for a buffer whose transaction is still there. -/
def detachTransaction (t : Nat) (b : Buffer) (s : State) : Except Bug State :=
  if b.transaction then do
    let x ← getTx t s
    .ok (setTx t (some { x with buffer := false }) s)
  else .ok s

/-- The next one-way transaction of the node moves to the thread that frees the buffer. -/
def nextAsync (a : ThreadId) (b : Buffer) (s : State) : Except Bug State :=
  match b.asyncTransaction, b.targetNode with
  | true, some n =>
    if (s.node n).hasAsyncTransaction = false then .error (.noAsyncTransaction n)
    else
      match s.todo (.async n) with
      | [] => .ok (setNode n { s.node n with hasAsyncTransaction := false } s)
      | w :: rest => .ok (addTail (.thread a) w (setTodo (.async n) rest s))
  | _, _ => .ok s

/-- `BC_FREE_BUFFER`. A buffer that is not one of the process's, or not yet delivered, is refused. -/
def bcFreeBuffer (a : ThreadId) (t : Nat) (s : State) : Except Bug (List Event × State) := do
  let th ← getThread a s
  match s.buffer t with
  | none => .ok ([], s)
  | some b =>
    if b.proc ≠ th.proc ∨ b.allowUserFree = false then .ok ([], s)
    else
      let s ← detachTransaction t b s
      let s ← nextAsync a b s
      .ok ([], setBuffer t none s)

/-- `binder_thread_read` up to where it sleeps or writes errors. `room` is in words; with `fault` only the first is
written. -/
def readBegin (a : ThreadId) (room : Nat) (fault : Bool) (s : State) : Except Bug (List Event × State) := do
  let th ← getThread a s
  if th.returnError ≠ .ok ∧ 0 < room then
    if th.returnError2 ≠ .ok then
      if room = 1 then .ok ([.error th.returnError2], s)
      else if fault then .ok ([.error th.returnError2], setThread a (some { th with returnError2 := .ok }) s)
      else .ok ([.error th.returnError2, .error th.returnError],
        setThread a (some { th with returnError := .ok, returnError2 := .ok }) s)
    else .ok ([.error th.returnError], setThread a (some { th with returnError := .ok }) s)
  else
    let wait := decide (th.stack = none ∧ s.todo (.thread a) = [])
    .ok ([], setThread a (some { th with waiting := some wait }) s)

/-- `t->from->proc->tsk`, where `t->from` is set. -/
def senderPid (x : Tx) (s : State) : Except Bug (Option ProcId) :=
  match x.fromThread with
  | none => .ok none
  | some f => do
      let th ← getThread f s
      .ok (some th.proc)

/-- `BINDER_WORK_TRANSACTION` taken from the front of the list at `p`. -/
def readTransaction (a : ThreadId) (p : Place) (rest : List Work) (t : Nat) (s : State) :
    Except Bug (List Event × State) := do
  let x ← getTx t s
  if x.buffer = false then .error (.nullBuffer t)
  else
    let b ← getBuffer t s
    let _ ← senderPid x s
    let s := setBuffer t (some { b with allowUserFree := true }) (setTodo p rest s)
    let th ← getThread a s
    match b.targetNode, x.oneWay with
    | some n, false =>
      let s := setTx t (some { x with toParent := th.stack, toThread := some a }) s
      .ok ([.transaction t n false], setThread a (some { th with stack := some t, waiting := none }) s)
    | target, _ => do
        let s ← clearBufferTransaction t x s
        let s := setTx t none s
        .ok (match target with | some n => [.transaction t n true] | none => [.reply t],
          setThread a (some { th with waiting := none }) s)

def readItem (a : ThreadId) (s : State) : Except Bug (List Event × State) := do
  let th ← getThread a s
  let p : Place := if s.todo (.thread a) = [] ∧ th.waiting = some true then .proc th.proc else .thread a
  match s.todo p with
  | [] => .ok ([], s)
  | .transactionComplete :: rest => .ok ([.transactionComplete], setTodo p rest s)
  | .transaction t :: rest => readTransaction a p rest t s

def readEnd (a : ThreadId) (s : State) : Except Bug (List Event × State) := do
  let th ← getThread a s
  .ok ([], setThread a (some { th with waiting := none }) s)

/-- The loop of `binder_free_thread` over the thread's transactions. -/
def detachLoop (a : ThreadId) : Nat → Option Nat → State → Except Bug State
  | _, none, s => .ok s
  | 0, some _, _ => .error .endless
  | fuel + 1, some t, s => do
      let x ← getTx t s
      if x.toThread = some a then do
        let s ← clearBufferTransaction t x s
        detachLoop a fuel x.toParent (setTx t (some { x with toThread := none, buffer := false }) s)
      else if x.fromThread = some a then
        detachLoop a fuel x.fromParent (setTx t (some { x with fromThread := none }) s)
      else .error (.freeThread t)

/-- The case `BINDER_WORK_TRANSACTION` of `binder_release_work`. -/
def releaseTransaction (t : Nat) (s : State) : Except Bug State := do
  let x ← getTx t s
  if x.buffer = false then .error (.nullBuffer t)
  else
    let b ← getBuffer t s
    if b.targetNode.isSome ∧ x.oneWay = false then binderSendFailedReply t .deadReply s else .ok s

/-- `binder_release_work` of the list at `p`. -/
def releaseWork (p : Place) : List Work → State → Except Bug State
  | [], s => .ok s
  | .transactionComplete :: rest, s => releaseWork p rest (setTodo p rest s)
  | .transaction t :: rest, s => do
      let s ← releaseTransaction t (setTodo p rest s)
      releaseWork p rest s

/-- `send_reply` of `binder_free_thread`: the transaction the thread works on, if any. -/
def currentTransaction (a : ThreadId) (s : State) : Except Bug (Option Nat) := do
  let th ← getThread a s
  match th.stack with
  | none => .ok none
  | some t => do
      let x ← getTx t s
      .ok (if x.toThread = some a then some t else none)

def replyDead (sendReply : Option Nat) (s : State) : Except Bug State :=
  match sendReply with
  | none => .ok s
  | some t => binderSendFailedReply t .deadReply s

def threadExit (a : ThreadId) (s : State) : Except Bug (List Event × State) := do
  let th ← getThread a s
  let sendReply ← currentTransaction a s
  let s ← detachLoop a (2 * s.next + 1) th.stack s
  let s ← replyDead sendReply s
  let s ← releaseWork (.thread a) (s.todo (.thread a)) s
  .ok ([], setThread a none s)

/-! ## The machine -/

inductive Op where
  /-- the first call of a thread, in `binder_get_thread` -/
  | newThread (a : ThreadId) (p : ProcId)
  | bcTransaction (a : ThreadId) (target : Target) (oneWay : Bool) (outcome : Option ReturnError)
  | bcReply (a : ThreadId) (oneWay : Bool) (outcome : Option ReturnError)
  | bcFreeBuffer (a : ThreadId) (t : Nat)
  | readBegin (a : ThreadId) (room : Nat) (fault : Bool)
  | readItem (a : ThreadId)
  | readEnd (a : ThreadId)
  | threadExit (a : ThreadId)
  deriving DecidableEq, Repr

def newThread (a : ThreadId) (p : ProcId) (s : State) : State :=
  setTodo (.thread a) []
    (setThread a
      (some { proc := p, stack := none, returnError := .ok, returnError2 := .ok, waiting := none }) s)

def exec (s : State) : Op → Except Bug (List Event × State)
  | .newThread a p => .ok ([], newThread a p s)
  | .bcTransaction a target oneWay outcome => bcTransaction a target oneWay outcome s
  | .bcReply a oneWay outcome => bcReply a oneWay outcome s
  | .bcFreeBuffer a t => bcFreeBuffer a t s
  | .readBegin a room fault => readBegin a room fault s
  | .readItem a => readItem a s
  | .readEnd a => readEnd a s
  | .threadExit a => threadExit a s

def Idle (s : State) (a : ThreadId) : Prop := ∃ th, s.thread a = some th ∧ th.waiting = none

def Reading (s : State) (a : ThreadId) : Prop := ∃ th, s.thread a = some th ∧ th.waiting ≠ none

/-- The thread can write commands: `binder_thread_write` stops at a pending error. -/
def Writing (s : State) (a : ThreadId) : Prop :=
  ∃ th, s.thread a = some th ∧ th.waiting = none ∧ th.returnError = .ok

instance {s : State} {a : ThreadId} : Decidable (Idle s a) :=
  match h : s.thread a with
  | none => .isFalse fun ⟨_, ht, _⟩ => by simp [h] at ht
  | some th => decidable_of_iff (th.waiting = none) (by simp [Idle, h])

instance {s : State} {a : ThreadId} : Decidable (Writing s a) :=
  match h : s.thread a with
  | none => .isFalse fun ⟨_, ht, _⟩ => by simp [h] at ht
  | some th => decidable_of_iff (th.waiting = none ∧ th.returnError = .ok) (by simp [Writing, h])

instance {s : State} {a : ThreadId} : Decidable (Reading s a) :=
  match h : s.thread a with
  | none => .isFalse fun ⟨_, ht, _⟩ => by simp [h] at ht
  | some th => decidable_of_iff (th.waiting ≠ none) (by simp [Reading, h])

def Op.Permitted (s : State) : Op → Prop
  | .newThread a _ => s.thread a = none
  | .bcTransaction a _ _ _ => Writing s a
  | .bcReply a _ _ => Writing s a
  | .bcFreeBuffer a _ => Writing s a
  | .readBegin a _ _ => Idle s a
  | .readItem a => Reading s a
  | .readEnd a => Reading s a
  | .threadExit a => Idle s a

instance {s : State} {op : Op} : Decidable (op.Permitted s) := by
  cases op <;> unfold Op.Permitted <;> infer_instance

def Initial (s : State) : Prop :=
  (∀ a, s.thread a = none) ∧ (∀ p, s.todo p = []) ∧ (∀ n, (s.node n).hasAsyncTransaction = false) ∧
    (∀ t, s.tx t = none) ∧ (∀ t, s.buffer t = none)

def machine : Lib.Machine State Op (List Event) Bug where
  init := Initial
  enabled s op := op.Permitted s
  exec := exec

instance {s : State} {op : Op} : Decidable (machine.enabled s op) :=
  inferInstanceAs (Decidable (op.Permitted s))

end G3Mod.Binder.Transaction
