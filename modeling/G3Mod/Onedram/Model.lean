import G3Mod.Lib.Machine

/-!
# Authority over the shared memory: `onedram.c` and its caller `sipc4.c`

The semaphore register reads 1 while the shared memory belongs to this processor. `get_auth` counts its clients in
`ref_sem`; `put_auth`, `rel_sem` and `_put_auth` of `sipc4.c` write 0 to the register when the last client has left.
A context is a kernel thread or the mailbox interrupt; it stops before every atomic operation and every access of the
register and of `od_rel`. The wait of `_get_auth` may end at any time.
-/

namespace G3Mod.Onedram

inductive Command where
  | reqSem
  | resSem
  deriving DecidableEq, Repr

/-- The register, `ref_sem`, bit 0 of `flags`, `od_rel` and the last command to the modem. -/
structure Shared where
  sem : Bool
  refSem : Int
  flag : Bool
  odRel : Bool
  mailbox : Option Command
  deriving DecidableEq, Repr

/-- Who called `get_auth`: a client, or `_check_buffer` in the interrupt handler. -/
inductive Caller where
  | client
  | handler (reqSem : Bool)
  deriving DecidableEq, Repr

/-- What follows `put_auth`: its caller, or the rest of `_put_auth` of `sipc4.c`. -/
inductive AfterPut where
  | done
  | sipc (c : Caller)
  deriving DecidableEq, Repr

/-- What follows `rel_sem`: the ioctl returns, the rest of `_put_auth`, or the rest of `_do_command`. -/
inductive AfterRel where
  | ioctl
  | sipc (c : Caller)
  | reqSem
  deriving DecidableEq, Repr

inductive Pc where
  | idle
  | getInc (cmd : Bool) (c : Caller)
  | getRead (cmd : Bool) (c : Caller)
  | getSend (retry : Nat) (c : Caller)
  | getReread (retry : Nat) (c : Caller)
  | getDec (c : Caller)
  | holding (c : Caller)
  | putFlag (release : Bool) (after : AfterPut)
  | putDec (after : AfterPut)
  | putTest (after : AfterPut)
  | putWrite (after : AfterPut)
  | readOdRel (c : Caller)
  | relRead (after : AfterRel)
  | relClear (after : AfterRel)
  | relWrite (after : AfterRel)
  | sendRes (after : AfterRel)
  | clearOdRel (c : Caller)
  | setOdRel
  deriving DecidableEq, Repr

def Caller.next : Caller → Pc
  | .client => .idle
  | .handler reqSem => if reqSem then .relRead .reqSem else .idle

def AfterPut.next : AfterPut → Pc
  | .done => .idle
  | .sipc c => .readOdRel c

def AfterRel.busy : AfterRel → Pc
  | .ioctl => .idle
  | .sipc c => c.next
  | .reqSem => .setOdRel

def AfterRel.released : AfterRel → Pc
  | .ioctl => .idle
  | .sipc c => .sendRes (.sipc c)
  | .reqSem => .sendRes .reqSem

def AfterRel.sent : AfterRel → Pc
  | .ioctl => .idle
  | .sipc c => .clearOdRel c
  | .reqSem => .idle

def step (sh : Shared) : Pc → Pc × Shared
  | .idle => (.idle, sh)
  -- `get_auth` and `_get_auth`
  | .getInc cmd c => (.getRead cmd c, { sh with refSem := sh.refSem + 1 })
  | .getRead cmd c =>
    if sh.sem then (.holding c, sh)
    else if cmd then (.getSend 0 c, sh)
    else (.getDec c, sh)
  | .getSend retry c => (.getReread retry c, { sh with mailbox := some .reqSem })
  | .getReread retry c =>
    if sh.sem then (.holding c, sh)
    else if retry + 1 > 50 then (.getDec c, sh)
    else (.getSend (retry + 1) c, sh)
  | .getDec c => (c.next, { sh with refSem := sh.refSem - 1 })
  -- the interrupt handler has looked at the buffers; a client decides by itself when to go on
  | .holding c =>
    match c with
    | .client => (.holding c, sh)
    | .handler _ => (.putFlag false (.sipc c), sh)
  -- `put_auth`
  | .putFlag release after => (.putDec after, { sh with flag := sh.flag || release })
  | .putDec after =>
    let sh := { sh with refSem := sh.refSem - 1 }
    if sh.refSem = 0 then (.putTest after, sh) else (after.next, sh)
  | .putTest after => if sh.flag then (.putWrite after, { sh with flag := false }) else (after.next, sh)
  | .putWrite after => (after.next, { sh with sem := false })
  -- `_put_auth` of `sipc4.c`
  | .readOdRel c => if sh.odRel then (.relRead (.sipc c), sh) else (c.next, sh)
  -- `rel_sem`
  | .relRead after => if sh.refSem ≠ 0 then (after.busy, sh) else (.relClear after, sh)
  | .relClear after => (.relWrite after, { sh with flag := false })
  | .relWrite after => (after.released, { sh with sem := false })
  | .sendRes after => (after.sent, { sh with mailbox := some .resSem })
  | .clearOdRel c => (c.next, { sh with odRel := false })
  -- `_req_rel_auth`
  | .setOdRel => (.idle, { sh with odRel := true })

structure State where
  shared : Shared
  contexts : List Pc
  deriving DecidableEq, Repr

def goto (t : Nat) (r : Pc × Shared) (s : State) : State := ⟨r.2, s.contexts.set t r.1⟩

/-- Calls of context `t`, steps of its call in progress, and the modem, which gives the memory back. -/
inductive Op where
  | getAuth (t : Nat) (cmd : Bool)
  | putAuth (t : Nat) (release : Bool)
  | sipcPutAuth (t : Nat)
  | relSem (t : Nat)
  | sipcHandler (t : Nat) (reqSem : Bool)
  | step (t : Nat)
  | modemGive
  deriving DecidableEq, Repr

def exec (s : State) : Op → Except Empty (Unit × State)
  | .getAuth t cmd => .ok ((), goto t (.getInc cmd .client, s.shared) s)
  | .putAuth t release => .ok ((), goto t (.putFlag release .done, s.shared) s)
  | .sipcPutAuth t => .ok ((), goto t (.putFlag false (.sipc .client), s.shared) s)
  | .relSem t => .ok ((), goto t (.relRead .ioctl, s.shared) s)
  | .sipcHandler t reqSem => .ok ((), goto t (.getInc false (.handler reqSem), s.shared) s)
  | .step t =>
    match s.contexts[t]? with
    | none => .ok ((), s)
    | some pc => .ok ((), goto t (step s.shared pc) s)
  | .modemGive => .ok ((), { s with shared := { s.shared with sem := true } })

/-- Calls are paired: only a context with authority gives it up. The modem writes the register only while it has the
memory. -/
def Op.Permitted (s : State) : Op → Prop
  | .getAuth t _ | .relSem t | .sipcHandler t _ => s.contexts[t]? = some .idle
  | .putAuth t _ | .sipcPutAuth t => s.contexts[t]? = some (.holding .client)
  | .step _ => True
  | .modemGive => s.shared.sem = false

instance (s : State) : (op : Op) → Decidable (op.Permitted s)
  | .getAuth t _ | .relSem t | .sipcHandler t _ => inferInstanceAs (Decidable (s.contexts[t]? = some .idle))
  | .putAuth t _ | .sipcPutAuth t => inferInstanceAs (Decidable (s.contexts[t]? = some (.holding .client)))
  | .step _ => .isTrue trivial
  | .modemGive => inferInstanceAs (Decidable (s.shared.sem = false))

def machine : Lib.Machine State Op Unit Empty where
  init s := s.shared.refSem = 0 ∧ ∀ pc ∈ s.contexts, pc = .idle
  enabled s op := op.Permitted s
  exec := exec

instance (s : State) (op : Op) : Decidable (machine.enabled s op) := inferInstanceAs (Decidable (op.Permitted s))

def Pc.Holds (pc : Pc) : Prop := ∃ c, pc = .holding c

def Exclusive (s : State) : Prop := (∃ pc ∈ s.contexts, pc.Holds) → s.shared.sem = true

end G3Mod.Onedram
