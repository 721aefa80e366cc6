import Mathlib.Algebra.Ring.Nat
import Mathlib.Algebra.Ring.Int.Defs
import G3Mod.Lib.Machine

/-!
# The wake locks of `kernel/power/wakelock.c`

Locks are objects with an address (`LockId`); the inactive list and the active list of each type hold addresses. Times
are integers that do not wrap around, and `toLong` is the difference that the code gets from its 32-bit counters.
`CONFIG_WAKELOCK_STAT`, names and messages are left out.
-/

namespace G3Mod.WakeLock

abbrev LockId := Nat

def toLong (x : Int) : Int := x.bmod (2 ^ 32)

def longMax : Int := 2 ^ 31 - 1

def InLong (x : Int) : Prop := -2 ^ 31 ≤ x ∧ x < 2 ^ 31

instance {x : Int} : Decidable (InLong x) := inferInstanceAs (Decidable (_ ∧ _))

def suspend : Nat := 0

def idle : Nat := 1

def wakeLockTypeCount : Nat := 2

/-- `struct wake_lock`. The first three fields and `type` are the parts of `flags`. -/
structure Lock where
  initialized : Bool
  active : Bool
  autoExpire : Bool
  type : Nat
  expires : Int
  deriving DecidableEq, Repr

/-- `expireTimer` is its expiry while pending; `workQueued`: `suspend_work` was queued since a lock was last
activated. -/
structure State where
  lock : LockId → Lock
  inactiveLocks : List LockId
  activeWakeLocks : Nat → List LockId
  jiffies : Int
  expireTimer : Option Int
  workQueued : Bool

inductive Bug where
  /-- `BUG_ON(type >= WAKE_LOCK_TYPE_COUNT)` -/
  | type (type : Nat)
  /-- `BUG_ON(!(lock->flags & WAKE_LOCK_INITIALIZED))` -/
  | uninitialized (l : LockId)
  deriving DecidableEq, Repr

def setLock (l : LockId) (k : Lock) (s : State) : State := { s with lock := Function.update s.lock l k }

def listDel (l : LockId) (s : State) : State :=
  { s with
    inactiveLocks := s.inactiveLocks.erase l
    activeWakeLocks := fun type => (s.activeWakeLocks type).erase l }

def addInactive (l : LockId) (s : State) : State := { s with inactiveLocks := l :: s.inactiveLocks }

/-- A lock is put on the active list of its type, at the front (`list_add`) or at the end
(`list_add_tail`). -/
def addActive (type : Nat) (front : Bool) (l : LockId) (s : State) : State :=
  let locks := s.activeWakeLocks type
  { s with
    activeWakeLocks := Function.update s.activeWakeLocks type (if front then l :: locks else locks ++ [l])
    workQueued := s.workQueued && decide (type ≠ suspend) }

def queueSuspendWork (s : State) : State := { s with workQueued := true }

def modTimer (expires : Int) (s : State) : State := { s with expireTimer := some expires }

def delTimer (s : State) : State := { s with expireTimer := none }

/-- The lock as `expire_wake_lock` and `wake_unlock` leave it. -/
def Lock.release (k : Lock) : Lock := { k with active := false, autoExpire := false }

/-! ## Expiry -/

def timeLeft (l : LockId) (s : State) : Int := toLong ((s.lock l).expires - s.jiffies)

def expireWakeLock (l : LockId) (s : State) : State :=
  addInactive l (listDel l (setLock l (s.lock l).release s))

/-- The loop of `has_wake_lock_locked` over what is left of the list. -/
def hasWakeLockLoop : List LockId → Int → State → State × Int
  | [], maxTimeout, s => (s, maxTimeout)
  | l :: rest, maxTimeout, s =>
    if (s.lock l).autoExpire then
      if timeLeft l s ≤ 0 then hasWakeLockLoop rest maxTimeout (expireWakeLock l s)
      else if maxTimeout < timeLeft l s then hasWakeLockLoop rest (timeLeft l s) s
      else hasWakeLockLoop rest maxTimeout s
    else (s, -1)

def hasWakeLockLocked (type : Nat) (s : State) : Except Bug (State × Int) :=
  if wakeLockTypeCount ≤ type then .error (.type type)
  else .ok (hasWakeLockLoop (s.activeWakeLocks type) 0 s)

/-- The handler of `expire_timer`, which is no longer pending when it runs. -/
def expireWakeLocks (s : State) : Except Bug State := do
  let (s, hasLock) ← hasWakeLockLocked suspend { s with expireTimer := none }
  .ok (if hasLock = 0 then queueSuspendWork s else s)

/-- The timer is started, or stopped and the work queued: the common end of `wake_lock_internal` and
`wake_unlock`. -/
def aimTimer (expireIn : Int) (s : State) : State :=
  if 0 < expireIn then modTimer (s.jiffies + expireIn) s
  else if expireIn = 0 then queueSuspendWork (delTimer s)
  else delTimer s

/-- `type & WAKE_LOCK_TYPE_MASK`. -/
def maskType (type : Int) : Nat := (type % 16).toNat

def wakeLockInit (l : LockId) (type : Int) (s : State) : State :=
  addInactive l
    (setLock l { s.lock l with initialized := true, active := false, autoExpire := false, type := maskType type }
      s)

/-- The lock on the active list of its type, with its new expiry. -/
def activate (l : LockId) (timeout : Int) (hasTimeout : Bool) (s : State) : State :=
  let k := { s.lock l with active := true }
  let s := listDel l s
  if hasTimeout then
    addActive k.type false l (setLock l { k with expires := s.jiffies + timeout, autoExpire := true } s)
  else addActive k.type true l (setLock l { k with expires := longMax, autoExpire := false } s)

def wakeLockInternal (l : LockId) (timeout : Int) (hasTimeout : Bool) (s : State) : Except Bug State :=
  let type := (s.lock l).type
  if wakeLockTypeCount ≤ type then .error (.type type)
  else if (s.lock l).initialized = false then .error (.uninitialized l)
  else
    let s := activate l timeout hasTimeout s
    if type = suspend then
      if hasTimeout then do
        let (s, expireIn) ← hasWakeLockLocked type s
        .ok (aimTimer expireIn s)
      else .ok (aimTimer (-1) s)
    else .ok s

def wakeLock (l : LockId) (s : State) : Except Bug State := wakeLockInternal l 0 false s

def wakeLockTimeout (l : LockId) (timeout : Int) (s : State) : Except Bug State :=
  wakeLockInternal l timeout true s

def wakeUnlock (l : LockId) (s : State) : Except Bug State :=
  let type := (s.lock l).type
  let s := addInactive l (listDel l (setLock l (s.lock l).release s))
  if type = suspend then do
    let (s, hasLock) ← hasWakeLockLocked type s
    .ok (aimTimer hasLock s)
  else .ok s

/-! ## The machine -/

inductive Op where
  | wakeLockInit (l : LockId) (type : Int)
  | wakeLock (l : LockId)
  | wakeLockTimeout (l : LockId) (timeout : Int)
  | wakeUnlock (l : LockId)
  | hasWakeLock (type : Nat)
  | expireTimer
  | tick (d : Nat)
  deriving DecidableEq, Repr

def exec (s : State) : Op → Except Bug (Option Int × State)
  | .wakeLockInit l type => .ok (none, wakeLockInit l type s)
  | .wakeLock l => do
      let s ← wakeLock l s
      .ok (none, s)
  | .wakeLockTimeout l timeout => do
      let s ← wakeLockTimeout l timeout s
      .ok (none, s)
  | .wakeUnlock l => do
      let s ← wakeUnlock l s
      .ok (none, s)
  | .hasWakeLock type => do
      let (s, r) ← hasWakeLockLocked type s
      .ok (some r, s)
  | .expireTimer => do
      let s ← expireWakeLocks s
      .ok (none, s)
  | .tick d => .ok (none, { s with jiffies := s.jiffies + d })

def TimerDue (s : State) : Prop := ∃ e, s.expireTimer = some e ∧ e ≤ s.jiffies

instance {s : State} : Decidable (TimerDue s) :=
  match h : s.expireTimer with
  | none => .isFalse fun ⟨_, he, _⟩ => by simp [h] at he
  | some e => decidable_of_iff (e ≤ s.jiffies) (by simp [TimerDue, h])

/-- A lock is initialised once, and only initialised locks are unlocked. -/
def Op.Permitted (s : State) : Op → Prop
  | .wakeLockInit l _ => (s.lock l).initialized = false
  | .wakeLockTimeout _ timeout => InLong timeout
  | .wakeUnlock l => (s.lock l).initialized = true
  | .expireTimer => TimerDue s
  | _ => True

instance {s : State} {op : Op} : Decidable (op.Permitted s) := by
  cases op <;> unfold Op.Permitted <;> infer_instance

def emptyState (jiffies : Int) : State where
  lock _ := ⟨false, false, false, 0, 0⟩
  inactiveLocks := []
  activeWakeLocks _ := []
  jiffies := jiffies
  expireTimer := none
  workQueued := false

/-- The addresses of `deleted_wake_locks`, `main_wake_lock` and `unknown_wakeup`. -/
def deletedWakeLocks : LockId := 0

def mainWakeLock : LockId := 1

def unknownWakeup : LockId := 2

def wakelocksInit (s : State) : Except Bug State := do
  let s := wakeLockInit mainWakeLock suspend (wakeLockInit deletedWakeLocks suspend s)
  let s ← wakeLock mainWakeLock s
  .ok (wakeLockInit unknownWakeup suspend s)

def machine : Lib.Machine State Op (Option Int) Bug where
  init s := ∃ jiffies, wakelocksInit (emptyState jiffies) = .ok s
  enabled s op := op.Permitted s
  exec := exec

instance {s : State} {op : Op} : Decidable (machine.enabled s op) :=
  inferInstanceAs (Decidable (op.Permitted s))

end G3Mod.WakeLock
