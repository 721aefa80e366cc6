import G3Mod.Lib.Machine

/-!
# Early suspend

`kernel/power/earlysuspend.c`: requests to sleep and to wake up, the two works that they queue, and the handlers that
these call. One thread runs the works; it takes `early_suspend_lock` around the calls, as registration does. Sections
under `state_lock` are one step.
-/

namespace G3Mod.EarlySuspend

open Lib

/-- `struct early_suspend`; a callback that is `NULL` is never called. -/
structure Handler where
  addr : Nat
  level : Int
  suspend : Bool
  resume : Bool
  deriving DecidableEq, Repr

structure Flags where
  suspendRequested : Bool
  suspended : Bool
  deriving DecidableEq, Repr

inductive Work where
  | earlySuspend
  | lateResume
  deriving DecidableEq, Repr

/-- Where the thread of the work queue is; the loops have the handlers still to be called. -/
inductive Worker where
  | idle
  | earlyLock
  | earlyCheck
  | earlyCalls (rest : List Handler)
  | earlyUnlock
  | earlySync
  | earlyAbort
  | lateLock
  | lateCheck
  | lateCalls (rest : List Handler)
  | lateAbort
  deriving DecidableEq, Repr

/-- Who has `early_suspend_lock`. -/
inductive Mutex where
  | free
  | worker
  | registering (h : Handler)
  | registered (h : Handler)
  deriving DecidableEq, Repr

abbrev SuspendState := Nat

def pmSuspendOn : SuspendState := 0

structure State where
  flags : Flags
  requestedSuspendState : SuspendState
  handlers : List Handler
  mainWakeLock : Bool
  queue : List Work
  worker : Worker
  mutex : Mutex
  deriving DecidableEq, Repr

/-- What happens to the handlers. -/
inductive Event where
  | registered (h : Handler)
  | unregistered (h : Handler)
  | pass (w : Work) (hs : List Handler)
  | suspend (h : Handler)
  | resume (h : Handler)
  | registerSuspend (h : Handler)
  deriving DecidableEq, Repr

def queueWork (w : Work) (s : State) : State :=
  if w ∈ s.queue then s else { s with queue := s.queue ++ [w] }

def requestSuspendState (newState : SuspendState) (s : State) : State :=
  let s' :=
    if !s.flags.suspendRequested ∧ newState ≠ pmSuspendOn then
      queueWork .earlySuspend { s with flags.suspendRequested := true }
    else if s.flags.suspendRequested ∧ newState = pmSuspendOn then
      queueWork .lateResume { s with flags.suspendRequested := false, mainWakeLock := true }
    else s
  { s' with requestedSuspendState := newState }

def getSuspendState (s : State) : SuspendState := s.requestedSuspendState

/-- The loop of `register_early_suspend`, and `list_add_tail` at the place that it finds. -/
def insertHandler (h : Handler) : List Handler → List Handler
  | [] => [h]
  | e :: es => if e.level > h.level then h :: e :: es else e :: insertHandler h es

/-- `register_early_suspend` up to the test of `state`. -/
def registerLock (h : Handler) (s : State) : List Event × State :=
  ([.registered h], { s with handlers := insertHandler h s.handlers, mutex := .registering h })

/-- The test of `state` in `register_early_suspend`, and the call. -/
def registerTest (h : Handler) (s : State) : List Event × State :=
  (if s.flags.suspended ∧ h.suspend then [.registerSuspend h] else [], { s with mutex := .registered h })

def unregisterEarlySuspend (h : Handler) (s : State) : List Event × State :=
  ([.unregistered h], { s with handlers := s.handlers.erase h })

def work (s : State) : List Event × State :=
  match s.worker with
  | .idle =>
    match s.queue with
    | [] => ([], s)
    | .earlySuspend :: ws => ([], { s with queue := ws, worker := .earlyLock })
    | .lateResume :: ws => ([], { s with queue := ws, worker := .lateLock })
  | .earlyLock => ([], { s with mutex := .worker, worker := .earlyCheck })
  | .earlyCheck =>
    if s.flags = ⟨true, false⟩ then
      ([.pass .earlySuspend s.handlers], { s with flags.suspended := true, worker := .earlyCalls s.handlers })
    else ([], { s with worker := .earlyUnlock })
  | .earlyCalls (h :: rest) =>
    (if h.suspend then [.suspend h] else [], { s with worker := .earlyCalls rest })
  | .earlyCalls [] => ([], { s with mutex := .free, worker := .earlySync })
  | .earlyUnlock => ([], { s with mutex := .free, worker := .earlyAbort })
  | .earlySync => ([], { s with worker := .earlyAbort })
  | .earlyAbort =>
    ([], { s with mainWakeLock := if s.flags = ⟨true, true⟩ then false else s.mainWakeLock, worker := .idle })
  | .lateLock => ([], { s with mutex := .worker, worker := .lateCheck })
  | .lateCheck =>
    if s.flags = ⟨false, true⟩ then
      ([.pass .lateResume s.handlers],
        { s with flags.suspended := false, worker := .lateCalls s.handlers.reverse })
    else ([], { s with worker := .lateAbort })
  | .lateCalls (h :: rest) =>
    (if h.resume then [.resume h] else [], { s with worker := .lateCalls rest })
  | .lateCalls [] => ([], { s with worker := .lateAbort })
  | .lateAbort => ([], { s with mutex := .free, worker := .idle })

inductive Op where
  | request (newState : SuspendState)
  | registerLock (h : Handler)
  | registerTest (h : Handler)
  | registerUnlock (h : Handler)
  | unregister (h : Handler)
  | work
  deriving DecidableEq, Repr

/-- The thread has something to do, and does not wait for the lock. -/
def Worker.Ready (s : State) : Worker → Prop
  | .idle => s.queue ≠ []
  | .earlyLock | .lateLock => s.mutex = .free
  | _ => True

instance {s : State} : ∀ w : Worker, Decidable (w.Ready s)
  | .idle => inferInstanceAs (Decidable (s.queue ≠ []))
  | .earlyLock | .lateLock => inferInstanceAs (Decidable (s.mutex = .free))
  | .earlyCheck | .earlyCalls _ | .earlyUnlock | .earlySync | .earlyAbort | .lateCheck | .lateCalls _ | .lateAbort =>
    isTrue trivial

/-- A handler is registered once at a time, and unregistered only when it is registered. -/
def Op.Permitted (s : State) : Op → Prop
  | .request _ => True
  | .registerLock h => s.mutex = .free ∧ h ∉ s.handlers
  | .registerTest h => s.mutex = .registering h
  | .registerUnlock h => s.mutex = .registered h
  | .unregister h => s.mutex = .free ∧ h ∈ s.handlers
  | .work => s.worker.Ready s

instance {s : State} : ∀ op : Op, Decidable (op.Permitted s)
  | .request _ => isTrue trivial
  | .registerLock h => inferInstanceAs (Decidable (s.mutex = .free ∧ h ∉ s.handlers))
  | .registerTest h => inferInstanceAs (Decidable (s.mutex = .registering h))
  | .registerUnlock h => inferInstanceAs (Decidable (s.mutex = .registered h))
  | .unregister h => inferInstanceAs (Decidable (s.mutex = .free ∧ h ∈ s.handlers))
  | .work => inferInstanceAs (Decidable (s.worker.Ready s))

def step (s : State) : Op → List Event × State
  | .request newState => ([], requestSuspendState newState s)
  | .registerLock h => EarlySuspend.registerLock h s
  | .registerTest h => EarlySuspend.registerTest h s
  | .registerUnlock _ => ([], { s with mutex := .free })
  | .unregister h => unregisterEarlySuspend h s
  | .work => EarlySuspend.work s

def initial : State := ⟨⟨false, false⟩, pmSuspendOn, [], true, [], .idle, .free⟩

def machine : Machine State Op (List Event) Empty where
  init s := s = initial
  enabled s op := op.Permitted s
  exec s op := .ok (step s op)

instance {s : State} {op : Op} : Decidable (machine.enabled s op) := inferInstanceAs (Decidable (op.Permitted s))

end G3Mod.EarlySuspend
