import G3Mod.Lib.Machine
import G3Mod.Rbtree.Model

/-!
# Android alarms

`drivers/rtc/alarm.c`. Each section under `alarm_slock` and each call outside of it is one step; the clocks advance in
steps of their own. Times are in nanoseconds and do not overflow.
-/

namespace G3Mod.Alarm

open Lib Rbtree

inductive AlarmType where
  | rtcWakeup
  | rtc
  | elapsedRealtimeWakeup
  | elapsedRealtime
  | systemtime
  deriving DecidableEq, Repr

def AlarmType.code : AlarmType → Nat
  | .rtcWakeup => 0
  | .rtc => 1
  | .elapsedRealtimeWakeup => 2
  | .elapsedRealtime => 3
  | .systemtime => 4

def AlarmType.ofCode : Nat → Option AlarmType
  | 0 => some .rtcWakeup
  | 1 => some .rtc
  | 2 => some .elapsedRealtimeWakeup
  | 3 => some .elapsedRealtime
  | 4 => some .systemtime
  | _ => none

def elapsedRealtimeWakeupMask : Nat := 1 <<< AlarmType.elapsedRealtimeWakeup.code

/-- The queues below `ANDROID_ALARM_SYSTEMTIME`, in the order of the loops over them. -/
def realtimeTypes : List AlarmType := [.rtcWakeup, .rtc, .elapsedRealtimeWakeup, .elapsedRealtime]

def AlarmType.isWakeup : AlarmType → Bool
  | .rtcWakeup | .elapsedRealtimeWakeup => true
  | .rtc | .elapsedRealtime | .systemtime => false

abbrev AlarmId := Nat

/-- `struct alarm`; `queued` is `!RB_EMPTY_NODE(&alarm->node)`. -/
structure Alarm where
  type : AlarmType
  softexpires : Int
  expires : Int
  queued : Bool
  deriving DecidableEq, Repr

/-- `struct hrtimer`: whether it is armed, and for when. -/
structure Timer where
  active : Bool
  expires : Int
  softexpires : Int
  deriving DecidableEq, Repr

structure Queue where
  alarms : RbTree AlarmId
  first : Option AlarmId
  timer : Timer
  delta : Int
  stopped : Bool
  stoppedTime : Int
  deriving DecidableEq, Repr

/-- Where `alarm_timer_triggered` of a queue is. -/
inductive Trigger where
  | idle
  | entered
  | calling (now : Int)
  deriving DecidableEq, Repr

/-- `alarm_rtc_wake_lock`; the timeout is in units of `HZ`. -/
inductive WakeLock where
  | released
  | held
  | timeout (hz : Nat)
  deriving DecidableEq, Repr

/-- Where `alarm_set_rtc` is: the queues are stopped, the time is set or could not be set, they run again. -/
inductive SetRtc where
  | idle
  | stopped (newTime : Int)
  | set (newTime : Int) (ok : Bool)
  | restarted (ok : Bool)
  deriving DecidableEq, Repr

inductive Suspend where
  | idle
  | cancelWakeup
  | cancelMask
  | choose
  | busy
  deriving DecidableEq, Repr

/-- `wall` and `mono` are `CLOCK_REALTIME` and `CLOCK_MONOTONIC`; `real` is the time itself. -/
structure State where
  alarm : AlarmId → Alarm
  queue : AlarmType → Queue
  trigger : AlarmType → Trigger
  suspended : Bool
  wakeLock : WakeLock
  rtcDev : Bool
  rtcAlarm : Option Int
  setRtc : SetRtc
  suspend : Suspend
  wall : Int
  mono : Int
  real : Int

inductive Event where
  | started (a : AlarmId)
  | cancelled (a : AlarmId)
  /-- The alarm's function is called; the queue's time is what `alarm_timer_triggered` found when it began. -/
  | called (a : AlarmId) (softexpires now : Int)
  | cancelReturns (ret : Int)
  | setRtcReturns (ok : Bool)
  | suspendReturns (ok : Bool)
  | elapsedRealtime (t : Int)
  deriving DecidableEq, Repr

/-- A null pointer in a tree, or an index outside of `alarms`. -/
inductive Fault where
  | tree
  | index (i : Nat)
  deriving DecidableEq, Repr

def ofTree {α : Type} : Option α → Except Fault α
  | none => .error .tree
  | some t => .ok t

namespace State

def setQueue (s : State) (q : AlarmType) (base : Queue) : State := { s with queue := Function.update s.queue q base }

def setTimer (s : State) (q : AlarmType) (timer : Timer) : State := s.setQueue q { s.queue q with timer := timer }

def setAlarm (s : State) (a : AlarmId) (alarm : Alarm) : State := { s with alarm := Function.update s.alarm a alarm }

def setTrigger (s : State) (q : AlarmType) (t : Trigger) : State := { s with trigger := Function.update s.trigger q t }

def clock (s : State) : AlarmType → Int
  | .systemtime => s.mono
  | _ => s.wall

def now (s : State) (q : AlarmType) : Int :=
  (if (s.queue q).stopped then (s.queue q).stoppedTime else s.clock q) - (s.queue q).delta

/-- `hrtimer_try_to_cancel`: nothing, while the callback is running. -/
def tryToCancelTimer (s : State) (q : AlarmType) : State :=
  if s.trigger q = .idle then s.setTimer q { (s.queue q).timer with active := false } else s

end State

/-! ## The queues -/

def updateTimerLocked (q : AlarmType) (headRemoved : Bool) (s : State) : State :=
  let base := s.queue q
  if base.stopped then s
  else
    let s := if q.isWakeup && !s.suspended && headRemoved then { s with wakeLock := .released } else s
    match base.first with
    | none => s
    | some a =>
      if q.isWakeup && s.suspended then { s with wakeLock := .timeout 1 }
      else s.setTimer q ⟨true, base.delta + (s.alarm a).expires, base.delta + (s.alarm a).softexpires⟩

/-- One turn of the descent of `alarm_enqueue_locked`. -/
def enqueueSide (s : State) (a entry : AlarmId) : Except Fault Side :=
  .ok (if (s.alarm a).expires < (s.alarm entry).expires then .left else .right)

def eraseQueued (a : AlarmId) (s : State) : Except Fault (RbTree AlarmId) :=
  if (s.alarm a).queued then ofTree (rbErase a (s.queue (s.alarm a).type).alarms)
  else .ok (s.queue (s.alarm a).type).alarms

/-- `base->first` when an alarm is about to leave the tree. -/
def firstWithout (q : AlarmType) (a : AlarmId) (s : State) : Option AlarmId :=
  if (s.queue q).first = some a then rbNext a (s.queue q).alarms else (s.queue q).first

def alarmEnqueueLocked (a : AlarmId) (s : State) : Except Fault State := do
  let q := (s.alarm a).type
  let tree ← eraseQueued a s
  let path ← descend (enqueueSide s a) tree []
  let leftmost := path.all fun f => f.side = .left
  let s :=
    if leftmost then updateTimerLocked q false (s.setQueue q { s.queue q with alarms := tree, first := some a })
    else s.setQueue q { s.queue q with alarms := tree, first := firstWithout q a s }
  let tree ← ofTree (rbInsert path a)
  .ok ((s.setQueue q { s.queue q with alarms := tree }).setAlarm a { s.alarm a with queued := true })

def alarmInit (a : AlarmId) (type : AlarmType) (s : State) : State :=
  s.setAlarm a { s.alarm a with type := type, queued := false }

def alarmStartRange (a : AlarmId) (start stop : Int) (s : State) : Except Fault State :=
  alarmEnqueueLocked a (s.setAlarm a { s.alarm a with softexpires := start, expires := stop })

def removeAlarm (q : AlarmType) (a : AlarmId) (s : State) : Except Fault State := do
  let tree ← ofTree (rbErase a (s.queue q).alarms)
  .ok ((s.setQueue q { s.queue q with alarms := tree, first := firstWithout q a s }).setAlarm a
    { s.alarm a with queued := false })

def alarmTryToCancel (a : AlarmId) (s : State) : Except Fault (Int × State) :=
  let q := (s.alarm a).type
  if (s.alarm a).queued then do
    let s' ← removeAlarm q a s
    .ok (1, if (s.queue q).first = some a then updateTimerLocked q true s' else s')
  else .ok (if s.trigger q = .idle then 0 else -1, s)

/-! ## Setting the time -/

def stopQueue (s : State) (q : AlarmType) : State :=
  let s := s.tryToCancelTimer q
  s.setQueue q { s.queue q with stopped := true, stoppedTime := s.wall }

/-- `alarm_set_rtc` up to `do_settimeofday`. -/
def setRtcStop (newTime : Int) (s : State) : State :=
  let s := realtimeTypes.foldl stopQueue { s with wakeLock := .held }
  let delta := (s.queue .elapsedRealtime).delta - (s.wall - newTime)
  let s := s.setQueue .elapsedRealtime { s.queue .elapsedRealtime with delta := delta }
  let s := s.setQueue .elapsedRealtimeWakeup { s.queue .elapsedRealtimeWakeup with delta := delta }
  { s with setRtc := .stopped newTime }

def setRtcSettime (newTime : Int) (ok : Bool) (s : State) : State :=
  { s with wall := if ok then newTime else s.wall, setRtc := .set newTime ok }

def restartQueue (s : State) (q : AlarmType) : State :=
  updateTimerLocked q false (s.setQueue q { s.queue q with stopped := false })

def setRtcRestart (ok : Bool) (s : State) : State :=
  { realtimeTypes.foldl restartQueue s with setRtc := .restarted ok }

/-- The end of `alarm_set_rtc`; `rtcOk` is the result of `rtc_set_time`. A missing RTC is no error. -/
def setRtcEnd (ok rtcOk : Bool) (s : State) : List Event × State :=
  ([.setRtcReturns (ok && (!s.rtcDev || rtcOk))], { s with wakeLock := .released, setRtc := .idle })

def alarmGetElapsedRealtime (s : State) : Int := s.now .elapsedRealtime

def fire (q : AlarmType) (s : State) : State :=
  (s.setTimer q { (s.queue q).timer with active := false }).setTrigger q .entered

/-- The loop of `alarm_timer_triggered` up to the next call, or its end. -/
def triggerLoop (q : AlarmType) (now : Int) (s : State) : Except Fault (List Event × State) :=
  match (s.queue q).first with
  | none => .ok ([], (updateTimerLocked q true s).setTrigger q .idle)
  | some a =>
    if (s.alarm a).softexpires > now then .ok ([], (updateTimerLocked q true s).setTrigger q .idle)
    else do
      let s' ← removeAlarm q a s
      .ok ([.called a (s.alarm a).softexpires now], s'.setTrigger q (.calling now))

/-! ## Suspend and resume -/

/-- `hrtimer_cancel`, when the callback is not running. -/
def cancelTimer (q : AlarmType) (s : State) : State := s.setTimer q { (s.queue q).timer with active := false }

def wakeupQueue (s : State) : Option AlarmType :=
  let wakeup := if (s.queue .rtcWakeup).first.isSome then some AlarmType.rtcWakeup else none
  if (s.queue .elapsedRealtimeWakeup).first.isSome &&
      (wakeup.all fun w => (s.queue .elapsedRealtimeWakeup).timer.expires < (s.queue w).timer.expires) then
    some .elapsedRealtimeWakeup
  else wakeup

def nsecPerSec : Int := 1000000000

/-- `rtc_alarm_time`, the RTC reading `rtcTime` seconds. -/
def rtcAlarmTime (w : AlarmType) (rtcTime : Int) (s : State) : Int :=
  ((s.queue w).timer.expires - (s.wall - rtcTime * nsecPerSec)) / nsecPerSec

def toULong (x : Int) : Int := x % 4294967296

/-- The rest of `alarm_suspend`, which reads the RTC twice. -/
def suspendChoose (rtcTime rtcTime' : Int) (s : State) : List Event × State :=
  match wakeupQueue s with
  | none => ([.suspendReturns true], { s with suspend := .idle })
  | some w =>
    let alarmTime := toULong (rtcAlarmTime w rtcTime s)
    if toULong (rtcTime' + 1) ≥ alarmTime then ([], { s with rtcAlarm := none, suspend := .busy })
    else ([.suspendReturns true], { s with rtcAlarm := some alarmTime, suspend := .idle })

def wakeUp (s : State) : State :=
  updateTimerLocked .elapsedRealtimeWakeup false (updateTimerLocked .rtcWakeup false { s with suspended := false })

/-- The section at the end of `alarm_suspend`: it returns `-EBUSY`. -/
def suspendBusy (s : State) : List Event × State :=
  ([.suspendReturns false], { wakeUp { s with wakeLock := .timeout 2 } with suspend := .idle })

def alarmResume (s : State) : State := wakeUp { s with rtcAlarm := none }

inductive Op where
  | init (a : AlarmId) (type : AlarmType)
  | startRange (a : AlarmId) (start stop : Int)
  | tryToCancel (a : AlarmId)
  | setRtcStop (newTime : Int)
  | setRtcSettime (ok : Bool)
  | setRtcRestart
  | setRtcEnd (rtcOk : Bool)
  | getElapsedRealtime
  | fire (q : AlarmType)
  | triggerEnter (q : AlarmType)
  | triggerReturn (q : AlarmType)
  | suspendBegin
  | suspendCancelWakeup
  | suspendCancelMask
  | suspendChoose (rtcTime rtcTime' : Int)
  | suspendBusy
  | resume
  | rtcInterrupt
  | tick (ns : Nat)
  | sleep (ns : Nat)
  deriving DecidableEq, Repr

/-- What callers keep to, and what runs one after the other: `alarm_set_rtc`, suspend and resume. -/
def Op.Permitted (s : State) : Op → Prop
  | .init a _ => (s.alarm a).queued = false
  | .setRtcStop _ => s.setRtc = .idle
  | .setRtcSettime _ => ∃ n, s.setRtc = .stopped n
  | .setRtcRestart => ∃ n ok, s.setRtc = .set n ok
  | .setRtcEnd _ => ∃ ok, s.setRtc = .restarted ok
  | .fire q => (s.queue q).timer.active = true ∧ (s.queue q).timer.softexpires ≤ s.clock q ∧ s.trigger q = .idle
  | .triggerEnter q => s.trigger q = .entered
  | .triggerReturn q => ∃ n, s.trigger q = .calling n
  | .suspendBegin | .resume => s.suspend = .idle
  | .suspendCancelWakeup => s.suspend = .cancelWakeup ∧ s.trigger .rtcWakeup = .idle
  | .suspendCancelMask => s.suspend = .cancelMask ∧
      ∀ q, AlarmType.ofCode elapsedRealtimeWakeupMask = some q → s.trigger q = .idle
  | .suspendChoose _ _ => s.suspend = .choose
  | .suspendBusy => s.suspend = .busy
  | .sleep _ => s.suspended = true
  | .startRange _ _ _ | .tryToCancel _ | .getElapsedRealtime | .rtcInterrupt | .tick _ => True

def exec (s : State) : Op → Except Fault (List Event × State)
  | .init a type => .ok ([], alarmInit a type s)
  | .startRange a start stop => do
      let s' ← alarmStartRange a start stop s
      .ok ([.started a], s')
  | .tryToCancel a => do
      let (ret, s') ← alarmTryToCancel a s
      .ok ((if ret = 1 then [.cancelled a] else []) ++ [.cancelReturns ret], s')
  | .setRtcStop newTime => .ok ([], setRtcStop newTime s)
  | .setRtcSettime ok =>
    match s.setRtc with
    | .stopped n => .ok ([], setRtcSettime n ok s)
    | _ => .ok ([], s)
  | .setRtcRestart =>
    match s.setRtc with
    | .set _ ok => .ok ([], setRtcRestart ok s)
    | _ => .ok ([], s)
  | .setRtcEnd rtcOk =>
    match s.setRtc with
    | .restarted ok => .ok (setRtcEnd ok rtcOk s)
    | _ => .ok ([], s)
  | .getElapsedRealtime => .ok ([.elapsedRealtime (alarmGetElapsedRealtime s)], s)
  | .fire q => .ok ([], fire q s)
  | .triggerEnter q => triggerLoop q (s.now q) s
  | .triggerReturn q =>
    match s.trigger q with
    | .calling n => triggerLoop q n s
    | _ => .ok ([], s)
  | .suspendBegin => .ok ([], { s with suspended := true, suspend := .cancelWakeup })
  | .suspendCancelWakeup => .ok ([], { cancelTimer .rtcWakeup s with suspend := .cancelMask })
  | .suspendCancelMask =>
    match AlarmType.ofCode elapsedRealtimeWakeupMask with
    | none => .error (.index elapsedRealtimeWakeupMask)
    | some q => .ok ([], { cancelTimer q s with suspend := .choose })
  | .suspendChoose rtcTime rtcTime' => .ok (suspendChoose rtcTime rtcTime' s)
  | .suspendBusy => .ok (suspendBusy s)
  | .resume => .ok ([], alarmResume s)
  | .rtcInterrupt => .ok ([], { s with wakeLock := .timeout 1 })
  | .tick ns => .ok ([], { s with wall := s.wall + ns, mono := s.mono + ns, real := s.real + ns })
  | .sleep ns => .ok ([], { s with wall := s.wall + ns, real := s.real + ns })

def emptyQueue (delta : Int) : Queue := ⟨.nil, none, ⟨false, 0, 0⟩, delta, false, 0⟩

/-- The state after `alarm_late_init`, with the clocks as they are then. -/
def initialState (alarm : AlarmId → Alarm) (rtcDev : Bool) (wall mono real : Int) : State where
  alarm := alarm
  queue
    | .elapsedRealtimeWakeup | .elapsedRealtime => emptyQueue (wall - mono)
    | .rtcWakeup | .rtc | .systemtime => emptyQueue 0
  trigger _ := .idle
  suspended := false
  wakeLock := .released
  rtcDev := rtcDev
  rtcAlarm := none
  setRtc := .idle
  suspend := .idle
  wall := wall
  mono := mono
  real := real

def Initial (s : State) : Prop :=
  ∃ alarm rtcDev wall mono real, (∀ a, (alarm a).queued = false) ∧ s = initialState alarm rtcDev wall mono real

def machine : Machine State Op (List Event) Fault where
  init := Initial
  enabled s op := op.Permitted s
  exec := exec

end G3Mod.Alarm
