import G3Mod.Alarm.Model
import G3Mod.Rbtree.Lemmas

/-!
# What the functions of the alarm driver leave alone
-/

namespace G3Mod.Alarm

open Function Lib Rbtree

variable {s s' t : State} {q q' : AlarmType} {a b : AlarmId}

/-! ## Updates of the state -/

namespace State

@[simp, grind =] theorem setQueue_queue {base : Queue} :
    (s.setQueue q base).queue q' = if q' = q then base else s.queue q' := by
  simp [setQueue, update_apply]

@[simp, grind =] theorem setQueue_alarm {base : Queue} : (s.setQueue q base).alarm a = s.alarm a := rfl

@[simp, grind =] theorem setQueue_trigger {base : Queue} : (s.setQueue q base).trigger q' = s.trigger q' := rfl

@[simp] theorem setQueue_suspended {base : Queue} : (s.setQueue q base).suspended = s.suspended := rfl

@[simp, grind =] theorem setAlarm_queue {alarm : Alarm} : (s.setAlarm a alarm).queue q = s.queue q := rfl

@[simp, grind =] theorem setAlarm_alarm {alarm : Alarm} :
    (s.setAlarm a alarm).alarm b = if b = a then alarm else s.alarm b := by
  simp [setAlarm, update_apply]

@[simp] theorem setAlarm_suspended {alarm : Alarm} : (s.setAlarm a alarm).suspended = s.suspended := rfl

@[simp, grind =] theorem setTrigger_queue {x : Trigger} : (s.setTrigger q x).queue q' = s.queue q' := rfl

@[simp, grind =] theorem setTrigger_alarm {x : Trigger} : (s.setTrigger q x).alarm a = s.alarm a := rfl

@[simp, grind =] theorem setTrigger_trigger {x : Trigger} :
    (s.setTrigger q x).trigger q' = if q' = q then x else s.trigger q' := by
  simp [setTrigger, update_apply]

end State

/-! ## The clocks -/

@[grind =] def Queue.clock (base : Queue) : Int × Bool × Int := (base.delta, base.stopped, base.stoppedTime)

structure Frame (s t : State) : Prop where
  clock : ∀ q, (t.queue q).clock = (s.queue q).clock
  wall : t.wall = s.wall
  mono : t.mono = s.mono
  real : t.real = s.real
  setRtc : t.setRtc = s.setRtc
  suspended : t.suspended = s.suspended
  suspend : t.suspend = s.suspend

theorem Frame.refl (s : State) : Frame s s := ⟨fun _ => rfl, rfl, rfl, rfl, rfl, rfl, rfl⟩

theorem Frame.trans {u : State} (h : Frame s t) (h' : Frame t u) : Frame s u :=
  ⟨fun q => (h'.clock q).trans (h.clock q), h'.wall.trans h.wall, h'.mono.trans h.mono, h'.real.trans h.real,
    h'.setRtc.trans h.setRtc, h'.suspended.trans h.suspended, h'.suspend.trans h.suspend⟩

theorem Frame.setQueue {base : Queue} (h : base.clock = (s.queue q).clock) : Frame s (s.setQueue q base) := by
  exact ⟨by grind, rfl, rfl, rfl, rfl, rfl, rfl⟩

theorem Frame.setAlarm {alarm : Alarm} : Frame s (s.setAlarm a alarm) := ⟨fun _ => rfl, rfl, rfl, rfl, rfl, rfl, rfl⟩

theorem Frame.setTimer {x : Timer} : Frame s (s.setTimer q x) := .setQueue rfl

theorem Frame.setTrigger {x : Trigger} : Frame s (s.setTrigger q x) := ⟨fun _ => rfl, rfl, rfl, rfl, rfl, rfl, rfl⟩

/-! ## `update_timer_locked` -/

/-- Whether `update_timer_locked` arms the timer of a queue that has an alarm. -/
def arms (s : State) (q : AlarmType) : Bool := !(s.queue q).stopped && !(q.isWakeup && s.suspended)

def nextTimer (s : State) (q : AlarmType) : Timer :=
  match (s.queue q).first with
  | none => (s.queue q).timer
  | some a =>
    if arms s q then ⟨true, (s.queue q).delta + (s.alarm a).expires, (s.queue q).delta + (s.alarm a).softexpires⟩
    else (s.queue q).timer

theorem State.setTimer_self : s.setTimer q (s.queue q).timer = s := by
  simp [State.setTimer, State.setQueue]

theorem updateTimerLocked_eq (hr : Bool) : ∃ l, updateTimerLocked q hr s =
    { s.setTimer q (nextTimer s q) with wakeLock := l } := by
  simp only [updateTimerLocked]
  split
  next hstop =>
    have hnext : nextTimer s q = (s.queue q).timer := by
      unfold nextTimer arms
      split <;> simp [hstop]
    rw [hnext, State.setTimer_self]
    exact ⟨s.wakeLock, rfl⟩
  rename_i hstop
  generalize hs1 : (if (q.isWakeup && !s.suspended && hr) = true then { s with wakeLock := .released } else s) = s1
  obtain ⟨l, rfl⟩ : ∃ l, s1 = { s with wakeLock := l } := by
    subst hs1
    split
    · exact ⟨_, rfl⟩
    · exact ⟨s.wakeLock, rfl⟩
  cases hf : (s.queue q).first with
  | none =>
    have hnext : nextTimer s q = (s.queue q).timer := by simp only [nextTimer, hf]
    rw [hnext, State.setTimer_self]
    exact ⟨l, rfl⟩
  | some a =>
    simp only
    split
    next hw =>
      have hnext : nextTimer s q = (s.queue q).timer := by simp [nextTimer, hf, arms, hw]
      rw [hnext, State.setTimer_self]
      exact ⟨_, rfl⟩
    rename_i hw
    have hnext : nextTimer s q = ⟨true, (s.queue q).delta + (s.alarm a).expires,
        (s.queue q).delta + (s.alarm a).softexpires⟩ := by
      simp [nextTimer, hf, arms, hstop, hw]
    rw [hnext]
    exact ⟨l, rfl⟩

theorem updateTimerLocked_frame (hr : Bool) : Frame s (updateTimerLocked q hr s) := by
  obtain ⟨l, h⟩ := updateTimerLocked_eq (s := s) (q := q) hr
  rw [h]
  have hf : Frame s (s.setTimer q (nextTimer s q)) := .setTimer
  exact ⟨hf.clock, hf.wall, hf.mono, hf.real, hf.setRtc, hf.suspended, hf.suspend⟩

@[simp, grind =] theorem updateTimerLocked_queue (hr : Bool) : (updateTimerLocked q hr s).queue q' =
    if q' = q then { s.queue q with timer := nextTimer s q } else s.queue q' := by
  obtain ⟨l, h⟩ := updateTimerLocked_eq (s := s) (q := q) hr
  rw [h]
  exact State.setQueue_queue

@[simp] theorem updateTimerLocked_alarm (hr : Bool) : (updateTimerLocked q hr s).alarm = s.alarm := by
  obtain ⟨l, h⟩ := updateTimerLocked_eq (s := s) (q := q) hr
  rw [h]
  rfl

@[simp] theorem updateTimerLocked_trigger (hr : Bool) : (updateTimerLocked q hr s).trigger = s.trigger := by
  obtain ⟨l, h⟩ := updateTimerLocked_eq (s := s) (q := q) hr
  rw [h]
  rfl

theorem removeAlarm_frame (h : removeAlarm q a s = .ok t) : Frame s t := by
  obtain ⟨tree, _, h⟩ := bind_ok h
  cases h
  exact (Frame.setQueue (by rfl)).trans .setAlarm

theorem alarmTryToCancel_frame {ret : Int} (h : alarmTryToCancel a s = .ok (ret, t)) : Frame s t := by
  unfold alarmTryToCancel at h
  split at h
  · obtain ⟨s', hs', h⟩ := bind_ok h
    cases h
    split
    · exact (removeAlarm_frame hs').trans (updateTimerLocked_frame true)
    · exact removeAlarm_frame hs'
  · cases h
    exact .refl _

theorem alarmEnqueueLocked_frame (h : alarmEnqueueLocked a s = .ok t) : Frame s t := by
  obtain ⟨tree, _, h⟩ := bind_ok h
  obtain ⟨path, _, h⟩ := bind_ok h
  obtain ⟨tree', _, h⟩ := bind_ok h
  cases h
  refine Frame.trans ?_ ((Frame.setQueue (by rfl)).trans .setAlarm)
  split
  · exact (Frame.setQueue (by rfl)).trans (updateTimerLocked_frame false)
  · exact Frame.setQueue (by rfl)

theorem triggerLoop_frame {now : Int} {o : List Event} (h : triggerLoop q now s = .ok (o, t)) : Frame s t := by
  have hend : Frame s ((updateTimerLocked q true s).setTrigger q .idle) := (updateTimerLocked_frame true).trans .setTrigger
  unfold triggerLoop at h
  split at h
  · cases h
    exact hend
  split at h
  · cases h
    exact hend
  · obtain ⟨s', hs', h⟩ := bind_ok h
    cases h
    exact (removeAlarm_frame hs').trans .setTrigger

/-! # The clocks of the queues while the time is set -/

/-! ## Stopping and restarting the queues -/

theorem tryToCancelTimer_frame : Frame s (s.tryToCancelTimer q) := by
  unfold State.tryToCancelTimer
  split
  · exact .setTimer
  · exact .refl s

theorem tryToCancelTimer_queue_of_ne {q' : AlarmType} (h : q' ≠ q) : (s.tryToCancelTimer q).queue q' = s.queue q' := by
  unfold State.tryToCancelTimer State.setTimer
  grind

structure Keeps (s t : State) : Prop where
  wall : t.wall = s.wall
  mono : t.mono = s.mono
  real : t.real = s.real
  suspended : t.suspended = s.suspended
  suspend : t.suspend = s.suspend

theorem Keeps.refl (s : State) : Keeps s s := ⟨rfl, rfl, rfl, rfl, rfl⟩

theorem Keeps.trans {u : State} (h : Keeps s t) (h' : Keeps t u) : Keeps s u :=
  ⟨h'.wall.trans h.wall, h'.mono.trans h.mono, h'.real.trans h.real, h'.suspended.trans h.suspended,
    h'.suspend.trans h.suspend⟩

theorem Frame.keeps (h : Frame s t) : Keeps s t := ⟨h.wall, h.mono, h.real, h.suspended, h.suspend⟩

theorem Keeps.foldl {f : State → AlarmType → State} (hf : ∀ s q, Keeps s (f s q)) (l : List AlarmType) (s : State) :
    Keeps s (l.foldl f s) := by
  induction l generalizing s with
  | nil => exact .refl s
  | cons q l ih => exact (hf s q).trans (ih _)

theorem stopQueue_keeps (s : State) (q : AlarmType) : Keeps s (stopQueue s q) :=
  tryToCancelTimer_frame.keeps.trans ⟨rfl, rfl, rfl, rfl, rfl⟩

theorem stopQueue_clock (q' : AlarmType) : ((stopQueue s q).queue q').clock =
    if q' = q then ((s.queue q).delta, true, s.wall) else (s.queue q').clock := by
  have hf := tryToCancelTimer_frame (s := s) (q := q)
  have hc := hf.clock
  have hw := hf.wall
  unfold stopQueue
  grind

theorem foldl_stopQueue_clock (q : AlarmType) (l : List AlarmType) (s : State) :
    ((l.foldl stopQueue s).queue q).clock = if q ∈ l then ((s.queue q).delta, true, s.wall) else (s.queue q).clock := by
  induction l generalizing s with
  | nil => simp
  | cons q' l ih =>
    have hc := stopQueue_clock (s := s) (q := q') q
    have hw := (stopQueue_keeps s q').wall
    grind

theorem setRtcStop_clock (n : Int) (q : AlarmType) : ((setRtcStop n s).queue q).clock =
    match q with
    | .systemtime => (s.queue .systemtime).clock
    | .rtcWakeup => ((s.queue .rtcWakeup).delta, true, s.wall)
    | .rtc => ((s.queue .rtc).delta, true, s.wall)
    | .elapsedRealtimeWakeup | .elapsedRealtime => ((s.queue .elapsedRealtime).delta - (s.wall - n), true, s.wall) := by
  have hw := (Keeps.foldl stopQueue_keeps realtimeTypes { s with wakeLock := .held }).wall
  have hc := fun q => foldl_stopQueue_clock q realtimeTypes { s with wakeLock := .held }
  unfold setRtcStop
  generalize realtimeTypes.foldl stopQueue { s with wakeLock := .held } = s1 at hw hc
  have hd : (s1.queue .elapsedRealtime).delta = (s.queue .elapsedRealtime).delta :=
    congrArg Prod.fst (hc .elapsedRealtime)
  cases q with
  | systemtime => simpa [realtimeTypes] using hc .systemtime
  | rtcWakeup => simpa [realtimeTypes] using hc .rtcWakeup
  | rtc => simpa [realtimeTypes] using hc .rtc
  | elapsedRealtimeWakeup =>
    have h := congrArg Prod.snd (hc .elapsedRealtimeWakeup)
    simpa [Queue.clock, realtimeTypes, hd, hw] using h
  | elapsedRealtime =>
    have h := congrArg Prod.snd (hc .elapsedRealtime)
    simpa [Queue.clock, realtimeTypes, hd, hw] using h

theorem restartQueue_clock (q' : AlarmType) : ((restartQueue s q).queue q').clock =
    if q' = q then ((s.queue q).delta, false, (s.queue q).stoppedTime) else (s.queue q').clock := by
  unfold restartQueue
  grind

theorem restartQueue_keeps (s : State) (q : AlarmType) : Keeps s (restartQueue s q) :=
  have hf : Frame (s.setQueue q { s.queue q with stopped := false }) (restartQueue s q) := updateTimerLocked_frame false
  ⟨hf.wall, hf.mono, hf.real, hf.suspended, hf.suspend⟩

theorem foldl_restartQueue_clock (q : AlarmType) (l : List AlarmType) (s : State) : ((l.foldl restartQueue s).queue q).clock =
    if q ∈ l then ((s.queue q).delta, false, (s.queue q).stoppedTime) else (s.queue q).clock := by
  induction l generalizing s with
  | nil => simp
  | cons q' l ih =>
    have hc := restartQueue_clock (s := s) (q := q') q
    grind

theorem wakeUp_frame : Frame { s with suspended := false } (wakeUp s) :=
  (updateTimerLocked_frame false).trans (updateTimerLocked_frame false)

def SetRtc.stops : SetRtc → Bool
  | .stopped _ | .set _ _ => true
  | .idle | .restarted _ => false

/-- All that a step can do to the clocks and to the queues' view of them. -/
inductive ClockStep (s t : State) : Op → Prop
  | same {op : Op} : (∀ q, (t.queue q).clock = (s.queue q).clock) → t.wall = s.wall → t.mono = s.mono → t.real = s.real →
      t.setRtc = s.setRtc → ClockStep s t op
  | stop (n : Int) : s.setRtc = .idle → t.setRtc = .stopped n → t.wall = s.wall → t.mono = s.mono → t.real = s.real →
      (∀ q, (t.queue q).clock = ((setRtcStop n s).queue q).clock) → ClockStep s t (.setRtcStop n)
  | settime (n : Int) (ok : Bool) : s.setRtc = .stopped n → t.setRtc = .set n ok →
      t.wall = (if ok then n else s.wall) → t.mono = s.mono → t.real = s.real →
      (∀ q, (t.queue q).clock = (s.queue q).clock) → ClockStep s t (.setRtcSettime ok)
  | restart (n : Int) (ok : Bool) : s.setRtc = .set n ok → t.setRtc = .restarted ok → t.wall = s.wall → t.mono = s.mono →
      t.real = s.real → (∀ q, (t.queue q).clock =
        if q ∈ realtimeTypes then ((s.queue q).delta, false, (s.queue q).stoppedTime) else (s.queue q).clock) →
      ClockStep s t .setRtcRestart
  | ended (ok rtcOk : Bool) : s.setRtc = .restarted ok → t.setRtc = .idle → t.wall = s.wall → t.mono = s.mono →
      t.real = s.real → (∀ q, (t.queue q).clock = (s.queue q).clock) → ClockStep s t (.setRtcEnd rtcOk)
  | tick (n : Nat) : t.wall = s.wall + n → t.mono = s.mono + n → t.real = s.real + n → t.setRtc = s.setRtc →
      (∀ q, (t.queue q).clock = (s.queue q).clock) → ClockStep s t (.tick n)
  | sleep (n : Nat) : t.wall = s.wall + n → t.mono = s.mono → t.real = s.real + n → t.setRtc = s.setRtc →
      (∀ q, (t.queue q).clock = (s.queue q).clock) → ClockStep s t (.sleep n)

theorem Frame.clockStep {op : Op} (h : Frame s t) : ClockStep s t op :=
  .same h.clock h.wall h.mono h.real h.setRtc

theorem clockStep {op : Op} {o : List Event} (hop : op.Permitted s) (hx : exec s op = .ok (o, t)) : ClockStep s t op := by
  cases op with
  | init a type => cases hx; exact Frame.clockStep .setAlarm
  | startRange a start stop =>
    obtain ⟨s', hs', hx⟩ := bind_ok hx
    cases hx
    exact (Frame.setAlarm.trans (alarmEnqueueLocked_frame hs')).clockStep
  | tryToCancel a =>
    obtain ⟨⟨ret, s'⟩, hs', hx⟩ := bind_ok hx
    cases hx
    exact (alarmTryToCancel_frame hs').clockStep
  | setRtcStop n =>
    cases hx
    have hk := Keeps.foldl stopQueue_keeps realtimeTypes { s with wakeLock := .held }
    exact .stop n hop rfl hk.wall hk.mono hk.real fun _ => rfl
  | setRtcSettime ok =>
    obtain ⟨n, hn⟩ := hop
    simp only [exec, hn] at hx
    cases hx
    exact .settime n ok hn rfl rfl rfl rfl fun _ => rfl
  | setRtcRestart =>
    obtain ⟨n, ok, hn⟩ := hop
    simp only [exec, hn] at hx
    cases hx
    have hk := Keeps.foldl restartQueue_keeps realtimeTypes s
    exact .restart n ok hn rfl hk.wall hk.mono hk.real fun q => foldl_restartQueue_clock q realtimeTypes s
  | setRtcEnd rtcOk =>
    obtain ⟨ok, hn⟩ := hop
    simp only [exec, hn] at hx
    cases hx
    exact .ended ok rtcOk hn rfl rfl rfl rfl fun _ => rfl
  | fire q =>
    cases hx
    exact Frame.clockStep (Frame.setTimer.trans .setTrigger)
  | triggerEnter q => exact (triggerLoop_frame hx).clockStep
  | triggerReturn q =>
    obtain ⟨n, hn⟩ := hop
    simp only [exec, hn] at hx
    exact (triggerLoop_frame hx).clockStep
  | suspendCancelWakeup | suspendCancelMask =>
    cases hx
    exact .same Frame.setTimer.clock rfl rfl rfl rfl
  | suspendChoose r r' =>
    simp only [exec, suspendChoose] at hx
    repeat' split at hx
    all_goals cases hx; exact .same (fun _ => rfl) rfl rfl rfl rfl
  | suspendBusy =>
    cases hx
    have hf := wakeUp_frame (s := { s with wakeLock := .timeout 2 })
    exact .same hf.clock hf.wall hf.mono hf.real hf.setRtc
  | resume =>
    cases hx
    have hf := wakeUp_frame (s := { s with rtcAlarm := none })
    exact .same hf.clock hf.wall hf.mono hf.real hf.setRtc
  | getElapsedRealtime | suspendBegin | rtcInterrupt => cases hx; exact .same (fun _ => rfl) rfl rfl rfl rfl
  | tick n => cases hx; exact .tick n rfl rfl rfl rfl fun _ => rfl
  | sleep n => cases hx; exact .sleep n rfl rfl rfl rfl fun _ => rfl

end G3Mod.Alarm
