import G3Mod.Alarm.Lemmas.Arm

/-!
# The calls of the alarms' functions
-/

namespace G3Mod.Alarm

open Function Lib Rbtree

variable {s t : State} {q : AlarmType} {a : AlarmId} {op : Op} {o : List Event}

/-! ## Every step -/

/-- The timer that `alarm_suspend` cancels in place of the other wakeup queue's has nothing to wait for. -/
def Op.Spares (s : State) : Op → Prop
  | .suspendCancelMask => (s.queue .systemtime).first = none
  | _ => True

def sparingMachine : Machine State Op (List Event) Fault where
  init := Initial
  enabled s op := op.Permitted s ∧ op.Spares s
  exec := exec

theorem Inv.step (h : Inv s) (hop : op.Permitted s) (hs : op.Spares s) : ∃ o t, exec s op = .ok (o, t) ∧ Inv t := by
  cases op with
  | init a type => exact ⟨_, _, rfl, h.init hop type⟩
  | startRange a start stop =>
    obtain ⟨t, hx, ht⟩ := h.startRange a start stop
    exact ⟨_, t, by rw [exec, hx, ok_bind], ht⟩
  | tryToCancel a =>
    obtain ⟨ret, t, hx, ht⟩ := h.tryToCancel a
    exact ⟨_, t, by rw [exec, hx, ok_bind], ht⟩
  | setRtcStop n => exact ⟨_, _, rfl, h.setRtcStop n⟩
  | setRtcSettime ok =>
    obtain ⟨n, hn⟩ := hop
    have hx : exec s (.setRtcSettime ok) = .ok ([], setRtcSettime n ok s) := by simp only [exec, hn]
    exact ⟨_, _, hx, h.same rfl rfl rfl (fun _ => id) h.suspending⟩
  | setRtcRestart =>
    obtain ⟨n, ok, hn⟩ := hop
    have hx : exec s .setRtcRestart = .ok ([], Alarm.setRtcRestart ok s) := by simp only [exec, hn]
    exact ⟨_, _, hx, h.setRtcRestart ok⟩
  | setRtcEnd rtcOk =>
    obtain ⟨ok, hn⟩ := hop
    have hx : exec s (.setRtcEnd rtcOk) = .ok (setRtcEnd ok rtcOk s) := by simp only [exec, hn]
    exact ⟨_, _, hx, h.same rfl rfl rfl (fun _ => id) h.suspending⟩
  | getElapsedRealtime => exact ⟨_, _, rfl, h⟩
  | fire q => exact ⟨_, _, rfl, h.fire q⟩
  | triggerEnter q => exact h.triggerLoop q _
  | triggerReturn q =>
    obtain ⟨n, hn⟩ := hop
    obtain ⟨o, t, hx, ht⟩ := h.triggerLoop q n
    exact ⟨o, t, by simp only [exec, hn, hx], ht⟩
  | suspendBegin =>
    refine ⟨_, _, rfl, h.same rfl rfl rfl (fun q harms => ?_) fun _ => rfl⟩
    obtain ⟨hstop, hw | hsus⟩ := arms_iff.mp harms
    · exact arms_iff.mpr ⟨hstop, .inl hw⟩
    · cases hsus
  | suspendCancelWakeup =>
    have hsus : s.suspended = true := h.suspending (by rw [hop.1]; simp)
    refine ⟨_, _, rfl, h.cancelTimer (.inr ?_) _ hsus⟩
    simp [arms, hsus, AlarmType.isWakeup]
  | suspendCancelMask =>
    have hsus : s.suspended = true := h.suspending (by rw [hop.1]; simp)
    exact ⟨_, _, rfl, h.cancelTimer (.inl hs) _ hsus⟩
  | suspendChoose r r' =>
    have hsus : s.suspended = true := h.suspending (by rw [hop]; simp)
    have hchoose : Inv (suspendChoose r r' s).2 := by
      unfold suspendChoose
      split
      · exact h.same rfl rfl rfl (fun _ => id) (by simp)
      dsimp only
      split
      · exact h.same rfl rfl rfl (fun _ => id) fun _ => hsus
      · exact h.same rfl rfl rfl (fun _ => id) (by simp)
    exact ⟨_, _, rfl, hchoose⟩
  | suspendBusy =>
    have h0 : Inv { s with wakeLock := .timeout 2 } := h.same rfl rfl rfl (fun _ => id) h.suspending
    exact ⟨_, _, rfl, h0.wakeUp⟩
  | resume =>
    have h0 : Inv { s with rtcAlarm := none } := h.same rfl rfl rfl (fun _ => id) h.suspending
    have hsus : (alarmResume s).suspend = s.suspend := wakeUp_frame.suspend
    exact ⟨_, _, rfl, h0.wakeUp.same rfl rfl rfl (fun _ => id) fun hne => absurd (hsus.trans hop) hne⟩
  | rtcInterrupt | tick | sleep => exact ⟨_, _, rfl, h.same rfl rfl rfl (fun _ => id) h.suspending⟩

theorem inv_initial (h : Initial s) : Inv s := by
  obtain ⟨alarm, rtcDev, wall, mono, real, hnone, rfl⟩ := h
  have htree : ∀ q, ((initialState alarm rtcDev wall mono real).queue q).alarms = .nil ∧
      ((initialState alarm rtcDev wall mono real).queue q).first = none := fun q => by cases q <;> exact ⟨rfl, rfl⟩
  refine ⟨fun q => ?_, fun q _ _ a hf => ?_, nofun⟩
  · constructor <;> rw [(htree q).1]
    · exact ⟨0, .nil⟩
    · exact .nil
    · exact fun a => iff_of_false nofun fun hx => Bool.false_ne_true ((hnone a).symm.trans hx.1)
    · exact .nil
    · exact (htree q).2
  · rw [(htree q).2] at hf
    cases hf

theorem sparing_inductive : sparingMachine.Inductive Inv := ⟨inv_initial, fun h hop => h.step hop.1 hop.2⟩

def Event.IsCall : Event → Prop
  | .started _ | .cancelled _ | .called _ _ _ => True
  | _ => False

/-- All that a step can do to the alarms that are queued, and to the calls that are going on. -/
inductive CallStep (s t : State) : Op → List Event → Prop
  | quiet {op : Op} {o : List Event} : (∀ e ∈ o, ¬ e.IsCall) → (∀ a, (t.alarm a).queued = (s.alarm a).queued) →
      (∀ q n, t.trigger q = .calling n → s.trigger q = .calling n) → CallStep s t op o
  | started (a : AlarmId) (start stop : Int) : t.alarm = update s.alarm a ⟨(s.alarm a).type, start, stop, true⟩ →
      t.trigger = s.trigger → CallStep s t (.startRange a start stop) [.started a]
  | cancelled (a : AlarmId) : (s.alarm a).queued = true →
      t.alarm = update s.alarm a { s.alarm a with queued := false } → t.trigger = s.trigger →
      CallStep s t (.tryToCancel a) [.cancelled a, .cancelReturns 1]
  | called {op : Op} (q : AlarmType) (a : AlarmId) (now : Int) : (op = .triggerEnter q ∧ now = s.now q ∨
        op = .triggerReturn q ∧ s.trigger q = .calling now) →
      (s.queue q).first = some a → (s.alarm a).softexpires ≤ now →
      t.alarm = update s.alarm a { s.alarm a with queued := false } →
      t.trigger = update s.trigger q (.calling now) → CallStep s t op [.called a (s.alarm a).softexpires now]

theorem triggerLoop_cases (h : ∀ q, QueueOk s q) {now : Int} (hx : triggerLoop q now s = .ok (o, t)) :
    o = [] ∧ t = (updateTimerLocked q true s).setTrigger q .idle ∧
        (∀ a, (s.queue q).first = some a → now < (s.alarm a).softexpires) ∨
      ∃ a, (s.queue q).first = some a ∧ (s.alarm a).softexpires ≤ now ∧ o = [.called a (s.alarm a).softexpires now] ∧
        t.alarm = update s.alarm a { s.alarm a with queued := false } ∧
        t.trigger = update s.trigger q (.calling now) := by
  unfold triggerLoop at hx
  split at hx
  next hf =>
    cases hx
    exact .inl ⟨rfl, rfl, fun a ha => by rw [hf] at ha; cases ha⟩
  rename_i a hf
  split at hx
  next hsoft =>
    cases hx
    refine .inl ⟨rfl, rfl, fun b hb => ?_⟩
    rw [hf] at hb
    cases hb
    exact hsoft
  rename_i hsoft
  obtain ⟨s', hs', hx⟩ := bind_ok hx
  obtain ⟨u, hu, -, -, -, -, halarm, htrigger⟩ := removeAlarm_spec h ((h q).mem_of_first hf)
  obtain rfl : u = s' := Except.ok.inj (hu.symm.trans hs')
  cases hx
  exact .inr ⟨a, hf, Int.not_lt.mp hsoft, rfl, halarm, by rw [State.setTrigger, htrigger]⟩

theorem triggerLoop_callStep (h : ∀ q, QueueOk s q) {now : Int} (hx : triggerLoop q now s = .ok (o, t))
    (hnow : op = .triggerEnter q ∧ now = s.now q ∨ op = .triggerReturn q ∧ s.trigger q = .calling now) :
    CallStep s t op o := by
  rcases triggerLoop_cases h hx with ⟨rfl, rfl, -⟩ | ⟨a, hf, hsoft, rfl, halarm, htrigger⟩
  · exact .quiet nofun (by simp) (by simp; grind)
  · exact .called q a now hnow hf hsoft halarm htrigger

theorem alarmTryToCancel_callStep (h : ∀ q, QueueOk s q) {ret : Int} (hx : alarmTryToCancel a s = .ok (ret, t)) :
    CallStep s t (.tryToCancel a) ((if ret = 1 then [.cancelled a] else []) ++ [.cancelReturns ret]) := by
  unfold alarmTryToCancel at hx
  split at hx
  next hq =>
    obtain ⟨s', hs', hx⟩ := bind_ok hx
    obtain ⟨u, hu, -, -, -, -, halarm, htrigger⟩ := removeAlarm_spec h (((h _).mem a).mpr ⟨hq, rfl⟩)
    obtain rfl : u = s' := Except.ok.inj (hu.symm.trans hs')
    cases hx
    refine .cancelled a hq ?_ ?_ <;> split <;> simp [halarm, htrigger]
  cases hx
  refine .quiet (fun e he => ?_) (fun _ => rfl) fun _ _ hn => hn
  have hret : (if s.trigger (s.alarm a).type = .idle then (0 : Int) else -1) ≠ 1 := by split <;> decide
  rw [if_neg hret, List.nil_append, List.mem_singleton] at he
  subst he
  exact id

theorem SameAlarms.callStep (h : SameAlarms s t) (ho : ∀ e ∈ o, ¬ e.IsCall) : CallStep s t op o :=
  .quiet ho (fun _ => by rw [h.alarm]) fun _ _ hn => by rwa [h.trigger] at hn

theorem callStep (h : ∀ q, QueueOk s q) (hop : op.Permitted s) (hx : exec s op = .ok (o, t)) : CallStep s t op o := by
  cases op with
  | init a type =>
    cases hx
    have hq : (s.alarm a).queued = false := hop
    refine .quiet nofun (fun b => ?_) fun _ _ hn => hn
    unfold alarmInit
    grind
  | startRange a start stop =>
    obtain ⟨s', hs', hx⟩ := bind_ok hx
    obtain ⟨u, hu, -, -, halarm, htrigger, -⟩ := alarmStartRange_spec h (a := a) rfl start stop
    obtain rfl : u = s' := Except.ok.inj (hu.symm.trans hs')
    cases hx
    exact .started a start stop halarm htrigger
  | tryToCancel a =>
    obtain ⟨⟨ret, s'⟩, hs', hx⟩ := bind_ok hx
    cases hx
    exact alarmTryToCancel_callStep h hs'
  | setRtcStop n =>
    cases hx
    have h0 : SameAlarms s { s with wakeLock := .held } := ⟨rfl, rfl, fun _ => rfl, fun _ => rfl⟩
    exact ((h0.trans (foldl_stopQueue_same realtimeTypes _).1).trans sameAlarms_setDelta).callStep nofun
  | setRtcSettime ok =>
    obtain ⟨n, hn⟩ := hop
    simp only [exec, hn] at hx
    cases hx
    exact .quiet nofun (fun _ => rfl) fun _ _ hn => hn
  | setRtcRestart =>
    obtain ⟨n, ok, hn⟩ := hop
    simp only [exec, hn] at hx
    cases hx
    have hsame := (foldl_restartQueue_same realtimeTypes s).1
    exact SameAlarms.callStep ⟨hsame.alarm, hsame.trigger, hsame.tree, hsame.first⟩ nofun
  | setRtcEnd rtcOk =>
    obtain ⟨ok, hn⟩ := hop
    simp only [exec, hn] at hx
    cases hx
    exact .quiet (by simp [Event.IsCall]) (fun _ => rfl) fun _ _ hn => hn
  | getElapsedRealtime => cases hx; exact .quiet (by simp [Event.IsCall]) (fun _ => rfl) fun _ _ hn => hn
  | fire q =>
    cases hx
    refine .quiet nofun (fun _ => rfl) fun q' n hn => ?_
    unfold fire State.setTimer at hn
    grind
  | triggerEnter q => exact triggerLoop_callStep h hx (.inl ⟨rfl, rfl⟩)
  | triggerReturn q =>
    obtain ⟨n, hn⟩ := hop
    simp only [exec, hn] at hx
    exact triggerLoop_callStep h hx (.inr ⟨rfl, hn⟩)
  | suspendChoose r r' =>
    simp only [exec, suspendChoose] at hx
    repeat' split at hx
    all_goals cases hx; exact .quiet (by simp [Event.IsCall]) (fun _ => rfl) fun _ _ hn => hn
  | suspendBusy =>
    cases hx
    have hsame := sameAlarms_wakeUp (s := { s with wakeLock := .timeout 2 })
    exact SameAlarms.callStep ⟨hsame.alarm, hsame.trigger, hsame.tree, hsame.first⟩ (by simp [Event.IsCall])
  | resume =>
    cases hx
    have hsame := sameAlarms_wakeUp (s := { s with rtcAlarm := none })
    exact SameAlarms.callStep ⟨hsame.alarm, hsame.trigger, hsame.tree, hsame.first⟩ nofun
  | suspendBegin | suspendCancelWakeup | suspendCancelMask | rtcInterrupt | tick | sleep =>
    cases hx
    exact .quiet nofun (fun _ => rfl) fun _ _ hn => hn

/-! ## How often an alarm is called -/

/-- The number of calls since the alarm was last started; none if it has not been, or has been cancelled. -/
def tallyEvent (a : AlarmId) (c : Option Nat) : Event → Option Nat
  | .started b => if b = a then some 0 else c
  | .cancelled b => if b = a then none else c
  | .called b _ _ => if b = a then c.map (· + 1) else c
  | _ => c

def tally (a : AlarmId) (es : List (Op × List Event)) : Option Nat := (es.flatMap Prod.snd).foldl (tallyEvent a) none

/-- An alarm that is queued has not been called, and one that is not has been called once. -/
def Tallied (s : State) (a : AlarmId) : Option Nat → Prop
  | none => (s.alarm a).queued = false
  | some n => n = if (s.alarm a).queued then 0 else 1

theorem foldl_tallyEvent_quiet {c : Option Nat} (ho : ∀ e ∈ o, ¬ e.IsCall) : o.foldl (tallyEvent a) c = c := by
  induction o with
  | nil => rfl
  | cons e o ih =>
    have he : tallyEvent a c e = c := by
      have := ho e (List.mem_cons_self ..)
      cases e <;> first | exact absurd trivial this | rfl
    rw [List.foldl_cons, he]
    exact ih fun e he => ho e (List.mem_cons_of_mem _ he)

theorem Tallied.step {c : Option Nat} (h : Tallied s a c) (hqueues : ∀ q, QueueOk s q) (hc : CallStep s t op o) :
    Tallied t a (o.foldl (tallyEvent a) c) := by
  cases hc with
  | quiet ho hq _ =>
    rw [foldl_tallyEvent_quiet ho]
    unfold Tallied at h ⊢
    rwa [hq a]
  | started b start stop halarm _ | cancelled b _ halarm _ =>
    by_cases hb : b = a
    · subst hb
      simp [Tallied, tallyEvent, halarm]
    · simpa [Tallied, tallyEvent, halarm, hb, update_of_ne (Ne.symm hb)] using h
  | called q b now _ hf _ halarm _ =>
    have hqueued := (((hqueues q).mem b).mp ((hqueues q).mem_of_first hf)).1
    by_cases hb : b = a
    · subst hb
      cases c <;> simp_all [Tallied, tallyEvent]
    · simpa [Tallied, tallyEvent, halarm, hb, update_of_ne (Ne.symm hb)] using h

theorem tally_append {es : List (Op × List Event)} : tally a (es ++ [(op, o)]) = o.foldl (tallyEvent a) (tally a es) := by
  simp [tally]

theorem tallied_run {s0 : State} {es : List (Op × List Event)} (h0 : Initial s0) (hr : sparingMachine.Run s0 es s) :
    Tallied s a (tally a es) := by
  have hinv : Inv s ∧ Tallied s a (tally a es) := by
    induction hr with
    | nil =>
      refine ⟨inv_initial h0, ?_⟩
      obtain ⟨alarm, rtcDev, wall, mono, real, hnone, rfl⟩ := h0
      exact hnone a
    | @snoc s t es op o _ hop hx ih =>
      obtain ⟨o', t', hx', ht⟩ := ih.1.step hop.1 hop.2
      rw [show exec s op = .ok (o, t) from hx] at hx'
      cases hx'
      rw [tally_append]
      exact ⟨ht, ih.2.step ih.1.queues (callStep ih.1.queues hop.1 hx)⟩
  exact hinv.2

/-! ## The time of a call -/

/-- While `alarm_timer_triggered` of a queue goes on, the clock that it read is not set back. -/
def Op.KeepsTime (s : State) : Op → Prop
  | .setRtcStop n => ∀ q, q = .elapsedRealtime ∨ q = .elapsedRealtimeWakeup →
      (∃ now, s.trigger q = .calling now) → n ≤ s.wall
  | .setRtcRestart => ∀ q ∈ realtimeTypes, (∃ now, s.trigger q = .calling now) → (s.queue q).stoppedTime ≤ s.wall
  | _ => True

def timelyMachine : Machine State Op (List Event) Fault where
  init := Initial
  enabled s op := (op.Permitted s ∧ op.Spares s) ∧ op.KeepsTime s
  exec := exec

structure Timely (s : State) : Prop where
  stopped : ∀ q, (s.queue q).stopped = (decide (q ∈ realtimeTypes) && s.setRtc.stops)
  delta : (s.queue .elapsedRealtimeWakeup).delta = (s.queue .elapsedRealtime).delta
  called : ∀ q n, s.trigger q = .calling n → n ≤ s.now q

theorem clock_le (hwall : s.wall ≤ t.wall) (hmono : s.mono ≤ t.mono) : s.clock q ≤ t.clock q := by
  cases q <;> simpa only [State.clock]

theorem now_le_of_clock (hclock : (t.queue q).clock = (s.queue q).clock) (h : s.clock q ≤ t.clock q) : s.now q ≤ t.now q := by
  grind [State.now]

theorem Timely.now_le (h : Timely s) (hc : ClockStep s t op) (hk : op.KeepsTime s) (hq : ∃ n, s.trigger q = .calling n) :
    s.now q ≤ t.now q := by
  have hstop := h.stopped q
  cases hc with
  | same hclock hwall hmono _ _ => exact now_le_of_clock (hclock q) (clock_le (by omega) (by omega))
  | stop n hidle hset hwall hmono hreal hclock =>
    have hcq := (hclock q).trans (setRtcStop_clock n q)
    have hdelta := h.delta
    cases q with
    | systemtime => exact now_le_of_clock hcq (by simp [State.clock, hmono])
    | rtcWakeup | rtc => grind [State.now, State.clock, SetRtc.stops]
    | elapsedRealtimeWakeup =>
      have := hk _ (.inr rfl) hq
      grind [State.now, State.clock, SetRtc.stops]
    | elapsedRealtime =>
      have := hk _ (.inl rfl) hq
      grind [State.now, State.clock, SetRtc.stops]
  | settime n ok hidle hset hwall hmono hreal hclock =>
    have hcq := hclock q
    by_cases hreal : q ∈ realtimeTypes
    · grind [State.now, SetRtc.stops]
    · obtain rfl := not_realtime hreal
      exact now_le_of_clock hcq (by simp [State.clock, hmono])
  | restart n ok hidle hset hwall hmono hreal hclock =>
    have hcq := hclock q
    by_cases hmem : q ∈ realtimeTypes
    · have := hk q hmem hq
      have hcl : t.clock q = s.wall := by cases q <;> first | exact hwall | simp [realtimeTypes] at hmem
      grind [State.now, SetRtc.stops]
    · rw [if_neg hmem] at hcq
      obtain rfl := not_realtime hmem
      exact now_le_of_clock hcq (by simp [State.clock, hmono])
  | ended ok rtcOk hidle hset hwall hmono hreal hclock =>
    exact now_le_of_clock (hclock q) (clock_le (by omega) (by omega))
  | tick n hwall hmono hreal hset hclock
  | sleep n hwall hmono hreal hset hclock => exact now_le_of_clock (hclock q) (clock_le (by omega) (by omega))

theorem Timely.clocks (h : Timely s) (hc : ClockStep s t op) :
    (∀ q, (t.queue q).stopped = (decide (q ∈ realtimeTypes) && t.setRtc.stops)) ∧
      (t.queue .elapsedRealtimeWakeup).delta = (t.queue .elapsedRealtime).delta := by
  have hstop := h.stopped
  have hdelta := h.delta
  cases hc with
  | same hclock _ _ _ hset => grind
  | stop n hidle hset _ _ _ hclock =>
    have hclock := fun q => (hclock q).trans (setRtcStop_clock n q)
    refine ⟨fun q => ?_, by grind⟩
    have hb : (t.queue q).stopped = _ := congrArg (fun c => c.2.1) (hclock q)
    have hsys := hstop .systemtime
    rw [hb, hset]
    cases q <;> first | rfl | exact hsys
  | settime n ok hidle hset _ _ _ hclock => grind [SetRtc.stops]
  | restart n ok hidle hset _ _ _ hclock =>
    refine ⟨fun q => ?_, by grind [realtimeTypes]⟩
    grind [SetRtc.stops]
  | ended ok rtcOk hidle hset _ _ _ hclock => grind [SetRtc.stops]
  | tick n _ _ _ hset hclock => grind
  | sleep n _ _ _ hset hclock => grind

theorem timely_initial (h : Initial s) : Timely s := by
  obtain ⟨alarm, rtcDev, wall, mono, real, -, rfl⟩ := h
  exact ⟨fun q => by cases q <;> rfl, rfl, nofun⟩

theorem Timely.step (h : Timely s) (hqueues : ∀ q, QueueOk s q) (hop : op.Permitted s) (hk : op.KeepsTime s)
    (hx : exec s op = .ok (o, t)) : Timely t := by
  have hc := clockStep hop hx
  obtain ⟨hstopped, hdelta⟩ := h.clocks hc
  have hkeep : ∀ q n, s.trigger q = .calling n → n ≤ t.now q := fun q n hn =>
    Int.le_trans (h.called q n hn) (h.now_le hc hk ⟨n, hn⟩)
  refine ⟨hstopped, hdelta, fun q n hn => ?_⟩
  cases callStep hqueues hop hx with
  | quiet _ _ htrigger => exact hkeep q n (htrigger q n hn)
  | started a start stop _ htrigger | cancelled a _ _ htrigger => exact hkeep q n (by rwa [htrigger] at hn)
  | called q' a now hnow _ _ _ htrigger =>
    rw [htrigger, update_apply] at hn
    split at hn
    next heq =>
      subst heq
      cases hn
      rcases hnow with ⟨rfl, rfl⟩ | ⟨rfl, hcalling⟩
      · exact Int.le_of_eq (triggerLoop_frame hx).now.symm
      · exact hkeep q n hcalling
    · exact hkeep q n hn

end G3Mod.Alarm
