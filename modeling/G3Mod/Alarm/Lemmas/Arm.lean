import G3Mod.Alarm.Lemmas.Queues

/-!
# The timers are armed in time
-/

namespace G3Mod.Alarm

open Function Lib Rbtree

variable {s t : State} {q q' : AlarmType} {a b : AlarmId}

def Armed (s : State) (q : AlarmType) : Prop :=
  ∀ a, (s.queue q).first = some a → (s.queue q).timer.active = true ∧
    (s.queue q).timer.expires ≤ (s.queue q).delta + (s.alarm a).expires

/-- A running queue is armed in time, unless `alarm_timer_triggered` is going to see to it. -/
structure Inv (s : State) : Prop where
  queues : ∀ q, QueueOk s q
  armed : ∀ q, arms s q = true → s.trigger q = .idle → Armed s q
  suspending : s.suspend ≠ .idle → s.suspended = true

theorem arms_iff : arms s q = true ↔ (s.queue q).stopped = false ∧ (q.isWakeup = false ∨ s.suspended = false) := by
  simp [arms]

/-! ## What keeps a queue armed -/

theorem Armed.congr (h : Armed s q) (hq : t.queue q = s.queue q)
    (ha : ∀ a, (s.queue q).first = some a → t.alarm a = s.alarm a) : Armed t q := by
  intro a hf
  have := h a
  grind

theorem Frame.arms (h : Frame s t) : Alarm.arms t q = Alarm.arms s q := by
  have : (t.queue q).stopped = (s.queue q).stopped := congrArg (fun c => c.2.1) (h.clock q)
  unfold Alarm.arms
  rw [this, h.suspended]

theorem Frame.delta (h : Frame s t) : (t.queue q).delta = (s.queue q).delta := congrArg Prod.fst (h.clock q)

theorem Frame.now (h : Frame s t) : t.now q = s.now q := by
  have hc : t.clock q = s.clock q := by cases q <;> simp [State.clock, h.wall, h.mono]
  have := h.clock q
  grind [State.now]

theorem armed_update {hr : Bool} (h : arms s q = true) : Armed (updateTimerLocked q hr s) q := by
  intro a hf
  simp only [updateTimerLocked_queue, if_true, updateTimerLocked_alarm] at hf ⊢
  simp [nextTimer, hf, h]

theorem queueOk_update {hr : Bool} (h : QueueOk s q') : QueueOk (updateTimerLocked q hr s) q' :=
  h.congr (by grind) (by grind) (by simp) (by simp)

theorem QueueOk.exists_first (h : QueueOk s q) (ha : a ∈ (s.queue q).alarms.inorder) :
    ∃ f, (s.queue q).first = some f := by
  rw [h.first]
  exact ⟨_, List.head?_eq_some_head (List.ne_nil_of_mem ha)⟩

theorem QueueOk.first_le (h : QueueOk s q) (hf : (s.queue q).first = some a) (hb : b ∈ (s.queue q).alarms.inorder) :
    (s.alarm a).expires ≤ (s.alarm b).expires := by
  have hs := h.sorted
  rw [h.first] at hf
  cases hl : (s.queue q).alarms.inorder <;> grind [List.pairwise_cons]

theorem Inv.same (h : Inv s) (hqueue : t.queue = s.queue) (halarm : t.alarm = s.alarm) (htrigger : t.trigger = s.trigger)
    (harms : ∀ q, arms t q = true → arms s q = true) (hsus : t.suspend ≠ .idle → t.suspended = true) : Inv t := by
  refine ⟨fun q => (h.queues q).congr (by rw [hqueue]) (by rw [hqueue]) (fun _ => by rw [halarm]) fun _ _ => by rw [halarm],
    fun q ha hidle => ?_, hsus⟩
  rw [htrigger] at hidle
  exact (h.armed q (harms q ha) hidle).congr (by rw [hqueue]) fun _ _ => by rw [halarm]

theorem Inv.startRange (h : Inv s) (a : AlarmId) (start stop : Int) :
    ∃ t, alarmStartRange a start stop s = .ok t ∧ Inv t := by
  obtain ⟨t, hx, hqueues, hsame, halarm, htrigger, hfirst⟩ := alarmStartRange_spec h.queues (a := a) rfl start stop
  have hframe : Frame s t := Frame.setAlarm.trans (alarmEnqueueLocked_frame hx)
  have halarm : ∀ b, t.alarm b = if b = a then ⟨(s.alarm a).type, start, stop, true⟩ else s.alarm b := fun b => by
    rw [halarm, update_apply]
  refine ⟨t, hx, hqueues, fun q harms hidle => ?_, by rw [hframe.suspend, hframe.suspended]; exact h.suspending⟩
  rw [hframe.arms] at harms
  rw [htrigger] at hidle
  have hold := h.armed q harms hidle
  by_cases hq : q = (s.alarm a).type
  · subst hq
    intro b hb
    rw [hframe.delta]
    rcases hfirst with ⟨hf, htimer⟩ | ⟨htimer, c, hca, hf, hc⟩
    · grind
    -- the timer was armed for the old first alarm, which may have been this one
    obtain ⟨f, hff⟩ := (h.queues _).exists_first hc
    have := hold f hff
    have := (h.queues _).first_le hff hc
    grind
  · refine hold.congr (hsame q hq) fun b hb => ?_
    have := ((h.queues q).mem b).mp ((h.queues q).mem_of_first hb)
    grind

theorem Armed.remove (h : Armed s q') (hqueues : ∀ q, QueueOk s q) (hne : q' ≠ q)
    (ha : a ∈ (s.queue q).alarms.inorder) (hsame : t.queue q' = s.queue q')
    (halarm : t.alarm = update s.alarm a { s.alarm a with queued := false }) : Armed t q' := by
  refine h.congr hsame fun b hb => ?_
  have h1 := ((hqueues q').mem b).mp ((hqueues q').mem_of_first hb)
  have h2 := ((hqueues q).mem a).mp ha
  rw [halarm, update_apply]
  grind

theorem Inv.tryToCancel (h : Inv s) (a : AlarmId) : ∃ ret t, alarmTryToCancel a s = .ok (ret, t) ∧ Inv t := by
  unfold alarmTryToCancel
  cases hq : (s.alarm a).queued with
  | false => exact ⟨_, s, if_neg Bool.false_ne_true, h⟩
  | true =>
    have ha := ((h.queues _).mem a).mpr ⟨hq, rfl⟩
    obtain ⟨t, hx, hqueues, hsame, htimer, hfirst, halarm, htrigger⟩ := removeAlarm_spec h.queues ha
    have hframe := removeAlarm_frame hx
    have hsus : t.suspend ≠ .idle → t.suspended = true := by
      rw [hframe.suspend, hframe.suspended]
      exact h.suspending
    simp only [if_true, hx, ok_bind]
    refine ⟨1, _, rfl, ?_⟩
    split
    · have hframe' : Frame t (updateTimerLocked (s.alarm a).type true t) := updateTimerLocked_frame true
      refine ⟨fun q => queueOk_update (hqueues q), fun q harms hidle => ?_,
        by rw [hframe'.suspend, hframe'.suspended]; exact hsus⟩
      rw [hframe'.arms] at harms
      by_cases heq : q = (s.alarm a).type
      · subst heq
        exact armed_update harms
      rw [hframe.arms] at harms
      rw [updateTimerLocked_trigger, htrigger] at hidle
      have hold : Armed t q := (h.armed q harms hidle).remove h.queues heq ha (hsame q heq) halarm
      exact hold.congr (by simp [heq]) fun _ _ => by rw [updateTimerLocked_alarm]
    next hnot =>
      refine ⟨hqueues, fun q harms hidle => ?_, hsus⟩
      rw [hframe.arms] at harms
      rw [htrigger] at hidle
      by_cases heq : q = (s.alarm a).type
      · subst heq
        intro b hb
        rw [hfirst, firstWithout, if_neg hnot] at hb
        have hba : b ≠ a := fun heq => hnot (heq ▸ hb)
        rw [htimer, hframe.delta, halarm, update_of_ne hba]
        exact h.armed _ harms hidle b hb
      · exact (h.armed q harms hidle).remove h.queues heq ha (hsame q heq) halarm

theorem Inv.init (h : Inv s) (hq : (s.alarm a).queued = false) (type : AlarmType) : Inv (alarmInit a type s) := by
  have hout : ∀ q, ¬ ((s.alarm a).queued = true ∧ (s.alarm a).type = q) := fun q hx => by simp [hq] at hx
  refine ⟨fun q => (h.queues q).setAlarm (hout q) nofun, fun q harms hidle => ?_, h.suspending⟩
  refine (h.armed q harms hidle).congr rfl fun b hb => ?_
  have := ((h.queues q).mem b).mp ((h.queues q).mem_of_first hb)
  unfold alarmInit
  grind

theorem Inv.fire (h : Inv s) (q : AlarmType) : Inv (fire q s) := by
  have hframe : Frame s (Alarm.fire q s) := Frame.setTimer.trans .setTrigger
  unfold Alarm.fire State.setTimer at hframe ⊢
  refine ⟨fun q' => (h.queues q').congr (by grind) (by grind) (by grind) (by grind), fun q' harms hidle => ?_, h.suspending⟩
  rw [hframe.arms] at harms
  exact (h.armed q' harms (by grind)).congr (by grind) (by grind)

theorem Inv.triggerEnd (h : Inv s) (q : AlarmType) : Inv ((updateTimerLocked q true s).setTrigger q .idle) := by
  have hframe : Frame s (updateTimerLocked q true s) := updateTimerLocked_frame true
  refine ⟨fun q' => (queueOk_update (h.queues q')).congr rfl rfl (fun _ => Iff.rfl) fun _ _ => rfl, fun q' harms hidle => ?_,
    fun hs => hframe.suspended.trans (h.suspending fun hx => hs (hframe.suspend.trans hx))⟩
  have harms' : arms s q' = true := hframe.arms.symm.trans harms
  by_cases heq : q' = q
  · subst heq
    exact armed_update harms'
  · refine (h.armed q' harms' (by simpa [heq] using hidle)).congr (by simp [heq]) fun _ _ => by simp

theorem Inv.triggerLoop (h : Inv s) (q : AlarmType) (now : Int) : ∃ o t, triggerLoop q now s = .ok (o, t) ∧ Inv t := by
  unfold Alarm.triggerLoop
  cases hf : (s.queue q).first with
  | none => exact ⟨_, _, rfl, h.triggerEnd q⟩
  | some a =>
    simp only
    split
    · exact ⟨_, _, rfl, h.triggerEnd q⟩
    have ha := (h.queues q).mem_of_first hf
    obtain ⟨t, hx, hqueues, hsame, -, -, halarm, htrigger⟩ := removeAlarm_spec h.queues ha
    have hframe := removeAlarm_frame hx
    simp only [hx, ok_bind]
    refine ⟨_, _, rfl, fun q' => (hqueues q').congr rfl rfl (fun _ => Iff.rfl) fun _ _ => rfl,
      fun q' harms hidle => ?_, fun hs => hframe.suspended.trans (h.suspending fun hx => hs (hframe.suspend.trans hx))⟩
    have harms' : arms s q' = true := hframe.arms.symm.trans harms
    by_cases heq : q' = q
    · subst heq
      simp at hidle
    · have hold : Armed t q' := (h.armed q' harms' (by simpa [heq, htrigger] using hidle)).remove h.queues heq ha
        (hsame q' heq) halarm
      exact hold.congr rfl fun _ _ => rfl

/-! ## Setting the time -/

structure SameAlarms (s t : State) : Prop where
  alarm : t.alarm = s.alarm
  trigger : t.trigger = s.trigger
  tree : ∀ q, (t.queue q).alarms = (s.queue q).alarms
  first : ∀ q, (t.queue q).first = (s.queue q).first

theorem SameAlarms.refl (s : State) : SameAlarms s s := ⟨rfl, rfl, fun _ => rfl, fun _ => rfl⟩

theorem SameAlarms.trans {u : State} (h : SameAlarms s t) (h' : SameAlarms t u) : SameAlarms s u :=
  ⟨h'.alarm.trans h.alarm, h'.trigger.trans h.trigger, fun q => (h'.tree q).trans (h.tree q),
    fun q => (h'.first q).trans (h.first q)⟩

theorem SameAlarms.queueOk (h : SameAlarms s t) (hq : QueueOk s q) : QueueOk t q :=
  hq.congr (h.tree q) (h.first q) (fun _ => by rw [h.alarm]) fun _ _ => by rw [h.alarm]

theorem SameAlarms.armed (h : SameAlarms s t) (ha : Armed s q) (hq : t.queue q = s.queue q) : Armed t q :=
  ha.congr hq fun _ _ => by rw [h.alarm]

theorem sameAlarms_setQueue {base : Queue} (htree : base.alarms = (s.queue q).alarms) (hfirst : base.first = (s.queue q).first) :
    SameAlarms s (s.setQueue q base) := by
  exact ⟨rfl, rfl, by grind, by grind⟩

theorem sameAlarms_update {hr : Bool} : SameAlarms s (updateTimerLocked q hr s) := by
  obtain ⟨l, h⟩ := updateTimerLocked_eq (s := s) (q := q) hr
  have hset : SameAlarms s (s.setTimer q (nextTimer s q)) := sameAlarms_setQueue rfl rfl
  rw [h]
  exact ⟨hset.alarm, hset.trigger, hset.tree, hset.first⟩

theorem sameAlarms_stopQueue : SameAlarms s (stopQueue s q) := by
  have hcancel : SameAlarms s (s.tryToCancelTimer q) := by
    unfold State.tryToCancelTimer
    split
    · exact sameAlarms_setQueue rfl rfl
    · exact .refl s
  exact hcancel.trans (sameAlarms_setQueue rfl rfl)

theorem sameAlarms_restartQueue : SameAlarms s (restartQueue s q) :=
  have hrun : SameAlarms s (s.setQueue q { s.queue q with stopped := false }) := sameAlarms_setQueue rfl rfl
  hrun.trans sameAlarms_update

theorem SameAlarms.foldl {f : State → AlarmType → State} (hf : ∀ s q, SameAlarms s (f s q))
    (hout : ∀ s q q', q' ≠ q → (f s q).queue q' = s.queue q') (l : List AlarmType) (s : State) :
    SameAlarms s (l.foldl f s) ∧ ∀ q ∉ l, (l.foldl f s).queue q = s.queue q := by
  induction l generalizing s with
  | nil => exact ⟨.refl s, fun _ _ => rfl⟩
  | cons q l ih =>
    obtain ⟨hsame, hold⟩ := ih (f s q)
    refine ⟨(hf s q).trans hsame, fun q' hq' => ?_⟩
    rw [List.mem_cons, not_or] at hq'
    rw [List.foldl_cons, hold q' hq'.2, hout s q q' hq'.1]

theorem foldl_stopQueue_same (l : List AlarmType) (s : State) : SameAlarms s (l.foldl stopQueue s) ∧
    ∀ q ∉ l, (l.foldl stopQueue s).queue q = s.queue q :=
  SameAlarms.foldl (fun _ _ => sameAlarms_stopQueue) (fun _ _ _ h => by simp [stopQueue, h, tryToCancelTimer_queue_of_ne h]) l s

theorem foldl_restartQueue_same (l : List AlarmType) (s : State) : SameAlarms s (l.foldl restartQueue s) ∧
    ∀ q ∉ l, (l.foldl restartQueue s).queue q = s.queue q :=
  SameAlarms.foldl (fun _ _ => sameAlarms_restartQueue) (fun _ _ _ h => by simp [restartQueue, h]) l s

theorem sameAlarms_setDelta {d : Int} {x : SetRtc} : SameAlarms s
    { (s.setQueue .elapsedRealtime { s.queue .elapsedRealtime with delta := d }).setQueue .elapsedRealtimeWakeup
        { (s.setQueue .elapsedRealtime { s.queue .elapsedRealtime with delta := d }).queue .elapsedRealtimeWakeup with
          delta := d } with setRtc := x } := by
  have hdelta : ∀ (s : State) (q : AlarmType), SameAlarms s (s.setQueue q { s.queue q with delta := d }) :=
    fun _ _ => sameAlarms_setQueue rfl rfl
  have h := (hdelta s .elapsedRealtime).trans (hdelta _ .elapsedRealtimeWakeup)
  exact ⟨h.alarm, h.trigger, h.tree, h.first⟩

theorem not_realtime (h : q ∉ realtimeTypes) : q = .systemtime := by
  cases q <;> simp [realtimeTypes] at h ⊢

theorem Inv.setRtcStop (h : Inv s) (n : Int) : Inv (setRtcStop n s) := by
  obtain ⟨hsame, hout⟩ := foldl_stopQueue_same realtimeTypes { s with wakeLock := .held }
  have hk := Keeps.foldl stopQueue_keeps realtimeTypes { s with wakeLock := .held }
  have hsame' : SameAlarms s (Alarm.setRtcStop n s) := by
    have h0 : SameAlarms s { s with wakeLock := .held } := ⟨rfl, rfl, fun _ => rfl, fun _ => rfl⟩
    exact (h0.trans hsame).trans sameAlarms_setDelta
  refine ⟨fun q => hsame'.queueOk (h.queues q), fun q harms hidle => ?_,
    fun hs => hk.suspended.trans (h.suspending fun hx => hs (hk.suspend.trans hx))⟩
  have hclock : ((Alarm.setRtcStop n s).queue q).clock.2.1 = false := (arms_iff.mp harms).1
  rw [setRtcStop_clock] at hclock
  cases q with
  | systemtime =>
    have hq : (Alarm.setRtcStop n s).queue .systemtime = s.queue .systemtime := by
      have := hout .systemtime (by decide)
      simpa [Alarm.setRtcStop] using this
    rw [hsame'.trigger] at hidle
    exact hsame'.armed (h.armed .systemtime (arms_iff.mpr ⟨hclock, .inl rfl⟩) hidle) hq
  | rtcWakeup | rtc | elapsedRealtimeWakeup | elapsedRealtime => cases hclock

theorem foldl_restartQueue_armed (l : List AlarmType) (s : State) (hq : q ∈ l)
    (harms : arms (l.foldl restartQueue s) q = true) : Armed (l.foldl restartQueue s) q := by
  induction l generalizing s with
  | nil => cases hq
  | cons q' l ih =>
    rw [List.foldl_cons] at harms ⊢
    by_cases hmem : q ∈ l
    · exact ih _ hmem harms
    obtain rfl : q = q' := (List.mem_cons.mp hq).resolve_right hmem
    obtain ⟨hsame, hout⟩ := foldl_restartQueue_same l (restartQueue s q)
    refine hsame.armed (armed_update ?_) (hout q hmem)
    have hsus := ((restartQueue_keeps s q).trans (Keeps.foldl restartQueue_keeps l _)).suspended
    rw [arms_iff, hsus] at harms
    exact arms_iff.mpr ⟨by simp, harms.2⟩

theorem Inv.setRtcRestart (h : Inv s) (ok : Bool) : Inv (setRtcRestart ok s) := by
  obtain ⟨hsame, hout⟩ := foldl_restartQueue_same realtimeTypes s
  have hk := Keeps.foldl restartQueue_keeps realtimeTypes s
  have hsame' : SameAlarms s (Alarm.setRtcRestart ok s) := ⟨hsame.alarm, hsame.trigger, hsame.tree, hsame.first⟩
  refine ⟨fun q => hsame'.queueOk (h.queues q), fun q harms hidle => ?_,
    fun hs => hk.suspended.trans (h.suspending fun hx => hs (hk.suspend.trans hx))⟩
  by_cases hq : q ∈ realtimeTypes
  · exact foldl_restartQueue_armed _ s hq harms
  rw [hsame'.trigger] at hidle
  have hsame_q : (Alarm.setRtcRestart ok s).queue q = s.queue q := hout q hq
  refine hsame'.armed (h.armed q ?_ hidle) hsame_q
  obtain rfl := not_realtime hq
  rw [arms_iff, hsame_q] at harms
  exact arms_iff.mpr ⟨harms.1, .inl rfl⟩

theorem sameAlarms_wakeUp : SameAlarms s (wakeUp s) := by
  have h0 : SameAlarms s { s with suspended := false } := ⟨rfl, rfl, fun _ => rfl, fun _ => rfl⟩
  exact (h0.trans sameAlarms_update).trans sameAlarms_update

theorem armed_wakeUp (h : Inv s) (harms : arms (wakeUp s) q = true) (hidle : s.trigger q = .idle) : Armed (wakeUp s) q := by
  rw [wakeUp_frame.arms] at harms
  cases q with
  | elapsedRealtimeWakeup => exact armed_update ((updateTimerLocked_frame false).arms.trans harms)
  | rtcWakeup =>
    have harmed : Armed (updateTimerLocked .rtcWakeup false { s with suspended := false }) .rtcWakeup := armed_update harms
    exact sameAlarms_update.armed harmed (by simp)
  | rtc | elapsedRealtime | systemtime =>
    exact sameAlarms_wakeUp.armed (h.armed _ (arms_iff.mpr ⟨(arms_iff.mp harms).1, .inl rfl⟩) hidle) (by simp [wakeUp])

theorem Inv.wakeUp (h : Inv s) : Inv { wakeUp s with suspend := .idle } := by
  have hsame : SameAlarms s { Alarm.wakeUp s with suspend := .idle } :=
    ⟨sameAlarms_wakeUp.alarm, sameAlarms_wakeUp.trigger, sameAlarms_wakeUp.tree, sameAlarms_wakeUp.first⟩
  refine ⟨fun q => hsame.queueOk (h.queues q), fun q harms hidle => ?_, nofun⟩
  rw [hsame.trigger] at hidle
  exact (armed_wakeUp h harms hidle).congr rfl fun _ _ => rfl

theorem Inv.cancelTimer (h : Inv s) (hq : (s.queue q).first = none ∨ arms s q = false) (x : Suspend)
    (hx : s.suspended = true) : Inv { cancelTimer q s with suspend := x } := by
  have hframe : Frame s (Alarm.cancelTimer q s) := .setTimer
  have hsame : SameAlarms s { Alarm.cancelTimer q s with suspend := x } := by
    have : SameAlarms s (Alarm.cancelTimer q s) := sameAlarms_setQueue rfl rfl
    exact ⟨this.alarm, this.trigger, this.tree, this.first⟩
  refine ⟨fun q' => hsame.queueOk (h.queues q'), fun q' harms hidle => ?_, fun _ => hx⟩
  have harms' : arms s q' = true := hframe.arms.symm.trans harms
  by_cases heq : q' = q
  · subst heq
    intro a ha
    rw [hsame.first] at ha
    grind
  · exact hsame.armed (h.armed q' harms' hidle) (by simp [Alarm.cancelTimer, State.setTimer, heq])

end G3Mod.Alarm
