import G3Mod.Alarm.Lemmas.Basic

/-!
# Elapsed realtime
-/

namespace G3Mod.Alarm

open Lib

variable {s s₀ t : State}

def SetRtc.newTime : SetRtc → Option Int
  | .stopped n | .set n _ => some n
  | .idle | .restarted _ => none

/-- Elapsed realtime is not read while the queues are stopped, and the time can be set, or stays as it is. -/
def Op.Steady (s : State) : Op → Prop
  | .getElapsedRealtime => ∀ n, s.setRtc.newTime = some n → (s.queue .elapsedRealtime).stoppedTime = n
  | .setRtcSettime ok => ok = true ∨ s.setRtc.newTime = some (s.queue .elapsedRealtime).stoppedTime
  | _ => True

def steadyMachine : Machine State Op (List Event) Fault where
  init := Initial
  enabled s op := op.Permitted s ∧ op.Steady s
  exec := exec

def Event.reading : Event → Option Int
  | .elapsedRealtime t => some t
  | _ => none

def readings (es : List (Op × List Event)) : List Int := (es.flatMap Prod.snd).filterMap Event.reading

def reached (s : State) : Int :=
  match s.setRtc with
  | .idle | .restarted _ => s.wall - (s.queue .elapsedRealtime).delta
  | .stopped n | .set n _ => n - (s.queue .elapsedRealtime).delta

def elapsedBound (s₀ s : State) : Int := s.real - s₀.real + s₀.mono

/-- Elapsed realtime is not ahead of the real time, whatever comes next. -/
def NotAhead (s₀ s : State) : Prop :=
  match s.setRtc with
  | .idle | .restarted _ => s.wall - (s.queue .elapsedRealtime).delta ≤ elapsedBound s₀ s
  | .stopped n => (s.queue .elapsedRealtime).stoppedTime ≤ s.wall ∧
      s.wall - (s.queue .elapsedRealtime).stoppedTime + (n - (s.queue .elapsedRealtime).delta) ≤ elapsedBound s₀ s
  | .set n _ => n ≤ s.wall ∧ s.wall - (s.queue .elapsedRealtime).delta ≤ elapsedBound s₀ s

structure Continuous (s₀ s : State) (rs : List Int) : Prop where
  stopped : (s.queue .elapsedRealtime).stopped = s.setRtc.stops
  notAhead : NotAhead s₀ s
  ascending : rs.Pairwise (· ≤ ·)
  reached : ∀ r ∈ rs, r ≤ reached s

variable {rs : List Int}

theorem Continuous.reached_le (h : Continuous s₀ s rs) : Alarm.reached s ≤ elapsedBound s₀ s := by
  have hn := h.notAhead
  unfold NotAhead at hn
  unfold Alarm.reached
  split at hn <;> simp_all <;> omega

theorem Continuous.reading (h : Continuous s₀ s rs) (hs : Op.getElapsedRealtime.Steady s) :
    alarmGetElapsedRealtime s = Alarm.reached s := by
  have hstop := h.stopped
  unfold alarmGetElapsedRealtime State.now Alarm.reached
  rw [hstop]
  cases hc : s.setRtc with
  | idle | restarted => rfl
  | stopped n | set n =>
    rw [hs n (by rw [hc]; rfl)]
    rfl

theorem clock_eq_iff {a b : Queue} :
    a.clock = b.clock ↔ a.delta = b.delta ∧ a.stopped = b.stopped ∧ a.stoppedTime = b.stoppedTime := by
  simp [Queue.clock]

theorem Continuous.step (h : Continuous s₀ s rs) {op : Op} (hop : op.Steady s) (hc : ClockStep s t op) :
    Continuous s₀ t rs := by
  obtain ⟨hstop, hn, hasc, hr⟩ := h
  suffices hsuff : (t.queue .elapsedRealtime).stopped = t.setRtc.stops ∧ NotAhead s₀ t ∧
      Alarm.reached s ≤ Alarm.reached t from
    ⟨hsuff.1, hsuff.2.1, hasc, fun r hm => Int.le_trans (hr r hm) hsuff.2.2⟩
  unfold NotAhead elapsedBound at hn ⊢
  unfold Alarm.reached
  cases hc with
  | same hclock hwall hmono hreal hset =>
    obtain ⟨hd, hb, ht⟩ := clock_eq_iff.mp (hclock .elapsedRealtime)
    rw [hd, hb, ht, hwall, hreal, hset]
    exact ⟨hstop, hn, Int.le_refl _⟩
  | stop n hidle hset hwall hmono hreal hclock =>
    obtain ⟨hd, hb, ht⟩ : _ ∧ _ ∧ _ := by
      simpa [Queue.clock] using (hclock .elapsedRealtime).trans (setRtcStop_clock n .elapsedRealtime)
    rw [hidle] at hn ⊢
    rw [hset, hd, hb, ht, hwall, hreal]
    refine ⟨rfl, ?_, ?_⟩ <;> simp only at hn ⊢ <;> omega
  | settime n ok hidle hset hwall hmono hreal hclock =>
    obtain ⟨hd, hb, ht⟩ := clock_eq_iff.mp (hclock .elapsedRealtime)
    rw [hidle] at hn hstop ⊢
    rw [hset, hd, hb, hreal, hwall]
    refine ⟨hstop, ?_, Int.le_refl _⟩
    simp only at hn ⊢
    rcases hop with rfl | hop
    · simp only [if_true]
      omega
    · rw [hidle] at hop
      cases hop
      split <;> omega
  | restart n ok hidle hset hwall hmono hreal hclock =>
    obtain ⟨hd, hb, ht⟩ : _ ∧ _ ∧ _ := by simpa [Queue.clock, realtimeTypes] using hclock .elapsedRealtime
    rw [hidle] at hn ⊢
    rw [hset, hd, hb, hwall, hreal]
    refine ⟨rfl, ?_, ?_⟩ <;> simp only at hn ⊢ <;> omega
  | ended ok rtcOk hidle hset hwall hmono hreal hclock =>
    obtain ⟨hd, hb, ht⟩ := clock_eq_iff.mp (hclock .elapsedRealtime)
    rw [hidle] at hn hstop ⊢
    rw [hset, hd, hb, hwall, hreal]
    exact ⟨hstop, hn, Int.le_refl _⟩
  | tick n hwall hmono hreal hset hclock | sleep n hwall hmono hreal hset hclock =>
    obtain ⟨hd, hb, ht⟩ := clock_eq_iff.mp (hclock .elapsedRealtime)
    rw [hd, hb, ht, hwall, hreal, hset]
    refine ⟨hstop, ?_, ?_⟩
    · split at hn <;> simp_all <;> omega
    · split <;> omega

theorem triggerLoop_readings {q : AlarmType} {now : Int} {o : List Event} (hx : triggerLoop q now s = .ok (o, t)) :
    o.filterMap Event.reading = [] := by
  unfold triggerLoop at hx
  repeat' split at hx
  · cases hx; rfl
  · cases hx; rfl
  · obtain ⟨s', _, hx⟩ := bind_ok hx
    cases hx
    rfl

theorem exec_readings {op : Op} {o : List Event} (hop : op.Permitted s) (hx : exec s op = .ok (o, t)) :
    op = .getElapsedRealtime ∧ o.filterMap Event.reading = [alarmGetElapsedRealtime s] ∧ t = s ∨
      o.filterMap Event.reading = [] := by
  cases op with
  | getElapsedRealtime => cases hx; exact .inl ⟨rfl, rfl, rfl⟩
  | startRange a start stop =>
    obtain ⟨s', _, hx⟩ := bind_ok hx
    cases hx
    exact .inr rfl
  | tryToCancel a =>
    obtain ⟨⟨ret, s'⟩, _, hx⟩ := bind_ok hx
    cases hx
    refine .inr ?_
    split <;> rfl
  | setRtcSettime ok =>
    obtain ⟨n, hn⟩ := hop
    simp only [exec, hn] at hx
    cases hx
    exact .inr rfl
  | setRtcRestart =>
    obtain ⟨n, ok, hn⟩ := hop
    simp only [exec, hn] at hx
    cases hx
    exact .inr rfl
  | setRtcEnd rtcOk =>
    obtain ⟨ok, hn⟩ := hop
    simp only [exec, hn] at hx
    cases hx
    exact .inr rfl
  | triggerEnter q => exact .inr (triggerLoop_readings hx)
  | triggerReturn q =>
    obtain ⟨n, hn⟩ := hop
    simp only [exec, hn] at hx
    exact .inr (triggerLoop_readings hx)
  | suspendChoose r r' =>
    simp only [exec, suspendChoose] at hx
    repeat' split at hx
    all_goals cases hx; exact .inr rfl
  | _ => cases hx; exact .inr rfl

theorem continuous_initial (h : Initial s₀) : Continuous s₀ s₀ [] := by
  obtain ⟨alarm, rtcDev, wall, mono, real, -, rfl⟩ := h
  refine ⟨rfl, ?_, .nil, nofun⟩
  show wall - (wall - mono) ≤ real - real + mono
  omega

theorem continuous_of_run {es : List (Op × List Event)} (h0 : Initial s₀) (hr : steadyMachine.Run s₀ es s) :
    Continuous s₀ s (readings es) := by
  induction hr with
  | nil => exact continuous_initial h0
  | @snoc s t es op o _ hop hx ih =>
    have ht := ih.step hop.2 (clockStep hop.1 hx)
    have hsplit : readings (es ++ [(op, o)]) = readings es ++ o.filterMap Event.reading := by simp [readings]
    rw [hsplit]
    rcases exec_readings hop.1 hx with ⟨rfl, ho, rfl⟩ | ho
    · rw [ho, ih.reading hop.2]
      refine ⟨ht.stopped, ht.notAhead, ?_, ?_⟩
      · refine List.pairwise_append.mpr ⟨ih.ascending, List.pairwise_singleton _ _, ?_⟩
        simpa using ih.reached
      · simpa [or_imp, forall_and] using ih.reached
    · rw [ho, List.append_nil]
      exact ht

/-- Elapsed realtime never goes back nor runs ahead if it is not read while `alarm_set_rtc` has the queues stopped. -/
theorem elapsed_realtime_continuous {es : List (Op × List Event)} (h₀ : Initial s₀) (hr : steadyMachine.Run s₀ es s) :
    (readings es).Pairwise (· ≤ ·) ∧ (Op.getElapsedRealtime.Steady s →
      (∀ r ∈ readings es, r ≤ alarmGetElapsedRealtime s) ∧
      alarmGetElapsedRealtime s ≤ s.real - s₀.real + s₀.mono) := by
  have h := continuous_of_run h₀ hr
  refine ⟨h.ascending, fun hs => ?_⟩
  rw [h.reading hs]
  exact ⟨h.reached, h.reached_le⟩

def sampleState : State := initialState (fun _ => ⟨.rtc, 0, 0, false⟩) true 100 10 0

theorem sampleState_initial : Initial sampleState := ⟨_, _, _, _, _, fun _ => rfl, rfl⟩

theorem elapsed_realtime_continuous_set : ∃ es s, steadyMachine.Run sampleState es s ∧ readings es = [10, 17] ∧
    (readings es).Pairwise (· ≤ ·) ∧ s.wall = 505 ∧ alarmGetElapsedRealtime s ≤ s.real - 0 + 10 := by
  have h0 : steadyMachine.Run sampleState _ _ := .nil
  have h1 := h0.snoc (l := Op.getElapsedRealtime) ⟨trivial, nofun⟩ rfl
  have h2 := h1.snoc (l := Op.tick 2) ⟨trivial, trivial⟩ rfl
  have h3 := h2.snoc (l := Op.setRtcStop 500) ⟨rfl, trivial⟩ rfl
  have h4 := h3.snoc (l := Op.setRtcSettime true) ⟨⟨_, rfl⟩, .inl rfl⟩ rfl
  have h5 := h4.snoc (l := Op.setRtcRestart) ⟨⟨_, _, rfl⟩, trivial⟩ rfl
  have h6 := h5.snoc (l := Op.setRtcEnd true) ⟨⟨_, rfl⟩, trivial⟩ rfl
  have h7 := h6.snoc (l := Op.tick 5) ⟨trivial, trivial⟩ rfl
  have h8 := h7.snoc (l := Op.getElapsedRealtime) ⟨trivial, nofun⟩ rfl
  have h := elapsed_realtime_continuous sampleState_initial h8
  exact ⟨_, _, h8, rfl, h.1, rfl, (h.2 nofun).2⟩

/-- While the clock is set forward, elapsed realtime goes back; when it cannot be set back, elapsed realtime is ahead. -/
theorem elapsed_realtime_jumps :
    (∃ es s, machine.Run sampleState es s ∧ readings es = [10, -390]) ∧
    ∃ es s, machine.Run sampleState es s ∧ s.setRtc = .idle ∧ readings es = [60] ∧ s.real - sampleState.real + 10 = 10 := by
  have h0 : machine.Run sampleState _ _ := .nil
  have h1 := h0.snoc (l := Op.getElapsedRealtime) trivial rfl
  have h2 := h1.snoc (l := Op.setRtcStop 500) rfl rfl
  have h3 := h2.snoc (l := Op.getElapsedRealtime) trivial rfl
  have k1 := h0.snoc (l := Op.setRtcStop 50) rfl rfl
  have k2 := k1.snoc (l := Op.setRtcSettime false) ⟨_, rfl⟩ rfl
  have k3 := k2.snoc (l := Op.setRtcRestart) ⟨_, _, rfl⟩ rfl
  have k4 := k3.snoc (l := Op.setRtcEnd true) ⟨_, rfl⟩ rfl
  have k5 := k4.snoc (l := Op.getElapsedRealtime) trivial rfl
  exact ⟨⟨_, _, h3, rfl⟩, _, _, k5, rfl, rfl, rfl⟩

end G3Mod.Alarm
