import Mathlib.Data.List.Perm.Subperm
import G3Mod.Alarm.Lemmas.Calls
import G3Mod.Alarm.Elapsed

/-!
# A queued alarm can be called
-/

namespace G3Mod.Alarm

open Function Lib Rbtree

variable {s t : State} {q : AlarmType} {a : AlarmId} {op : Op} {o : List Event} {now : Int}

def Op.Serves (q : AlarmType) : Op → Prop
  | .tick _ => True
  | .fire q' | .triggerEnter q' | .triggerReturn q' => q' = q
  | _ => False

def Leads (s : State) (q : AlarmType) (a : AlarmId) : Prop :=
  ∃ es t, machine.Run s es t ∧ (∀ e ∈ es, e.1.Serves q) ∧ ∃ soft now, .called a soft now ∈ es.flatMap Prod.snd

theorem Leads.step (h : Leads t q a) (hop : op.Permitted s) (hq : op.Serves q) (hx : exec s op = .ok (o, t)) :
    Leads s q a := by
  obtain ⟨es, u, hr, hserves, soft, now, hcall⟩ := h
  refine ⟨(op, o) :: es, u, .cons hop hx hr, ?_, soft, now, ?_⟩
  · exact List.forall_mem_cons.mpr ⟨hq, hserves⟩
  · rw [List.flatMap_cons]
    exact List.mem_append_right _ hcall

theorem leads_of_called {soft : Int} (hop : op.Permitted s) (hq : op.Serves q) (hx : exec s op = .ok (o, t))
    (hcall : .called a soft now ∈ o) : Leads s q a := by
  exact ⟨[(op, o)], t, .cons hop hx .nil, by simpa using hq, soft, now, by simpa using hcall⟩

/-! ## `alarm_timer_triggered` -/

def Remain (s t : State) (q : AlarmType) : Prop :=
  ∀ b ∈ (t.queue q).alarms.inorder, b ∈ (s.queue q).alarms.inorder ∧ (t.alarm b).softexpires = (s.alarm b).softexpires

theorem members_called {f : AlarmId} (hs : QueueOk s q) (ht : QueueOk t q)
    (halarm : t.alarm = update s.alarm f { s.alarm f with queued := false }) (b : AlarmId) :
    b ∈ (t.queue q).alarms.inorder ↔ b ≠ f ∧ b ∈ (s.queue q).alarms.inorder := by
  rw [ht.mem, hs.mem, halarm, update_apply]
  grind

theorem leads_loop (op : Op) (h : Inv s) (ha : a ∈ (s.queue q).alarms.inorder) (hop : op.Permitted s) (hq : op.Serves q)
    (hloop : exec s op = triggerLoop q now s)
    (hidle : ∀ t, Inv t → Frame s t → t.trigger q = .idle → a ∈ (t.queue q).alarms.inorder →
      (∃ f ∈ (s.queue q).alarms.inorder, now < (s.alarm f).softexpires) → Leads t q a)
    (hcalling : ∀ t, Inv t → Frame s t → t.trigger q = .calling now → a ∈ (t.queue q).alarms.inorder → Remain s t q →
      (t.queue q).alarms.inorder.length < (s.queue q).alarms.inorder.length → Leads t q a) : Leads s q a := by
  obtain ⟨o, t, hx, ht⟩ := h.triggerLoop q now
  have hframe := triggerLoop_frame hx
  have hexec : exec s op = .ok (o, t) := hloop.trans hx
  rcases triggerLoop_cases h.queues hx with ⟨-, rfl, hsoft⟩ | ⟨f, hf, hsoft, rfl, halarm, htrigger⟩
  · refine Leads.step (hidle _ ht hframe (by simp) ?_ ?_) hop hq hexec
    · simp [*]
    · obtain ⟨f, hf⟩ := (h.queues q).exists_first ha
      exact ⟨f, (h.queues q).mem_of_first hf, hsoft f hf⟩
  by_cases hfa : f = a
  · subst hfa
    exact leads_of_called hop hq hexec (List.mem_cons_self ..)
  have hmem := members_called (h.queues q) (ht.queues q) halarm
  refine Leads.step (hcalling _ ht hframe (by rw [htrigger, update_self]) ?_ ?_ ?_) hop hq hexec
  · exact (hmem a).mpr ⟨fun heq => hfa heq.symm, ha⟩
  · intro b hb
    obtain ⟨hbf, hb⟩ := (hmem b).mp hb
    exact ⟨hb, by rw [halarm, update_of_ne hbf]⟩
  have hfm := (h.queues q).mem_of_first hf
  have hsub : (t.queue q).alarms.inorder ⊆ (s.queue q).alarms.inorder.erase f := fun b hb => by
    obtain ⟨hbf, hb⟩ := (hmem b).mp hb
    exact (List.mem_erase_of_ne hbf).mpr hb
  have hle := (List.subperm_of_subset (ht.queues q).nodup hsub).length_le
  rw [List.length_erase_of_mem hfm] at hle
  have hpos := List.length_pos_of_mem hfm
  omega

theorem leads_calling (n : Nat) : ∀ {s : State}, Inv s → s.trigger q = .calling now → a ∈ (s.queue q).alarms.inorder →
    (s.queue q).alarms.inorder.length ≤ n →
    (∀ t, Inv t → Frame s t → t.trigger q = .idle → a ∈ (t.queue q).alarms.inorder →
      (∃ f ∈ (s.queue q).alarms.inorder, now < (s.alarm f).softexpires) → Leads t q a) → Leads s q a := by
  induction n with
  | zero => grind
  | succ n ih =>
    intro s h hc ha hlen hidle
    refine leads_loop (.triggerReturn q) h ha ⟨now, hc⟩ rfl (by simp only [exec, hc]) hidle ?_
    intro t ht hframe htc hta hremain hless
    refine ih ht htc hta (by omega) fun u hu hframe' hui hua hsoft => ?_
    obtain ⟨f, hf, hsoft⟩ := hsoft
    obtain ⟨hf', heq⟩ := hremain f hf
    exact hidle u hu (hframe.trans hframe') hui hua ⟨f, hf', by rwa [heq] at hsoft⟩

theorem exists_bound : ∀ l : List Int, ∃ n : Nat, ∀ x ∈ l, x ≤ n
  | [] => ⟨0, nofun⟩
  | x :: l => by
      obtain ⟨n, hn⟩ := exists_bound l
      refine ⟨n + x.toNat, fun y hy => ?_⟩
      rcases List.mem_cons.mp hy with rfl | hy
      · omega
      · have := hn y hy
        omega

theorem leads_idle (h : Inv s) (harms : arms s q = true) (hidle : s.trigger q = .idle)
    (ha : a ∈ (s.queue q).alarms.inorder) : Leads s q a := by
  obtain ⟨f, hf⟩ := (h.queues q).exists_first ha
  obtain ⟨hactive, -⟩ := h.armed q harms hidle f hf
  obtain ⟨n, hn⟩ := exists_bound (((s.queue q).timer.softexpires - s.clock q) ::
    (s.queue q).alarms.inorder.map fun b => (s.alarm b).softexpires + (s.queue q).delta - s.clock q)
  -- the clock goes on until everything is due
  have htick : (Op.tick n).Permitted s ∧ (Op.tick n).Spares s := ⟨trivial, trivial⟩
  obtain ⟨o1, s1, hx1, h1⟩ := h.step htick.1 htick.2
  obtain ⟨-, rfl⟩ : _ ∧ _ = s1 := Prod.mk.inj (Except.ok.inj hx1)
  generalize hs1 : ({ s with wall := s.wall + n, mono := s.mono + n, real := s.real + n } : State) = s1 at h1 hx1
  have hclock : s1.clock q = s.clock q + n := by
    subst hs1
    cases q <;> rfl
  have hqueue : s1.queue = s.queue := by subst hs1; rfl
  have halarm : s1.alarm = s.alarm := by subst hs1; rfl
  have htrigger : s1.trigger = s.trigger := by subst hs1; rfl
  have hfire : (Op.fire q).Permitted s1 := by
    refine ⟨by rw [hqueue]; exact hactive, ?_, by rw [htrigger]; exact hidle⟩
    have := hn _ (List.mem_cons_self ..)
    rw [hqueue, hclock]
    omega
  refine Leads.step ?_ htick.1 trivial hx1
  refine Leads.step ?_ hfire rfl rfl
  -- `alarm_timer_triggered` finds them due
  have h2 := h1.fire q
  have hframe : Frame s1 (fire q s1) := Frame.setTimer.trans .setTrigger
  have hnow : (fire q s1).now q = s.clock q + n - (s.queue q).delta := by
    have hstop : (s1.queue q).stopped = false := by rw [hqueue]; exact (arms_iff.mp harms).1
    rw [hframe.now, State.now, hstop, hclock, hqueue]
    rfl
  have htree : ((fire q s1).queue q).alarms = (s.queue q).alarms := by
    rw [← hqueue]
    simp [fire, State.setTimer]
  have hdue : ∀ b ∈ ((fire q s1).queue q).alarms.inorder, ¬ (fire q s1).now q < ((fire q s1).alarm b).softexpires := by
    intro b hb
    rw [htree] at hb
    have := hn _ (List.mem_cons_of_mem _ (List.mem_map_of_mem hb))
    have hsoft : ((fire q s1).alarm b).softexpires = (s.alarm b).softexpires := by rw [← halarm]; rfl
    omega
  refine leads_loop (.triggerEnter q) h2 (by rw [htree]; exact ha) (by simp [Op.Permitted, fire]) rfl rfl ?_ ?_
  · grind
  intro t ht hframe' hc hta hremain _
  refine leads_calling _ ht hc hta (Nat.le_refl _) ?_
  rintro u - - - - ⟨f, hf, hsoft⟩
  obtain ⟨hf', heq⟩ := hremain f hf
  rw [heq] at hsoft
  exact absurd hsoft (hdue f hf')

theorem leads_queued (h : Inv s) (harms : arms s q = true) (ha : a ∈ (s.queue q).alarms.inorder) : Leads s q a := by
  have hrest : ∀ t, Inv t → Frame s t → t.trigger q = .idle → a ∈ (t.queue q).alarms.inorder → Leads t q a :=
    fun t ht hframe hidle hta => leads_idle ht (hframe.arms.trans harms) hidle hta
  cases htrigger : s.trigger q with
  | idle => exact leads_idle h harms htrigger ha
  | entered =>
    refine leads_loop (.triggerEnter q) h ha htrigger rfl rfl
      (fun t ht hframe hidle hta _ => hrest t ht hframe hidle hta) fun t ht hframe hc hta _ _ => ?_
    exact leads_calling _ ht hc hta (Nat.le_refl _) fun u hu hframe' hidle hua _ =>
      hrest u hu (hframe.trans hframe') hidle hua
  | calling now =>
    exact leads_calling _ h htrigger ha (Nat.le_refl _) fun t ht hframe hidle hta _ => hrest t ht hframe hidle hta

/-! # No alarm is lost -/

variable {s₀ : State} {es : List (Op × List Event)}

theorem inv_run (h0 : Initial s₀) (hr : sparingMachine.Run s₀ es s) : Inv s := sparing_inductive.run hr (inv_initial h0)

theorem timely_run (h0 : Initial s₀) (hr : timelyMachine.Run s₀ es s) : Inv s ∧ Timely s := by
  induction hr with
  | nil => exact ⟨inv_initial h0, timely_initial h0⟩
  | @snoc s t es op o _ hop hx ih =>
    obtain ⟨o', t', hx', ht⟩ := ih.1.step hop.1.1 hop.1.2
    rw [show exec s op = .ok (o, t) from hx] at hx'
    cases hx'
    exact ⟨ht, ih.2.step ih.1.queues hop.1.1 hop.2 hx⟩

/-- An alarm is called when it is due by the time that `alarm_timer_triggered` read. -/
theorem called_due {op : Op} {o : List Event} {t : State} {a : AlarmId} {soft now : Int} (h : ∀ q, QueueOk s q)
    (hop : op.Permitted s) (hx : exec s op = .ok (o, t)) (hcall : .called a soft now ∈ o) :
    soft = (s.alarm a).softexpires ∧ soft ≤ now ∧ (Timely s → op.KeepsTime s → soft ≤ t.now (s.alarm a).type) := by
  have hstep := callStep h hop hx
  have htimely : Timely s → op.KeepsTime s → Timely t := fun ht hk => ht.step h hop hk hx
  cases hstep with
  | quiet ho _ _ => exact absurd trivial (ho _ hcall)
  | started b start stop _ _ => simp at hcall
  | cancelled b _ _ _ => simp at hcall
  | called q b now' _ hf hsoft _ htrigger =>
    obtain ⟨rfl, rfl, rfl⟩ : a = b ∧ soft = _ ∧ now = now' := by simpa using hcall
    refine ⟨rfl, hsoft, fun ht hk => Int.le_trans hsoft ?_⟩
    rw [(((h q).mem a).mp ((h q).mem_of_first hf)).2]
    exact (htimely ht hk).called q now (by rw [htrigger, update_self])

/-- If `alarm_suspend` cancels no timer of a system-time alarm, started alarms are called once and when they are due. -/
theorem alarms_not_lost (h₀ : Initial s₀) (hr : sparingMachine.Run s₀ es s) :
    (∀ q, (s.queue q).first = (s.queue q).alarms.inorder.head?) ∧
    (s.suspended = false → ∀ q, (s.queue q).stopped = false → s.trigger q = .idle → (s.queue q).alarms ≠ .nil →
      ∃ a, (s.queue q).first = some a ∧ (s.queue q).timer.active = true ∧
        (s.queue q).timer.expires ≤ (s.queue q).delta + (s.alarm a).expires) ∧
    (∀ a n, tally a es = some n → n = if (s.alarm a).queued then 0 else 1) ∧
    (∀ a, (s.alarm a).queued = true → s.suspended = false → (s.queue (s.alarm a).type).stopped = false →
      ∃ es' t, machine.Run s es' t ∧ (∀ e ∈ es', e.1.Serves (s.alarm a).type) ∧
        ∃ soft now, .called a soft now ∈ es'.flatMap Prod.snd) ∧
    ∀ op : Op, op.Permitted s → op.Spares s → ∃ o t, exec s op = .ok (o, t) ∧ ∀ a soft now, .called a soft now ∈ o →
      soft = (s.alarm a).softexpires ∧ soft ≤ now ∧
        (timelyMachine.Run s₀ es s → op.KeepsTime s → soft ≤ t.now (s.alarm a).type) := by
  have h := inv_run h₀ hr
  refine ⟨fun q => (h.queues q).first, ?_, ?_, ?_, ?_⟩
  · intro hsus q hstop hidle hne
    have harms : arms s q = true := arms_iff.mpr ⟨hstop, .inr hsus⟩
    cases hf : (s.queue q).first with
    | none =>
      rw [(h.queues q).first, List.head?_eq_none_iff] at hf
      cases ht : (s.queue q).alarms with
      | nil => exact absurd ht hne
      | node c l b r =>
        rw [ht] at hf
        simp [RbTree.inorder] at hf
    | some a => exact ⟨a, rfl, h.armed q harms hidle a hf⟩
  · intro a n hn
    have htally : Tallied s a (tally a es) := tallied_run h₀ hr
    rw [hn] at htally
    exact htally
  · intro a hq hsus hstop
    exact leads_queued h (arms_iff.mpr ⟨hstop, .inr hsus⟩) (((h.queues _).mem a).mpr ⟨hq, rfl⟩)
  · intro op hop hs
    obtain ⟨o, t, hx, -⟩ := h.step hop hs
    refine ⟨o, t, hx, fun a soft now hcall => ?_⟩
    obtain ⟨h1, h2, h3⟩ := called_due h.queues hop hx hcall
    exact ⟨h1, h2, fun htr => h3 (timely_run h₀ htr).2⟩

/-- A wakeup alarm is due: `alarm_suspend` returns `-EBUSY` and the timer is armed again. -/
theorem alarms_not_lost_busy : ∃ es s, sparingMachine.Run sampleState es s ∧ tally 1 es = some 0 ∧
    s.suspended = false ∧ (s.queue .rtcWakeup).first = some 1 ∧
    (∃ a, (s.queue .rtcWakeup).first = some a ∧ (s.queue .rtcWakeup).timer.active = true ∧
      (s.queue .rtcWakeup).timer.expires ≤ (s.queue .rtcWakeup).delta + (s.alarm a).expires) ∧
    ∃ es' t, machine.Run s es' t ∧ ∃ soft now, .called 1 soft now ∈ es'.flatMap Prod.snd := by
  have h0 : sparingMachine.Run sampleState _ _ := .nil
  have h1 := h0.snoc (l := Op.init 1 .rtcWakeup) ⟨rfl, trivial⟩ rfl
  have h2 := h1.snoc (l := Op.startRange 1 120 130) ⟨trivial, trivial⟩ rfl
  have h3 := h2.snoc (l := Op.suspendBegin) ⟨rfl, trivial⟩ rfl
  have h4 := h3.snoc (l := Op.suspendCancelWakeup) ⟨⟨rfl, rfl⟩, trivial⟩ rfl
  have h5 := h4.snoc (l := Op.suspendCancelMask) ⟨⟨rfl, fun q hq => by cases hq; rfl⟩, rfl⟩ rfl
  have h6 := h5.snoc (l := Op.suspendChoose 0 0) ⟨rfl, trivial⟩ rfl
  have h7 := h6.snoc (l := Op.suspendBusy) ⟨rfl, trivial⟩ rfl
  have h := alarms_not_lost sampleState_initial h7
  obtain ⟨es', t, hr, -, hcall⟩ := h.2.2.2.1 1 rfl rfl rfl
  exact ⟨_, _, h7, rfl, rfl, rfl, h.2.1 rfl .rtcWakeup rfl rfl nofun, es', t, hr, hcall⟩

/-- After a resume a timer is not armed; and when the clock is set back, an alarm is called before it is due. -/
theorem systemtime_alarm_lost :
    (∃ alarm es s, machine.Run (initialState alarm true 100 10 0) es s ∧ s.suspended = false ∧ s.suspend = .idle ∧
      (s.queue .systemtime).first = some 1 ∧ (s.queue .systemtime).stopped = false ∧ s.trigger .systemtime = .idle ∧
      (s.queue .systemtime).timer.active = false ∧ tally 1 es = some 0) ∧
    ∃ es s o t, machine.Run sampleState es s ∧ Op.Permitted s (.triggerReturn .rtc) ∧
      exec s (.triggerReturn .rtc) = .ok (o, t) ∧ .called 2 110 120 ∈ o ∧ t.now .rtc = 50 := by
  have h0 : machine.Run (initialState (fun _ => ⟨.systemtime, 0, 0, false⟩) true 100 10 0) _ _ := .nil
  have h1 := h0.snoc (l := Op.startRange 1 20 20) trivial rfl
  have h2 := h1.snoc (l := Op.suspendBegin) rfl rfl
  have h3 := h2.snoc (l := Op.suspendCancelWakeup) ⟨rfl, rfl⟩ rfl
  have h4 := h3.snoc (l := Op.suspendCancelMask) ⟨rfl, fun q hq => by cases hq; rfl⟩ rfl
  have h5 := h4.snoc (l := Op.suspendChoose 0 0) rfl rfl
  have h6 := h5.snoc (l := Op.resume) rfl rfl
  have k0 : machine.Run sampleState _ _ := .nil
  have k1 := k0.snoc (l := Op.startRange 1 105 105) trivial rfl
  have k2 := k1.snoc (l := Op.startRange 2 110 110) trivial rfl
  have k3 := k2.snoc (l := Op.tick 20) trivial rfl
  have k4 := k3.snoc (l := Op.fire .rtc) ⟨rfl, by decide, rfl⟩ rfl
  have k5 := k4.snoc (l := Op.triggerEnter .rtc) rfl rfl
  have k6 := k5.snoc (l := Op.setRtcStop 50) rfl rfl
  have k7 := k6.snoc (l := Op.setRtcSettime true) ⟨_, rfl⟩ rfl
  have k8 := k7.snoc (l := Op.setRtcRestart) ⟨_, _, rfl⟩ rfl
  exact ⟨⟨_, _, _, h6, rfl, rfl, rfl, rfl, rfl, rfl, rfl⟩, _, _, _, _, k8, ⟨_, rfl⟩, rfl, List.mem_cons_self .., rfl⟩

end G3Mod.Alarm
