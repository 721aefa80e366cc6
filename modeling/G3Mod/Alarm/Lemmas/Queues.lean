import G3Mod.Alarm.Lemmas.Basic

/-!
# The trees of the queues
-/

namespace G3Mod.Alarm

open Function Lib Rbtree

variable {s t : State} {q q' : AlarmType} {a b : AlarmId}

/-- The tree of a queue holds its queued alarms in the order of their expiry, and `first` is the leftmost one. -/
structure QueueOk (s : State) (q : AlarmType) : Prop where
  valid : Valid (s.queue q).alarms
  nodup : (s.queue q).alarms.inorder.Nodup
  mem : ∀ a, a ∈ (s.queue q).alarms.inorder ↔ (s.alarm a).queued = true ∧ (s.alarm a).type = q
  sorted : (s.queue q).alarms.inorder.Pairwise fun a b => (s.alarm a).expires ≤ (s.alarm b).expires
  first : (s.queue q).first = (s.queue q).alarms.inorder.head?

theorem QueueOk.mem_of_first (h : QueueOk s q) (hf : (s.queue q).first = some a) : a ∈ (s.queue q).alarms.inorder := by
  rw [h.first] at hf
  exact List.mem_of_mem_head? hf

theorem QueueOk.congr (h : QueueOk s q) (htree : (t.queue q).alarms = (s.queue q).alarms)
    (hfirst : (t.queue q).first = (s.queue q).first)
    (hmem : ∀ a, (t.alarm a).queued = true ∧ (t.alarm a).type = q ↔ (s.alarm a).queued = true ∧ (s.alarm a).type = q)
    (hexp : ∀ a ∈ (s.queue q).alarms.inorder, (t.alarm a).expires = (s.alarm a).expires) : QueueOk t q where
  valid := htree ▸ h.valid
  nodup := htree ▸ h.nodup
  mem a := by rw [htree, hmem, h.mem]
  sorted := by
    rw [htree]
    refine h.sorted.imp_of_mem fun {x y} hx hy hle => ?_
    rw [hexp x hx, hexp y hy]
    exact hle
  first := by rw [hfirst, htree, h.first]

theorem QueueOk.setAlarm {x : Alarm} (h : QueueOk s q) (hout : ¬ ((s.alarm a).queued = true ∧ (s.alarm a).type = q))
    (hout' : ¬ (x.queued = true ∧ x.type = q)) : QueueOk (s.setAlarm a x) q := by
  have := h.mem
  exact h.congr rfl rfl (by grind) (by grind)

/-! ## Leaving a queue -/

theorem QueueOk.erase (h : QueueOk s q) (ha : a ∈ (s.queue q).alarms.inorder) : ∃ tree pre post,
    rbErase a (s.queue q).alarms = some tree ∧ Valid tree ∧ (s.queue q).alarms.inorder = pre ++ a :: post ∧
    tree.inorder = pre ++ post ∧ a ∉ pre ++ post ∧ firstWithout q a s = (pre ++ post).head? ∧
    ((s.queue q).first = some a → pre = []) := by
  obtain ⟨tree, htree, hvalid, pre, post, hold, hnew⟩ := rbErase_spec h.valid ha
  have hnodup := h.nodup
  rw [hold] at hnodup
  have hout : a ∉ pre ++ post := (List.nodup_cons.mp (List.perm_middle.nodup_iff.mp hnodup)).1
  have hpre : a ∉ pre := fun hm => hout (List.mem_append_left _ hm)
  have hhead : (s.queue q).first = some a → pre = [] := by
    intro hf
    rw [h.first, hold] at hf
    cases pre with
    | nil => rfl
    | cons x pre =>
      cases hf
      exact absurd List.mem_cons_self hpre
  refine ⟨tree, pre, post, htree, hvalid, hold, hnew, hout, ?_, hhead⟩
  unfold firstWithout
  split
  · next hf => rw [rbNext_eq hold hpre, hhead hf, List.nil_append]
  rename_i hf
  rw [h.first, hold] at hf ⊢
  cases pre with
  | nil => exact absurd rfl hf
  | cons x pre => rfl

theorem removeAlarm_spec (h : ∀ q, QueueOk s q) (ha : a ∈ (s.queue q).alarms.inorder) : ∃ t,
    removeAlarm q a s = .ok t ∧ (∀ q, QueueOk t q) ∧ (∀ q', q' ≠ q → t.queue q' = s.queue q') ∧
    (t.queue q).timer = (s.queue q).timer ∧ (t.queue q).first = firstWithout q a s ∧
    t.alarm = update s.alarm a { s.alarm a with queued := false } ∧ t.trigger = s.trigger := by
  obtain ⟨tree, pre, post, htree, hvalid, hold, hnew, hout, hfirst, -⟩ := (h q).erase ha
  obtain ⟨hqueued, htype⟩ := ((h q).mem a).mp ha
  have hx : removeAlarm q a s = .ok ((s.setQueue q { s.queue q with alarms := tree, first := firstWithout q a s }).setAlarm a
      { s.alarm a with queued := false }) := by
    simp only [removeAlarm, htree, ofTree, ok_bind]
  refine ⟨_, hx, fun q' => ?_, fun q' hne => by simp [hne], by simp, by simp, rfl, rfl⟩
  by_cases heq : q' = q
  · subst heq
    have hmem : ∀ b, b ∈ pre ++ post ↔ b ≠ a ∧ b ∈ (s.queue q').alarms.inorder := by grind
    have hsub : (pre ++ post).Sublist (s.queue q').alarms.inorder := by
      rw [hold]
      exact (List.sublist_cons_self a post).append_left pre
    refine ⟨by simpa using hvalid, ?_, fun b => ?_, ?_, ?_⟩
    · simpa [hnew] using (h q').nodup.sublist hsub
    · have := (h q').mem b
      grind
    · simp only [State.setAlarm_queue, State.setQueue_queue, if_true, hnew]
      refine ((h q').sorted.sublist hsub).imp_of_mem fun {x y} hx hy hle => ?_
      grind
    · simpa [hnew] using hfirst
  · have hq' : QueueOk (s.setQueue q { s.queue q with alarms := tree, first := firstWithout q a s }) q' :=
      (h q').congr (by simp [heq]) (by simp [heq]) (fun _ => Iff.rfl) fun _ _ => rfl
    exact hq'.setAlarm (fun ht => heq (ht.2.symm.trans htype)) nofun

theorem QueueOk.eraseQueued {x : Alarm} (h : QueueOk s (s.alarm a).type) (hx : x.type = (s.alarm a).type)
    (hq : x.queued = (s.alarm a).queued) : ∃ tree, eraseQueued a (s.setAlarm a x) = .ok tree ∧ Valid tree ∧
      a ∉ tree.inorder ∧ tree.inorder.Sublist (s.queue (s.alarm a).type).alarms.inorder ∧
      (∀ b, b ≠ a → (b ∈ tree.inorder ↔ b ∈ (s.queue (s.alarm a).type).alarms.inorder)) ∧
      firstWithout (s.alarm a).type a (s.setAlarm a x) = tree.inorder.head? := by
  have htype : ((s.setAlarm a x).alarm a).type = (s.alarm a).type := by simpa using hx
  have hqueued : ((s.setAlarm a x).alarm a).queued = (s.alarm a).queued := by simpa using hq
  unfold Alarm.eraseQueued
  rw [htype, hqueued]
  split
  next hin =>
    obtain ⟨tree, pre, post, htree, hvalid, hold, hnew, hout, hfirst, -⟩ := h.erase ((h.mem a).mpr ⟨hin, rfl⟩)
    refine ⟨tree, by rw [State.setAlarm_queue, htree]; rfl, hvalid, hnew ▸ hout, ?_, fun b hb => ?_, hnew ▸ hfirst⟩
    · rw [hold, hnew]
      exact (List.sublist_cons_self a post).append_left pre
    · rw [hold, hnew]
      simp [hb]
  rename_i hin
  have hout : a ∉ (s.queue (s.alarm a).type).alarms.inorder := fun hm => hin ((h.mem a).mp hm).1
  refine ⟨_, rfl, h.valid, hout, List.Sublist.refl _, fun _ _ => Iff.rfl, ?_⟩
  have hne : (s.queue (s.alarm a).type).first ≠ some a := fun hf => hout (h.mem_of_first hf)
  unfold firstWithout
  rw [State.setAlarm_queue, if_neg hne, h.first]

theorem descend_enqueue {tree : RbTree AlarmId} (hvalid : Valid tree)
    (hsorted : tree.inorder.Pairwise fun a b => (s.alarm a).expires ≤ (s.alarm b).expires) :
    ∃ path tree' L R, descend (enqueueSide s a) tree [] = .ok path ∧ rbInsert path a = some tree' ∧ Valid tree' ∧
      tree.inorder = L ++ R ∧ tree'.inorder = L ++ a :: R ∧ (path.all (fun f => f.side = .left) = true ↔ L = []) ∧
      (∀ b ∈ L, (s.alarm b).expires ≤ (s.alarm a).expires) ∧ ∀ b ∈ R, (s.alarm a).expires ≤ (s.alarm b).expires := by
  let side : AlarmId → Side := fun b => if (s.alarm a).expires < (s.alarm b).expires then .left else .right
  have hleft : ∀ b, side b = .left ↔ (s.alarm a).expires < (s.alarm b).expires := by
    intro b
    simp only [side]
    split <;> simp_all
  have hright : ∀ b, side b = .right ↔ (s.alarm b).expires ≤ (s.alarm a).expires := by
    intro b
    simp only [side]
    split <;> simp_all
  have hmono : tree.inorder.Pairwise fun x y => side x = .left → side y = .left := by
    refine hsorted.imp fun {x y} hle hx => ?_
    rw [hleft] at hx ⊢
    omega
  have hdir : ∀ b ∈ tree.inorder, enqueueSide s a b = .ok (side b) := fun _ _ => rfl
  obtain ⟨path, c, L, R, hpath, hhole, hsplit, hbefore, hafter, hL, hR⟩ := descend_spec hvalid.fits hdir hmono
  obtain ⟨tree', hins, hvalid', hnew⟩ := rbInsert_spec hhole a
  have hbefore : before path = L := by simpa [before] using hbefore
  have hafter : after path = R := by simpa [after] using hafter
  refine ⟨path, tree', L, R, hpath, hins, hvalid', hsplit, by rw [hnew, hbefore, hafter], ?_, fun b hb => ?_, fun b hb => ?_⟩
  · rw [← hbefore, before_eq_nil_iff]
    simp
  · exact (hright b).mp (hL b hb)
  · exact Int.le_of_lt ((hleft b).mp (hR b hb))

theorem queueOk_insert (h : ∀ q, QueueOk s q) {q : AlarmType} {start stop : Int} {tree tree' : RbTree AlarmId}
    {L R : List AlarmId} (hq : (s.alarm a).type = q) (halarm : t.alarm = update s.alarm a ⟨q, start, stop, true⟩)
    (hsame : ∀ q', q' ≠ q → t.queue q' = s.queue q') (htree : (t.queue q).alarms = tree')
    (hfirst : (t.queue q).first = (L ++ a :: R).head?) (hvalid : Valid tree') (hnew : tree'.inorder = L ++ a :: R)
    (hold : tree.inorder = L ++ R) (hout : a ∉ tree.inorder) (hsub : tree.inorder.Sublist (s.queue q).alarms.inorder)
    (hmem : ∀ b, b ≠ a → (b ∈ tree.inorder ↔ b ∈ (s.queue q).alarms.inorder))
    (hL : ∀ b ∈ L, (s.alarm b).expires ≤ stop) (hR : ∀ b ∈ R, stop ≤ (s.alarm b).expires) : ∀ q', QueueOk t q' := by
  have halarm : ∀ b, t.alarm b = if b = a then ⟨q, start, stop, true⟩ else s.alarm b := fun b => by
    rw [halarm, update_apply]
  intro q'
  have hmem' := (h q').mem
  by_cases heq : q' = q
  · subst heq
    have hperm : (L ++ a :: R).Perm (a :: tree.inorder) := hold ▸ List.perm_middle
    refine ⟨htree ▸ hvalid, ?_, fun b => ?_, ?_, by rw [hfirst, htree, hnew]⟩
    · rw [htree, hnew, hperm.nodup_iff]
      exact List.nodup_cons.mpr ⟨hout, (h q').nodup.sublist hsub⟩
    · rw [htree, hnew, hperm.mem_iff]
      grind
    have hpair := (h q').sorted.sublist hsub
    rw [hold] at hpair
    have hpair' : (L ++ R).Pairwise fun b c => (t.alarm b).expires ≤ (t.alarm c).expires :=
      hpair.imp_of_mem fun {b c} hb hc hle => by grind
    rw [htree, hnew]
    rw [List.pairwise_append] at hpair' ⊢
    grind [List.pairwise_cons]
  · exact (h q').congr (by rw [hsame q' heq]) (by rw [hsame q' heq]) (by grind) (by grind)

theorem alarmStartRange_spec (h : ∀ q, QueueOk s q) (hq : (s.alarm a).type = q) (start stop : Int) :
    ∃ t, alarmStartRange a start stop s = .ok t ∧ (∀ q, QueueOk t q) ∧ (∀ q', q' ≠ q → t.queue q' = s.queue q') ∧
      t.alarm = update s.alarm a ⟨q, start, stop, true⟩ ∧ t.trigger = s.trigger ∧
      ((t.queue q).first = some a ∧ (arms s q = true → (t.queue q).timer.active = true ∧
          (t.queue q).timer.expires = (s.queue q).delta + stop) ∨
        (t.queue q).timer = (s.queue q).timer ∧
          ∃ b, b ≠ a ∧ (t.queue q).first = some b ∧ b ∈ (s.queue q).alarms.inorder) := by
  let x : Alarm := { s.alarm a with softexpires := start, expires := stop }
  have hself : (s.setAlarm a x).alarm a = x := by simp
  obtain ⟨tree, herase, hvalid, hout, hsub, hmem, hfirst⟩ := (h _).eraseQueued (x := x) rfl rfl
  rw [hq] at hsub hmem hfirst
  have hne : ∀ b ∈ tree.inorder, b ≠ a := fun b hb heq => hout (heq ▸ hb)
  have hsorted : tree.inorder.Pairwise fun b c =>
      ((s.setAlarm a x).alarm b).expires ≤ ((s.setAlarm a x).alarm c).expires := by
    refine ((h _).sorted.sublist hsub).imp_of_mem fun {b c} hb hc hle => ?_
    grind
  obtain ⟨path, tree', L, R, hpath, hins, hvalid', hsplit, hnew, hleftmost, hL, hR⟩ := descend_enqueue (a := a) hvalid hsorted
  -- what the last two lines of `alarm_enqueue_locked` do
  have hplace : ∀ s2 : State, s2.alarm = (s.setAlarm a x).alarm → s2.trigger = s.trigger →
      (∀ q', q' ≠ q → s2.queue q' = s.queue q') → (s2.queue q).first = (L ++ a :: R).head? →
      ∀ t, t = (s2.setQueue q { s2.queue q with alarms := tree' }).setAlarm a { s2.alarm a with queued := true } →
      (∀ q, QueueOk t q) ∧ (∀ q', q' ≠ q → t.queue q' = s.queue q') ∧
      t.alarm = update s.alarm a ⟨q, start, stop, true⟩ ∧ t.trigger = s.trigger ∧
      (t.queue q).first = (L ++ a :: R).head? ∧ (t.queue q).timer = (s2.queue q).timer := by
    rintro s2 halarm2 htrigger2 hsame2 hfirst2 t ht
    have hsame : ∀ q', q' ≠ q → t.queue q' = s.queue q' := by grind
    have halarm : t.alarm = update s.alarm a ⟨q, start, stop, true⟩ := by
      funext b
      simp only [ht, State.setAlarm_alarm, State.setQueue_alarm, halarm2, update_apply]
      split <;> simp [x, hq]
    exact ⟨queueOk_insert h hq halarm hsame (by simp [ht]) (by simpa [ht] using hfirst2) hvalid' hnew hsplit hout hsub hmem
      (by grind) (by grind), hsame, halarm, by subst ht; exact htrigger2, by simpa [ht] using hfirst2, by simp [ht]⟩
  have hx : alarmStartRange a start stop s = alarmEnqueueLocked a (s.setAlarm a x) := rfl
  rw [hx]
  have htype : x.type = q := hq
  simp only [alarmEnqueueLocked, herase, ok_bind, hpath, hins, ofTree, hself, htype]
  refine ⟨_, rfl, ?_⟩
  cases L with
  | nil =>
    -- the new alarm is the leftmost one
    rw [if_pos (hleftmost.mpr rfl)]
    let s1 := (s.setAlarm a x).setQueue q { s.queue q with alarms := tree, first := some a }
    obtain ⟨h1, h2, h3, h4, h5, h6⟩ := hplace (updateTimerLocked q false s1) (updateTimerLocked_alarm false)
      (updateTimerLocked_trigger false) (fun q hq => by simp [s1, hq]) (by simp [s1]) _ rfl
    refine ⟨h1, h2, h3, h4, .inl ⟨h5, fun harms => ?_⟩⟩
    have htimer : nextTimer s1 q = ⟨true, (s.queue q).delta + stop, (s.queue q).delta + start⟩ := by
      have harms' : arms s1 q = true := by simpa [arms, s1] using harms
      simp [nextTimer, harms', s1, x]
    have harmed := h6.trans (Eq.trans (by rw [updateTimerLocked_queue, if_pos rfl]) htimer)
    exact ⟨congrArg Timer.active harmed, congrArg Timer.expires harmed⟩
  | cons b L =>
    rw [if_neg (fun hall => by cases hleftmost.mp hall)]
    obtain ⟨h1, h2, h3, h4, h5, h6⟩ := hplace ((s.setAlarm a x).setQueue q
      { s.queue q with alarms := tree, first := firstWithout q a (s.setAlarm a x) })
      rfl rfl (fun q hq => by simp [hq]) (by simp [hfirst, hsplit]) _ rfl
    refine ⟨h1, h2, h3, h4, .inr ⟨by simp, b, ?_, h5, ?_⟩⟩
    · exact hne b (hsplit ▸ List.mem_cons_self)
    · exact hsub.subset (hsplit ▸ List.mem_cons_self)

end G3Mod.Alarm
