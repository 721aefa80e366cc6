import G3Mod.WakeLock.Lemmas.Timer

/-!
# Theorems on wake locks
-/

namespace G3Mod.WakeLock

open Lib

variable {s : State}

/-- A lock is on the inactive list, or on the active list of its type. -/
def OnItsList (s : State) (l : LockId) : Prop :=
  s.inactiveLocks.count l = (if (s.lock l).active then 0 else 1) ∧
    ∀ type, (s.activeWakeLocks type).count l =
      if (s.lock l).active = true ∧ (s.lock l).type = type then 1 else 0

/-- The clock does not pass a timed lock on the list by more than the range of `long`. -/
def timelyMachine : Machine State Op (Option Int) Bug where
  init := machine.init
  enabled s op := op.Permitted s ∧ op.InTime s
  exec := exec

theorem timelyMachine_invariant (h : timelyMachine.Reachable s) : Inv s := by
  apply h.invariant
  · rintro s0 ⟨jiffies, hs⟩
    exact wakelocksInit_inv hs
  · intro s op o s' hi hop hx
    exact exec_inv hi hop.1 hop.2 hx

theorem Lists.onItsList (h : Lists s) {l : LockId} (hl : (s.lock l).initialized = true) : OnItsList s l := by
  refine ⟨?_, fun type => ?_⟩
  · rw [h.inactive, hl]
    cases (s.lock l).active <;> simp
  · rw [h.active, hl]
    simp

/-- Unless a lock keeps the system awake for good, the work has been queued since the list was emptied, or the timer
runs at the latest expiry or is due. -/
theorem suspend_opportunity_kept (h : timelyMachine.Reachable s) :
    (∀ l, (s.lock l).initialized = true → OnItsList s l) ∧
    (AllExpire s → WorkQueued s ∨ TimerAimed s ∨ TimerRunning s) := by
  have hi := timelyMachine_invariant h
  exact ⟨fun l => hi.onItsList, hi.watched⟩

def bootState : State := ((wakelocksInit (emptyState 0)).toOption).getD (emptyState 0)

def timedOps : List Op := [.wakeLockTimeout unknownWakeup 10, .wakeUnlock mainWakeLock]

theorem timedOps_watched : ∃ s, timelyMachine.Reachable s ∧ s.expireTimer = some 10 ∧ AllExpire s ∧
    (WorkQueued s ∨ TimerAimed s ∨ TimerRunning s) := by
  have h0 : timelyMachine.Reachable bootState := .init ⟨0, rfl⟩
  have h1 := h0.step (l := Op.wakeLockTimeout unknownWakeup 10) ⟨by decide, trivial⟩ rfl
  have h2 := h1.step (l := Op.wakeUnlock mainWakeLock) ⟨by decide, trivial⟩ rfl
  exact ⟨_, h2, rfl, by decide, (suspend_opportunity_kept h2).2 (by decide)⟩

/-- `has_wake_lock` empties the list before the timer has run; and a late clock makes the timer miss an expiry. -/
theorem hasWakeLock_empties_list :
    (∃ es s, machine.Run bootState es s ∧ AllExpire s ∧ ¬ WorkQueued s ∧ ¬ TimerAimed s) ∧
    ∃ es s, machine.Run bootState es s ∧ AllExpire s ∧ ¬ WorkQueued s ∧ ¬ TimerAimed s ∧ ¬ TimerRunning s := by
  have h1 : machine.Run bootState _ _ :=
    Machine.run_of_execList (timedOps ++ [.tick 10, .hasWakeLock suspend]) rfl
  have h2 : machine.Run bootState _ _ :=
    Machine.run_of_execList [.wakeLockTimeout unknownWakeup 10, .tick (2 ^ 31 + 11), .wakeUnlock mainWakeLock] rfl
  exact ⟨⟨_, _, h1, by decide, by decide, by decide⟩, _, _, h2, by decide, by decide, by decide, by decide⟩

/-! # Destroying a wake lock

`wake_lock_destroy` takes the lock off its list, and leaves the timer and the work as they are. -/

open Function

variable {s' : State} {l k : LockId} {r : Int} {op : Op} {o : Option Int}

def wakeLockDestroy (l : LockId) (s : State) : State :=
  listDel l (setLock l { s.lock l with initialized := false } s)

def Outlasted (l : LockId) (s : State) : Prop :=
  ∃ k ∈ s.activeWakeLocks suspend, k ≠ l ∧
    ((s.lock k).autoExpire = false ∨ (s.lock l).autoExpire = true ∧ (s.lock l).expires ≤ (s.lock k).expires)

/-- After `wake_lock_destroy` the opportunity to suspend is kept, and the timer is not left at the expiry of the lock. -/
def Survives (l : LockId) (s : State) : Prop :=
  let s' := wakeLockDestroy l s
  (AllExpire s' → WorkQueued s' ∨ TimerAimed s' ∨ TimerRunning s') ∧
    ((s.lock l).active = true → s'.expireTimer = some (s.lock l).expires → TimerAimed s')

/-- The work has been queued since the list was last empty only if it still is. -/
def Idle (s : State) : Prop := s.workQueued = true → s.activeWakeLocks suspend = []

theorem idle_aimTimer (h : Lists s) (ht : Timely s) (hi : Idle s) (hx : hasWakeLockLocked suspend s = .ok (s', r)) :
    Idle s' ∧ Idle (aimTimer r s') ∧ (r = 0 → s'.activeWakeLocks suspend = []) := by
  obtain ⟨-, -, -, -, hw, hcase⟩ := hasWakeLockLocked_suspend h ht hx
  have hi' : Idle s' := by
    rcases hcase with ⟨-, -, rfl⟩ | ⟨-, -, hmem, -⟩
    · exact hi
    intro hq
    rw [List.eq_nil_iff_forall_not_mem]
    intro k hk
    have := ((hmem k).mp hk).1
    rw [hi (hw ▸ hq)] at this
    cases this
  have hnil : r = 0 → s'.activeWakeLocks suspend = [] := by
    rcases hcase with ⟨rfl, -⟩ | ⟨-, -, -, -, ⟨-, hnil⟩ | ⟨hpos, -⟩⟩
    · nofun
    · exact fun _ => hnil
    · omega
  refine ⟨hi', ?_, hnil⟩
  unfold aimTimer
  split
  · exact hi'
  · split
    · next h0 => exact fun _ => hnil h0
    · exact hi'

theorem idle_wakeLockInternal (h : Inv s) (hi : Idle s) {timeout : Int} {hasTimeout : Bool} (ht : InLong timeout)
    (hx : wakeLockInternal l timeout hasTimeout s = .ok s') : Idle s' := by
  simp only [wakeLockInternal] at hx
  split at hx
  · cases hx
  split at hx
  · cases hx
  rename_i hn
  have hn : (s.lock l).initialized = true := by simpa using hn
  have hidle : Idle (activate l timeout hasTimeout s) := by
    rw [activate_eq]
    intro hq
    simp only [addActive, Bool.and_eq_true, decide_eq_true_eq] at hq ⊢
    rw [update_of_ne (Ne.symm hq.2)]
    show (s.activeWakeLocks suspend).erase l = []
    rw [hi hq.1]
    rfl
  split at hx
  next hty =>
    rw [hty] at hx
    split at hx
    · obtain ⟨⟨s1, r⟩, h1, hx⟩ := bind_ok hx
      cases hx
      exact (idle_aimTimer (activate_lists h.toLists hn _ _) (activate_timely h.toLists h.timely hn ht _) hidle h1).2.1
    · cases hx
      exact hidle
  · cases hx
    exact hidle

theorem idle_exec (h : Inv s) (hi : Idle s) (hop : op.Permitted s) (hx : exec s op = .ok (o, s')) : Idle s' := by
  cases op with
  | wakeLockInit l type =>
    cases hx
    exact hi
  | wakeLock l =>
    obtain ⟨s1, h1, hx⟩ := bind_ok hx
    cases hx
    exact idle_wakeLockInternal h hi (by decide) h1
  | wakeLockTimeout l timeout =>
    obtain ⟨s1, h1, hx⟩ := bind_ok hx
    cases hx
    exact idle_wakeLockInternal h hi hop h1
  | wakeUnlock l =>
    obtain ⟨s1, h1, hx⟩ := bind_ok hx
    cases hx
    have hidle : Idle (expireWakeLock l s) := fun hq => by
      show (s.activeWakeLocks suspend).erase l = []
      rw [hi hq]
      rfl
    simp only [wakeUnlock] at h1
    split at h1
    next hty =>
      rw [hty] at h1
      obtain ⟨⟨s2, r⟩, h2, h1⟩ := bind_ok h1
      cases h1
      exact (idle_aimTimer (expireWakeLock_lists h.toLists hop) (expireWakeLock_timely h.toLists h.timely) hidle h2).2.1
    · cases h1
      exact hidle
  | hasWakeLock type =>
    obtain ⟨⟨s1, r⟩, h1, hx⟩ := bind_ok hx
    cases hx
    rcases hasWakeLockLocked_cases h.toLists h1 with ⟨-, rfl, -⟩ | ⟨-, he, -⟩
    · exact hi
    · intro hq
      exact List.sublist_nil.mp (hi (he.workQueued ▸ hq) ▸ he.sublist suspend)
  | expireTimer =>
    obtain ⟨s1, h1, hx⟩ := bind_ok hx
    cases hx
    obtain ⟨⟨s2, r⟩, h2, h1⟩ := bind_ok h1
    cases h1
    have hl0 : Lists { s with expireTimer := none } := ⟨h.inactive, h.active, h.sorted⟩
    obtain ⟨hidle, -, hnil⟩ := idle_aimTimer hl0 h.timely hi h2
    split
    · next h0 => exact fun _ => hnil h0
    · exact hidle
  | tick d =>
    cases hx
    exact hi

/-! ## One lock is destroyed -/

theorem Lists.destroy (h : Lists s) (l : LockId) : Lists (wakeLockDestroy l s) where
  inactive k := by
    show (s.inactiveLocks.erase l).count k = _
    rw [(h.count_erase k).1, h.inactive]
    by_cases e : k = l <;> simp [wakeLockDestroy, listDel, setLock, e]
  active type k := by
    show ((s.activeWakeLocks type).erase l).count k = _
    rw [(h.count_erase k).2, h.active]
    by_cases e : k = l <;> simp [wakeLockDestroy, listDel, setLock, e]
  sorted type := h.sorted_erase type _

theorem mem_destroy (h : Lists s) :
    k ∈ (wakeLockDestroy l s).activeWakeLocks suspend ↔ k ∈ s.activeWakeLocks suspend ∧ k ≠ l :=
  h.nodup.mem_erase_iff.trans and_comm

theorem destroy_lock (hk : k ≠ l) : (wakeLockDestroy l s).lock k = s.lock k := update_of_ne hk _ _

theorem allExpire_destroy (h : Lists s) :
    AllExpire (wakeLockDestroy l s) ↔ ∀ k ∈ s.activeWakeLocks suspend, k ≠ l → (s.lock k).autoExpire = true := by
  refine ⟨fun ha k hk hne => ?_, fun ha k hk => ?_⟩
  · rw [← destroy_lock hne]
    exact ha k ((mem_destroy h).mpr ⟨hk, hne⟩)
  · obtain ⟨hk, hne⟩ := (mem_destroy h).mp hk
    rw [destroy_lock hne]
    exact ha k hk hne

theorem timerAimed_destroy (h : Lists s) : TimerAimed (wakeLockDestroy l s) ↔
    ∃ m ∈ s.activeWakeLocks suspend, m ≠ l ∧ s.expireTimer = some (s.lock m).expires ∧
      ∀ k ∈ s.activeWakeLocks suspend, k ≠ l → (s.lock k).expires ≤ (s.lock m).expires := by
  have hmem := fun {k} => mem_destroy (k := k) (l := l) h
  have hlock := fun {k} => destroy_lock (s := s) (k := k) (l := l)
  have ht : (wakeLockDestroy l s).expireTimer = s.expireTimer := rfl
  grind [TimerAimed]

theorem Inv.destroy_aimed (h : Inv s) (hl : l ∈ s.activeWakeLocks suspend) (ho : Outlasted l s) (hall : AllExpire s) :
    TimerAimed (wakeLockDestroy l s) := by
  rcases h.watched hall with ⟨hn, -⟩ | ⟨m, hm, htm, hmax⟩ | ⟨hn, -⟩
  · simp [hn] at hl
  · -- the latest expiry is that of the lock that outlasts `l`, or of another one
    obtain ⟨k, hk, hne, hout⟩ := ho
    have := hall k hk
    rw [timerAimed_destroy h.toLists]
    by_cases e : m = l
    · exact ⟨k, hk, hne, by grind, by grind⟩
    · exact ⟨m, hm, e, htm, fun k hk _ => hmax k hk⟩
  · simp [hn] at hl

theorem Inv.destroy (h : Inv s) (ho : l ∈ s.activeWakeLocks suspend → Outlasted l s) : Inv (wakeLockDestroy l s) := by
  have hlists := h.toLists.destroy l
  by_cases hl : l ∈ s.activeWakeLocks suspend
  · refine ⟨hlists, fun k hk ha => ?_, fun hne => ?_, fun hall' => .inr (.inl (h.destroy_aimed hl (ho hl) fun k hk => ?_))⟩
    · obtain ⟨hk, hne⟩ := (mem_destroy h.toLists).mp hk
      rw [destroy_lock hne] at ha ⊢
      exact h.timely k hk ha
    · exact h.timer fun ha => hne ((allExpire_destroy h.toLists).mpr fun k hk _ => ha k hk)
    have ha := (allExpire_destroy h.toLists).mp hall'
    by_cases e : k = l
    · obtain ⟨m, hm, hne, hout⟩ := ho hl
      grind
    · exact ha k hk e
  · have hne : ∀ k ∈ s.activeWakeLocks suspend, k ≠ l := fun k hk e => hl (e ▸ hk)
    refine h.other hlists (fun k => ?_) (fun k hk => destroy_lock (hne k hk)) rfl rfl rfl
    exact (mem_destroy h.toLists).trans ⟨And.left, fun hk => ⟨hk, hne k hk⟩⟩

theorem Inv.survives (h : Inv s) (ho : l ∈ s.activeWakeLocks suspend → Outlasted l s)
    (hl : (s.lock l).active = true → l ∈ s.activeWakeLocks suspend) : Survives l s := by
  refine ⟨(h.destroy ho).watched, fun ha ht => h.destroy_aimed (hl ha) (ho (hl ha)) ?_⟩
  by_contra hne
  exact nomatch (h.timer hne).symm.trans ht

theorem Inv.outlasted (h : Inv s) (hi : Idle s) (hl : l ∈ s.activeWakeLocks suspend) (hs : Survives l s) : Outlasted l s := by
  by_contra hno
  obtain ⟨hp, ht⟩ := hs
  -- every other lock expires, and earlier than `l`
  have hother : ∀ k ∈ s.activeWakeLocks suspend, k ≠ l → (s.lock k).autoExpire = true ∧
      ((s.lock l).autoExpire = true → (s.lock k).expires < (s.lock l).expires) := by grind [Outlasted]
  by_cases hauto : (s.lock l).autoExpire = true
  · have hall : AllExpire s := fun k hk => by by_cases e : k = l <;> grind
    rcases h.watched hall with ⟨hn, -⟩ | ⟨m, hm, htm, hmax⟩ | ⟨hn, -⟩
    · simp [hn] at hl
    · obtain rfl : m = l := by
        by_contra e
        have := (hother m hm e).2 hauto
        have := hmax l hl
        omega
      obtain ⟨k, hk, hne, htk, -⟩ := (timerAimed_destroy h.toLists).mp (ht (h.mem_active.mp hl).2.1 htm)
      have := (hother k hk hne).2 hauto
      rw [htm, Option.some.injEq] at htk
      omega
    · simp [hn] at hl
  · have hnone : s.expireTimer = none := h.timer fun ha => hauto (ha l hl)
    rcases hp ((allExpire_destroy h.toLists).mpr fun k hk hne => (hother k hk hne).1) with ⟨-, hw⟩ | ht | ⟨-, e, he, -⟩
    · have := hi hw
      simp [this] at hl
    · obtain ⟨m, -, -, htm, -⟩ := (timerAimed_destroy h.toLists).mp ht
      exact nomatch hnone.symm.trans htm
    · exact nomatch hnone.symm.trans he

/-- Locks are also destroyed, those that do not expire only when another one outlasts them. -/
def destroyMachine : Machine State (Op ⊕ LockId) (Option Int) Bug where
  init := machine.init
  enabled s
    | .inl op => op.Permitted s ∧ op.InTime s
    | .inr l => l ∈ s.activeWakeLocks suspend → Outlasted l s
  exec s
    | .inl op => exec s op
    | .inr l => .ok (none, wakeLockDestroy l s)

theorem destroyMachine_invariant (h : destroyMachine.Reachable s) : Inv s ∧ Idle s := by
  apply h.invariant
  · rintro s0 ⟨jiffies, hs⟩
    exact ⟨wakelocksInit_inv hs, by cases hs; nofun⟩
  rintro s (op | l) o s' ⟨hi, hq⟩ hop hx
  · exact ⟨exec_inv hi hop.1 hop.2 hx, idle_exec hi hq hop.1 hx⟩
  cases hx
  refine ⟨hi.destroy hop, fun hw => ?_⟩
  show (s.activeWakeLocks suspend).erase l = []
  rw [hq hw]
  rfl

/-- Destroying a lock keeps the opportunity to suspend iff it is not active or another one outlasts it. -/
theorem destroy_keeps_opportunity_iff (h : destroyMachine.Reachable s) (hi : (s.lock l).initialized = true)
    (hty : (s.lock l).type = suspend) : Survives l s ↔ ((s.lock l).active = true → Outlasted l s) := by
  obtain ⟨hinv, hidle⟩ := destroyMachine_invariant h
  have hmem : l ∈ s.activeWakeLocks suspend ↔ (s.lock l).active = true := by simp [hinv.mem_active, hi, hty]
  rw [← hmem]
  exact ⟨fun hs hl => hinv.outlasted hidle hl hs, fun ho => hinv.survives ho hmem.mpr⟩

theorem timed_destroyed_beside_main : ∃ s, destroyMachine.Reachable s ∧ (s.lock unknownWakeup).active = true ∧
    Survives unknownWakeup s := by
  have h0 : destroyMachine.Reachable bootState := .init ⟨0, rfl⟩
  have h1 := h0.step (l := Sum.inl (Op.wakeLockTimeout unknownWakeup 10)) ⟨by decide, trivial⟩ rfl
  exact ⟨_, h1, rfl, (destroy_keeps_opportunity_iff h1 rfl rfl).mpr
    fun _ => ⟨mainWakeLock, by decide, by decide, .inl rfl⟩⟩

/-- The only lock is destroyed before it expires: the timer is left at its expiry. -/
theorem only_lock_destroyed : ∃ s, destroyMachine.Reachable s ∧ (s.lock unknownWakeup).initialized = true ∧
    (s.lock unknownWakeup).type = suspend ∧ ¬ Survives unknownWakeup s := by
  have h0 : destroyMachine.Reachable bootState := .init ⟨0, rfl⟩
  have h1 := h0.step (l := Sum.inl (Op.wakeLockTimeout unknownWakeup 10)) ⟨by decide, trivial⟩ rfl
  have h2 := h1.step (l := Sum.inl (Op.wakeUnlock mainWakeLock)) ⟨by decide, trivial⟩ rfl
  exact ⟨_, h2, rfl, rfl, fun hs => absurd (hs.2 rfl rfl) (by decide)⟩

/-- `has_wake_lock` returns -1 for a lock that does not expire, 0 if no lock is left, or the time until the last lock
expires. -/
theorem hasWakeLock_exact (h : timelyMachine.Reachable s) (hx : exec s (.hasWakeLock suspend) = .ok (some r, s')) :
    (r = -1 ∧ ¬AllExpire s) ∨
      AllExpire s ∧ ((r = 0 ∧ ∀ l ∈ s.activeWakeLocks suspend, (s.lock l).expires ≤ s.jiffies) ∨
        (0 < r ∧ (∃ l ∈ s.activeWakeLocks suspend, (s.lock l).expires = s.jiffies + r) ∧
          ∀ l ∈ s.activeWakeLocks suspend, (s.lock l).expires ≤ s.jiffies + r)) := by
  have hi := timelyMachine_invariant h
  obtain ⟨⟨s₁, r₁⟩, hl, h⟩ := bind_ok hx
  cases h
  obtain ⟨-, -, -, -, -, ⟨rfl, hne, rfl⟩ | ⟨hall, -, hmem, hlock, hr⟩⟩ := hasWakeLockLocked_suspend hi.toLists hi.timely hl
  · exact .inl ⟨rfl, hne⟩
  · refine .inr ⟨hall, ?_⟩
    rcases hr with ⟨rfl, hnil⟩ | ⟨hpos, l, hl, he, hle⟩
    · refine .inl ⟨rfl, fun l hl => ?_⟩
      have := hmem l
      simp_all
    · refine .inr ⟨hpos, ⟨l, ((hmem l).mp hl).1, hlock l hl ▸ he⟩, fun k hk => ?_⟩
      by_cases hlt : s.jiffies < (s.lock k).expires
      · have hk' := (hmem k).mpr ⟨hk, hlt⟩
        exact hlock k hk' ▸ hle k hk'
      · omega

theorem bootState_awake : ∃ r s', exec bootState (.hasWakeLock suspend) = .ok (some r, s') ∧ r = -1 :=
  have h : timelyMachine.Reachable bootState := .init ⟨0, rfl⟩
  ⟨_, _, rfl, ((hasWakeLock_exact h rfl).resolve_right fun hx => by
    have := hx.1
    revert this
    decide).1⟩

end G3Mod.WakeLock
