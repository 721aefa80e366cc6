import G3Mod.WakeLock.Lemmas.Lists

/-!
# The timer follows the locks that expire
-/

namespace G3Mod.WakeLock

open Function Lib

variable {s s' : State} {l k : LockId} {type : Nat} {ds ls : List LockId} {m r : Int} {op : Op}
  {o : Option Int}

/-! ## What is watched -/

def TimerAimed (s : State) : Prop :=
  ∃ l ∈ s.activeWakeLocks suspend, s.expireTimer = some (s.lock l).expires ∧
    ∀ k ∈ s.activeWakeLocks suspend, (s.lock k).expires ≤ (s.lock l).expires

def WorkQueued (s : State) : Prop := s.activeWakeLocks suspend = [] ∧ s.workQueued = true

def TimerRunning (s : State) : Prop := s.activeWakeLocks suspend = [] ∧ TimerDue s

def AllExpire (s : State) : Prop := ∀ l ∈ s.activeWakeLocks suspend, (s.lock l).autoExpire = true

/-- No lock on the list is so long overdue that the time left looks like time to come. -/
def Timely (s : State) : Prop :=
  ∀ l ∈ s.activeWakeLocks suspend, (s.lock l).autoExpire = true → InLong ((s.lock l).expires - s.jiffies)

instance : Decidable (TimerAimed s) := List.decidableBEx _ _

instance : Decidable (WorkQueued s) := inferInstanceAs (Decidable (_ ∧ _))

instance : Decidable (TimerRunning s) := inferInstanceAs (Decidable (_ ∧ _))

instance : Decidable (AllExpire s) := List.decidableBAll _ _

structure Inv (s : State) : Prop extends Lists s where
  timely : Timely s
  timer : ¬ AllExpire s → s.expireTimer = none
  watched : AllExpire s → WorkQueued s ∨ TimerAimed s ∨ TimerRunning s

theorem toLong_eq {x : Int} (h : InLong x) : toLong x = x := by
  obtain ⟨h1, h2⟩ := h
  exact Int.bmod_eq_of_le (by omega) (by omega)

theorem Timely.timeLeft (h : Timely s) (hl : l ∈ s.activeWakeLocks suspend)
    (ha : (s.lock l).autoExpire = true) : timeLeft l s = (s.lock l).expires - s.jiffies :=
  toLong_eq (h l hl ha)

theorem hasWakeLockLocked_suspend (h : Lists s) (ht : Timely s)
    (hx : hasWakeLockLocked suspend s = .ok (s', r)) :
    Lists s' ∧ Timely s' ∧ s'.jiffies = s.jiffies ∧ s'.expireTimer = s.expireTimer ∧
      s'.workQueued = s.workQueued ∧
      ((r = -1 ∧ ¬ AllExpire s' ∧ s' = s) ∨
        (AllExpire s ∧ AllExpire s' ∧
          (∀ l, l ∈ s'.activeWakeLocks suspend ↔
            l ∈ s.activeWakeLocks suspend ∧ s.jiffies < (s.lock l).expires) ∧
          (∀ l ∈ s'.activeWakeLocks suspend, s'.lock l = s.lock l) ∧
          ((r = 0 ∧ s'.activeWakeLocks suspend = []) ∨
            (0 < r ∧ ∃ l ∈ s'.activeWakeLocks suspend, (s'.lock l).expires = s.jiffies + r ∧
              ∀ k ∈ s'.activeWakeLocks suspend, (s'.lock k).expires ≤ s.jiffies + r)))) := by
  rcases hasWakeLockLocked_cases h hx with ⟨⟨l, hl, hne⟩, rfl, rfl⟩ | ⟨hauto, he, hge, hall, hr⟩
  · refine ⟨h, ht, rfl, rfl, rfl, .inl ⟨rfl, fun hall => ?_, rfl⟩⟩
    rw [hall l hl] at hne
    cases hne
  have hleft : ∀ l ∈ s.activeWakeLocks suspend, timeLeft l s = (s.lock l).expires - s.jiffies :=
    fun l hl => ht.timeLeft hl (hauto l hl)
  have hlock : ∀ l ∈ s'.activeWakeLocks suspend, s'.lock l = s.lock l := fun l => he.lock_of_mem h
  have hmem : ∀ l, l ∈ s'.activeWakeLocks suspend ↔
      l ∈ s.activeWakeLocks suspend ∧ s.jiffies < (s.lock l).expires := fun l => by
    rw [he.mem_active h]
    refine and_congr_right fun hl => ?_
    have := hleft l hl
    simp only [List.mem_filter, hl, true_and, decide_eq_true_eq, this]
    omega
  have hauto' : AllExpire s' := fun l hl => by
    rw [hlock l hl]
    exact hauto l ((hmem l).mp hl).1
  have ht' : Timely s' := fun l hl _ => by
    have hl0 := ((hmem l).mp hl).1
    rw [hlock l hl, he.jiffies]
    exact ht l hl0 (hauto l hl0)
  refine ⟨he.lists, ht', he.jiffies, he.timer, he.workQueued, .inr ⟨hauto, hauto', hmem, hlock, ?_⟩⟩
  have hle : ∀ k ∈ s'.activeWakeLocks suspend, (s'.lock k).expires ≤ s.jiffies + r := fun k hk => by
    obtain ⟨hk0, _⟩ := (hmem k).mp hk
    have h1 := hall k hk0
    rw [hleft k hk0] at h1
    rw [hlock k hk]
    omega
  by_cases hpos : 0 < r
  · grind
  refine .inl ⟨by omega, List.eq_nil_iff_forall_not_mem.mpr fun l hl => ?_⟩
  have h1 := hle l hl
  have h2 := ((hmem l).mp hl).2
  rw [hlock l hl] at h1
  omega

theorem aimTimer_inv (h : Lists s) (ht : Timely s) (hx : hasWakeLockLocked suspend s = .ok (s', r)) :
    Inv (aimTimer r s') := by
  obtain ⟨hl', ht', hj, _, _, hcase⟩ := hasWakeLockLocked_suspend h ht hx
  rcases hcase with ⟨rfl, hne, rfl⟩ | ⟨_, hall, _, _, ⟨rfl, hnil⟩ | ⟨hpos, l, hl, hexp, hle⟩⟩
  · exact ⟨⟨h.inactive, h.active, h.sorted⟩, ht, fun _ => rfl, fun hall => absurd hall hne⟩
  · exact ⟨⟨hl'.inactive, hl'.active, hl'.sorted⟩, ht', fun _ => rfl, fun _ => .inl ⟨hnil, rfl⟩⟩
  rw [aimTimer, if_pos hpos]
  refine ⟨⟨hl'.inactive, hl'.active, hl'.sorted⟩, ht', fun hne => absurd hall hne, fun _ => .inr (.inl ?_)⟩
  refine ⟨l, hl, ?_, fun k hk => ?_⟩
  · show some (s'.jiffies + r) = some (s'.lock l).expires
    rw [hexp, hj]
  · show (s'.lock k).expires ≤ (s'.lock l).expires
    rw [hexp]
    exact hle k hk

theorem hasWakeLock_suspend_inv (h : Inv s) (hx : hasWakeLockLocked suspend s = .ok (s', r)) : Inv s' := by
  obtain ⟨hl', ht', hj, htm, hw, hcase⟩ := hasWakeLockLocked_suspend h.toLists h.timely hx
  rcases hcase with ⟨_, _, rfl⟩ | ⟨hall, hall', hmem, hlock, _⟩
  · exact h
  refine ⟨hl', ht', fun hne => absurd hall' hne, fun _ => ?_⟩
  have hnil : s.activeWakeLocks suspend = [] → s'.activeWakeLocks suspend = [] := fun e =>
    List.eq_nil_iff_forall_not_mem.mpr fun k hk => by
      have := ((hmem k).mp hk).1
      rw [e] at this
      cases this
  rcases h.watched hall with ⟨hn, hq⟩ | ⟨l, hl, htl, hle⟩ | ⟨hn, e, he, hle⟩
  · exact .inl ⟨hnil hn, by rw [hw, hq]⟩
  · by_cases hlt : s.jiffies < (s.lock l).expires
    · have hl1 := (hmem l).mpr ⟨hl, hlt⟩
      refine .inr (.inl ⟨l, hl1, by rw [htm, htl, hlock l hl1], fun k hk => ?_⟩)
      rw [hlock k hk, hlock l hl1]
      exact hle k ((hmem k).mp hk).1
    · refine .inr (.inr ⟨List.eq_nil_iff_forall_not_mem.mpr fun k hk => ?_, _, by rw [htm, htl], ?_⟩)
      · grind
      · omega
  · exact .inr (.inr ⟨hnil hn, e, by rw [htm, he], by omega⟩)

/-! ## Operations -/

theorem Inv.other (h : Inv s) (hl : Lists s')
    (hmem : ∀ l, l ∈ s'.activeWakeLocks suspend ↔ l ∈ s.activeWakeLocks suspend)
    (hlock : ∀ l ∈ s.activeWakeLocks suspend, s'.lock l = s.lock l) (hj : s'.jiffies = s.jiffies)
    (ht : s'.expireTimer = s.expireTimer) (hw : s'.workQueued = s.workQueued) : Inv s' := by
  have hall : AllExpire s' ↔ AllExpire s := by
    refine ⟨fun ha l hm => ?_, fun ha l hm => ?_⟩
    · rw [← hlock l hm]
      exact ha l ((hmem l).mpr hm)
    · have hm := (hmem l).mp hm
      rw [hlock l hm]
      exact ha l hm
  have hnil : s.activeWakeLocks suspend = [] → s'.activeWakeLocks suspend = [] := fun e =>
    List.eq_nil_iff_forall_not_mem.mpr fun k hk => by
      rw [hmem, e] at hk
      cases hk
  refine ⟨hl, fun l hm ha => ?_, fun ha => ?_, fun ha => ?_⟩
  · have hm := (hmem l).mp hm
    rw [hlock l hm] at ha ⊢
    rw [hj]
    exact h.timely l hm ha
  · rw [ht]
    exact h.timer (fun ha' => ha (hall.mpr ha'))
  rcases h.watched (hall.mp ha) with ⟨hn, hq⟩ | ⟨l, hm, htl, hle⟩ | ⟨hn, e, he, hle⟩
  · exact .inl ⟨hnil hn, hw.trans hq⟩
  · refine .inr (.inl ⟨l, (hmem l).mpr hm, by rw [ht, htl, hlock l hm], fun k hk => ?_⟩)
    have hk := (hmem k).mp hk
    rw [hlock k hk, hlock l hm]
    exact hle k hk
  · exact .inr (.inr ⟨hnil hn, e, ht.trans he, by rw [hj]; exact hle⟩)

theorem hasWakeLock_inv (h : Inv s) (hx : hasWakeLockLocked type s = .ok (s', r)) : Inv s' := by
  by_cases hty : type = suspend
  · subst hty
    exact hasWakeLock_suspend_inv h hx
  rcases hasWakeLockLocked_cases h.toLists hx with ⟨_, rfl, _⟩ | ⟨_, he, _⟩
  · exact h
  have hnot : ∀ l ∈ s.activeWakeLocks suspend,
      l ∉ (s.activeWakeLocks type).filter fun l => timeLeft l s ≤ 0 := fun l hl hd => by
    have h1 := (h.mem_active.mp hl).2.2
    have h2 := (h.mem_active.mp (List.mem_of_mem_filter hd)).2.2
    exact hty (h2.symm.trans h1)
  refine h.other he.lists (fun l => ?_) (fun l hl => ?_) he.jiffies he.timer he.workQueued
  · rw [he.mem_active h.toLists]
    exact ⟨And.left, fun hl => ⟨hl, hnot l hl⟩⟩
  · rw [he.lock, if_neg (hnot l hl)]

theorem wakeLockInit_inv (h : Inv s) {ty : Int} (hl : (s.lock l).initialized = false) :
    Inv (wakeLockInit l ty s) := by
  refine h.other (h.init _ hl rfl rfl) (fun k => Iff.rfl) (fun k hk => ?_) rfl rfl rfl
  have hne : k ≠ l := fun e => by
    have := (h.mem_active.mp hk).1
    rw [e, hl] at this
    cases this
  show (setLock l _ s).lock k = s.lock k
  rw [setLock_lock, if_neg hne]

def Lock.lockedAt (k : Lock) (jiffies timeout : Int) (hasTimeout : Bool) : Lock :=
  { k with active := true, expires := if hasTimeout then jiffies + timeout else longMax, autoExpire := hasTimeout }

theorem activate_eq (timeout : Int) (hasTimeout : Bool) : activate l timeout hasTimeout s =
    addActive (s.lock l).type (!hasTimeout) l
      (setLock l ((s.lock l).lockedAt s.jiffies timeout hasTimeout) (listDel l s)) := by
  cases hasTimeout <;> rfl

theorem activate_lists (h : Lists s) (hi : (s.lock l).initialized = true) (timeout : Int) (hasTimeout : Bool) :
    Lists (activate l timeout hasTimeout s) := by
  rw [activate_eq]
  exact h.activate ((s.lock l).lockedAt s.jiffies timeout hasTimeout) hi rfl (by cases hasTimeout <;> rfl)

theorem activate_lock (timeout : Int) (hasTimeout : Bool) : (activate l timeout hasTimeout s).lock k =
    if k = l then (s.lock l).lockedAt s.jiffies timeout hasTimeout else s.lock k := by
  rw [activate_eq]
  exact setLock_lock _

theorem activate_other_inv (h : Inv s) (hi : (s.lock l).initialized = true) {timeout : Int} {hasTimeout : Bool}
    (hty : (s.lock l).type ≠ suspend) : Inv (activate l timeout hasTimeout s) := by
  have hl := activate_lists h.toLists hi timeout hasTimeout
  have hne : ∀ k ∈ s.activeWakeLocks suspend, k ≠ l := fun k hk e =>
    hty (e ▸ (h.mem_active.mp hk).2.2)
  refine h.other hl (fun k => ?_) (fun k hk => ?_) ?_ ?_ ?_
  · rw [hl.mem_active, h.mem_active, activate_lock]
    split
    · next e => simp [Lock.lockedAt, hty, e]
    · exact Iff.rfl
  · rw [activate_lock, if_neg (hne k hk)]
  · cases hasTimeout <;> rfl
  · cases hasTimeout <;> rfl
  · rw [activate_eq]
    simp [addActive, hty, setLock, listDel]

theorem activate_timely (h : Lists s) (htm : Timely s) (hi : (s.lock l).initialized = true) {timeout : Int}
    (ht : InLong timeout) (hasTimeout : Bool) : Timely (activate l timeout hasTimeout s) := by
  have hj : (activate l timeout hasTimeout s).jiffies = s.jiffies := by cases hasTimeout <;> rfl
  intro k hk ha
  rw [(activate_lists h hi timeout hasTimeout).mem_active] at hk
  rw [hj]
  rw [activate_lock] at ha hk ⊢
  split at ha
  next e =>
    have ha : hasTimeout = true := ha
    simp only [e, if_true, Lock.lockedAt, ha]
    rwa [show s.jiffies + timeout - s.jiffies = timeout by omega]
  next e =>
    rw [if_neg e] at hk ⊢
    exact htm k (h.mem_active.mpr hk) ha

theorem wakeLockInternal_suspend_inv (h : Lists s) (htm : Timely s) {timeout : Int} {hasTimeout : Bool}
    (ht : InLong timeout) (hty : (s.lock l).type = suspend)
    (hx : wakeLockInternal l timeout hasTimeout s = .ok s') : Inv s' := by
  simp only [wakeLockInternal, hty] at hx
  split at hx
  · cases hx
  split at hx
  · cases hx
  rename_i hi
  have hi : (s.lock l).initialized = true := by simpa using hi
  have hlists := activate_lists h hi timeout hasTimeout
  have htimely := activate_timely h htm hi ht hasTimeout
  cases hasTimeout with
  | true =>
    obtain ⟨⟨s1, r⟩, h1, hx⟩ := bind_ok hx
    cases hx
    exact aimTimer_inv hlists htimely h1
  | false =>
    cases hx
    refine ⟨⟨hlists.inactive, hlists.active, hlists.sorted⟩, htimely, fun _ => rfl, fun hall => ?_⟩
    -- the lock itself does not expire
    have hm : l ∈ (activate l timeout false s).activeWakeLocks suspend := by
      rw [hlists.mem_active, activate_lock, if_pos rfl]
      exact ⟨hi, rfl, hty⟩
    have ha : ((activate l timeout false s).lock l).autoExpire = true := hall l hm
    rw [activate_lock, if_pos rfl] at ha
    cases ha

theorem wakeLockInternal_inv (h : Inv s) {timeout : Int} {hasTimeout : Bool} (ht : InLong timeout)
    (hx : wakeLockInternal l timeout hasTimeout s = .ok s') : Inv s' := by
  by_cases hty : (s.lock l).type = suspend
  · exact wakeLockInternal_suspend_inv h.toLists h.timely ht hty hx
  simp only [wakeLockInternal, hty, if_false] at hx
  split at hx
  · cases hx
  split at hx
  · cases hx
  next hi =>
    cases hx
    exact activate_other_inv h (by simpa using hi) hty

theorem expireWakeLock_lists (h : Lists s) (hi : (s.lock l).initialized = true) : Lists (expireWakeLock l s) :=
  h.deactivate (s.lock l).release hi rfl

theorem expireWakeLock_lock : (expireWakeLock l s).lock k = if k = l then (s.lock l).release else s.lock k :=
  setLock_lock _

theorem mem_expireWakeLock (h : Lists s) :
    k ∈ (expireWakeLock l s).activeWakeLocks suspend ↔ k ∈ s.activeWakeLocks suspend ∧ k ≠ l :=
  h.nodup.mem_erase_iff.trans and_comm

theorem expireWakeLock_timely (h : Lists s) (ht : Timely s) : Timely (expireWakeLock l s) := by
  intro k hk ha
  obtain ⟨hk, hne⟩ := (mem_expireWakeLock h).mp hk
  rw [expireWakeLock_lock, if_neg hne] at ha ⊢
  exact ht k hk ha

theorem wakeUnlock_inv (h : Inv s) (hi : (s.lock l).initialized = true) (hx : wakeUnlock l s = .ok s') :
    Inv s' := by
  have hlists := expireWakeLock_lists h.toLists hi
  simp only [wakeUnlock] at hx
  split at hx
  next hty =>
    rw [hty] at hx
    obtain ⟨⟨s1, r⟩, h1, hx⟩ := bind_ok hx
    cases hx
    exact aimTimer_inv hlists (expireWakeLock_timely h.toLists h.timely) h1
  rename_i hty
  cases hx
  have hne : ∀ k ∈ s.activeWakeLocks suspend, k ≠ l := fun k hk e =>
    hty (e ▸ (h.mem_active.mp hk).2.2)
  refine h.other hlists (fun k => ?_) (fun k hk => ?_) rfl rfl rfl
  · exact (mem_expireWakeLock h.toLists).trans ⟨And.left, fun hk => ⟨hk, hne k hk⟩⟩
  · exact expireWakeLock_lock.trans (if_neg (hne k hk))

theorem Inv.expired_of_due (h : Inv s) (hd : TimerDue s) (hl : l ∈ s.activeWakeLocks suspend) :
    (s.lock l).expires ≤ s.jiffies := by
  obtain ⟨e, he, hle⟩ := hd
  have hall : AllExpire s := by
    by_contra hne
    rw [h.timer hne] at he
    cases he
  rcases h.watched hall with ⟨hn, _⟩ | ⟨k, _, htk, hmax⟩ | ⟨hn, _⟩
  · rw [hn] at hl
    cases hl
  · rw [he] at htk
    cases htk
    have := hmax l hl
    omega
  · rw [hn] at hl
    cases hl

theorem expireWakeLocks_inv (h : Inv s) (hd : TimerDue s) (hx : expireWakeLocks s = .ok s') : Inv s' := by
  obtain ⟨⟨s1, r⟩, h1, hx⟩ := bind_ok hx
  cases hx
  have hl0 : Lists { s with expireTimer := none } := ⟨h.inactive, h.active, h.sorted⟩
  have ht0 : Timely { s with expireTimer := none } := h.timely
  obtain ⟨hl, ht, hj, htm, _, hcase⟩ := hasWakeLockLocked_suspend hl0 ht0 h1
  rcases hcase with ⟨rfl, hne, _⟩ | ⟨_, hall, hmem, _, ⟨rfl, hnil⟩ | ⟨hpos, l, hm, _⟩⟩
  · exact ⟨hl, ht, fun _ => htm, fun hall => absurd hall hne⟩
  · exact ⟨⟨hl.inactive, hl.active, hl.sorted⟩, ht, fun _ => htm, fun _ => .inl ⟨hnil, rfl⟩⟩
  obtain ⟨hm, hlt⟩ := (hmem l).mp hm
  have hle := h.expired_of_due hd hm
  have hlt : s.jiffies < (s.lock l).expires := hlt
  omega

/-- Time does not pass a lock of the list by more than the range of `long`. -/
def Op.InTime (s : State) : Op → Prop
  | .tick d => ∀ l ∈ s.activeWakeLocks suspend, (s.lock l).autoExpire = true →
      s.jiffies + d ≤ (s.lock l).expires + 2 ^ 31
  | _ => True

theorem tick_inv (h : Inv s) {d : Nat} (hd : (Op.tick d).InTime s) :
    Inv { s with jiffies := s.jiffies + d } where
  toLists := ⟨h.inactive, h.active, h.sorted⟩
  timely l hl ha := by
    have h1 := h.timely l hl ha
    have h2 := hd l hl ha
    unfold InLong at h1 ⊢
    dsimp only
    omega
  timer := h.timer
  watched hall := by
    rcases h.watched hall with hw | ht | ⟨hn, e, he, hle⟩
    · exact .inl hw
    · exact .inr (.inl ht)
    · refine .inr (.inr ⟨hn, e, he, ?_⟩)
      show e ≤ s.jiffies + d
      omega

theorem exec_inv (h : Inv s) (hop : op.Permitted s) (ht : op.InTime s) (hx : exec s op = .ok (o, s')) :
    Inv s' := by
  cases op with
  | wakeLockInit l type =>
    cases hx
    exact wakeLockInit_inv h hop
  | wakeLock l =>
    obtain ⟨s1, h1, hx⟩ := bind_ok hx
    cases hx
    exact wakeLockInternal_inv h (by decide) h1
  | wakeLockTimeout l timeout =>
    obtain ⟨s1, h1, hx⟩ := bind_ok hx
    cases hx
    exact wakeLockInternal_inv h hop h1
  | wakeUnlock l =>
    obtain ⟨s1, h1, hx⟩ := bind_ok hx
    cases hx
    exact wakeUnlock_inv h hop h1
  | hasWakeLock type =>
    obtain ⟨⟨s1, r⟩, h1, hx⟩ := bind_ok hx
    cases hx
    exact hasWakeLock_inv h h1
  | expireTimer =>
    obtain ⟨s1, h1, hx⟩ := bind_ok hx
    cases hx
    exact expireWakeLocks_inv h hop h1
  | tick d =>
    cases hx
    exact tick_inv h ht

theorem wakelocksInit_inv {jiffies : Int} (hx : wakelocksInit (emptyState jiffies) = .ok s) : Inv s := by
  have h0 : Lists (emptyState jiffies) := ⟨fun l => rfl, fun type l => rfl, fun type => .nil⟩
  have h1 : Lists (wakeLockInit deletedWakeLocks suspend (emptyState jiffies)) := h0.init _ rfl rfl rfl
  have h2 : Lists (wakeLockInit mainWakeLock suspend (wakeLockInit deletedWakeLocks suspend
      (emptyState jiffies))) := h1.init _ rfl rfl rfl
  obtain ⟨s1, hs1, hx⟩ := bind_ok hx
  have h3 : Inv s1 := wakeLockInternal_suspend_inv h2 (fun l hl => by cases hl) (by decide) rfl hs1
  cases hs1
  cases hx
  exact wakeLockInit_inv h3 rfl

end G3Mod.WakeLock
