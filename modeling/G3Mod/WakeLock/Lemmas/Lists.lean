import Mathlib.Data.List.Count
import Mathlib.Data.List.Nodup
import G3Mod.WakeLock.Model

/-!
# The lists of wake locks

Every initialised lock is on one list.
-/

namespace G3Mod.WakeLock

open Function Lib

variable {s s' : State} {l k : LockId} {type : Nat} {ds ls : List LockId} {m r : Int}

/-! ## The lists -/

structure Lists (s : State) : Prop where
  inactive : ∀ l, s.inactiveLocks.count l =
    if (s.lock l).initialized = true ∧ (s.lock l).active = false then 1 else 0
  active : ∀ type l, (s.activeWakeLocks type).count l =
    if (s.lock l).initialized = true ∧ (s.lock l).active = true ∧ (s.lock l).type = type then 1 else 0
  sorted : ∀ type, (s.activeWakeLocks type).Pairwise fun l k =>
    (s.lock l).autoExpire = true → (s.lock k).autoExpire = true

theorem Lists.mem_active (h : Lists s) : l ∈ s.activeWakeLocks type ↔
    (s.lock l).initialized = true ∧ (s.lock l).active = true ∧ (s.lock l).type = type := by
  rw [← List.count_pos_iff, h.active]
  split <;> simp_all

theorem Lists.nodup (h : Lists s) : (s.activeWakeLocks type).Nodup := by
  rw [List.nodup_iff_count_le_one]
  intro l
  rw [h.active]
  split <;> omega

theorem Lists.count_inactive_le (h : Lists s) : s.inactiveLocks.count l ≤ 1 := by
  rw [h.inactive]
  split <;> omega

theorem Lists.count_erase (h : Lists s) (k : LockId) :
    (s.inactiveLocks.erase l).count k = (if k = l then 0 else s.inactiveLocks.count k) ∧
      ∀ type, ((s.activeWakeLocks type).erase l).count k =
        if k = l then 0 else (s.activeWakeLocks type).count k := by
  have hone := h.count_inactive_le (l := l)
  by_cases e : k = l
  · subst e
    refine ⟨by rw [List.count_erase_self, if_pos rfl]; omega, fun type => ?_⟩
    have hnd : (s.activeWakeLocks type).Nodup := h.nodup
    have := List.nodup_iff_count_le_one.mp hnd k
    rw [List.count_erase_self, if_pos rfl]
    omega
  · simp [*]

theorem Lists.not_mem_erase (h : Lists s) : l ∉ (s.activeWakeLocks type).erase l :=
  h.nodup.not_mem_erase

theorem Lists.sorted_erase (h : Lists s) (type : Nat) (v : Lock) : ((s.activeWakeLocks type).erase l).Pairwise fun j k =>
    (update s.lock l v j).autoExpire = true → (update s.lock l v k).autoExpire = true := by
  refine ((h.sorted type).sublist List.erase_sublist).imp_of_mem fun {j k} hj hk hjk => ?_
  have hne : ∀ {i}, i ∈ (s.activeWakeLocks type).erase l → i ≠ l := fun hi e => h.not_mem_erase (e ▸ hi)
  rw [update_of_ne (hne hj), update_of_ne (hne hk)]
  exact hjk

theorem Lists.deactivate (h : Lists s) (v : Lock) (hi : v.initialized = true) (ha : v.active = false) :
    Lists (addInactive l (listDel l (setLock l v s))) where
  inactive k := by
    show (l :: s.inactiveLocks.erase l).count k = _
    rw [List.count_cons, (h.count_erase k).1, h.inactive]
    by_cases e : k = l
    · subst e
      simp [addInactive, listDel, setLock, hi, ha]
    · simp [addInactive, listDel, setLock, e, Ne.symm e]
  active type k := by
    show ((s.activeWakeLocks type).erase l).count k = _
    rw [(h.count_erase k).2, h.active]
    by_cases e : k = l
    · subst e
      simp [addInactive, listDel, setLock, ha]
    · simp [addInactive, listDel, setLock, e]
  sorted type := h.sorted_erase type v

theorem setLock_lock (v : Lock) : (setLock l v s).lock k = if k = l then v else s.lock k := by
  simp [setLock, update_apply]

theorem Lists.activate (h : Lists s) (v : Lock) (hi : v.initialized = true) (ha : v.active = true)
    {front : Bool} (hv : v.autoExpire = !front) :
    Lists (addActive v.type front l (setLock l v (listDel l s))) where
  inactive k := by
    show (s.inactiveLocks.erase l).count k = _
    rw [(h.count_erase k).1, h.inactive]
    by_cases e : k = l
    · subst e
      simp [addActive, listDel, setLock, ha]
    · simp [addActive, listDel, setLock, e]
  active type k := by
    have hc := (h.count_erase (l := l) k).2 type
    rw [h.active] at hc
    simp only [addActive, listDel, setLock, update_apply]
    by_cases e : type = v.type
    · grind
    · grind
  sorted type := by
    have hs := h.sorted_erase (l := l) type v
    simp only [addActive, listDel, setLock, update_apply]
    simp only [update_apply] at hs
    split
    next e =>
      subst e
      cases front with
      | true => simp [hs, hv]
      | false => simp [List.pairwise_append, hs, hv]
    · exact hs

theorem Lists.init (h : Lists s) (v : Lock) (hl : (s.lock l).initialized = false)
    (hi : v.initialized = true) (ha : v.active = false) : Lists (addInactive l (setLock l v s)) := by
  have hnot : ∀ {type}, l ∉ s.activeWakeLocks type := fun {type} hm => by
    rw [h.mem_active, hl] at hm
    cases hm.1
  have he : listDel l (setLock l v s) = setLock l v s := by
    have hl' : l ∉ s.inactiveLocks := by
      rw [← List.count_eq_zero, h.inactive, hl]
      simp
    simp only [listDel, setLock, List.erase_of_not_mem hl', List.erase_of_not_mem hnot]
  rw [← he]
  exact h.deactivate v hi ha

/-! ## Expiry -/

structure Expires (ds : List LockId) (s s' : State) : Prop where
  lock : ∀ l, s'.lock l = if l ∈ ds then (s.lock l).release else s.lock l
  sublist : ∀ type, (s'.activeWakeLocks type).Sublist (s.activeWakeLocks type)
  lists : Lists s'
  jiffies : s'.jiffies = s.jiffies
  timer : s'.expireTimer = s.expireTimer
  workQueued : s'.workQueued = s.workQueued

theorem Expires.nil (h : Lists s) : Expires [] s s :=
  ⟨fun l => by simp, fun _ => .refl _, h, rfl, rfl, rfl⟩

theorem expireWakeLock_expires (h : Lists s) (hl : l ∈ s.activeWakeLocks type) :
    Expires [l] s (expireWakeLock l s) where
  lock k := by
    show (setLock l _ s).lock k = _
    rw [setLock_lock]
    by_cases e : k = l <;> simp [e]
  sublist _ := List.erase_sublist
  lists := h.deactivate (s.lock l).release (h.mem_active.mp hl).1 rfl
  jiffies := rfl
  timer := rfl
  workQueued := rfl

theorem Expires.mem_active (h : Lists s) (he : Expires ds s s') :
    l ∈ s'.activeWakeLocks type ↔ l ∈ s.activeWakeLocks type ∧ l ∉ ds := by
  rw [he.lists.mem_active, h.mem_active, he.lock]
  split
  · next hd => simp [Lock.release, hd]
  · next hd => simp [hd]

theorem Expires.lock_of_mem (h : Lists s) (he : Expires ds s s') (hl : l ∈ s'.activeWakeLocks type) :
    s'.lock l = s.lock l := by
  rw [he.lock, if_neg ((he.mem_active h).mp hl).2]

theorem Expires.cons {s1 : State} (h1 : Expires [l] s s1) (h2 : Expires ds s1 s') :
    Expires (l :: ds) s s' where
  lock k := by
    rw [h2.lock, h1.lock]
    by_cases e : k = l
    · subst e
      by_cases hd : k ∈ ds <;> simp [hd, Lock.release]
    · simp [e]
  sublist type := (h2.sublist type).trans (h1.sublist type)
  lists := h2.lists
  jiffies := h2.jiffies.trans h1.jiffies
  timer := h2.timer.trans h1.timer
  workQueued := h2.workQueued.trans h1.workQueued

def Longest (s : State) (ls : List LockId) (m r : Int) : Prop :=
  m ≤ r ∧ (∀ l ∈ ls, timeLeft l s ≤ r) ∧ (r = m ∨ ∃ l ∈ ls, r = timeLeft l s)

theorem hasWakeLockLoop_expires (h : Lists s) (hls : ∀ l ∈ ls, l ∈ s.activeWakeLocks type)
    (hnd : ls.Nodup) (hauto : ∀ l ∈ ls, (s.lock l).autoExpire = true) (hm : 0 ≤ m) :
    ∃ s' r, hasWakeLockLoop ls m s = (s', r) ∧
      Expires (ls.filter fun l => timeLeft l s ≤ 0) s s' ∧ Longest s ls m r := by
  induction ls generalizing m s with
  | nil => exact ⟨s, m, rfl, .nil h, Int.le_refl m, by simp, .inl rfl⟩
  | cons l ls ih =>
    obtain ⟨hl, hnd⟩ := List.nodup_cons.mp hnd
    have hrest : ∀ k ∈ ls, k ∈ s.activeWakeLocks type := fun k hk => hls k (List.mem_cons_of_mem l hk)
    have hauto' : ∀ k ∈ ls, (s.lock k).autoExpire = true := fun k hk => hauto k (List.mem_cons_of_mem l hk)
    simp only [hasWakeLockLoop, hauto l List.mem_cons_self, if_true]
    by_cases hle : timeLeft l s ≤ 0
    · have he := expireWakeLock_expires h (hls l List.mem_cons_self)
      have hlock : ∀ k ∈ ls, (expireWakeLock l s).lock k = s.lock k := fun k hk => by
        rw [he.lock, if_neg]
        rw [List.mem_singleton]
        exact fun e => hl (e ▸ hk)
      have hleft : ∀ k ∈ ls, timeLeft k (expireWakeLock l s) = timeLeft k s := fun k hk => by
        rw [timeLeft, hlock k hk]
        rfl
      obtain ⟨s', r, hx, he', hge, hall, hr⟩ := ih he.lists
        (fun k hk => (he.mem_active h).mpr ⟨hrest k hk, fun e => hl (List.mem_singleton.mp e ▸ hk)⟩) hnd
        (fun k hk => by rw [hlock k hk]; exact hauto' k hk) hm
      refine ⟨s', r, by rw [if_pos hle, hx], ?_, hge, ?_, ?_⟩
      · rw [List.filter_cons_of_pos (by simpa using hle)]
        refine he.cons ?_
        rwa [List.filter_congr fun k hk => by rw [hleft k hk]] at he'
      · grind
      · grind
    · rw [if_neg hle, List.filter_cons_of_neg (by simpa using hle)]
      by_cases hlt : m < timeLeft l s
      · obtain ⟨s', r, hx, he', hge, hall, hr⟩ := ih (m := timeLeft l s) h hrest hnd hauto' (by omega)
        refine ⟨s', r, by rw [if_pos hlt, hx], he', by omega, ?_, ?_⟩
        · simp_all
        · simp [*]
      obtain ⟨s', r, hx, he', hge, hall, hr⟩ := ih h hrest hnd hauto' hm
      refine ⟨s', r, by rw [if_neg hlt, hx], he', hge, ?_, ?_⟩
      · grind
      · exact hr.imp_right fun ⟨k, hk, e⟩ => ⟨k, List.mem_cons_of_mem l hk, e⟩

theorem hasWakeLockLocked_cases (h : Lists s) (hx : hasWakeLockLocked type s = .ok (s', r)) :
    ((∃ l ∈ s.activeWakeLocks type, (s.lock l).autoExpire = false) ∧ s' = s ∧ r = -1) ∨
      ((∀ l ∈ s.activeWakeLocks type, (s.lock l).autoExpire = true) ∧
        Expires ((s.activeWakeLocks type).filter fun l => timeLeft l s ≤ 0) s s' ∧
        Longest s (s.activeWakeLocks type) 0 r) := by
  unfold hasWakeLockLocked at hx
  split at hx
  · cases hx
  have hx := Except.ok.inj hx
  by_cases hauto : ∀ l ∈ s.activeWakeLocks type, (s.lock l).autoExpire = true
  · obtain ⟨s1, r1, hx1, he, hr⟩ := hasWakeLockLoop_expires h (fun _ => id) h.nodup hauto (Int.le_refl 0)
    rw [hx1] at hx
    cases hx
    exact .inr ⟨hauto, he, hr⟩
  push Not at hauto
  obtain ⟨l, hl, hne⟩ := hauto
  have hne : (s.lock l).autoExpire = false := by simpa using hne
  -- the first lock of the list does not expire either
  cases hlist : s.activeWakeLocks type with
  | nil => rw [hlist] at hl; cases hl
  | cons k rest =>
    have hk : (s.lock k).autoExpire = false := by
      by_contra hk
      have hs := h.sorted type
      rw [hlist] at hs hl
      rcases List.mem_cons.mp hl with rfl | hl
      · exact hk hne
      · simp_all
    rw [hlist] at hx
    simp only [hasWakeLockLoop, hk] at hx
    cases hx
    exact .inl ⟨⟨k, by simp, hk⟩, rfl, rfl⟩

end G3Mod.WakeLock
