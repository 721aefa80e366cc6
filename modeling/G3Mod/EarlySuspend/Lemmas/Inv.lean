import G3Mod.EarlySuspend.Model

/-!
# What every step of early suspend keeps
-/

namespace G3Mod.EarlySuspend

open Lib

variable {s t : State} {h e : Handler} {w : Work}

/-! ## The list of handlers -/

def ByLevel (hs : List Handler) : Prop := hs.Pairwise fun a b => a.level ≤ b.level

theorem insertHandler_perm (h : Handler) : ∀ es, (insertHandler h es).Perm (h :: es)
  | [] => .refl _
  | e :: es => by
      rw [insertHandler]
      split
      · exact .refl _
      · exact ((insertHandler_perm h es).cons e).trans (.swap h e es)

@[simp] theorem mem_insertHandler {es : List Handler} : e ∈ insertHandler h es ↔ e = h ∨ e ∈ es := by
  rw [(insertHandler_perm h es).mem_iff, List.mem_cons]

theorem ByLevel.insertHandler : ∀ {es : List Handler}, ByLevel es → ByLevel (insertHandler h es)
  | [], _ => List.pairwise_singleton _ _
  | e :: es, hs => by
      obtain ⟨hhead, htail⟩ := List.pairwise_cons.mp hs
      rw [EarlySuspend.insertHandler]
      split
      next hlt =>
        refine List.pairwise_cons.mpr ⟨fun a ha => ?_, hs⟩
        rcases List.mem_cons.mp ha with rfl | ha
        · exact Int.le_of_lt hlt
        · exact Int.le_trans (Int.le_of_lt hlt) (hhead a ha)
      rename_i hle
      refine List.pairwise_cons.mpr ⟨fun a ha => ?_, ByLevel.insertHandler htail⟩
      rcases mem_insertHandler.mp ha with rfl | ha
      · exact Int.not_lt.mp hle
      · exact hhead a ha

theorem mem_queueWork : w ∈ (queueWork w s).queue := by
  unfold queueWork
  split
  · assumption
  · simp

@[simp] theorem queueWork_same : (queueWork w s).flags = s.flags ∧ (queueWork w s).handlers = s.handlers ∧
    (queueWork w s).mainWakeLock = s.mainWakeLock ∧ (queueWork w s).worker = s.worker ∧
    (queueWork w s).mutex = s.mutex := by
  unfold queueWork
  split <;> exact ⟨rfl, rfl, rfl, rfl, rfl⟩

/-! ## The invariant -/

def Worker.holds : Worker → Bool
  | .earlyCheck | .earlyCalls _ | .earlyUnlock | .lateCheck | .lateCalls _ | .lateAbort => true
  | _ => false

def Worker.early : Worker → Bool
  | .earlyLock | .earlyCheck | .earlyCalls _ | .earlyUnlock | .earlySync | .earlyAbort => true
  | _ => false

/-- The thread is at the beginning of a work, and has not tested `state` yet. -/
def Worker.begins (w : Work) : Worker → Bool
  | .earlyLock | .earlyCheck => w = .earlySuspend
  | .lateLock | .lateCheck => w = .lateResume
  | _ => false

/-- The thread calls the handlers of a pass, some are still to be called. -/
def Worker.calls : Worker → Option (Work × List Handler)
  | .earlyCalls rest => some (.earlySuspend, rest)
  | .lateCalls rest => some (.lateResume, rest)
  | _ => none

def Work.wanted : Work → Flags
  | .earlySuspend => ⟨true, false⟩
  | .lateResume => ⟨false, true⟩

def Work.suspends : Work → Bool
  | .earlySuspend => true
  | .lateResume => false

def Work.order : Work → List Handler → List Handler
  | .earlySuspend, hs => hs
  | .lateResume, hs => hs.reverse

def Due (w : Work) (s : State) : Prop := w ∈ s.queue ∨ s.worker.begins w = true

def Ending (s : State) : Prop := .earlySuspend ∈ s.queue ∨ s.worker.early = true

structure Inv (s : State) : Prop where
  byLevel : ByLevel s.handlers
  nodup : s.handlers.Nodup
  mutex : s.mutex = .worker ↔ s.worker.holds = true
  /-- A request that has not been met has its work under way. -/
  due : ∀ w : Work, s.flags = w.wanted → Due w s
  /-- The lock is released only while the handlers are suspended, and will be released then. -/
  released : s.mainWakeLock = false → s.flags = ⟨true, true⟩
  release : s.flags = ⟨true, true⟩ → s.mainWakeLock = true → Ending s
  /-- During a pass the lock is held, and what is to be called is the end of the list. -/
  calls : ∀ w rest, s.worker.calls = some (w, rest) → s.mainWakeLock = true ∧ s.flags.suspended = w.suspends ∧
    rest <:+ w.order s.handlers
  registering : ∀ h, s.mutex = .registering h → h ∈ s.handlers

theorem inv_initial : Inv initial where
  byLevel := .nil
  nodup := .nil
  mutex := by decide
  due w := by cases w <;> nofun
  released := nofun
  release := nofun
  calls := nofun
  registering := nofun

section

variable (hi : Inv s)

include hi

theorem Inv.requestSuspendState (newState : SuspendState) : Inv (requestSuspendState newState s) := by
  unfold EarlySuspend.requestSuspendState
  split
  next hreq =>
    have hdue : .earlySuspend ∈ (queueWork .earlySuspend { s with flags.suspendRequested := true }).queue :=
      mem_queueWork
    refine ⟨by simpa using hi.byLevel, by simpa using hi.nodup, by simpa using hi.mutex, fun w hw => ?_, ?_,
      fun _ _ => .inl hdue, by simpa using hi.calls, by simpa using hi.registering⟩
    · cases w with
      | earlySuspend => exact .inl hdue
      | lateResume => simp [Work.wanted] at hw
    · have := hi.released
      simp_all
  · split
    · have hdue : .lateResume ∈
          (queueWork .lateResume { s with flags.suspendRequested := false, mainWakeLock := true }).queue := mem_queueWork
      refine ⟨by simpa using hi.byLevel, by simpa using hi.nodup, by simpa using hi.mutex, fun w hw => ?_, by simp,
        by simp, fun w rest hc => ?_, by simpa using hi.registering⟩
      · cases w with
        | earlySuspend => simp [Work.wanted] at hw
        | lateResume => exact .inl hdue
      · simpa using (hi.calls w rest (by simpa using hc)).2
    · exact { hi with }

theorem Inv.calls_eq_none (hm : s.mutex ≠ .worker) : s.worker.calls = none := by
  have hh := fun hh => hm (hi.mutex.mpr hh)
  cases hw : s.worker with
  | earlyCalls rest | lateCalls rest => exact absurd (by rw [hw]; rfl) hh
  | _ => rfl

theorem Inv.relist (hm : s.mutex ≠ .worker) {hs : List Handler} {m : Mutex} (hlevel : ByLevel hs)
    (hnodup : hs.Nodup) (hm' : m ≠ .worker) (hreg : ∀ h, m = .registering h → h ∈ hs) :
    Inv { s with handlers := hs, mutex := m } where
  byLevel := hlevel
  nodup := hnodup
  mutex := ⟨fun h => absurd h hm', fun h => absurd (hi.mutex.mpr h) hm⟩
  due := hi.due
  released := hi.released
  release := hi.release
  calls w rest hc := by
    have hc : s.worker.calls = some (w, rest) := hc
    rw [hi.calls_eq_none hm] at hc
    cases hc
  registering := hreg

theorem Inv.registerLock (hm : s.mutex = .free) (hnew : h ∉ s.handlers) : Inv (registerLock h s).2 := by
  refine hi.relist (by simp [hm]) hi.byLevel.insertHandler ?_ nofun fun h' hr => ?_
  · exact (insertHandler_perm h s.handlers).nodup_iff.mpr (List.nodup_cons.mpr ⟨hnew, hi.nodup⟩)
  · cases hr
    simp

theorem Inv.setMutex (hm : s.mutex ≠ .worker) {m : Mutex} (hm' : m ≠ .worker)
    (hreg : ∀ h, m ≠ .registering h) : Inv { s with mutex := m } :=
  hi.relist hm hi.byLevel hi.nodup hm' fun h hr => absurd hr (hreg h)

theorem Inv.unregister (hm : s.mutex = .free) : Inv (unregisterEarlySuspend h s).2 := by
  have hm' : s.mutex ≠ .worker := by simp [hm]
  exact hi.relist hm' (hi.byLevel.sublist List.erase_sublist) (hi.nodup.erase h) hm' (by simp [hm])

theorem Inv.goto (pc : Worker) (m : Mutex) (hmutex : m = .worker ↔ pc.holds = true)
    (hbegins : ∀ w, s.worker.begins w = true → pc.begins w = true ∨ s.flags ≠ w.wanted)
    (hearly : s.worker.early = true → pc.early = true)
    (hcalls : ∀ w rest, pc.calls = some (w, rest) → ∃ called, s.worker.calls = some (w, called ++ rest))
    (hreg : ∀ h, m = .registering h → s.mutex = .registering h) : Inv { s with worker := pc, mutex := m } where
  byLevel := hi.byLevel
  nodup := hi.nodup
  mutex := hmutex
  due w hf := by
    rcases hi.due w hf with hq | hb
    · exact .inl hq
    · exact .inr ((hbegins w hb).resolve_right fun hne => hne hf)
  released := hi.released
  release hf hl := (hi.release hf hl).imp id hearly
  calls w rest hc := by
    obtain ⟨called, hs⟩ := hcalls w rest hc
    obtain ⟨hheld, hflag, hsuffix⟩ := hi.calls w _ hs
    exact ⟨hheld, hflag, (List.suffix_append called rest).trans hsuffix⟩
  registering h hr := hi.registering h (hreg h hr)

theorem Inv.take {x : Work} {ws : List Work} (hw : s.worker = .idle) (hq : s.queue = x :: ws) {pc : Worker}
    (hholds : pc.holds = false) (hbegins : pc.begins x = true) (hcalls : pc.calls = none)
    (hearly : x = .earlySuspend → pc.early = true) : Inv { s with queue := ws, worker := pc } where
  byLevel := hi.byLevel
  nodup := hi.nodup
  mutex := by
    have := hi.mutex
    rw [hw] at this
    simpa [hholds] using this.not.mpr nofun
  due w hf := by
    have := hi.due w hf
    simp only [Due, hq, hw, Worker.begins, List.mem_cons, Bool.false_eq_true, or_false] at this
    rcases this with rfl | h
    · exact .inr hbegins
    · exact .inl h
  released := hi.released
  release hf hl := by
    have := hi.release hf hl
    simp only [Ending, hq, hw, Worker.early, List.mem_cons, Bool.false_eq_true, or_false] at this
    exact this.elim (fun h => .inr (hearly h.symm)) .inl
  calls w rest hc := by
    rw [show pc.calls = some (w, rest) from hc] at hcalls
    cases hcalls
  registering := hi.registering

theorem Inv.pass (hholds : s.worker.holds = true) (w : Work) (hf : s.flags = w.wanted) {pc : Worker}
    (hpc : pc.holds = true) (hcalls : pc.calls = some (w, w.order s.handlers))
    (hearly : w = .earlySuspend → pc.early = true) :
    Inv { s with flags.suspended := w.suspends, worker := pc } := by
  have hmutex := hi.mutex.mpr hholds
  have hheld := hi.released
  refine ⟨hi.byLevel, hi.nodup, by simp [hmutex, hpc], fun w' hf' => ?_, fun hl => ?_, fun hf' _ => .inr (hearly ?_),
    fun w' rest hc => ?_, hi.registering⟩
  · cases w <;> cases w' <;> simp_all [Work.wanted, Work.suspends]
  · cases w <;> simp_all [Work.wanted]
  · cases w <;> simp_all [Work.suspends]
  · obtain ⟨rfl, rfl⟩ : w = w' ∧ w.order s.handlers = rest := by simpa [hcalls] using hc
    refine ⟨?_, rfl, List.suffix_rfl⟩
    cases hl : s.mainWakeLock <;> cases w <;> simp_all [Work.wanted]

theorem Inv.unlock (hw : s.worker = .earlyAbort) :
    Inv { s with mainWakeLock := if s.flags = ⟨true, true⟩ then false else s.mainWakeLock, worker := .idle } where
  byLevel := hi.byLevel
  nodup := hi.nodup
  mutex := by simpa [hw, Worker.holds] using hi.mutex
  due w hf := by simpa [Due, hw, Worker.begins] using hi.due w hf
  released hl := by
    split at hl
    · assumption
    · exact hi.released hl
  release hf hl := by
    have hf : s.flags = ⟨true, true⟩ := hf
    simp [hf] at hl
  calls := nofun
  registering := hi.registering

theorem Inv.work : Inv (work s).2 := by
  have hmutex := hi.mutex
  cases hw : s.worker with
  | idle =>
    cases hq : s.queue with
    | nil => simpa only [EarlySuspend.work, hw, hq] using hi
    | cons x ws =>
      cases x with
      | earlySuspend => simpa only [EarlySuspend.work, hw, hq] using hi.take hw hq rfl rfl rfl fun _ => rfl
      | lateResume => simpa only [EarlySuspend.work, hw, hq] using hi.take hw hq rfl rfl rfl nofun
  | earlyLock | lateLock =>
    simp only [EarlySuspend.work, hw]
    exact hi.goto _ .worker (by decide) (by simp [hw, Worker.begins]) (by simp [hw, Worker.early]) nofun nofun
  | earlyUnlock | lateAbort =>
    simp only [EarlySuspend.work, hw]
    exact hi.goto _ .free (by decide) (by simp [hw, Worker.begins]) (by simp [hw, Worker.early]) nofun nofun
  | earlySync =>
    rw [hw] at hmutex
    simp only [EarlySuspend.work, hw]
    exact hi.goto .earlyAbort s.mutex hmutex (by simp [hw, Worker.begins]) (fun _ => rfl) nofun fun _ => id
  | earlyAbort => simpa only [EarlySuspend.work, hw] using hi.unlock hw
  | earlyCheck =>
    rw [hw] at hmutex
    simp only [EarlySuspend.work, hw]
    split
    · next hf => exact hi.pass (by rw [hw]; rfl) .earlySuspend hf rfl rfl fun _ => rfl
    next hf =>
      refine hi.goto _ s.mutex hmutex (fun w hb => .inr fun hf' => hf ?_) (by simp [hw, Worker.early]) nofun fun _ => id
      cases w <;> simp_all [Worker.begins, Work.wanted]
  | lateCheck =>
    rw [hw] at hmutex
    simp only [EarlySuspend.work, hw]
    split
    · next hf => exact hi.pass (by rw [hw]; rfl) .lateResume hf rfl rfl nofun
    next hf =>
      refine hi.goto _ s.mutex hmutex (fun w hb => .inr fun hf' => hf ?_) (by simp [hw, Worker.early]) nofun fun _ => id
      cases w <;> simp_all [Worker.begins, Work.wanted]
  | earlyCalls rest | lateCalls rest =>
    rw [hw] at hmutex
    cases rest with
    | nil =>
      simp only [EarlySuspend.work, hw]
      exact hi.goto _ _ (by simp_all [Worker.holds]) (by simp [hw, Worker.begins]) (by simp [hw, Worker.early]) nofun
        (by simp)
    | cons e rest =>
      simp only [EarlySuspend.work, hw]
      refine hi.goto _ s.mutex hmutex (by simp [hw, Worker.begins]) (by simp [hw, Worker.early]) ?_ fun _ => id
      intro w r hr
      cases hr
      exact ⟨[e], by rw [hw]; rfl⟩

theorem Inv.step {op : Op} (hp : op.Permitted s) : Inv (step s op).2 := by
  cases op with
  | request newState => exact hi.requestSuspendState newState
  | registerLock h => exact hi.registerLock hp.1 hp.2
  | registerTest h =>
    have hm : s.mutex = .registering h := hp
    exact hi.setMutex (by simp [hm]) nofun nofun
  | registerUnlock h =>
    have hm : s.mutex = .registered h := hp
    exact hi.setMutex (by simp [hm]) nofun nofun
  | unregister h => exact hi.unregister hp.1
  | work => exact hi.work

end

end G3Mod.EarlySuspend
