import G3Mod.EarlySuspend.Lemmas.Inv

/-!
# The calls of the handlers
-/

namespace G3Mod.EarlySuspend

open Lib

variable {s t : State} {h e : Handler}

/-! ## The calls of one handler -/

inductive Call where
  | suspend
  | resume
  deriving DecidableEq, Repr

/-- The calls of a handler since it was registered; none for a handler that is not registered. -/
def record (h : Handler) (r : Option (List Call)) : Event → Option (List Call)
  | .registered e => if e = h then some [] else r
  | .unregistered e => if e = h then none else r
  | .suspend e | .registerSuspend e => if e = h then r.map (· ++ [.suspend]) else r
  | .resume e => if e = h then r.map (· ++ [.resume]) else r
  | .pass _ _ => r

def alternating : Nat → List Call
  | 0 => []
  | n + 1 => alternating n ++ [if n % 2 = 0 then .suspend else .resume]

def Asleep (h : Handler) (s : State) : Prop :=
  match s.worker.calls with
  | some (.earlySuspend, rest) => h ∉ rest
  | some (.lateResume, rest) => h ∈ rest
  | none => s.flags.suspended = true ∧ s.mutex ≠ .registering h

structure Tracks (h : Handler) (s : State) (r : Option (List Call)) : Prop where
  absent : h ∉ s.handlers → r = none
  present : h ∈ s.handlers → r.isSome
  last : ∀ {cs}, r = some cs → h.suspend = true → Asleep h s → cs.getLast? = some .suspend
  alternates : ∀ {cs}, r = some cs → h.suspend = true → h.resume = true →
    ∃ n, cs = alternating n ∧ (n % 2 = 1 ↔ Asleep h s)

variable {r : Option (List Call)}

theorem Tracks.keep (ht : Tracks h s r) (hmem : h ∈ t.handlers ↔ h ∈ s.handlers)
    (hasleep : h ∈ s.handlers → (Asleep h t ↔ Asleep h s)) : Tracks h t r where
  absent hn := ht.absent (hmem.not.mp hn)
  present hp := ht.present (hmem.mp hp)
  last {cs} hr hs ha := by
    by_cases hp : h ∈ s.handlers
    · exact ht.last hr hs ((hasleep hp).mp ha)
    · rw [ht.absent hp] at hr
      cases hr
  alternates {cs} hr hs hres := by
    by_cases hp : h ∈ s.handlers
    · rw [hasleep hp]
      exact ht.alternates hr hs hres
    · rw [ht.absent hp] at hr
      cases hr

theorem Tracks.suspend (ht : Tracks h s r) (hp : h ∈ s.handlers) (hp' : h ∈ t.handlers) (hbefore : ¬ Asleep h s)
    (hafter : Asleep h t) : Tracks h t (if h.suspend then r.map (· ++ [.suspend]) else r) where
  absent hn := absurd hp' hn
  present _ := by
    split
    · simpa using ht.present hp
    · exact ht.present hp
  last {cs} hr hs _ := by
    rw [if_pos hs] at hr
    obtain ⟨cs', -, rfl⟩ := Option.map_eq_some_iff.mp hr
    simp
  alternates {cs} hr hs hres := by
    rw [if_pos hs] at hr
    obtain ⟨cs', hr', rfl⟩ := Option.map_eq_some_iff.mp hr
    obtain ⟨n, rfl, hn⟩ := ht.alternates hr' hs hres
    have : n % 2 = 0 := by
      have := hn.not.mpr hbefore
      omega
    refine ⟨n + 1, by rw [alternating, if_pos this], ?_⟩
    simp only [hafter, iff_true]
    omega

theorem Tracks.resume (ht : Tracks h s r) (hp : h ∈ s.handlers) (hp' : h ∈ t.handlers) (hbefore : Asleep h s)
    (hafter : ¬ Asleep h t) : Tracks h t (if h.resume then r.map (· ++ [.resume]) else r) where
  absent hn := absurd hp' hn
  present _ := by
    split
    · simpa using ht.present hp
    · exact ht.present hp
  last _ _ ha := absurd ha hafter
  alternates {cs} hr hs hres := by
    rw [if_pos hres] at hr
    obtain ⟨cs', hr', rfl⟩ := Option.map_eq_some_iff.mp hr
    obtain ⟨n, rfl, hn⟩ := ht.alternates hr' hs hres
    have hodd := hn.mpr hbefore
    refine ⟨n + 1, by rw [alternating, if_neg (by omega)], ?_⟩
    simp only [hafter, iff_false]
    omega

theorem Tracks.new (hp : h ∈ t.handlers) (ha : ¬ Asleep h t) : Tracks h t (some []) where
  absent hn := absurd hp hn
  present _ := rfl
  last _ _ ha' := absurd ha' ha
  alternates hr _ _ := by
    cases hr
    exact ⟨0, rfl, by simp [ha]⟩

theorem Tracks.gone (hn : h ∉ t.handlers) : Tracks h t none where
  absent _ := rfl
  present hp := absurd hp hn
  last := nofun
  alternates := nofun

theorem tracks_initial : Tracks h initial none := .gone (by simp [initial])

/-! ## One step -/

theorem asleep_of_calls_none (hc : s.worker.calls = none) :
    Asleep h s ↔ s.flags.suspended = true ∧ s.mutex ≠ .registering h := by
  simp only [Asleep, hc]

theorem asleep_earlyCalls {rest : List Handler} (hc : s.worker = .earlyCalls rest) : Asleep h s ↔ h ∉ rest := by
  simp only [Asleep, hc, Worker.calls]

theorem asleep_lateCalls {rest : List Handler} (hc : s.worker = .lateCalls rest) : Asleep h s ↔ h ∈ rest := by
  simp only [Asleep, hc, Worker.calls]

theorem asleep_congr (hc : t.worker.calls = s.worker.calls) (hf : t.flags.suspended = s.flags.suspended)
    (hm : t.mutex = .registering h ↔ s.mutex = .registering h) : Asleep h t ↔ Asleep h s := by
  unfold Asleep
  rw [hc, hf, ne_eq, ne_eq, hm]

theorem requestSuspendState_frame (n : SuspendState) (s : State) : (requestSuspendState n s).handlers = s.handlers ∧
    (requestSuspendState n s).worker = s.worker ∧
    (requestSuspendState n s).flags.suspended = s.flags.suspended ∧ (requestSuspendState n s).mutex = s.mutex := by
  unfold requestSuspendState
  split
  · simp
  · split <;> simp

theorem Tracks.requestSuspendState (ht : Tracks h s r) (n : SuspendState) : Tracks h (requestSuspendState n s) r := by
  obtain ⟨hh, hw, hf, hm⟩ := requestSuspendState_frame n s
  exact ht.keep (by rw [hh]) fun _ => asleep_congr (by rw [hw]) hf (by rw [hm])

theorem Tracks.registerLock (ht : Tracks h s r) (hi : Inv s) (hm : s.mutex = .free) :
    Tracks h (registerLock e s).2 ((registerLock e s).1.foldl (record h) r) := by
  have hc := hi.calls_eq_none (by simp [hm])
  show Tracks h _ (if e = h then some [] else r)
  split
  next heq =>
    subst heq
    refine .new (mem_insertHandler.mpr (.inl rfl)) fun ha => ?_
    exact ((asleep_of_calls_none (by exact hc)).mp ha).2 rfl
  next hne =>
    refine ht.keep (mem_insertHandler.trans (or_iff_right (Ne.symm hne))) fun _ => asleep_congr rfl rfl ?_
    simp [EarlySuspend.registerLock, hm, hne]

theorem Tracks.registerTest (ht : Tracks h s r) (hi : Inv s) (hm : s.mutex = .registering e) :
    Tracks h (registerTest e s).2 ((registerTest e s).1.foldl (record h) r) := by
  have hc := hi.calls_eq_none (by simp [hm])
  have hbefore : Asleep h s ↔ _ := asleep_of_calls_none hc
  have hafter : Asleep h (EarlySuspend.registerTest e s).2 ↔ _ := asleep_of_calls_none hc
  by_cases heq : e = h
  · subst heq
    have hp := hi.registering e hm
    have hawake : ¬ Asleep e s := fun ha => (hbefore.mp ha).2 hm
    by_cases hsus : s.flags.suspended = true
    · have hcall : (EarlySuspend.registerTest e s).1.foldl (record e) r =
          if e.suspend then r.map (· ++ [.suspend]) else r := by
        cases hcb : e.suspend <;> simp [EarlySuspend.registerTest, hsus, hcb, record]
      rw [hcall]
      exact ht.suspend hp hp hawake (hafter.mpr ⟨hsus, nofun⟩)
    have hcall : (EarlySuspend.registerTest e s).1.foldl (record e) r = r := by
      simp [EarlySuspend.registerTest, hsus]
    rw [hcall]
    exact ht.keep Iff.rfl fun _ => iff_of_false (fun ha => hsus (hafter.mp ha).1) hawake
  · have hcall : (EarlySuspend.registerTest e s).1.foldl (record h) r = r := by
      unfold EarlySuspend.registerTest
      split
      · simp [record, heq]
      · rfl
    rw [hcall]
    refine ht.keep Iff.rfl fun _ => asleep_congr rfl rfl ?_
    simp [EarlySuspend.registerTest, hm, heq]

theorem Tracks.unregister (ht : Tracks h s r) (hi : Inv s) :
    Tracks h (unregisterEarlySuspend e s).2 ((unregisterEarlySuspend e s).1.foldl (record h) r) := by
  show Tracks h _ (if e = h then none else r)
  split
  next heq =>
    subst heq
    exact .gone hi.nodup.not_mem_erase
  · next hne => exact ht.keep (List.mem_erase_of_ne (Ne.symm hne)) fun _ => asleep_congr rfl rfl Iff.rfl

theorem Tracks.goto (ht : Tracks h s r) {ws : List Work} {l : Bool} {pc : Worker} {m : Mutex} (hc : s.worker.calls = none)
    (hpc : pc.calls = none) (hm : m = s.mutex ∨ m = .free ∧ s.mutex = .worker ∨ m = .worker ∧ s.mutex = .free) :
    Tracks h { s with queue := ws, mainWakeLock := l, worker := pc, mutex := m } r := by
  refine ht.keep Iff.rfl fun _ => asleep_congr (hpc.trans hc.symm) rfl ?_
  rcases hm with rfl | ⟨rfl, hm⟩ | ⟨rfl, hm⟩
  · exact Iff.rfl
  · simp [hm]
  · simp [hm]

theorem foldl_suspend : (if e.suspend then [Event.suspend e] else []).foldl (record e) r =
    if e.suspend then r.map (· ++ [.suspend]) else r := by
  split <;> simp [record]

theorem foldl_resume : (if e.resume then [Event.resume e] else []).foldl (record e) r =
    if e.resume then r.map (· ++ [.resume]) else r := by
  split <;> simp [record]

theorem foldl_ite_of_ne {c : Bool} {ev : Event} (hev : record h r ev = r) :
    (if c then [ev] else []).foldl (record h) r = r := by
  split
  · exact hev
  · rfl

theorem Tracks.work (ht : Tracks h s r) (hi : Inv s) (hready : s.worker.Ready s) :
    Tracks h (work s).2 ((work s).1.foldl (record h) r) := by
  have hmutex := hi.mutex
  have hcalls := hi.calls
  cases hw : s.worker with
  | idle =>
    have hc : s.worker.calls = none := by rw [hw]; rfl
    cases hq : s.queue with
    | nil => simpa [EarlySuspend.work, hw, hq] using ht
    | cons x ws => cases x <;> simpa [EarlySuspend.work, hw, hq] using ht.goto hc rfl (.inl rfl)
  | earlyLock | lateLock =>
    have hfree : s.mutex = .free := by simpa [hw, Worker.Ready] using hready
    simpa [EarlySuspend.work, hw] using ht.goto (by rw [hw]; rfl) rfl (.inr (.inr ⟨rfl, hfree⟩))
  | earlyUnlock | lateAbort =>
    have hheld : s.mutex = .worker := hmutex.mpr (by rw [hw]; rfl)
    simpa [EarlySuspend.work, hw] using ht.goto (by rw [hw]; rfl) rfl (.inr (.inl ⟨rfl, hheld⟩))
  | earlySync | earlyAbort =>
    simp only [EarlySuspend.work, hw]
    exact ht.goto (by rw [hw]; rfl) rfl (.inl rfl)
  | earlyCheck =>
    have hc : s.worker.calls = none := by rw [hw]; rfl
    simp only [EarlySuspend.work, hw]
    split
    · next hf =>
      refine ht.keep Iff.rfl fun hp => iff_of_false (fun ha => (asleep_earlyCalls rfl).mp ha hp) ?_
      simp [asleep_of_calls_none hc, hf]
    · exact ht.goto hc rfl (.inl rfl)
  | lateCheck =>
    have hc : s.worker.calls = none := by rw [hw]; rfl
    have hheld : s.mutex = .worker := hmutex.mpr (by rw [hw]; rfl)
    simp only [EarlySuspend.work, hw]
    split
    · next hf =>
      refine ht.keep Iff.rfl fun hp => iff_of_true ((asleep_lateCalls rfl).mpr (List.mem_reverse.mpr hp)) ?_
      simp [asleep_of_calls_none hc, hf, hheld]
    · exact ht.goto hc rfl (.inl rfl)
  | earlyCalls rest =>
    obtain ⟨-, hflag, hsuffix⟩ := hcalls .earlySuspend rest (by rw [hw]; rfl)
    cases rest with
    | nil =>
      simp only [EarlySuspend.work, hw]
      refine ht.keep Iff.rfl fun _ => iff_of_true ?_ ?_
      · exact (asleep_of_calls_none rfl).mpr ⟨hflag, by simp⟩
      · exact (asleep_earlyCalls hw).mpr List.not_mem_nil
    | cons e rest =>
      have hnew : e ∉ rest := (List.nodup_cons.mp (hi.nodup.sublist hsuffix.sublist)).1
      have hbefore : Asleep h s ↔ _ := asleep_earlyCalls hw
      simp only [EarlySuspend.work, hw]
      by_cases heq : e = h
      · subst heq
        have hp : e ∈ s.handlers := hsuffix.subset List.mem_cons_self
        rw [foldl_suspend]
        exact ht.suspend hp hp (fun ha => hbefore.mp ha List.mem_cons_self) ((asleep_earlyCalls rfl).mpr hnew)
      · rw [foldl_ite_of_ne (show record h r (.suspend e) = r from if_neg heq)]
        refine ht.keep Iff.rfl fun _ => ?_
        rw [hbefore, asleep_earlyCalls rfl, List.mem_cons, or_iff_right (Ne.symm heq)]
  | lateCalls rest =>
    obtain ⟨-, hflag, hsuffix⟩ := hcalls .lateResume rest (by rw [hw]; rfl)
    cases rest with
    | nil =>
      simp only [EarlySuspend.work, hw]
      refine ht.keep Iff.rfl fun _ => iff_of_false (fun ha => ?_) ?_
      · cases hflag.symm.trans ((asleep_of_calls_none rfl).mp ha).1
      · exact (asleep_lateCalls hw).not.mpr List.not_mem_nil
    | cons e rest =>
      have hnew : e ∉ rest := (List.nodup_cons.mp ((List.pairwise_reverse.mpr (hi.nodup.imp Ne.symm)).sublist hsuffix.sublist)).1
      have hbefore : Asleep h s ↔ _ := asleep_lateCalls hw
      simp only [EarlySuspend.work, hw]
      by_cases heq : e = h
      · subst heq
        have hp : e ∈ s.handlers := List.mem_reverse.mp (hsuffix.subset List.mem_cons_self)
        rw [foldl_resume]
        exact ht.resume hp hp (hbefore.mpr List.mem_cons_self) ((asleep_lateCalls rfl).not.mpr hnew)
      · rw [foldl_ite_of_ne (show record h r (.resume e) = r from if_neg heq)]
        refine ht.keep Iff.rfl fun _ => ?_
        rw [hbefore, asleep_lateCalls rfl, List.mem_cons, or_iff_right (Ne.symm heq)]

theorem Tracks.step (ht : Tracks h s r) (hi : Inv s) {op : Op} (hp : op.Permitted s) :
    Tracks h (step s op).2 ((step s op).1.foldl (record h) r) := by
  cases op with
  | request n => exact ht.requestSuspendState n
  | registerLock e => exact ht.registerLock hi hp.1
  | registerTest e => exact ht.registerTest hi hp
  | registerUnlock e =>
    have hm : s.mutex = .registered e := hp
    exact ht.keep Iff.rfl fun _ => asleep_congr rfl rfl (by simp [EarlySuspend.step, hm])
  | unregister e => exact ht.unregister hi
  | work => exact ht.work hi hp

/-! # The early suspend protocol -/

/-! ## Passes -/

structure Pass where
  work : Work
  handlers : List Handler
  called : List Handler
  deriving DecidableEq, Repr

def recordPass : List Pass → Event → List Pass
  | ps, .pass w hs => ⟨w, hs, []⟩ :: ps
  | p :: ps, .suspend h => { p with called := p.called ++ [h] } :: ps
  | p :: ps, .resume h => { p with called := p.called ++ [h] } :: ps
  | ps, _ => ps

def Work.callback : Work → Handler → Bool
  | .earlySuspend, h => h.suspend
  | .lateResume, h => h.resume

/-- Handlers are called in the order of their levels, and resumed in the reverse order. -/
def Pass.InOrder (p : Pass) : Prop :=
  ByLevel p.handlers ∧ p.called <+: (p.work.order p.handlers).filter p.work.callback

structure Passes (s : State) (ps : List Pass) : Prop where
  inOrder : ∀ p ∈ ps, p.InOrder
  current : ∀ w rest, s.worker.calls = some (w, rest) → ∃ called ps', ps = ⟨w, s.handlers, called⟩ :: ps' ∧
    called ++ rest.filter w.callback = (w.order s.handlers).filter w.callback

variable {ps : List Pass}

theorem Passes.quiet (hp : Passes s ps) (hc : t.worker.calls = none) : Passes t ps where
  inOrder := hp.inOrder
  current w rest h := by
    rw [hc] at h
    cases h

theorem Passes.begin (hp : Passes s ps) (hi : Inv s) {w : Work} (hh : t.handlers = s.handlers)
    (hc : t.worker.calls = some (w, w.order s.handlers)) : Passes t (⟨w, s.handlers, []⟩ :: ps) where
  inOrder p h := by
    rcases List.mem_cons.mp h with rfl | h
    · exact ⟨hi.byLevel, List.nil_prefix⟩
    · exact hp.inOrder p h
  current w' rest h := by
    rw [hc] at h
    cases h
    rw [hh]
    exact ⟨[], ps, rfl, rfl⟩

theorem Passes.call (hp : Passes s ps) (hi : Inv s) {w : Work} {e : Handler} {rest : List Handler} {ev : Event}
    (hc : s.worker.calls = some (w, e :: rest)) (hh : t.handlers = s.handlers) (hc' : t.worker.calls = some (w, rest))
    (hev : ∀ p ps, recordPass (p :: ps) ev = { p with called := p.called ++ [e] } :: ps) :
    Passes t ((if w.callback e then [ev] else []).foldl recordPass ps) := by
  obtain ⟨called, ps', rfl, hall⟩ := hp.current w _ hc
  rw [List.filter_cons] at hall
  split
  next hcb =>
    rw [if_pos hcb, ← List.singleton_append, ← List.append_assoc] at hall
    rw [List.foldl_cons, List.foldl_nil, hev]
    refine ⟨fun p h => ?_, fun w' rest' h => ?_⟩
    · rcases List.mem_cons.mp h with rfl | h
      · exact ⟨hi.byLevel, ⟨_, hall⟩⟩
      · exact hp.inOrder p (List.mem_cons_of_mem _ h)
    rw [hc'] at h
    cases h
    rw [hh]
    exact ⟨_, _, rfl, hall⟩
  next hcb =>
    rw [if_neg hcb] at hall
    refine ⟨hp.inOrder, fun w' rest' h => ?_⟩
    rw [hc'] at h
    cases h
    rw [hh]
    exact ⟨_, _, rfl, hall⟩

theorem Passes.work (hp : Passes s ps) (hi : Inv s) : Passes (work s).2 ((work s).1.foldl recordPass ps) := by
  cases hw : s.worker with
  | idle =>
    cases hq : s.queue with
    | nil => simpa [EarlySuspend.work, hw, hq] using hp
    | cons x ws => cases x <;> simpa [EarlySuspend.work, hw, hq] using hp.quiet rfl
  | earlyCheck | lateCheck =>
    simp only [EarlySuspend.work, hw]
    split
    · exact hp.begin hi rfl rfl
    · exact hp.quiet rfl
  | earlyCalls rest =>
    cases rest with
    | nil => simpa [EarlySuspend.work, hw] using hp.quiet rfl
    | cons e rest =>
      simp only [EarlySuspend.work, hw]
      exact hp.call hi (w := .earlySuspend) (by rw [hw]; rfl) rfl rfl fun _ _ => rfl
  | lateCalls rest =>
    cases rest with
    | nil => simpa [EarlySuspend.work, hw] using hp.quiet rfl
    | cons e rest =>
      simp only [EarlySuspend.work, hw]
      exact hp.call hi (w := .lateResume) (by rw [hw]; rfl) rfl rfl fun _ _ => rfl
  | _ => simpa [EarlySuspend.work, hw] using hp.quiet rfl

theorem Passes.step (hp : Passes s ps) (hi : Inv s) {op : Op} (hop : op.Permitted s) :
    Passes (step s op).2 ((step s op).1.foldl recordPass ps) := by
  have hquiet : ∀ {m : Mutex}, s.mutex = m → m ≠ .worker → s.worker.calls = none :=
    fun hm hne => hi.calls_eq_none (hm ▸ hne)
  cases op with
  | request n =>
    obtain ⟨hh, hw, -, -⟩ := requestSuspendState_frame n s
    refine ⟨hp.inOrder, fun w rest hc => ?_⟩
    simp only [EarlySuspend.step] at hc ⊢
    rw [hw] at hc
    rw [hh]
    exact hp.current w rest hc
  | registerLock h =>
    have hsame : recordPass ps (.registered h) = ps := by cases ps <;> rfl
    exact hp.quiet (hquiet hop.1 (by simp))
  | registerTest h =>
    have hsame : recordPass ps (.registerSuspend h) = ps := by cases ps <;> rfl
    have hcall : (registerTest h s).1.foldl recordPass ps = ps := by
      unfold registerTest
      split
      · exact hsame
      · rfl
    rw [EarlySuspend.step, hcall]
    exact hp.quiet (hquiet hop (by simp))
  | registerUnlock h => exact hp.quiet (hquiet hop (by simp))
  | unregister h =>
    have hsame : recordPass ps (.unregistered h) = ps := by cases ps <;> rfl
    exact hp.quiet (hquiet hop.1 (by simp))
  | work => exact hp.work hi

def events (es : List (Op × List Event)) : List Event := es.flatMap Prod.snd

/-- The calls of a handler since it was registered last; none if it is not registered now. -/
def callsSince (h : Handler) (es : List (Op × List Event)) : Option (List Call) := (events es).foldl (record h) none

def passes (es : List (Op × List Event)) : List Pass := (events es).foldl recordPass []

theorem inv_of_run {es : List (Op × List Event)} (hr : machine.Run initial es s) : Inv s ∧ Passes s (passes es) ∧
    ∀ h, Tracks h s (callsSince h es) := by
  induction hr with
  | nil => exact ⟨inv_initial, ⟨nofun, nofun⟩, fun _ => tracks_initial⟩
  | @snoc s t es op o _ hop hx ih =>
    obtain ⟨hi, hp, ht⟩ := ih
    obtain ⟨rfl, rfl⟩ : (step s op).1 = o ∧ (step s op).2 = t := Prod.mk.inj (Except.ok.inj hx)
    have hevents : events (es ++ [(op, (step s op).1)]) = events es ++ (step s op).1 := by simp [events]
    refine ⟨hi.step hop, ?_, fun h => ?_⟩
    · rw [passes, hevents, List.foldl_append]
      exact hp.step hi hop
    · rw [callsSince, hevents, List.foldl_append]
      exact (ht h).step hi hop

/-- Handlers are suspended and resumed in turn and in order, and at rest the last request is met. -/
theorem early_suspend_protocol {es : List (Op × List Event)} (hr : machine.Run initial es s) :
    (∀ h cs, h.suspend = true → h.resume = true → callsSince h es = some cs → ∃ n, cs = alternating n) ∧
    (∀ p ∈ passes es, p.InOrder) ∧
    (s.flags.suspendRequested = false → s.mainWakeLock = true) ∧
    (s.mainWakeLock = false → ∀ h ∈ s.handlers, h.suspend = true → s.mutex ≠ .registering h → s.mutex ≠ .registered h →
      ∃ cs, callsSince h es = some cs ∧ cs.getLast? = some .suspend) ∧
    (s.queue = [] → s.worker = .idle → s.flags = ⟨false, false⟩ ∧ s.mainWakeLock = true ∨
      s.flags = ⟨true, true⟩ ∧ s.mainWakeLock = false) := by
  obtain ⟨hi, hp, ht⟩ := inv_of_run hr
  refine ⟨fun h cs hs hres hcs => ?_, hp.inOrder, fun hf => ?_, fun hl h hh hs hreg _ => ?_, fun hq hw => ?_⟩
  · obtain ⟨n, hn, -⟩ := (ht h).alternates hcs hs hres
    exact ⟨n, hn⟩
  · cases hl : s.mainWakeLock with
    | true => rfl
    | false => cases hf.symm.trans (congrArg Flags.suspendRequested (hi.released hl))
  · obtain ⟨cs, hcs⟩ := Option.isSome_iff_exists.mp ((ht h).present hh)
    refine ⟨cs, hcs, (ht h).last hcs hs ?_⟩
    -- during a pass the lock is held
    cases hc : s.worker.calls with
    | none => exact (asleep_of_calls_none hc).mpr ⟨by rw [hi.released hl], hreg⟩
    | some c => cases hl.symm.trans (hi.calls c.1 c.2 hc).1
  · have hidle : ∀ w, ¬ Due w s := by simp [Due, hq, hw, Worker.begins]
    have hend : ¬ Ending s := by simp [Ending, hq, hw, Worker.early]
    have hsleep := fun hf => hidle .earlySuspend (hi.due .earlySuspend hf)
    have hwake := fun hf => hidle .lateResume (hi.due .lateResume hf)
    rcases hf : s.flags with ⟨_ | _, _ | _⟩
    · refine .inl ⟨rfl, ?_⟩
      cases hl : s.mainWakeLock with
      | true => rfl
      | false => cases hf.symm.trans (hi.released hl)
    · exact absurd hf hwake
    · exact absurd hf hsleep
    · refine .inr ⟨rfl, ?_⟩
      cases hl : s.mainWakeLock with
      | true => exact absurd (hi.release hf hl) hend
      | false => rfl

def sampleHandler : Handler := ⟨1, 0, true, true⟩

def sleepOps : List Op :=
  [.registerLock sampleHandler, .registerTest sampleHandler, .registerUnlock sampleHandler, .request 3] ++
    List.replicate 7 Op.work

theorem sleepOps_protocol : ∃ es s, machine.Run initial es s ∧ s.queue = [] ∧ s.worker = .idle ∧
    callsSince sampleHandler es = some [.suspend] ∧ (∃ n, [.suspend] = alternating n) ∧ s.mainWakeLock = false := by
  have hr : machine.Run initial _ _ := Machine.run_of_execList sleepOps rfl
  obtain ⟨hcalls, -, -, -, hidle⟩ := early_suspend_protocol hr
  refine ⟨_, _, hr, rfl, rfl, rfl, hcalls sampleHandler _ rfl rfl rfl, ?_⟩
  exact ((hidle rfl rfl).resolve_left fun h => nomatch h.1).2

def callsOf (h : Handler) (es : List (Op × List Event)) : List Call :=
  (events es).filterMap fun
    | .suspend e | .registerSuspend e => if e = h then some .suspend else none
    | .resume e => if e = h then some .resume else none
    | _ => none

theorem length_alternating : ∀ n, (alternating n).length = n
  | 0 => rfl
  | n + 1 => by rw [alternating, List.length_append, length_alternating n]; rfl

/-- A handler that is unregistered while it is suspended, and registered again, is called to suspend twice in a row. -/
theorem registered_again_suspends_twice : ∃ es s, machine.Run initial es s ∧ sampleHandler ∈ s.handlers ∧
    callsOf sampleHandler es = [.suspend, .suspend] ∧ ∀ n, [.suspend, .suspend] ≠ alternating n := by
  have hr : machine.Run initial _ _ := Machine.run_of_execList
    (sleepOps ++ [Op.unregister sampleHandler, .registerLock sampleHandler, .registerTest sampleHandler]) rfl
  refine ⟨_, _, hr, by decide, rfl, fun n hn => ?_⟩
  have hlen := congrArg List.length hn
  rw [length_alternating] at hlen
  subst hlen
  exact absurd hn (by decide)

end G3Mod.EarlySuspend
