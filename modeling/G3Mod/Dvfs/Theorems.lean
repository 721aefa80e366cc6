import G3Mod.Dvfs.Lemmas

/-!
# The voltage covers the clock

`store_UV_mV_table` programs the voltage of `s5p6442_cpufreq_index`, which moves before the clock moves, and nothing
keeps two calls apart.
-/

namespace G3Mod.Dvfs

open Lib

variable {tab : Tab} {u : Int} {s : State}

/-- Calls do not overlap; the sysfs write starts when the voltages are enough for the clock. -/
def Op.Serial (tab : Tab) (s : State) : Op → Prop
  | .target _ _ | .setMaxFreqLock _ => ∀ t, s.threads t = .idle
  | .storeUvTable _ => (∀ t, s.threads t = .idle) ∧ Above tab s.cpufreqIndex s.clock
  | _ => True

def serialMachine (tab : Tab) (u : Int) : Machine State Op Unit Empty where
  init := (machine tab u).init
  enabled s op := op.Permitted s ∧ op.Serial tab s
  exec := (machine tab u).exec

theorem inv_initial (tab : Tab) (u : Int) : Inv tab u (initial tab u) :=
  ⟨Nat.zero_le _, Nat.zero_le _, 0, fun _ _ => rfl, ⟨rfl, rfl, .refl 0⟩, rfl⟩

theorem Inv.settled (h : Inv tab u s) (hidle : ∀ t, s.threads t = .idle) :
    Settled tab u s ∧ s.prevIndex = s.clock := by
  obtain ⟨t, _, hpc⟩ := h.call
  rw [hidle t] at hpc
  exact hpc

theorem Inv.exec (h : Inv tab u s) (hu : -2 ^ 31 ≤ u) {op : Op} (hop : op.Serial tab s) :
    ∃ s', exec tab u s op = .ok ((), s') ∧ Inv tab u s' := by
  cases op with
  | target t freq
  | setMaxFreqLock t => exact ⟨_, rfl, Inv.goto h.clock h.cpufreqIndex (fun t' _ => hop t') (h.settled hop)⟩
  | storeUvTable t =>
    obtain ⟨hs, hprev⟩ := h.settled hop.1
    exact ⟨_, rfl, Inv.goto h.clock h.cpufreqIndex (fun t' _ => hop.1 t') ⟨hs, hop.2, hprev⟩⟩
  | step t clkOk => exact ⟨_, rfl, h.advance hu t clkOk⟩
  | targetFrq predFreq flag => exact ⟨_, rfl, h.helper (targetFrq_le h.cpufreqIndex) rfl⟩
  | setDvfsPerfLevel locked =>
    refine ⟨_, rfl, h.helper ?_ ?_⟩
    · unfold setDvfsPerfLevel
      split
      · exact Nat.zero_le _
      · exact h.cpufreqIndex
    · unfold setDvfsPerfLevel
      split <;> rfl
  | setDvfsLevel locked flag =>
    refine ⟨_, rfl, h.helper ?_ ?_⟩
    · unfold setDvfsLevel
      split_ifs <;> exact h.cpufreqIndex
    · unfold setDvfsLevel
      split_ifs <;> rfl
  | setMaxFreqUnlock => exact ⟨_, rfl, h.helper h.cpufreqIndex rfl⟩

theorem serialMachine_inductive (hu : -2 ^ 31 ≤ u) : (serialMachine tab u).Inductive (Inv tab u) where
  init := by
    rintro s rfl
    exact inv_initial tab u
  step := by
    rintro s op h ⟨_, hop⟩
    obtain ⟨s', hexec, hinv⟩ := h.exec hu hop
    exact ⟨(), s', hexec, hinv⟩

/-- In every serial run the registers are at every moment at least the voltages of the level of the clock. -/
theorem voltage_covers_clock (hu : -2 ^ 31 ≤ u) (h : (serialMachine tab u).Reachable s) : Covered tab u s := by
  obtain ⟨t, _, hpc⟩ := ((serialMachine_inductive hu).reachable h).call
  exact hpc.covered hu

theorem voltage_covers_level_three :
    ∃ s, (serialMachine .mhz666_166 25).Reachable s ∧ s.clock = 3 ∧ s.vccArm = 1175 ∧ Covered .mhz666_166 25 s := by
  have h0 := Machine.Reachable.init (M := serialMachine .mhz666_166 25) rfl
  have h1 := h0.step (l := Op.target 0 0) ⟨rfl, fun _ => rfl⟩ rfl
  have h2 := h1.step (l := Op.step 0 true) ⟨trivial, trivial⟩ rfl
  have h3 := h2.step (l := Op.step 0 true) ⟨trivial, trivial⟩ rfl
  have h4 := h3.step (l := Op.step 0 true) ⟨trivial, trivial⟩ rfl
  have h5 := h4.step (l := Op.step 0 true) ⟨trivial, trivial⟩ rfl
  have h6 := h5.step (l := Op.step 0 true) ⟨trivial, trivial⟩ rfl
  exact ⟨_, h6, by decide, by decide, voltage_covers_clock (by decide) h6⟩

/-- The undervolt table is written again between the governor's request and its setting of the frequency. -/
theorem store_undervolts :
    ∃ s, (machine .mhz666_166 0).Reachable s ∧ s.clock = 0 ∧ s.vccArm = 1050 ∧ ¬ Covered .mhz666_166 0 s := by
  have h0 := Machine.Reachable.init (M := machine .mhz666_166 0) rfl
  have h1 := h0.step (l := Op.targetFrq 667000 (-1)) trivial rfl
  have h2 := h1.step (l := Op.storeUvTable 0) rfl rfl
  have h3 := h2.step (l := Op.step 0 true) trivial rfl
  have h4 := h3.step (l := Op.step 0 true) trivial rfl
  refine ⟨_, h4, by decide, by decide, ?_⟩
  rintro ⟨harm, _⟩
  exact absurd harm (by decide)

/-! # The limit on the level

`s5p6442_cpufreq_level` is set by the lock on the maximal frequency and by the requests of drivers, which
`dvfs_level_count` counts. -/

/-! ## The level for a frequency -/

/-- A level of the table within the limit, with the lowest frequency of those that suffice. -/
def Selected (tab : Tab) (freq level index : Nat) : Prop :=
  index ≤ 3 ∧ index ≤ level ∧ min freq (frequency tab 0) ≤ frequency tab index ∧
    ∀ j ≤ 3, j ≤ level → min freq (frequency tab 0) ≤ frequency tab j → frequency tab index ≤ frequency tab j

theorem frequency_anti {i j : Nat} (h : i ≤ j) (hj : j ≤ 3) : frequency tab j ≤ frequency tab i := by
  interval_cases j <;> interval_cases i <;> cases tab <;> decide

theorem searchIndex_spec {freq : Nat} (h : freq < frequency tab 0) : freq ≤ frequency tab (searchIndex tab freq) ∧
    ∀ j ≤ 3, freq ≤ frequency tab j → j ≤ searchIndex tab freq := by
  have hlen : (freqTable tab).length = 5 := by cases tab <;> rfl
  have hend : frequency tab 4 = tableEnd := by cases tab <;> rfl
  have hlt : frequency tab 0 < tableEnd := by cases tab <;> decide
  have h01 : frequency tab 1 < frequency tab 0 := by cases tab <;> decide
  have h12 : frequency tab 2 < frequency tab 1 := by cases tab <;> decide
  have h23 : frequency tab 3 < frequency tab 2 := by cases tab <;> decide
  have hloop : ∃ i ≤ 4, levelLoop tab freq 5 0 = i ∧ (i < 4 → frequency tab i ≤ freq) ∧
      ∀ j < i, freq < frequency tab j := by
    refine ⟨_, ?_, rfl, ?_, ?_⟩ <;> simp only [levelLoop, hend] <;> split_ifs <;> intros <;> grind
  obtain ⟨i, hi, hrun, hge, hbelow⟩ := hloop
  unfold searchIndex
  interval_cases i
  all_goals grind

theorem advance_limits (tab : Tab) (u : Int) (t : Nat) (clkOk : Bool) (s : State) :
    ((advance tab u t clkOk s).cpufreqLevel = s.cpufreqLevel ∧
      (advance tab u t clkOk s).setMaxFreqFlag = s.setMaxFreqFlag ∧
      (advance tab u t clkOk s).levelCount = s.levelCount) ∧
    (s.cpufreqIndex ≤ 3 → (advance tab u t clkOk s).cpufreqIndex ≤ 3) := by
  unfold advance
  split
  case h_3 freq quick _ =>
    obtain ⟨index, hi⟩ := targetFreqIndex_eq tab freq s
    have hle := targetFreqIndex_le (s := s) tab freq
    simp only [hi] at hle ⊢
    split <;> exact ⟨⟨rfl, rfl, rfl⟩, fun h => (hle h).2⟩
  all_goals repeat' split
  all_goals exact ⟨⟨rfl, rfl, rfl⟩, id⟩

theorem cpufreqIndex_le (h : (machine tab u).Reachable s) : s.cpufreqIndex ≤ 3 := by
  refine h.invariant (I := fun s => s.cpufreqIndex ≤ 3) (fun hs => by rw [hs]; exact Nat.zero_le 3) ?_
  intro s op _ _ hi _ hx
  cases op with
  | step t clkOk => cases hx; exact (advance_limits tab u t clkOk s).2 hi
  | targetFrq predFreq flag => cases hx; exact targetFrq_le hi
  | setDvfsPerfLevel locked =>
    cases hx
    unfold setDvfsPerfLevel
    split
    · exact Nat.zero_le 3
    · exact hi
  | setDvfsLevel locked flag =>
    cases hx
    unfold setDvfsLevel
    split_ifs <;> exact hi
  | _ => cases hx; exact hi

/-- The cached index is returned as it is, also when the limit has been lowered below it in the meantime. -/
theorem level_selected_iff (h : (machine tab u).Reachable s) (freq : Nat) :
    Selected tab freq s.cpufreqLevel (targetFreqIndex tab freq s).1 ↔
      ¬(freq < frequency tab 0 ∧ frequency tab s.cpufreqIndex = freq ∧ s.cpufreqLevel < s.cpufreqIndex) := by
  have hi := cpufreqIndex_le h
  unfold targetFreqIndex
  split
  next hfast =>
    refine iff_of_true ⟨?_, ?_, ?_, ?_⟩ (by omega) <;> simp only [clipLevel, Nat.not_lt_zero, if_false, gt_iff_lt]
    · omega
    · omega
    · exact min_le_right _ _
    · intro j _ _ hj
      rwa [min_eq_right hfast] at hj
  next hslow =>
    have hslow : freq < frequency tab 0 := by omega
    have hmin : min freq (frequency tab 0) = freq := min_eq_left hslow.le
    split
    next hcached =>
      refine ⟨fun hsel hbug => by have := hsel.2.1; omega, fun hok => ⟨hi, by omega, ?_, ?_⟩⟩ <;> rw [hmin]
      · exact hcached.ge
      · exact fun j _ _ hj => hcached.trans_le hj
    next hnew =>
      obtain ⟨hge, hlast⟩ := searchIndex_spec hslow
      have h3 := searchIndex_le hslow
      have hclip : clipLevel (searchIndex tab freq) s.cpufreqLevel = min (searchIndex tab freq) s.cpufreqLevel := by
        unfold clipLevel
        split <;> omega
      refine iff_of_true ⟨?_, ?_, ?_, ?_⟩ (fun hbug => hnew hbug.2.1) <;> simp only [hclip, hmin]
      · omega
      · omega
      · exact hge.trans (frequency_anti (min_le_left _ _) h3)
      · intro j hj hlevel hfreq
        exact frequency_anti (le_min (hlast j hj hfreq) hlevel) (by omega)

theorem slow_level_kept : ∃ s, (machine .mhz532 0).Reachable s ∧
    ¬Selected .mhz532 133250 s.cpufreqLevel (targetFreqIndex .mhz532 133250 s).1 := by
  have h1 := (Machine.Reachable.init (M := machine .mhz532 0) rfl).step (l := Op.target 0 133250) rfl rfl
  have h2 := (h1.step (l := Op.step 0 true) trivial rfl).step (l := Op.step 0 true) trivial rfl
  exact ⟨_, h2.step (l := Op.setMaxFreqLock 1) rfl rfl, fun h => absurd h.2.1 (by decide)⟩

theorem initial_level_selected : Selected .mhz666 200000 3 (targetFreqIndex .mhz666 200000 (initial .mhz666 0)).1 :=
  (level_selected_iff (.init rfl) 200000).mpr (by decide)

/-! ## Requests of drivers -/

section Requests

variable {p : State × Nat} {op : Op}

def outstanding (n : Nat) : Op → Nat
  | .setDvfsLevel _ flag => if flag = 0 then n + 1 else n - 1
  | _ => n

/-- Requests are withdrawn after they were made, and the lock is taken and released in turn. -/
def Op.Paired (s : State) (n : Nat) : Op → Prop
  | .setDvfsLevel _ flag => flag = 0 ∨ flag = 1 ∧ 0 < n
  | .setMaxFreqLock _ => s.setMaxFreqFlag = false
  | .setMaxFreqUnlock => s.setMaxFreqFlag = true
  | _ => True

/-- `set_dvfs_level` finds `dvfs_lock` free, or does not need it. -/
def Op.Heeded (s : State) : Op → Prop
  | .setDvfsLevel locked _ => locked = true ∨ s.setMaxFreqFlag = true
  | _ => True

def requestMachine (tab : Tab) (u : Int) : Machine (State × Nat) Op Unit Empty where
  init p := p = (initial tab u, 0)
  enabled p op := op.Permitted p.1 ∧ op.Paired p.1 p.2
  exec p op := (exec tab u p.1 op).map fun r => (r.1, r.2, outstanding p.2 op)

def heedingMachine (tab : Tab) (u : Int) : Machine (State × Nat) Op Unit Empty :=
  { requestMachine tab u with enabled := fun p op => (requestMachine tab u).enabled p op ∧ op.Heeded p.1 }

def limitFor (tab : Tab) (s : State) (n : Nat) : Nat :=
  if s.setMaxFreqFlag then 0 else if 0 < n then maxFreqLevelOnlyCpu tab else maxFreqLevel

def Balanced (tab : Tab) (p : State × Nat) : Prop :=
  p.1.levelCount = p.2 ∧ p.1.cpufreqLevel = limitFor tab p.1 p.2

theorem setDvfsLevel_balanced_iff {locked : Bool} {flag : Int} (h : Balanced tab p)
    (hp : flag = 0 ∨ flag = 1 ∧ 0 < p.2) :
    Balanced tab (setDvfsLevel tab locked flag p.1, outstanding p.2 (.setDvfsLevel locked flag)) ↔
      locked = true ∨ p.1.setMaxFreqFlag = true := by
  simp only [Balanced, limitFor, outstanding, setDvfsLevel] at *
  grind

theorem exec_balanced_iff {o : Unit} {q : State × Nat} (h : Balanced tab p)
    (he : (requestMachine tab u).enabled p op) (hx : (requestMachine tab u).exec p op = .ok (o, q)) :
    Balanced tab q ↔ op.Heeded p.1 := by
  cases op with
  | setDvfsLevel locked flag => cases hx; exact setDvfsLevel_balanced_iff h he.2
  | setMaxFreqLock t => cases hx; exact iff_of_true ⟨h.1, rfl⟩ trivial
  | setMaxFreqUnlock =>
    cases hx
    refine iff_of_true ⟨h.1, ?_⟩ trivial
    simp only [setMaxFreqUnlock, limitFor, h.1, gt_iff_lt, Int.natCast_pos]
    rfl
  | step t clkOk =>
    cases hx
    obtain ⟨h1, h2, h3⟩ := (advance_limits tab u t clkOk p.1).1
    exact iff_of_true ⟨h3.trans h.1, h1.trans (h.2.trans (by rw [limitFor, limitFor, h2]; rfl))⟩ trivial
  | setDvfsPerfLevel locked =>
    cases hx
    refine iff_of_true ?_ trivial
    unfold setDvfsPerfLevel
    split <;> exact h
  | _ => cases hx; exact iff_of_true h trivial

/-- A request is lost exactly when `dvfs_lock` is held by another context and the maximal frequency is not locked. -/
theorem level_requests_balanced_iff (h : (heedingMachine tab u).Reachable p) : Balanced tab p ∧
    ∀ op o q, (requestMachine tab u).enabled p op → (requestMachine tab u).exec p op = .ok (o, q) →
      (Balanced tab q ↔ op.Heeded p.1) := by
  have hb : Balanced tab p := h.invariant (fun hs => by rw [hs]; exact ⟨rfl, rfl⟩) fun hi he hx =>
    (exec_balanced_iff hi he.1 hx).mpr he.2
  exact ⟨hb, fun _ _ _ => exec_balanced_iff hb⟩

theorem request_lost : ∃ p, (requestMachine .mhz532 0).Reachable p ∧ ¬Balanced .mhz532 p := by
  have h := (Machine.Reachable.init (M := requestMachine .mhz532 0) rfl).step (l := Op.setDvfsLevel true 0)
    ⟨trivial, .inl rfl⟩ rfl
  exact ⟨_, h.step (l := Op.setDvfsLevel false 1) ⟨trivial, .inr ⟨rfl, Nat.one_pos⟩⟩ rfl,
    fun hb => absurd hb.1 (by decide)⟩

theorem initial_requests_balanced : Balanced .mhz666_166 (setDvfsLevel .mhz666_166 true 0 (initial .mhz666_166 0), 1) :=
  ((level_requests_balanced_iff (.init rfl)).2 (.setDvfsLevel true 0) () _ ⟨trivial, .inl rfl⟩ rfl).mpr (.inl rfl)

end Requests

end G3Mod.Dvfs
