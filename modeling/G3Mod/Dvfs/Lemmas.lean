import G3Mod.Dvfs.Model
import Mathlib.Tactic.IntervalCases

/-!
# Calls one after the other
-/

namespace G3Mod.Dvfs

open Function

variable {tab : Tab} {u : Int} {s s' : State} {t : Nat} {pc : Pc}

/-! ## Voltages -/

def Above (tab : Tab) (i j : Nat) : Prop :=
  armVoltage tab j ≤ armVoltage tab i ∧ intVoltage tab j ≤ intVoltage tab i

theorem Above.refl (i : Nat) : Above tab i i := ⟨le_rfl, le_rfl⟩

theorem Above.trans {i j k : Nat} (h : Above tab i j) (h' : Above tab j k) : Above tab i k :=
  ⟨h'.1.trans h.1, h'.2.trans h.2⟩

theorem above_of_le {i j : Nat} (h : i ≤ j) (hj : j ≤ 3) : Above tab i j := by
  interval_cases j <;> interval_cases i <;> cases tab <;> simp [Above, armVoltage, intVoltage, frequencyMatch]

theorem le_wrapped {v : Int} (hv : v ≤ 1200) (hu : -2 ^ 31 ≤ u) : v - u ≤ (v - u) % 2 ^ 32 := by
  omega

theorem voltage_le (i : Nat) : armVoltage tab i ≤ 1200 ∧ intVoltage tab i ≤ 1200 := by
  rcases lt_or_ge i 4 with hi | hi
  · interval_cases i <;> cases tab <;> simp [armVoltage, intVoltage, frequencyMatch]
  · have hlen : (frequencyMatch tab).length = 4 := by cases tab <;> rfl
    simp [armVoltage, intVoltage, List.getElem?_eq_none (hlen.trans_le hi)]

theorem Above.arm {i j : Nat} (h : Above tab i j) (hu : -2 ^ 31 ≤ u) : armVoltage tab j - u ≤ armTarget tab u i :=
  (Int.sub_le_sub_right h.1 u).trans (le_wrapped (voltage_le i).1 hu)

theorem Above.int {i j : Nat} (h : Above tab i j) (hu : -2 ^ 31 ≤ u) : intVoltage tab j - u ≤ intTarget tab u i :=
  (Int.sub_le_sub_right h.2 u).trans (le_wrapped (voltage_le i).2 hu)

theorem clipLevel_le (a b : Nat) : clipLevel a b ≤ a := by
  unfold clipLevel
  split <;> omega

theorem searchIndex_le {freq : Nat} (h : freq < frequency tab 0) : searchIndex tab freq ≤ 3 := by
  have hlen : (freqTable tab).length = 5 := by cases tab <;> rfl
  have hend : frequency tab 4 = tableEnd := by cases tab <;> rfl
  have hloop : levelLoop tab freq 5 0 ≤ 4 := by
    simp only [levelLoop, hend]
    split_ifs <;> omega
  unfold searchIndex
  rw [hlen]
  generalize levelLoop tab freq 5 0 = index at hloop
  interval_cases index
  all_goals dsimp only
  all_goals split_ifs <;> omega

theorem targetFreqIndex_eq (tab : Tab) (freq : Nat) (s : State) :
    ∃ index, targetFreqIndex tab freq s = (index, { s with cpufreqIndex := index }) := by
  unfold targetFreqIndex
  split
  · exact ⟨_, rfl⟩
  · split
    · exact ⟨s.cpufreqIndex, rfl⟩
    · exact ⟨_, rfl⟩

theorem targetFreqIndex_le (tab : Tab) (freq : Nat) (h : s.cpufreqIndex ≤ 3) :
    (targetFreqIndex tab freq s).1 ≤ 3 ∧ (targetFreqIndex tab freq s).2.cpufreqIndex ≤ 3 := by
  unfold targetFreqIndex
  split
  · have hclip : clipLevel 0 s.cpufreqLevel ≤ 3 := (clipLevel_le _ _).trans (by omega)
    exact ⟨hclip, hclip⟩
  · next hlt =>
    split
    · exact ⟨h, h⟩
    · have hclip : clipLevel (searchIndex tab freq) s.cpufreqLevel ≤ 3 :=
        (clipLevel_le _ _).trans (searchIndex_le (by omega))
      exact ⟨hclip, hclip⟩

theorem targetFrq_le {predFreq : Nat} {flag : Int} (h : s.cpufreqIndex ≤ 3) :
    (targetFrq tab predFreq flag s).2.cpufreqIndex ≤ 3 := by
  apply (clipLevel_le _ _).trans
  have hstate : ∀ i, i ≤ 3 → (transitionState.getD i (0, 0)).1 ≤ 3 ∧ (transitionState.getD i (0, 0)).2 ≤ 3 := by
    decide
  have := hstate _ h
  split_ifs <;> omega

/-! ## The invariant -/

/-- The registers hold the voltages of `index` of `set_voltage`, and these are enough for the clock. -/
def Settled (tab : Tab) (u : Int) (s : State) : Prop :=
  s.vccArm = armTarget tab u s.voltIndex ∧ s.vccInt = intTarget tab u s.voltIndex ∧ Above tab s.voltIndex s.clock

def AfterInv (tab : Tab) (s : State) (i : Nat) : After → Prop
  | .store => Above tab i s.clock ∧ s.prevIndex = s.clock
  | .lowered index _ => index = i ∧ s.clock = i
  | .raise index _ => index = i ∧ s.prevIndex = s.clock ∧ i < s.clock

def PcInv (tab : Tab) (u : Int) (s : State) : Pc → Prop
  | .idle | .getSpeed _ _ | .freqIndex _ _ => Settled tab u s ∧ s.prevIndex = s.clock
  | .compare i _ => Settled tab u s ∧ s.prevIndex = s.clock ∧ i ≤ 3
  | .direction i _ => Settled tab u s ∧ s.prevIndex = s.clock ∧ i ≤ 3 ∧ s.prevIndex ≠ i
  | .lower i _ => Settled tab u s ∧ s.prevIndex = s.clock ∧ i ≤ 3 ∧ s.clock < i
  | .raise i _ => Settled tab u s ∧ s.voltIndex = i ∧ s.prevIndex = s.clock ∧ i < s.clock
  | .setVoltage i _ after => Settled tab u s ∧ AfterInv tab s i after
  | .setArm i vccArm vccInt after =>
    s.vccArm = vccArm ∧ s.vccInt = vccInt ∧ Covered tab u s ∧ s.voltIndex = i ∧ AfterInv tab s i after
  | .setInt i vccInt after =>
    s.vccArm = armTarget tab u i ∧ s.vccInt = vccInt ∧ Covered tab u s ∧ s.voltIndex = i ∧ AfterInv tab s i after
  | .finish i _ => Settled tab u s ∧ s.clock = i

structure Inv (tab : Tab) (u : Int) (s : State) : Prop where
  clock : s.clock ≤ 3
  cpufreqIndex : s.cpufreqIndex ≤ 3
  call : ∃ t, (∀ t', t' ≠ t → s.threads t' = .idle) ∧ PcInv tab u s (s.threads t)

theorem Settled.covered (h : Settled tab u s) (hu : -2 ^ 31 ≤ u) : Covered tab u s := by
  obtain ⟨harm, hint, habove⟩ := h
  unfold Covered
  rw [harm, hint]
  exact ⟨habove.arm hu, habove.int hu⟩

theorem PcInv.covered (h : PcInv tab u s pc) (hu : -2 ^ 31 ≤ u) : Covered tab u s := by
  cases pc with
  | setArm | setInt => exact h.2.2.1
  | _ => exact h.1.covered hu

theorem AfterInv.above {i : Nat} {after : After} (h : AfterInv tab s i after) (hclock : s.clock ≤ 3) :
    Above tab i s.clock := by
  cases after with
  | store => exact h.1
  | lowered => rw [h.2]; exact .refl i
  | raise => exact above_of_le h.2.2.le hclock

theorem AfterInv.pcInv {i : Nat} {after : After} (h : AfterInv tab s i after) (hs : Settled tab u s)
    (hi : s.voltIndex = i) : PcInv tab u s after.pc := by
  cases after with
  | store => exact ⟨hs, h.2⟩
  | lowered index quick =>
    obtain ⟨rfl, hclock⟩ := h
    exact ⟨hs, hclock⟩
  | raise index quick =>
    obtain ⟨rfl, hprev, hlt⟩ := h
    exact ⟨hs, hi, hprev, hlt⟩

theorem Inv.goto (hclock : s.clock ≤ 3) (hindex : s.cpufreqIndex ≤ 3) (hothers : ∀ t', t' ≠ t → s.threads t' = .idle)
    (hpc : PcInv tab u s pc) : Inv tab u (Dvfs.goto t pc s) := by
  refine ⟨hclock, hindex, t, fun t' ht => ?_, ?_⟩
  · exact (update_of_ne ht _ _).trans (hothers t' ht)
  rw [show (Dvfs.goto t pc s).threads t = pc from update_self ..]
  cases pc with
  | setVoltage i force after | setArm i a b after | setInt i b after => cases after <;> exact hpc
  | _ => exact hpc

theorem Inv.finishCall {quick : Bool} (hclock : s.clock ≤ 3) (hindex : s.cpufreqIndex ≤ 3)
    (hothers : ∀ t', t' ≠ t → s.threads t' = .idle) (hs : Settled tab u s) (hprev : s.prevIndex = s.clock) :
    Inv tab u (Dvfs.finishCall t quick s) :=
  Inv.goto hclock hindex hothers ⟨hs, hprev⟩

theorem Inv.helper (h : Inv tab u s) (hindex : s'.cpufreqIndex ≤ 3)
    (hsame : s' = { s with
      cpufreqIndex := s'.cpufreqIndex, cpufreqLevel := s'.cpufreqLevel, setMaxFreqFlag := s'.setMaxFreqFlag,
      levelCount := s'.levelCount, changeQuick := s'.changeQuick }) : Inv tab u s' := by
  obtain ⟨hclock, _, t, hothers, hpc⟩ := h
  rw [hsame]
  refine ⟨hclock, hindex, t, hothers, ?_⟩
  cases hp : s.threads t with
  | setVoltage i force after | setArm i a b after | setInt i b after => rw [hp] at hpc; cases after <;> exact hpc
  | _ => rw [hp] at hpc; exact hpc

theorem Inv.advance (h : Inv tab u s) (hu : -2 ^ 31 ≤ u) (t : Nat) (clkOk : Bool) :
    Inv tab u (Dvfs.advance tab u t clkOk s) := by
  by_cases hidle : s.threads t = .idle
  · rw [show Dvfs.advance tab u t clkOk s = s by simp [Dvfs.advance, hidle]]
    exact h
  obtain ⟨hclock, hindex, t', hothers, hpc⟩ := h
  obtain rfl : t' = t := by
    by_contra hne
    exact hidle (hothers t (Ne.symm hne))
  unfold Dvfs.advance
  cases hp : s.threads t' with
  | idle => exact absurd hp hidle
  | getSpeed freq quick =>
    rw [hp] at hpc
    obtain ⟨hs, hprev⟩ := hpc
    dsimp only
    split
    next hspeed =>
      -- only level 0 runs at the highest frequency
      have hzero : s.clock = 0 := by
        unfold getspeed at hspeed
        generalize s.clock = c at hclock hspeed
        interval_cases c <;> cases tab <;> simp [frequency, freqTable] at hspeed ⊢
      exact Inv.goto hclock hindex hothers ⟨hs, hzero.symm⟩
    next => exact Inv.goto hclock hindex hothers ⟨hs, hprev⟩
  | freqIndex freq quick =>
    rw [hp] at hpc
    obtain ⟨hs, hprev⟩ := hpc
    obtain ⟨hle, hle'⟩ := targetFreqIndex_le tab freq hindex
    obtain ⟨index, hset⟩ := targetFreqIndex_eq tab freq s
    dsimp only
    rw [if_neg (by unfold indxError; omega)]
    rw [hset] at hle hle' ⊢
    exact Inv.goto hclock hle' hothers ⟨hs, hprev, hle⟩
  | compare i quick =>
    rw [hp] at hpc
    obtain ⟨hs, hprev, hi⟩ := hpc
    dsimp only
    split
    · exact Inv.finishCall hclock hindex hothers hs hprev
    next hne => exact Inv.goto hclock hindex hothers ⟨hs, hprev, hi, hne⟩
  | direction i quick =>
    rw [hp] at hpc
    obtain ⟨hs, hprev, hi, hne⟩ := hpc
    dsimp only
    split
    next hlt => exact Inv.goto hclock hindex hothers ⟨hs, hprev, hi, hprev ▸ hlt⟩
    next hge => exact Inv.goto hclock hindex hothers ⟨hs, rfl, hprev, by omega⟩
  | lower i quick =>
    rw [hp] at hpc
    obtain ⟨hs, hprev, hi, hlt⟩ := hpc
    dsimp only
    split
    · obtain ⟨harm, hint, habove⟩ := hs
      exact Inv.goto hi hindex hothers ⟨⟨harm, hint, habove.trans (above_of_le hlt.le hi)⟩, rfl, rfl⟩
    · exact Inv.finishCall hclock hindex hothers hs hprev
  | raise i quick =>
    rw [hp] at hpc
    obtain ⟨hs, hvolt, hprev, hlt⟩ := hpc
    dsimp only
    split
    · obtain ⟨harm, hint, _⟩ := hs
      have habove : Above tab s.voltIndex i := by
        rw [hvolt]
        exact .refl i
      exact Inv.goto (hlt.le.trans hclock) hindex hothers ⟨⟨harm, hint, habove⟩, rfl⟩
    · exact Inv.finishCall hclock hindex hothers hs hprev
  | setVoltage i force after =>
    rw [hp] at hpc
    obtain ⟨hs, hafter⟩ := hpc
    dsimp only
    split
    next hsame => exact Inv.goto hclock hindex hothers (hafter.pcInv hs hsame.2)
    have hcov := hs.covered hu
    refine Inv.goto hclock hindex hothers ⟨rfl, rfl, hcov, rfl, ?_⟩
    cases after <;> exact hafter
  | setArm i vccArm vccInt after =>
    rw [hp] at hpc
    obtain ⟨harm, hint, hcov, hvolt, hafter⟩ := hpc
    have habove := hafter.above hclock
    dsimp only
    split
    next =>
      refine Inv.goto hclock hindex hothers ⟨rfl, hint, ⟨habove.arm hu, hcov.2⟩, hvolt, ?_⟩
      cases after <;> exact hafter
    next heq => exact Inv.goto hclock hindex hothers ⟨harm.trans (not_not.mp heq).symm, hint, hcov, hvolt, hafter⟩
  | setInt i vccInt after =>
    rw [hp] at hpc
    obtain ⟨harm, hint, hcov, hvolt, hafter⟩ := hpc
    have habove := hafter.above hclock
    subst hvolt
    dsimp only
    split
    next =>
      refine Inv.goto hclock hindex hothers (AfterInv.pcInv (i := s.voltIndex) ?_ ⟨harm, rfl, habove⟩ rfl)
      cases after <;> exact hafter
    next heq =>
      exact Inv.goto hclock hindex hothers
        (hafter.pcInv ⟨harm, hint.trans (not_not.mp heq).symm, habove⟩ rfl)
  | finish i quick =>
    rw [hp] at hpc
    obtain ⟨hs, rfl⟩ := hpc
    exact Inv.finishCall hclock hindex hothers hs rfl

end G3Mod.Dvfs
