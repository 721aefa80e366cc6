import Mathlib.Algebra.Ring.Nat
import Mathlib.Algebra.Ring.Int.Defs
import G3Mod.Lib.Machine

/-!
# CPU frequency and voltage scaling of `s5p6442-dvfs.c`

The level is kept in four places: the clock itself, `prevIndex` of `s5p6442_target`, `index` of `set_voltage` and
`s5p6442_cpufreq_index`. Calls of `s5p6442_target` and of `store_UV_mV_table` are threads that stop before every register
access and every helper call, which are single steps. The build has `USE_DVS` and neither `SYSCLK_CHANGE` nor
`USE_DVFS_AL1_LEVEL`. Delays are left out.
-/

namespace G3Mod.Dvfs

open Function

/-! ## Tables -/

inductive Tab where
  | mhz532
  | mhz666
  | mhz666_166
  deriving DecidableEq, Repr

def tableEnd : Nat := 2 ^ 32 - 2

def freqTable : Tab → List Nat
  | .mhz532 => [533000, 533000 / 2, 533000 / 3, 533000 / 4, tableEnd]
  | .mhz666 => [667000, 667000 / 2, 667000 / 3, 667000 / 4, tableEnd]
  | .mhz666_166 => [667000, 667000 / 2, 667000 / 3, 667000 / 4, tableEnd]

def frequency (tab : Tab) (i : Nat) : Nat := (freqTable tab).getD i 0

/-- `transition_state`: the level below and the level above. It is the same for the three tables. -/
def transitionState : List (Nat × Nat) := [(1, 0), (2, 0), (3, 1), (3, 2)]

/-- `frequency_match`: the voltages of the core and of the rest, in mV. -/
def frequencyMatch : Tab → List (Int × Int)
  | .mhz532 => [(1100, 1200), (1000, 1200), (1000, 1200), (1000, 1200)]
  | .mhz666 => [(1100, 1100), (1000, 1100), (1000, 1100), (1000, 1000)]
  | .mhz666_166 => [(1200, 1200), (1050, 1200), (1000, 1100), (1000, 1100)]

def armVoltage (tab : Tab) (i : Nat) : Int := ((frequencyMatch tab).getD i (0, 0)).1
def intVoltage (tab : Tab) (i : Nat) : Int := ((frequencyMatch tab).getD i (0, 0)).2

def maxFreqLevel : Nat := 3

def maxFreqLevelOnlyCpu : Tab → Nat
  | .mhz532 => 3
  | .mhz666 => 3
  | .mhz666_166 => 4

def indxError : Nat := 65535

/-- What a thread does after `set_voltage`. -/
inductive After where
  | store
  | lowered (index : Nat) (quick : Bool)
  | raise (index : Nat) (quick : Bool)
  deriving DecidableEq, Repr

/-- Where a thread is; with `quick` the caller is `dvfs_set_max_freq_lock`. -/
inductive Pc where
  | idle
  | getSpeed (freq : Nat) (quick : Bool)
  | freqIndex (freq : Nat) (quick : Bool)
  | compare (index : Nat) (quick : Bool)
  | direction (index : Nat) (quick : Bool)
  | lower (index : Nat) (quick : Bool)
  | raise (index : Nat) (quick : Bool)
  | setVoltage (freqIndex : Nat) (force : Bool) (after : After)
  | setArm (freqIndex : Nat) (vccArm vccInt : Int) (after : After)
  | setInt (freqIndex : Nat) (vccInt : Int) (after : After)
  | finish (index : Nat) (quick : Bool)
  deriving DecidableEq, Repr

def After.pc : After → Pc
  | .store => .idle
  | .lowered index quick => .finish index quick
  | .raise index quick => .raise index quick

/-- The level of the clock, the two registers of the voltage regulator, the variables of the driver and the threads. -/
structure State where
  clock : Nat
  vccArm : Int
  vccInt : Int
  prevIndex : Nat
  voltIndex : Nat
  cpufreqIndex : Nat
  cpufreqLevel : Nat
  setMaxFreqFlag : Bool
  levelCount : Int
  changeQuick : Bool
  threads : Nat → Pc

section Code

variable (tab : Tab) (u : Int)

def clipLevel (a b : Nat) : Nat := if a > b then b else a

/-- The table voltage less the undervolt value, as an unsigned number of 32 bits. -/
def armTarget (i : Nat) : Int := (armVoltage tab i - u) % 2 ^ 32
def intTarget (i : Nat) : Int := (intVoltage tab i - u) % 2 ^ 32

/-! ## Helper calls -/

def getspeed (s : State) : Nat := frequency tab s.clock * 1000 / (1000 * 1000) * 1000

def levelLoop (freq : Nat) : Nat → Nat → Nat
  | 0, index => index
  | fuel + 1, index =>
    if freq < frequency tab index ∧ frequency tab index ≠ tableEnd then levelLoop freq fuel (index + 1) else index

/-- The search of `s5p6442_target_freq_index`: the lowest level that is fast enough. -/
def searchIndex (freq : Nat) : Nat :=
  let index := levelLoop tab freq (freqTable tab).length 0
  let index := if 0 < index ∧ freq ≠ frequency tab index then index - 1 else index
  if frequency tab index = tableEnd then index - 1 else index

/-- `s5p6442_target_freq_index`: the level for a frequency, and the new `s5p6442_cpufreq_index`. -/
def targetFreqIndex (freq : Nat) (s : State) : Nat × State :=
  if frequency tab 0 ≤ freq then
    let index := clipLevel 0 s.cpufreqLevel
    (index, { s with cpufreqIndex := index })
  else if frequency tab s.cpufreqIndex = freq then (s.cpufreqIndex, s)
  else
    let index := clipLevel (searchIndex tab freq) s.cpufreqLevel
    (index, { s with cpufreqIndex := index })

/-- `s5p6442_target_frq`: the next frequency for the governor. -/
def targetFrq (predFreq : Nat) (flag : Int) (s : State) : Nat × State :=
  let index :=
    if frequency tab 0 < predFreq then 0
    else if frequency tab s.cpufreqIndex = predFreq then
      if flag = 1 then (transitionState.getD s.cpufreqIndex (0, 0)).2
      else (transitionState.getD s.cpufreqIndex (0, 0)).1
    else if flag = -1 then 1
    else 0
  let index := clipLevel index s.cpufreqLevel
  (frequency tab index, { s with cpufreqIndex := index })

/-- `set_dvfs_perf_level`; `locked` says whether the lock was free. -/
def setDvfsPerfLevel (locked : Bool) (s : State) : State :=
  if locked then { s with cpufreqIndex := 0, changeQuick := true } else s

def setDvfsLevel (locked : Bool) (flag : Int) (s : State) : State :=
  if s.setMaxFreqFlag then
    { s with levelCount := if flag = 0 then s.levelCount + 1 else s.levelCount - 1 }
  else if locked then
    if flag = 0 then
      if s.levelCount > 0 then { s with levelCount := s.levelCount + 1 }
      else { s with cpufreqLevel := maxFreqLevelOnlyCpu tab, levelCount := s.levelCount + 1 }
    else if s.levelCount > 1 then { s with levelCount := s.levelCount - 1 }
    else { s with cpufreqLevel := maxFreqLevel, levelCount := s.levelCount - 1 }
  else s

def setMaxFreqUnlock (s : State) : State :=
  { s with
    setMaxFreqFlag := false
    cpufreqLevel := if s.levelCount > 0 then maxFreqLevelOnlyCpu tab else maxFreqLevel }

/-! ## Threads -/

def goto (t : Nat) (pc : Pc) (s : State) : State := { s with threads := update s.threads t pc }

def finishCall (t : Nat) (quick : Bool) (s : State) : State :=
  goto t .idle { s with changeQuick := s.changeQuick || quick }

/-- One step of thread `t`; `clkOk` is the outcome of `clk_set_rate`. -/
def advance (t : Nat) (clkOk : Bool) (s : State) : State :=
  match s.threads t with
  | .idle => s
  | .getSpeed freq quick =>
    let s := if getspeed tab s = frequency tab 0 then { s with prevIndex := 0 } else s
    goto t (.freqIndex freq quick) s
  | .freqIndex freq quick =>
    let (index, s) := targetFreqIndex tab freq s
    if index = indxError then finishCall t quick s else goto t (.compare index quick) s
  | .compare index quick =>
    if s.prevIndex = index then finishCall t quick s else goto t (.direction index quick) s
  | .direction index quick =>
    if s.prevIndex < index then goto t (.lower index quick) s
    else goto t (.setVoltage index false (.raise index quick)) s
  | .lower index quick =>
    if clkOk then goto t (.setVoltage index false (.lowered index quick)) { s with clock := index }
    else finishCall t quick s
  | .raise index quick =>
    if clkOk then goto t (.finish index quick) { s with clock := index } else finishCall t quick s
  | .setVoltage freqIndex force after =>
    if force = false ∧ s.voltIndex = freqIndex then goto t after.pc s
    else goto t (.setArm freqIndex s.vccArm s.vccInt after) { s with voltIndex := freqIndex }
  | .setArm freqIndex vccArm vccInt after =>
    let s := if armTarget tab u freqIndex ≠ vccArm then { s with vccArm := armTarget tab u freqIndex } else s
    goto t (.setInt freqIndex vccInt after) s
  | .setInt freqIndex vccInt after =>
    let s := if intTarget tab u freqIndex ≠ vccInt then { s with vccInt := intTarget tab u freqIndex } else s
    goto t after.pc s
  | .finish index quick => finishCall t quick { s with prevIndex := index }

inductive Op where
  | target (t freq : Nat)
  | setMaxFreqLock (t : Nat)
  | storeUvTable (t : Nat)
  | step (t : Nat) (clkOk : Bool)
  | targetFrq (predFreq : Nat) (flag : Int)
  | setDvfsPerfLevel (locked : Bool)
  | setDvfsLevel (locked : Bool) (flag : Int)
  | setMaxFreqUnlock
  deriving DecidableEq, Repr

def exec (s : State) : Op → Except Empty (Unit × State)
  | .target t freq => .ok ((), goto t (.getSpeed freq false) s)
  | .setMaxFreqLock t =>
    .ok ((), goto t (.getSpeed (frequency tab 0) true) { s with setMaxFreqFlag := true, cpufreqLevel := 0 })
  | .storeUvTable t => .ok ((), goto t (.setVoltage s.cpufreqIndex true .store) s)
  | .step t clkOk => .ok ((), advance tab u t clkOk s)
  | .targetFrq predFreq flag => .ok ((), (targetFrq tab predFreq flag s).2)
  | .setDvfsPerfLevel locked => .ok ((), setDvfsPerfLevel locked s)
  | .setDvfsLevel locked flag => .ok ((), setDvfsLevel tab locked flag s)
  | .setMaxFreqUnlock => .ok ((), setMaxFreqUnlock tab s)

def Op.Permitted (s : State) : Op → Prop
  | .target t _ => s.threads t = .idle
  | .setMaxFreqLock t => s.threads t = .idle
  | .storeUvTable t => s.threads t = .idle
  | _ => True

instance (s : State) : (op : Op) → Decidable (op.Permitted s)
  | .target t _ | .setMaxFreqLock t | .storeUvTable t => inferInstanceAs (Decidable (s.threads t = .idle))
  | .step _ _ | .targetFrq _ _ | .setDvfsPerfLevel _ | .setDvfsLevel _ _ | .setMaxFreqUnlock => .isTrue trivial

def initial : State :=
  { clock := 0, vccArm := armTarget tab u 0, vccInt := intTarget tab u 0, prevIndex := 0, voltIndex := 0,
    cpufreqIndex := 0, cpufreqLevel := maxFreqLevel, setMaxFreqFlag := false, levelCount := 0, changeQuick := false,
    threads := fun _ => .idle }

def machine : Lib.Machine State Op Unit Empty where
  init s := s = initial tab u
  enabled s op := op.Permitted s
  exec := exec tab u

end Code

/-- The registers are at least the table voltages of the level of the clock, less the undervolt value. -/
def Covered (tab : Tab) (u : Int) (s : State) : Prop :=
  armVoltage tab s.clock - u ≤ s.vccArm ∧ intVoltage tab s.clock - u ≤ s.vccInt

end G3Mod.Dvfs
