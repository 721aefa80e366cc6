import Mathlib.Data.List.Count
import Mathlib.Logic.Function.Iterate
import G3Mod.Onedram.Model

/-!
# Authority is exclusive as long as no client enters during a release

A release looks at `ref_sem` and writes the register later.
-/

namespace G3Mod.Onedram

open Lib

variable {s : State} {sh : Shared} {pc : Pc} {t : Nat}

def Pc.counted : Pc → Bool
  | .getRead _ _ | .getSend _ _ | .getReread _ _ | .getDec _ | .holding _ | .putFlag _ _ | .putDec _ => true
  | _ => false

/-- `ref_sem` was found to be zero, and the register is not written yet. -/
def Pc.releasing : Pc → Bool
  | .putTest _ | .putWrite _ | .relClear _ | .relWrite _ => true
  | _ => false

def Pc.reads : Pc → Bool
  | .getRead _ _ | .getReread _ _ => true
  | _ => false

/-! ## What a step can do -/

def Pc.Plain (pc : Pc) : Prop := pc.counted = false ∧ pc.releasing = false ∧ ¬ pc.Holds

theorem Caller.next_plain (c : Caller) : c.next.Plain := by
  cases c with
  | client => exact ⟨rfl, rfl, nofun⟩
  | handler reqSem => cases reqSem <;> exact ⟨rfl, rfl, nofun⟩

theorem AfterPut.next_plain (after : AfterPut) : after.next.Plain := by
  cases after <;> exact ⟨rfl, rfl, nofun⟩

theorem AfterRel.busy_plain (after : AfterRel) : after.busy.Plain := by
  cases after with
  | sipc c => exact c.next_plain
  | _ => exact ⟨rfl, rfl, nofun⟩

theorem AfterRel.released_plain (after : AfterRel) : after.released.Plain := by
  cases after <;> exact ⟨rfl, rfl, nofun⟩

theorem AfterRel.sent_plain (after : AfterRel) : after.sent.Plain := by
  cases after <;> exact ⟨rfl, rfl, nofun⟩

/-- The count, the register, and how a context comes to release or to hold the memory. -/
structure StepSpec (sh : Shared) (pc : Pc) (r : Pc × Shared) : Prop where
  count : r.2.refSem + pc.counted.toNat = sh.refSem + r.1.counted.toNat
  sem : r.2.sem = sh.sem ∨ pc.releasing = true
  releasing : r.1.releasing = true → pc.releasing = true ∨ r.2.refSem = 0
  holds : r.1.Holds → pc.Holds ∨ pc.reads = true ∧ sh.sem = true

theorem StepSpec.plain {pc' : Pc} {sh' : Shared} (h : pc'.Plain) (hcount : sh'.refSem + pc.counted.toNat = sh.refSem)
    (hsem : sh'.sem = sh.sem ∨ pc.releasing = true) : StepSpec sh pc (pc', sh') where
  count := by simpa [h.1] using hcount
  sem := hsem
  releasing hr := absurd hr (by simp [h.2.1])
  holds hh := absurd hh h.2.2

theorem StepSpec.quiet {pc' : Pc} {sh' : Shared} (href : sh'.refSem = sh.refSem) (hsem : sh'.sem = sh.sem)
    (hcounted : pc'.counted = pc.counted) (hreleasing : pc'.releasing = pc.releasing) (hholds : ¬ pc'.Holds) :
    StepSpec sh pc (pc', sh') where
  count := by simp only [href, hcounted]
  sem := .inl hsem
  releasing hr := .inl (hreleasing ▸ hr)
  holds hh := absurd hh hholds

theorem step_spec (sh : Shared) (pc : Pc) : StepSpec sh pc (step sh pc) := by
  cases pc with
  | idle => exact .quiet rfl rfl rfl rfl nofun
  | getInc cmd c => exact ⟨by simp [step, Pc.counted], .inl rfl, nofun, nofun⟩
  | getRead cmd c =>
    simp only [step]
    split
    next hsem => exact ⟨rfl, .inl rfl, nofun, fun _ => .inr ⟨rfl, hsem⟩⟩
    next => split <;> exact .quiet rfl rfl rfl rfl nofun
  | getSend retry c => exact .quiet rfl rfl rfl rfl nofun
  | getReread retry c =>
    simp only [step]
    split
    next hsem => exact ⟨rfl, .inl rfl, nofun, fun _ => .inr ⟨rfl, hsem⟩⟩
    next => split <;> exact .quiet rfl rfl rfl rfl nofun
  | getDec c => exact .plain c.next_plain (by simp [Pc.counted]) (.inl rfl)
  | holding c =>
    cases c with
    | client => exact ⟨rfl, .inl rfl, nofun, .inl⟩
    | handler reqSem => exact .quiet rfl rfl rfl rfl nofun
  | putFlag release after => exact .quiet rfl rfl rfl rfl nofun
  | putDec after =>
    simp only [step]
    split
    next hzero => exact ⟨by simp [Pc.counted], .inl rfl, fun _ => .inr hzero, nofun⟩
    next => exact .plain after.next_plain (by simp [Pc.counted]) (.inl rfl)
  | putTest after =>
    simp only [step]
    split
    · exact .quiet rfl rfl rfl rfl nofun
    · exact .plain after.next_plain (by simp [Pc.counted]) (.inl rfl)
  | putWrite after => exact .plain after.next_plain (by simp [Pc.counted]) (.inr rfl)
  | readOdRel c =>
    simp only [step]
    split
    · exact .quiet rfl rfl rfl rfl nofun
    · exact .plain c.next_plain (by simp [Pc.counted]) (.inl rfl)
  | relRead after =>
    simp only [step]
    split
    next => exact .plain after.busy_plain (by simp [Pc.counted]) (.inl rfl)
    next hzero => exact ⟨rfl, .inl rfl, fun _ => .inr (not_not.mp hzero), nofun⟩
  | relClear after => exact .quiet rfl rfl rfl rfl nofun
  | relWrite after => exact .plain after.released_plain (by simp [Pc.counted]) (.inr rfl)
  | sendRes after => exact .plain after.sent_plain (by simp [Pc.counted]) (.inl rfl)
  | clearOdRel c => exact .plain c.next_plain (by simp [Pc.counted]) (.inl rfl)
  | setOdRel => exact .quiet rfl rfl rfl rfl nofun

/-- `ref_sem` counts the contexts inside; a release and a holder exclude each other; holders find the register set. -/
structure Inv (s : State) : Prop where
  count : s.shared.refSem = s.contexts.countP Pc.counted
  apart : ∀ pc ∈ s.contexts, pc.releasing = true → ∀ pc' ∈ s.contexts, ¬ pc'.Holds
  sem : ∀ pc ∈ s.contexts, pc.Holds → s.shared.sem = true

theorem Pc.Holds.counted (h : pc.Holds) : pc.counted = true := by
  obtain ⟨c, rfl⟩ := h
  rfl

theorem Pc.Holds.not_releasing (h : pc.Holds) : pc.releasing = false := by
  obtain ⟨c, rfl⟩ := h
  rfl

theorem Pc.not_reads_of_releasing (h : pc.releasing = true) : pc.reads = false := by
  cases pc <;> first | rfl | cases h

theorem countP_set {r : Pc} (ht : s.contexts[t]? = some pc) :
    (s.contexts.set t r).countP Pc.counted + pc.counted.toNat = s.contexts.countP Pc.counted + r.counted.toNat := by
  obtain ⟨hlt, rfl⟩ := List.getElem?_eq_some_iff.mp ht
  have hpos : s.contexts[t].counted = true → 0 < s.contexts.countP Pc.counted := fun h =>
    List.countP_pos_iff.mpr ⟨_, List.getElem_mem hlt, h⟩
  rw [List.countP_set hlt]
  cases hc : s.contexts[t].counted <;> cases hr : r.counted <;> simp
  · have := hpos hc
    omega
  · have := hpos hc
    omega

theorem Inv.goto (h : Inv s) {r : Pc × Shared} (ht : s.contexts[t]? = some pc) (spec : StepSpec s.shared pc r)
    (hcareful : pc.reads = true → s.shared.sem = true → ∀ pc' ∈ s.contexts, pc'.releasing = false) :
    Inv (Onedram.goto t r s) := by
  have hmem : pc ∈ s.contexts := List.mem_of_getElem? ht
  have hcount : r.2.refSem = (s.contexts.set t r.1).countP Pc.counted := by
    have hset := countP_set (r := r.1) ht
    have hstep := spec.count
    rw [h.count] at hstep
    omega
  -- a context after the step is the one that moved or an old one
  have hcases : ∀ {p}, p ∈ s.contexts.set t r.1 → p ∈ s.contexts ∨ p = r.1 := List.mem_or_eq_of_mem_set
  refine ⟨hcount, ?_, ?_⟩
  · intro p hp hrel p' hp' hholds
    rcases hcases hp with hold | rfl
    · rcases hcases hp' with hold' | rfl
      · exact h.apart p hold hrel p' hold' hholds
      · rcases spec.holds hholds with hh | ⟨hreads, hsem⟩
        · exact h.apart p hold hrel pc hmem hh
        · exact absurd hrel (by simp [hcareful hreads hsem p hold])
    rcases spec.releasing hrel with hr | hzero
    · rcases hcases hp' with hold' | rfl
      · exact h.apart pc hmem hr p' hold' hholds
      · exact absurd hrel (by simp [hholds.not_releasing])
    · have hpos : 0 < (s.contexts.set t r.1).countP Pc.counted :=
        List.countP_pos_iff.mpr ⟨p', hp', hholds.counted⟩
      omega
  · intro p hp hholds
    show r.2.sem = true
    rcases spec.sem with hsame | hrel
    · rw [hsame]
      rcases hcases hp with hold | rfl
      · exact h.sem p hold hholds
      · rcases spec.holds hholds with hh | ⟨_, hsem⟩
        · exact h.sem pc hmem hh
        · exact hsem
    rcases hcases hp with hold | rfl
    · exact absurd hholds (h.apart pc hmem hrel p hold)
    · rcases spec.holds hholds with hh | ⟨hreads, _⟩
      · exact absurd hrel (by simp [hh.not_releasing])
      · exact absurd hreads (by simp [Pc.not_reads_of_releasing hrel])

/-! ## Every run -/

/-- `get_auth` does not find the register set while another context is about to write it. -/
def Op.Careful (s : State) : Op → Prop
  | .step t => ∀ pc, s.contexts[t]? = some pc → pc.reads = true → s.shared.sem = true →
      ∀ pc' ∈ s.contexts, pc'.releasing = false
  | _ => True

def carefulMachine : Machine State Op Unit Empty where
  init := machine.init
  enabled s op := op.Permitted s ∧ op.Careful s
  exec := machine.exec

theorem Inv.exec (h : Inv s) {op : Op} (hp : op.Permitted s) (hc : op.Careful s) :
    ∃ s', exec s op = .ok ((), s') ∧ Inv s' := by
  cases op with
  | getAuth t cmd | putAuth t release | sipcPutAuth t
  | relSem t | sipcHandler t reqSem => exact ⟨_, rfl, h.goto hp (.quiet rfl rfl rfl rfl nofun) nofun⟩
  | step t =>
    simp only [Onedram.exec]
    cases ht : s.contexts[t]? with
    | none => exact ⟨s, rfl, h⟩
    | some pc => exact ⟨_, rfl, h.goto ht (step_spec _ _) (hc pc ht)⟩
  | modemGive => exact ⟨_, rfl, h.count, h.apart, fun _ _ _ => rfl⟩

theorem carefulMachine_inductive : carefulMachine.Inductive Inv where
  init := by
    rintro s ⟨href, hidle⟩
    have hplain : ∀ pc ∈ s.contexts, pc.Plain := by
      intro pc hpc
      rw [hidle pc hpc]
      exact ⟨rfl, rfl, nofun⟩
    refine ⟨?_, fun pc hpc hrel => absurd hrel (by simp [(hplain pc hpc).2.1]), fun pc hpc hh =>
      absurd hh (hplain pc hpc).2.2⟩
    rw [href, List.countP_eq_zero.mpr fun pc hpc => by simp [(hplain pc hpc).1]]
    rfl
  step := by
    rintro s op h ⟨hp, hc⟩
    obtain ⟨s', hexec, hinv⟩ := h.exec hp hc
    exact ⟨(), s', hexec, hinv⟩

/-- In every run in which no `get_auth` succeeds in the middle of a release, the register reads 1 while some context has
authority. -/
theorem authority_exclusive (h : carefulMachine.Reachable s) : Exclusive s := by
  rintro ⟨pc, hpc, hholds⟩
  exact (carefulMachine_inductive.reachable h).sem pc hpc hholds

def twoContexts : State := ⟨⟨true, 0, false, false, none⟩, [.idle, .idle]⟩

theorem authority_of_first :
    ∃ s, carefulMachine.Reachable s ∧ (∃ pc ∈ s.contexts, pc.Holds) ∧ Exclusive s := by
  have h0 := Machine.Reachable.init (M := carefulMachine) (s := twoContexts) ⟨rfl, by simp [twoContexts]⟩
  have h1 := h0.step (l := Op.getAuth 0 true) ⟨rfl, trivial⟩ rfl
  have h2 := h1.step (l := Op.step 0) ⟨trivial, by rintro pc hpc; cases hpc; exact nofun⟩ rfl
  have h3 := h2.step (l := Op.step 0) ⟨trivial, by rintro pc hpc _ _ pc' hpc'; revert pc'; decide⟩ rfl
  exact ⟨_, h3, ⟨_, List.mem_cons_self, .client, rfl⟩, authority_exclusive h3⟩

/-- Context 1 comes in after context 0, in `rel_sem`, has found `ref_sem` at zero. -/
def race : List Op :=
  [Op.getAuth 0 true, .step 0, .step 0] ++ Op.sipcHandler 2 true :: List.replicate 8 (Op.step 2) ++
    Op.sipcPutAuth 0 :: List.replicate 5 (Op.step 0) ++ [Op.getAuth 1 true, .step 1, .step 1, .step 0, .step 0]

def raceEnd : State := ⟨⟨false, 1, false, true, none⟩, [.sendRes (.sipc .client), .holding .client, .idle]⟩

theorem race_reachable : machine.Reachable raceEnd :=
  Machine.reachable_of_execList (s := ⟨⟨true, 0, false, false, none⟩, [.idle, .idle, .idle]⟩) ⟨rfl, by decide⟩ race rfl

theorem release_under_client : ∃ s, machine.Reachable s ∧ ¬ Exclusive s := by
  refine ⟨raceEnd, race_reachable, fun hex => ?_⟩
  exact absurd (hex ⟨.holding .client, by decide, .client, rfl⟩) (by decide)

/-! ## Deferred requests

A mapping of `onedram_mmap` counts like `get_auth` without a command, and `onedram_vm_close` calls `put_auth`. -/

def alone (r : Pc × Shared) (n : Nat) : Pc × Shared := Nat.iterate (fun r => step r.2 r.1) n r

/-- The call comes to post `MBC_RES_SEM`, and has released the semaphore then. -/
def Honours (sh : Shared) (pc : Pc) : Prop :=
  ∃ n after, (alone (pc, sh) n).1 = .sendRes after ∧ (alone (pc, sh) n).2.sem = false

def Pc.drops : Pc → Bool
  | .getDec _ | .putDec _ => true
  | _ => false

/-- `_put_auth` of `sipc4.c` looks at `od_rel`; `_do_command` comes to `rel_sem` for a request of its own. -/
def Pc.looks : Pc → Bool
  | .putDec (.sipc _) | .getDec (.handler true) => true
  | _ => false

theorem honours_step (hpc : ∀ after, pc ≠ .sendRes after) : Honours sh pc ↔ Honours (step sh pc).2 (step sh pc).1 := by
  constructor
  · rintro ⟨n, after, h⟩
    cases n with
    | zero => exact absurd h.1 (hpc after)
    | succ n => exact ⟨n, after, h⟩
  · rintro ⟨n, after, h⟩
    exact ⟨n + 1, after, h⟩

theorem not_honours_idle : ¬Honours sh .idle := by
  rintro ⟨n, after, h, _⟩
  rw [alone, Function.iterate_fixed rfl] at h
  cases h

/-- The call by which `ref_sem` drops to zero while a request is deferred honours it iff it is one that comes to
`rel_sem`. -/
theorem deferred_honoured_iff (hdrop : pc.drops = true) (hone : sh.refSem = 1) (hrel : sh.odRel = true) :
    Honours sh pc ↔ pc.looks = true := by
  cases pc with
  | getDec c =>
    refine (honours_step (by simp)).trans ?_
    rcases c with _ | _ | _
    · exact iff_of_false not_honours_idle nofun
    · exact iff_of_false not_honours_idle nofun
    · exact iff_of_true ⟨3, .reqSem, by simp [alone, step, hone, Caller.next, AfterRel.released]⟩ rfl
  | putDec after =>
    cases after with
    | done =>
      refine iff_of_false (fun h => ?_) nofun
      -- the call ends whether or not `put_auth` has the flag to release the semaphore
      replace h := (honours_step (by simp)).mp h
      simp only [step, hone, Int.sub_self, if_true] at h
      replace h := (honours_step (by simp)).mp h
      rw [step] at h
      split at h
      · exact not_honours_idle ((honours_step (by simp)).mp h)
      · exact not_honours_idle h
    | sipc c =>
      refine iff_of_true ?_ rfl
      cases hf : sh.flag
      · exact ⟨6, .sipc c, by simp [alone, step, hone, hrel, hf, AfterPut.next, AfterRel.released]⟩
      · exact ⟨7, .sipc c, by simp [alone, step, hone, hrel, hf, AfterPut.next, AfterRel.released]⟩
  | _ => cases hdrop

theorem sipc_honours : Honours ⟨true, 1, false, true, none⟩ (.putDec (.sipc .client)) :=
  (deferred_honoured_iff rfl rfl rfl).mpr rfl

def putAuthLast : List Op :=
  [Op.getAuth 0 true, .step 0, .step 0] ++ Op.sipcHandler 1 true :: List.replicate 8 (Op.step 1) ++
    [Op.putAuth 0 false, .step 0]

theorem deferred_forgotten : ∃ s, machine.Reachable s ∧ s = ⟨⟨true, 1, false, true, none⟩, [.putDec .done, .idle]⟩ ∧
    ¬Honours s.shared (.putDec .done) := by
  refine ⟨_, Machine.reachable_of_execList (s := twoContexts) ⟨rfl, by decide⟩ putAuthLast rfl, rfl, fun h => ?_⟩
  exact not_honours_idle ((honours_step (by simp [step])).mp ((honours_step (by simp)).mp h))

theorem goto_count {r : Pc × Shared} (h : s.shared.refSem = s.contexts.countP Pc.counted) (ht : s.contexts[t]? = some pc)
    (spec : StepSpec s.shared pc r) : (goto t r s).shared.refSem = (goto t r s).contexts.countP Pc.counted := by
  have hset := countP_set (r := r.1) ht
  have hstep := spec.count
  simp only [goto]
  omega

/-- `ref_sem` is the number of contexts inside in every run, also in one with a race. -/
theorem ref_sem_counts (h : machine.Reachable s) : s.shared.refSem = s.contexts.countP Pc.counted := by
  apply h.invariant (I := fun s => s.shared.refSem = s.contexts.countP Pc.counted)
  · rintro s ⟨href, hidle⟩
    rw [href, eq_comm]
    simp only [Int.natCast_eq_zero]
    exact List.countP_eq_zero.mpr fun pc hpc => by simp [hidle pc hpc, Pc.counted]
  · intro s op o s' hs hp hx
    cases op with
    | getAuth | putAuth | sipcPutAuth | relSem | sipcHandler =>
      cases hx
      exact goto_count hs hp (.quiet rfl rfl rfl rfl nofun)
    | step t =>
      simp only [machine, exec] at hx
      split at hx <;> cases hx
      · exact hs
      · exact goto_count hs ‹_› (step_spec _ _)
    | modemGive =>
      cases hx
      exact hs

theorem race_counted : raceEnd.shared.refSem = raceEnd.contexts.countP Pc.counted :=
  ref_sem_counts race_reachable

end G3Mod.Onedram
