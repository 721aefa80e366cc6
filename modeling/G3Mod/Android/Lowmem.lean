import Mathlib.Data.List.Induction
import Mathlib.Algebra.Order.Group.Unbundled.Int

/-!
# The low memory killer

`lowmem_shrink` compares `target_offset` of the candidates but never sets it: `junk p` is what the variable holds when
the scan is at process `p`.
-/

namespace G3Mod.Lowmem

structure Process where
  pid : Nat
  mm : Bool
  sig : Bool
  oomAdj : Int
  rss : Int
  adj_le : oomAdj ≤ 15
  deriving DecidableEq

structure Memory where
  adj : List Int
  minfree : List Int
  otherFree : Int
  otherFile : Int
  rem : Int

/-- The entry of the first threshold that is crossed: `lowmem_adj[i]` and `lowmem_minfree[i]`. -/
def Memory.crossed (m : Memory) : Option (Int × Int) :=
  (m.adj.zip m.minfree).find? fun t => m.otherFree < t.2 ∧ m.otherFile < t.2

def Memory.minAdj (m : Memory) : Int := (m.crossed.map Prod.fst).getD 16

def Memory.targetFree (m : Memory) : Int := (m.crossed.map fun t => t.2 - (m.otherFree + m.otherFile)).getD 0

section

variable (minAdj : Int) (junk : Process → Int)

def eligible (p : Process) : Bool := p.mm && p.sig && decide (minAdj ≤ p.oomAdj) && decide (0 < p.rss)

/-- One turn of `for_each_process`; `selected` comes with `selected_target_offset`. -/
def consider (selected : Option (Process × Int)) (p : Process) : Option (Process × Int) :=
  if eligible minAdj p = false then selected
  else
    match selected with
    | some (q, offset) =>
      if p.oomAdj < q.oomAdj ∨ p.oomAdj = q.oomAdj ∧ offset ≤ junk p then some (q, offset) else some (p, junk p)
    | none => some (p, junk p)

def scan (ps : List Process) : Option (Process × Int) := ps.foldl (consider minAdj junk) none

end

/-- The value returned, and the process that gets `SIGKILL`. -/
def lowmemShrink (deathPending : Bool) (nrToScan : Int) (m : Memory) (junk : Process → Int) (ps : List Process) :
    Int × Option Process :=
  if deathPending then (0, none)
  else if nrToScan ≤ 0 ∨ m.minAdj = 16 then (m.rem, none)
  else
    match scan m.minAdj junk ps with
    | some (p, _) => (m.rem - p.rss, some p)
    | none => (-1, none)

variable {minAdj : Int} {junk : Process → Int} {m : Memory} {nr : Int} {ps : List Process} {p : Process}

def Top (minAdj : Int) (ps : List Process) (p : Process) : Prop :=
  p ∈ ps ∧ eligible minAdj p = true ∧ ∀ q ∈ ps, eligible minAdj q = true → q.oomAdj ≤ p.oomAdj

def Documented (m : Memory) (ps : List Process) : Option Process → Prop
  | none => ∀ p ∈ ps, eligible m.minAdj p = false
  | some v => Top m.minAdj ps v ∧ ∀ p, Top m.minAdj ps p → |v.rss - m.targetFree| ≤ |p.rss - m.targetFree|

theorem scan_concat : scan minAdj junk (ps ++ [p]) = consider minAdj junk (scan minAdj junk ps) p := by
  simp [scan]

theorem scan_top (minAdj : Int) (junk : Process → Int) (ps : List Process) :
    (scan minAdj junk ps = none ∧ ∀ p ∈ ps, eligible minAdj p = false) ∨
      ∃ v, scan minAdj junk ps = some (v, junk v) ∧ Top minAdj ps v := by
  induction ps using List.reverseRecOn with
  | nil => exact .inl ⟨rfl, by simp⟩
  | append_singleton ps p ih =>
    rw [scan_concat]
    rcases ih with ⟨hs, hnone⟩ | ⟨v, hs, hmem, hv, htop⟩ <;> rw [hs, consider] <;>
      cases he : eligible minAdj p <;> grind [Top]

theorem scan_any (h : Top minAdj ps p) :
    scan minAdj (fun q => if q = p then 0 else 1) ps = some (p, 0) := by
  obtain ⟨hmem, he, htop⟩ := h
  induction ps using List.reverseRecOn with
  | nil => cases hmem
  | append_singleton ps q ih =>
    rw [scan_concat]
    have hprefix := scan_top minAdj (fun q => if q = p then 0 else 1) ps
    by_cases hp : p ∈ ps
    · rw [ih hp fun r hr => htop r (List.mem_append_left _ hr)]
      grind [consider]
    · obtain rfl : p = q := by simpa [hp] using hmem
      rcases hprefix with ⟨hs, _⟩ | ⟨v, hs, hv⟩ <;> rw [hs] <;> grind [consider, Top]

theorem lowmemShrink_victim (hnr : 0 < nr) :
    (lowmemShrink false nr m junk ps).2 = (scan m.minAdj junk ps).map Prod.fst := by
  have hnr' : ¬nr ≤ 0 := by omega
  by_cases h16 : m.minAdj = 16
  · -- no process has such an `oom_adj`
    have hnone : (scan m.minAdj junk ps).map Prod.fst = none := by
      rcases scan_top m.minAdj junk ps with ⟨hs, _⟩ | ⟨v, _, _, hv, _⟩
      · rw [hs]; rfl
      · have := v.adj_le
        grind [eligible]
    rw [hnone]
    simp [lowmemShrink, h16]
  · simp only [lowmemShrink, hnr', h16, or_self, if_false, Bool.false_eq_true]
    cases scan m.minAdj junk ps <;> rfl

/-- The victim is the documented one, whatever `target_offset` holds, exactly when there is no choice among the
candidates with the highest `oom_adj`. -/
theorem victim_documented_iff (hnr : 0 < nr) :
    ((∀ junk, Documented m ps (lowmemShrink false nr m junk ps).2) ∧
      ∀ junk junk', (lowmemShrink false nr m junk ps).2 = (lowmemShrink false nr m junk' ps).2) ↔
      ∀ p q, Top m.minAdj ps p → Top m.minAdj ps q → p = q := by
  simp only [lowmemShrink_victim hnr]
  refine ⟨fun h p q hp hq => ?_, fun h => ⟨fun junk => ?_, fun junk junk' => ?_⟩⟩
  · have := h.2 (fun r => if r = p then 0 else 1) (fun r => if r = q then 0 else 1)
    rw [scan_any hp, scan_any hq] at this
    exact Option.some_inj.mp this
  · rcases scan_top m.minAdj junk ps with ⟨hs, hnone⟩ | ⟨v, hs, hv⟩ <;> rw [hs]
    · exact hnone
    · refine ⟨hv, fun p hp => ?_⟩
      rw [h v p hv hp]
  · rcases scan_top m.minAdj junk ps with ⟨hs, hnone⟩ | ⟨v, hs, hv⟩ <;>
      rcases scan_top m.minAdj junk' ps with ⟨hs', hnone'⟩ | ⟨v', hs', hv'⟩ <;> rw [hs, hs']
    · exact absurd hv'.2.1 (by simp [hnone _ hv'.1])
    · exact absurd hv.2.1 (by simp [hnone' _ hv.1])
    · rw [Option.map_some, Option.map_some, h v v' hv hv']

def lowMemory : Memory := ⟨[0, 8], [1024, 4096], 2000, 1000, 5000⟩

def small : Process := ⟨1, true, true, 8, 100, by decide⟩
def large : Process := ⟨2, true, true, 8, 1096, by decide⟩

/-- 1096 pages are to be freed; the process with 100 pages is killed. -/
theorem wrong_victim :
    (lowmemShrink false 1 lowMemory (fun _ => 0) [small, large]).2 = some small ∧
      ¬Documented lowMemory [small, large] (some small) := by
  refine ⟨rfl, fun h => absurd (h.2 large ?_) (by decide)⟩
  simp [Top, small, large, eligible, lowMemory, Memory.minAdj, Memory.crossed]

theorem only_candidate_documented : Documented lowMemory [large] (lowmemShrink false 1 lowMemory (fun _ => 7) [large]).2 :=
  ((victim_documented_iff (by decide)).mpr fun p q hp hq => by
    rw [List.mem_singleton.mp hp.1, List.mem_singleton.mp hq.1]).1 _

/-- The processes that can be killed, by what `target_offset` happens to hold, are those with the highest `oom_adj`. -/
theorem possible_victims (hnr : 0 < nr) (v : Process) :
    (∃ junk, (lowmemShrink false nr m junk ps).2 = some v) ↔ Top m.minAdj ps v := by
  simp only [lowmemShrink_victim hnr]
  constructor
  · rintro ⟨junk, h⟩
    rcases scan_top m.minAdj junk ps with ⟨hs, _⟩ | ⟨w, hs, hw⟩ <;> rw [hs] at h <;> cases h
    exact hw
  · intro h
    exact ⟨_, by rw [scan_any h]; rfl⟩

theorem small_possible : Top lowMemory.minAdj [small, large] small :=
  (possible_victims (show (0 : Int) < 1 by decide) _).mp ⟨fun _ => 0, rfl⟩

end G3Mod.Lowmem
