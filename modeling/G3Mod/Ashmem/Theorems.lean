import Mathlib.Data.Set.Lattice
import Mathlib.Algebra.Order.BigOperators.Group.List
import Mathlib.Algebra.Order.Group.Int
import G3Mod.Ashmem.Lemmas.Loops

/-!
# Ashmem as sets of pages

What the driver is for: every area has a set of unpinned pages and, among them, the pages purged since they were last
unpinned.
-/

namespace G3Mod.Ashmem

open Function Set

structure PageSets where
  unpinned : AreaId → Set Nat
  purged : AreaId → Set Nat

namespace PageSets

def init : PageSets where
  unpinned _ := ∅
  purged _ := ∅

def truncatedPages (l : List (AreaId × Nat × Nat)) (a : AreaId) : Set Nat :=
  {p | ∃ lo hi, (a, lo, hi) ∈ l ∧ p ∈ Icc lo hi}

/-- A page that becomes unpinned starts out not purged; pinning takes pages out of both sets. -/
def step (m : PageSets) : Op × Out → PageSets
  | (.unpin _ a lo hi, _) =>
    { unpinned := update m.unpinned a (m.unpinned a ∪ Icc lo hi)
      purged := update m.purged a (m.purged a \ (Icc lo hi \ m.unpinned a)) }
  | (.pin _ a lo hi, _) =>
    { unpinned := update m.unpinned a (m.unpinned a \ Icc lo hi)
      purged := update m.purged a (m.purged a \ Icc lo hi) }
  | (.shrink _ _ _, out) =>
    { unpinned := m.unpinned
      purged := fun a => m.purged a ∪ truncatedPages out.truncated a }
  | (.release a, _) =>
    { unpinned := update m.unpinned a ∅
      purged := update m.purged a ∅ }

def after (es : List (Op × Out)) : PageSets := es.foldl step init

end PageSets

def pages (s : State) (a : AreaId) : Set Nat :=
  {p | ∃ i ∈ s.unpinned a, p ∈ Icc (s.range i).pgstart (s.range i).pgend}

def Op.AllocOk : Op → Prop
  | .pin alloc _ _ _ => alloc = true
  | .unpin alloc _ _ _ => alloc = true
  | .shrink _ _ _ => True
  | .release _ => True

def allocMachine : Lib.Machine State Op Out Empty where
  init s := s = State.init
  enabled _ op := op.Permitted ∧ op.AllocOk
  exec s op := .ok (exec s op)

/-! # Theorems on ashmem -/

variable {s : State} {a b : AreaId} {lo hi : Nat}

theorem exec_inv (h : Inv s) {op : Op} (hop : op.Permitted) : Inv (exec s op).2 := by
  cases op with
  | pin alloc a lo hi => exact (ashmemPin_post alloc h hop).inv
  | unpin alloc a lo hi => exact (ashmemUnpin_post alloc h hop).inv
  | shrink nr gfpFs locked => exact ashmemShrink_inv h nr gfpFs locked
  | release a => exact ashmemRelease_inv h

theorem machine_inductive : machine.Inductive Inv where
  init h := by rw [show _ = State.init from h]; exact Inv.init
  step h hop := ⟨_, _, rfl, exec_inv h hop⟩

def sampleState : State := (exec (exec State.init (.unpin true 0 0 9)).2 (.pin true 0 3 4)).2

theorem sampleState_reachable : machine.Reachable sampleState :=
  ((Lib.Machine.Reachable.init (M := machine) rfl).step (l := Op.unpin true 0 0 9)
    (show 0 ≤ 9 by decide) rfl).step (l := Op.pin true 0 3 4) (show 3 ≤ 4 by decide) rfl

theorem mem_pages {p : Nat} : p ∈ pages s a ↔ ∃ v, Holds s a p v := by
  constructor
  · rintro ⟨i, hi, hp⟩
    exact ⟨_, i, ⟨hi, hp⟩, rfl⟩
  · rintro ⟨_, i, ⟨hi, hp⟩, _⟩
    exact ⟨i, hi, hp⟩

theorem pages_ashmemUnpin (h : Inv s) (hl : lo ≤ hi) :
    pages (ashmemUnpin true a lo hi s).1 = update (pages s) a (pages s a ∪ Icc lo hi) := by
  funext b
  ext p
  rw [mem_pages, (ashmemUnpin_post (a := a) true h hl).pages rfl]
  by_cases hb : b = a
  · subst hb; simp [mem_pages]
  · simp [hb, mem_pages]

theorem pages_ashmemPin (h : Inv s) (hl : lo ≤ hi) :
    pages (ashmemPin true a lo hi s).1 = update (pages s) a (pages s a \ Icc lo hi) := by
  funext b
  ext p
  simp only [mem_pages, (ashmemPin_post (a := a) true h hl).pages rfl, exists_and_right]
  by_cases hb : b = a
  · subst hb; simp [mem_pages]
  · simp [hb, mem_pages]

theorem ashmemGetPinStatus_iff (h : Inv s) (hl : lo ≤ hi) :
    ashmemGetPinStatus a lo hi s = .isUnpinned ↔ (Icc lo hi ∩ pages s a).Nonempty := by
  rw [ashmemGetPinStatus, pinStatusLoop_iff hl (h.order a) fun i hi => h.bounds hi]
  constructor
  · rintro ⟨i, hi, h1, h2⟩
    have := h.bounds hi
    exact ⟨max lo (s.range i).pgstart, ⟨by omega, by omega⟩, i, hi, by omega, by omega⟩
  · rintro ⟨p, ⟨h1, h2⟩, i, hi, h3, h4⟩
    exact ⟨i, hi, by omega, by omega⟩

namespace PageSets

variable {m : PageSets} {alloc : Bool} {out : Out} {p : Nat}

theorem purged_pin : p ∈ (m.step (.pin alloc a lo hi, out)).purged b ↔
    p ∈ m.purged b ∧ ¬ (b = a ∧ lo ≤ p ∧ p ≤ hi) := by
  by_cases hb : b = a
  · subst hb; simp [step]
  · simp [step, hb]

theorem purged_unpin (h : p ∈ (m.step (.unpin alloc a lo hi, out)).purged b) : p ∈ m.purged b := by
  by_cases hb : b = a
  · subst hb
    simp only [step, update_self] at h
    exact h.1
  · simpa only [step, update_of_ne hb] using h

end PageSets

/-- The ranges make up the unpinned pages; one purged since it was unpinned lies in a marked range. -/
structure Represents (s : State) (m : PageSets) : Prop where
  inv : Inv s
  unpinned : ∀ b, pages s b = m.unpinned b
  purged : ∀ b p, p ∈ m.purged b → Holds s b p wasPurged

theorem Represents.init : Represents State.init PageSets.init where
  inv := Inv.init
  unpinned b := by simp [pages, State.init, PageSets.init]
  purged b p hp := by simp [PageSets.init] at hp

theorem Represents.pin {m : PageSets} (h : Represents s m) (hl : lo ≤ hi) (out : Out) :
    Represents (ashmemPin true a lo hi s).1 (m.step (.pin true a lo hi, out)) where
  inv := (ashmemPin_post true h.inv hl).inv
  unpinned b := by rw [pages_ashmemPin h.inv hl, funext h.unpinned]; rfl
  purged b p hp := by
    rw [(ashmemPin_post true h.inv hl).pages rfl]
    rw [PageSets.purged_pin] at hp
    exact ⟨h.purged b p hp.1, hp.2⟩

theorem Represents.unpin {m : PageSets} (h : Represents s m) (hl : lo ≤ hi) (out : Out) :
    Represents (ashmemUnpin true a lo hi s).1 (m.step (.unpin true a lo hi, out)) where
  inv := (ashmemUnpin_post true h.inv hl).inv
  unpinned b := by rw [pages_ashmemUnpin h.inv hl, funext h.unpinned]; rfl
  purged b p hp := (ashmemUnpin_post true h.inv hl).marks rfl b p (.inl (h.purged b p (PageSets.purged_unpin hp)))

theorem ShrinkPost.represents {m : PageSets} {nr : Int} {res : State × List RangeId} (h : Represents s m)
    (hpost : ShrinkPost nr s res) (gfpFs locked : Bool) (ret : Int) :
    Represents res.1 (m.step (.shrink nr gfpFs locked,
      ⟨ret, res.2.map fun i => ((s.range i).asma, (s.range i).pgstart, (s.range i).pgend)⟩)) where
  inv := hpost.inv
  unpinned b := by
    rw [PageSets.step, ← h.unpinned b]
    ext p
    simp only [pages, hpost.unpinned, hpost.range]
    refine exists_congr fun i => and_congr_right fun _ => ?_
    split_ifs <;> rfl
  purged b p hp := by
    rcases hp with hp | ⟨lo, hi, hmem, hp⟩
    · obtain ⟨i, ⟨hi, hc⟩, hv⟩ := h.purged b p hp
      refine ⟨i, ⟨by rw [hpost.unpinned]; exact hi, ?_⟩, ?_⟩
      · rw [hpost.range]; split_ifs <;> exact hc
      · rw [hpost.range]; split_ifs
        · rfl
        · exact hv
    obtain ⟨i, hi, he⟩ := List.mem_map.mp hmem
    obtain ⟨rfl, rfl, rfl⟩ := he
    have hlru : i ∈ s.lru := by rw [hpost.lru]; exact List.mem_append_left _ hi
    obtain ⟨⟨a, ha⟩, _⟩ := (h.inv.lruMem i).mp hlru
    refine ⟨i, ⟨?_, ?_⟩, ?_⟩
    · rw [hpost.unpinned, h.inv.owner ha]; exact ha
    · rw [hpost.range, if_pos hi]; exact hp
    · rw [hpost.range, if_pos hi]

theorem Represents.shrink {m : PageSets} (h : Represents s m) (nr : Int) (gfpFs locked : Bool) :
    Represents (exec s (.shrink nr gfpFs locked)).2
      (m.step (.shrink nr gfpFs locked, (exec s (.shrink nr gfpFs locked)).1)) := by
  have hnone : ∀ ret, m.step (.shrink nr gfpFs locked, ⟨ret, []⟩) = m := by
    intro ret
    simp [PageSets.step, PageSets.truncatedPages]
  unfold exec ashmemShrink
  simp only
  split_ifs
  · simpa [hnone] using h
  · simpa [hnone] using h
  · simpa [hnone] using h
  · exact (shrinkLoop_post s.lru nr h.inv rfl).represents h gfpFs locked _

theorem Represents.release {m : PageSets} (h : Represents s m) (out : Out) :
    Represents (ashmemRelease a s) (m.step (.release a, out)) := by
  obtain ⟨h1, h2, h3⟩ := foldl_rangeDel (a := a) _ h.inv rfl
  refine ⟨h1, fun b => ?_, fun b p hp => ?_⟩
  · by_cases hb : b = a
    · subst hb
      simp only [PageSets.step, update_self]
      ext p
      simp [pages, ashmemRelease, h2]
    simp only [PageSets.step, update_of_ne hb, ← h.unpinned b]
    ext p
    simp only [mem_pages]
    exact exists_congr fun v => h3 b p v hb
  · by_cases hb : b = a
    · subst hb
      simp [PageSets.step] at hp
    · simp only [PageSets.step, update_of_ne hb] at hp
      exact (h3 b p wasPurged hb).mpr (h.purged b p hp)

theorem Represents.exec {m : PageSets} (h : Represents s m) {op : Op} (hop : op.Permitted)
    (hal : op.AllocOk) : Represents (Ashmem.exec s op).2 (m.step (op, (Ashmem.exec s op).1)) := by
  cases op with
  | pin alloc a lo hi => cases hal; exact h.pin hop _
  | unpin alloc a lo hi => cases hal; exact h.unpin hop _
  | shrink nr gfpFs locked => exact h.shrink nr gfpFs locked
  | release a => exact h.release _

theorem run_represents {es : List (Op × Out)} (h : allocMachine.Run State.init es s) :
    Represents s (PageSets.after es) := by
  refine h.summary (fun {s m l o t} hs hl hx => ?_) Represents.init
  have hx : Ashmem.exec s l = (o, t) := Except.ok.inj hx
  have hrep := hs.exec hl.1 hl.2
  rw [hx] at hrep
  exact hrep

def purgedHistory : List (Op × Out) :=
  [(.unpin true 0 0 9, ⟨0, []⟩), (.shrink 1 true true, ⟨0, [(0, 0, 9)]⟩)]

def purgedState : State := (exec (exec State.init (.unpin true 0 0 9)).2 (.shrink 1 true true)).2

theorem purgedState_run : allocMachine.Run State.init purgedHistory purgedState := by
  have h0 : allocMachine.Run State.init [] State.init := .nil
  have h1 := h0.snoc (l := Op.unpin true 0 0 9) ⟨show 0 ≤ 9 by decide, rfl⟩ rfl
  exact h1.snoc (l := Op.shrink 1 true true) ⟨trivial, trivial⟩ rfl

end G3Mod.Ashmem
