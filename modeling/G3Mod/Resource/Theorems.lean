import G3Mod.Resource.Lemmas.Calls

/-!
# The resource tree stays in order

A resource that is released keeps its children.
-/

namespace G3Mod.Resource

open Function Relation Lib

variable {s t : State} {op : Op} {o : Out} {root new : Id} {st en : Nat} {b : Bool}

def InTree (s : State) (r : Id) : Prop := (∃ p, Child s r p) ∨ ∃ c, Child s c r

structure Ordered (s : State) : Prop where
  valid : ∀ {r}, InTree s r → (s.res r).start ≤ (s.res r).end_
  /-- the children of a resource are in strictly ascending order and disjoint -/
  ascending : ∀ p, (s.res p).children.Pairwise fun a b => (s.res a).end_ < (s.res b).start
  inside : ∀ {c p}, Child s c p → (s.res p).start ≤ (s.res c).start ∧ (s.res c).end_ ≤ (s.res p).end_
  back : ∀ {c p}, Child s c p → (s.res c).parent = some p

theorem Inv.ordered (h : Inv s) : Ordered s := by
  refine ⟨fun {r} hr => ?_, h.sorted, h.inside, h.back⟩
  rcases hr with ⟨p, hp⟩ | ⟨c, hc⟩
  · exact h.valid hp
  · have := h.inside hc
    have := h.valid hc
    omega

/-! ## Resources that have kept their children -/

def Op.handed : Op → Option Id
  | .request _ new _ _ _ => some new
  | .allocate _ new _ _ => some new
  | .insert _ new _ _ _ => some new
  | .expand _ new _ _ _ => some new
  | .requestRegion _ _ _ res => some res
  | .checkRegion _ _ _ res => some res
  | _ => none

/-- The children that a resource has kept lie inside of the range that it is handed over with. -/
def Op.Encloses (s : State) : Op → Prop
  | .request _ new start end_ _ => ∀ c, Child s c new → start ≤ (s.res c).start ∧ (s.res c).end_ ≤ end_
  | .insert _ new start end_ _ => ∀ c, Child s c new → start ≤ (s.res c).start ∧ (s.res c).end_ ≤ end_
  | .expand _ new start end_ _ => ∀ c, Child s c new → start ≤ (s.res c).start ∧ (s.res c).end_ ≤ end_
  | .allocate _ new _ _ => ∀ c, ¬ Child s c new
  | _ => True

def enclosingMachine : Machine State Op Out Bug :=
  { machine with enabled := fun s op => op.Permitted s ∧ op.Encloses s }

/-! ## One call -/

theorem handOver_child {c p : Id} : Child (handOver new st en b s) c p ↔ Child s c p := by
  simp only [Child, handOver, update_apply]
  split
  · next hp => rw [hp]
  · rfl

theorem Inv.handOver (h : Inv s) (hnew : ∀ p, ¬ Child s new p)
    (hin : ∀ c, Child s c new → st ≤ (s.res c).start ∧ (s.res c).end_ ≤ en) : Inv (handOver new st en b s) := by
  have hset := h.setRange hnew hin
  -- the flag and the list of known resources are no part of the order
  have hres : ∀ i, ((Resource.handOver new st en b s).res i).start = ((Resource.setRange new st en s).res i).start ∧
      ((Resource.handOver new st en b s).res i).end_ = ((Resource.setRange new st en s).res i).end_ ∧
      ((Resource.handOver new st en b s).res i).parent = ((Resource.setRange new st en s).res i).parent ∧
      ((Resource.handOver new st en b s).res i).children = ((Resource.setRange new st en s).res i).children := fun i => by
    simp only [Resource.handOver, Resource.setRange, update_apply]
    split <;> exact ⟨rfl, rfl, rfl, rfl⟩
  refine hset.mono (fun p => by rw [(hres p).2.2.2]) (fun _ => ⟨(hres _).1, (hres _).2.1, (hres _).2.2.1⟩)
    (fun {c p} hc => ?_) fun _ => List.mem_cons_of_mem _
  rw [Child, (hres p).2.2.2] at hc
  rw [(hres p).1, (hres c).1, (hres c).2.1, (hres p).2.1]
  exact hset.inside hc

theorem Spare.handOver (hs : Spare s root new) : Spare (handOver new st en b s) root new := by
  have hchild : Child (Resource.handOver new st en b s) = Child s := by
    funext c p
    exact propext handOver_child
  unfold Spare
  rw [hchild]
  exact hs

theorem handOver_same {i : Id} (hi : i ≠ new) : (handOver new st en b s).res i = s.res i := update_of_ne hi _ _

def Returns (s : State) (op : Op) : Prop :=
  ∃ o t, exec s op = .ok (o, t) ∧ Inv t ∧ (o = .conflict → ∀ i, op.handed ≠ some i → t.res i = s.res i)

theorem outOf_conflict {x : Bool} : outOf x = .conflict ↔ x = false := by
  cases x <;> simp [outOf]

theorem Inv.request (h : Inv s) (hp : (Op.request root new st en b).Permitted s)
    (he : (Op.request root new st en b).Encloses s) : Returns s (.request root new st en b) := by
  obtain ⟨hinv, hsame⟩ := requestResource_inv (h.handOver (b := b) hp.1 he) (Spare.handOver hp) List.mem_cons_self
  refine ⟨_, _, rfl, hinv, fun ho i hi => ?_⟩
  rw [outOf_conflict, Option.isNone_eq_false_iff, Option.isSome_iff_ne_none] at ho
  rw [hsame ho]
  exact handOver_same fun he => hi (congrArg some he.symm)

theorem Inv.allocate (h : Inv s) {w : Wish} (hp : (Op.allocate root new w b).Permitted s)
    (he : (Op.allocate root new w b).Encloses s) : Returns s (.allocate root new w b) := by
  have hover : Inv (Resource.handOver new (s.res new).start (s.res new).end_ b s) :=
    h.handOver hp.1 fun c hc => absurd hc (he c)
  have hs : Spare (Resource.handOver new (s.res new).start (s.res new).end_ b s) root new := Spare.handOver hp
  have hset : ∀ st en, Inv (Resource.setRange new st en (Resource.handOver new (s.res new).start (s.res new).end_ b s)) := fun st en =>
    hover.setRange hs.1 fun c hc => absurd (handOver_child.mp hc) (he c)
  have hreq := fun st en => requestResource_inv (hset st en) hs.setRange List.mem_cons_self
  have hother : ∀ {st en i}, i ≠ new →
      (Resource.setRange new st en (Resource.handOver new (s.res new).start (s.res new).end_ b s)).res i = s.res i := fun hi => by
    rw [Resource.setRange]
    simp only [update_of_ne hi]
    exact handOver_same hi
  refine ⟨_, _, rfl, ?_, fun ho i hi => ?_⟩
  · simp only [allocateResource]
    split
    · exact (hreq _ _).1
    · exact hset _ _
  have hne : i ≠ new := fun he => hi (congrArg some he.symm)
  rw [outOf_conflict] at ho
  simp only [allocateResource] at ho ⊢
  split at ho
  next hfound =>
    rw [if_pos hfound, (hreq _ _).2 (Option.isSome_iff_ne_none.mp (Option.isNone_eq_false_iff.mp ho))]
    exact hother hne
  next hfound =>
    rw [if_neg hfound]
    exact hother hne

theorem Inv.insert (h : Inv s) (hp : (Op.insert root new st en b).Permitted s)
    (he : (Op.insert root new st en b).Encloses s) : Returns s (.insert root new st en b) := by
  obtain ⟨r, hr, hi⟩ := insertResource_ok (h.handOver (b := b) hp.1 he) (Spare.handOver hp) List.mem_cons_self
  refine ⟨outOf r.1.isNone, r.2, by simp only [exec, hr, ok_bind], ?_, fun ho i hne => ?_⟩
  · cases hi with
    | done hinv => exact hinv
    | outside _ | conflict _ _ _ _ _ => exact h.handOver hp.1 he
  cases hi with
  | done _ => cases ho
  | outside _ | conflict _ _ _ _ _ => exact handOver_same fun he => hne (congrArg some he.symm)

theorem Inv.returns (h : Inv s) (hp : op.Permitted s) (he : op.Encloses s) : Returns s op := by
  cases op with
  | request root new st en b => exact h.request hp he
  | release old =>
    obtain ⟨b, t, ht, hinv, hsame⟩ := releaseResource_ok h hp
    refine ⟨outOf b, t, by simp only [exec, ht, ok_bind], hinv, fun ho i _ => ?_⟩
    rw [hsame (outOf_conflict.mp ho)]
  | allocate root new w b => exact h.allocate hp he
  | insert parent new st en b => exact h.insert hp he
  | expand root new st en b =>
    obtain ⟨t, ht, hinv⟩ :=
      insertResourceExpandToFit_ok (h.handOver (b := b) hp.1 he) (Spare.handOver hp) List.mem_cons_self
    exact ⟨.ok, t, by simp only [exec, ht, ok_bind], hinv, nofun⟩
  | requestRegion parent st n res =>
    obtain ⟨b, t, ht, hinv, hsame, _⟩ := requestRegion_ok st n h hp.1 hp.2
    refine ⟨outOf b, t, by simp only [exec, ht, ok_bind], hinv, fun ho i hi => ?_⟩
    rw [hsame (outOf_conflict.mp ho)]
    exact update_of_ne (fun he => hi (congrArg some he.symm)) _ _
  | checkRegion parent st n res =>
    obtain ⟨b, t, ht, hinv, hsame, hparent⟩ := requestRegion_ok st n h hp.1 hp.2
    cases b with
    | false =>
      refine ⟨.conflict, t, by simp [exec, checkRegion, ht, outOf], hinv, fun _ i hi => ?_⟩
      rw [hsame rfl]
      exact update_of_ne (fun he => hi (congrArg some he.symm)) _ _
    | true =>
      obtain ⟨b', t', ht', hinv', _⟩ := releaseResource_ok hinv (hparent rfl)
      exact ⟨.ok, t', by simp [exec, checkRegion, ht, ht', outOf], hinv', nofun⟩
  | releaseRegion parent st n =>
    obtain ⟨b, t, ht, hinv, hsame⟩ := releaseRegion_ok parent st n h
    refine ⟨outOf b, t, by simp only [exec, ht, ok_bind], hinv, fun ho i _ => ?_⟩
    rw [hsame (outOf_conflict.mp ho)]

theorem enclosingMachine_inductive : enclosingMachine.Inductive Inv where
  init {s} h := by
    obtain ⟨hchildren, _⟩ := h
    have hnone : ∀ {c p}, ¬ Child s c p := fun {c p} hc => by
      rw [Child, hchildren] at hc
      cases hc
    refine ⟨fun p => ?_, fun hc => absurd hc hnone, fun hc => absurd hc hnone, fun hc => absurd hc hnone,
      ⟨fun _ => 0, fun hc => absurd hc hnone⟩, fun hc => absurd hc hnone⟩
    rw [hchildren]
    exact .nil
  step h hp := by
    obtain ⟨o, t, ht, hinv, _⟩ := h.returns hp.1 hp.2
    exact ⟨o, t, ht, hinv⟩

/-- If ranges handed over enclose their children, the tree is in order, and a conflict leaves it unchanged. -/
theorem tree_in_order (h : enclosingMachine.Reachable s) :
    Ordered s ∧ ∀ op, enclosingMachine.enabled s op →
      ∃ o t, exec s op = .ok (o, t) ∧ Ordered t ∧ (o = .conflict → ∀ i, op.handed ≠ some i → t.res i = s.res i) := by
  have hinv := enclosingMachine_inductive.reachable h
  refine ⟨hinv.ordered, fun op hp => ?_⟩
  obtain ⟨o, t, ht, hinv', hsame⟩ := hinv.returns hp.1 hp.2
  exact ⟨o, t, ht, hinv'.ordered, hsame⟩

/-! ## A resource that is requested again -/

def memory : State where
  res i := ⟨0, if i = 0 then 100 else 0, false, none, []⟩
  known := []

theorem memory_init : machine.init memory := ⟨fun _ => rfl, rfl⟩

def after (s : State) (op : Op) : State :=
  match exec s op with
  | .ok (_, t) => t
  | .error _ => s

def nested : State := after (after memory (.request 0 1 0 9 false)) (.request 1 2 2 3 false)

theorem spare_of_top {s : State} {root new : Id} (hnew : ∀ p, ¬ Child s new p) (hroot : ∀ p, ¬ Child s root p)
    (hne : root ≠ new) : Spare s root new := by
  refine ⟨hnew, fun h => ?_⟩
  rcases ReflTransGen.cases_head h with he | ⟨p, hp, _⟩
  · exact hne he
  · exact hroot p hp

theorem child_memory {c p : Id} : ¬ Child memory c p := by simp [Child, memory]

theorem child_one {c p : Id} : Child (after memory (.request 0 1 0 9 false)) c p ↔ c = 1 ∧ p = 0 := by
  have h : (after memory (.request 0 1 0 9 false)).res =
      update (update (update memory.res 1 ⟨0, 9, false, none, []⟩) 0 ⟨0, 100, false, none, [1]⟩) 1
        ⟨0, 9, false, some 0, []⟩ := rfl
  rw [Child, h]
  by_cases h1 : p = 1
  · simp [h1]
  · by_cases h0 : p = 0
    · simp [h0]
    · simp [h1, h0, memory]

theorem nested_res : nested.res =
    update (update (update (after memory (.request 0 1 0 9 false)).res 2 ⟨2, 3, false, none, []⟩) 1
      ⟨0, 9, false, some 0, [2]⟩) 2 ⟨2, 3, false, some 1, []⟩ := rfl

theorem nested_reachable : enclosingMachine.Reachable nested := by
  have h0 : enclosingMachine.Reachable memory := .init memory_init
  have hp1 : (Op.request 0 1 0 9 false).Permitted memory :=
    spare_of_top (fun _ => child_memory) (fun _ => child_memory) (by decide)
  have h1 := h0.step (l := Op.request 0 1 0 9 false) (o := .ok) ⟨hp1, fun c hc => absurd hc child_memory⟩ rfl
  have hp2 : (Op.request 1 2 2 3 false).Permitted (after memory (.request 0 1 0 9 false)) := by
    refine ⟨fun p hc => ?_, fun h => ?_⟩
    · exact absurd (child_one.mp hc).1 (by decide)
    rcases ReflTransGen.cases_head h with he | ⟨p, hp, hr⟩
    · exact absurd he (by decide)
    rw [(child_one.mp hp).2] at hr
    rcases ReflTransGen.cases_head hr with he | ⟨q, hq, _⟩
    · exact absurd he (by decide)
    · exact absurd (child_one.mp hq).1 (by decide)
  exact h1.step (l := Op.request 1 2 2 3 false) (o := .ok)
    ⟨hp2, fun c hc => absurd (child_one.mp hc).2 (by decide)⟩ rfl

theorem nested_in_order : Child nested 2 1 ∧ Ordered nested :=
  ⟨by simp [Child, nested_res], (tree_in_order nested_reachable).1⟩

def moved : State := after (after nested (.release 1)) (.request 0 1 20 29 false)

theorem released_res : (after nested (.release 1)).res =
    update (update nested.res 0 ⟨0, 100, false, none, []⟩) 1 ⟨0, 9, false, none, [2]⟩ := rfl

theorem moved_out_of_order : machine.Reachable moved ∧ ¬ Ordered moved := by
  have hnested : machine.Reachable nested := by
    obtain ⟨s0, es, h₀, hr⟩ := nested_reachable
    exact ⟨s0, es, h₀, hr.mono rfl fun he => he.1⟩
  have hp1 : (Op.release 1).Permitted nested := by
    show (nested.res 1).parent ≠ none
    simp [nested_res]
  have h₁ := hnested.step (l := Op.release 1) (t := after nested (.release 1)) (o := .ok) hp1 rfl
  have hchild : ∀ {c p}, Child (after nested (.release 1)) c p → c = 2 := fun {c p} hc => by
    rw [Child, released_res] at hc
    by_cases h1 : p = 1
    · simpa [h1] using hc
    by_cases h0 : p = 0
    · simp [h0] at hc
    by_cases h2 : p = 2
    · simp [h2, nested_res] at hc
    · have hold : c ∈ ((after memory (.request 0 1 0 9 false)).res p).children := by
        simpa [h1, h0, h2, nested_res] using hc
      exact absurd (child_one.mp hold).2 h0
  have hp2 : (Op.request 0 1 20 29 false).Permitted (after nested (.release 1)) :=
    spare_of_top (fun p hc => absurd (hchild hc) (by decide)) (fun p hc => absurd (hchild hc) (by decide)) (by decide)
  refine ⟨h₁.step (l := Op.request 0 1 20 29 false) (o := .ok) hp2 rfl, fun h => ?_⟩
  have hin := h.inside (show Child moved 2 1 from List.mem_cons_self)
  exact absurd hin.1 (by decide)

end G3Mod.Resource
