import Mathlib.Algebra.Order.Group.Nat
import G3Mod.Lib.ListSum
import G3Mod.Resource.Model

/-!
# The order of the tree
-/

namespace G3Mod.Resource

open Function Relation

variable {s s' : State} {i j c p q root new parent : Id} {l pre run post : List Id} {st en : Nat} {o : Option Id}

/-! ## Fields -/

section Fields

@[simp, grind =] theorem setParent_start : ((setParent i o s).res j).start = (s.res j).start := by
  by_cases h : j = i <;> simp [setParent, h]

@[simp, grind =] theorem setParent_end : ((setParent i o s).res j).end_ = (s.res j).end_ := by
  by_cases h : j = i <;> simp [setParent, h]

@[simp, grind =] theorem setParent_children : ((setParent i o s).res j).children = (s.res j).children := by
  by_cases h : j = i <;> simp [setParent, h]

@[simp, grind =] theorem setParent_parent : ((setParent i o s).res j).parent = if j = i then o else (s.res j).parent := by
  by_cases h : j = i <;> simp [setParent, h]

@[simp, grind =] theorem setParent_known : (setParent i o s).known = s.known := rfl

@[simp, grind =] theorem setChildren_start : ((setChildren i l s).res j).start = (s.res j).start := by
  by_cases h : j = i <;> simp [setChildren, h]

@[simp, grind =] theorem setChildren_end : ((setChildren i l s).res j).end_ = (s.res j).end_ := by
  by_cases h : j = i <;> simp [setChildren, h]

@[simp, grind =] theorem setChildren_parent : ((setChildren i l s).res j).parent = (s.res j).parent := by
  by_cases h : j = i <;> simp [setChildren, h]

@[simp, grind =] theorem setChildren_children : ((setChildren i l s).res j).children = if j = i then l else (s.res j).children := by
  by_cases h : j = i <;> simp [setChildren, h]

@[simp, grind =] theorem setChildren_known : (setChildren i l s).known = s.known := rfl

@[simp, grind =] theorem setRange_start : ((setRange i st en s).res j).start = if j = i then st else (s.res j).start := by
  by_cases h : j = i <;> simp [setRange, h]

@[simp, grind =] theorem setRange_end : ((setRange i st en s).res j).end_ = if j = i then en else (s.res j).end_ := by
  by_cases h : j = i <;> simp [setRange, h]

@[simp, grind =] theorem setRange_parent : ((setRange i st en s).res j).parent = (s.res j).parent := by
  by_cases h : j = i <;> simp [setRange, h]

@[simp, grind =] theorem setRange_children : ((setRange i st en s).res j).children = (s.res j).children := by
  by_cases h : j = i <;> simp [setRange, h]

theorem setParents_spec : ((setParents l p s).res j).start = (s.res j).start ∧
    ((setParents l p s).res j).end_ = (s.res j).end_ ∧ ((setParents l p s).res j).children = (s.res j).children ∧
    ((setParents l p s).res j).parent = (if j ∈ l then some p else (s.res j).parent) ∧
    (setParents l p s).known = s.known := by
  induction l generalizing s with
  | nil => simp [setParents]
  | cons i l ih =>
    have h := ih (s := setParent i (some p) s)
    simp only [setParents, List.foldl_cons] at h ⊢
    obtain ⟨h1, h2, h3, h4, h5⟩ := h
    rw [h1, h2, h3, h4, h5]
    refine ⟨setParent_start, setParent_end, setParent_children, ?_, rfl⟩
    by_cases hj : j ∈ l <;> by_cases hi : j = i <;> simp [hj, hi]

end Fields

/-! ## The invariant -/

/-- The children of every resource are in order, disjoint, inside of it, and point back to it. -/
structure Inv (s : State) : Prop where
  sorted : ∀ p, (s.res p).children.Pairwise fun a b => (s.res a).end_ < (s.res b).start
  inside : ∀ {c p}, Child s c p → (s.res p).start ≤ (s.res c).start ∧ (s.res c).end_ ≤ (s.res p).end_
  valid : ∀ {c p}, Child s c p → (s.res c).start ≤ (s.res c).end_
  back : ∀ {c p}, Child s c p → (s.res c).parent = some p
  ranked : ∃ rank : Id → Nat, ∀ {c p}, Child s c p → rank c < rank p
  known : ∀ {c p}, Child s c p → c ∈ s.known

theorem Inv.unique (h : Inv s) (hp : Child s c p) (hq : Child s c q) : p = q :=
  Option.some.inj ((h.back hp).symm.trans (h.back hq))

theorem Inv.nodup (h : Inv s) (p : Id) : (s.res p).children.Nodup := by
  refine List.Pairwise.imp_of_mem (fun {a b} ha hb hlt hab => ?_) (h.sorted p)
  have := h.valid (show Child s a p from ha)
  rw [← hab] at hlt
  omega

theorem Inv.irrefl (h : Inv s) (i : Id) : ¬ TransGen (Child s) i i := by
  obtain ⟨rank, hr⟩ := h.ranked
  intro hi
  have hlt : ∀ {a b}, TransGen (Child s) a b → rank a < rank b := fun {a b} hab => by
    induction hab with
    | single hc => exact hr hc
    | tail _ hc ih => exact Nat.lt_trans ih (hr hc)
  exact Nat.lt_irrefl _ (hlt hi)

theorem Inv.within (h : Inv s) (hp : ReflTransGen (Child s) p root) :
    (s.res root).start ≤ (s.res p).start ∧ (s.res p).end_ ≤ (s.res root).end_ := by
  induction hp with
  | refl => exact ⟨Nat.le_refl _, Nat.le_refl _⟩
  | tail _ hc ih =>
    have := h.inside hc
    omega

theorem Inv.spare_below (h : Inv s) (hp : ReflTransGen (Child s) p root) (hs : Spare s root new) : Spare s p new := by
  refine ⟨hs.1, fun hn => ?_⟩
  have hright : Relator.RightUnique (Child s) := fun _ _ _ hp hq => h.unique hp hq
  rcases ReflTransGen.total_of_right_unique hright hp hn with hrn | hnr
  · exact hs.2 hrn
  · rcases ReflTransGen.cases_head hnr with rfl | ⟨q, hq, _⟩
    · exact hs.2 .refl
    · exact hs.1 q hq

open Classical in
noncomputable def below (s : State) (p : Id) : List Id := s.known.filter fun i => decide (TransGen (Child s) i p)

theorem below_length_le (s : State) (p : Id) : (below s p).length ≤ s.known.length := List.length_filter_le _ _

theorem Inv.below_lt (h : Inv s) (hc : Child s c p) : (below s c).length < (below s p).length := by
  classical
  unfold below
  rw [← List.countP_eq_length_filter, ← List.countP_eq_length_filter]
  refine Lib.countP_lt_countP (fun i _ hi => ?_) (h.known hc) ?_ ?_
  · rw [decide_eq_true_eq] at hi ⊢
    exact hi.tail hc
  · simpa using h.irrefl c
  · simpa using TransGen.single hc

theorem Inv.mono (h : Inv s) (hsub : ∀ p, ((s'.res p).children).Sublist (s.res p).children)
    (hsame : ∀ {c p}, Child s' c p → (s'.res c).start = (s.res c).start ∧ (s'.res c).end_ = (s.res c).end_ ∧
      (s'.res c).parent = (s.res c).parent)
    (hin : ∀ {c p}, Child s' c p → (s'.res p).start ≤ (s'.res c).start ∧ (s'.res c).end_ ≤ (s'.res p).end_)
    (hknown : ∀ c ∈ s.known, c ∈ s'.known) : Inv s' := by
  have hchild : ∀ {c p}, Child s' c p → Child s c p := fun {c p} hc => (hsub p).subset hc
  refine ⟨fun p => ?_, hin, fun hc => ?_, fun hc => ?_, ?_, fun hc => hknown _ (h.known (hchild hc))⟩
  · refine List.Pairwise.imp_of_mem (fun {a b} ha hb hlt => ?_) ((h.sorted p).sublist (hsub p))
    rw [(hsame (show Child s' a p from ha)).2.1, (hsame (show Child s' b p from hb)).1]
    exact hlt
  · obtain ⟨h1, h2, -⟩ := hsame hc
    rw [h1, h2]
    exact h.valid (hchild hc)
  · rw [(hsame hc).2.2]
    exact h.back (hchild hc)
  · obtain ⟨rank, hr⟩ := h.ranked
    exact ⟨rank, fun hc => hr (hchild hc)⟩

theorem Inv.setRange (h : Inv s) (hnew : ∀ p, ¬ Child s new p)
    (hin : ∀ c, Child s c new → st ≤ (s.res c).start ∧ (s.res c).end_ ≤ en) : Inv (setRange new st en s) := by
  have hchild : ∀ {c p}, Child (Resource.setRange new st en s) c p ↔ Child s c p := by simp [Child]
  have hne : ∀ {c p}, Child s c p → c ≠ new := fun {c p} hc he => hnew p (he ▸ hc)
  refine h.mono (by simp) (fun hc => ?_) (fun {c p} hc => ?_) fun _ => id
  · simp [hne (hchild.mp hc)]
  · have := h.inside (hchild.mp hc)
    grind

theorem Inv.link (h : Inv s) (hl : (s.res root).children = pre ++ post)
    (hpre : ∀ a ∈ pre, (s.res a).end_ < (s.res new).start) (hpost : ∀ b ∈ post, (s.res new).end_ < (s.res b).start)
    (hv : (s.res new).start ≤ (s.res new).end_)
    (hin : (s.res root).start ≤ (s.res new).start ∧ (s.res new).end_ ≤ (s.res root).end_) (hs : Spare s root new)
    (hk : new ∈ s.known) : Inv (setParent new (some root) (setChildren root (pre ++ new :: post) s)) := by
  have hchild : ∀ {c p}, Child (setParent new (some root) (setChildren root (pre ++ new :: post) s)) c p ↔
      Child s c p ∨ c = new ∧ p = root := by grind [Child]
  have hne : ∀ {c p}, Child s c p → c ≠ new := fun {c p} hc he => hs.1 p (he ▸ hc)
  refine ⟨fun p => ?_, fun {c p} hc => ?_, fun {c p} hc => ?_, fun {c p} hc => ?_, ?_, fun {c p} hc => ?_⟩
  · simp only [setParent_children, setChildren_children, setParent_start, setChildren_start, setParent_end,
      setChildren_end]
    split
    · exact Lib.pairwise_insert (hl ▸ h.sorted root) hpre hpost
    · exact h.sorted p
  · simp only [setParent_start, setChildren_start, setParent_end, setChildren_end]
    rcases hchild.mp hc with hc | ⟨rfl, rfl⟩
    · exact h.inside hc
    · exact hin
  · simp only [setParent_start, setChildren_start, setParent_end, setChildren_end]
    rcases hchild.mp hc with hc | ⟨rfl, rfl⟩
    · exact h.valid hc
    · exact hv
  · rcases hchild.mp hc with hc | ⟨rfl, rfl⟩
    · simpa [hne hc] using h.back hc
    · simp
  · -- the root and what is above it move up by as much as the new resource needs
    obtain ⟨rank, hr⟩ := h.ranked
    classical
    refine ⟨fun i => if ReflTransGen (Child s) root i then rank i + rank new + 1 else rank i, fun {c p} hc => ?_⟩
    beta_reduce
    rcases hchild.mp hc with hc | ⟨rfl, rfl⟩
    · grind
    · rw [if_neg hs.2, if_pos .refl]
      omega
  · rcases hchild.mp hc with hc | ⟨rfl, rfl⟩
    · exact h.known hc
    · exact hk

theorem Inv.unlink (h : Inv s) : Inv (setChildren p ((s.res p).children.erase c) s) := by
  have hsub : ∀ q, ((setChildren p ((s.res p).children.erase c) s).res q).children.Sublist (s.res q).children := fun q => by
    rw [setChildren_children]
    split
    · next hq => exact hq ▸ List.erase_sublist
    · exact .refl _
  exact h.mono hsub (by simp) (fun {i q} hc => by simpa using h.inside ((hsub q).subset hc)) fun _ => id

theorem Inv.setParent (h : Inv s) (hi : ∀ p, ¬ Child s i p) : Inv (setParent i o s) := by
  have hchild : ∀ {c p}, Child (Resource.setParent i o s) c p ↔ Child s c p := by simp [Child]
  refine h.mono (by simp) (fun {c p} hc => ?_) (fun hc => by simpa using h.inside (hchild.mp hc)) fun _ => id
  have hne : c ≠ i := fun he => hi p (he ▸ hchild.mp hc)
  simp [hne]

theorem adopt_start : ((adopt parent new pre run post s).res j).start = (s.res j).start := by
  simp [adopt, setParents_spec.1]

theorem adopt_end : ((adopt parent new pre run post s).res j).end_ = (s.res j).end_ := by
  simp [adopt, setParents_spec.2.1]

theorem adopt_children : ((adopt parent new pre run post s).res j).children =
    if j = parent then pre ++ new :: post else if j = new then run else (s.res j).children := by
  simp only [adopt, setChildren_children, setParents_spec.2.2.1, setParent_children]

theorem adopt_parent (hnew : new ∉ run) : ((adopt parent new pre run post s).res j).parent =
    if j = new then some parent else if j ∈ run then some new else (s.res j).parent := by
  simp only [adopt, setChildren_parent, setParents_spec.2.2.2.1, setParent_parent]
  by_cases hj : j = new
  · rw [hj, if_neg hnew, if_pos rfl, if_pos rfl]
  · rw [if_neg hj, if_neg hj]

theorem adopt_known : (adopt parent new pre run post s).known = s.known := by
  simp [adopt, (setParents_spec (j := new)).2.2.2.2]

theorem Inv.adopt (h : Inv s) (hl : (s.res parent).children = pre ++ (run ++ post))
    (hpre : ∀ a ∈ pre, (s.res a).end_ < (s.res new).start) (hpost : ∀ b ∈ post, (s.res new).end_ < (s.res b).start)
    (hrun : ∀ c ∈ run, (s.res new).start ≤ (s.res c).start ∧ (s.res c).end_ ≤ (s.res new).end_)
    (hv : (s.res new).start ≤ (s.res new).end_)
    (hin : (s.res parent).start ≤ (s.res new).start ∧ (s.res new).end_ ≤ (s.res parent).end_) (hs : Spare s parent new)
    (hk : new ∈ s.known) : Inv (adopt parent new pre run post s) := by
  have hne : ∀ {c p}, Child s c p → c ≠ new := fun {c p} hc he => hs.1 p (he ▸ hc)
  have hpn : parent ≠ new := fun he => hs.2 (he ▸ .refl)
  have hmem : ∀ {c}, c ∈ run → Child s c parent := fun {c} hc => by
    rw [Child, hl]
    exact List.mem_append_right _ (List.mem_append_left _ hc)
  have hnr : new ∉ run := fun hn => hne (hmem hn) rfl
  have hsorted := h.sorted parent
  have hnd := h.nodup parent
  rw [hl] at hsorted hnd
  -- a child after the change is one before it, with another parent if it is in the run
  have hchild : ∀ {c p}, Child (Resource.adopt parent new pre run post s) c p →
      (c = new ∧ p = parent) ∨ (c ∈ run ∧ p = new) ∨ (Child s c p ∧ c ∉ run ∧ p ≠ new) := fun {c p} hc => by
    simp only [Child, adopt_children] at hc
    have := fun hc hr => @Inv.unique _ c p parent h hc (hmem hr)
    grind [Child]
  refine ⟨fun p => ?_, fun {c p} hc => ?_, fun {c p} hc => ?_, fun {c p} hc => ?_, ?_, fun {c p} hc => ?_⟩
  · simp only [adopt_children, adopt_start, adopt_end]
    split
    · exact Lib.pairwise_insert (hsorted.sublist (by simp)) hpre hpost
    · split
      · exact (List.pairwise_append.mp (List.pairwise_append.mp hsorted).2.1).1
      · exact h.sorted p
  · rw [adopt_start, adopt_start, adopt_end, adopt_end]
    rcases hchild hc with ⟨rfl, rfl⟩ | ⟨hr, rfl⟩ | ⟨hc, _, _⟩
    · exact hin
    · exact hrun c hr
    · exact h.inside hc
  · rw [adopt_start, adopt_end]
    rcases hchild hc with ⟨rfl, rfl⟩ | ⟨hr, rfl⟩ | ⟨hc, _, _⟩
    · exact hv
    · exact h.valid (hmem hr)
    · exact h.valid hc
  · rw [adopt_parent hnr]
    rcases hchild hc with ⟨rfl, rfl⟩ | ⟨hr, rfl⟩ | ⟨hc, hr, _⟩
    · rw [if_pos rfl]
    · rw [if_neg (hne (hmem hr)), if_pos hr]
    · rw [if_neg (hne hc), if_neg hr]
      exact h.back hc
  · -- the new resource goes between its parent and the run
    obtain ⟨rank, hr⟩ := h.ranked
    refine ⟨fun i => if i = new then 2 * rank parent + 1 else 2 * rank i + 2, fun {c p} hc => ?_⟩
    rcases hchild hc with ⟨rfl, rfl⟩ | ⟨hrun', rfl⟩ | ⟨hc, _, hp⟩ <;> grind
  · rw [adopt_known]
    rcases hchild hc with ⟨rfl, rfl⟩ | ⟨hr, rfl⟩ | ⟨hc, _, _⟩
    · exact hk
    · exact h.known (hmem hr)
    · exact h.known hc

end G3Mod.Resource
