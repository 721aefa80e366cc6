import G3Mod.Resource.Lemmas.Tree

/-!
# The calls keep the tree in order
-/

namespace G3Mod.Resource

open Function Relation Lib

variable {s s' : State} {i c p root new parent res old : Id} {l pre run post : List Id} {st en n fuel : Nat}

structure Fits (s : State) (root new : Id) : Prop where
  valid : (s.res new).start ≤ (s.res new).end_
  start : (s.res root).start ≤ (s.res new).start
  end_ : (s.res new).end_ ≤ (s.res root).end_

/-! ## `__request_resource` -/

theorem requestLoop_ok (hl : l.Pairwise fun a b => (s.res a).end_ < (s.res b).start)
    (hv : ∀ a ∈ l, (s.res a).start ≤ (s.res a).end_) (h : requestLoop st en s l = .ok (pre, post)) :
    l = pre ++ post ∧ (∀ a ∈ pre, (s.res a).end_ < st) ∧ ∀ b ∈ post, en < (s.res b).start := by
  induction l generalizing pre with
  | nil =>
    cases h
    exact ⟨rfl, nofun, nofun⟩
  | cons a l ih =>
    rw [requestLoop] at h
    split at h
    · grind
    split at h
    · cases hr : requestLoop st en s l with
      | error c => rw [hr] at h; cases h
      | ok r =>
        rw [hr] at h
        cases h
        grind
    · cases h

theorem requestLoop_error (h : requestLoop st en s l = .error c) :
    ∃ pre post, l = pre ++ c :: post ∧ (∀ a ∈ pre, (s.res a).end_ < st) ∧ (s.res c).start ≤ en ∧
      st ≤ (s.res c).end_ := by
  induction l with
  | nil => cases h
  | cons a l ih =>
    rw [requestLoop] at h
    split at h
    · cases h
    split at h
    · cases hr : requestLoop st en s l with
      | ok r => rw [hr] at h; cases h
      | error c' =>
        rw [hr] at h
        cases h
        obtain ⟨pre, post, rfl, hpre, hover⟩ := ih hr
        exact ⟨a :: pre, post, rfl, by grind, hover⟩
    · cases h
      exact ⟨[], l, rfl, nofun, by omega, by omega⟩

inductive Requested (s : State) (root new : Id) : Option Id × State → Prop
  | outside : ¬ Fits s root new → Requested s root new (some root, s)
  | conflict {c : Id} {pre post : List Id} : Fits s root new → (s.res root).children = pre ++ c :: post →
      (∀ a ∈ pre, (s.res a).end_ < (s.res new).start) → (s.res c).start ≤ (s.res new).end_ →
      (s.res new).start ≤ (s.res c).end_ → Requested s root new (some c, s)
  | linked {pre post : List Id} : Fits s root new → (s.res root).children = pre ++ post →
      (∀ a ∈ pre, (s.res a).end_ < (s.res new).start) → (∀ b ∈ post, (s.res new).end_ < (s.res b).start) →
      Requested s root new (none, setParent new (some root) (setChildren root (pre ++ new :: post) s))

theorem requestResource_requested (h : Inv s) (root new : Id) : Requested s root new (requestResource root new s) := by
  simp only [requestResource]
  split
  · exact .outside fun hf => by have := hf.valid; omega
  split
  · exact .outside fun hf => by have := hf.start; omega
  split
  · exact .outside fun hf => by have := hf.end_; omega
  have hf : Fits s root new := ⟨by omega, by omega, by omega⟩
  split
  next c hc =>
    obtain ⟨pre, post, hl, hpre, hc1, hc2⟩ := requestLoop_error hc
    exact .conflict hf hl hpre hc1 hc2
  next pre post hr =>
    obtain ⟨hl, hpre, hpost⟩ := requestLoop_ok (h.sorted root) (fun a ha => h.valid ha) hr
    exact .linked hf hl hpre hpost

theorem requestResource_inv (h : Inv s) (hs : Spare s root new) (hk : new ∈ s.known) :
    Inv (requestResource root new s).2 ∧ ((requestResource root new s).1 ≠ none → (requestResource root new s).2 = s) := by
  have hr := requestResource_requested h root new
  revert hr
  generalize requestResource root new s = q
  intro hr
  cases hr with
  | outside hf | conflict hf hl hpre hc1 hc2 => exact ⟨h, fun _ => rfl⟩
  | linked hf hl hpre hpost =>
    exact ⟨h.link hl hpre hpost hf.valid ⟨hf.start, hf.end_⟩ hs hk, fun hne => absurd rfl hne⟩

theorem releaseResource_ok (h : Inv s) (hp : (s.res old).parent ≠ none) :
    ∃ b s', releaseResource old s = .ok (b, s') ∧ Inv s' ∧ (b = false → s' = s) := by
  unfold releaseResource
  split
  · next hnone => exact absurd hnone hp
  rename_i p hsome
  split
  next hmem =>
    refine ⟨true, _, rfl, h.unlink.setParent fun q hq => ?_, nofun⟩
    simp only [Child, setChildren_children] at hq
    split at hq
    · exact (h.nodup p).not_mem_erase hq
    · next hne => exact hne (h.unique hq hmem)
  · exact ⟨false, s, rfl, h, fun _ => rfl⟩

/-! ## `__insert_resource` -/

inductive Descended (s : State) (root new : Id) : Descent × State → Prop
  | done {s' : State} : Inv s' → Descended s root new (.done, s')
  | outside : ¬ Fits s root new → Descended s root new (.conflict root, s)
  | stop {parent first : Id} {pre post : List Id} : ReflTransGen (Child s) parent root → Fits s parent new →
      (s.res parent).children = pre ++ first :: post → (∀ a ∈ pre, (s.res a).end_ < (s.res new).start) →
      (s.res first).start ≤ (s.res new).end_ → (s.res new).start ≤ (s.res first).end_ →
      Descended s root new (.stop parent first, s)

theorem descend_ok (fuel : Nat) (h : Inv s) (hs : Spare s root new) (hk : new ∈ s.known) (hf : (below s root).length < fuel) :
    ∃ r, descend new fuel root s = .ok r ∧ Descended s root new r := by
  induction fuel generalizing root with
  | zero => omega
  | succ fuel ih =>
    have hr := requestResource_requested h root new
    have hinv := (requestResource_inv h hs hk).1
    rw [descend]
    generalize requestResource root new s = q at hr hinv
    cases hr with
    | outside hout => exact ⟨_, if_pos rfl, .outside hout⟩
    | linked _ _ _ _ => exact ⟨_, rfl, .done hinv⟩
    | @conflict c pre post hfit hl hpre hc1 hc2 =>
      have hc : Child s c root := by
        rw [Child, hl]
        exact List.mem_append_right _ List.mem_cons_self
      have hne : c ≠ root := fun he => h.irrefl root (.single (he ▸ hc))
      simp only [if_neg hne]
      split
      · exact ⟨_, rfl, .stop .refl hfit hl hpre hc1 hc2⟩
      split
      · exact ⟨_, rfl, .stop .refl hfit hl hpre hc1 hc2⟩
      have hlt := h.below_lt hc
      obtain ⟨r, hr, hd⟩ := ih (h.spare_below (.single hc) hs) (by omega)
      refine ⟨r, hr, ?_⟩
      -- the range lies inside of the child, so that the descent does not end there
      have hfit' : Fits s c new := ⟨hfit.valid, by omega, by omega⟩
      cases hd with
      | done hi => exact .done hi
      | outside hout => exact absurd hfit' hout
      | stop hp hf' hl' hpre' h1 h2 => exact .stop (hp.tail hc) hf' hl' hpre' h1 h2

theorem coverLoop_ok (hl : l.Pairwise fun a b => (s.res a).end_ < (s.res b).start)
    (hv : ∀ a ∈ l, (s.res a).start ≤ (s.res a).end_) (h : coverLoop new s l = .ok (run, post)) :
    l = run ++ post ∧
      (∀ c ∈ run, (s.res new).start ≤ (s.res c).start ∧ (s.res c).end_ ≤ (s.res new).end_) ∧
      ∀ b ∈ post, (s.res new).end_ < (s.res b).start := by
  induction l generalizing run with
  | nil =>
    cases h
    exact ⟨rfl, nofun, nofun⟩
  | cons a l ih =>
    rw [coverLoop.eq_def] at h
    simp only at h
    split at h
    · cases h
    split at h
    · grind
    rename_i b rest
    split at h
    · grind
    cases hr : coverLoop new s (b :: rest) with
    | error c => rw [hr] at h; cases h
    | ok r =>
      rw [hr] at h
      cases h
      grind

theorem coverLoop_error (h : coverLoop new s l = .error c) :
    c ∈ l ∧ ((s.res c).start < (s.res new).start ∨ (s.res new).end_ < (s.res c).end_) := by
  induction l with
  | nil => cases h
  | cons a l ih =>
    rw [coverLoop.eq_def] at h
    simp only at h
    split at h
    next hout =>
      cases h
      exact ⟨List.mem_cons_self, hout⟩
    split at h
    · cases h
    rename_i b rest
    split at h
    · cases h
    cases hr : coverLoop new s (b :: rest) with
    | ok r => rw [hr] at h; cases h
    | error c' =>
      rw [hr] at h
      cases h
      obtain ⟨hmem, hout⟩ := ih hr
      exact ⟨List.mem_cons_of_mem _ hmem, hout⟩

theorem split_at_first {first : Id} (hl : l = pre ++ first :: post) (hpre : first ∉ pre) :
    l.takeWhile (· ≠ first) = pre ∧ l.dropWhile (· ≠ first) = first :: post := by
  subst hl
  induction pre with
  | nil => simp
  | cons a pre ih =>
    have ha : a ≠ first := fun he => hpre (he ▸ List.mem_cons_self)
    have := ih fun hm => hpre (List.mem_cons_of_mem _ hm)
    rw [List.cons_append, List.takeWhile_cons_of_pos (by simpa using ha),
      List.dropWhile_cons_of_pos (by simpa using ha), this.1]
    exact ⟨rfl, this.2⟩

inductive Inserted (s : State) (root new : Id) : Option Id × State → Prop
  | done {s' : State} : Inv s' → Inserted s root new (none, s')
  | outside : ¬ Fits s root new → Inserted s root new (some root, s)
  /-- a resource inside of the root reaches out of the new range -/
  | conflict {c : Id} : Fits s root new → c ≠ root → (s.res root).start ≤ (s.res c).start →
      (s.res c).end_ ≤ (s.res root).end_ → (s.res c).start < (s.res new).start ∨ (s.res new).end_ < (s.res c).end_ →
      Inserted s root new (some c, s)

theorem insertResource_ok (h : Inv s) (hs : Spare s root new) (hk : new ∈ s.known) :
    ∃ r, insertResource root new s = .ok r ∧ Inserted s root new r := by
  have hle := below_length_le s root
  obtain ⟨r, hr, hd⟩ := descend_ok (s.known.length + 1) h hs hk (by omega)
  unfold insertResource
  rw [hr, ok_bind]
  cases hd with
  | done hi => exact ⟨_, rfl, .done hi⟩
  | outside hout => exact ⟨_, rfl, .outside hout⟩
  | @stop parent first pre post hp hfit hl hpre h1 h2 =>
    have hfirst : first ∉ pre := fun hm => by
      have := hpre first hm
      omega
    obtain ⟨ht, hdrop⟩ := split_at_first hl hfirst
    have hsorted := h.sorted parent
    rw [hl, List.pairwise_append] at hsorted
    have hchild : ∀ {d}, d ∈ first :: post → Child s d parent := fun {d} hd => by
      rw [Child, hl]
      exact List.mem_append_right _ hd
    simp only [hdrop, ht]
    split
    next c hc =>
      obtain ⟨hmem, hout⟩ := coverLoop_error hc
      have hcp := hchild hmem
      have hw := h.within (.trans (.single hcp) hp)
      have hwp := h.within hp
      refine ⟨_, rfl, .conflict ⟨hfit.valid, ?_, ?_⟩ ?_ hw.1 hw.2 hout⟩
      · have := hfit.start
        omega
      · have := hfit.end_
        omega
      · rintro rfl
        exact h.irrefl c (.head' hcp hp)
    next run post' hc =>
      obtain ⟨hsplit, hrun, hpost⟩ := coverLoop_ok hsorted.2.1 (fun a ha => h.valid (hchild ha)) hc
      refine ⟨_, rfl, .done ?_⟩
      exact h.adopt (hsplit ▸ hl) hpre hpost hrun hfit.valid ⟨hfit.start, hfit.end_⟩ (h.spare_below hp hs) hk

theorem Spare.setRange (hs : Spare s root new) : Spare (setRange i st en s) root new := by
  have hchild : Child (Resource.setRange i st en s) = Child s := by
    funext c p
    simp [Child]
  unfold Spare
  rw [hchild]
  exact hs

theorem expandLoop_ok (h : Inv s) (hs : Spare s root new) (hk : new ∈ s.known)
    (hf : ((s.res new).start - (s.res root).start) + ((s.res root).end_ - (s.res new).end_) < fuel) :
    ∃ s', expandLoop root new fuel s = .ok s' ∧ Inv s' := by
  induction fuel generalizing s with
  | zero => omega
  | succ fuel ih =>
    obtain ⟨r, hr, hi⟩ := insertResource_ok h hs hk
    rw [expandLoop, hr, ok_bind]
    cases hi with
    | done hinv => exact ⟨_, rfl, hinv⟩
    | outside hout => exact ⟨s, if_pos rfl, h⟩
    | @conflict c hfit hne hc1 hc2 hout =>
      have hrn : root ≠ new := fun he => hs.2 (he ▸ .refl)
      simp only [if_neg hne]
      refine ih (h.setRange hs.1 fun d hd => ?_) hs.setRange hk ?_
      · have := h.inside hd
        split <;> split <;> omega
      · simp only [setRange_start, setRange_end, if_true, if_neg hrn]
        split <;> split <;> omega

theorem insertResourceExpandToFit_ok (h : Inv s) (hs : Spare s root new) (hk : new ∈ s.known) :
    ∃ s', insertResourceExpandToFit root new s = .ok s' ∧ Inv s' := by
  unfold insertResourceExpandToFit
  split
  · exact ⟨s, rfl, h⟩
  · exact expandLoop_ok h hs hk (Nat.lt_succ_self _)

theorem regionLoop_ok (h : Inv s) (hs : Spare s parent res) (hk : res ∈ s.known)
    (hf : (below s parent).length < fuel) :
    ∃ b s', regionLoop res fuel parent s = .ok (b, s') ∧ Inv s' ∧ (b = false → s' = s) ∧
      (b = true → (s'.res res).parent ≠ none) := by
  induction fuel generalizing parent with
  | zero => omega
  | succ fuel ih =>
    have hr := requestResource_requested h parent res
    have hinv := (requestResource_inv h hs hk).1
    rw [regionLoop]
    generalize requestResource parent res s = q at hr hinv
    cases hr with
    | outside hout => simp [*]
    | linked _ _ _ _ => exact ⟨true, _, rfl, hinv, by simp, fun _ => by simp⟩
    | @conflict c pre post hfit hl hpre hc1 hc2 =>
      have hc : Child s c parent := by
        rw [Child, hl]
        exact List.mem_append_right _ List.mem_cons_self
      simp only
      split
      · have hlt := h.below_lt hc
        exact ih (h.spare_below (.single hc) hs) (by omega)
      · exact ⟨false, s, rfl, h, fun _ => rfl, by simp⟩

theorem Inv.newRegion (h : Inv s) (hr : ∀ p, ¬ Child s res p) : Inv (newRegion res st n s) := by
  have hne : ∀ {c p}, Child s c p → c ≠ res := fun {c p} hc he => hr p (he ▸ hc)
  have hchild : ∀ {c p}, Child (Resource.newRegion res st n s) c p → Child s c p ∧ p ≠ res := fun {c p} hc => by
    simp only [Child, Resource.newRegion, update_apply] at hc
    split at hc
    · cases hc
    · next hp => exact ⟨hc, hp⟩
  have hsame : ∀ {c}, c ≠ res → (Resource.newRegion res st n s).res c = s.res c := fun hc => update_of_ne hc _ _
  refine h.mono (fun p => ?_) (fun hc => ?_) (fun hc => ?_) fun _ => List.mem_cons_of_mem _
  · by_cases hp : p = res
    · simp [hp, Resource.newRegion]
    · rw [hsame hp]
  · simp [hsame (hne (hchild hc).1)]
  · rw [hsame (hchild hc).2, hsame (hne (hchild hc).1)]
    exact h.inside (hchild hc).1

theorem spare_newRegion (hr : ∀ p, ¬ Child s res p) (hne : parent ≠ res) :
    Spare (newRegion res st n s) parent res := by
  have hnone : ∀ c, ¬ Child (newRegion res st n s) c res := fun c hc => by simp [Child, newRegion] at hc
  refine ⟨fun p hp => ?_, by grind⟩
  by_cases he : p = res
  · exact hnone res (he ▸ hp)
  · exact hr p (by simpa [Child, newRegion, update_of_ne he] using hp)

theorem requestRegion_ok (st n : Nat) (h : Inv s) (hr : ∀ p, ¬ Child s res p) (hne : parent ≠ res) :
    ∃ b s', requestRegion parent st n res s = .ok (b, s') ∧ Inv s' ∧ (b = false → s' = newRegion res st n s) ∧
      (b = true → (s'.res res).parent ≠ none) := by
  refine regionLoop_ok (h.newRegion hr) (spare_newRegion hr hne) List.mem_cons_self ?_
  exact Nat.lt_of_le_of_lt (below_length_le _ _) (Nat.lt_succ_self _)

theorem releaseLoop_ok (h : Inv s) (hf : (below s parent).length < fuel) :
    ∃ b s', releaseLoop st en fuel parent s = .ok (b, s') ∧ Inv s' ∧ (b = false → s' = s) := by
  induction fuel generalizing parent with
  | zero => omega
  | succ fuel ih =>
    rw [releaseLoop]
    split
    · exact ⟨false, s, rfl, h, fun _ => rfl⟩
    rename_i res hres
    split
    · have hlt := h.below_lt (show Child s res parent from List.mem_of_find?_eq_some hres)
      exact ih (by omega)
    · split
      · exact ⟨false, s, rfl, h, fun _ => rfl⟩
      · exact ⟨true, _, rfl, h.unlink, nofun⟩

theorem releaseRegion_ok (parent : Id) (st n : Nat) (h : Inv s) :
    ∃ b s', releaseRegion parent st n s = .ok (b, s') ∧ Inv s' ∧ (b = false → s' = s) :=
  releaseLoop_ok h (Nat.lt_succ_of_le (below_length_le s parent))

end G3Mod.Resource
