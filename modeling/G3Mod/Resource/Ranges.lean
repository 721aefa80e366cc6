import Mathlib.Algebra.Order.BigOperators.Group.List
import G3Mod.Resource.Theorems

/-!
# Ranges that are changed or split

`adjust_resource` gives a resource of the tree another range, and `reserve_region_with_split` fills the gaps between
the children of a resource.
-/

namespace G3Mod.Resource

open Function Relation Lib

variable {s t : State} {res c p root : Id} {l pre post : List Id} {start size st en : Nat}

/-! ## `adjust_resource` -/

/-- Whether it returns 0. The neighbours of the resource are looked up on the list of its parent. -/
def adjustResource (res : Id) (start size : Nat) (s : State) : Except Bug (Bool × State) :=
  let end_ := pred (wrap (start + size))
  match (s.res res).parent with
  | none => .error .nullParent
  | some parent =>
    let l := (s.res parent).children
    if start < (s.res parent).start ∨ (s.res parent).end_ < end_ then .ok (false, s)
    else if ∃ tmp ∈ (s.res res).children, (s.res tmp).start < start ∨ end_ < (s.res tmp).end_ then .ok (false, s)
    else if ∃ tmp ∈ (l.dropWhile (· ≠ res)).tail.head?, (s.res tmp).start ≤ end_ then .ok (false, s)
    else if ∃ tmp ∈ (l.takeWhile (· ≠ res)).getLast?, start ≤ (s.res tmp).end_ then .ok (false, s)
    else .ok (true, setRange res start end_ s)

theorem Inv.adjust (h : Inv s) (hl : (s.res p).children = pre ++ res :: post)
    (hpre : ∀ a ∈ pre, (s.res a).end_ < st) (hpost : ∀ b ∈ post, en < (s.res b).start) (hv : st ≤ en)
    (hin : (s.res p).start ≤ st ∧ en ≤ (s.res p).end_)
    (hch : ∀ c, Child s c res → st ≤ (s.res c).start ∧ (s.res c).end_ ≤ en) : Inv (Resource.setRange res st en s) := by
  have hres : Child s res p := by simp [Child, hl]
  have hnd := h.nodup p
  have hchild : ∀ {c q}, Child (Resource.setRange res st en s) c q ↔ Child s c q := by simp [Child]
  have huniq : ∀ {q}, Child s res q → q = p := fun hq => h.unique hq hres
  refine ⟨fun q => ?_, fun {c q} hc => ?_, fun {c q} hc => ?_, fun {c q} hc => ?_, ?_, fun hc => h.known (hchild.mp hc)⟩
  · rw [setRange_children]
    by_cases hq : q = p
    · have hsorted := h.sorted p
      rw [hl] at hnd hsorted
      subst hq
      rw [hl]
      have hrest : ∀ a ∈ pre ++ post, a ≠ res := by grind
      refine pairwise_insert ((hsorted.sublist (by simp)).imp_of_mem fun ha hb hlt => ?_) (fun a ha => ?_) fun b hb => ?_
      · simpa [hrest _ ha, hrest _ hb] using hlt
      · simpa [hrest a (by simp [ha])] using hpre a ha
      · simpa [hrest b (by simp [hb])] using hpost b hb
    · have hnot : ∀ a ∈ (s.res q).children, a ≠ res := fun a ha he => hq (huniq (he ▸ ha))
      refine (h.sorted q).imp_of_mem fun ha hb hlt => ?_
      simpa [hnot _ ha, hnot _ hb] using hlt
  · have hc := hchild.mp hc
    have := h.inside hc
    have := hch c
    grind
  · have := h.valid (hchild.mp hc)
    grind
  · simpa using h.back (hchild.mp hc)
  · obtain ⟨rank, hr⟩ := h.ranked
    exact ⟨rank, fun hc => hr (hchild.mp hc)⟩

theorem adjustResource_cases (h : Inv s) (hc : Child s res p) (start size : Nat) :
    adjustResource res start size s = .ok (false, s) ∨
    adjustResource res start size s = .ok (true, setRange res start (pred (wrap (start + size))) s) ∧
      (start ≤ pred (wrap (start + size)) → Inv (setRange res start (pred (wrap (start + size))) s)) := by
  obtain ⟨pre, post, hl⟩ := List.append_of_mem hc
  have hnd := h.nodup p
  have hsorted := h.sorted p
  rw [hl] at hnd hsorted
  have hsplit := split_at_first (rfl : pre ++ res :: post = _) (by grind : res ∉ pre)
  unfold adjustResource
  simp only [h.back hc, hl, hsplit.1, hsplit.2, List.tail_cons]
  split
  · exact .inl rfl
  split
  · exact .inl rfl
  split
  · exact .inl rfl
  split
  · exact .inl rfl
  rename_i hpar hch hpost hpre
  refine .inr ⟨rfl, fun hv => h.adjust hl (fun a ha => ?_) (fun b hb => ?_) hv (by omega) fun c hc => ?_⟩
  · -- the last of those in front is the one that ends last
    rcases List.eq_nil_or_concat pre with rfl | ⟨front, last, rfl⟩
    · cases ha
    have := @h.valid last p
    grind [Child]
  · obtain ⟨-, hafter, -⟩ := List.pairwise_append.mp hsorted
    cases post with
    | nil => cases hb
    | cons b' post =>
      have hv' := h.valid (show Child s b' p by simp [Child, hl])
      have hlt : pred (wrap (start + size)) < (s.res b').start := by simpa using hpost
      rcases List.mem_cons.mp hb with rfl | hb
      · exact hlt
      · have := List.rel_of_pairwise_cons hafter.of_cons hb
        omega
  · have : ¬ ((s.res c).start < start ∨ _ < (s.res c).end_) := fun hout => hch ⟨c, hc, hout⟩
    omega

theorem nested_inv : Inv nested := enclosingMachine_inductive.reachable nested_reachable

theorem nested_child : Child nested 2 1 := by simp [Child, nested_res]

/-- A resource from `kzalloc`, filled in by `__reserve_region_with_split`. -/
def newBusy (res : Id) (start end_ : Nat) (s : State) : State :=
  setRange res start end_ (newRegion res 0 0 s)

/-- `__reserve_region_with_split`. `kzalloc` says which memory it gets, `fuel` bounds the depth of the recursion. -/
def reserveWithSplit (kzalloc : State → Id) (root : Id) : Nat → Nat → Nat → State → Except Bug State
  | 0, _, _, _ => .error .loops
  | fuel + 1, start, end_, s =>
    let res := kzalloc s
    match requestResource root res (newBusy res start end_ s) with
    | (none, s) => .ok s
    | (some conflict, s) =>
      if (s.res conflict).start ≤ start ∧ end_ ≤ (s.res conflict).end_ then .ok s
      else
        (if start < (s.res conflict).start then reserveWithSplit kzalloc root fuel start (pred (s.res conflict).start) s
          else .ok s) >>= fun s =>
        if (s.res conflict).end_ < end_ then reserveWithSplit kzalloc root fuel (wrap ((s.res conflict).end_ + 1)) end_ s
        else .ok s

section Split

variable {kzalloc : State → Id} {fuel : Nat}

theorem newBusy_same {i : Id} (hi : i ≠ res) (st en : Nat) (s : State) : (newBusy res st en s).res i = s.res i := by
  simp [newBusy, setRange, newRegion, update_of_ne hi]

theorem newBusy_range (res : Id) (st en : Nat) (s : State) :
    ((newBusy res st en s).res res).start = st ∧ ((newBusy res st en s).res res).end_ = en := by
  simp [newBusy]

def Supplies (kzalloc : State → Id) (root : Id) : Prop := ∀ s, kzalloc s ∉ s.known ∧ kzalloc s ≠ root

/-- The conflict is the root itself, and the part of the region outside of it is tried again and again. -/
theorem reserveWithSplit_outside (hk : Supplies kzalloc root)
    (hout : st < (s.res root).start ∨ (s.res root).end_ < en) :
    reserveWithSplit kzalloc root fuel st en s = .error .loops := by
  induction fuel generalizing st en s with
  | zero => rfl
  | succ fuel ih =>
    have hroot := newBusy_same (hk s).2.symm st en s
    have hreq : requestResource root (kzalloc s) (newBusy (kzalloc s) st en s) = (some root, newBusy (kzalloc s) st en s) := by
      simp only [requestResource, newBusy_range, hroot]
      grind
    rw [reserveWithSplit]
    simp only [hreq, hroot]
    rw [if_neg (by omega)]
    by_cases hst : st < (s.res root).start
    · rw [if_pos hst, ih (.inl (hroot ▸ hst))]
      rfl
    · rw [if_neg hst, ok_bind, hroot, if_pos (by omega)]
      exact ih (.inr (by rw [hroot]; omega))

/-- From `lo` up to `hi` the root is covered by its children, of which the old ones are unchanged. -/
structure Reserved (root : Id) (lo hi : Nat) (s t : State) : Prop where
  inv : Inv t
  start : (t.res root).start = (s.res root).start
  end_ : (t.res root).end_ = (s.res root).end_
  covered : ∀ x, lo ≤ x → x < hi → (s.res root).start ≤ x → x ≤ (s.res root).end_ →
    ∃ c, Child t c root ∧ (t.res c).start ≤ x ∧ x ≤ (t.res c).end_
  kept : ∀ c, Child s c root → Child t c root ∧ t.res c = s.res c

theorem Reserved.refl (h : Inv s) (hle : en ≤ st) : Reserved root st en s s :=
  ⟨h, rfl, rfl, fun x _ _ => by omega, fun _ hc => ⟨hc, rfl⟩⟩

theorem Reserved.around {lo hi : Nat} {s1 : State} (h1 : Reserved root lo (s.res c).start s s1)
    (h2 : Reserved root ((s.res c).end_ + 1) hi s1 t) (hc : Child s c root) : Reserved root lo hi s t := by
  have hrange : (t.res root).start = (s.res root).start ∧ (t.res root).end_ = (s.res root).end_ :=
    ⟨h2.start.trans h1.start, h2.end_.trans h1.end_⟩
  have hkept : ∀ {k}, Child s1 k root → Child t k root ∧ t.res k = s1.res k := fun {k} => h2.kept k
  refine ⟨h2.inv, hrange.1, hrange.2, fun x hlo hhi hst hen => ?_, fun k hk => ?_⟩
  · by_cases hx : x < (s.res c).start
    · obtain ⟨k, hk, hin⟩ := h1.covered x hlo hx hst hen
      exact ⟨k, (hkept hk).1, by rwa [(hkept hk).2]⟩
    by_cases hx' : (s.res c).end_ < x
    · exact h2.covered x hx' hhi (h1.start ▸ hst) (h1.end_ ▸ hen)
    · obtain ⟨hc1, he⟩ := h1.kept c hc
      refine ⟨c, (hkept hc1).1, ?_⟩
      rw [(hkept hc1).2, he]
      omega
  · obtain ⟨hk1, he⟩ := h1.kept k hk
    exact ⟨(hkept hk1).1, (hkept hk1).2.trans he⟩

theorem reserveWithSplit_inside (hk : Supplies kzalloc root) (h : Inv s) (hv : st ≤ en) (hst : (s.res root).start ≤ st)
    (hen : en ≤ (s.res root).end_) (hw : en < 2 ^ 32) (hf : en - st < fuel) :
    ∃ t, reserveWithSplit kzalloc root fuel st en s = .ok t ∧ Reserved root st (en + 1) s t := by
  induction fuel generalizing st en s with
  | zero => omega
  | succ fuel ih =>
    obtain ⟨hfresh, hne⟩ := hk s
    have hspare : ∀ p, ¬ Child s (kzalloc s) p := fun p hc => hfresh (h.known hc)
    have hroot := newBusy_same hne.symm st en s
    have hinv : Inv (newBusy (kzalloc s) st en s) := by
      refine (h.newRegion hspare).setRange (fun p hc => ?_) fun c hc => ?_
      · exact (spare_newRegion hspare hne.symm).1 p hc
      · simp [Child, newRegion] at hc
    -- the children of the root are the same with the new resource, which is not among them
    have hsame : ∀ {c}, Child s c root → (newBusy (kzalloc s) st en s).res c = s.res c := fun {c} hc =>
      newBusy_same (show c ≠ kzalloc s from fun he => hspare root (he ▸ hc)) st en s
    have hchild : ∀ {c}, Child (newBusy (kzalloc s) st en s) c root ↔ Child s c root := by simp [Child, hroot]
    obtain ⟨hstart, hend⟩ := newBusy_range (kzalloc s) st en s
    have hr := requestResource_requested hinv root (kzalloc s)
    have hinv' := (requestResource_inv hinv (spare_newRegion hspare hne.symm).setRange List.mem_cons_self).1
    rw [reserveWithSplit]
    generalize newBusy (kzalloc s) st en s = b at *
    generalize requestResource root (kzalloc s) b = q at hr hinv'
    have hback : ∀ {t}, Reserved root st (en + 1) b t → Reserved root st (en + 1) s t := fun ht =>
      ⟨ht.inv, hroot ▸ ht.start, hroot ▸ ht.end_, hroot ▸ ht.covered, fun k hk => hsame hk ▸ ht.kept k (hchild.mpr hk)⟩
    cases hr with
    | outside hfit => exact absurd ⟨by omega, by rw [hroot]; omega, by rw [hroot]; omega⟩ hfit
    | linked hfit hl hpre hpost =>
      refine ⟨_, rfl, hback ⟨hinv', by simp, by simp, fun x h1 h2 _ _ => ⟨kzalloc s, by simp [Child], ?_⟩, fun c hc => ?_⟩⟩
      · simp only [setParent_start, setChildren_start, setParent_end, setChildren_end]
        omega
      · have hcr : c ≠ root := fun he => hinv.irrefl root (.single (he ▸ hc))
        have hck : c ≠ kzalloc s := fun he => hspare root (he ▸ hchild.mp hc)
        rw [Child, hl] at hc
        refine ⟨by simpa [Child] using (List.mem_append.mp hc).imp_right .inr, ?_⟩
        simp [setParent, setChildren, update_of_ne hck, update_of_ne hcr]
    | @conflict c pre post hfit hl hpre hc1 hc2 =>
      have hc : Child b c root := by simp [Child, hl]
      have hin := hinv.inside hc
      dsimp only
      split
      · exact ⟨_, rfl, hback ⟨hinv, rfl, rfl, fun x _ _ _ _ => ⟨c, hc, by omega⟩, fun _ hk => ⟨hk, rfl⟩⟩⟩
      have hfirst : ∃ t, (if st < (b.res c).start then reserveWithSplit kzalloc root fuel st (pred (b.res c).start) b
          else .ok b) = .ok t ∧ Reserved root st (b.res c).start b t := by
        split
        · have hpred : pred (b.res c).start = (b.res c).start - 1 := by unfold pred wrap; omega
          rw [hpred]
          obtain ⟨t, ht, hres⟩ := @ih b st ((b.res c).start - 1) hinv (by omega) (by rwa [hroot])
            (by rw [hroot]; omega) (by omega) (by omega)
          exact ⟨t, ht, by rwa [Nat.sub_add_cancel (by omega)] at hres⟩
        · exact ⟨b, rfl, .refl hinv (by omega)⟩
      obtain ⟨t, ht, hres⟩ := hfirst
      rw [ht, ok_bind, (hres.kept c hc).2]
      split
      · have hwrap : wrap ((b.res c).end_ + 1) = (b.res c).end_ + 1 := Nat.mod_eq_of_lt (by omega)
        have := hres.start
        have := hres.end_
        rw [hwrap]
        obtain ⟨t', ht', hres'⟩ := @ih t ((b.res c).end_ + 1) en hres.inv (by omega) (by grind) (by grind) hw (by omega)
        exact ⟨t', ht', hback (hres.around hres' hc)⟩
      · exact ⟨t, rfl, hback (hres.around (.refl hres.inv (by omega)) hc)⟩

/-- The recursion ends and covers the region within the root exactly when the region does not reach out of it. -/
theorem split_covers_iff (h : Inv s) (hk : Supplies kzalloc root) (hv : st ≤ en) (hw : en < 2 ^ 32) :
    (∃ fuel t, reserveWithSplit kzalloc root fuel st en s = .ok t ∧
      (∀ x, st ≤ x → x ≤ en → (s.res root).start ≤ x → x ≤ (s.res root).end_ →
        ∃ c, Child t c root ∧ (t.res c).start ≤ x ∧ x ≤ (t.res c).end_) ∧
      ∀ c, Child s c root → Child t c root ∧ t.res c = s.res c) ↔
    (s.res root).start ≤ st ∧ en ≤ (s.res root).end_ := by
  constructor
  · rintro ⟨fuel, t, ht, -⟩
    by_contra hout
    rw [reserveWithSplit_outside hk (by omega)] at ht
    cases ht
  · rintro ⟨hst, hen⟩
    obtain ⟨t, ht, hres⟩ := reserveWithSplit_inside hk h hv hst hen hw (Nat.lt_succ_self _)
    exact ⟨_, t, ht, fun x h1 h2 => hres.covered x h1 (by omega), hres.kept⟩

end Split

def nextId (s : State) : Id := s.known.sum + 1

theorem nextId_supplies : Supplies nextId 0 := fun s => by
  refine ⟨fun hmem => ?_, Nat.succ_ne_zero _⟩
  have := List.single_le_sum (fun _ _ => Nat.zero_le _) _ hmem
  simp [nextId] at this

theorem nested_filled : ∃ fuel t, reserveWithSplit nextId 0 fuel 5 20 nested = .ok t ∧
    (∀ x, 5 ≤ x → x ≤ 20 → (nested.res 0).start ≤ x → x ≤ (nested.res 0).end_ →
      ∃ c, Child t c 0 ∧ (t.res c).start ≤ x ∧ x ≤ (t.res c).end_) ∧
    ∀ c, Child nested c 0 → Child t c 0 ∧ t.res c = nested.res c :=
  (split_covers_iff nested_inv nextId_supplies (by decide) (by decide)).mpr ⟨by decide, by decide⟩

/-- A region that reaches out of the root, which ends at 100. -/
theorem split_endless : Inv nested ∧ Supplies nextId 0 ∧ (nested.res 0).end_ = 100 ∧
    ∀ fuel, reserveWithSplit nextId 0 fuel 90 110 nested = .error .loops :=
  ⟨nested_inv, nextId_supplies, rfl, fun _ => reserveWithSplit_outside nextId_supplies (.inr (by decide))⟩

end G3Mod.Resource
