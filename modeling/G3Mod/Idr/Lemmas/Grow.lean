import G3Mod.Idr.Lemmas.Search

/-!
# Growing at the top
-/

namespace G3Mod.Idr

open Function Lib

variable {s s' : State} {i id p t fuel : Nat} {n : Layer}

theorem outOfRange_iff {layers : Nat} (h : id < 2 ^ 30) : outOfRange id layers ↔ idrSize ^ layers ≤ id := by
  rw [outOfRange, two_pow_mul]
  have : maxIdBit = 2 ^ 31 := rfl
  omega

/-! ## The layers added -/

structure Fits (s : State) (id p : Nat) (r : Option (Nat × Nat) × State) (p' : Nat) : Prop where
  top : r.1 = some (p', p' + 1)
  wf : Wf (retop p' r.2)
  value : ∀ i, value r.2 i = value s i
  lt : id < idrSize ^ (p' + 1)
  le : p ≤ p'
  same : id < idrSize ^ (p + 1) → r.2 = s ∧ p' = p

structure Undone (s : State) (t : Nat) (r : Option (Nat × Nat) × State) : Prop where
  top : r.1 = none
  layer : ∀ q, r.2.layer q = if t < q.1 ∧ q.2 = 0 then none else s.layer q
  top_eq : r.2.top = s.top
  layers : r.2.layers = s.layers

theorem growLoop_stop (fuel : Nat) (h : Wf (retop p s)) (hid : id < 2 ^ 30) (hx : ¬ (p + 1 < maxLevel - 1 ∧ outOfRange id (p + 1))) :
    growLoop (fuel + 1) id p (p + 1) s = .ok (some (p, p + 1), s) ∧ Fits s id p (some (p, p + 1), s) p := by
  refine ⟨by rw [growLoop, if_neg hx], rfl, h, fun _ => rfl, ?_, Nat.le_refl p, fun _ => ⟨rfl, rfl⟩⟩
  rw [outOfRange_iff hid] at hx
  by_cases hp : p + 1 < 6
  · by_contra hge
    exact hx ⟨hp, Nat.le_of_not_lt hge⟩
  · have hle : p + 1 ≤ 6 := h.layersLe
    rw [show p + 1 = 6 by omega]
    exact Nat.lt_of_lt_of_eq hid (by decide)

theorem Fits.of_later {p' : Nat} {r : Option (Nat × Nat) × State} (h : Fits s' id (p + 1) r p')
    (hv : ∀ i, Idr.value s' i = Idr.value s i) (hout : idrSize ^ (p + 1) ≤ id) : Fits s id p r p' :=
  ⟨h.top, h.wf, fun i => (h.value i).trans (hv i), h.lt, Nat.le_of_succ_le h.le, fun hlt => by omega⟩

theorem growLoop_empty (fuel : Nat) (h : Wf (retop p s)) (hn : s.layer (p, 0) = some n) (hc : n.count = 0)
    (hid : id < 2 ^ 30) (hf : maxLevel ≤ fuel + p + 1) :
    ∃ r p', growLoop fuel id p (p + 1) s = .ok r ∧ Fits s id p r p' := by
  have hmax : maxLevel = 7 := rfl
  have hle : p + 1 ≤ 6 := h.layersLe
  induction fuel generalizing p s n with
  | zero => omega
  | succ fuel ih =>
    by_cases hx : p + 1 < maxLevel - 1 ∧ outOfRange id (p + 1)
    · obtain ⟨hw, hv', hv⟩ := h.raiseTop hn hc hx.1
      have hn' : (raiseTop p n s).layer (p + 1, 0) = some { n with layer := n.layer + 1 } := by
        rw [raiseTop_layer, if_pos rfl]
      obtain ⟨r, p', hr, hfit⟩ := ih hw hn' hc (by omega) (by omega)
      refine ⟨r, p', ?_, hfit.of_later (fun i => by rw [hv', hv]) ((outOfRange_iff hid).mp hx.2)⟩
      simp only [growLoop, if_pos hx, getLayer_eq.mpr hn, ok_bind, if_pos hc]
      exact hr
    · obtain ⟨hr, hfit⟩ := growLoop_stop fuel h hid hx
      exact ⟨_, p, hr, hfit⟩

theorem tearDown_layer (htp : t ≤ p) (hs : ∀ q, t ≤ q → q ≤ p → (s.layer (q, 0)).isSome = true) :
    (∀ q, (tearDown (some t) p s).layer q = if t < q.1 ∧ q.1 ≤ p ∧ q.2 = 0 then none else s.layer q) ∧
      (tearDown (some t) p s).top = s.top ∧ (tearDown (some t) p s).layers = s.layers := by
  induction p generalizing s with
  | zero =>
    obtain rfl : t = 0 := by omega
    rw [tearDown, if_pos rfl]
    exact ⟨fun q => by rw [if_neg (by omega)], rfl, rfl⟩
  | succ p ih =>
    by_cases e : t = p + 1
    · subst e
      rw [tearDown, if_pos rfl]
      exact ⟨fun q => by rw [if_neg (by omega)], rfl, rfl⟩
    rw [tearDown, if_neg (by simpa using e)]
    have hlayer : ∀ q, ({ setLayer (p + 1, 0) none s with idFreeCnt := s.idFreeCnt + 1 } : State).layer q =
        if q = (p + 1, 0) then none else s.layer q := fun q => setLayer_layer none
    have hsome : ∀ q, t ≤ q → q ≤ p →
        (({ setLayer (p + 1, 0) none s with idFreeCnt := s.idFreeCnt + 1 } : State).layer (q, 0)).isSome = true := by
      intro q hq hqp
      grind
    simp only
    rw [if_pos (hsome p (by omega) (Nat.le_refl p))]
    obtain ⟨hl, ht, hls⟩ := ih (by omega) hsome
    refine ⟨fun q => ?_, ht, hls⟩
    grind

theorem growLoop_used (fuel : Nat) (h : Wf (retop p s)) (hn : s.layer (p, 0) = some n) (hc : n.count ≠ 0)
    (hid : id < 2 ^ 30) (hf : maxLevel ≤ fuel + p + 1) (htop : s.top = some t) (htp : t ≤ p)
    (hs : ∀ q, t ≤ q → q ≤ p → (s.layer (q, 0)).isSome = true) :
    ∃ r, growLoop fuel id p (p + 1) s = .ok r ∧ ((∃ p', Fits s id p r p') ∨ Undone s t r) := by
  have hmax : maxLevel = 7 := rfl
  have hle : p + 1 ≤ 6 := h.layersLe
  induction fuel generalizing p s n with
  | zero => omega
  | succ fuel ih =>
    by_cases hx : p + 1 < maxLevel - 1 ∧ outOfRange id (p + 1)
    · by_cases hfree : s.idFreeCnt = 0
      · refine ⟨(none, tearDown (some t) p s), ?_, .inr ?_⟩
        · simp only [growLoop, if_pos hx, getLayer_eq.mpr hn, ok_bind, if_neg hc, getFromFreeList, if_pos hfree, htop]
        obtain ⟨hl, ht, hls⟩ := tearDown_layer htp hs
        refine ⟨rfl, fun q => ?_, ht, hls⟩
        -- above the top there is nothing anyway
        have := fun v => h.inside (l := q.1) (k := q.2) (n := v)
        cases hv : s.layer q <;> grind
      have hw' : Wf (retop p { s with idFreeCnt := s.idFreeCnt - 1 }) := h.congr rfl rfl rfl
      obtain ⟨hw, hv⟩ := hw'.addTop hn hx.1
      have hlayer : ∀ q, (addTop p n (p + 2) { s with idFreeCnt := s.idFreeCnt - 1 }).layer q =
          if q = (p + 1, 0) then some ((({ newLayer (p + 1) with count := 1 } : Layer)).setBit 0 n.full)
          else s.layer q := fun q => setLayer_layer _
      obtain ⟨r, hr, hres⟩ := ih hw (by rw [hlayer]; exact if_pos rfl) (by simp [Layer.setBit]) (by omega) htop
        (by omega) (fun q hq hqp => by
          grind) (by omega)
      refine ⟨r, ?_, ?_⟩
      · simp only [growLoop, if_pos hx, getLayer_eq.mpr hn, ok_bind, if_neg hc, getFromFreeList, if_neg hfree]
        exact hr
      rcases hres with ⟨p', hfit⟩ | hu
      · exact .inl ⟨p', hfit.of_later hv ((outOfRange_iff hid).mp hx.2)⟩
      · refine .inr ⟨hu.top, fun q => ?_, hu.top_eq, hu.layers⟩
        rw [hu.layer, hlayer]
        grind
    · obtain ⟨hr, hfit⟩ := growLoop_stop fuel h hid hx
      exact ⟨_, hr, .inl ⟨p, hfit⟩⟩

structure Prepared (s : State) (id : Nat) (s' : State) : Prop where
  wf : Wf s'
  pos : 0 < s'.layers
  value : ∀ i, value s' i = value s i
  lt : id < idrSize ^ s'.layers
  le : s.layers ≤ s'.layers
  same : 0 < s.layers → id < idrSize ^ s.layers → s' = s

theorem grow_cases (h : Wf s) (hid : id < 2 ^ 30) :
    firstTop s = none ∨
      ∃ p s1, firstTop s = some (p, p + 1, s1) ∧
        ((∃ s', growLoop maxLevel id p (p + 1) s1 = .ok (none, s') ∧ Wf s' ∧ ∀ i, value s' i = value s i) ∨
          ∃ p' s', growLoop maxLevel id p (p + 1) s1 = .ok (some (p', p' + 1), s') ∧ Prepared s id (retop p' s')) := by
  by_cases hl : s.layers = 0
  · have htop : s.top = none := by rw [h.top, if_pos hl]
    by_cases hfree : s.idFreeCnt = 0
    · exact .inl (by simp [firstTop, htop, getFromFreeList, hfree])
    obtain ⟨hw, hv⟩ := wf_single (setLayer (0, 0) (some (newLayer 0)) { s with idFreeCnt := s.idFreeCnt - 1 })
      (newLayer 0) (by decide : 0 < maxLevel - 1)
      (fun p => by rw [setLayer_layer]; exact if_congr Iff.rfl rfl (h.empty hl p))
      (fun _ _ => rfl) rfl rfl (fun _ _ => rfl)
    refine .inr ⟨0, setLayer (0, 0) (some (newLayer 0)) { s with idFreeCnt := s.idFreeCnt - 1 }, ?_, .inr ?_⟩
    · grind [firstTop, getFromFreeList]
    obtain ⟨⟨_, s'⟩, p', hr, hfit⟩ := growLoop_empty maxLevel hw
      (by rw [setLayer_layer]; exact if_pos rfl) rfl hid (by omega)
    obtain rfl := hfit.top
    refine ⟨p', s', hr, hfit.wf, Nat.succ_pos p', fun i => ?_, hfit.lt, by omega, fun h0 => by omega⟩
    rw [retop_value, hfit.value, hv, value_of_no_leaf (h.empty hl _)]
  · obtain ⟨p, hp⟩ : ∃ p, s.layers = p + 1 := ⟨s.layers - 1, by omega⟩
    have hs : retop p s = s := by
      have := retop_eq h (by omega)
      rwa [hp] at this
    have htop : s.top = some p := by rw [h.top, if_neg hl, hp]; rfl
    have hw : Wf (retop p s) := by rw [hs]; exact h
    obtain ⟨n, hn⟩ := h.root (by omega)
    rw [hp, Nat.add_sub_cancel] at hn
    have hprep : ∀ {r p'}, Fits s id p r p' → Prepared s id (retop p' r.2) := fun {r p'} hfit => by
      refine ⟨hfit.wf, Nat.succ_pos _, hfit.value, hfit.lt, ?_, fun _ hlt => ?_⟩
      · rw [hp]
        exact Nat.succ_le_succ hfit.le
      · obtain ⟨e, rfl⟩ := hfit.same (hp ▸ hlt)
        rw [e, hs]
    refine .inr ⟨p, s, by simp only [firstTop, htop, hp], ?_⟩
    by_cases hc : n.count = 0
    · obtain ⟨⟨_, s'⟩, p', hr, hfit⟩ := growLoop_empty maxLevel hw hn hc hid (by omega)
      obtain rfl := hfit.top
      exact .inr ⟨p', s', hr, hprep hfit⟩
    obtain ⟨⟨_, s'⟩, hr, ⟨p', hfit⟩ | hu⟩ := growLoop_used maxLevel hw hn hc hid (by omega) htop
      (Nat.le_refl p) (fun q hq hqp => by rw [Nat.le_antisymm hqp hq, hn]; rfl)
    · obtain rfl := hfit.top
      exact .inr ⟨p', s', hr, hprep hfit⟩
    obtain rfl := hu.top
    have hlayer : s'.layer = s.layer := by
      funext q
      have := fun v => h.inside (l := q.1) (k := q.2) (n := v)
      rw [hu.layer]
      cases hv : s.layer q <;> grind
    refine .inl ⟨s', hr, h.congr hlayer hu.top_eq hu.layers, fun i => value_congr (by rw [hlayer])⟩

/-- What `idr_get_empty_slot` returns for `id`: the first free id at or after it, or no memory. -/
inductive Slot (s : State) (id : Nat) : Found × State → Prop
  | found {i : Nat} {pa : Nat → Option Name} {s' s'' : State} : (∀ j, value s' j = value s j) →
      Success s' id i pa s'' → Slot s id (.id i pa, s'')
  | noMemory {s' : State} : Wf s' → (∀ j, value s' j = value s j) → Slot s id (.noMemory, s')

theorem Slot.extend {r : Found × State} {id' : Nat} (h : Slot s' id' r) (hv : ∀ i, value s' i = value s i)
    (hle : id ≤ id') (ha : ∀ j, id ≤ j → j < id' → Alloc s j) : Slot s id r := by
  cases h with
  | found hv' hs =>
    have hv'' := fun j => (hv' j).trans (hv j)
    refine .found hv'' { hs with le := Nat.le_trans hle hs.le, least := fun j hj hlt => ?_ }
    have := hs.least j
    grind [Alloc]
  | noMemory hw hv' => exact .noMemory hw fun j => (hv' j).trans (hv j)

theorem getEmptySlotLoop_turn (h : Wf s) (hid : id < 2 ^ 30)
    (hroom : ∀ s', Prepared s id s' → Roomy s' id) (fuel : Nat) :
    (∃ r, getEmptySlotLoop (fuel + 1) id s = .ok r ∧ Slot s id r) ∨
      ∃ s1 s', Prepared s id s1 ∧ Grown s1 s' ∧ (∀ j, id ≤ j → j < idrSize ^ s1.layers → Alloc s1 j) ∧
        getEmptySlotLoop (fuel + 1) id s = getEmptySlotLoop fuel (idrSize ^ s1.layers) s' := by
  rcases grow_cases h hid with hx | ⟨p, s1, hx, ⟨s', hg, hw, hv⟩ | ⟨p', s', hg, hprep⟩⟩
  · exact .inl ⟨_, by simp only [getEmptySlotLoop, hx], .noMemory h fun _ => rfl⟩
  · exact .inl ⟨_, by simp only [getEmptySlotLoop, hx, hg, ok_bind], .noMemory hw hv⟩
  obtain ⟨r, hr, ha⟩ := subAlloc_answer hprep.wf hprep.pos hprep.lt (hroom _ hprep)
  have hr : subAlloc id { s' with top := some p', layers := p' + 1 } = .ok r := hr
  cases ha with
  | found hs => exact .inl ⟨_, by simp only [getEmptySlotLoop, hx, hg, ok_bind, hr], .found hprep.value hs⟩
  | noMemory hgr =>
    refine .inl ⟨_, by simp only [getEmptySlotLoop, hx, hg, ok_bind, hr], .noMemory hgr.wf fun j => ?_⟩
    exact (hgr.value j).trans (hprep.value j)
  | needToGrow hgr hall =>
    exact .inr ⟨_, _, hprep, hgr, hall, by simp only [getEmptySlotLoop, hx, hg, ok_bind, hr]⟩

/-- There is room for `id`, or for the first id after the ones in the tree. -/
def Room (s : State) (id : Nat) : Prop :=
  id < idrSize ^ (maxLevel - 1) ∧
    (idrSize ^ s.layers ≤ id ∨ (∃ i, id ≤ i ∧ i < idrSize ^ s.layers ∧ ¬ Alloc s i) ∨
      s.layers < maxLevel - 1 ∧ (s.layers = 1 ∨ Packed s (s.layers - 1) (idrSize - 1)))

theorem Prepared.alloc (h : Prepared s id s') : Alloc s' i ↔ Alloc s i := by rw [Alloc, Alloc, h.value]

theorem getEmptySlotLoop_free (h : Wf s) (hid : id < 2 ^ 30) (hfree : ¬ Alloc s id) (fuel : Nat) :
    ∃ r, getEmptySlotLoop (fuel + 1) id s = .ok r ∧ Slot s id r := by
  have hroom : ∀ s', Prepared s id s' → Roomy s' id := fun s' hp =>
    .inl ⟨id, Nat.le_refl id, hp.lt, fun ha => hfree (hp.alloc.mp ha)⟩
  rcases getEmptySlotLoop_turn h hid hroom fuel with hr | ⟨s1, _, hp, _, hall, _⟩
  · exact hr
  · exact absurd (hp.alloc.mp (hall id (Nat.le_refl id) hp.lt)) hfree

theorem idrGetEmptySlot_slot (h : Wf s) (hroom : Room s id) :
    ∃ r, idrGetEmptySlot id s = .ok r ∧ Slot s id r := by
  obtain ⟨hid, hroom⟩ := hroom
  have hid : id < 2 ^ 30 := Nat.lt_of_lt_of_eq hid (by decide)
  by_cases hfree : Alloc s id
  · -- the tree is as it should be already
    have hlt : id < idrSize ^ s.layers := by
      by_contra hge
      rw [Alloc, h.value_none_of_ge (Nat.le_of_not_lt hge)] at hfree
      cases hfree
    have hpos : 0 < s.layers := by
      refine Nat.pos_of_ne_zero fun e => ?_
      rw [Alloc, value_of_no_leaf (h.empty e _)] at hfree
      cases hfree
    have hr : ∀ s', Prepared s id s' → Roomy s' id := fun s' hp => by
      rw [hp.same hpos hlt]
      grind [Roomy]
    rcases getEmptySlotLoop_turn h hid hr 6 with hr | ⟨s1, s', hp, hg, hall, hx⟩
    · exact hr
    obtain rfl := hp.same hpos hlt
    -- all ids from `id` on are allocated, so one more layer is added
    have hless : s1.layers < 6 := by
      rcases hroom with hge | ⟨i, hi, hlt', hf⟩ | ⟨hless, _⟩
      · omega
      · exact absurd (hall i hi hlt') hf
      · exact hless
    have hnext : idrSize ^ s1.layers < 2 ^ 30 := by
      calc idrSize ^ s1.layers < idrSize ^ 6 := Nat.pow_lt_pow_right (by decide) hless
        _ = 2 ^ 30 := by decide
    have hnone : ¬ Alloc s' (idrSize ^ s1.layers) := fun ha => by
      rw [Alloc, hg.value, h.value_none_of_ge (Nat.le_refl _)] at ha
      cases ha
    obtain ⟨r, hr, hs⟩ := getEmptySlotLoop_free hg.wf hnext hnone 5
    exact ⟨r, hx.trans hr, hs.extend hg.value (Nat.le_of_lt hlt) hall⟩
  · exact getEmptySlotLoop_free h hid hfree 6

end G3Mod.Idr
