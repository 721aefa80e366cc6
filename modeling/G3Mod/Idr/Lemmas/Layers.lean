import G3Mod.Idr.Lemmas.Tree

/-!
# Layers come and go
-/

namespace G3Mod.Idr

open Function Lib

variable {s s' : State} {i j l m q k d c : Nat} {n n' : Layer} {p p' : Name}

/-! ## Slots in use -/

theorem usedSlots_congr (h : ∀ m < idrSize, used s' l (idrSize * k + m) = used s l (idrSize * k + m)) :
    usedSlots s' l k = usedSlots s l k :=
  List.countP_congr fun m hm => by rw [h m (List.mem_range.mp hm)]

theorem usedSlots_change (s s' : State) (hm : m < idrSize)
    (h : ∀ j < idrSize, j ≠ m → used s' l (idrSize * k + j) = used s l (idrSize * k + j)) :
    usedSlots s' l k + (used s l (idrSize * k + m)).toNat =
      usedSlots s l k + (used s' l (idrSize * k + m)).toNat :=
  countP_change List.nodup_range (List.mem_range.mpr hm) fun j hj hne => h j (List.mem_range.mp hj) hne

theorem usedSlots_eq_zero : usedSlots s l k = 0 ↔ ∀ m < idrSize, used s l (idrSize * k + m) = false := by
  simp [usedSlots, List.countP_eq_zero]

theorem used_congr (hv : ∀ i, value s' i = value s i) (hp : ∀ j, l = j + 1 →
    (s'.layer (j, q)).isSome = (s.layer (j, q)).isSome) : used s' l q = used s l q := by
  cases l with
  | zero => simp [used, hv]
  | succ l => exact hp l rfl

theorem slot_inj {k' m' : Nat} (hm : m < idrSize) (hm' : m' < idrSize)
    (h : idrSize * k + m = idrSize * k' + m') : k = k' ∧ m = m' := by
  have h1 := congrArg (· / idrSize) h
  have h2 := congrArg (· % idrSize) h
  simp only [mul_add_div hm, mul_add_div hm', mul_add_mod hm, mul_add_mod hm'] at h1 h2
  exact ⟨h1, h2⟩

theorem Packed.same (hv : ∀ i, value s' i = value s i) : Packed s' l q ↔ Packed s l q :=
  Packed.congr fun i _ => by rw [hv]

theorem Wf.usedSlots_of_missing (h : Wf s) (hl : l < s.layers) (hn : s.layer (l, q) = none) : usedSlots s l q = 0 := by
  rw [usedSlots_eq_zero]
  intro j hj
  -- nothing can hang below a layer that is missing
  cases l with
  | zero => simp [used, value_of_no_leaf (s := s) (i := idrSize * q + j) (by rw [mul_add_div hj, hn])]
  | succ l =>
    have hp := fun {n} => h.parent (l := l) (k := idrSize * q + j) (n := n)
    rw [mul_add_div hj] at hp
    cases hx : s.layer (l, idrSize * q + j) <;> grind [used]

def withChild (s : State) (l k m : Nat) (n : Layer) (c : Nat) : State :=
  setLayer (l, idrSize * k + m) (some (newLayer l))
    (setLayer (l + 1, k) (some { n with count := n.count + 1 }) { s with idFreeCnt := c })

@[grind =] theorem withChild_layer : (withChild s l k m n c).layer p =
    if p = (l, idrSize * k + m) then some (newLayer l)
    else if p = (l + 1, k) then some { n with count := n.count + 1 } else s.layer p := by
  simp only [withChild, setLayer_layer]

theorem withChild_value (h : s.layer (l, idrSize * k + m) = none) :
    value (withChild s l k m n c) i = value s i := by
  by_cases e : (0, i / idrSize) = (l, idrSize * k + m)
  · rw [value_of_no_leaf (s := s) (by rw [e, h])]
    have hn : (withChild s l k m n c).layer (0, i / idrSize) = some (newLayer l) := by
      rw [withChild_layer, if_pos e]
    rw [value_of_leaf hn]
    rfl
  · apply value_congr
    rw [withChild_layer, if_neg e, if_neg (by simp)]

theorem Wf.withChild (h : Wf s) (hn : s.layer (l + 1, k) = some n) (hm : m < idrSize)
    (hc : s.layer (l, idrSize * k + m) = none) : Wf (withChild s l k m n c) := by
  have hv : ∀ i, value (Idr.withChild s l k m n c) i = value s i := fun i => withChild_value hc
  have hin := h.inside hn
  have hsome : ∀ {p}, (∃ v, s.layer p = some v) → ∃ v, (Idr.withChild s l k m n c).layer p = some v := by
    grind
  have hused : ∀ a b, (a, b) ≠ (l + 1, idrSize * k + m) → used (Idr.withChild s l k m n c) a b = used s a b := by
    intro a b hab
    refine used_congr hv fun j hj => ?_
    grind
  have hlevel := fun {a b v} => h.level (l := a) (k := b) (n := v)
  refine
    { top := h.top
      layersLe := h.layersLe
      root := fun hl => hsome (h.root hl)
      inside := fun {a b v} hp => ?_
      parent := fun {a b v} hp hlt' => ?_
      level := by grind [newLayer]
      bit := fun {a b v j} hp hj => ?_
      count := fun {a b v} hp => ?_
      null := fun {b v j} hp hj hb => ?_ }
  · have : (Idr.withChild s l k m n c).layers = s.layers := rfl
    have := @h.inside a b
    grind
  · by_cases e : (a, b) = (l, idrSize * k + m)
    · cases e
      exact hsome ⟨n, by rw [mul_add_div hm]; exact hn⟩
    · obtain ⟨v0, hv0⟩ : ∃ v0, s.layer (a, b) = some v0 := by grind
      exact hsome (h.parent hv0 hlt')
  · rw [Packed.same hv]
    have := @h.bit a b
    have := h.not_packed_of_missing (by omega) hc hj
    grind [newLayer]
  · by_cases e : (a, b) = (l, idrSize * k + m)
    · cases e
      rw [usedSlots_congr fun j _ => hused _ _ (by simp), h.usedSlots_of_missing (by omega) hc]
      grind [newLayer]
    by_cases e' : (a, b) = (l + 1, k)
    · cases e'
      have hch := usedSlots_change s (Idr.withChild s l k m n c) (l := l + 1) (k := k) hm
        fun j hj hjm => hused _ _ fun e => hjm (by simpa using e)
      simp only [used, withChild_layer, hc, if_true, Option.isSome_none, Option.isSome_some, Bool.toNat_false,
        Bool.toNat_true] at hch
      have := h.count hn
      grind
    have hp : s.layer (a, b) = some v := by grind
    rw [usedSlots_congr fun j hj => hused _ _ fun ej => e' ?_, ← h.count hp]
    simp only [Prod.mk.injEq] at ej ⊢
    exact ⟨ej.1, (slot_inj hj hm ej.2).1⟩
  · have := @h.null b
    grind [newLayer]

/-! ## The top -/

def retop (lv : Nat) (s : State) : State := { s with top := some lv, layers := lv + 1 }

@[simp, grind =] theorem retop_layer : (retop d s).layer p = s.layer p := rfl

@[simp, grind =] theorem retop_layers : (retop d s).layers = d + 1 := rfl

@[simp] theorem retop_value : value (retop d s) i = value s i := rfl

theorem Wf.congr (h : Wf s) (hl : s'.layer = s.layer) (ht : s'.top = s.top) (hn : s'.layers = s.layers) :
    Wf s' := by
  obtain ⟨layer, top, layers, free⟩ := s
  obtain ⟨layer', top', layers', free'⟩ := s'
  obtain rfl : layer' = layer := hl
  obtain rfl : top' = top := ht
  obtain rfl : layers' = layers := hn
  exact ⟨⟨h.top, h.layersLe, h.root, h.inside, h.parent, h.level⟩, h.bit, h.count, h.null⟩

theorem value_none_of_no_leaf (h : ∀ k n, s.layer (0, k) = some n → ∀ m < idrSize, n.bitmap m = false) :
    value s i = none := by
  cases hn : s.layer (0, i / idrSize) with
  | none => exact value_of_no_leaf hn
  | some n => rw [value_of_leaf hn, h _ n hn _ (Nat.mod_lt _ (by decide))]; rfl

theorem wf_single (s : State) (n : Layer) {lv : Nat} (hlv : lv < maxLevel - 1)
    (hl : ∀ p, s.layer p = if p = (lv, 0) then some n else none) (hb : ∀ m < idrSize, n.bitmap m = false)
    (hc : n.count = 0) (hlayer : n.layer = lv) (hary : lv = 0 → ∀ m, n.ary m = 0) :
    Wf (retop lv s) ∧ ∀ i, value s i = none := by
  have hv : ∀ i, value s i = none := fun i => value_none_of_no_leaf (by grind)
  have hpacked : ∀ l q, ¬ Packed s l q := fun l q hp => by
    have := hp (q * idrSize ^ l) place_mul
    rw [Alloc, hv] at this
    cases this
  refine ⟨?_, hv⟩
  refine
    { top := rfl
      layersLe := hlv
      root := fun _ => ⟨n, by grind⟩
      inside := by grind
      parent := by grind
      level := by grind
      bit := fun {a b v m} hp hm => iff_of_false (by grind) (hpacked _ _)
      count := fun {a b v} hp => ?_
      null := by grind }
  have hz : usedSlots (retop lv s) lv 0 = 0 := by
    rw [usedSlots_eq_zero]
    intro m _
    cases lv with
    | zero => simp [used, hv]
    | succ lv => simp [used, hl]
  grind

theorem Shape.only_top (h : Shape s) (hl : s.layers = d + 1) (hz : usedSlots s d 0 = 0)
    (hp : s.layer p = some n) : p = (d, 0) := by
  obtain ⟨l, k⟩ := p
  obtain ⟨hlt, htop⟩ := h.inside hp
  by_cases el : l = d
  · subst el
    rw [htop hl.symm]
  -- the layer hangs below a slot of the top layer
  exfalso
  obtain ⟨e, rfl⟩ : ∃ e, d = e + 1 := ⟨d - 1, by omega⟩
  obtain ⟨w, v, hv⟩ : ∃ w v, s.layer (e, w) = some v := by
    obtain ⟨v, hv⟩ := h.ancestor hp (d := e - l) (by omega)
    rw [show l + (e - l) = e by omega] at hv
    exact ⟨_, v, hv⟩
  obtain ⟨v', hv'⟩ := h.parent hv (by omega)
  have hk : w / idrSize = 0 := (h.inside hv').2 hl.symm
  have hw : w < idrSize := Nat.lt_of_div_eq_zero (by decide) hk
  have hu := usedSlots_eq_zero.mp hz w hw
  simp [used, hv] at hu

theorem Wf.only_top {lv : Nat} (h : Wf (retop lv s)) (hn : s.layer (lv, 0) = some n) (hc : n.count = 0)
    (p : Name) : s.layer p = if p = (lv, 0) then some n else none := by
  have hz := h.count hn
  have := fun v => h.toShape.only_top (p := p) (n := v) rfl (by omega)
  cases hp : s.layer p <;> grind

theorem retop_eq (h : Wf s) (hl : 0 < s.layers) : retop (s.layers - 1) s = s := by
  obtain ⟨layer, top, layers, free⟩ := s
  have ht := h.top_eq hl
  simp only at ht hl
  simp only [retop, ht, Nat.sub_add_cancel hl]

theorem Wf.addTop {lv : Nat} (h : Wf (retop lv s)) (hn : s.layer (lv, 0) = some n)
    (hlv : lv + 1 < maxLevel - 1) :
    Wf (retop (lv + 1) (addTop lv n (lv + 2) s)) ∧ ∀ i, value (addTop lv n (lv + 2) s) i = value s i := by
  have hlayer : ∀ p, (Idr.addTop lv n (lv + 2) s).layer p =
      if p = (lv + 1, 0) then some ((({ newLayer (lv + 1) with count := 1 } : Layer)).setBit 0 n.full)
      else s.layer p := fun p => setLayer_layer _
  have hv : ∀ i, value (Idr.addTop lv n (lv + 2) s) i = value s i := fun i => by
    apply value_congr
    rw [hlayer, if_neg (by simp)]
  have hv' : ∀ i, value (retop (lv + 1) (Idr.addTop lv n (lv + 2) s)) i = value (retop lv s) i := hv
  have habove : ∀ {a b v}, s.layer (a, b) = some v → a ≤ lv ∧ (a = lv → b = 0) := fun {a b v} hp => by
    have := h.inside (l := a) (k := b) (n := v) hp
    grind
  have hused : ∀ a b, a ≤ lv → used (retop (lv + 1) (Idr.addTop lv n (lv + 2) s)) a b = used (retop lv s) a b := by
    intro a b ha
    refine used_congr hv' fun j hj => ?_
    grind
  have hlevel := fun {a b v} => h.level (l := a) (k := b) (n := v)
  refine ⟨?_, hv⟩
  refine
    { top := rfl
      layersLe := hlv
      root := fun _ => ⟨_, by rw [retop_layer, hlayer]; exact if_pos rfl⟩
      inside := by grind
      parent := fun {a b v} hp hlt => ?_
      level := by grind [Layer.setBit, newLayer]
      bit := fun {a b v m} hp hm => ?_
      count := fun {a b v} hp => ?_
      null := fun {b v m} hp hm hb => ?_ }
  all_goals rw [retop_layer, hlayer] at hp
  · have hp : s.layer (a, b) = some v := by grind
    obtain ⟨ha, hb⟩ := habove hp
    rw [retop_layer, hlayer]
    split
    · exact ⟨_, rfl⟩
    · exact h.parent hp (by grind [Nat.zero_div idrSize])
  · rw [Packed.same hv']
    split at hp
    next e =>
      cases e
      cases hp
      rw [setBit_bitmap]
      by_cases e0 : m = 0
      · subst e0
        simpa using h.full_iff_packed hn
      rw [if_neg e0]
      refine iff_of_false (by simp [newLayer]) fun hpk => ?_
      have hi := hpk (m * idrSize ^ (lv + 1)) (by rw [place_mul]; omega)
      rw [Alloc, h.value_none_of_ge] at hi
      · cases hi
      · exact Nat.le_mul_of_pos_left _ (Nat.pos_of_ne_zero e0)
    · exact h.bit hp hm
  · split at hp
    next e =>
      cases e
      cases hp
      have hu : ∀ m < idrSize, used (retop (lv + 1) (Idr.addTop lv n (lv + 2) s)) (lv + 1) (idrSize * 0 + m) =
          decide (m = 0) := by
        intro m _
        rw [used, retop_layer, hlayer, if_neg (by simp), Nat.mul_zero, Nat.zero_add]
        by_cases e0 : m = 0
        · simp [e0, hn]
        · cases hx : s.layer (lv, m) <;> grind
      rw [usedSlots, List.countP_congr fun m hm => by rw [hu m (List.mem_range.mp hm)]]
      rfl
    · rw [usedSlots_congr fun m _ => hused a _ (habove hp).1]
      exact h.count hp
  · rw [if_neg (by simp)] at hp
    exact h.null hp hm hb

@[grind =] theorem raiseTop_layer {lv : Nat} : (raiseTop lv n s).layer p =
    if p = (lv + 1, 0) then some { n with layer := n.layer + 1 }
    else if p = (lv, 0) then none else s.layer p := by
  rw [raiseTop, setLayer_layer, setLayer_layer]

theorem Wf.raiseTop {lv : Nat} (h : Wf (retop lv s)) (hn : s.layer (lv, 0) = some n) (hc : n.count = 0)
    (hlv : lv + 1 < maxLevel - 1) :
    Wf (retop (lv + 1) (raiseTop lv n s)) ∧ (∀ i, value (raiseTop lv n s) i = none) ∧ ∀ i, value s i = none := by
  have honly := h.only_top hn hc
  have hempty : ∀ m < idrSize, n.bitmap m = false := fun m hm => by
    cases hb : n.bitmap m with
    | false => rfl
    | true =>
      exfalso
      -- an allocated id would need a leaf below the top layer, or a slot of it
      have hp := (h.bit hn hm).mp hb
      have hz := h.count hn
      have hz : usedSlots (retop lv s) lv 0 = 0 := by omega
      cases lv with
      | zero =>
        have := usedSlots_eq_zero.mp hz m hm
        rw [packed_zero, Alloc] at hp
        rw [used, hp] at this
        cases this
      | succ lv =>
        have hi := hp _ place_mul
        rw [Alloc, value_of_no_leaf] at hi
        · cases hi
        · rw [retop_layer, honly, if_neg (by simp)]
  have hs : ∀ i, value s i = none := fun i => value_none_of_no_leaf (by grind)
  have hsingle := wf_single (Idr.raiseTop lv n s) { n with layer := n.layer + 1 } hlv
    (by grind)
    hempty hc (by rw [h.level hn]) (fun e => absurd e (Nat.succ_ne_zero _))
  exact ⟨hsingle.1, hsingle.2, hs⟩

theorem usedSlots_one (h : usedSlots s l k = 1) (hm : m < idrSize) (hu : used s l (idrSize * k + m) = true)
    (hj : j < idrSize) (hu' : used s l (idrSize * k + j) = true) : j = m := by
  by_contra hne
  have hp := (List.perm_cons_erase (List.mem_range.mpr hm)).countP_eq fun m => used s l (idrSize * k + m)
  simp only [List.countP_cons, hu, if_true] at hp
  rw [← usedSlots, h] at hp
  have hz : ((List.range idrSize).erase m).countP (fun m => used s l (idrSize * k + m)) = 0 := by omega
  rw [List.countP_eq_zero] at hz
  exact hz j ((List.mem_erase_of_ne hne).mpr (List.mem_range.mpr hj)) hu'

theorem Wf.dropTop (h : Wf s) (hl : 1 < s.layers) (hn : s.layer (s.layers - 1, 0) = some n) (hc : n.count = 1)
    (hfirst : ∃ v, s.layer (s.layers - 2, 0) = some v) :
    Wf (retop (s.layers - 2) (setLayer (s.layers - 1, 0) none s)) ∧
      ∀ i, value (setLayer (s.layers - 1, 0) none s) i = value s i := by
  obtain ⟨lv, hlv⟩ : ∃ lv, s.layers = lv + 2 := ⟨s.layers - 2, by omega⟩
  rw [hlv] at hn hfirst ⊢
  simp only [Nat.add_sub_cancel, show lv + 2 - 1 = lv + 1 by omega] at hn hfirst ⊢
  have hlayer : ∀ p, (setLayer (lv + 1, 0) none s).layer p = if p = (lv + 1, 0) then none else s.layer p :=
    fun p => setLayer_layer _
  have hv : ∀ i, value (setLayer (lv + 1, 0) none s) i = value s i := fun i => by
    apply value_congr
    rw [hlayer, if_neg (by simp)]
  have hv' : ∀ i, value (retop lv (setLayer (lv + 1, 0) none s)) i = value s i := hv
  have hone : usedSlots s (lv + 1) 0 = 1 := by
    have := h.count hn
    omega
  obtain ⟨w, hw⟩ := hfirst
  have hback : ∀ {a b v}, s.layer (a, b) = some v → (a, b) ≠ (lv + 1, 0) → a ≤ lv ∧ (a = lv → b = 0) := by
    intro a b v hp e
    have hin := h.inside hp
    refine ⟨by grind, fun ea => ?_⟩
    subst ea
    obtain ⟨v', hv'⟩ := h.parent hp (by omega)
    have hk := (h.inside hv').2 hlv.symm
    have hb : b < idrSize := Nat.lt_of_div_eq_zero (by decide) hk
    exact usedSlots_one hone (m := 0) (by decide) (by simp [used, hw]) hb (by simp [used, hp])
  refine ⟨?_, hv⟩
  refine
    { top := rfl
      layersLe := by
        have := h.layersLe
        show lv + 1 ≤ _
        omega
      root := fun _ => ⟨w, by grind⟩
      inside := by grind
      parent := fun {a b v} hp hlt => ?_
      level := fun {a b v} hp => h.level (k := b) (n := v) (by grind)
      bit := fun {a b v m} hp hm => ?_
      count := fun {a b v} hp => ?_
      null := fun {b v m} hp hm hb => h.null (k := b) (n := v) (by grind) hm hb }
  · obtain ⟨v', hv'⟩ := h.parent (l := a) (k := b) (n := v) (by grind) (by grind)
    exact ⟨v', by grind⟩
  · rw [Packed.same hv']
    exact h.bit (k := b) (n := v) (by grind) hm
  rw [usedSlots_congr fun m _ => ?_]
  · exact h.count (by grind)
  · refine used_congr hv' fun j hj => ?_
    grind

end G3Mod.Idr
