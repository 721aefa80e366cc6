import G3Mod.Idr.Lemmas.Grow

/-!
# Pointers come and go
-/

namespace G3Mod.Idr

open Function Lib

variable {s s' : State} {i id j l m k a b d fuel ptr : Nat} {n n' : Layer} {p : Name}

/-! ## One id changes -/

theorem Shape.on_path (h : Shape s) (hleaf : s.layer (0, place i 1) = some n) (hj : j < s.layers) :
    ∃ n', s.layer (j, place i (j + 1)) = some n' := by
  obtain ⟨n', hn'⟩ := h.ancestor hleaf (d := j) (by omega)
  rw [← place_add, Nat.zero_add, Nat.add_comm 1 j] at hn'
  exact ⟨n', hn'⟩

def SameLayers (s s' : State) : Prop :=
  (∀ p, (s'.layer p).isSome = (s.layer p).isSome) ∧ s'.top = s.top ∧ s'.layers = s.layers

theorem SameLayers.setLayer (hn : s.layer p = some n) : SameLayers s (setLayer p (some n') s) :=
  ⟨by grind, rfl, rfl⟩

theorem SameLayers.exists (h : SameLayers s s') : (∃ n, s'.layer p = some n) ↔ ∃ n, s.layer p = some n := by
  rw [← Option.isSome_iff_exists, ← Option.isSome_iff_exists, h.1]

theorem Shape.same (hs : Shape s) (h : SameLayers s s')
    (hlv : ∀ {l k n}, s'.layer (l, k) = some n → n.layer = l) : Shape s' := by
  refine ⟨by rw [h.2.1, h.2.2]; exact hs.top, by rw [h.2.2]; exact hs.layersLe, ?_, ?_, ?_, hlv⟩
  · rw [h.2.2]
    exact fun hpos => h.exists.mpr (hs.root hpos)
  · rw [h.2.2]
    intro l k n hn
    obtain ⟨n', hn'⟩ := h.exists.mp ⟨n, hn⟩
    exact hs.inside hn'
  rw [h.2.2]
  intro l k n hn hlt
  obtain ⟨n', hn'⟩ := h.exists.mp ⟨n, hn⟩
  exact h.exists.mpr (hs.parent hn' hlt)

theorem value_setLayer_above (v : Option Layer) : value (setLayer (l + 1, k) v s) i = value s i :=
  value_congr (by rw [setLayer_layer, if_neg (by simp)])

theorem value_setLayer_same (hn : s.layer (l, k) = some n) (hleaf : l = 0 → n'.bitmap = n.bitmap)
    (hary : n'.ary = n.ary) : value (setLayer (l, k) (some n') s) i = value s i := by
  cases l with
  | zero =>
    simp only [value, setLayer_layer]
    grind
  | succ l => exact value_setLayer_above _

def OnlyAt (id : Nat) (s s' : State) : Prop := ∀ i, i ≠ id → (value s' i).isSome = (value s i).isSome

theorem OnlyAt.packed (h : OnlyAt id s s') (hq : k ≠ place id l) : Packed s' l k ↔ Packed s l k :=
  Packed.congr fun i hi => h i fun e => hq (by rw [← hi, e])

theorem not_packed_of_free (h : ¬ Alloc s id) : ¬ Packed s l (place id l) := fun hp => h (hp id rfl)

theorem OnlyAt.usedSlots (h : OnlyAt id s s') (hd : SameLayers s s') (hne : (l, k) ≠ (0, place id 1)) :
    usedSlots s' l k = usedSlots s l k := by
  refine usedSlots_congr fun m hm => ?_
  cases l with
  | succ l => exact hd.1 _
  | zero =>
    refine h _ fun e => hne ?_
    rw [← e, place_one, mul_add_div hm]

theorem OnlyAt.usedSlots_leaf (h : OnlyAt id s s') :
    Idr.usedSlots s' 0 (place id 1) + (value s id).isSome.toNat =
      Idr.usedSlots s 0 (place id 1) + (value s' id).isSome.toNat := by
  have e : idrSize * place id 1 + id % idrSize = id := by rw [place_one]; exact Nat.div_add_mod id idrSize
  have hch := usedSlots_change s s' (l := 0) (k := place id 1) (m := id % idrSize) (Nat.mod_lt _ (by decide))
    fun j hj hjm => h (idrSize * place id 1 + j) fun e' => hjm (by rw [← e', mul_add_mod hj])
  rw [e] at hch
  exact hch

theorem slot_on_path (hm : m < idrSize) (h : idrSize * b + m = place id a) :
    b = place id (a + 1) ∧ m = digit id a := by
  rw [place_succ, digit_eq, ← h, mul_add_div hm, mul_add_mod hm]
  exact ⟨rfl, rfl⟩

@[grind =] def Above (id l a q : Nat) : Prop := l < a ∧ q = place id a

/-- The tree is well-formed, except that the bits of the slots `st` are clear and that the counts are too high by `ex`. -/
structure Nearly (s : State) (st : Nat → Nat → Prop) (ex : Name → Int) : Prop extends Shape s where
  bit : ∀ {l k n m}, s.layer (l, k) = some n → m < idrSize →
    (n.bitmap m = true ↔ Packed s l (idrSize * k + m) ∧ ¬ st l (idrSize * k + m))
  count : ∀ {l k n}, s.layer (l, k) = some n → n.count = usedSlots s l k + ex (l, k)
  null : ∀ {k n m}, s.layer (0, k) = some n → m < idrSize → n.bitmap m = false → n.ary m = 0

variable {st st' : Nat → Nat → Prop} {ex ex' : Name → Int}

theorem Wf.nearly (h : Wf s) (st : Nat → Nat → Prop)
    (hst : ∀ l q, l < s.layers → st l q → ¬ Packed s l q) : Nearly s st fun _ => 0 := by
  refine ⟨h.toShape, fun hn hm => ?_, fun hn => by rw [h.count hn, Int.add_zero], h.null⟩
  rw [h.bit hn hm, and_iff_left_of_imp fun hp hs => hst _ _ (h.inside hn).1 hs hp]

theorem Nearly.wf (h : Nearly s st fun _ => 0) (hst : ∀ l q, l < s.layers → st l q → ¬ Packed s l q) : Wf s := by
  refine ⟨h.toShape, fun hn hm => ?_, fun hn => by rw [h.count hn, Int.add_zero], h.null⟩
  rw [h.bit hn hm, and_iff_left_of_imp fun hp hs => hst _ _ (h.inside hn).1 hs hp]

theorem Nearly.change (h : Nearly s st ex) (hn : s.layer (l, k) = some n) (hlv : n'.layer = n.layer)
    (hary : n'.ary = n.ary) (hleaf : l = 0 → n'.bitmap = n.bitmap)
    (hbit : ∀ m < idrSize, n'.bitmap m = true ↔ Packed s l (idrSize * k + m) ∧ ¬ st' l (idrSize * k + m))
    (hcount : n'.count = usedSlots s l k + ex' (l, k))
    (hst : ∀ a b m, (a, b) ≠ (l, k) → m < idrSize → (st' a (idrSize * b + m) ↔ st a (idrSize * b + m)))
    (hex : ∀ p, p ≠ (l, k) → ex' p = ex p) : Nearly (setLayer (l, k) (some n') s) st' ex' := by
  have hsame : SameLayers s (setLayer (l, k) (some n') s) := .setLayer hn
  have hv : ∀ i, value (setLayer (l, k) (some n') s) i = value s i := fun i => value_setLayer_same hn hleaf hary
  refine ⟨h.toShape.same hsame ?_, fun {a b v m} hq hm => ?_, fun {a b v} hq => ?_, fun {b v m} hq hm hb => ?_⟩
  · intro a b v hq
    have := h.level hn
    have := @h.level a b v
    grind
  · rw [Packed.same hv]
    have := @h.bit a b v m
    grind
  · rw [usedSlots_congr (s := s) fun m _ => used_congr hv fun j _ => hsame.1 _]
    have := @h.count a b v
    grind
  · have := @h.null b n m
    have := @h.null b v m
    grind

theorem Nearly.setBit {e : Nat} {c : Bool} (h : Nearly s (Above id j) fun _ => 0)
    (hn : s.layer (l + 1, place id (l + 2)) = some n) (hj : ∀ a, a ≠ l + 1 → (e < a ↔ j < a))
    (hc : c = true ↔ Packed s (l + 1) (place id (l + 1)) ∧ ¬ e < l + 1) :
    Nearly (setLayer (l + 1, place id (l + 2)) (some (n.setBit (digit id (l + 1)) c)) s) (Above id e) fun _ => 0 := by
  have hcount := h.count hn
  refine h.change hn rfl rfl (fun e => absurd e (Nat.succ_ne_zero l)) (fun m hm => ?_) hcount
    (fun a b m hne hm => ?_) fun _ _ => rfl
  · have hslot := split_digit (i := id) (l := l + 1)
    have hpath : idrSize * place id (l + 2) + m = place id (l + 1) → _ := slot_on_path hm
    have := h.bit hn hm
    grind
  · have hpath : idrSize * b + m = place id a → _ := slot_on_path hm
    grind

/-! ## The leaf of an id -/

structure LeafChange (s : State) (id : Nat) (n n' : Layer) : Prop where
  leaf : s.layer (0, place id 1) = some n
  bitmap : ∀ m, m ≠ id % idrSize → n'.bitmap m = n.bitmap m
  ary : ∀ m, m ≠ id % idrSize → n'.ary m = n.ary m
  layer : n'.layer = n.layer

section

variable (h : LeafChange s id n n')

include h

theorem LeafChange.value :
    Idr.value (setLayer (0, place id 1) (some n') s) i =
      if i = id then (if n'.bitmap (id % idrSize) then some (n'.ary (id % idrSize)) else none)
      else Idr.value s i := by
  have hlayer : ∀ q, (setLayer (0, place id 1) (some n') s).layer q =
      if q = (0, place id 1) then some n' else s.layer q := fun q => setLayer_layer _
  by_cases e : i / idrSize = place id 1
  · have hl : (setLayer (0, place id 1) (some n') s).layer (0, i / idrSize) = some n' := by
      rw [hlayer, e, if_pos rfl]
    rw [value_of_leaf hl, value_of_leaf (s := s) (by rw [e]; exact h.leaf)]
    by_cases ei : i = id
    · rw [if_pos ei, ei]
    · have hm : i % idrSize ≠ id % idrSize := fun em => ei (by
        rw [← Nat.div_add_mod i idrSize, ← Nat.div_add_mod id idrSize, em, e, place_one])
      rw [if_neg ei, h.bitmap _ hm, h.ary _ hm]
  have ei : i ≠ id := fun ei => e (by rw [ei, place_one])
  rw [if_neg ei]
  apply value_congr
  rw [hlayer, if_neg (by simpa using e)]

theorem LeafChange.onlyAt : OnlyAt id s (setLayer (0, place id 1) (some n') s) :=
  fun i hi => by rw [h.value, if_neg hi]

theorem LeafChange.sameLayers :
    SameLayers s (setLayer (0, place id 1) (some n') s) := .setLayer h.leaf

theorem LeafChange.shape (hs : Shape s) :
    Shape (setLayer (0, place id 1) (some n') s) := by
  have := h.layer
  have := hs.level h.leaf
  refine hs.same h.sameLayers fun {l k v} hv => ?_
  have := @hs.level l k v
  grind

theorem LeafChange.nearly (hs : Nearly s st ex) (hnull : n'.bitmap (id % idrSize) = false → n'.ary (id % idrSize) = 0)
    (hon : ∀ {a v}, (setLayer (0, place id 1) (some n') s).layer (a, place id (a + 1)) = some v →
      (v.bitmap (digit id a) = true ↔
        Packed (setLayer (0, place id 1) (some n') s) a (place id a) ∧ ¬ st' a (place id a)))
    (hoff : ∀ a q, q ≠ place id a → (st' a q ↔ st a q))
    (hcount : n'.count = usedSlots (setLayer (0, place id 1) (some n') s) 0 (place id 1) + ex' (0, place id 1))
    (hex : ∀ p, p ≠ (0, place id 1) → ex' p = ex p) : Nearly (setLayer (0, place id 1) (some n') s) st' ex' := by
  refine ⟨h.shape hs.toShape, fun {a b v m} hq hm => ?_, fun {a b v} hq => ?_, fun {b v m} hq hm hb => ?_⟩
  · by_cases hne : idrSize * b + m = place id a
    · obtain ⟨rfl, rfl⟩ := slot_on_path hm hne
      rw [hne]
      exact hon hq
    rw [h.onlyAt.packed hne, hoff a _ hne]
    have hid : idrSize * place id 1 + id % idrSize = place id 0 := by rw [place_one, place_zero, Nat.div_add_mod]
    have := h.bitmap m
    have := hs.bit h.leaf hm
    have := @hs.bit a b v m
    grind
  · by_cases e : (a, b) = (0, place id 1)
    · grind
    · rw [h.onlyAt.usedSlots h.sameLayers e, hex _ e]
      exact hs.count (by grind)
  · have := h.ary m
    have := h.bitmap m
    have := hs.null h.leaf hm
    have := @hs.null b v m
    grind

theorem LeafChange.wf_of_same (hs : Wf s) (hb : n'.bitmap = n.bitmap)
    (hc : n'.count = n.count) (hnull : n'.bitmap (id % idrSize) = false → n'.ary (id % idrSize) = 0) :
    Wf (setLayer (0, place id 1) (some n') s) := by
  have hsome : ∀ i, (Idr.value (setLayer (0, place id 1) (some n') s) i).isSome = (Idr.value s i).isSome := fun i => by
    rw [h.value, hb]
    have := value_of_leaf (s := s) (i := id) (by rw [← place_one]; exact h.leaf)
    grind
  refine (h.nearly (hs.nearly (fun _ _ => False) fun _ _ _ => False.elim) hnull (fun {a v} hq => ?_)
    (fun _ _ _ => Iff.rfl) ?_ fun _ _ => rfl).wf fun _ _ _ => False.elim
  · rw [Packed.congr fun i _ => hsome i, not_false_eq_true, and_true, split_digit]
    have := hs.bit h.leaf (digit_lt (i := id) (l := 0))
    have := fun hv => hs.bit (l := a) (k := place id (a + 1)) (n := v) hv (digit_lt (i := id) (l := a))
    grind
  · rw [hc, usedSlots_congr (s := s) (l := 0) fun m _ => hsome _, hs.count h.leaf, Int.add_zero]

end

theorem replaceLoop_eq (id : Nat) (h : Wf s) (hl : l < s.layers) :
    (replaceLoop id l (l, place id (l + 1)) s = (0, place id 1)) ∨
      (value s id = none ∧ s.layer (replaceLoop id l (l, place id (l + 1)) s) = none) := by
  induction l with
  | zero => exact .inl rfl
  | succ l ih =>
    cases hn : s.layer (l + 1, place id (l + 2)) with
    | none =>
      refine .inr ⟨h.value_none_of_missing hl hn, ?_⟩
      rw [replaceLoop, hn]
      exact hn
    | some n =>
      rw [replaceLoop, hn]
      rw [child_place]
      exact ih (by omega)

theorem Wf.idrReplace_eq (h : Wf s) (ptr : Nat) (hi : id < maxIdBit) :
    ∃ s', idrReplace ptr id s = .ok (value s id, s') ∧ Wf s' ∧
      ∀ i, value s' i = if i = id ∧ (value s id).isSome then some ptr else value s i := by
  by_cases hl : s.layers = 0
  · have hnone : value s id = none := value_of_no_leaf (h.empty hl _)
    refine ⟨s, ?_, h, fun i => ?_⟩
    · rw [idrReplace, h.top, if_pos hl, hnone]
    · rw [hnone, if_neg (by simp)]
  obtain ⟨n, hn⟩ := h.root (by omega)
  have hlv := h.level hn
  have hsucc : s.layers - 1 + 1 = s.layers := by omega
  have hfail : value s id = none → ∃ s', (.ok (none, s) : Except Bug (Option Nat × State)) = .ok (value s id, s') ∧
      Wf s' ∧ ∀ i, value s' i = if i = id ∧ (value s id).isSome then some ptr else value s i := fun hnone =>
    ⟨s, by rw [hnone], h, fun i => by rw [hnone, if_neg (by simp)]⟩
  simp only [idrReplace, h.top_eq (by omega), getLayer_eq.mpr hn, ok_bind, Nat.mod_eq_of_lt hi]
  rw [hlv, hsucc, Nat.mul_comm, two_pow_mul]
  split
  · next hge => exact hfail (h.value_none_of_ge hge)
  have hplace : place id (s.layers - 1 + 1) = 0 := by rw [hsucc]; exact place_top (by omega)
  rcases replaceLoop_eq id h (l := s.layers - 1) (by omega) with e | ⟨hnone, e⟩
  · rw [hplace] at e
    rw [e]
    cases hleaf : s.layer (0, place id 1) with
    | none => exact hfail (value_of_no_leaf (by rw [← place_one]; exact hleaf))
    | some v =>
      have hval := value_of_leaf (s := s) (i := id) (by rw [← place_one]; exact hleaf)
      simp only
      by_cases hb : v.bitmap (id % idrSize) = true
      · rw [if_pos hb] at hval ⊢
        have hch : LeafChange s id v { v with ary := update v.ary (id % idrSize) ptr } :=
          ⟨hleaf, fun _ _ => rfl, fun m hm => update_of_ne hm _ _, rfl⟩
        have hv : ∀ i, value (setLayer (0, place id 1) (some { v with ary := update v.ary (id % idrSize) ptr }) s) i =
            if i = id then some ptr else value s i := fun i => by
          rw [hch.value]
          simp only [hb, if_true, update_self]
        refine ⟨_, by rw [hval], hch.wf_of_same h rfl rfl (by grind), fun i => ?_⟩
        rw [hv, hval]
        simp
      · rw [if_neg hb] at hval ⊢
        exact hfail hval
  · rw [hplace] at e
    rw [e]
    exact hfail hnone

theorem Nearly.markFullLoop {pa : Nat → Option Name} (h : Nearly s (Above id l) fun _ => 0) (fuel : Nat) (hl : l < s.layers)
    (hleaf : ∃ n, s.layer (0, place id 1) = some n) (hpa : ∀ j, j < s.layers → pa j = some (j, place id (j + 1)))
    (hend : pa s.layers = none) (hf : s.layers < fuel + l + 1) :
    ∃ s', markFullLoop pa fuel (l, place id (l + 1)) l (place id l) s = .ok s' ∧ Wf s' ∧
      ∀ i, value s' i = value s i := by
  induction fuel generalizing l s with
  | zero => omega
  | succ fuel ih =>
    obtain ⟨v, hv⟩ := hleaf
    obtain ⟨n, hn⟩ := h.on_path hv hl
    have hfull : n.full = true ↔ Packed s (l + 1) (place id (l + 1)) := by
      rw [full_iff, packed_succ]
      exact forall₂_congr fun m hm => (h.bit hn hm).trans (and_iff_left fun ha => Nat.lt_irrefl l ha.1)
    rw [Idr.markFullLoop]
    simp only [getLayer_eq.mpr hn, ok_bind]
    by_cases hx : n.full = true
    · rw [if_pos hx]
      by_cases e : l + 1 = s.layers
      · rw [e, hend]
        exact ⟨s, rfl, h.wf fun a q hlt ha => by unfold Above at ha; omega, fun _ => rfl⟩
      have hlt : l + 1 < s.layers := by omega
      obtain ⟨n', hn'⟩ := h.on_path hv hlt
      rw [hpa (l + 1) hlt]
      have hid : place id l >>> idrBits = place id (l + 1) := by
        rw [place_succ, Nat.shiftRight_eq_div_pow]
        rfl
      simp only [getLayer_eq.mpr hn', ok_bind, hid]
      rw [← digit_eq]
      have hset := h.setBit (e := l + 1) (c := true) hn' (by omega) (iff_of_true rfl ⟨hfull.mp hx, Nat.lt_irrefl _⟩)
      obtain ⟨s', hs', hw, hv'⟩ := ih hset hlt
        ⟨v, by rw [setLayer_layer, if_neg (by simp)]; exact hv⟩ hpa hend (by simp only [setLayer_layers]; omega)
      exact ⟨s', hs', hw, fun i => by rw [hv', value_setLayer_above]⟩
    · rw [if_neg hx]
      refine ⟨s, rfl, h.wf fun a q _ ha hp => hx (hfull.mpr fun i hi => hp i ?_), fun _ => rfl⟩
      rw [ha.2]
      exact place_congr hi ha.1

theorem Wf.install_eq {pa : Nat → Option Name} (h : Wf s) (ptr : Nat) (hlt : 0 < s.layers) (hfree : ¬ Alloc s id)
    (hleaf : ∃ n, s.layer (0, place id 1) = some n) (hpa : ∀ j, j < s.layers → pa j = some (j, place id (j + 1)))
    (hend : pa s.layers = none) :
    ∃ s', install pa id ptr s = .ok s' ∧ Wf s' ∧ ∀ i, value s' i = if i = id then some ptr else value s i := by
  obtain ⟨n, hn⟩ := hleaf
  let n1 : Layer := { n with ary := update n.ary (id % idrSize) ptr, count := n.count + 1 }
  let n' : Layer := n1.setBit (id % idrSize) true
  have hch : LeafChange s id n n' :=
    ⟨hn, fun m hm => by simp only [n', setBit_bitmap, if_neg hm, n1], fun m hm => update_of_ne hm _ _, rfl⟩
  have hbit : n'.bitmap (id % idrSize) = true := by simp [n', setBit_bitmap]
  have hv : ∀ i, value (setLayer (0, place id 1) (some n') s) i = if i = id then some ptr else value s i := fun i => by
    rw [hch.value, if_pos hbit]
    simp only [n', n1, Layer.setBit, update_self]
  have hnone : value s id = none := by
    rw [Alloc, Bool.not_eq_true, Option.isSome_eq_false_iff, Option.isNone_iff_eq_none] at hfree
    exact hfree
  have hmarked : Nearly (setLayer (0, place id 1) (some n') s) (Above id 0) fun _ => 0 := by
    refine hch.nearly (h.nearly (Above id 0) fun l q _ ha => ha.2 ▸ not_packed_of_free hfree)
      (fun e => by rw [hbit] at e; cases e) (fun {a v} hq => ?_) (fun _ _ _ => Iff.rfl) ?_ fun _ _ => rfl
    · by_cases ha : a = 0
      · -- the slot of the id itself
        subst ha
        rw [place_zero, packed_zero, Alloc, hv, if_pos rfl, digit_eq, place_zero]
        grind
      · have hq : s.layer (a, place id (a + 1)) = some v := by grind
        have hp := h.bit hq (digit_lt (i := id) (l := a))
        rw [← split_digit] at hp
        have := not_packed_of_free (l := a) hfree
        grind
    · have hus := hch.onlyAt.usedSlots_leaf
      have hc := h.count hn
      have : n'.count = n.count + 1 := rfl
      grind
  have hlayers : s.layers ≤ 6 := h.layersLe
  obtain ⟨s', hs', hw, hv'⟩ := hmarked.markFullLoop (maxLevel + 1) hlt
    (hch.sameLayers.exists.mpr ⟨n, hn⟩) hpa hend (by show s.layers < 7 + 1 + 0 + 1; omega)
  refine ⟨s', ?_, hw, fun i => by rw [hv', hv]⟩
  rw [install, hpa 0 hlt]
  simp only [getLayer_eq.mpr hn, ok_bind]
  rw [place_zero] at hs'
  exact hs'

end G3Mod.Idr
