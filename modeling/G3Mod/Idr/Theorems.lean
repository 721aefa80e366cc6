import G3Mod.Idr.Lemmas.Update

/-!
# `idr_remove`

On the way down the bits above the id are cleared.
-/

namespace G3Mod.Idr

open Function Lib

variable {s s' : State} {i id j l m k a b d : Nat} {n n' : Layer} {p : Name}

/-! ## The way down -/

def wayUp (id l d : Nat) : List Name := (List.range' l d).map fun j => (j, place id (j + 1))

theorem wayUp_succ : wayUp id l (d + 1) = (l, place id (l + 1)) :: wayUp id (l + 1) d := rfl

theorem wayUp_concat (path : List Name) :
    wayUp id 0 (d + 1) ++ (d + 1, place id (d + 2)) :: path = wayUp id 0 (d + 2) ++ path := by
  rw [wayUp, wayUp, List.range'_1_concat (n := d + 1), List.map_append, List.append_assoc, Nat.zero_add]
  rfl

theorem removeDown_nearly (h : Nearly s (Above id l) fun _ => 0) (hl : l < s.layers) (path : List Name)
    (hleaf : s.layer (0, place id 1) = some n) :
    ∃ s', removeDown id l (l, place id (l + 1)) path s = .ok (wayUp id 0 (l + 1) ++ path, s') ∧
      Nearly s' (Above id 0) (fun _ => 0) ∧ s'.layers = s.layers ∧ ∀ k, s'.layer (0, k) = s.layer (0, k) := by
  induction l generalizing s path with
  | zero => exact ⟨s, rfl, h, rfl, fun _ => rfl⟩
  | succ l ih =>
    obtain ⟨n1, hn1⟩ := h.on_path hleaf hl
    have hset := h.setBit (e := l) (c := false) hn1 (by omega) (iff_of_false (by simp) (by simp))
    have hleaf' : ∀ k, (setLayer (l + 1, place id (l + 2)) (some (n1.setBit (digit id (l + 1)) false)) s).layer (0, k) =
        s.layer (0, k) := fun k => by rw [setLayer_layer, if_neg (by simp)]
    obtain ⟨s', hs', hw, hlayers, hk⟩ := ih hset (Nat.lt_of_succ_lt hl) ((l + 1, place id (l + 2)) :: path)
      ((hleaf' _).trans hleaf)
    refine ⟨s', ?_, hw, hlayers, fun k => (hk k).trans (hleaf' k)⟩
    rw [removeDown, hn1]
    simp only
    rw [child_place, hs', wayUp_concat]

/-! ## The way back -/

/-- The layer of level `l` on the way to `id` still counts the slot that is gone. -/
structure Pending (s : State) (id l : Nat) : Prop
    extends Nearly s (fun _ _ => False) fun p => if p = (l, place id (l + 1)) then 1 else 0 where
  here : ∃ n, s.layer (l, place id (l + 1)) = some n

theorem Pending.settle (h : Pending s id l) (hn : s.layer (l, place id (l + 1)) = some n) :
    Wf (setLayer (l, place id (l + 1)) (some { n with count := n.count - 1 }) s) ∧
      ∀ i, value (setLayer (l, place id (l + 1)) (some { n with count := n.count - 1 }) s) i = value s i := by
  have hcount := h.count hn
  have hbit := fun m hm => h.bit (m := m) hn hm
  rw [if_pos rfl] at hcount
  have hnear : Nearly (setLayer (l, place id (l + 1)) (some { n with count := n.count - 1 }) s) (fun _ _ => False) fun _ => 0 :=
    h.toNearly.change hn rfl rfl (fun _ => rfl) hbit (by simp only; omega) (fun _ _ _ _ _ => Iff.rfl)
      fun p hp => (if_neg hp).symm
  exact ⟨hnear.wf fun _ _ _ => False.elim, fun i => value_setLayer_same hn (fun _ => rfl) rfl⟩

theorem Pending.clear (h : Pending s id l) (hz : usedSlots s l (place id (l + 1)) = 0) (hl : l + 1 = s.layers) :
    Wf { setLayer (l, place id (l + 1)) none s with top := none, layers := 0 } ∧
      ∀ i, value (setLayer (l, place id (l + 1)) none s) i = none := by
  obtain ⟨n, hn⟩ := h.here
  have hroot : place id (l + 1) = 0 := (h.inside hn).2 hl
  rw [hroot] at hz hn ⊢
  have hnone : ∀ q, (setLayer (l, 0) none s).layer q = none := fun q => by
    have := fun v => h.toShape.only_top (p := q) (n := v) hl.symm hz
    cases hq : s.layer q <;> grind
  exact ⟨Wf.of_no_layers hnone rfl rfl, fun i => value_of_no_leaf (hnone _)⟩

theorem Pending.free (h : Pending s id l) (hz : usedSlots s l (place id (l + 1)) = 0) (hl : l + 1 < s.layers) :
    Pending (setLayer (l, place id (l + 1)) none s) id (l + 1) ∧
      ∀ i, value (setLayer (l, place id (l + 1)) none s) i = value s i := by
  obtain ⟨n, hn⟩ := h.here
  have hlayer : ∀ q, (setLayer (l, place id (l + 1)) none s).layer q =
      if q = (l, place id (l + 1)) then none else s.layer q := fun q => setLayer_layer none
  have hback : ∀ {q v}, (setLayer (l, place id (l + 1)) none s).layer q = some v →
      q ≠ (l, place id (l + 1)) ∧ s.layer q = some v := by grind
  have hkeep : ∀ {q}, q ≠ (l, place id (l + 1)) → (∃ v, s.layer q = some v) →
      ∃ v, (setLayer (l, place id (l + 1)) none s).layer q = some v := by
    rintro q hne ⟨v, hq⟩
    exact ⟨v, by rw [hlayer, if_neg hne, hq]⟩
  have hv : ∀ i, value (setLayer (l, place id (l + 1)) none s) i = value s i := by
    intro i
    by_cases e : (0, i / idrSize) = (l, place id (l + 1))
    · -- the slots of an empty leaf are not in use
      cases l with
      | zero =>
        have hi : i / idrSize = place id 1 := by simpa using e
        have hu := usedSlots_eq_zero.mp hz (i % idrSize) (Nat.mod_lt _ (by decide))
        rw [← hi, Nat.div_add_mod] at hu
        rw [value_of_no_leaf (by rw [hlayer, if_pos e])]
        exact (Option.isNone_iff_eq_none.mp (by simpa [used] using hu)).symm
      | succ l => cases e
    · apply value_congr
      rw [hlayer, if_neg e]
  obtain ⟨n1, hn1⟩ := h.parent hn hl
  rw [← place_succ] at hn1
  refine ⟨⟨⟨⟨h.top, h.layersLe, ?_, ?_, ?_, ?_⟩, ?_, ?_, ?_⟩, hkeep (by simp) ⟨n1, hn1⟩⟩, hv⟩
  · intro hpos
    refine hkeep ?_ (h.root hpos)
    simp only [ne_eq, Prod.mk.injEq, not_and, setLayer_layers]
    omega
  · exact fun hq => h.inside (hback hq).2
  · intro a b v hq hlt
    have hq0 := (hback hq).2
    refine hkeep (fun e => ?_) (h.parent hq0 hlt)
    -- the layer would hang below the empty one
    simp only [Prod.mk.injEq] at e
    obtain ⟨rfl, hb⟩ := e
    have hu := usedSlots_eq_zero.mp hz (b % idrSize) (Nat.mod_lt _ (by decide))
    rw [← hb, Nat.div_add_mod, used, hq0] at hu
    cases hu
  · exact fun hq => h.level (hback hq).2
  · intro a b v m hq hm
    rw [Packed.same hv]
    exact h.bit (hback hq).2 hm
  · intro a b v hq
    obtain ⟨hne, hq⟩ := hback hq
    rw [h.count hq, if_neg hne, Int.add_zero]
    have hused : ∀ m < idrSize, (a, idrSize * b + m) ≠ (l + 1, place id (l + 1)) →
        used (setLayer (l, place id (l + 1)) none s) a (idrSize * b + m) = used s a (idrSize * b + m) := by
      intro m hm hne'
      refine used_congr hv fun j hj => ?_
      subst hj
      rw [hlayer, if_neg fun e => hne' (by simpa using e)]
    by_cases e : (a, b) = (l + 1, place id (l + 2))
    · cases e
      have hch := usedSlots_change s (setLayer (l, place id (l + 1)) none s) (l := l + 1)
        (k := place id (l + 2)) (m := digit id (l + 1)) digit_lt fun j hj hjm => hused j hj fun e => hjm ?_
      · have hslot : idrSize * place id (l + 2) + digit id (l + 1) = place id (l + 1) := by rw [digit_eq, split_place]
        rw [hslot] at hch
        simp only [used, hn, hlayer, if_true, Option.isSome_some, Option.isSome_none, Bool.toNat_true,
          Bool.toNat_false, Nat.add_zero] at hch
        rw [if_pos rfl, ← hch]
        rfl
      · simp only [Prod.mk.injEq, true_and] at e
        exact (slot_on_path hj e).2
    · rw [if_neg e, Int.add_zero, usedSlots_congr fun m hm => hused m hm fun e' => e ?_]
      simp only [Prod.mk.injEq] at e' ⊢
      obtain ⟨rfl, e'⟩ := e'
      exact ⟨rfl, (slot_on_path hm e').1⟩
  · exact fun hq hm hb => h.null (hback hq).2 hm hb

theorem Pending.removeUp (h : Pending s id l) (hd : l + (d + 1) = s.layers) :
    ∃ s', removeUp (wayUp id l (d + 1)) s = .ok s' ∧ Wf s' ∧ ∀ i, value s' i = value s i := by
  induction d generalizing l s with
  | zero =>
    obtain ⟨n, hn⟩ := h.here
    have hc := h.count hn
    rw [if_pos rfl] at hc
    rw [wayUp_succ, Idr.removeUp]
    simp only [getLayer_eq.mpr hn, ok_bind]
    by_cases hz : n.count - 1 = 0
    · rw [if_pos hz]
      obtain ⟨hw, hv⟩ := h.clear (by omega) hd
      refine ⟨_, rfl, hw, fun i => (hv i).trans ?_⟩
      -- no id is left in a tree whose top layer is empty
      have hroot : place id (l + 1) = 0 := (h.inside hn).2 hd
      have hz' : usedSlots s l 0 = 0 := by rw [← hroot]; omega
      cases hleaf : s.layer (0, i / idrSize) with
      | none => rw [value_of_no_leaf hleaf]
      | some w =>
        have e := h.toShape.only_top hd.symm hz' hleaf
        simp only [Prod.mk.injEq] at e
        obtain ⟨rfl, e⟩ := e
        have hu : (value s (idrSize * 0 + i % idrSize)).isSome = false :=
          usedSlots_eq_zero.mp hz' (i % idrSize) (Nat.mod_lt _ (by decide))
        rw [← e, Nat.div_add_mod] at hu
        exact (by simpa using hu : value s i = none).symm
    · rw [if_neg hz]
      exact ⟨_, rfl, h.settle hn⟩
  | succ d ih =>
    obtain ⟨n, hn⟩ := h.here
    have hc := h.count hn
    rw [if_pos rfl] at hc
    rw [wayUp_succ, Idr.removeUp]
    simp only [getLayer_eq.mpr hn, ok_bind]
    by_cases hz : n.count - 1 = 0
    · rw [if_pos hz]
      obtain ⟨hp, hv⟩ := h.free (by omega) (by omega)
      obtain ⟨s', hs', hw, hv'⟩ := ih hp (by simp only [setLayer_layers]; omega)
      exact ⟨s', hs', hw, fun i => (hv' i).trans (hv i)⟩
    · rw [if_neg hz]
      exact ⟨_, rfl, h.settle hn⟩

theorem Wf.subRemove_eq (h : Wf s) (ha : Alloc s id) :
    ∃ s', subRemove id s = .ok s' ∧ Wf s' ∧ ∀ i, value s' i = if i = id then none else value s i := by
  obtain ⟨n, hn⟩ : ∃ n, s.layer (0, place id 1) = some n := by
    cases hleaf : s.layer (0, place id 1) with
    | some n => exact ⟨n, rfl⟩
    | none =>
      rw [Alloc, value_of_no_leaf (by rw [← place_one]; exact hleaf)] at ha
      cases ha
  have hpos : 0 < s.layers := (h.inside hn).1
  have hlt : id < idrSize ^ s.layers := by
    by_contra hge
    rw [Alloc, h.value_none_of_ge (Nat.le_of_not_lt hge)] at ha
    cases ha
  have hsucc : s.layers - 1 + 1 = s.layers := by omega
  have hplace : place id (s.layers - 1 + 1) = 0 := by rw [hsucc]; exact place_top hlt
  have hbit : n.bitmap (id % idrSize) = true := by
    rw [Alloc, value_of_leaf (by rw [← place_one]; exact hn)] at ha
    by_contra hb
    rw [if_neg hb] at ha
    cases ha
  obtain ⟨s1, hs1, hnear, hlayers, hleaf⟩ := removeDown_nearly (l := s.layers - 1)
    (h.nearly (Above id (s.layers - 1)) fun l q hlt ha => by unfold Above at ha; omega) (by omega) [] hn
  have hn1 : s1.layer (0, place id 1) = some n := (hleaf _).trans hn
  have hv1 : ∀ i, value s1 i = value s i := fun i => value_congr (hleaf _)
  have hch : LeafChange s1 id n (n.clearSlot (id % idrSize)) :=
    ⟨hn1, fun m hm => by simp only [Layer.clearSlot, setBit_bitmap, if_neg hm], fun m hm => update_of_ne hm _ _, rfl⟩
  have hcl : (n.clearSlot (id % idrSize)).bitmap (id % idrSize) = false := by
    simp [Layer.clearSlot, setBit_bitmap]
  have hv : ∀ i, value (setLayer (0, place id 1) (some (n.clearSlot (id % idrSize))) s1) i =
      if i = id then none else value s i := fun i => by
    rw [hch.value, hcl, hv1]
    rfl
  have hfree : ¬ Alloc (setLayer (0, place id 1) (some (n.clearSlot (id % idrSize))) s1) id := by
    rw [Alloc, hv, if_pos rfl]
    simp
  have hpend : Pending (setLayer (0, place id 1) (some (n.clearSlot (id % idrSize))) s1) id 0 := by
    refine ⟨hch.nearly hnear (fun _ => update_self _ _ _) (fun {a v} hq => ?_) (fun a q hq => ?_) ?_
      fun p hp => if_neg hp, hch.sameLayers.exists.mpr ⟨n, hn1⟩⟩
    · refine iff_of_false ?_ fun hp => not_packed_of_free hfree hp.1
      by_cases ha0 : a = 0
      · subst ha0
        rw [digit_eq, place_zero]
        grind
      · rw [setLayer_layer, if_neg (by simp [ha0])] at hq
        have hb := hnear.bit hq (digit_lt (i := id) (l := a))
        rw [hb, ← split_digit]
        exact fun hx => hx.2 ⟨Nat.pos_of_ne_zero ha0, rfl⟩
    · exact iff_of_false not_false fun hx => hq hx.2
    · have hus := hch.onlyAt.usedSlots_leaf
      have hcount : (n.clearSlot (id % idrSize)).count = n.count := rfl
      rw [hv, hv1, if_pos rfl, show (value s id).isSome = true from ha] at hus
      simp only [Option.isSome_none, Bool.toNat_false, Nat.add_zero, Bool.toNat_true] at hus
      rw [hcount, hnear.count hn1, if_pos rfl, ← hus]
      rfl
  obtain ⟨s', hs', hw, hv'⟩ := hpend.removeUp (d := s.layers - 1) (by
    rw [setLayer_layers, hlayers]
    omega)
  refine ⟨s', ?_, hw, fun i => (hv' i).trans (hv i)⟩
  rw [subRemove, h.top_eq hpos]
  rw [hplace] at hs1
  simp only [hs1, ok_bind, List.append_nil]
  rw [wayUp_succ] at hs' ⊢
  simp only [hn1, hbit, if_true]
  exact hs'

theorem Wf.shrink_eq (h : Wf s) : ∃ s', shrink s = .ok s' ∧ Wf s' ∧ ∀ i, value s' i = value s i := by
  by_cases hl : s.layers = 0
  · exact ⟨s, by rw [shrink, h.top, if_pos hl], h, fun _ => rfl⟩
  obtain ⟨n, hn⟩ := h.root (by omega)
  simp only [shrink, h.top_eq (by omega), getLayer_eq.mpr hn, ok_bind]
  split
  next hc =>
    obtain ⟨hcount, hlt, hchild⟩ := hc
    obtain ⟨hw, hv⟩ := h.dropTop hlt hn hcount (Option.isSome_iff_exists.mp hchild)
    refine ⟨_, rfl, ?_, hv⟩
    have e : s.layers - 2 + 1 = s.layers - 1 := by omega
    have := hw
    rw [retop, e] at this
    exact this
  · exact ⟨s, rfl, h, fun _ => rfl⟩

theorem Wf.idrRemove_eq (h : Wf s) (hi : id < maxIdBit) (ha : Alloc s id) :
    ∃ s', idrRemove id s = .ok s' ∧ Wf s' ∧ ∀ i, value s' i = if i = id then none else value s i := by
  obtain ⟨s1, hs1, hw1, hv1⟩ := h.subRemove_eq ha
  obtain ⟨s2, hs2, hw2, hv2⟩ := hw1.shrink_eq
  refine ⟨{ s2 with idFreeCnt := min s2.idFreeCnt (idrFreeMax - 1) }, ?_, hw2.congr rfl rfl rfl,
    fun i => (hv2 i).trans (hv1 i)⟩
  simp only [idrRemove, Nat.mod_eq_of_lt hi, hs1, hs2, ok_bind]

/-! # The id allocator as a map from ids to pointers -/

variable {t : State} {start ptr : Nat}

abbrev Assoc := Nat → Option Nat

def Assoc.step (m : Assoc) : Op × Out → Assoc
  | (.getNewAbove ptr _, .getNewAbove (.ok id)) => update m id (some ptr)
  | (.replace ptr id, .replace (some _)) => update m id (some ptr)
  | (.remove id, .remove) => update m id none
  | _ => m

def Assoc.after (es : List (Op × Out)) : Assoc := es.foldl step fun _ => none

inductive Correct (m : Assoc) : Op → Out → Prop
  | preGet {avail : Nat} {ok : Bool} : Correct m (.preGet avail) (.preGet ok)
  | taken {ptr start id : Nat} : start ≤ id → id < maxIdBit → m id = none →
      (∀ j, start ≤ j → j < id → (m j).isSome) → Correct m (.getNewAbove ptr start) (.getNewAbove (.ok id))
  | failed {ptr start : Nat} {e : Errno} : Correct m (.getNewAbove ptr start) (.getNewAbove (.error e))
  | find {id : Nat} : Correct m (.find id) (.find ((m id).getD 0))
  | replace {ptr id : Nat} : Correct m (.replace ptr id) (.replace (m id))
  | remove {id : Nat} : Correct m (.remove id) .remove

structure Holds (s : State) (m : Assoc) : Prop where
  wf : Wf s
  value : ∀ i, value s i = m i

theorem Holds.idrFind_eq {m : Assoc} (h : Holds s m) (hi : i < maxIdBit) : idrFind i s = .ok ((m i).getD 0) := by
  rw [h.wf.idrFind_eq hi, h.value]

theorem idrPreGet_layer (avail : Nat) : (idrPreGet avail s).1.layer = s.layer ∧ (idrPreGet avail s).1.top = s.top ∧
    (idrPreGet avail s).1.layers = s.layers := by
  unfold idrPreGet
  split <;> exact ⟨rfl, rfl, rfl⟩

theorem Holds.getNewAbove {m : Assoc} (h : Holds s m) (ptr : Nat) (hroom : Room s start) :
    ∃ r t, idrGetNewAbove ptr start s = .ok (r, t) ∧ Correct m (.getNewAbove ptr start) (.getNewAbove r) ∧
      Holds t (m.step (.getNewAbove ptr start, .getNewAbove r)) := by
  obtain ⟨r, hr, hslot⟩ := idrGetEmptySlot_slot h.wf hroom
  cases hslot with
  | @found i pa s1 s2 hv hs =>
    have hval : ∀ j, Idr.value s2 j = m j := fun j => (hs.grown.value j).trans ((hv j).trans (h.value j))
    have hval1 : ∀ j, Idr.value s1 j = m j := fun j => (hv j).trans (h.value j)
    have hlayers := hs.grown.layers
    have hpos : 0 < s2.layers := by
      obtain ⟨n, hn⟩ := hs.leaf
      exact (hs.grown.wf.inside hn).1
    obtain ⟨t, ht, hw, hvt⟩ := hs.grown.wf.install_eq ptr hpos (by rw [Alloc, hs.grown.value]; exact hs.free)
      hs.leaf (hlayers ▸ hs.path) (hlayers ▸ hs.end_)
    refine ⟨.ok i, t, ?_, .taken hs.le ?_ ?_ ?_, hw, fun j => ?_⟩
    · simp only [idrGetNewAbove, hr, ok_bind, ht]
    · have hlt := hs.lt
      have hle : idrSize ^ s1.layers ≤ 2 ^ 30 := by
        rw [← hlayers]
        exact size_pow_le hs.grown.wf
      show i < 2 ^ 31
      omega
    · have hfree := hs.free
      rw [Alloc, hval1, Bool.not_eq_true, Option.isSome_eq_false_iff, Option.isNone_iff_eq_none] at hfree
      exact hfree
    · intro j hj hlt
      have := hs.least j hj hlt
      rwa [Alloc, hval1] at this
    · rw [hvt, hval]
      simp only [Assoc.step, update_apply]
  | noMemory hw hv =>
    refine ⟨.error .eagain, _, ?_, .failed, hw, fun j => (hv j).trans (h.value j)⟩
    simp only [idrGetNewAbove, hr, ok_bind]

theorem Holds.exec {m : Assoc} (h : Holds s m) {op : Op} (hp : op.Permitted s)
    (hroom : ∀ ptr start, op = .getNewAbove ptr start → Room s start) :
    ∃ o t, exec s op = .ok (o, t) ∧ Correct m op o ∧ Holds t (m.step (op, o)) := by
  cases op with
  | preGet avail =>
    obtain ⟨hl, ht, hn⟩ := idrPreGet_layer (s := s) avail
    exact ⟨_, _, rfl, .preGet, h.wf.congr hl ht hn, fun i => (value_congr (by rw [hl])).trans (h.value i)⟩
  | getNewAbove ptr start =>
    obtain ⟨r, t, hr, hc, ht⟩ := h.getNewAbove ptr (hroom ptr start rfl)
    exact ⟨_, t, by simp only [Idr.exec, hr, ok_bind], hc, ht⟩
  | find id =>
    exact ⟨_, s, by simp only [Idr.exec, h.idrFind_eq hp, ok_bind], .find, h⟩
  | replace ptr id =>
    obtain ⟨t, hr, hw, hv⟩ := h.wf.idrReplace_eq ptr hp
    rw [h.value] at hr
    refine ⟨_, t, by simp only [Idr.exec, hr, ok_bind], .replace, hw, fun i => ?_⟩
    rw [hv, h.value, h.value]
    cases hm : m id with
    | none => simp [Assoc.step]
    | some v => simp [Assoc.step, update_apply]
  | remove id =>
    obtain ⟨hlt, ha⟩ := hp
    obtain ⟨t, hr, hw, hv⟩ := h.wf.idrRemove_eq hlt ha
    refine ⟨_, t, by simp only [Idr.exec, hr, ok_bind], .remove, hw, fun i => ?_⟩
    rw [hv, h.value]
    simp only [Assoc.step, update_apply]

theorem holds_empty : Holds emptyIdr fun _ => none :=
  ⟨Wf.of_no_layers (fun _ => rfl) rfl rfl, fun _ => rfl⟩

def roomyMachine : Machine State Op Out Bug where
  init := machine.init
  enabled s op := op.Permitted s ∧ ∀ ptr start, op = .getNewAbove ptr start → Room s start
  exec := exec

theorem roomyMachine_holds {es : List (Op × Out)} (h : roomyMachine.Run emptyIdr es t) :
    Holds t (.after es) := by
  refine h.summary (fun {s m op o t} hs he hx => ?_) holds_empty
  obtain ⟨o', t', hx', _, ht⟩ := hs.exec he.1 he.2
  have hx : exec s op = .ok (o, t) := hx
  rw [hx] at hx'
  cases hx'
  exact ht

/-- With room for each call, `idr_find` returns what has been associated with an id, and no `BUG_ON` is reached. -/
theorem roomy_idr_is_map {es : List (Op × Out)} (h : roomyMachine.Run emptyIdr es t) :
    (∀ i < maxIdBit, idrFind i t = .ok ((Assoc.after es i).getD 0)) ∧ (∀ i, value t i = Assoc.after es i) ∧
      ∀ op, roomyMachine.enabled t op → ∃ o u, exec t op = .ok (o, u) ∧ Correct (.after es) op o ∧
        ∀ i < maxIdBit, idrFind i u = .ok (((Assoc.after es).step (op, o) i).getD 0) := by
  have ht := roomyMachine_holds h
  refine ⟨fun i hi => ht.idrFind_eq hi, ht.value, fun op hop => ?_⟩
  obtain ⟨o, u, hx, hc, hu⟩ := ht.exec hop.1 hop.2
  exact ⟨o, u, hx, hc, fun i hi => hu.idrFind_eq hi⟩

theorem first_id_found : ∃ es t, roomyMachine.Run emptyIdr es t ∧
    es.getLast? = some (.getNewAbove 7 40, .getNewAbove (.ok 40)) ∧ idrFind 40 t = .ok 7 ∧ idrFind 8 t = .ok 0 := by
  have h0 : roomyMachine.Run emptyIdr [] emptyIdr := .nil
  have h1 := h0.snoc (l := Op.preGet 14) ⟨trivial, fun _ _ e => by cases e⟩ rfl
  have h := h1.snoc (l := Op.getNewAbove 7 40)
    ⟨by decide, fun ptr start e => by cases e; exact ⟨by decide, .inl (by decide)⟩⟩ rfl
  have hmap := (roomy_idr_is_map h).1
  exact ⟨_, _, h, rfl, hmap 40 (by decide), hmap 8 (by decide)⟩

/-- When all ids from 1023 to the end of a tree of two layers are taken, the id 1024 is returned for a slot
that stands for 0. -/
theorem getNewAbove_aliases : ∃ es t, machine.Run emptyIdr es t ∧
    es.getLast? = some (.getNewAbove 2 1023, .getNewAbove (.ok 1024)) ∧
    idrFind 1024 t = .ok 0 ∧ idrFind 0 t = .ok 2 := by
  have h : machine.Run emptyIdr _ _ :=
    Machine.run_of_execList [.preGet 14, .getNewAbove 1 1023, .preGet 14, .getNewAbove 2 1023] rfl
  exact ⟨_, _, h, rfl, rfl, rfl⟩

end G3Mod.Idr
