import G3Mod.Rbtree.Pointer.Lemmas.Insert

/-!
# Removal in memory follows removal in the tree
-/

namespace G3Mod.Rbtree.Pointer

open Heap

variable {h : Heap} {d : Side} {p : Path Nat}

/-! ## The rotations of `__rb_erase_color` -/

variable {t : RbTree Nat}

theorem Holds.blackOrNull_eq (hh : Holds h (zip p t)) : h.blackOrNull (ptr t) = !t.isRed := by
  have hr := hh.isRed_iff
  by_cases h0 : ptr t = 0
  · have ht := hh.ptr_eq_zero.1 h0
    simp [blackOrNull, ht, ptr, RbTree.isRed]
  · simp only [ne_eq, h0, not_false_eq_true, true_and] at hr
    rw [blackOrNull, decide_eq_false h0, Bool.false_or, Bool.eq_iff_iff.2 hr]

@[simp] theorem child_setBlack (a b : Nat) : (h.setBlack a).child d b = h.child d b := rfl

variable {c : Color} {x y : RbTree Nat} {a : Nat}

theorem sideNode_ne_nil : d.node c x a y ≠ .nil := by
  cases d <;> nofun

@[simp] theorem setBlack_sideNode :
    (d.node c x a y).setBlack = d.node .black x a y := by
  cases d <;> rfl

theorem Holds.setBlack {t : RbTree Nat} (hh : Holds h (zip p t)) (ht : t ≠ .nil) :
    Holds (h.setBlack (ptr t)) (zip p t.setBlack) := by
  cases t with
  | nil => exact absurd rfl ht
  | node c l a r => exact Holds.setColor (d := .left) hh .black

theorem zip_far :
    zip p (d.node c x a y) = zip (⟨d.opp, c, a, x⟩ :: p) y := by
  simp [zip, Frame.plug]

theorem zip_near :
    zip p (d.node c x a y) = zip (⟨d, c, a, y⟩ :: p) x := rfl

variable {co : Color} {near far : RbTree Nat} {b o : Nat}

theorem Holds.eraseRotate_far (hf : far ≠ .nil)
    (hh : Holds h (zip p (d.node c x b (d.node co near o far)))) :
    Holds ((((h.setColor o (h.color b)).setBlack b).setBlack (ptr far)).rotate d b)
      (zip p (d.node c (d.node .black x b near) o far.setBlack)) := by
  have hb := hh.reads.2.2.1
  rw [zip_far] at hh
  have h1 := hh.setColor c
  rw [← zip_far] at h1
  have h2 := h1.setColor .black
  rw [zip_far, zip_far] at h2
  have h3 := h2.setBlack hf
  rw [← zip_far, ← zip_far] at h3
  rw [hb]
  exact h3.rotate

theorem Holds.eraseRotate_near {cn : Color} {n1 n2 : RbTree Nat} {n : Nat}
    (hh : Holds h (zip p (d.node co (d.node cn n1 n n2) o far))) :
    Holds (((h.setBlack n).setRed o).rotate d.opp o) (zip p (d.node .black n1 n (d.node .red n2 o far))) := by
  rw [zip_near] at hh
  have h1 := hh.setColor .black
  rw [← zip_near] at h1
  have h2 := h1.setColor .red
  rw [← opp_node, ← opp_node .black] at h2
  simpa [Heap.setBlack, Heap.setRed] using h2.rotate

theorem Holds.eraseRotate {c co : Color} {x near far t : RbTree Nat} {b o : Nat}
    (ht : Rbtree.eraseRotate d c x b near o far = some t)
    (hh : Holds h (zip p (d.node c x b (d.node co near o far)))) :
    ∃ h', h.eraseRotate d b o = some h' ∧ Holds h' (zip p t) := by
  have ho : Holds h (zip (⟨d.opp, c, b, x⟩ :: p) (d.node co near o far)) := zip_far ▸ hh
  obtain ⟨-, -, -, hnear, hfar⟩ := ho.reads
  have hbn := Holds.blackOrNull_eq (zip_far ▸ ho)
  simp only [Rbtree.eraseRotate] at ht
  split at ht
  · rename_i hred
    simp only [Option.some.injEq] at ht
    subst ht
    have hne : far ≠ .nil := by
      rintro rfl
      cases hred
    have h0 : ptr far ≠ 0 := fun h0 => hne ((Holds.ptr_eq_zero (zip_far ▸ ho)).1 h0)
    refine ⟨_, ?_, hh.eraseRotate_far hne⟩
    simp [Heap.eraseRotate, hfar, hbn, hred, h0]
  · rename_i hred
    cases near with
    | nil => cases ht
    | node cn nl n nr =>
      simp only [Option.some.injEq] at ht
      subst ht
      rw [← node_near_far (d := d) cn nl nr n] at ho hnear
      have h0 : n ≠ 0 := (Holds.reads (zip_near ▸ ho)).1.1
      have h1 := ho.eraseRotate_near
      have hn1 := h1.reads.2.2.2.2
      rw [← zip_far] at h1
      have hb1 := h1.reads.2.2.2.2
      have ho0 : o ≠ 0 := ho.reads.1.1
      have h2 := h1.eraseRotate_far sideNode_ne_nil
      rw [setBlack_sideNode, ptr_sideNode] at h2
      refine ⟨_, ?_, h2⟩
      simp [Heap.eraseRotate, hfar, hbn, hred, hnear, h0, hn1, hb1, ho0]

/-! ## The loop -/

theorem ptr_zip_mem : ∀ (p : Path Nat) (f : Frame Nat) (t : RbTree Nat), ptr (zip (f :: p) t) ∈ pathAddrs (f :: p)
  | [], f, t => by simp [zip, Frame.plug, pathAddrs]
  | g :: p, f, t => by
      exact List.mem_cons_of_mem _ (List.mem_append_right _ (ptr_zip_mem p g _))

variable {f : Frame Nat}

theorem Holds.ptr_ne_root (hh : Holds h (zip (f :: p) t)) : ptr t ≠ h.root := by
  obtain ⟨hp, hr, hn⟩ := holds_zip.1 hh
  have hm := ptr_zip_mem p f t
  rw [hh.root]
  intro he
  by_cases ht : t = .nil
  · subst ht
    rw [← he] at hm
    exact (hp.addr _ hm).1 rfl
  · rw [List.nodup_append] at hn
    exact hn.2.2 _ (ptr_mem ht) _ (he ▸ hm) rfl

theorem Holds.side_test_sibling (hh : Holds h (zip (f :: p) t))
    (hs : f.sibling ≠ .nil) : (if h.left f.elem = ptr t then Side.left else .right) = f.side := by
  obtain ⟨-, -, -, h1, -⟩ := hh.frame
  by_cases hd : Side.left = f.side
  · rw [← hd] at h1
    rw [if_pos (show h.left f.elem = ptr t from h1), hd]
  have hd' : f.side = .right := eq_opp_of_ne fun hc => hd hc.symm
  have hsib := (hh.sibling.side_eq (d := f.side) hs).1
  have h2 := hh.frame.2.2.2.2
  rw [if_neg, hd']
  intro hc
  refine opp_ne f.side (hsib ?_).symm
  rw [h1, ← hc, ← h2, hd']
  rfl

theorem Holds.eraseEnd {t : RbTree Nat} (hh : Holds h (zip p t)) : Holds (h.eraseEnd (ptr t)) (zip p t.setBlack) := by
  by_cases h0 : ptr t = 0
  · rw [Heap.eraseEnd, if_neg (not_not_intro h0)]
    have ht := hh.ptr_eq_zero.1 h0
    rwa [ht] at hh ⊢
  · rw [Heap.eraseEnd, if_pos h0]
    exact hh.setBlack fun ht => h0 (hh.ptr_eq_zero.2 ht)

theorem Holds.eraseEnd_root (hh : Holds h t) : Holds (h.eraseEnd h.root) t.setBlack := by
  rw [hh.root]
  exact Holds.eraseEnd (p := []) hh

theorem Holds.erase_stop (hh : Holds h (zip p t)) (hs : t.isRed = true ∨ p = []) (fuel : Nat) :
    ∃ h', h.rbEraseColor (fuel + 1) (ptr t) (top p) = some h' ∧ Holds h' (zip p t.setBlack) := by
  refine ⟨_, ?_, hh.eraseEnd⟩
  have hstop : ¬ (h.blackOrNull (ptr t) = true ∧ ptr t ≠ h.root) := by
    rintro ⟨hb, hr⟩
    obtain hs | rfl := hs
    · rw [hh.blackOrNull_eq, hs] at hb
      cases hb
    · exact hr hh.root.symm
  simp only [Heap.rbEraseColor, if_neg hstop]

def eraseRest (h : Heap) (fuel : Nat) (d : Side) (parent other : Nat) : Option Heap :=
  if h.blackOrNull (h.left other) ∧ h.blackOrNull (h.right other) then
    (h.setRed other).rbEraseColor fuel parent (h.parent parent)
  else (h.eraseRotate d parent other).map fun h => h.eraseEnd h.root

theorem Holds.erase_round (hh : Holds h (zip (f :: p) t)) (ht : t.isRed = false)
    (hs : f.sibling ≠ .nil) (ho : (h.eraseSibling f.side f.elem (ptr f.sibling)).2 = o) (ho0 : o ≠ 0) (fuel : Nat) :
    h.rbEraseColor (fuel + 1) (ptr t) f.elem =
      eraseRest (h.eraseSibling f.side f.elem (ptr f.sibling)).1 fuel f.side f.elem o := by
  obtain ⟨hb0, -, -, -, hsib⟩ := hh.frame
  have hs0 : ptr f.sibling ≠ 0 := fun h0 => hs (hh.sibling.ptr_eq_zero.1 h0)
  have hgo : h.blackOrNull (ptr t) = true ∧ ptr t ≠ h.root := ⟨by rw [hh.blackOrNull_eq, ht]; rfl, hh.ptr_ne_root⟩
  have hpar : ∀ (h : Heap) a, (h.setRed a).parent f.elem = h.parent f.elem := fun _ _ => parent_setColor _ _ _ _
  simp only [Heap.rbEraseColor, if_pos hgo, if_neg hb0, hh.side_test_sibling hs, hsib, if_neg hs0, ho, if_neg ho0, hpar]
  rfl

variable {ol or : RbTree Nat}

theorem Holds.black_children (hh : Holds h (zip p (.node co ol o or))) :
    (h.blackOrNull (h.left o) = true ∧ h.blackOrNull (h.right o) = true) ↔ (ol.isRed || or.isRed) = false := by
  have hl : h.left o = ptr ol := (Holds.reads (d := .left) hh).2.2.2.1
  have hr : h.right o = ptr or := (Holds.reads (d := .left) hh).2.2.2.2
  rw [hl, hr, Holds.blackOrNull_eq (p := ⟨.left, co, o, or⟩ :: p) hh,
    Holds.blackOrNull_eq (p := ⟨.right, co, o, ol⟩ :: p) hh]
  simp

theorem Holds.eraseRest_rotate
    (hh : Holds h (zip p (d.node c x b (.node co ol o or)))) (hred : (ol.isRed || or.isRed) = true)
    (ht : Rbtree.eraseRotate d c x b (d.near ol or) o (d.far ol or) = some t) (fuel : Nat) :
    ∃ h', eraseRest h fuel d b o = some h' ∧ Holds h' (zip p t).setBlack := by
  have hch := Holds.black_children (p := ⟨d.opp, c, b, x⟩ :: p) (zip_far ▸ hh)
  rw [← node_near_far (d := d) co ol or o] at hh
  obtain ⟨h', he, hh'⟩ := hh.eraseRotate ht
  refine ⟨_, ?_, hh'.eraseEnd_root⟩
  rw [eraseRest, if_neg fun hc => by simp [hch.1 hc] at hred, he]
  rfl

theorem Holds.eraseRest_red
    (hh : Holds h (zip p (d.node c x b (.node co ol o or)))) (hblack : (ol.isRed || or.isRed) = false) (fuel : Nat) :
    eraseRest h fuel d b o = (h.setRed o).rbEraseColor fuel b (top p) ∧
      Holds (h.setRed o) (zip p (d.node c x b (.node .red ol o or))) := by
  have hch := Holds.black_children (p := ⟨d.opp, c, b, x⟩ :: p) (zip_far ▸ hh)
  refine ⟨by rw [eraseRest, if_pos (hch.2 hblack), hh.reads.2.1], ?_⟩
  rw [zip_far] at hh ⊢
  exact Holds.setColor (d := .left) hh .red

theorem Holds.eraseSibling_black
    (hh : Holds h (zip p (d.node c x b (.node .black ol o or)))) : h.eraseSibling d b o = (h, o) := by
  have hc := (Holds.reads (d := .left) (zip_far ▸ hh)).2.2.1
  simp [eraseSibling, isRed, hc]

theorem Holds.eraseSibling_red
    (hh : Holds h (zip p (d.node c x b (d.node .red near o far)))) :
    (h.eraseSibling d b o).2 = ptr near ∧
      Holds (h.eraseSibling d b o).1 (zip (⟨d, .black, o, far⟩ :: p) (d.node .red x b near)) := by
  have hc := (Holds.reads (zip_far ▸ hh)).2.2.1
  have hh' : Holds (((h.setBlack o).setRed b).rotate d b) (zip p (d.node .black (d.node .red x b near) o far)) := by
    rw [zip_far] at hh
    have h1 := hh.setColor .black
    rw [← zip_far] at h1
    exact (h1.setColor .red).rotate
  rw [zip_near] at hh'
  simp only [eraseSibling, isRed, hc, decide_true, if_true]
  exact ⟨hh'.reads.2.2.2.2, hh'⟩

theorem rbEraseColor_holds : ∀ (p : Path Nat) {x t : RbTree Nat} {fuel : Nat} {h : Heap},
    Rbtree.rbEraseColor p x = some t → Holds h (zip p x) → p.length < fuel →
      ∃ h', h.rbEraseColor fuel (ptr x) (top p) = some h' ∧ Holds h' t
  | [], x, t, fuel + 1, h, ht, hh, _ => by
      simp only [Rbtree.rbEraseColor, Option.some.injEq] at ht
      subst ht
      exact hh.erase_stop (p := []) (.inr rfl) fuel
  | ⟨d, c, b, s⟩ :: p, x, t, fuel + 2, h, ht, hh, hf => by
      simp only [Rbtree.rbEraseColor] at ht
      split at ht
      · rename_i hx
        simp only [Option.some.injEq] at ht
        subst ht
        exact hh.erase_stop (.inl hx) _
      rename_i hx
      rw [Bool.not_eq_true] at hx
      simp only [List.length_cons] at hf
      cases s with
      | nil => cases ht
      | node cs ol o or =>
        cases cs with
        | black =>
          have ho : h.eraseSibling d b o = (h, o) := Holds.eraseSibling_black hh
          have ho0 := (Holds.reads (d := .left) hh.sibling).1.1
          have hround := hh.erase_round hx (by simp) (congrArg Prod.snd ho) ho0 (fuel + 1)
          change h.rbEraseColor (fuel + 2) (ptr x) b = eraseRest (h.eraseSibling d b o).1 (fuel + 1) d b o at hround
          rw [ho] at hround
          change ∃ h', h.rbEraseColor (fuel + 2) (ptr x) b = some h' ∧ Holds h' t
          rw [hround]
          have hb : Holds h (zip p (d.node c x b (.node .black ol o or))) := hh
          simp only at ht
          split at ht
          · rename_i hred
            obtain ⟨t', ht', rfl⟩ := Option.map_eq_some_iff.1 ht
            exact hb.eraseRest_rotate hred ht' _
          rename_i hred
          obtain ⟨hrest, hh'⟩ := hb.eraseRest_red (Bool.not_eq_true _ ▸ hred) (fuel + 1)
          have hfuel : p.length < fuel + 1 := by omega
          have := rbEraseColor_holds p ht hh' hfuel
          rw [hrest]
          rwa [ptr_sideNode] at this
        | red =>
          have hb : Holds h (zip p (d.node c x b (d.node .red (d.near ol or) o (d.far ol or)))) := by
            rw [node_near_far]
            exact hh
          obtain ⟨hother, hh'⟩ := hb.eraseSibling_red
          simp only at ht
          cases hn : d.near ol or with
          | nil =>
            rw [hn] at ht
            cases ht
          | node cn nl n nr =>
            rw [hn] at ht
            rw [hn] at hother hh'
            have hn0 := (Holds.reads (d := .left) (zip_far ▸ hh')).1.1
            have hround := hh.erase_round hx (by simp) hother hn0 (fuel + 1)
            change h.rbEraseColor (fuel + 2) (ptr x) b =
              eraseRest (h.eraseSibling d b o).1 (fuel + 1) d b n at hround
            change ∃ h', h.rbEraseColor (fuel + 2) (ptr x) b = some h' ∧ Holds h' t
            rw [hround]
            simp only at ht
            split at ht
            · rename_i hred
              obtain ⟨t', ht', rfl⟩ := Option.map_eq_some_iff.1 ht
              exact hh'.eraseRest_rotate hred ht' _
            rename_i hred
            simp only [Option.some.injEq] at ht
            subst ht
            obtain ⟨hrest, hh''⟩ := hh'.eraseRest_red (Bool.not_eq_true _ ▸ hred) (fuel + 1)
            have := hh''.erase_stop (.inl (by cases d <;> rfl)) fuel
            rw [hrest]
            rwa [ptr_sideNode, setBlack_sideNode] at this
  | ⟨d, c, b, s⟩ :: p, x, t, 1, h, ht, hh, hf => by simp at hf

end G3Mod.Rbtree.Pointer
