import G3Mod.Rbtree.Model

/-!
# Order and balance of red-black trees
-/

namespace G3Mod.Rbtree

variable {α : Type}

/-! ## In-order sequences -/

def before : Path α → List α
  | [] => []
  | f :: p => before p ++ f.side.near [] (f.sibling.inorder ++ [f.elem])

def after : Path α → List α
  | [] => []
  | f :: p => f.side.near (f.elem :: f.sibling.inorder) [] ++ after p

@[simp] theorem inorder_nil : (RbTree.nil : RbTree α).inorder = [] := rfl

variable {c : Color} {l r : RbTree α} {a : α}

@[simp] theorem inorder_node :
    (RbTree.node c l a r).inorder = l.inorder ++ a :: r.inorder := rfl

variable {t : RbTree α}

@[simp] theorem inorder_setBlack : t.setBlack.inorder = t.inorder := by
  cases t <;> rfl

theorem inorder_zip : ∀ (p : Path α) (t : RbTree α),
    (zip p t).inorder = before p ++ t.inorder ++ after p
  | [], t => by simp [zip, before, after]
  | ⟨.left, c, a, s⟩ :: p, t => by
      simp [zip, inorder_zip p, Frame.plug, Side.node, before, after, Side.near]
  | ⟨.right, c, a, s⟩ :: p, t => by
      simp [zip, inorder_zip p, Frame.plug, Side.node, before, after, Side.near]

theorem before_append (p q : Path α) : before (p ++ q) = before q ++ before p := by
  induction p with
  | nil => simp [before]
  | cons f p ih => simp [before, ih]

theorem after_append (p q : Path α) : after (p ++ q) = after p ++ after q := by
  induction p with
  | nil => simp [after]
  | cons f p ih => simp [after, ih]

theorem rbInsertColor_inorder : ∀ (p : Path α) {l r t : RbTree α} {a : α},
    rbInsertColor p l a r = some t → t.inorder = before p ++ (l.inorder ++ a :: r.inorder) ++ after p
  | [], l, r, t, a, h => by
      simp only [rbInsertColor, Option.some.injEq] at h
      subst h
      simp [before, after]
  | ⟨s, .black, b, u⟩ :: p, l, r, t, a, h => by
      simp only [rbInsertColor, Option.some.injEq] at h
      subst h
      rw [inorder_setBlack, inorder_zip]
      rfl
  | [⟨s, .red, b, u⟩], l, r, t, a, h => by simp [rbInsertColor] at h
  | ⟨s, .red, b, u⟩ :: ⟨d, c, g, v⟩ :: p, l, r, t, a, h => by
      simp only [rbInsertColor] at h
      split at h
      · cases d with
        | left | right =>
          rw [rbInsertColor_inorder p h]
          cases s <;> simp [before, after, Side.near, Side.node]
      split at h
      · rename_i hs
        simp only [Option.some.injEq] at h
        subst h hs
        rw [inorder_setBlack, inorder_zip]
        cases s <;> simp [before, after, Side.near, Side.node]
      simp only [Option.some.injEq] at h
      subst h
      rw [inorder_setBlack, inorder_zip]
      cases s <;> cases d <;> simp_all [before, after, Side.near, Side.far, Side.node]

variable {d : Side} {x near far : RbTree α} {o : α}

theorem eraseRotate_inorder
    (h : eraseRotate d c x a near o far = some t) :
    t.inorder = d.near (x.inorder ++ a :: near.inorder ++ o :: far.inorder)
      (far.inorder ++ o :: near.inorder ++ a :: x.inorder) := by
  unfold eraseRotate at h
  split at h
  · simp only [Option.some.injEq] at h
    subst h
    cases d <;> simp [Side.near, Side.node]
  cases near with
  | nil => simp at h
  | node nc nl n nr =>
    simp only [Option.some.injEq] at h
    subst h
    cases d <;> simp [Side.near, Side.far, Side.node]

theorem rbEraseColor_inorder : ∀ (p : Path α) {x t : RbTree α},
    rbEraseColor p x = some t → t.inorder = before p ++ x.inorder ++ after p
  | [], x, t, h => by
      simp only [rbEraseColor, Option.some.injEq] at h
      subst h
      simp [before, after]
  | ⟨d, c, a, s⟩ :: p, x, t, h => by
      unfold rbEraseColor at h
      split at h
      · simp only [Option.some.injEq] at h
        subst h
        rw [inorder_zip, inorder_setBlack]
      cases s with
      | nil => simp at h
      | node oc ol o or =>
        cases oc with
        | black =>
          simp only at h
          split at h
          · simp only [Option.map_eq_some_iff] at h
            obtain ⟨u, hu, rfl⟩ := h
            rw [inorder_setBlack, inorder_zip, eraseRotate_inorder hu]
            cases d <;> simp [before, after, Side.near, Side.far]
          · rw [rbEraseColor_inorder p h]
            cases d <;> simp [before, after, Side.near, Side.node]
        | red =>
          simp only at h
          split at h
          · simp at h
          split at h
          · simp only [Option.map_eq_some_iff] at h
            obtain ⟨u, hu, rfl⟩ := h
            have hu := eraseRotate_inorder hu
            rw [inorder_setBlack, inorder_zip]
            cases d <;> simp_all [before, after, Side.near, Side.far, Side.node]
          simp only [Option.some.injEq] at h
          subst h
          rw [inorder_zip]
          cases d <;> simp_all [before, after, Side.near, Side.far, Side.node]

variable {p : Path α}

theorem rbUnlink_inorder (h : rbUnlink p c x = some t) :
    t.inorder = before p ++ x.inorder ++ after p := by
  cases c with
  | red =>
    simp only [rbUnlink, Option.some.injEq] at h
    subst h
    exact inorder_zip p x
  | black => exact rbEraseColor_inorder p h

theorem leftmost_inorder : ∀ (l : RbTree α) (p : Path α) (c : Color) (a : α) (r : RbTree α),
    before (leftmost p c l a r).2.2.2 = before p ∧
      (leftmost p c l a r).2.1 :: (leftmost p c l a r).2.2.1.inorder
        ++ after (leftmost p c l a r).2.2.2 = l.inorder ++ a :: r.inorder ++ after p
  | .nil, p, c, a, r => by simp [leftmost]
  | .node c' l' a' r', p, c, a, r => by
      obtain ⟨hb, ha⟩ := leftmost_inorder l' (⟨.left, c, a, r⟩ :: p) c' a' r'
      simp only [leftmost]
      refine ⟨by simpa [before, Side.near] using hb, ?_⟩
      rw [ha]
      simp [after, Side.near]

theorem rbEraseAt_inorder (h : rbEraseAt p c l r = some t) :
    t.inorder = before p ++ (l.inorder ++ r.inorder) ++ after p := by
  cases l with
  | nil => simpa [rbEraseAt] using rbUnlink_inorder h
  | node lc ll la lr =>
    cases r with
    | nil => simpa [rbEraseAt] using rbUnlink_inorder h
    | node rc rl ra rr =>
      obtain ⟨hb, ha⟩ := leftmost_inorder rl [] rc ra rr
      rw [rbUnlink_inorder h, before_append, after_append, hb]
      have ha := congrArg (· ++ after p) ha
      simp only [List.append_assoc, List.cons_append] at ha
      simp [before, after, Side.near, ha]

theorem locate_inorder [DecidableEq α] {a : α} : ∀ {t : RbTree α} {p q : Path α} {c : Color} {l r : RbTree α},
    locate a t p = some (q, c, l, r) → zip q (.node c l a r) = zip p t
  | .nil, p, q, c, l, r, h => by simp [locate] at h
  | .node c0 l0 b r0, p, q, c, l, r, h => by
      unfold locate at h
      split at h
      · simp_all
      · rcases Option.or_eq_some_iff.mp h with h | ⟨-, h⟩
        · exact (locate_inorder h : _ = zip (⟨.left, c0, b, r0⟩ :: p) l0)
        · exact (locate_inorder h : _ = zip (⟨.right, c0, b, l0⟩ :: p) r0)

theorem locate_isSome [DecidableEq α] {a : α} : ∀ {t : RbTree α} (p : Path α),
    a ∈ t.inorder → (locate a t p).isSome
  | .nil, p, h => by simp at h
  | .node c l b r, p, h => by
      unfold locate
      split
      · rfl
      rename_i hab
      simp only [inorder_node, List.mem_append, List.mem_cons, hab, false_or] at h
      rcases h with h | h
      · simp [locate_isSome _ h]
      · simp [locate_isSome _ h]

/-- The red-black conditions of a tree with a root of the given colour and the given black height. -/
inductive Balanced : RbTree α → Color → Nat → Prop
  | nil : Balanced .nil .black 0
  | red {l r : RbTree α} {a : α} {n : Nat} : Balanced l .black n → Balanced r .black n →
      Balanced (.node .red l a r) .red n
  | black {l r : RbTree α} {a : α} {c c' : Color} {n : Nat} : Balanced l c n → Balanced r c' n →
      Balanced (.node .black l a r) .black (n + 1)

def Valid (t : RbTree α) : Prop := ∃ n, Balanced t .black n

/-! ## Height -/

def RbTree.height : RbTree α → Nat
  | .nil => 0
  | .node _ l _ r => max l.height r.height + 1

theorem height_le_length (t : RbTree α) : t.height ≤ t.inorder.length := by
  induction t with
  | nil => exact Nat.le_refl _
  | node c l a r ihl ihr =>
    simp only [RbTree.height, inorder_node, List.length_append, List.length_cons]
    omega

theorem length_add_height_le (p : Path α) (t : RbTree α) : p.length + t.height ≤ (zip p t).height := by
  induction p generalizing t with
  | nil => simp [zip]
  | cons f p ih =>
    have hplug : t.height < (f.plug t).height := by
      unfold Frame.plug
      cases f.side <;> simp only [Side.node, RbTree.height] <;> omega
    have := ih (f.plug t)
    simp only [zip, List.length_cons]
    omega

theorem Balanced.height_le {n : Nat} (h : Balanced t c n) : t.height ≤ 2 * n + if c = .red then 1 else 0 := by
  induction h with
  | nil => exact Nat.le_refl _
  | red _ _ ihl ihr =>
    simp only [RbTree.height, reduceCtorEq, if_true, if_false] at ihl ihr ⊢
    omega
  | black _ _ ihl ihr =>
    simp only [RbTree.height, reduceCtorEq, if_false]
    split at ihl <;> split at ihr <;> omega

theorem Balanced.le_log2 {n : Nat} (h : Balanced t c n) : n ≤ (t.inorder.length + 1).log2 := by
  induction h with
  | nil => exact Nat.zero_le _
  | red _ _ ihl ihr =>
    rw [Nat.le_log2 (by omega)] at ihl ⊢
    simp only [inorder_node, List.length_append, List.length_cons]
    omega
  | black _ _ ihl ihr =>
    rw [Nat.le_log2 (by omega)] at ihl ihr ⊢
    simp only [inorder_node, List.length_append, List.length_cons, Nat.pow_succ]
    omega

theorem Valid.height_le (h : Valid t) : t.height ≤ 2 * (t.inorder.length + 1).log2 := by
  obtain ⟨n, hn⟩ := h
  exact Nat.le_trans hn.height_le (Nat.mul_le_mul_left 2 hn.le_log2)

/-- The path of a balanced tree below which a subtree of black height `n` is missing; the colour is the parent's. -/
inductive Hole : Path α → Color → Nat → Prop
  | root {n : Nat} : Hole [] .red n
  | red {p : Path α} {d : Side} {a : α} {s : RbTree α} {n : Nat} : Hole p .black n → Balanced s .black n →
      Hole (⟨d, .red, a, s⟩ :: p) .red n
  | black {p : Path α} {d : Side} {a : α} {s : RbTree α} {c c' : Color} {n : Nat} : Hole p c (n + 1) →
      Balanced s c' n → Hole (⟨d, .black, a, s⟩ :: p) .black n

variable {y : RbTree α} {n : Nat}

theorem Balanced.nodeRed (hx : Balanced x .black n)
    (hy : Balanced y .black n) : Balanced (d.node .red x a y) .red n := by
  cases d with
  | left => exact .red hx hy
  | right => exact .red hy hx

variable {c' : Color}

theorem Balanced.nodeBlack
    (hx : Balanced x c n) (hy : Balanced y c' n) : Balanced (d.node .black x a y) .black (n + 1) := by
  cases d with
  | left => exact .black hx hy
  | right => exact .black hy hx

theorem Balanced.isRed_eq (h : Balanced t c n) :
    t.isRed = decide (c = .red) := by
  cases h <;> rfl

theorem Balanced.black_of_not_isRed (h : Balanced t c n)
    (hr : ¬ t.isRed = true) : Balanced t .black n := by
  cases h with
  | nil => exact .nil
  | red hl hr' => exact absurd rfl hr
  | black hl hr' => exact .black hl hr'

theorem Balanced.setBlack_red (h : Balanced t c n)
    (hr : t.isRed = true) : Balanced t.setBlack .black (n + 1) := by
  cases h with
  | nil => simp [RbTree.isRed] at hr
  | red hl hr' => exact .black hl hr'
  | black hl hr' => simp [RbTree.isRed] at hr

theorem Balanced.setBlack_valid (h : Balanced t c n) :
    Valid t.setBlack := by
  cases h with
  | nil => exact ⟨_, .nil⟩
  | red hl hr | black hl hr => exact ⟨_, .black hl hr⟩

theorem Valid.setBlack {t : RbTree α} (h : Valid t) : Valid t.setBlack := by
  obtain ⟨n, hn⟩ := h
  exact hn.setBlack_valid

theorem Hole.zip {p : Path α} {c : Color} {n : Nat} (h : Hole p c n) : ∀ {t : RbTree α} {ct : Color},
    Balanced t ct n → (c = .red → ct = .black) → Valid (zip p t) := by
  induction h with
  | root =>
    intro t ct ht hc
    cases hc rfl
    exact ⟨_, ht⟩
  | red _ hs ih =>
    intro t ct ht hc
    cases hc rfl
    exact ih (ht.nodeRed hs) nofun
  | black _ hs ih =>
    intro t ct ht _
    exact ih (ht.nodeBlack hs) fun _ => rfl

theorem Hole.zip_black (h : Hole p c n)
    (ht : Balanced t .black n) : Valid (G3Mod.Rbtree.zip p t) := h.zip ht fun _ => rfl

theorem rbInsertColor_valid : ∀ (p : Path α) {c : Color} {n : Nat} {l r : RbTree α} {a : α},
    Hole p c n → Balanced l .black n → Balanced r .black n →
      ∃ t, rbInsertColor p l a r = some t ∧ Valid t
  | [], c, n, l, r, a, _, hl, hr => ⟨_, rfl, _, .black hl hr⟩
  | ⟨s, .black, b, u⟩ :: p, c, n, l, r, a, h, hl, hr => by
      cases h with
      | black hp hu => exact ⟨_, rfl, (hp.zip_black ((Balanced.red hl hr).nodeBlack hu)).setBlack⟩
  | [⟨s, .red, b, u⟩], c, n, l, r, a, h, hl, hr => by
      cases h with
      | red hp hu => cases hp
  | ⟨s, .red, b, u⟩ :: ⟨d, cg, g, v⟩ :: p, c, n, l, r, a, h, hl, hr => by
      cases h with
      | red hp hu =>
        cases hp with
        | black hp hv =>
          simp only [rbInsertColor]
          split
          · rename_i hred
            -- both the parent and the uncle become black, so the grandparent has the height `n + 1`
            have hpar : Balanced (s.node .black (.node .red l a r) b u) .black (n + 1) :=
              (Balanced.red hl hr).nodeBlack hu
            have hunc := hv.setBlack_red hred
            cases d with
            | left => exact rbInsertColor_valid p hp hpar hunc
            | right => exact rbInsertColor_valid p hp hunc hpar
          rename_i hred
          have hv := hv.black_of_not_isRed hred
          split
          · exact ⟨_, rfl,
              (hp.zip_black ((Balanced.red hl hr).nodeBlack (hu.nodeRed hv))).setBlack⟩
          have hnear : Balanced (d.near l r) .black n := by cases d <;> assumption
          have hfar : Balanced (d.far l r) .black n := by cases d <;> assumption
          exact ⟨_, rfl,
            (hp.zip_black ((hu.nodeRed hnear).nodeBlack (hfar.nodeRed hv))).setBlack⟩

theorem rbInsert_spec (h : Hole p c 0) (a : α) :
    ∃ t, rbInsert p a = some t ∧ Valid t ∧ t.inorder = before p ++ a :: after p := by
  obtain ⟨t, ht, hv⟩ := rbInsertColor_valid (a := a) p h .nil .nil
  refine ⟨t, ht, hv, ?_⟩
  rw [rbInsertColor_inorder p ht]
  simp

/-! ## Places in a balanced tree -/

theorem Balanced.node_cases {ct : Color} (h : Balanced (d.node c x a y) ct n) :
    ct = c ∧ ((c = .red ∧ Balanced x .black n ∧ Balanced y .black n) ∨
      (c = .black ∧ ∃ cx cy m, n = m + 1 ∧ Balanced x cx m ∧ Balanced y cy m)) := by
  cases d with
  | left =>
    cases h with
    | red hx hy => exact ⟨rfl, .inl ⟨rfl, hx, hy⟩⟩
    | black hx hy => exact ⟨rfl, .inr ⟨rfl, _, _, _, rfl, hx, hy⟩⟩
  | right =>
    cases h with
    | red hy hx => exact ⟨rfl, .inl ⟨rfl, hx, hy⟩⟩
    | black hy hx => exact ⟨rfl, .inr ⟨rfl, _, _, _, rfl, hx, hy⟩⟩

/-- The tree `t` keeps the red-black conditions below the path `p`. -/
def Fits (p : Path α) (t : RbTree α) : Prop :=
  ∃ cp ct n, Hole p cp n ∧ Balanced t ct n ∧ (cp = .red → ct = .black)

theorem Valid.fits {t : RbTree α} (h : Valid t) : Fits [] t := by
  obtain ⟨n, hn⟩ := h
  exact ⟨_, _, _, .root, hn, fun _ => rfl⟩

theorem Fits.down (h : Fits p (d.node c x a y)) (b : α) : Fits (⟨d, c, b, y⟩ :: p) x := by
  obtain ⟨cp, ct, n, hp, ht, hc⟩ := h
  obtain ⟨rfl, ⟨rfl, hx, hy⟩ | ⟨rfl, cx, cy, m, rfl, hx, hy⟩⟩ := ht.node_cases
  · cases cp with
    | red => exact absurd (hc rfl) nofun
    | black => exact ⟨_, _, _, .red hp hy, hx, fun _ => rfl⟩
  · exact ⟨_, _, _, .black hp hy, hx, nofun⟩

/-- A descent by a decision that is monotone in the order of the tree ends at the one place where the
decision changes. -/
theorem descend_spec {ε : Type} {dir : α → Except ε Side} {side : α → Side} :
    ∀ {t : RbTree α} {p : Path α}, Fits p t → (∀ b ∈ t.inorder, dir b = .ok (side b)) →
      t.inorder.Pairwise (fun a b => side a = .left → side b = .left) →
      ∃ q cq L R, descend dir t p = .ok q ∧ Hole q cq 0 ∧ t.inorder = L ++ R ∧
        before q = before p ++ L ∧ after q = R ++ after p ∧ (∀ b ∈ L, side b = .right) ∧
        ∀ b ∈ R, side b = .left
  | .nil, p, ⟨cp, _, _, hp, ht, _⟩, _, _ => by
      cases ht
      exact ⟨p, cp, [], [], rfl, hp, rfl, by simp, by simp, by simp, by simp⟩
  | .node c l b r, p, ht, hd, hm => by
      have hb := hd b (by simp)
      simp only [inorder_node, List.pairwise_append, List.pairwise_cons, List.mem_cons] at hm
      obtain ⟨hml, ⟨hbr, hmr⟩, hlr⟩ := hm
      simp only [descend, hb]
      cases hs : side b with
      | left =>
        obtain ⟨q, cq, L, R, h1, h2, h3, h4, h5, h6, h7⟩ :=
          descend_spec (Fits.down (d := .left) ht b) (fun x hx => hd x (by simp [hx])) hml
        refine ⟨q, cq, L, R ++ b :: r.inorder, h1, h2, by simp [h3], by simpa [before, Side.near] using h4,
          by simpa [after, Side.near] using h5, h6, ?_⟩
        intro x hx
        simp only [List.mem_append, List.mem_cons] at hx
        rcases hx with hx | rfl | hx
        · exact h7 x hx
        · exact hs
        · exact hbr x hx hs
      | right =>
        obtain ⟨q, cq, L, R, h1, h2, h3, h4, h5, h6, h7⟩ :=
          descend_spec (Fits.down (d := .right) ht b) (fun x hx => hd x (by simp [hx])) hmr
        refine ⟨q, cq, l.inorder ++ b :: L, R, h1, h2, by simp [h3], by simpa [before, Side.near] using h4,
          by simpa [after, Side.near] using h5, ?_, h7⟩
        intro x hx
        simp only [List.mem_append, List.mem_cons] at hx
        rcases hx with hx | rfl | hx
        · cases hsx : side x with
          | left => exact absurd (hlr x hx b (.inl rfl) hsx) (by simp [hs])
          | right => rfl
        · exact hs
        · exact h6 x hx

theorem descend_rbInsert {ε : Type} {dir : α → Except ε Side} {side : α → Side} (a : α)
    (hv : Valid t) (hd : ∀ b ∈ t.inorder, dir b = .ok (side b))
    (hm : t.inorder.Pairwise (fun a b => side a = .left → side b = .left)) :
    ∃ q t' L R, descend dir t [] = .ok q ∧ rbInsert q a = some t' ∧ Valid t' ∧ t.inorder = L ++ R ∧
      t'.inorder = L ++ a :: R ∧ (∀ b ∈ L, side b = .right) ∧ ∀ b ∈ R, side b = .left := by
  obtain ⟨q, cq, L, R, h1, h2, h3, h4, h5, h6, h7⟩ := descend_spec hv.fits hd hm
  obtain ⟨t', ht', hv', hi⟩ := rbInsert_spec h2 a
  refine ⟨q, t', L, R, h1, ht', hv', h3, ?_, h6, h7⟩
  rw [hi, h4, h5]
  simp [before, after]

theorem eraseRotate_balanced {cn cf : Color}
    (hx : Balanced x .black n) (hn : Balanced near cn n) (hf : Balanced far cf n)
    (hred : near.isRed = true ∨ far.isRed = true) (c : Color) :
    ∃ t, eraseRotate d c x a near o far = some t ∧
      (c = .red → Balanced t .red (n + 1)) ∧ (c = .black → Balanced t .black (n + 2)) := by
  unfold eraseRotate
  split
  · rename_i hfr
    have hl := hx.nodeBlack (d := d) (a := a) hn
    have hr := hf.setBlack_red hfr
    refine ⟨_, rfl, ?_, ?_⟩
    · rintro rfl
      exact hl.nodeRed hr
    · rintro rfl
      exact hl.nodeBlack hr
  cases hn with
  | nil | black hnl hnr => simp_all [RbTree.isRed]
  | @red nl nr m _ hnl hnr =>
    have hl : Balanced (d.node .black x a (d.near nl nr)) .black (n + 1) := by
      cases d
      · exact hx.nodeBlack hnl
      · exact hx.nodeBlack hnr
    have hr : Balanced (d.node .black (d.far nl nr) o far) .black (n + 1) := by
      cases d
      · exact hnr.nodeBlack hf
      · exact hnl.nodeBlack hf
    refine ⟨_, rfl, ?_, ?_⟩
    · rintro rfl
      exact hl.nodeRed hr
    · rintro rfl
      exact hl.nodeBlack hr

/-- A subtree that lacks one black node: it is black, or colouring its root black repairs it. -/
def Lacking (x : RbTree α) (n : Nat) : Prop :=
  Balanced x .black n ∨ (x.isRed = true ∧ Balanced x.setBlack .black (n + 1))

theorem Balanced.lacking (h : Balanced x c n) : Lacking x n := by
  cases h with
  | nil => exact .inl .nil
  | red hl hr => exact .inr ⟨rfl, .black hl hr⟩
  | black hl hr => exact .inl (.black hl hr)

theorem Balanced.near_far (hl : Balanced l c n)
    (hr : Balanced r c' n) (d : Side) :
    ∃ cn cf, Balanced (d.near l r) cn n ∧ Balanced (d.far l r) cf n := by
  cases d with
  | left => exact ⟨c, c', hl, hr⟩
  | right => exact ⟨c', c, hr, hl⟩

theorem isRed_near_or_far (d : Side) (h : (l.isRed || r.isRed) = true) :
    (d.near l r).isRed = true ∨ (d.far l r).isRed = true := by
  cases d with
  | left => simpa [Side.near, Side.far] using h
  | right => simpa [Side.near, Side.far, or_comm] using h

theorem Hole.zip_rotated {c0 : Color} {s : RbTree α}
    (h : Hole (⟨d, c, a, s⟩ :: p) c0 n) (hr : c = .red → Balanced t .red n)
    (hb : c = .black → Balanced t .black (n + 1)) : Valid (G3Mod.Rbtree.zip p t) := by
  cases h with
  | red hp hs => exact hp.zip (hr rfl) nofun
  | black hp hs => exact hp.zip_black (hb rfl)

theorem rbEraseColor_valid : ∀ (p : Path α) {c : Color} {n : Nat} {x : RbTree α},
    Hole p c (n + 1) → Lacking x n → ∃ t, rbEraseColor p x = some t ∧ Valid t
  | [], c, n, x, _, hx => by
      refine ⟨_, rfl, ?_⟩
      rcases hx with hx | ⟨-, hx⟩
      · exact hx.setBlack_valid
      · exact ⟨_, hx⟩
  | ⟨d, c, a, s⟩ :: p, c0, n, x, h, .inr ⟨hr, hx⟩ => by
      refine ⟨zip (⟨d, c, a, s⟩ :: p) x.setBlack, ?_, h.zip_black hx⟩
      simp only [rbEraseColor, hr, if_true]
  | ⟨d, c, a, .node .black ol o or⟩ :: p, c0, n, x, h, .inl hx => by
      have hnr : x.isRed = false := hx.isRed_eq
      simp only [rbEraseColor, hnr, Bool.false_eq_true, if_false]
      have hs : ∃ co co', Balanced ol co n ∧ Balanced or co' n := by
        cases h with
        | red hp hs | black hp hs => cases hs with | black hol hor => exact ⟨_, _, hol, hor⟩
      obtain ⟨co, co', hol, hor⟩ := hs
      split
      · rename_i hred
        obtain ⟨cn, cf, hn, hf⟩ := hol.near_far hor d
        obtain ⟨t, ht, h1, h2⟩ :=
          eraseRotate_balanced (a := a) (o := o) hx hn hf (isRed_near_or_far d hred) c
        rw [ht]
        exact ⟨_, rfl, (h.zip_rotated h1 h2).setBlack⟩
      rename_i hred
      simp only [Bool.or_eq_true, not_or] at hred
      -- `other` becomes red, and the missing black node is now missing at the parent
      have ho : Balanced (.node .red ol o or) .red n :=
        .red (hol.black_of_not_isRed hred.1) (hor.black_of_not_isRed hred.2)
      cases h with
      | red hp hs =>
        refine rbEraseColor_valid p hp (.inr ⟨by cases d <;> rfl, ?_⟩)
        cases d with
        | left => exact .black hx ho
        | right => exact .black ho hx
      | black hp hs => exact rbEraseColor_valid p hp (.inl (hx.nodeBlack ho))
  | ⟨d, c, a, .node .red ol o or⟩ :: p, c0, n, x, h, .inl hx => by
      have hnr : x.isRed = false := hx.isRed_eq
      simp only [rbEraseColor, hnr, Bool.false_eq_true, if_false]
      cases h with
      | red hp hs => cases hs
      | black hp hs =>
        cases hs with
        | red hol hor =>
          have hnf : Balanced (d.near ol or) .black (n + 1) ∧ Balanced (d.far ol or) .black (n + 1) := by
            cases d
            · exact ⟨hol, hor⟩
            · exact ⟨hor, hol⟩
          obtain ⟨hnear, hfar⟩ := hnf
          generalize d.near ol or = near at hnear ⊢
          cases hnear with
          | @black nl nr b cl cr m hnl hnr =>
            simp only
            split
            · rename_i hred
              obtain ⟨cn, cf, hn, hf⟩ := hnl.near_far hnr d
              obtain ⟨t, ht, h1, -⟩ :=
                eraseRotate_balanced (a := a) (o := b) hx hn hf (isRed_near_or_far d hred) .red
              rw [ht]
              exact ⟨_, rfl, (hp.zip_black ((h1 rfl).nodeBlack hfar)).setBlack⟩
            rename_i hred
            simp only [Bool.or_eq_true, not_or] at hred
            have hother : Balanced (.node .red nl b nr) .red n :=
              .red (hnl.black_of_not_isRed hred.1) (hnr.black_of_not_isRed hred.2)
            exact ⟨_, rfl, hp.zip_black ((hx.nodeBlack hother).nodeBlack hfar)⟩
  | ⟨d, c, a, .nil⟩ :: p, c0, n, x, h, .inl hx => by
      cases h with
      | red hp hs | black hp hs => cases hs

/-- A node of colour `c` at the end of the path `p`, all of whose children are in `x`, can be unlinked. -/
def Unlinkable (p : Path α) (c : Color) (x : RbTree α) : Prop :=
  ∃ cp n, (c = .red → Hole p cp n ∧ Balanced x .black n) ∧
    (c = .black → Hole p cp (n + 1) ∧ Lacking x n)

theorem Unlinkable.valid (h : Unlinkable p c x) :
    ∃ t, rbUnlink p c x = some t ∧ Valid t := by
  obtain ⟨cp, n, hr, hb⟩ := h
  cases c with
  | red =>
    obtain ⟨hp, hx⟩ := hr rfl
    exact ⟨_, rfl, hp.zip_black hx⟩
  | black =>
    obtain ⟨hp, hx⟩ := hb rfl
    exact rbEraseColor_valid p hp hx

theorem Fits.unlinkable (h : Fits p (d.node c .nil a x)) : Unlinkable p c x := by
  obtain ⟨cp, ct, n, hp, ht, -⟩ := h
  obtain ⟨rfl, ⟨rfl, -, hx⟩ | ⟨rfl, _, cx, m, rfl, -, hx⟩⟩ := ht.node_cases
  · exact ⟨cp, n, fun _ => ⟨hp, hx⟩, nofun⟩
  · exact ⟨cp, m, nofun, fun _ => ⟨hp, hx.lacking⟩⟩

theorem leftmost_append : ∀ (l : RbTree α) (p q : Path α) (c : Color) (a : α) (r : RbTree α),
    leftmost (p ++ q) c l a r = ((leftmost p c l a r).1, (leftmost p c l a r).2.1,
      (leftmost p c l a r).2.2.1, (leftmost p c l a r).2.2.2 ++ q)
  | .nil, _, _, _, _, _ => rfl
  | .node c' l' a' r', p, q, c, a, r => leftmost_append l' (⟨.left, c, a, r⟩ :: p) q c' a' r'

theorem leftmost_unlinkable : ∀ (l : RbTree α) {p : Path α} {c : Color} {a : α} {r : RbTree α},
    Fits p (.node c l a r) → Unlinkable (leftmost p c l a r).2.2.2 (leftmost p c l a r).1
      (leftmost p c l a r).2.2.1
  | .nil, _, _, _, _, h => Fits.unlinkable (d := .left) h
  | .node _ l' _ _, _, _, a, _, h => leftmost_unlinkable l' (Fits.down (d := .left) h a)

theorem rbEraseAt_valid (h : Fits p (.node c l a r)) :
    ∃ t, rbEraseAt p c l r = some t ∧ Valid t := by
  cases l with
  | nil => exact (Fits.unlinkable (d := .left) h).valid
  | node lc ll la lr =>
    cases r with
    | nil => exact (Fits.unlinkable (d := .right) h).valid
    | node rc rl ra rr =>
      have hu := leftmost_unlinkable rl (Fits.down (d := .right) h (leftmost [] rc rl ra rr).2.1)
      have happ := leftmost_append rl [] (⟨.right, c, (leftmost [] rc rl ra rr).2.1, .node lc ll la lr⟩ :: p)
        rc ra rr
      rw [List.nil_append] at happ
      rw [happ] at hu
      exact hu.valid

theorem locate_fits [DecidableEq α] {a : α} : ∀ {t : RbTree α} {p q : Path α} {c : Color} {l r : RbTree α},
    Fits p t → locate a t p = some (q, c, l, r) → Fits q (.node c l a r)
  | .nil, p, q, c, l, r, _, h => by simp [locate] at h
  | .node c0 l0 b r0, p, q, c, l, r, hp, h => by
      unfold locate at h
      split at h
      · simp_all
      rcases Option.or_eq_some_iff.mp h with h | ⟨-, h⟩
      · exact locate_fits (Fits.down (d := .left) hp b) h
      · exact locate_fits (Fits.down (d := .right) hp b) h

theorem rbErase_spec [DecidableEq α] (h : Valid t) (ha : a ∈ t.inorder) :
    ∃ t', rbErase a t = some t' ∧ Valid t' ∧
      ∃ pre post, t.inorder = pre ++ a :: post ∧ t'.inorder = pre ++ post := by
  obtain ⟨⟨q, c, l, r⟩, hloc⟩ := Option.isSome_iff_exists.mp (locate_isSome [] ha)
  obtain ⟨t', ht', hv⟩ := rbEraseAt_valid (locate_fits h.fits hloc)
  refine ⟨t', by simp only [rbErase, hloc, ht'], hv, before q ++ l.inorder, r.inorder ++ after q, ?_, ?_⟩
  · have hz := congrArg RbTree.inorder (locate_inorder hloc)
    rw [inorder_zip] at hz
    simpa [zip] using hz.symm
  · rw [rbEraseAt_inorder ht']
    simp

theorem before_eq_nil_iff : ∀ {p : Path α}, before p = [] ↔ ∀ f ∈ p, f.side = .left
  | [] => by simp [before]
  | f :: p => by
      rw [before, List.append_eq_nil_iff, before_eq_nil_iff, List.forall_mem_cons, and_comm]
      cases f.side <;> simp [Side.near]

theorem rbNext_eq [DecidableEq α] {pre post : List α} (ht : t.inorder = pre ++ a :: post)
    (ha : a ∉ pre) : rbNext a t = post.head? := by
  have hdrop : (pre ++ a :: post).dropWhile (fun b => b ≠ a) = a :: post := by
    clear ht
    induction pre with
    | nil => simp
    | cons x pre ih =>
      have hx : x ≠ a := fun h => ha (h ▸ List.mem_cons_self)
      simpa [hx] using ih fun h => ha (List.mem_cons_of_mem x h)
  rw [rbNext, ht, hdrop]
  rfl

end G3Mod.Rbtree
