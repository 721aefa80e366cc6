import G3Mod.Rbtree.Pointer.Lemmas.Replace

/-!
# The contract of `lib/rbtree.c`
-/

namespace G3Mod.Rbtree.Pointer

open Heap

variable {h : Heap} {p : Path Nat}

/-- The heap holds a red-black tree whose nodes are, in order, those of `s`. -/
def IsRbTree (h : Heap) (s : List Nat) : Prop :=
  ∃ t, Holds h t ∧ Valid t ∧ t.inorder = s

/-! ## Places in a valid tree -/

theorem fits_of_valid : ∀ (p : Path Nat) {t : RbTree Nat}, Valid (zip p t) → Fits p t
  | [], _, hv => hv.fits
  | _ :: p, _, hv => (fits_of_valid p hv).down _

variable {c : Color} {l r : RbTree Nat} {a : Nat}

theorem valid_rename (hv : Valid (zip p (.node c l a r))) (b : Nat) :
    Valid (zip p (.node c l b r)) := by
  obtain ⟨cp, ct, n, hp, hb, hc⟩ := fits_of_valid p hv
  cases hb with
  | red hl hr => exact hp.zip (.red hl hr) hc
  | black hl hr => exact hp.zip (.black hl hr) hc

theorem mem_addrs_zip {t : RbTree Nat} (ha : a ∈ addrs t ++ pathAddrs p) : a ∈ (zip p t).inorder :=
  (addrs_perm_inorder _).mem_iff.1 ((addrs_zip p t).mem_iff.2 ha)

/-! ## The operations -/

variable {fuel : Nat}

theorem insert_within (hh : Holds h (zip p .nil)) (hv : Valid (zip p .nil)) (ha : Addr a)
    (hn : a ∉ (zip p .nil).inorder) (hf : (zip p .nil).height < fuel) :
    ∃ h', (h.rbLinkNode a (top p) (link p)).rbInsertColor fuel a = some h' ∧ IsRbTree h' (before p ++ a :: after p) := by
  obtain ⟨cp, ct, n, hp, hb, -⟩ := fits_of_valid p hv
  cases hb
  obtain ⟨t, ht, htv, hti⟩ := rbInsert_spec hp a
  have hlen := length_add_height_le p .nil
  have hl := hh.rbLinkNode ha fun hc => hn (mem_addrs_zip (List.mem_append_right _ hc))
  obtain ⟨h', he, hh'⟩ := rbInsertColor_holds p ht hl (Nat.lt_of_le_of_lt (Nat.le_trans (Nat.le_add_right _ _) hlen) hf)
  exact ⟨h', he, t, hh', htv, hti⟩

theorem erase_within (hh : Holds h (zip p (.node c l a r)))
    (hv : Valid (zip p (.node c l a r))) (hf : (zip p (.node c l a r)).height < fuel) :
    ∃ h', h.rbErase fuel a = some h' ∧ IsRbTree h' (before p ++ (l.inorder ++ r.inorder) ++ after p) := by
  obtain ⟨t, ht, htv⟩ := rbEraseAt_valid (fits_of_valid p hv)
  obtain ⟨h', he, hh'⟩ := hh.rbErase ht hf
  exact ⟨h', he, t, hh', htv, rbEraseAt_inorder ht⟩

theorem insert_at (hh : Holds h (zip p .nil)) (hv : Valid (zip p .nil)) (ha : Addr a)
    (hn : a ∉ (zip p .nil).inorder) (hf : (zip p .nil).inorder.length < fuel) :
    ∃ h', (h.rbLinkNode a (top p) (link p)).rbInsertColor fuel a = some h' ∧ IsRbTree h' (before p ++ a :: after p) :=
  insert_within hh hv ha hn (Nat.lt_of_le_of_lt (height_le_length _) hf)

theorem erase_at (hh : Holds h (zip p (.node c l a r)))
    (hv : Valid (zip p (.node c l a r))) (hf : (zip p (.node c l a r)).inorder.length < fuel) :
    ∃ h', h.rbErase fuel a = some h' ∧ IsRbTree h' (before p ++ (l.inorder ++ r.inorder) ++ after p) :=
  erase_within hh hv (Nat.lt_of_le_of_lt (height_le_length _) hf)

theorem replace_at {b : Nat} (hh : Holds h (zip p (.node c l b r)))
    (hv : Valid (zip p (.node c l b r))) (ha : Addr a) (hn : a ∈ (zip p (.node c l b r)).inorder → a = b) :
    IsRbTree (h.rbReplaceNode b a) (before p ++ (l.inorder ++ a :: r.inorder) ++ after p) := by
  have hfresh : a ∉ addrs l ++ addrs r ++ pathAddrs p := by
    intro hc
    have hab := hn (mem_addrs_zip (List.mem_cons_of_mem b hc))
    exact hh.around.notin (hab ▸ hc)
  refine ⟨_, hh.rbReplaceNode ha hfresh, valid_rename hv a, ?_⟩
  rw [inorder_zip]
  rfl

/-- Insertion, `rb_erase` and `rb_replace_node` give a red-black tree of the right nodes, and the walks visit them in
order. -/
theorem rbtree_contract {h : Heap} {s : List Nat} {fuel : Nat} (hs : IsRbTree h s) (hf : s.length < fuel) :
    (∀ a, Addr a → s = [] →
      ∃ h', (h.rbLinkNode a 0 none).rbInsertColor fuel a = some h' ∧ IsRbTree h' [a]) ∧
    (∀ a d, ∀ b ∈ s, Addr a → a ∉ s → h.child d b = 0 →
      ∃ h' pre post, (h.rbLinkNode a b (some d)).rbInsertColor fuel a = some h' ∧ s = pre ++ b :: post ∧
        IsRbTree h' (pre ++ d.near [a, b] [b, a] ++ post)) ∧
    (∀ b ∈ s, ∃ h' pre post, h.rbErase fuel b = some h' ∧ s = pre ++ b :: post ∧ IsRbTree h' (pre ++ post)) ∧
    (∀ a, ∀ b ∈ s, Addr a → (a ∈ s → a = b) →
      ∃ pre post, s = pre ++ b :: post ∧ IsRbTree (h.rbReplaceNode b a) (pre ++ a :: post)) ∧
    (h.rbFirst fuel).bind (walk (h.rbNext fuel) fuel) = some s ∧
    (h.rbLast fuel).bind (walk (h.rbPrev fuel) fuel) = some s.reverse := by
  obtain ⟨t, hh, hv, rfl⟩ := hs
  refine ⟨fun a ha he => ?_, fun a d b hb ha hn hc => ?_, fun b hb => ?_, fun a b hb ha hn => ?_, hh.walk (d := .left) hf,
    hh.walk (d := .right) hf⟩
  · have ht : t = .nil := by
      cases t with
      | nil => rfl
      | node c l b r => simp at he
    subst ht
    exact insert_at (p := []) hh hv ha nofun hf
  · obtain ⟨p, c, l, r, rfl⟩ := exists_zip hb
    cases d with
    | left =>
      obtain rfl : l = .nil := (Holds.ptr_eq_zero (p := ⟨.left, c, b, r⟩ :: p) hh).1 (hh.around.left.symm.trans hc)
      obtain ⟨h', he, hh'⟩ := insert_at (p := ⟨.left, c, b, r⟩ :: p) hh hv ha hn hf
      refine ⟨h', before p, r.inorder ++ after p, he, by simp [inorder_zip], ?_⟩
      simpa [before, after, Side.near] using hh'
    | right =>
      obtain rfl : r = .nil := (Holds.ptr_eq_zero (p := ⟨.right, c, b, l⟩ :: p) hh).1 (hh.around.right.symm.trans hc)
      obtain ⟨h', he, hh'⟩ := insert_at (p := ⟨.right, c, b, l⟩ :: p) hh hv ha hn hf
      refine ⟨h', before p ++ l.inorder, after p, he, by simp [inorder_zip], ?_⟩
      simpa [before, after, Side.near] using hh'
  · obtain ⟨p, c, l, r, rfl⟩ := exists_zip hb
    obtain ⟨h', he, hh'⟩ := erase_at hh hv hf
    refine ⟨h', before p ++ l.inorder, r.inorder ++ after p, he, by simp [inorder_zip], ?_⟩
    simpa using hh'
  · obtain ⟨p, c, l, r, rfl⟩ := exists_zip hb
    refine ⟨before p ++ l.inorder, r.inorder ++ after p, by simp [inorder_zip], ?_⟩
    simpa using replace_at hh hv ha hn

def pairHeap : Heap where
  parentColor a := if a = 8 then 1 else if a = 4 then 8 else 0
  left a := if a = 8 then 4 else 0
  right _ := 0
  root := 8

theorem isRbTree_pairHeap : IsRbTree pairHeap [4, 8] := by
  refine ⟨.node .black (.node .red .nil 4 .nil) 8 .nil, ⟨?_, rfl, by decide⟩, ⟨1, .black (.red .nil .nil) .nil⟩, rfl⟩
  refine ⟨⟨by decide, rfl⟩, rfl, rfl, rfl, rfl, ⟨⟨by decide, rfl⟩, rfl, rfl, rfl, rfl, trivial, trivial⟩, trivial⟩

theorem pairHeap_contract :
    (∃ h' pre post, pairHeap.rbErase 3 8 = some h' ∧ [4, 8] = pre ++ 8 :: post ∧ IsRbTree h' (pre ++ post)) ∧
    (pairHeap.rbFirst 3).bind (walk (pairHeap.rbNext 3) 3) = some [4, 8] := by
  have hc := rbtree_contract isRbTree_pairHeap (show [4, 8].length < 3 by decide)
  exact ⟨hc.2.2.1 8 (by simp), hc.2.2.2.2.1⟩

/-- No loop takes more rounds than twice the logarithm of the number of nodes. -/
theorem rb_logarithmic {h : Heap} {s : List Nat} (hs : IsRbTree h s) :
    let rounds := 2 * (s.length + 1).log2 + 1
    (∀ a d, ∀ b ∈ s, Addr a → a ∉ s → h.child d b = 0 →
      ∃ h' s', (h.rbLinkNode a b (some d)).rbInsertColor rounds a = some h' ∧ IsRbTree h' s' ∧ s'.Perm (a :: s)) ∧
    (∀ b ∈ s, ∃ h' s', h.rbErase rounds b = some h' ∧ IsRbTree h' s' ∧ s.Perm (b :: s')) ∧
    h.rbFirst rounds = some (s.head?.getD 0) ∧ h.rbLast rounds = some (s.getLast?.getD 0) ∧
    ∀ pre b post, s = pre ++ b :: post →
      h.rbNext rounds b = some (post.head?.getD 0) ∧ h.rbPrev rounds b = some (pre.getLast?.getD 0) := by
  obtain ⟨t, hh, hv, rfl⟩ := hs
  have hf := Nat.lt_succ_of_le hv.height_le
  refine ⟨fun a d b hb ha hn hc => ?_, fun b hb => ?_, hh.outermost (d := .left) hf, ?_, fun pre b post he => ?_⟩
  · obtain ⟨p, c, l, r, rfl⟩ := exists_zip hb
    rw [← node_near_far (d := d) c l r b] at hh hv hn hf ⊢
    have hx : d.near l r = .nil :=
      (Holds.ptr_eq_zero (p := ⟨d, c, b, d.far l r⟩ :: p) hh).1 (hh.reads.2.2.2.1.symm.trans hc)
    rw [hx] at hh hv hn hf ⊢
    obtain ⟨h', hi, hh'⟩ := insert_within (p := ⟨d, c, b, d.far l r⟩ :: p) hh hv ha hn hf
    refine ⟨h', _, hi, hh', ?_⟩
    have := inorder_zip (⟨d, c, b, d.far l r⟩ :: p) .nil
    simp only [inorder_nil, List.append_nil] at this
    exact List.perm_middle.trans (.cons a (.of_eq this.symm))
  · obtain ⟨p, c, l, r, rfl⟩ := exists_zip hb
    obtain ⟨h', he, hh'⟩ := erase_within hh hv hf
    refine ⟨h', _, he, hh', ?_⟩
    rw [inorder_zip]
    simpa using @List.perm_middle _ b (before p ++ l.inorder) (r.inorder ++ after p)
  · have := hh.outermost (d := .right) hf
    simpa [seq, Side.near, rbLast] using this
  · refine ⟨hh.next (d := .left) he hf, ?_⟩
    have hs : seq .right t = post.reverse ++ b :: pre.reverse := by simp [seq, Side.near, he]
    simpa [rbPrev, Side.opp] using hh.next hs hf

theorem pairHeap_rounds : pairHeap.rbFirst 3 = some 4 ∧ pairHeap.rbNext 3 4 = some 8 := by
  obtain ⟨-, -, hfirst, -, hnext⟩ := rb_logarithmic isRbTree_pairHeap
  exact ⟨hfirst, (hnext [] 4 [8] rfl).1⟩

end G3Mod.Rbtree.Pointer
