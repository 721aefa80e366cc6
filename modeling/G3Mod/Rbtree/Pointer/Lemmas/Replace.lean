import G3Mod.Rbtree.Pointer.Lemmas.Erase

/-!
# Taking a node out of the tree and putting one in its place
-/

namespace G3Mod.Rbtree.Pointer

open Heap

variable {h h' : Heap} {d e : Side} {p : Path Nat}

/-! ## The link from above -/

@[simp, grind =] theorem parent_replaceChild (q up v a : Nat) : (h.replaceChild q up v).parent a = h.parent a := by
  grind [replaceChild]

@[simp, grind =] theorem color_replaceChild (q up v a : Nat) : (h.replaceChild q up v).color a = h.color a := by
  grind [replaceChild]

theorem LinkedAt.child_replaceChild {q up : Nat} {k : Option Side} (hk : LinkedAt h q up k) (v a : Nat) :
    (h.replaceChild q up v).child e a = if a = up ∧ k = some e then v else h.child e a := by
  have hl : up ≠ 0 → (h.left up = q ↔ k = some .left) := hk.side .left
  have hnone := hk.none_iff
  cases k with
  | none => grind [replaceChild]
  | some d => cases d <;> grind [replaceChild]

theorem LinkedAt.setParentOf {q up : Nat} {k : Option Side} (hk : LinkedAt h q up k) (a v : Nat) :
    LinkedAt (h.setParentOf a v) q up k :=
  ⟨hk.none_iff, fun d h0 => by rw [child_setParentOf, hk.side d h0]⟩

@[grind =] theorem root_replaceChild (q up v : Nat) : (h.replaceChild q up v).root = if up = 0 then v else h.root := by
  grind [replaceChild]

variable {c : Color} {x : RbTree Nat} {a : Nat}

theorem Holds.unlink (hh : Holds h (zip p (d.node c .nil a x))) :
    Holds ((h.setParentOf (ptr x) (top p)).replaceChild a (top p) (ptr x)) (zip p x) := by
  obtain ⟨hp, ht, hn⟩ := holds_zip.1 hh
  obtain ⟨ha, -, -, -, -, -, hx⟩ := rep_sideNode.1 ht
  have hnd := ((addrs_sideNode c .nil x a).append_right (pathAddrs p)).nodup_iff.1 hn
  simp only [addrs, List.nil_append, List.cons_append, List.nodup_cons, List.nodup_append, List.mem_append,
    not_or] at hnd
  obtain ⟨⟨hax, hap⟩, hxn, hpn, hxp⟩ := hnd
  rw [ptr_sideNode] at hp
  have htop := top_aligned hp
  have hk := hp.linkedAt ha.1 hap
  have hch := fun e b => (hk.setParentOf (ptr x) (top p)).child_replaceChild (e := e) (ptr x) b
  have hptr : ∀ b ∈ pathAddrs p, b ≠ ptr x := fun b hb =>
    ne_ptr (hp.addr b hb).1 fun hc => hxp b hc b hb rfl
  have htopx : ∀ b ∈ addrs x, b ≠ top p := fun b hb =>
    ne_top (hx.addr b hb).1 fun hc => hxp b hb b hc rfl
  refine holds_zip.2 ⟨hp.relink hpn (fun b hb => ?_) ?_, hx.reparent hxn fun b hb => ?_,
    List.nodup_append.2 ⟨hxn, hpn, hxp⟩⟩
  · grind
  · rw [root_replaceChild, root_setParentOf]
  · have := (hx.addr b hb).1
    grind

/-! ## A node in the place of another -/

/-- In `h'` the node `n` is where `h` has a node of colour `c` with children `l` and `r`. -/
structure Moved (h h' : Heap) (p : Path Nat) (c : Color) (l r : RbTree Nat) (n : Nat) : Prop where
  parent : ∀ b ∈ addrs l ++ addrs r ++ pathAddrs p,
    h'.parent b = if b = ptr l ∨ b = ptr r then n else h.parent b
  color : ∀ b ∈ addrs l ++ addrs r ++ pathAddrs p, h'.color b = h.color b
  child : ∀ b ∈ addrs l ++ addrs r ++ pathAddrs p, ∀ e,
    h'.child e b = if b = top p ∧ link p = some e then n else h.child e b
  root : h'.root = if top p = 0 then n else h.root
  node : h'.parent n = top p ∧ h'.color n = c ∧ h'.child .left n = ptr l ∧ h'.child .right n = ptr r

variable {l r : RbTree Nat} {old n : Nat}

theorem Holds.moved (hh : Holds h (zip p (.node c l old r)))
    (hm : Moved h h' p c l r n) (hn : Addr n) (hfresh : n ∉ addrs l ++ addrs r ++ pathAddrs p) :
    Holds h' (zip p (.node c l n r)) := by
  obtain ⟨hp, ⟨ha, -, -, -, -, hl, hr⟩, hnd⟩ := holds_zip.1 hh
  simp only [addrs, List.cons_append, List.nodup_cons] at hnd
  have hnd' := hnd.2
  simp only [List.nodup_append, List.mem_append] at hnd'
  obtain ⟨⟨hln, hrn, hlr⟩, hpn, hlp⟩ := hnd'
  obtain ⟨mp, mc, mch, mr, m1, m2, m3, m4⟩ := hm
  have htop : top p ≠ 0 → top p ∈ pathAddrs p := fun h0 => top_mem fun he => h0 ((top_eq_zero hp).2 he)
  have hpl : ptr l ≠ 0 → ptr l ∈ addrs l := fun h0 => ptr_mem fun he => h0 (by rw [he]; rfl)
  have hpr : ptr r ≠ 0 → ptr r ∈ addrs r := fun h0 => ptr_mem fun he => h0 (by rw [he]; rfl)
  refine holds_zip.2 ⟨hp.relink hpn (fun b hb => ?_) mr, ⟨hn, m1, m2, m3, m4, hl.reparent hln fun b hb => ?_,
    hr.reparent hrn fun b hb => ?_⟩, ?_⟩
  · have := (hp.addr b hb).1
    grind [ptr]
  · have := (hl.addr b hb).1
    grind
  · have := (hr.addr b hb).1
    grind
  · simp only [addrs, List.cons_append, List.nodup_cons]
    exact ⟨hfresh, hnd.2⟩

@[grind =] theorem parent_copy (L R : Nat → Nat) (root a v b : Nat) :
    (Heap.mk (Function.update h.parentColor a (h.parentColor v)) L R root).parent b =
      if b = a then h.parent v else h.parent b := by
  by_cases hb : b = a <;> simp [Heap.parent, hb]

@[grind =] theorem color_copy (L R : Nat → Nat) (root a v b : Nat) :
    (Heap.mk (Function.update h.parentColor a (h.parentColor v)) L R root).color b =
      if b = a then h.color v else h.color b := by
  by_cases hb : b = a <;> simp [Heap.color, hb]

@[grind =] theorem child_copy (pc : Nat → Nat) (root a u v b : Nat) :
    (Heap.mk pc (Function.update h.left a u) (Function.update h.right a v) root).child e b =
      if b = a then e.near u v else h.child e b := by
  by_cases hb : b = a <;> cases e <;> simp [Heap.child, Side.near, hb]

structure Around (h : Heap) (p : Path Nat) (c : Color) (l r : RbTree Nat) (a : Nat) : Prop where
  addr : Addr a
  parent : h.parent a = top p
  color : h.color a = c
  left : h.child .left a = ptr l
  right : h.child .right a = ptr r
  ne_top : a ≠ top p
  ne_left : a ≠ ptr l
  ne_right : a ≠ ptr r
  linked : LinkedAt h a (top p) (link p)
  aligned : top p % 4 = 0
  notin : a ∉ addrs l ++ addrs r ++ pathAddrs p
  addrs : ∀ b ∈ addrs l ++ addrs r ++ pathAddrs p, Addr b

theorem Holds.around (hh : Holds h (zip p (.node c l a r))) :
    Around h p c l r a := by
  obtain ⟨hp, ⟨ha, h1, h2, h3, h4, hl, hr⟩, hn⟩ := holds_zip.1 hh
  simp only [Pointer.addrs, List.cons_append, List.nodup_cons] at hn
  have hni := hn.1
  simp only [List.mem_append, not_or] at hni
  refine ⟨ha, h1, h2, h3, h4, ne_top ha.1 hni.2, ne_ptr ha.1 hni.1.1, ne_ptr ha.1 hni.1.2, hp.linkedAt ha.1 hni.2,
    top_aligned hp, hn.1, ?_⟩
  intro b hb
  simp only [List.mem_append] at hb
  obtain (hb | hb) | hb := hb
  · exact hl.addr b hb
  · exact hr.addr b hb
  · exact hp.addr b hb

theorem Holds.rbReplaceNode {c : Color} {l r : RbTree Nat} {victim new : Nat}
    (hh : Holds h (zip p (.node c l victim r))) (hn : Addr new)
    (hfresh : new ∉ addrs l ++ addrs r ++ pathAddrs p) :
    Holds (h.rbReplaceNode victim new) (zip p (.node c l new r)) := by
  have ha := hh.around
  have hch := fun e b => ha.linked.child_replaceChild (e := e) new b
  refine hh.moved ?_ hn hfresh
  have hleft : (h.replaceChild victim (top p) new).left victim = ptr l := by
    have := hch .left victim
    rwa [if_neg fun hc => ha.ne_top hc.1, ha.left] at this
  have hright : ((h.replaceChild victim (top p) new).setParentOf (ptr l) new).right victim = ptr r := by
    have := child_setParentOf (d := .right) (h.replaceChild victim (top p) new) (ptr l) new victim
    rwa [hch, if_neg fun hc => ha.ne_top hc.1, ha.right] at this
  have hvl := fun e => child_setParentOf (d := e)
    ((h.replaceChild victim (top p) new).setParentOf (ptr l) new) (ptr r) new victim
  refine ⟨fun b hb => ?_, fun b hb => ?_, fun b hb e => ?_, ?_, ?_, ?_, ?_, ?_⟩
  all_goals simp only [Heap.rbReplaceNode, ha.parent, hleft, hright]
  · have h0 := (ha.addrs b hb).1
    have := hn.2
    grind
  · have := hn.2
    grind
  · grind
  · rw [root_setParentOf, root_setParentOf, root_replaceChild]
  · have := hn.2
    grind [ha.ne_left, ha.ne_right, ha.parent]
  · have := hn.2
    grind [ha.color]
  · rw [child_copy, if_pos rfl]
    exact ((hvl .left).trans (child_setParentOf _ _ _ _)).trans hleft
  · rw [child_copy, if_pos rfl]
    exact (hvl .right).trans hright

/-! ## A node with two children -/

theorem takePlace_reads {u : Nat} (hu : h.child .left old = u) (hne : old ≠ n) (hn : n % 4 = 0) :
    (∀ b, (h.takePlace old n).parent b = if b = u then n else if b = n then h.parent old else h.parent b) ∧
    (∀ b, (h.takePlace old n).color b = if b = n then h.color old else h.color b) ∧
    (∀ e b, (h.takePlace old n).child e b = if b = n ∧ e = .left then u else h.child e b) ∧
    (h.takePlace old n).root = h.root := by
  have h1 : h.left old = u := hu
  have h2 : (({ h with parentColor := Function.update h.parentColor n (h.parentColor old) } : Heap).setChild
      .left n u).left old = u := by
    simp [setChild, hne, h1]
  simp only [takePlace, h1, h2]
  refine ⟨fun b => ?_, fun b => ?_, fun e b => ?_, by simp⟩
  · grind
  · grind
  · rw [child_setParent, child_setChild]
    rfl

variable {par : Nat}

theorem liftNext_reads {v : Nat} (child : Nat) (hv : h.child .right old = v) (hpar : par ≠ old) (hne : old ≠ n)
    (hn : n % 4 = 0) (hp : par % 4 = 0) :
    (∀ b, (h.liftNext old n child par).1.parent b =
      if b = v then n else if b = child ∧ child ≠ 0 then par else h.parent b) ∧
    (∀ b, (h.liftNext old n child par).1.color b = h.color b) ∧
    (∀ e b, (h.liftNext old n child par).1.child e b =
      if b = n ∧ e = .right then v else if b = par ∧ e = .left then child else h.child e b) ∧
    (h.liftNext old n child par).1.root = h.root := by
  have h1 : ((h.setParentOf child par).setChild .left par child).right old = v :=
    (child_setParentOf (d := .right) h child par old).trans hv
  have h2 : (((h.setParentOf child par).setChild .left par child).setChild .right n v).right old = v := by
    simp [setChild, hne]
    exact h1
  simp only [liftNext, if_neg hpar, h1, h2]
  refine ⟨fun b => ?_, fun b => ?_, fun e b => ?_, by simp⟩
  · grind
  · grind
  · grind

theorem zip_append (p q : Path Nat) (t : RbTree Nat) : zip (q ++ p) t = zip p (zip q t) := by
  induction q generalizing t with
  | nil => rfl
  | cons f q ih => exact ih _

theorem pathAddrs_append (p q : Path Nat) : pathAddrs (q ++ p) = pathAddrs q ++ pathAddrs p := by
  induction q with
  | nil => rfl
  | cons f q ih => simp [pathAddrs, ih]

theorem ptr_zip_cons : ∀ (q : Path Nat) (f : Frame Nat) (s t : RbTree Nat), ptr (zip (f :: q) s) = ptr (zip (f :: q) t)
  | [], f, s, t => by simp [zip, Frame.plug]
  | g :: q, f, s, t => ptr_zip_cons q g _ _

theorem addrs_zip_node (q : Path Nat) :
    (addrs (zip q (.node c .nil n x))).Perm (n :: addrs (zip q x)) := by
  refine (addrs_zip _ _).trans ?_
  exact (addrs_zip _ _).symm.cons n

variable {c' : Color}

theorem Holds.splice_mid {q : Path Nat}
    (hpar : par = top (q ++ ⟨.right, c, old, l⟩ :: p))
    (hh : Holds h (zip (q ++ ⟨.right, c, old, l⟩ :: p) (.node c' .nil n x))) :
    ∃ h1, Holds h1 (zip p (.node c l old (zip q x))) ∧
      (∀ b, h1.parent b = if b = ptr x ∧ ptr x ≠ 0 then par else h.parent b) ∧ (∀ b, h1.color b = h.color b) ∧
      (∀ e b, h1.child e b =
        if b = par ∧ link (q ++ ⟨.right, c, old, l⟩ :: p) = some e then ptr x else h.child e b) ∧
      h1.root = h.root := by
  have hn := hh.around
  have h1 := Holds.unlink (d := .left) hh
  have hal := hn.aligned
  have h0 : par ≠ 0 := fun h0 => by
    have := hn.linked.none_iff.2 (hpar ▸ h0)
    cases q <;> cases this
  have hk := fun e b => (hn.linked.setParentOf (ptr x) par).child_replaceChild (e := e) (ptr x) b
  rw [← hpar] at h1 hal hk
  rw [zip_append] at h1
  refine ⟨_, h1, fun b => ?_, fun b => ?_, fun e b => ?_, ?_⟩
  · grind
  · grind
  · rw [hk, child_setParentOf]
  · rw [root_replaceChild, if_neg h0, root_setParentOf]

theorem Holds.splice {q : Path Nat} (hq : ∀ f ∈ q, f.side = .left)
    (hh : Holds h (zip (q ++ ⟨.right, c, old, l⟩ :: p) (.node c' .nil n x))) :
    Holds (((h.replaceChild old (top p) n).liftNext old n (ptr x) (h.parent n)).1.takePlace old n)
      (zip (q ++ ⟨.right, c, n, l⟩ :: p) x) ∧
    ((h.replaceChild old (top p) n).liftNext old n (ptr x) (h.parent n)).2 = top (q ++ ⟨.right, c, n, l⟩ :: p) := by
  have hn := hh.around
  have hold : Holds h (zip p (.node c l old (zip q (.node c' .nil n x)))) := by
    rw [zip_append] at hh
    exact hh
  have ho := hold.around
  obtain ⟨h1, hh1, rp, rc, rch, rr⟩ := hh.splice_mid rfl
  have ho1 := hh1.around
  -- the nodes of the new tree are neither `old` nor `n`
  have hperm : (addrs l ++ addrs (zip q (.node c' .nil n x)) ++ pathAddrs p).Perm
      (n :: (addrs l ++ addrs (zip q x) ++ pathAddrs p)) :=
    (((addrs_zip_node q).append_left _).trans List.perm_middle).append_right _
  have hfresh : n ∉ addrs l ++ addrs (zip q x) ++ pathAddrs p := by
    have hnd := (holds_zip.1 hold).2.2
    simp only [addrs, List.cons_append, List.nodup_cons] at hnd
    exact (List.nodup_cons.1 (hperm.nodup_iff.1 hnd.2)).1
  have hne : old ≠ n := fun he => ho.notin (hperm.mem_iff.2 (he ▸ List.mem_cons_self))
  have hb_old : ∀ b ∈ addrs l ++ addrs (zip q x) ++ pathAddrs p, b ≠ old := fun b hb he => ho1.notin (he ▸ hb)
  have hchild : ∀ e b, (h.replaceChild old (top p) n).child e b =
      if b = top p ∧ link p = some e then n else h.child e b := fun e b => ho.linked.child_replaceChild n b
  have hni := hfresh
  simp only [List.mem_append, not_or] at hni
  have hntop : n ≠ top p := ne_top hn.addr.1 hni.2
  have hnl : n ≠ ptr l := ne_ptr hn.addr.1 hni.1.1
  rw [zip_append]
  cases q with
  | nil =>
    have hpn : h.parent n = old := hn.parent
    have hlift : (h.replaceChild old (top p) n).liftNext old n (ptr x) (h.parent n) =
        (h.replaceChild old (top p) n, n) := by
      rw [liftNext, if_pos hpn]
    rw [hlift]
    have hu : (h.replaceChild old (top p) n).child .left old = ptr l := by
      rw [hchild, if_neg fun hc => ho.ne_top hc.1, ho.left]
    obtain ⟨tp, tc, tch, tr⟩ := takePlace_reads hu hne hn.addr.2
    have hx : x ≠ .nil → h.parent (ptr x) = n :=
      Holds.parent_eq (p := ⟨.right, c', n, .nil⟩ :: ⟨.right, c, old, l⟩ :: p) hh
    refine ⟨hh1.moved (n := n) ⟨fun b hb => ?_, fun b hb => ?_, fun b hb e => ?_, ?_, ?_, ?_, ?_, ?_⟩ hn.addr hfresh,
      rfl⟩
    · have hx0 : b = ptr x → x ≠ .nil := by
        rintro rfl rfl
        exact (ho1.addrs _ hb).1 rfl
      grind [zip]
    · grind
    · grind [top]
    · grind
    · grind [ho.parent]
    · grind [ho.color]
    · grind
    · rw [tch, if_neg (by simp), hchild, if_neg fun hc => hntop hc.1, hn.right]
      rfl
  | cons f q =>
    have hpn : h.parent n = f.elem := hn.parent
    have hfz : f.elem ∈ addrs (zip (f :: q) x) := (addrs_zip _ _).mem_iff.2 (List.mem_append_right _ List.mem_cons_self)
    have hfin : f.elem ∈ addrs l ++ addrs (zip (f :: q) x) ++ pathAddrs p :=
      List.mem_append_left _ (List.mem_append_right _ hfz)
    have hfold : f.elem ≠ old := hb_old _ hfin
    have hside : f.side = .left := hq f List.mem_cons_self
    have hftop : f.elem ≠ top p := by
      have hnd := (holds_zip.1 hh1).2.2
      simp only [addrs, List.cons_append, List.nodup_cons, List.nodup_append] at hnd
      exact ne_top (ho1.addrs _ hfin).1 fun hc => hnd.2.2.2 _ (List.mem_append_right _ hfz) _ hc rfl
    have hox : old ≠ ptr x := by
      refine ne_ptr ho.addr.1 fun hc => ho1.notin (List.mem_append_left _ (List.mem_append_right _ ?_))
      exact (addrs_zip _ _).mem_iff.2 (List.mem_append_left _ hc)
    have hv : (h.replaceChild old (top p) n).child .right old = ptr (zip (f :: q) x) := by
      rw [hchild, if_neg fun hc => ho.ne_top hc.1, ho.right, ptr_zip_cons q f _ x]
    obtain ⟨lp, lc, lch, lr⟩ := liftNext_reads (ptr x) hv hfold hne hn.addr.2 hn.aligned
    have hu : ((h.replaceChild old (top p) n).liftNext old n (ptr x) f.elem).1.child .left old = ptr l := by
      grind [ho.ne_top, ho.left]
    obtain ⟨tp, tc, tch, tr⟩ := takePlace_reads hu hne hn.addr.2
    have hlink : link (f :: q ++ ⟨.right, c, old, l⟩ :: p) = some .left := congrArg some hside
    have htop : top (f :: q ++ ⟨.right, c, old, l⟩ :: p) = f.elem := rfl
    rw [hpn]
    refine ⟨hh1.moved (n := n) ⟨fun b hb => ?_, fun b hb => ?_, fun b hb e => ?_, ?_, ?_, ?_, ?_, ?_⟩ hn.addr hfresh,
      ?_⟩
    · grind
    · grind
    · grind
    · grind
    · grind [ho.parent, ho1.ne_right]
    · grind [ho.color]
    · grind
    · grind
    · rw [liftNext, if_neg hfold]
      rfl

theorem leftmost_zip : ∀ (l : RbTree Nat) (p : Path Nat) (c : Color) (a : Nat) (r : RbTree Nat),
    zip (leftmost p c l a r).2.2.2 (.node (leftmost p c l a r).1 .nil (leftmost p c l a r).2.1
      (leftmost p c l a r).2.2.1) = zip p (.node c l a r)
  | .nil, _, _, _, _ => rfl
  | .node c' l' a' r', p, c, a, r => leftmost_zip l' (⟨.left, c, a, r⟩ :: p) c' a' r'

theorem leftmost_side : ∀ (l : RbTree Nat) (p : Path Nat) (c : Color) (a : Nat) (r : RbTree Nat),
    (∀ f ∈ p, f.side = .left) → ∀ f ∈ (leftmost p c l a r).2.2.2, f.side = .left
  | .nil, _, _, _, _, hp => hp
  | .node c' l' a' r', p, c, a, r, hp => leftmost_side l' (⟨.left, c, a, r⟩ :: p) c' a' r' (by simpa using hp)

theorem rbUnlink_holds {t : RbTree Nat} {fuel : Nat} (hh : Holds h (zip p x))
    (ht : rbUnlink p c x = some t) (hf : p.length < fuel) :
    ∃ h', (if c = .black then h.rbEraseColor fuel (ptr x) (top p) else some h) = some h' ∧ Holds h' t := by
  cases c with
  | red =>
    simp only [rbUnlink, Option.some.injEq] at ht
    exact ⟨h, by simp, ht ▸ hh⟩
  | black =>
    exact rbEraseColor_holds p ht hh hf

theorem Holds.eraseLeaf {c : Color} {x t : RbTree Nat} {a fuel : Nat} (hh : Holds h (zip p (d.node c .nil a x)))
    (ht : rbUnlink p c x = some t) (hf : p.length < fuel) :
    ∃ h', h.eraseLeaf fuel a (ptr x) = some h' ∧ Holds h' t := by
  obtain ⟨-, h1, h2, -⟩ := hh.reads
  have := rbUnlink_holds hh.unlink ht hf
  simpa only [Heap.eraseLeaf, h1, h2] using this

theorem Holds.eraseInner {q : Path Nat} {c c' : Color} {l x t : RbTree Nat} {old n fuel : Nat}
    (hq : ∀ f ∈ q, f.side = .left) (hh : Holds h (zip (q ++ ⟨.right, c, old, l⟩ :: p) (.node c' .nil n x)))
    (ht : rbUnlink (q ++ ⟨.right, c, n, l⟩ :: p) c' x = some t) (hf : (q ++ ⟨.right, c, n, l⟩ :: p).length < fuel) :
    ∃ h', h.eraseInner fuel old n = some h' ∧ Holds h' t := by
  obtain ⟨hs, htop⟩ := hh.splice hq
  have := rbUnlink_holds hs ht hf
  have hold : Holds h (zip p (.node c l old (zip q (.node c' .nil n x)))) := by
    rw [zip_append] at hh
    exact hh
  have hntop : n ≠ top p := by
    have hn := hh.around.notin
    simp only [List.mem_append, not_or] at hn
    refine ne_top hh.around.addr.1 fun hc => hn.2 ?_
    simp [pathAddrs_append, pathAddrs, hc]
  have hr : (h.replaceChild old (top p) n).right n = ptr x := by
    have := hold.around.linked.child_replaceChild (e := .right) n n
    rw [if_neg fun hc => hntop hc.1, hh.around.right] at this
    exact this
  simp only [Heap.eraseInner, hold.around.parent, hr, parent_replaceChild, color_replaceChild, htop, hh.around.color]
  exact this

theorem Holds.rbErase {c : Color} {l r t : RbTree Nat} {a fuel : Nat} (hh : Holds h (zip p (.node c l a r)))
    (ht : rbEraseAt p c l r = some t) (hf : (zip p (.node c l a r)).height < fuel) :
    ∃ h', h.rbErase fuel a = some h' ∧ Holds h' t := by
  have ha := hh.around
  have hlen := length_add_height_le p (.node c l a r)
  have hl : h.left a = ptr l := ha.left
  have hr : h.right a = ptr r := ha.right
  have hl0 : ptr l = 0 ↔ l = .nil := Holds.ptr_eq_zero (p := ⟨.left, c, a, r⟩ :: p) hh
  have hr0 : ptr r = 0 ↔ r = .nil := Holds.ptr_eq_zero (p := ⟨.right, c, a, l⟩ :: p) hh
  simp only [Heap.rbErase, hl, hr, hl0, hr0]
  match l, r with
  | .nil, r =>
    exact Holds.eraseLeaf (d := .left) hh ht (by omega)
  | .node lc ll la lr, .nil =>
    exact Holds.eraseLeaf (d := .right) hh ht (by omega)
  | .node lc ll la lr, .node rc rl ra rr =>
    have hR : Holds h (zip (⟨.right, c, a, .node lc ll la lr⟩ :: p) (.node rc rl ra rr)) := hh
    have hRlen := length_add_height_le (⟨.right, c, a, .node lc ll la lr⟩ :: p) (.node rc rl ra rr)
    have hle : (RbTree.node rc rl ra rr).height ≤ fuel :=
      Nat.le_trans (Nat.le_trans (Nat.le_add_left _ _) hRlen) (Nat.le_of_lt hf)
    obtain ⟨b, hb, hhead⟩ := hR.descend (d := .left) nofun hle
    have hz := leftmost_zip rl [] rc ra rr
    have hside := leftmost_side rl [] rc ra rr nofun
    have hin := (leftmost_inorder rl [] rc ra rr).2
    simp only [rbEraseAt] at ht
    generalize leftmost [] rc rl ra rr = m at hz hside hin ht
    obtain ⟨c', n, x, q⟩ := m
    have hbn : b = n := by
      simp only [seq, Side.near, inorder_node] at hhead
      simp only [after, List.append_nil] at hin
      rw [← hin] at hhead
      exact (Option.some.inj hhead).symm
    subst hbn
    have hqlen := length_add_height_le (q ++ ⟨.right, c, a, .node lc ll la lr⟩ :: p) (.node c' .nil b x)
    have hzip : zip (q ++ ⟨.right, c, a, .node lc ll la lr⟩ :: p) (.node c' .nil b x) =
        zip p (.node c (.node lc ll la lr) a (.node rc rl ra rr)) := by
      rw [zip_append, hz]
      rfl
    have hq : Holds h (zip (q ++ ⟨.right, c, a, .node lc ll la lr⟩ :: p) (.node c' .nil b x)) := hzip ▸ hh
    rw [hzip] at hqlen
    have hfuel : (q ++ ⟨.right, c, b, .node lc ll la lr⟩ :: p).length < fuel := by
      simp only [List.length_append, List.length_cons] at hqlen ⊢
      omega
    obtain ⟨h', he, hh'⟩ := hq.eraseInner hside ht hfuel
    refine ⟨h', ?_, hh'⟩
    rw [if_neg nofun, if_neg nofun, hb]
    exact he

end G3Mod.Rbtree.Pointer
