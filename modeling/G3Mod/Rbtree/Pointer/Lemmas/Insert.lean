import G3Mod.Rbtree.Pointer.Lemmas.Rep
import Mathlib.Data.List.Basic

/-!
# Insertion in memory follows insertion in the tree
-/

namespace G3Mod.Rbtree.Pointer

open Heap

variable {h : Heap} {d : Side} {p : Path Nat}

/-! ## Reading a node of the tree -/

variable {c : Color} {x y : RbTree Nat} {a : Nat}

theorem Holds.reads (hh : Holds h (zip p (d.node c x a y))) :
    Addr a ∧ h.parent a = top p ∧ h.color a = c ∧ h.child d a = ptr x ∧ h.child d.opp a = ptr y := by
  obtain ⟨-, ht, -⟩ := holds_zip.1 hh
  obtain ⟨ha, h1, h2, h3, h4, -⟩ := rep_sideNode.1 ht
  exact ⟨ha, h1, h2, h3, h4⟩

theorem Holds.ptr_eq_zero {t : RbTree Nat} (hh : Holds h (zip p t)) : ptr t = 0 ↔ t = .nil :=
  Pointer.ptr_eq_zero (holds_zip.1 hh).2.1

variable {t : RbTree Nat}

theorem Holds.isRed_iff (hh : Holds h (zip p t)) :
    (ptr t ≠ 0 ∧ h.isRed (ptr t)) ↔ t.isRed = true := by
  rw [ne_eq, hh.ptr_eq_zero]
  cases t with
  | nil => simp [RbTree.isRed]
  | node c l a r =>
    have hc := (Holds.reads (d := .left) hh).2.2.1
    cases c <;> simp [ptr, isRed, hc, RbTree.isRed]

theorem zip_sibling (f : Frame Nat) (t : RbTree Nat) :
    zip (f :: p) t = zip (⟨f.side.opp, f.color, f.elem, t⟩ :: p) f.sibling := by
  simp only [zip, Frame.plug]
  cases f.side <;> rfl

variable {f : Frame Nat}

theorem Holds.side_eq (hh : Holds h (zip (f :: p) t)) (ht : t ≠ .nil) :
    h.child d f.elem = ptr t ↔ d = f.side := by
  obtain ⟨hp, hr, hn⟩ := holds_zip.1 hh
  have hm := ptr_mem ht
  refine hp.child_eq (hr.addr _ hm).1 fun hc => ?_
  rw [List.nodup_append] at hn
  exact hn.2.2 _ hm _ hc rfl

@[simp] theorem opp_node (c : Color) (x y : RbTree Nat) (a : Nat) : d.opp.node c x a y = d.node c y a x := by
  cases d <;> rfl

theorem node_near_far (c : Color) (l r : RbTree Nat) (a : Nat) :
    d.node c (d.near l r) a (d.far l r) = .node c l a r := by
  cases d <;> rfl

variable {u : RbTree Nat} {g : Nat}

theorem Holds.lift
    (hh : Holds h (zip p (d.node c (d.node .red x a y) g u))) :
    Holds (((h.setBlack a).setRed g).rotate d.opp g) (zip p (d.node .black x a (d.node .red y g u))) := by
  have h1 : Holds (h.setBlack a) (zip (⟨d, c, g, u⟩ :: p) (d.node .black x a y)) :=
    Holds.setColor (p := ⟨d, c, g, u⟩ :: p) hh .black
  have h2 : Holds ((h.setBlack a).setRed g) (zip p (d.node .red (d.node .black x a y) g u)) :=
    Holds.setColor (p := p) h1 .red
  rw [← opp_node, ← opp_node .black] at h2
  simpa using h2.rotate

variable {b : Nat}

theorem Holds.insertRotate_outer {s : RbTree Nat} (hx : x ≠ .nil)
    (hh : Holds h (zip p (d.node c (d.node .red x b s) g u))) :
    ∃ h', h.insertRotate d (ptr x) b g = (ptr x, h') ∧
      Holds h' (zip p (d.node .black x b (d.node .red s g u))) := by
  have hside : ¬ h.child d.opp b = ptr x := fun hc =>
    opp_ne d ((Holds.side_eq (f := ⟨d, .red, b, s⟩) (p := ⟨d, c, g, u⟩ :: p) hh hx).1 hc)
  refine ⟨_, ?_, hh.lift⟩
  simp only [insertRotate, if_neg hside]

theorem Holds.insertRotate_inner {s : RbTree Nat}
    (hh : Holds h (zip p (d.node c (d.node .red s b (d.node .red x a y)) g u))) :
    ∃ h', h.insertRotate d a b g = (b, h') ∧
      Holds h' (zip p (d.node .black (d.node .red s b x) a (d.node .red y g u))) := by
  have hside : h.child d.opp b = a := by
    have := (Holds.reads (p := ⟨d, c, g, u⟩ :: p) hh).2.2.2.2
    rwa [ptr_sideNode] at this
  have h1 : Holds (h.rotate d b) (zip p (d.node c (d.node .red (d.node .red s b x) a y) g u)) :=
    Holds.rotate (p := ⟨d, c, g, u⟩ :: p) hh
  refine ⟨_, ?_, h1.lift⟩
  simp only [insertRotate, if_pos hside]

/-! ## The loop -/

theorem Holds.parent_eq (hh : Holds h (zip p t)) (ht : t ≠ .nil) : h.parent (ptr t) = top p := by
  cases t with
  | nil => exact absurd rfl ht
  | node c l a r => exact (Holds.reads (d := .left) hh).2.1

theorem zip_ne_nil (ht : t ≠ .nil) : zip p t ≠ .nil := by
  intro he
  have := (addrs_zip p t).mem_iff.2 (List.mem_append_left _ (ptr_mem ht))
  simp [he, addrs] at this

theorem Holds.root_ne_zero (hh : Holds h t) (ht : t ≠ .nil) : h.root ≠ 0 := by
  rw [hh.root, ne_eq, Holds.ptr_eq_zero (p := []) hh]
  exact ht

theorem Holds.frame (hh : Holds h (zip (f :: p) t)) :
    f.elem ≠ 0 ∧ h.parent f.elem = top p ∧ h.color f.elem = f.color ∧ h.child f.side f.elem = ptr t ∧
      h.child f.side.opp f.elem = ptr f.sibling := by
  obtain ⟨ha, h1, h2, h3, h4⟩ := Holds.reads (p := p) (d := f.side) hh
  exact ⟨ha.1, h1, h2, h3, h4⟩

theorem Holds.sibling {f : Frame Nat} {t : RbTree Nat} (hh : Holds h (zip (f :: p) t)) :
    Holds h (zip (⟨f.side.opp, f.color, f.elem, t⟩ :: p) f.sibling) :=
  zip_sibling (p := p) f t ▸ hh

theorem Holds.side_test (hh : Holds h (zip (f :: p) t)) (ht : t ≠ .nil) :
    (if h.left f.elem = ptr t then Side.left else .right) = f.side := by
  have h1 : h.left f.elem = ptr t ↔ Side.left = f.side := hh.side_eq (d := .left) ht
  by_cases hs : Side.left = f.side
  · rw [if_pos (h1.2 hs), hs]
  · rw [if_neg fun hc => hs (h1.1 hc)]
    exact (eq_opp_of_ne fun hc => hs hc.symm).symm

theorem Holds.insert_stop (hh : Holds h (zip p t)) (ht : t ≠ .nil)
    (hb : ∀ f rest, p = f :: rest → f.color = .black) (fuel : Nat) :
    ∃ h', h.rbInsertColor (fuel + 1) (ptr t) = some h' ∧ Holds h' (zip p t).setBlack := by
  refine ⟨_, ?_, hh.setBlack_root (zip_ne_nil ht)⟩
  have hstop : ¬ (top p ≠ 0 ∧ h.isRed (top p) = true) := by
    cases p with
    | nil => exact fun hc => hc.1 rfl
    | cons f rest =>
      have hc := hh.frame.2.2.1
      rw [hb f rest rfl] at hc
      simp [top, isRed, hc]
  simp only [Heap.rbInsertColor, hh.parent_eq ht, if_neg hstop, if_neg (hh.root_ne_zero (zip_ne_nil ht))]

variable {v : RbTree Nat}

theorem Holds.insert_round {s : Side}
    (hh : Holds h (zip (⟨s, .red, b, u⟩ :: ⟨d, c, g, v⟩ :: p) t)) (ht : t ≠ .nil) (fuel : Nat) :
    h.rbInsertColor (fuel + 1) (ptr t) =
      if v.isRed then (((h.setBlack (ptr v)).setBlack b).setRed g).rbInsertColor fuel g
      else (h.insertRotate d (ptr t) b g).2.rbInsertColor fuel (h.insertRotate d (ptr t) b g).1 := by
  obtain ⟨hb0, hpar, hcol, -⟩ := hh.frame
  have hg : Holds h (zip (⟨d, c, g, v⟩ :: p) (s.node .red t b u)) := hh
  obtain ⟨hg0, -, -, -, hv⟩ := hg.frame
  have hred : b ≠ 0 ∧ h.isRed b = true := ⟨hb0, decide_eq_true hcol⟩
  have hside : (if b = h.left g then Side.left else .right) = d := by
    have := hg.side_test (by cases s <;> nofun)
    simpa only [ptr_sideNode, eq_comm] using this
  simp only [Heap.rbInsertColor, hh.parent_eq ht, top, if_pos hred, hpar, if_neg hg0, hside, hv, hg.sibling.isRed_iff]

theorem Holds.recolor {s : Side}
    (hh : Holds h (zip (⟨s, .red, b, u⟩ :: ⟨d, c, g, v⟩ :: p) t)) (hv : v.isRed = true) :
    Holds (((h.setBlack (ptr v)).setBlack b).setRed g)
      (zip p (d.node .red (s.node .black t b u) g v.setBlack)) := by
  cases v with
  | nil => cases hv
  | node cv vl va vr =>
    have hg : Holds h (zip (⟨d, c, g, .node cv vl va vr⟩ :: p) (s.node .red t b u)) := hh
    have h1 : Holds (h.setBlack va) (zip (⟨d.opp, c, g, s.node .red t b u⟩ :: p) (.node .black vl va vr)) :=
      Holds.setColor (d := .left) hg.sibling .black
    have h2 := h1.sibling
    simp only [opp_opp] at h2
    exact Holds.setColor (p := p) (h2.setColor .black) .red

theorem rbInsertColor_holds : ∀ (p : Path Nat) {l r t : RbTree Nat} {a fuel : Nat} {h : Heap},
    Rbtree.rbInsertColor p l a r = some t → Holds h (zip p (.node .red l a r)) → p.length < fuel →
      ∃ h', h.rbInsertColor fuel a = some h' ∧ Holds h' t
  | [], l, r, t, a, fuel + 1, h, ht, hh, _ => by
      simp only [Rbtree.rbInsertColor, Option.some.injEq] at ht
      subst ht
      exact hh.insert_stop (p := []) (by simp) (by simp) fuel
  | ⟨s, .black, b, u⟩ :: p, l, r, t, a, fuel + 1, h, ht, hh, _ => by
      simp only [Rbtree.rbInsertColor, Option.some.injEq] at ht
      subst ht
      refine hh.insert_stop (by simp) (fun f rest he => ?_) fuel
      cases he
      rfl
  | [⟨s, .red, b, u⟩], l, r, t, a, fuel, h, ht, hh, _ => by simp [Rbtree.rbInsertColor] at ht
  | ⟨s, .red, b, u⟩ :: ⟨d, c, g, v⟩ :: p, l, r, t, a, fuel + 1, h, ht, hh, hf => by
      simp only [Rbtree.rbInsertColor] at ht
      have hround := hh.insert_round (by simp) fuel
      rw [show ptr (.node .red l a r) = a from rfl] at hround
      rw [hround]
      split at ht
      · rename_i hv
        rw [if_pos hv]
        have hfuel : p.length < fuel := by
          simp only [List.length_cons] at hf
          omega
        have hh := hh.recolor hv
        cases d with
        | left | right => exact rbInsertColor_holds p ht hh hfuel
      · rename_i hv
        rw [if_neg hv]
        obtain ⟨fuel, rfl⟩ : ∃ k, fuel = k + 1 := ⟨fuel - 1, by simp only [List.length_cons] at hf; omega⟩
        split at ht
        · rename_i hs
          simp only [Option.some.injEq] at ht
          subst ht hs
          have hh : Holds h (zip p (s.node c (s.node .red (.node .red l a r) b u) g v)) := hh
          obtain ⟨h', hr, hh'⟩ := Holds.insertRotate_outer (x := .node .red l a r) (by simp) hh
          rw [show ptr (.node .red l a r) = a from rfl] at hr
          rw [hr]
          exact Holds.insert_stop (p := ⟨s, .black, b, s.node .red u g v⟩ :: p) hh' (by simp)
            (fun f rest he => by cases he; rfl) fuel
        · rename_i hs
          simp only [Option.some.injEq] at ht
          subst ht
          rw [eq_opp_of_ne hs, ← node_near_far (d := d) .red l r a] at hh
          have hh : Holds h (zip p (d.node c (d.node .red u b (d.node .red (d.near l r) a (d.far l r))) g v)) := by
            simpa [zip, Frame.plug] using hh
          obtain ⟨h', hr, hh'⟩ := hh.insertRotate_inner
          rw [hr]
          have := Holds.insert_stop (p := ⟨d, .black, a, d.node .red (d.far l r) g v⟩ :: p) hh'
            (by cases d <;> simp [Side.node]) (fun f rest he => by cases he; rfl) fuel
          rwa [ptr_sideNode] at this

theorem rbLinkNode_reads {up : Nat} (k : Option Side) (hup : up % 4 = 0) (hne : up ≠ a) :
    (∀ b, (h.rbLinkNode a up k).parent b = if b = a then up else h.parent b) ∧
    (∀ b, (h.rbLinkNode a up k).color b = if b = a then .red else h.color b) ∧
    (∀ e b, (h.rbLinkNode a up k).child e b =
      if b = a then 0 else if b = up ∧ k = some e then a else h.child e b) ∧
    (h.rbLinkNode a up k).root = if k = none then a else h.root := by
  have hpar : ∀ b, (Function.update h.parentColor a up b) / 4 * 4 = if b = a then up else h.parent b := by
    intro b
    by_cases hb : b = a
    · subst hb
      simp only [Function.update_self, if_true]
      omega
    · simp [hb, Heap.parent]
  have hcol : ∀ b, (if Function.update h.parentColor a up b % 2 = 0 then Color.red else .black) =
      if b = a then .red else h.color b := by
    intro b
    by_cases hb : b = a
    · subst hb
      rw [Function.update_self, if_pos (by omega), if_pos rfl]
    · simp [hb, Heap.color]
  cases k with
  | none =>
    refine ⟨hpar, hcol, fun e b => ?_, rfl⟩
    by_cases hb : b = a <;> cases e <;> simp [Heap.rbLinkNode, child, Side.near, hb]
  | some d =>
    refine ⟨fun b => ?_, fun b => ?_, fun e b => ?_, ?_⟩
    · simp only [Heap.rbLinkNode, parent_setChild]
      exact hpar b
    · simp only [Heap.rbLinkNode, color_setChild]
      exact hcol b
    · simp only [Heap.rbLinkNode, child_setChild, Option.some.injEq]
      by_cases hb : b = a
      · subst hb
        rw [if_neg fun hc => hne hc.1.symm, if_pos rfl]
        cases e <;> simp [child, Side.near]
      · rw [if_neg hb]
        simp only [@eq_comm _ d e]
        cases e <;> simp [child, Side.near, hb]
    · simp [Heap.rbLinkNode]

theorem Holds.rbLinkNode {a : Nat} (hh : Holds h (zip p .nil)) (ha : Addr a) (hn : a ∉ pathAddrs p) :
    Holds (h.rbLinkNode a (top p) (link p)) (zip p (.node .red .nil a .nil)) := by
  obtain ⟨hp, -, hd⟩ := holds_zip.1 hh
  have hpath : (pathAddrs p).Nodup := by simpa [addrs] using hd
  have hne : top p ≠ a := (ne_top ha.1 hn).symm
  have hnone : link p = none ↔ top p = 0 := link_eq_none.trans (top_eq_zero hp).symm
  obtain ⟨rp, rc, rch, rr⟩ := rbLinkNode_reads (h := h) (link p) (top_aligned hp) hne
  refine holds_zip.2 ⟨hp.relink hpath (fun b hb => ?_) ?_, ⟨ha, ?_, ?_, ?_, ?_, trivial, trivial⟩, ?_⟩
  · grind [ptr]
  · grind [ptr]
  · rw [rp, if_pos rfl]
  · rw [rc, if_pos rfl]
  · rw [rch, if_pos rfl]
    rfl
  · rw [rch, if_pos rfl]
    rfl
  · simpa [addrs] using ⟨hn, hpath⟩

/-! # Walks through the tree in memory -/

/-! ## The nodes from one side -/

def seq (d : Side) (t : RbTree Nat) : List Nat := d.near t.inorder t.inorder.reverse

def bef (d : Side) (p : Path Nat) : List Nat := d.near (before p) (after p).reverse

def aft (d : Side) (p : Path Nat) : List Nat := d.near (after p) (before p).reverse

theorem seq_sideNode (c : Color) (x y : RbTree Nat) (a : Nat) : seq d (d.node c x a y) = seq d x ++ a :: seq d y := by
  cases d <;> simp [seq, Side.near, Side.node]

theorem seq_zip (p : Path Nat) (t : RbTree Nat) : seq d (zip p t) = bef d p ++ seq d t ++ aft d p := by
  cases d <;> simp [seq, bef, aft, Side.near, inorder_zip]

theorem aft_cons (f : Frame Nat) : aft d (f :: p) = if f.side = d then f.elem :: seq d f.sibling ++ aft d p else aft d p := by
  obtain ⟨s, c, a, t⟩ := f
  cases d <;> cases s <;> simp [aft, after, before, seq, Side.near]

theorem seq_perm (t : RbTree Nat) : (seq d t).Perm t.inorder := by
  cases d
  · exact .refl _
  · exact List.reverse_perm _

theorem height_near_lt (c : Color) (l r : RbTree Nat) (a : Nat) :
    (d.near l r).height < (RbTree.node c l a r).height := by
  cases d <;> simp only [Side.near, RbTree.height] <;> omega

theorem Holds.descend {t : RbTree Nat} {fuel : Nat} (hh : Holds h (zip p t)) (ht : t ≠ .nil)
    (hf : t.height ≤ fuel) : ∃ a, h.descend d fuel (ptr t) = some a ∧ (seq d t).head? = some a := by
  induction fuel generalizing t p with
  | zero =>
    cases t with
    | nil => exact absurd rfl ht
    | node c l a r => simp [RbTree.height] at hf
  | succ fuel ih =>
    cases t with
    | nil => exact absurd rfl ht
    | node c l a r =>
      have hlt := height_near_lt (d := d) c l r a
      rw [← node_near_far (d := d) c l r a] at hh ⊢
      have hch := hh.reads.2.2.2.1
      rw [ptr_sideNode, Heap.descend, hch, seq_sideNode]
      by_cases hx : d.near l r = .nil
      · rw [hx, if_neg (by simp [ptr])]
        refine ⟨a, rfl, ?_⟩
        cases d <;> simp [seq, Side.near]
      · obtain ⟨b, hb, hs⟩ := ih (p := ⟨d, c, a, d.far l r⟩ :: p) hh hx (by omega)
        rw [if_pos fun h0 => hx ((Holds.ptr_eq_zero (p := ⟨d, c, a, d.far l r⟩ :: p) hh).1 h0)]
        exact ⟨b, hb, by rw [List.head?_append, hs, Option.some_or]⟩

theorem Holds.climb {t : RbTree Nat} {fuel : Nat} (hh : Holds h (zip p t)) (ht : t ≠ .nil) (hf : p.length < fuel) :
    h.climb d fuel (ptr t) = some ((aft d.opp p).head?.getD 0) := by
  induction fuel generalizing t p with
  | zero => omega
  | succ fuel ih =>
    rw [Heap.climb, hh.parent_eq ht]
    cases p with
    | nil => cases d <;> simp [top, aft, before, after, Side.near, Side.opp]
    | cons f p =>
      have hs := hh.side_eq (d := d) ht
      have h0 := hh.frame.1
      rw [aft_cons]
      by_cases hd : d = f.side
      · have hstep : ¬ f.side = d.opp := fun hc => opp_ne d (hc.symm.trans hd.symm)
        simp only [List.length_cons] at hf
        have := ih (p := p) (t := f.plug t) hh (by unfold Frame.plug; cases f.side <;> simp [Side.node]) (by omega)
        rw [if_neg hstep, ← this]
        rw [if_pos (show top (f :: p) ≠ 0 ∧ ptr t = h.child d (top (f :: p)) from ⟨h0, (hs.2 hd).symm⟩)]
        simp [Frame.plug, top]
      have hstep : f.side = d.opp := eq_opp_of_ne fun hc => hd hc.symm
      rw [if_pos hstep]
      rw [if_neg (show ¬ (top (f :: p) ≠ 0 ∧ ptr t = h.child d (top (f :: p))) from
        fun hc => hd (hs.1 hc.2.symm))]
      rfl

theorem Holds.neighbour {c : Color} {x y : RbTree Nat} {a fuel : Nat} (hh : Holds h (zip p (d.node c x a y)))
    (hy : y.height ≤ fuel) (hp : p.length < fuel) :
    h.neighbour d.opp fuel a = some ((seq d y ++ aft d p).head?.getD 0) := by
  obtain ⟨ha, hpar, -, -, hch⟩ := hh.reads
  have hself : ¬ h.parent a = a := by
    obtain ⟨-, -, hn⟩ := holds_zip.1 hh
    rw [hpar]
    intro he
    have hmem : a ∈ pathAddrs p := by
      have hne : p ≠ [] := by
        rintro rfl
        exact ha.1 he.symm
      exact he ▸ top_mem hne
    rw [List.nodup_append] at hn
    exact hn.2.2 a (by simp) a hmem rfl
  have hy' : Holds h (zip (⟨d.opp, c, a, x⟩ :: p) y) := by
    simpa [zip, Frame.plug] using hh
  rw [Heap.neighbour, if_neg hself, hch, opp_opp]
  by_cases hn : y = .nil
  · subst hn
    have := hh.climb (d := d.opp) (by cases d <;> simp [Side.node]) hp
    rw [ptr_sideNode, opp_opp] at this
    rw [this]
    cases d <;> rfl
  · obtain ⟨b, hb, hs⟩ := hy'.descend (d := d) hn hy
    rw [if_pos fun h0 => hn (hy'.ptr_eq_zero.1 h0), hb, List.head?_append, hs]
    rfl

theorem exists_zip {a : Nat} {t : RbTree Nat} (ha : a ∈ t.inorder) : ∃ p c l r, t = zip p (.node c l a r) := by
  obtain ⟨⟨q, c, l, r⟩, hloc⟩ := Option.isSome_iff_exists.1 (locate_isSome [] ha)
  exact ⟨q, c, l, r, (locate_inorder hloc).symm⟩

theorem Holds.nodup_seq {t : RbTree Nat} (hh : Holds h t) : (seq d t).Nodup :=
  (((seq_perm t).trans (addrs_perm_inorder t).symm).nodup_iff).2 hh.nodup

theorem Holds.next {t : RbTree Nat} {a fuel : Nat} {pre post : List Nat} (hh : Holds h t)
    (hs : seq d t = pre ++ a :: post) (hf : t.height < fuel) :
    h.neighbour d.opp fuel a = some (post.head?.getD 0) := by
  have ha : a ∈ t.inorder := (seq_perm (d := d) t).mem_iff.1 (by simp [hs])
  obtain ⟨p, c, l, r, rfl⟩ := exists_zip ha
  have hlen := length_add_height_le p (.node c l a r)
  have hlt : (d.far l r).height < (RbTree.node c l a r).height := by
    cases d <;> simp only [Side.far, RbTree.height] <;> omega
  rw [← node_near_far (d := d) c l r a] at hh hs
  have hnd := hh.nodup_seq (d := d)
  have hpost : post = seq d (d.far l r) ++ aft d p := by
    rw [seq_zip, seq_sideNode] at hs hnd
    have he : bef d p ++ (seq d (d.near l r) ++ a :: seq d (d.far l r)) ++ aft d p =
        (bef d p ++ seq d (d.near l r)) ++ a :: (seq d (d.far l r) ++ aft d p) := by simp
    rw [he] at hs hnd
    have hn := List.perm_middle.nodup_iff.1 hnd
    rw [List.nodup_cons, List.mem_append, not_or] at hn
    exact ((List.append_cons_inj_of_notMem hn.1.1 hn.1.2).1 hs).2.2.symm
  rw [hpost]
  exact hh.neighbour (by omega) (by omega)

def walk (next : Nat → Option Nat) : Nat → Nat → Option (List Nat)
  | 0, _ => none
  | fuel + 1, n =>
    if n = 0 then some []
    else
      match next n with
      | none => none
      | some m => (walk next fuel m).map (n :: ·)

theorem Holds.walk_from {t : RbTree Nat} {fuel : Nat} (hh : Holds h t) (hf : t.inorder.length < fuel) :
    ∀ (post pre : List Nat) (k : Nat), seq d t = pre ++ post → post.length < k →
      walk (h.neighbour d.opp fuel) k (post.head?.getD 0) = some post
  | [], pre, k + 1, _, _ => by simp [walk]
  | a :: post, pre, k + 1, hs, hk => by
      have h0 : a ≠ 0 := by
        have ha : a ∈ addrs t := ((seq_perm (d := d) t).trans (addrs_perm_inorder t).symm).mem_iff.1 (by simp [hs])
        exact (hh.rep.addr a ha).1
      have ih := hh.walk_from hf post (pre ++ [a]) k (by simp [hs]) (by simpa using hk)
      simp [walk, h0, hh.next hs (Nat.lt_of_le_of_lt (height_le_length t) hf), ih]

theorem Holds.outermost {t : RbTree Nat} {fuel : Nat} (hh : Holds h t) (hf : t.height < fuel) :
    h.outermost d fuel = some ((seq d t).head?.getD 0) := by
  rw [Heap.outermost, hh.root]
  by_cases ht : t = .nil
  · subst ht
    cases d <;> rfl
  · obtain ⟨a, ha, hs⟩ := Holds.descend (p := []) (d := d) hh ht (Nat.le_of_lt hf)
    rw [if_neg fun h0 => ht ((Holds.ptr_eq_zero (p := []) hh).1 h0), ha, hs]
    rfl

theorem Holds.walk {t : RbTree Nat} {fuel : Nat} (hh : Holds h t) (hf : t.inorder.length < fuel) :
    (h.outermost d fuel).bind (walk (h.neighbour d.opp fuel) fuel) = some (seq d t) := by
  have hfrom := hh.walk_from (d := d) hf (seq d t) [] fuel rfl (by rwa [(seq_perm t).length_eq])
  rw [hh.outermost (Nat.lt_of_le_of_lt (height_le_length t) hf), Option.bind_some, hfrom]

end G3Mod.Rbtree.Pointer
