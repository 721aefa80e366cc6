import G3Mod.Rbtree.Lemmas
import G3Mod.Rbtree.Pointer.Model
import Mathlib.Tactic.Tauto

/-!
# Trees in memory
-/

namespace G3Mod.Rbtree.Pointer

variable {h h' : Heap} {d e : Side}

@[simp] theorem opp_opp (d : Side) : d.opp.opp = d := by
  cases d <;> rfl

theorem opp_ne (d : Side) : d.opp ≠ d := by
  cases d <;> nofun

theorem eq_opp_of_ne (hne : e ≠ d) : e = d.opp := by
  cases d <;> cases e <;> first | rfl | exact absurd rfl hne

/-! ## Reading after writing -/

namespace Heap

@[simp, grind =] theorem color_setParent (h : Heap) (a p b : Nat) (hp : p % 4 = 0) :
    (h.setParent a p).color b = h.color b := by
  by_cases hb : b = a
  · subst hb
    simp only [setParent, color, Function.update_self]
    congr 1
    simp only [eq_iff_iff]
    omega
  · simp [setParent, color, Function.update_of_ne hb]

@[grind =] theorem parent_setParent (h : Heap) (a p b : Nat) (hp : p % 4 = 0) :
    (h.setParent a p).parent b = if b = a then p else h.parent b := by
  by_cases hb : b = a
  · subst hb
    simp only [setParent, parent, Function.update_self, if_true]
    omega
  · simp [setParent, parent, hb]

@[simp, grind =] theorem child_setParent (h : Heap) (a p b : Nat) : (h.setParent a p).child d b = h.child d b := rfl

@[simp, grind =] theorem root_setParent (h : Heap) (a p : Nat) : (h.setParent a p).root = h.root := rfl

@[grind =] theorem parent_setParentOf (h : Heap) (a p b : Nat) (hp : p % 4 = 0) :
    (h.setParentOf a p).parent b = if b = a ∧ a ≠ 0 then p else h.parent b := by
  by_cases h0 : a = 0 <;> simp [setParentOf, h0, parent_setParent _ _ _ _ hp]

@[simp, grind =] theorem color_setParentOf (h : Heap) (a p b : Nat) (hp : p % 4 = 0) :
    (h.setParentOf a p).color b = h.color b := by
  by_cases h0 : a = 0 <;> simp [setParentOf, h0, hp]

@[simp, grind =] theorem child_setParentOf (h : Heap) (a p b : Nat) : (h.setParentOf a p).child d b = h.child d b := by
  by_cases h0 : a = 0 <;> simp [setParentOf, h0]

@[simp, grind =] theorem root_setParentOf (h : Heap) (a p : Nat) : (h.setParentOf a p).root = h.root := by
  by_cases h0 : a = 0 <;> simp [setParentOf, h0]

@[grind =] theorem color_setColor (h : Heap) (a : Nat) (c : Color) (b : Nat) :
    (h.setColor a c).color b = if b = a then c else h.color b := by
  by_cases hb : b = a
  · subst hb
    cases c <;> simp [setColor, color]
  · simp [setColor, color, hb]

@[simp, grind =] theorem parent_setColor (h : Heap) (a : Nat) (c : Color) (b : Nat) :
    (h.setColor a c).parent b = h.parent b := by
  by_cases hb : b = a
  · subst hb
    cases c <;> simp only [setColor, parent, Function.update_self] <;> omega
  · simp [setColor, parent, Function.update_of_ne hb]

@[simp, grind =] theorem child_setColor (h : Heap) (a : Nat) (c : Color) (b : Nat) :
    (h.setColor a c).child d b = h.child d b := rfl

@[grind =] theorem child_setChild (h : Heap) (a v b : Nat) :
    (h.setChild d a v).child e b = if b = a ∧ e = d then v else h.child e b := by
  by_cases hb : b = a
  · subst hb
    cases d <;> cases e <;> simp [setChild, child, Side.near]
  · cases d <;> cases e <;> simp [setChild, child, Side.near, hb]

@[simp, grind =] theorem parent_setChild (h : Heap) (a v b : Nat) : (h.setChild d a v).parent b = h.parent b := by
  cases d <;> rfl

@[simp, grind =] theorem color_setChild (h : Heap) (a v b : Nat) : (h.setChild d a v).color b = h.color b := by
  cases d <;> rfl

@[simp, grind =] theorem root_setChild (h : Heap) (a v : Nat) : (h.setChild d a v).root = h.root := by
  cases d <;> rfl

@[simp, grind =] theorem child_setRoot (h : Heap) (r b : Nat) : ({ h with root := r } : Heap).child d b = h.child d b := rfl

@[simp, grind =] theorem parent_setRoot (h : Heap) (r b : Nat) : ({ h with root := r } : Heap).parent b = h.parent b := rfl

@[simp, grind =] theorem color_setRoot (h : Heap) (r b : Nat) : ({ h with root := r } : Heap).color b = h.color b := rfl

structure SameAt (h h' : Heap) (a : Nat) : Prop where
  parent : h'.parent a = h.parent a
  color : h'.color a = h.color a
  child : ∀ d, h'.child d a = h.child d a

end Heap

open Heap

/-! ## Trees -/

def ptr : RbTree Nat → Nat
  | .nil => 0
  | .node _ _ a _ => a

def Addr (a : Nat) : Prop := a ≠ 0 ∧ a % 4 = 0

def Rep (h : Heap) : Nat → RbTree Nat → Prop
  | _, .nil => True
  | up, .node c l a r =>
    Addr a ∧ h.parent a = up ∧ h.color a = c ∧ h.child .left a = ptr l ∧ h.child .right a = ptr r ∧
      Rep h a l ∧ Rep h a r

def top : Path Nat → Nat
  | [] => 0
  | f :: _ => f.elem

def link : Path Nat → Option Side
  | [] => none
  | f :: _ => some f.side

/-- The frames of the path are in memory, with `q` in the place of the hole. -/
def RepPath (h : Heap) : Nat → Path Nat → Prop
  | q, [] => h.root = q
  | q, f :: p =>
    Addr f.elem ∧ h.parent f.elem = top p ∧ h.color f.elem = f.color ∧ h.child f.side f.elem = q ∧
      h.child f.side.opp f.elem = ptr f.sibling ∧ Rep h f.elem f.sibling ∧ RepPath h f.elem p

def addrs : RbTree Nat → List Nat
  | .nil => []
  | .node _ l a r => a :: (addrs l ++ addrs r)

def pathAddrs : Path Nat → List Nat
  | [] => []
  | f :: p => f.elem :: (addrs f.sibling ++ pathAddrs p)

structure Holds (h : Heap) (t : RbTree Nat) : Prop where
  rep : Rep h 0 t
  root : h.root = ptr t
  nodup : (addrs t).Nodup

@[simp] theorem ptr_sideNode (c : Color) (x y : RbTree Nat) (a : Nat) : ptr (d.node c x a y) = a := by
  cases d <;> rfl

variable {t : RbTree Nat} {up : Nat}

theorem ptr_eq_zero (hr : Rep h up t) : ptr t = 0 ↔ t = .nil := by
  cases t with
  | nil => simp [ptr]
  | node c l a r => simp [ptr, hr.1.1]

variable {c : Color} {x y : RbTree Nat} {a : Nat}

theorem rep_sideNode :
    Rep h up (d.node c x a y) ↔ Addr a ∧ h.parent a = up ∧ h.color a = c ∧ h.child d a = ptr x ∧
      h.child d.opp a = ptr y ∧ Rep h a x ∧ Rep h a y := by
  cases d
  · exact Iff.rfl
  · simp only [Side.node, Rep, Side.opp]
    tauto

theorem addrs_sideNode (c : Color) (x y : RbTree Nat) (a : Nat) :
    (addrs (d.node c x a y)).Perm (a :: (addrs x ++ addrs y)) := by
  cases d
  · exact .refl _
  · exact List.perm_append_comm.cons _

@[simp] theorem mem_addrs_sideNode {b : Nat} :
    b ∈ addrs (d.node c x a y) ↔ b = a ∨ b ∈ addrs x ∨ b ∈ addrs y := by
  rw [(addrs_sideNode c x y a).mem_iff]
  simp

theorem addrs_perm_inorder (t : RbTree Nat) : (addrs t).Perm t.inorder := by
  induction t with
  | nil => exact .refl _
  | node c l a r hl hr =>
    exact ((hl.append hr).cons a).trans List.perm_middle.symm

theorem addrs_zip (p : Path Nat) (t : RbTree Nat) : (addrs (zip p t)).Perm (addrs t ++ pathAddrs p) := by
  induction p generalizing t with
  | nil => simp [zip, pathAddrs]
  | cons f p ih =>
    refine (ih _).trans (((addrs_sideNode _ _ _ _).append_right _).trans ?_)
    rw [List.cons_append, List.append_assoc]
    exact List.perm_middle.symm

theorem ptr_mem (hn : t ≠ .nil) : ptr t ∈ addrs t := by
  cases t with
  | nil => exact absurd rfl hn
  | node c l a r => exact List.mem_cons_self

theorem Rep.addr (hr : Rep h up t) : ∀ a ∈ addrs t, Addr a := by
  induction t generalizing up with
  | nil => nofun
  | node c l a r hl hr' =>
    obtain ⟨ha, -, -, -, -, h1, h2⟩ := hr
    intro b hb
    rcases List.mem_cons.1 hb with rfl | hb
    · exact ha
    · rcases List.mem_append.1 hb with hb | hb
      · exact hl h1 b hb
      · exact hr' h2 b hb

theorem RepPath.addr {q : Nat} {p : Path Nat} (hp : RepPath h q p) : ∀ a ∈ pathAddrs p, Addr a := by
  induction p generalizing q with
  | nil => nofun
  | cons f p ih =>
    obtain ⟨ha, -, -, -, -, hs, hp⟩ := hp
    intro b hb
    rcases List.mem_cons.1 hb with rfl | hb
    · exact ha
    · rcases List.mem_append.1 hb with hb | hb
      · exact hs.addr b hb
      · exact ih hp b hb

variable {q : Nat} {p : Path Nat}

theorem top_aligned (hp : RepPath h q p) : top p % 4 = 0 := by
  cases p with
  | nil => rfl
  | cons f p => exact hp.1.2

theorem top_eq_zero (hp : RepPath h q p) : top p = 0 ↔ p = [] := by
  cases p with
  | nil => simp [top]
  | cons f p => simp [top, hp.1.1]

theorem top_mem (hn : p ≠ []) : top p ∈ pathAddrs p := by
  cases p with
  | nil => exact absurd rfl hn
  | cons f p => exact List.mem_cons_self

theorem ne_ptr (h0 : a ≠ 0) (hn : a ∉ addrs t) : a ≠ ptr t := by
  rintro rfl
  exact hn (ptr_mem fun he => h0 (by rw [he]; rfl))

theorem ne_top (h0 : a ≠ 0) (hn : a ∉ pathAddrs p) : a ≠ top p := by
  rintro rfl
  refine hn (top_mem ?_)
  rintro rfl
  exact h0 rfl

theorem link_eq_none : link p = none ↔ p = [] := by
  cases p <;> simp [link]

theorem rep_zip :
    (Rep h 0 (zip p t) ∧ h.root = ptr (zip p t)) ↔ RepPath h (ptr t) p ∧ Rep h (top p) t := by
  induction p generalizing t with
  | nil =>
    tauto
  | cons f p ih =>
    rw [zip, ih, Frame.plug, ptr_sideNode, rep_sideNode, RepPath]
    tauto

theorem holds_zip :
    Holds h (zip p t) ↔ RepPath h (ptr t) p ∧ Rep h (top p) t ∧ (addrs t ++ pathAddrs p).Nodup := by
  rw [← (addrs_zip p t).nodup_iff]
  constructor
  · intro hh
    have := rep_zip.1 ⟨hh.rep, hh.root⟩
    exact ⟨this.1, this.2, hh.nodup⟩
  · rintro ⟨hp, ht, hn⟩
    have := rep_zip.2 ⟨hp, ht⟩
    exact ⟨this.1, this.2, hn⟩

theorem Rep.congr (hr : Rep h up t) (hs : ∀ a ∈ addrs t, SameAt h h' a) : Rep h' up t := by
  induction t generalizing up with
  | nil => trivial
  | node c l a r hl hr' =>
    obtain ⟨ha, h1, h2, h3, h4, h5, h6⟩ := hr
    have hsa := hs a List.mem_cons_self
    refine ⟨ha, hsa.parent.trans h1, hsa.color.trans h2, (hsa.child _).trans h3, (hsa.child _).trans h4,
      hl h5 fun b hb => hs b ?_, hr' h6 fun b hb => hs b ?_⟩
    · simp [addrs, hb]
    · simp [addrs, hb]

theorem Rep.reparent {up' : Nat} (hr : Rep h up t) (hn : (addrs t).Nodup)
    (hs : ∀ a ∈ addrs t, h'.parent a = (if a = ptr t then up' else h.parent a) ∧ h'.color a = h.color a ∧
      ∀ d, h'.child d a = h.child d a) : Rep h' up' t := by
  cases t with
  | nil => trivial
  | node c l a r =>
    obtain ⟨ha, h1, h2, h3, h4, h5, h6⟩ := hr
    simp only [addrs, List.nodup_cons, List.mem_append, List.mem_cons, not_or, ptr] at hn hs
    obtain ⟨hp, hc, hch⟩ := hs a (.inl rfl)
    have hrest : ∀ b, b ∈ addrs l ∨ b ∈ addrs r → SameAt h h' b := by
      intro b hb
      obtain ⟨hp, hc, hch⟩ := hs b (.inr hb)
      refine ⟨hp.trans (if_neg ?_), hc, hch⟩
      rintro rfl
      exact hb.elim hn.1.1 hn.1.2
    exact ⟨ha, hp.trans (if_pos rfl), hc.trans h2, (hch _).trans h3, (hch _).trans h4,
      h5.congr fun b hb => hrest b (.inl hb), h6.congr fun b hb => hrest b (.inr hb)⟩

theorem RepPath.congr {q : Nat} {p : Path Nat} (hp : RepPath h q p) (hs : ∀ a ∈ pathAddrs p, SameAt h h' a)
    (hr : h'.root = h.root) : RepPath h' q p := by
  induction p generalizing q with
  | nil => exact hr.trans hp
  | cons f p ih =>
    obtain ⟨ha, h1, h2, h3, h4, h5, h6⟩ := hp
    have hsa := hs f.elem List.mem_cons_self
    refine ⟨ha, hsa.parent.trans h1, hsa.color.trans h2, (hsa.child _).trans h3, (hsa.child _).trans h4,
      h5.congr fun b hb => hs b ?_, ih h6 fun b hb => hs b ?_⟩
    · simp [pathAddrs, hb]
    · simp [pathAddrs, hb]

theorem RepPath.relink {v : Nat} (hp : RepPath h q p) (hn : (pathAddrs p).Nodup)
    (hs : ∀ a ∈ pathAddrs p, h'.parent a = h.parent a ∧ h'.color a = h.color a ∧
      ∀ e, h'.child e a = if a = top p ∧ link p = some e then v else h.child e a)
    (hr : h'.root = if top p = 0 then v else h.root) : RepPath h' v p := by
  cases p with
  | nil => exact hr
  | cons f p =>
    obtain ⟨ha, h1, h2, h3, h4, h5, h6⟩ := hp
    simp only [pathAddrs, List.nodup_cons, List.mem_append, List.mem_cons, not_or, top, link] at hn hs hr
    obtain ⟨hpar, hcol, hch⟩ := hs f.elem (.inl rfl)
    have hrest : ∀ b, b ∈ addrs f.sibling ∨ b ∈ pathAddrs p → SameAt h h' b := by
      intro b hb
      obtain ⟨hp, hc, hch⟩ := hs b (.inr hb)
      refine ⟨hp, hc, fun e => (hch e).trans (if_neg ?_)⟩
      rintro ⟨rfl, -⟩
      exact hb.elim hn.1.1 hn.1.2
    refine ⟨ha, hpar.trans h1, hcol.trans h2, (hch _).trans (if_pos ⟨rfl, rfl⟩), ?_,
      h5.congr fun b hb => hrest b (.inl hb), h6.congr (fun b hb => hrest b (.inr hb)) (hr.trans (if_neg ha.1))⟩
    exact ((hch _).trans (if_neg fun hc => opp_ne f.side (Option.some.inj hc.2).symm)).trans h4

/-! # Colours, rotations and links as changes of the tree -/

open Heap

variable {p : Path Nat}

theorem Holds.setColor {c : Color} {x y : RbTree Nat} {a : Nat} (hh : Holds h (zip p (d.node c x a y)))
    (c' : Color) :
    Holds (h.setColor a c') (zip p (d.node c' x a y)) := by
  obtain ⟨hp, ht, hn⟩ := holds_zip.1 hh
  obtain ⟨ha, h1, -, h3, h4, h5, h6⟩ := rep_sideNode.1 ht
  have hperm := ((addrs_sideNode c x y a).append_right (pathAddrs p)).nodup_iff.1 hn
  simp only [List.cons_append, List.nodup_cons, List.mem_append, not_or] at hperm
  obtain ⟨⟨⟨hax, hay⟩, hap⟩, -⟩ := hperm
  have hsame : ∀ b, b ≠ a → SameAt h (h.setColor a c') b := fun b hb =>
    ⟨by simp, by rw [color_setColor, if_neg hb], fun _ => by simp⟩
  refine holds_zip.2 ⟨?_, rep_sideNode.2 ⟨ha, by simpa using h1, by simp [color_setColor], by simpa using h3,
    by simpa using h4, h5.congr fun b hb => hsame b ?_, h6.congr fun b hb => hsame b ?_⟩, ?_⟩
  · rw [ptr_sideNode] at hp ⊢
    exact hp.congr (fun b hb => hsame b fun he => hap (he ▸ hb)) rfl
  · exact fun he => hax (he ▸ hb)
  · exact fun he => hay (he ▸ hb)
  · exact (((addrs_sideNode c' x y a).trans (addrs_sideNode c x y a).symm).append_right _).nodup_iff.2 hn

theorem Holds.setBlack_root {t : RbTree Nat} (hh : Holds h t) (hn : t ≠ .nil) :
    Holds (h.setBlack h.root) t.setBlack := by
  cases t with
  | nil => exact absurd rfl hn
  | node c l a r =>
    rw [hh.root]
    exact Holds.setColor (p := []) (d := .left) hh .black

theorem RepPath.child_eq {q : Nat} {f : Frame Nat} {rest : Path Nat} (hp : RepPath h q (f :: rest)) (hq : q ≠ 0)
    (hn : q ∉ pathAddrs (f :: rest)) : h.child d f.elem = q ↔ d = f.side := by
  obtain ⟨-, -, -, h1, h2, hs, -⟩ := hp
  constructor
  · intro hc
    by_contra hne
    rw [eq_opp_of_ne hne, h2] at hc
    subst hc
    exact hn (List.mem_cons_of_mem _ (List.mem_append_left _ (ptr_mem fun he => hq (by simp [he, ptr]))))
  · rintro rfl
    exact h1

/-- Where the pointer to `q` is: in `up`, on side `k`, or in the root. -/
structure LinkedAt (h : Heap) (q up : Nat) (k : Option Side) : Prop where
  none_iff : k = none ↔ up = 0
  side : ∀ d, up ≠ 0 → (h.child d up = q ↔ k = some d)

theorem RepPath.linkedAt {q : Nat} (hp : RepPath h q p) (hq : q ≠ 0) (hn : q ∉ pathAddrs p) :
    LinkedAt h q (top p) (link p) := by
  cases p with
  | nil => exact ⟨by simp [link, top], fun d h0 => absurd rfl h0⟩
  | cons f rest =>
    refine ⟨by simp [link, top, hp.1.1], fun d _ => (hp.child_eq hq hn).trans ?_⟩
    rw [link, Option.some.injEq, eq_comm]

theorem rotate_reads {x y b up : Nat} {k : Option Side} (hx : Addr x) (hy : Addr y) (hup : up % 4 = 0) (hux : up ≠ x)
    (huy : up ≠ y) (hk : LinkedAt h x up k) (hc : h.child d.opp x = y) (hb : h.child d y = b) (hp : h.parent x = up) :
    (∀ a, (h.rotate d x).parent a =
      if a = x then y else if a = y then up else if a = b ∧ b ≠ 0 then x else h.parent a) ∧
    (∀ a, (h.rotate d x).color a = h.color a) ∧
    (∀ e a, (h.rotate d x).child e a =
      if a = up ∧ k = some e then y
      else if a = y ∧ e = d then x else if a = x ∧ e = d.opp then b else h.child e a) ∧
    (h.rotate d x).root = if up = 0 then y else h.root := by
  have hsel : ((((h.setChild d.opp x b).setParentOf b x).setChild d y x).setParent y up).child d up =
      h.child d up := by
    simp [child_setChild, hux, huy]
  simp only [rotate, hc, hb, hp, hsel]
  have hx4 := hx.2
  have hy4 := hy.2
  by_cases h0 : up = 0
  · have := hk.none_iff.2 h0
    subst h0 this
    simp [parent_setParent, parent_setParentOf, child_setChild, hx4, hy4]
  have hd := hk.side d h0
  by_cases hs : x = h.child d up
  · simp only [h0, if_pos hs]
    grind
  obtain ⟨e, rfl⟩ : ∃ e, k = some e := Option.ne_none_iff_exists'.1 fun hk0 => h0 (hk.none_iff.1 hk0)
  obtain rfl : e = d.opp := eq_opp_of_ne fun he => hs (hd.2 (congrArg some he)).symm
  grind

structure Apart (p : Path Nat) (x y : Nat) (A B C : RbTree Nat) : Prop where
  x_notin : x ∉ addrs A ∧ x ∉ addrs B ∧ x ∉ addrs C ∧ x ∉ pathAddrs p
  y_notin : y ∉ addrs A ∧ y ∉ addrs B ∧ y ∉ addrs C ∧ y ∉ pathAddrs p
  ne : x ≠ y
  B_notin : ∀ b ∈ addrs B, b ∉ addrs A ∧ b ∉ addrs C ∧ b ∉ pathAddrs p
  path_notin : ∀ b ∈ pathAddrs p, b ∉ addrs A ∧ b ∉ addrs C
  nodup_B : (addrs B).Nodup
  nodup_path : (pathAddrs p).Nodup

theorem apart_of_nodup {c c' : Color} {A B C : RbTree Nat} {x y : Nat}
    (hn : (addrs (d.node c A x (d.node c' B y C)) ++ pathAddrs p).Nodup) : Apart p x y A B C := by
  have h1 := ((addrs_sideNode c A (d.node c' B y C) x).append_right (pathAddrs p)).nodup_iff.1 hn
  have h2 := (((((addrs_sideNode (d := d) c' B C y).append_left (addrs A)).cons x).append_right
    (pathAddrs p)).nodup_iff).1 h1
  constructor <;> grind

theorem Holds.rotate {c c' : Color} {A B C : RbTree Nat} {x y : Nat}
    (hh : Holds h (zip p (d.node c A x (d.node c' B y C)))) :
    Holds (h.rotate d x) (zip p (d.node c' (d.node c A x B) y C)) := by
  obtain ⟨hp, ht, hn⟩ := holds_zip.1 hh
  obtain ⟨hxn, hyn, hne, hBn, hpn, hBd, hpd⟩ := apart_of_nodup hn
  obtain ⟨hx, x1, x2, x3, x4, hA, hy'⟩ := rep_sideNode.1 ht
  obtain ⟨hy, y1, y2, y3, y4, hB, hC⟩ := rep_sideNode.1 hy'
  rw [ptr_sideNode] at hp x4
  have hup : top p ≠ 0 → top p ∈ pathAddrs p := fun h0 => top_mem fun he => h0 ((top_eq_zero hp).2 he)
  have hux := (ne_top hx.1 hxn.2.2.2).symm
  have huy := (ne_top hy.1 hyn.2.2.2).symm
  have hk := hp.linkedAt hx.1 hxn.2.2.2
  obtain ⟨rp, rc, rch, rr⟩ := rotate_reads hx hy (top_aligned hp) hux huy hk x4 y3 x1
  have hb : ptr B ≠ 0 → ptr B ∈ addrs B := fun h0 => ptr_mem fun he => h0 (by simp [he, ptr])
  have hnone := hk.none_iff
  have hopp := opp_ne d
  -- only `x`, `y`, the root of `B` and the parent are written
  have hsame : ∀ a, a ∈ addrs A ∨ a ∈ addrs C → SameAt h (h.rotate d x) a := by
    intro a ha
    refine ⟨?_, rc a, fun e => ?_⟩
    · grind
    · grind
  refine holds_zip.2 ⟨?_, rep_sideNode.2 ⟨hy, ?_, (rc y).trans y2, ?_, ?_, rep_sideNode.2 ⟨hx, ?_, (rc x).trans x2, ?_,
    ?_, hA.congr fun a ha => hsame a (.inl ha), ?_⟩, hC.congr fun a ha => hsame a (.inr ha)⟩, ?_⟩
  · rw [ptr_sideNode]
    refine hp.relink hpd (fun a ha => ⟨?_, rc a, fun e => ?_⟩) rr
    · grind
    · grind
  · grind
  · grind [ptr_sideNode]
  · grind
  · rw [rp, if_pos rfl]
  · grind
  · grind
  · refine hB.reparent hBd fun a ha => ⟨?_, rc a, fun e => ?_⟩
    · have := (hB.addr a ha).1
      grind
    · grind
  · have he : (d.node c A x (d.node c' B y C)).inorder = (d.node c' (d.node c A x B) y C).inorder := by
      cases d <;> simp [Side.node, RbTree.inorder]
    have h1 := addrs_perm_inorder (d.node c A x (d.node c' B y C))
    rw [he] at h1
    exact ((h1.trans (addrs_perm_inorder _).symm).append_right _).nodup_iff.1 hn

end G3Mod.Rbtree.Pointer
