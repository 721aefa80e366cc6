import G3Mod.Binder.Refs.Model
import G3Mod.Lib.ListSum

/-!
# Updates, tables and counts
-/

namespace G3Mod.Binder.Refs

open Function Lib

variable {s s' : State} {p q : ProcId} {n m : NodeId} {r : RefId} {nd nd' : Node} {rf : Ref} {pr : Proc}

/-! ## What the updates leave alone -/

section Updates

attribute [grind =] setProc_node setProc_ref setProc_next setProc_contextMgrNode setNode_proc setNode_ref setNode_next
  setNode_contextMgrNode setRef_proc setRef_node setRef_next setRef_contextMgrNode

variable (s : State) (p q : ProcId) (n m : NodeId) (r r' : RefId) (pr : Option Proc) (nd : Option Node)
  (rf : Option Ref)

@[grind =] theorem setProc_proc : (setProc p pr s).proc q = if q = p then pr else s.proc q := by
  simp [setProc, update_apply]

@[grind =] theorem setNode_node : (setNode n nd s).node m = if m = n then nd else s.node m := by
  simp [setNode, update_apply]

@[grind =] theorem setRef_ref : (setRef r rf s).ref r' = if r' = r then rf else s.ref r' := by
  simp [setRef, update_apply]

end Updates

theorem getProc_of (h : s.proc p = some pr) : getProc p s = .ok pr := by simp [getProc, h]

theorem getNode_of (h : s.node n = some nd) : getNode n s = .ok nd := by simp [getNode, h]

theorem getRef_of (h : s.ref r = some rf) : getRef r s = .ok rf := by simp [getRef, h]

theorem getProc_ok (h : getProc p s = .ok pr) : s.proc p = some pr := by grind [getProc]

theorem getNode_ok (h : getNode n s = .ok nd) : s.node n = some nd := by grind [getNode]

theorem getRef_ok (h : getRef r s = .ok rf) : s.ref r = some rf := by grind [getRef]

/-! ## The trees as finite maps -/

@[grind =] def nodeAt (s : State) (p : ProcId) (ptr : Nat) : Option NodeId := (s.proc p).bind fun pr => pr.nodes.find ptr

@[grind =] def refAt (s : State) (p : ProcId) (desc : Nat) : Option RefId :=
  (s.proc p).bind fun pr => pr.refsByDesc.find desc

@[grind =] def refFor (s : State) (p : ProcId) (n : NodeId) : Option RefId :=
  (s.proc p).bind fun pr => pr.refsByNode.find n

theorem nodeAt_of (h : s.proc p = some pr) (ptr : Nat) : nodeAt s p ptr = pr.nodes.find ptr := by
  simp [nodeAt, h]

theorem refAt_of (h : s.proc p = some pr) (desc : Nat) : refAt s p desc = pr.refsByDesc.find desc := by
  simp [refAt, h]

theorem refFor_of (h : s.proc p = some pr) (n : NodeId) : refFor s p n = pr.refsByNode.find n := by
  simp [refFor, h]

section Views

variable (s : State) (p q : ProcId) (n m : NodeId) (r : RefId) (pr : Proc) (nd : Option Node) (rf : Option Ref)
  (k : Nat)

end Views

theorem binderGetNode_of (h : s.proc p = some pr) (ptr : Nat) :
    binderGetNode p ptr s = .ok (nodeAt s p ptr) := by
  simp [binderGetNode, getProc_of h, nodeAt_of h, pure, Except.pure]

theorem le_nextDesc {d : Nat} {l : List (Nat × RefId)} (hs : l.Pairwise fun a b => a.1 < b.1)
    (hd : ∀ e ∈ l, d ≤ e.1) : d ≤ nextDesc d l := by
  induction l generalizing d with
  | nil => simp [nextDesc]
  | cons e l ih =>
    obtain ⟨he, hl⟩ := List.pairwise_cons.mp hs
    simp only [nextDesc]
    split
    · exact le_refl d
    · grind

theorem nextDesc_unused {d : Nat} {l : List (Nat × RefId)} (hs : l.Pairwise fun a b => a.1 < b.1) :
    ∀ e ∈ l, e.1 ≠ nextDesc d l := by
  induction l generalizing d with
  | nil => simp
  | cons a l ih =>
    obtain ⟨ha, hl⟩ := List.pairwise_cons.mp hs
    intro e he
    simp only [nextDesc]
    split
    next hd => grind
    · rcases List.mem_cons.mp he with rfl | he
      · exact Nat.ne_of_lt (le_nextDesc hl fun b hb => ha b hb)
      · exact ih hl e he

theorem nextDesc_least {d : Nat} {l : List (Nat × RefId)} (hs : l.Pairwise fun a b => a.1 < b.1) {k : Nat} (hk : d ≤ k)
    (hlt : k < nextDesc d l) : ∃ e ∈ l, e.1 = k := by
  induction l generalizing d with
  | nil => exact absurd hlt (Nat.not_lt.2 hk)
  | cons a l ih =>
    simp only [nextDesc] at hlt
    split at hlt
    · omega
    · grind

theorem start_le_nextDesc {d : Nat} {l : List (Nat × RefId)} (hs : l.Pairwise fun a b => a.1 < b.1) (hd : d ≤ 1) :
    d ≤ nextDesc d l := by
  cases l with
  | nil => exact le_refl d
  | cons a l =>
    obtain ⟨ha, hl⟩ := List.pairwise_cons.mp hs
    simp only [nextDesc]
    split
    · exact le_refl d
    · calc d ≤ a.1 + 1 := by omega
        _ ≤ nextDesc (a.1 + 1) l := le_nextDesc hl ha

theorem nextDesc_le (d : Nat) (l : List (Nat × RefId)) : nextDesc d l ≤ d + l.length := by
  induction l generalizing d with
  | nil => exact le_refl d
  | cons a l ih =>
    simp only [nextDesc, List.length_cons]
    split
    · omega
    · have := ih (a.1 + 1)
      omega

theorem incr_of_ne {x : Int} (h : x ≠ intMax) : incr x = x + 1 := if_neg h

theorem decr_of_nonneg {x : Int} (h : 0 ≤ x) : decr x = x - 1 := by
  have : x ≠ intMin := by unfold intMin; omega
  exact if_neg this

@[grind =] def isStrong (s : State) (r : RefId) : Bool := (s.ref r).any fun rf => 0 < rf.strong

def strongRefs (s : State) (l : List RefId) : Int := l.countP (isStrong s)

theorem isStrong_of (h : s.ref r = some rf) : isStrong s r = decide (0 < rf.strong) := by
  simp [isStrong, h]

theorem strongRefs_congr {l : List RefId} (h : ∀ r ∈ l, isStrong s' r = isStrong s r) :
    strongRefs s' l = strongRefs s l := by
  simp only [strongRefs]
  rw [List.countP_congr fun r hr => by rw [h r hr]]

theorem strongRefs_change {l : List RefId} (hl : l.Nodup) (hr : r ∈ l)
    (h : ∀ u, u ≠ r → isStrong s' u = isStrong s u) :
    strongRefs s' l = strongRefs s l + (isStrong s' r).toNat - (isStrong s r).toNat := by
  have hc := countP_change hl hr (fun u _ hu => h u hu)
  simp only [strongRefs]
  omega

/-! ## What the trees and the graph are made of -/

@[grind =] def refKey (s : State) (r : RefId) : Option (ProcId × NodeId × Nat) :=
  (s.ref r).map fun rf => (rf.proc, rf.node, rf.desc)

@[grind =] def nodeKey (s : State) (n : NodeId) : Option (Option ProcId × Nat) := (s.node n).map fun nd => (nd.proc, nd.ptr)

@[grind =] def target (s : State) (r : RefId) : Option NodeId := (refKey s r).map fun k => k.2.1

@[grind =] def refsOf (s : State) (n : NodeId) : List RefId := ((s.node n).map Node.refs).getD []

theorem refKey_of (h : s.ref r = some rf) : refKey s r = some (rf.proc, rf.node, rf.desc) := by simp [refKey, h]

theorem refKey_eq_some {k : ProcId × NodeId × Nat} :
    refKey s r = some k ↔ ∃ rf, s.ref r = some rf ∧ rf.proc = k.1 ∧ rf.node = k.2.1 ∧ rf.desc = k.2.2 := by
  simp [refKey, Prod.ext_iff]

theorem nodeKey_of (h : s.node n = some nd) : nodeKey s n = some (nd.proc, nd.ptr) := by simp [nodeKey, h]

theorem nodeKey_eq_some {k : Option ProcId × Nat} :
    nodeKey s n = some k ↔ ∃ nd, s.node n = some nd ∧ nd.proc = k.1 ∧ nd.ptr = k.2 := by
  simp [nodeKey, Prod.ext_iff]

theorem target_of (h : s.ref r = some rf) : target s r = some rf.node := by simp [target, refKey_of h]

theorem target_eq_some : target s r = some n ↔ ∃ rf, s.ref r = some rf ∧ rf.node = n := by
  simp [target, refKey]

theorem refsOf_of (h : s.node n = some nd) : refsOf s n = nd.refs := by simp [refsOf, h]

theorem exists_node_of_mem_refsOf (h : r ∈ refsOf s n) : ∃ nd, s.node n = some nd ∧ r ∈ nd.refs := by
  cases hn : s.node n with
  | none => simp [refsOf, hn] at h
  | some nd => exact ⟨nd, rfl, by rwa [refsOf_of hn] at h⟩

section Views

variable (s : State) (p : ProcId) (n m : NodeId) (r u : RefId) (pr : Option Proc) (nd : Option Node)
  (rf : Option Ref)

@[simp] theorem refKey_setProc : refKey (setProc p pr s) = refKey s := rfl

theorem refKey_setRef : refKey (setRef r rf s) u =
    if u = r then rf.map fun rf => (rf.proc, rf.node, rf.desc) else refKey s u := by
  grind

theorem isStrong_setRef : isStrong (setRef r rf s) u =
    if u = r then rf.any fun rf => 0 < rf.strong else isStrong s u := by
  grind

end Views

/-! ## The invariant -/

structure Links (s : State) : Prop where
  mem_refsOf : ∀ {n r}, r ∈ refsOf s n ↔ target s r = some n
  nodup : ∀ n, (refsOf s n).Nodup

structure Counts (s : State) : Prop where
  internal : ∀ {n nd}, s.node n = some nd → nd.internalStrongRefs = strongRefs s nd.refs
  nonneg : ∀ {r rf}, s.ref r = some rf → 0 ≤ rf.strong ∧ 0 ≤ rf.weak

structure Tables (s : State) : Prop where
  nodeAt : ∀ {p k n}, nodeAt s p k = some n ↔ nodeKey s n = some (some p, k)
  refAt : ∀ {p d r}, refAt s p d = some r ↔ ∃ n, refKey s r = some (p, n, d)
  refFor : ∀ {p n r}, refFor s p n = some r ↔ ∃ d, refKey s r = some (p, n, d)

structure Inv (s : State) : Prop extends Links s, Counts s, Tables s where
  work : ∀ {n nd}, s.node n = some nd → nd.Targets nd.work
  fresh : ∀ {m}, s.next ≤ m → s.node m = none ∧ s.ref m = none

theorem Inv.init : Inv emptyState where
  mem_refsOf := by simp [refsOf, target, refKey, emptyState]
  nodup _ := by simp [refsOf, emptyState]
  internal h := by cases h
  nonneg h := by cases h
  nodeAt := by simp [Refs.nodeAt, nodeKey, emptyState]
  refAt := by simp [Refs.refAt, refKey, emptyState]
  refFor := by simp [Refs.refFor, refKey, emptyState]
  work h := by cases h
  fresh _ := ⟨rfl, rfl⟩

theorem Links.refNode (h : Links s) (hr : s.ref r = some rf) : ∃ nd, s.node rf.node = some nd ∧ r ∈ nd.refs :=
  exists_node_of_mem_refsOf (h.mem_refsOf.mpr (target_of hr))

theorem Links.nodeRef (h : Links s) (hn : s.node n = some nd) (hr : r ∈ nd.refs) :
    ∃ rf, s.ref r = some rf ∧ rf.node = n := by
  rw [← refsOf_of hn] at hr
  exact target_eq_some.mp (h.mem_refsOf.mp hr)

theorem Tables.refProc (h : Tables s) (hr : s.ref r = some rf) : ∃ pr, s.proc rf.proc = some pr := by
  have hf := h.refAt.mpr ⟨_, refKey_of hr⟩
  cases hp : s.proc rf.proc with
  | none => simp [Refs.refAt, hp] at hf
  | some pr => exact ⟨pr, rfl⟩

theorem Tables.nodeProc (h : Tables s) (hn : s.node n = some nd) (hp : nd.proc = some p) :
    ∃ pr, s.proc p = some pr := by
  have hf := h.nodeAt.mpr (hp ▸ nodeKey_of hn)
  cases hq : s.proc p with
  | none => simp [Refs.nodeAt, hq] at hf
  | some pr => exact ⟨pr, rfl⟩

theorem Links.congr (h : Links s) (hn : refsOf s' = refsOf s) (hr : refKey s' = refKey s) : Links s' where
  mem_refsOf := by
    intro n r
    simp only [target, hn, hr]
    exact h.mem_refsOf
  nodup n := by
    rw [hn]
    exact h.nodup n

theorem Tables.congr (h : Tables s) (hv : Refs.nodeAt s' = Refs.nodeAt s ∧ Refs.refAt s' = Refs.refAt s ∧
      Refs.refFor s' = Refs.refFor s) (hn : nodeKey s' = nodeKey s) (hr : refKey s' = refKey s) : Tables s' where
  nodeAt {p k n} := by
    rw [hv.1, hn]
    exact h.nodeAt
  refAt {p d r} := by
    simp only [hv.2.1, hr]
    exact h.refAt
  refFor {p n r} := by
    simp only [hv.2.2, hr]
    exact h.refFor

end G3Mod.Binder.Refs
