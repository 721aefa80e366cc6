import G3Mod.Binder.Refs.Lemmas.Basic

/-!
# Updates that keep the invariant
-/

namespace G3Mod.Binder.Refs

open Function Lib

variable {s s' : State} {p q : ProcId} {n m : NodeId} {r u : RefId} {nd nd' : Node} {rf rf' : Ref} {pr : Proc}

/-! ## The trees and the heaps agree -/

structure Indexed (s : State) : Prop extends Tables s where
  work : ∀ {n nd}, s.node n = some nd → nd.Targets nd.work
  fresh : ∀ {m}, s.next ≤ m → s.node m = none ∧ s.ref m = none

theorem Inv.indexed (h : Inv s) : Indexed s := ⟨h.toTables, h.work, h.fresh⟩

theorem Indexed.inv (h : Indexed s) (hl : Links s) (hc : Counts s) : Inv s := ⟨hl, hc, h.toTables, h.work, h.fresh⟩

theorem Indexed.setMgr (h : Indexed s) (c : Option NodeId) : Indexed { s with contextMgrNode := c } :=
  ⟨h.toTables.congr ⟨rfl, rfl, rfl⟩ rfl rfl, h.work, h.fresh⟩

theorem Inv.setMgr (h : Inv s) (c : Option NodeId) : Inv { s with contextMgrNode := c } :=
  (h.indexed.setMgr c).inv (h.toLinks.congr rfl rfl) ⟨h.internal, h.nonneg⟩

theorem Indexed.node_lt (h : Indexed s) (hn : s.node n = some nd) : n < s.next := by
  by_contra hlt
  simp [(h.fresh (not_lt.mp hlt)).1] at hn

theorem Indexed.ref_lt (h : Indexed s) (hr : s.ref r = some rf) : r < s.next := by
  by_contra hlt
  simp [(h.fresh (not_lt.mp hlt)).2] at hr

theorem Indexed.refKey_next (h : Indexed s) : refKey s s.next = none := by simp [refKey, h.fresh le_rfl]

/-! ## Nodes -/

structure Node.SameLinks (nd nd' : Node) : Prop where
  refs : nd'.refs = nd.refs
  proc : nd'.proc = nd.proc
  ptr : nd'.ptr = nd.ptr
  internal : nd'.internalStrongRefs = nd.internalStrongRefs
  work : nd'.Targets nd'.work

theorem Indexed.mapNodes (h : Indexed s) {f : NodeId → Node → Node} (hf : ∀ {n nd}, s.node n = some nd →
      (f n nd).proc = nd.proc ∧ (f n nd).ptr = nd.ptr ∧ (f n nd).Targets (f n nd).work) :
    Indexed { s with node := fun n => (s.node n).map (f n) } where
  toTables := by
    refine h.toTables.congr ⟨rfl, rfl, rfl⟩ ?_ rfl
    funext n
    cases hn : s.node n with
    | none => simp [nodeKey, hn]
    | some nd => simp [nodeKey, hn, hf hn]
  work hx := by
    obtain ⟨nd, hn, rfl⟩ := Option.map_eq_some_iff.mp hx
    exact (hf hn).2.2
  fresh hm := ⟨by simp [(h.fresh hm).1], (h.fresh hm).2⟩

theorem Inv.mapNodes (h : Inv s) {f : NodeId → Node → Node}
    (hf : ∀ {n nd}, s.node n = some nd → nd.SameLinks (f n nd)) :
    Inv { s with node := fun n => (s.node n).map (f n) } := by
  refine (h.indexed.mapNodes fun hn => ⟨(hf hn).proc, (hf hn).ptr, (hf hn).work⟩).inv
    (h.toLinks.congr ?_ rfl) ⟨fun hx => ?_, h.nonneg⟩
  · funext n
    cases hn : s.node n with
    | none => simp [refsOf, hn]
    | some nd => simp [refsOf, hn, (hf hn).refs]
  · obtain ⟨nd, hn, rfl⟩ := Option.map_eq_some_iff.mp hx
    rw [(hf hn).refs, (hf hn).internal]
    exact h.internal hn

theorem setNode_eq_map (hn : s.node n = some nd) : setNode n (some nd') s =
    { s with node := fun m => (s.node m).map fun x => if m = n then nd' else x } := by
  simp only [setNode, State.mk.injEq, and_true, true_and]
  funext m
  cases hm : s.node m <;> grind

theorem Indexed.changeNode (h : Indexed s) (hn : s.node n = some nd) (hp : nd'.proc = nd.proc) (hk : nd'.ptr = nd.ptr)
    (hw : nd'.Targets nd'.work) : Indexed (setNode n (some nd') s) := by
  rw [setNode_eq_map hn]
  apply h.mapNodes
  intro m x hx
  have := h.work hx
  grind

theorem Inv.changeNode (h : Inv s) (hn : s.node n = some nd) (hl : nd.SameLinks nd') :
    Inv (setNode n (some nd') s) := by
  rw [setNode_eq_map hn]
  apply h.mapNodes
  intro m x hx
  have := Node.SameLinks.mk rfl rfl rfl rfl (h.work hx)
  grind

def removeNode (n : NodeId) (nd : Node) (s : State) : State :=
  setNode n none (match nd.proc with
    | none => s
    | some p => setProc p ((s.proc p).map fun pr => { pr with nodes := pr.nodes.erase nd.ptr }) s)

@[grind =] theorem removeNode_node : (removeNode n nd s).node m = if m = n then none else s.node m := by
  unfold removeNode
  cases nd.proc <;> simp [setNode_node]

@[simp, grind =] theorem removeNode_ref : (removeNode n nd s).ref r = s.ref r := by
  unfold removeNode
  cases nd.proc <;> rfl

@[simp, grind =] theorem removeNode_next : (removeNode n nd s).next = s.next := by
  unfold removeNode
  cases nd.proc <;> rfl

theorem removeNode_of_proc (hp : nd.proc = some p) (hpr : s.proc p = some pr) :
    removeNode n nd s = setNode n none (setProc p (some { pr with nodes := pr.nodes.erase nd.ptr }) s) := by
  simp [removeNode, hp, hpr]

theorem Tables.eraseNode (h : Tables s) (hn : s.node n = some nd) (hp : nd.proc = some p)
    (hpr : s.proc p = some pr) {o : Option Node} (ho : ∀ x ∈ o, x.proc = none) :
    Tables (setNode n o (setProc p (some { pr with nodes := pr.nodes.erase nd.ptr }) s)) where
  nodeAt {q k m} := by
    have := @h.nodeAt q k m
    have := @h.nodeAt q k n
    cases o <;> grind
  refAt {q d r} := by
    have := @h.refAt q d r
    grind
  refFor {q m r} := by
    have := @h.refFor q m r
    grind

theorem Tables.changeDead (h : Tables s) (hn : s.node n = some nd) (hp : nd.proc = none) {o : Option Node}
    (ho : ∀ x ∈ o, x.proc = none) : Tables (setNode n o s) where
  nodeAt {q k m} := by
    have := @h.nodeAt q k m
    cases o <;> grind
  refAt := h.refAt
  refFor := h.refFor

theorem Tables.removeNode (h : Tables s) (hn : s.node n = some nd) : Tables (removeNode n nd s) := by
  cases hp : nd.proc with
  | none => simpa [Refs.removeNode, hp] using h.changeDead hn hp (o := none) (by simp)
  | some p =>
    obtain ⟨pr, hpr⟩ := h.nodeProc hn hp
    rw [removeNode_of_proc hp hpr]
    exact h.eraseNode hn hp hpr (by simp)

theorem Indexed.eraseNode (h : Indexed s) (hn : s.node n = some nd) (hp : nd.proc = some p) (hpr : s.proc p = some pr)
    {o : Option Node} (ho : ∀ x ∈ o, x.proc = none ∧ x.work = none) :
    Indexed (setNode n o (setProc p (some { pr with nodes := pr.nodes.erase nd.ptr }) s)) where
  toTables := h.toTables.eraseNode hn hp hpr fun x hx => (ho x hx).1
  work {m x} hx := by
    have := @h.work m x
    grind [Node.Targets]
  fresh {m} hm := by
    have := h.fresh (m := m) hm
    grind

theorem Indexed.removeNode (h : Indexed s) (hn : s.node n = some nd) : Indexed (removeNode n nd s) where
  toTables := h.toTables.removeNode hn
  work {m x} hx := h.work (n := m) (by grind)
  fresh hm := by
    rw [removeNode_next] at hm
    simp [removeNode_node, h.fresh hm]

theorem Inv.freeNode (h : Inv s) (hn : s.node n = some nd) (hnil : nd.refs = []) : Inv (removeNode n nd s) := by
  refine (h.indexed.removeNode hn).inv (h.toLinks.congr ?_ (by simp [funext_iff, refKey]))
    ⟨fun {m x} hx => ?_, fun hr => h.nonneg (by simpa using hr)⟩
  · funext m
    grind
  · rw [h.internal (show s.node m = some x by grind)]
    exact strongRefs_congr fun _ _ => by simp [isStrong]

@[grind =] theorem addNode_node : (addNode p pr nd s).node m = if m = s.next then some nd else s.node m := by
  simp [addNode, update_apply]

@[grind =] theorem addNode_proc : (addNode p pr nd s).proc q =
    if q = p then some { pr with nodes := pr.nodes.insert nd.ptr s.next } else s.proc q := by
  simp [addNode, update_apply]

@[grind =] theorem addNode_ref : (addNode p pr nd s).ref r = s.ref r := rfl

@[grind =] theorem addNode_next : (addNode p pr nd s).next = s.next + 1 := rfl

theorem Tables.addNode (h : Tables s) (hfresh : s.node s.next = none) (hp : s.proc p = some pr)
    (hk : pr.nodes.find nd.ptr = none) (hproc : nd.proc = some p) : Tables (addNode p pr nd s) where
  nodeAt {q k m} := by
    have := @h.nodeAt q k m
    grind
  refAt {q d r} := by
    have := @h.refAt q d r
    grind
  refFor {q m r} := by
    have := @h.refFor q m r
    grind

theorem Indexed.addNode (h : Indexed s) (hp : s.proc p = some pr) (hk : pr.nodes.find nd.ptr = none)
    (hproc : nd.proc = some p) (hw : nd.Targets nd.work) : Indexed (addNode p pr nd s) where
  toTables := h.toTables.addNode (h.fresh le_rfl).1 hp hk hproc
  work {m x} hx := by
    have := @h.work m x
    grind
  fresh {m} hm := by
    have := @h.fresh m
    grind

theorem Inv.addNode (h : Inv s) (hp : s.proc p = some pr) (hk : pr.nodes.find nd.ptr = none)
    (hnil : nd.refs = []) (hproc : nd.proc = some p) (hi : nd.internalStrongRefs = 0)
    (hw : nd.Targets nd.work) : Inv (addNode p pr nd s) := by
  refine (h.indexed.addNode hp hk hproc hw).inv (h.toLinks.congr ?_ rfl) ⟨fun {m x} hx => ?_, h.nonneg⟩
  · funext m
    have := h.fresh (m := s.next) le_rfl
    grind
  · have := @h.internal m x
    change _ = strongRefs s x.refs
    grind [strongRefs]

/-! ## References -/

structure Ref.SameKey (rf rf' : Ref) : Prop where
  proc : rf'.proc = rf.proc
  node : rf'.node = rf.node
  desc : rf'.desc = rf.desc

theorem refKey_changeCount (hr : s.ref r = some rf) (hkey : rf.SameKey rf') :
    refKey (setRef r (some rf') s) = refKey s := by
  funext u
  obtain ⟨h1, h2, h3⟩ := hkey
  grind

theorem Indexed.changeCount (h : Indexed s) (hr : s.ref r = some rf) (hkey : rf.SameKey rf') :
    Indexed (setRef r (some rf') s) where
  toTables := h.toTables.congr ⟨rfl, rfl, rfl⟩ rfl (refKey_changeCount hr hkey)
  work := h.work
  fresh {m} hm := by
    have hne : m ≠ r := ((h.ref_lt hr).trans_le hm).ne'
    simpa [setRef_ref, hne] using h.fresh (m := m) hm

theorem Inv.changeCount (h : Inv s) (hr : s.ref r = some rf) (hn : s.node rf.node = some nd) (rf' : Ref) (nd' : Node)
    (hkey : rf.SameKey rf') (h0 : 0 ≤ rf'.strong ∧ 0 ≤ rf'.weak) (hrefs : nd'.refs = nd.refs)
    (hproc : nd'.proc = nd.proc) (hptr : nd'.ptr = nd.ptr) (hw : nd'.Targets nd'.work)
    (hi : nd'.internalStrongRefs = nd.internalStrongRefs + (decide (0 < rf'.strong)).toNat -
      (decide (0 < rf.strong)).toNat) :
    Inv (setRef r (some rf') (setNode rf.node (some nd') s)) := by
  have hother : ∀ u, u ≠ r →
      isStrong (setRef r (some rf') (setNode rf.node (some nd') s)) u = isStrong s u := by grind
  refine ((h.indexed.changeNode hn hproc hptr hw).changeCount hr hkey).inv
    (h.toLinks.congr ?_ (refKey_changeCount hr hkey)) ⟨fun {m x} hx => ?_, fun {u f} hu => ?_⟩
  · funext m
    grind
  · rw [setRef_node, setNode_node] at hx
    split at hx
    · cases hx
      obtain ⟨x, hx, hmem⟩ := h.refNode hr
      cases hn.symm.trans hx
      have hnd : nd.refs.Nodup := refsOf_of hn ▸ h.nodup rf.node
      rw [hrefs, strongRefs_change hnd hmem hother, ← h.internal hn, isStrong_of hr, isStrong_setRef]
      simpa using hi
    rename_i hm
    rw [h.internal hx]
    refine (strongRefs_congr fun u hu => hother u ?_).symm
    rintro rfl
    obtain ⟨f, hf, hfm⟩ := h.nodeRef hx hu
    cases hr.symm.trans hf
    exact hm hfm.symm
  · have := @h.nonneg u f
    grind

section NewRef

variable {d : Nat} (p : ProcId) (pr : Proc) (n : NodeId) (nd : Node) (d : Nat) (s : State)

@[grind =] theorem linkRef_node : (linkRef p pr n nd d s).node m =
    if m = n then some { nd with refs := s.next :: nd.refs } else s.node m := by
  simp [linkRef, update_apply]

@[grind =] theorem linkRef_ref : (linkRef p pr n nd d s).ref r = if r = s.next then some ⟨p, n, d, 0, 0⟩ else s.ref r := by
  simp [linkRef, update_apply]

@[grind =] theorem refKey_linkRef : refKey (linkRef p pr n nd d s) r = if r = s.next then some (p, n, d) else refKey s r := by
  simp only [refKey, linkRef_ref]
  split <;> rfl

@[grind =] theorem linkRef_proc : (linkRef p pr n nd d s).proc q =
    if q = p then some (pr.addRef d n s.next) else s.proc q := by
  simp [linkRef, update_apply]

@[grind =] theorem linkRef_next : (linkRef p pr n nd d s).next = s.next + 1 := rfl

end NewRef

theorem Inv.linkRef_links {d : Nat} (h : Inv s) (hn : s.node n = some nd) : Links (linkRef p pr n nd d s) := by
  have hnew : target s s.next = none := by simp [target, h.indexed.refKey_next]
  refine ⟨fun {m u} => ?_, fun m => ?_⟩
  · have := @h.mem_refsOf m u
    grind
  · have := h.nodup m
    have := @h.mem_refsOf n s.next
    grind

theorem Tables.linkRef {d : Nat} (h : Tables s) (hnew : refKey s s.next = none) (hp : s.proc p = some pr)
    (hn : s.node n = some nd) (hd : pr.refsByDesc.find d = none) (hf : pr.refsByNode.find n = none) :
    Tables (Refs.linkRef p pr n nd d s) where
  nodeAt {q k m} := by
    have := @h.nodeAt q k m
    grind [Proc.addRef]
  refAt {q k u} := by
    have := @h.refAt q k u
    have := refKey_linkRef (r := u) p pr n nd d s
    grind [Proc.addRef]
  refFor {q m u} := by
    have := @h.refFor q m u
    have := refKey_linkRef (r := u) p pr n nd d s
    grind [Proc.addRef]

theorem Indexed.linkRef {d : Nat} (h : Indexed s) (hp : s.proc p = some pr) (hn : s.node n = some nd)
    (hd : pr.refsByDesc.find d = none) (hf : pr.refsByNode.find n = none) : Indexed (linkRef p pr n nd d s) where
  toTables := h.toTables.linkRef h.refKey_next hp hn hd hf
  work {m x} hx := by
    have := @h.work m x
    have := h.work hn
    grind [Node.Targets]
  fresh {m} hm := by
    have := @h.fresh m
    grind

theorem Inv.linkRef {d : Nat} (h : Inv s) (hp : s.proc p = some pr) (hn : s.node n = some nd)
    (hd : pr.refsByDesc.find d = none) (hf : pr.refsByNode.find n = none) : Inv (linkRef p pr n nd d s) := by
  have hfresh := h.fresh (m := s.next) le_rfl
  have hnew : isStrong s s.next = false := by grind
  have hsame : ∀ u, isStrong (Refs.linkRef p pr n nd d s) u = isStrong s u := by grind
  refine (h.indexed.linkRef hp hn hd hf).inv (h.linkRef_links hn) ⟨fun {m x} hx => ?_, fun {u f} hu => ?_⟩
  · rw [strongRefs_congr fun u _ => hsame u]
    rw [linkRef_node] at hx
    split at hx
    · cases hx
      simpa [strongRefs, hnew] using h.internal hn
    · exact h.internal hx
  · have := @h.nonneg u f
    grind

def removeRef (r : RefId) (rf : Ref) (pr : Proc) (nd : Node) (s : State) : State :=
  setRef r none (setNode rf.node (some { nd with refs := nd.refs.erase r })
    (setProc rf.proc (some (pr.eraseRef rf)) s))

def dropRef (r : RefId) (rf : Ref) (pr : Proc) (s : State) : State :=
  setRef r none (setProc rf.proc (some (pr.eraseRef rf)) s)

@[grind =] theorem refKey_dropRef : refKey (dropRef r rf pr s) u = if u = r then none else refKey s u := by
  simp only [dropRef, refKey_setRef, refKey_setProc, Option.map_none]

theorem refKey_removeRef : refKey (removeRef r rf pr nd s) u = if u = r then none else refKey s u :=
  show refKey (dropRef r rf pr s) u = _ from refKey_dropRef

theorem Tables.dropRef (h : Tables s) (hr : s.ref r = some rf) (hp : s.proc rf.proc = some pr) :
    Tables (dropRef r rf pr s) where
  nodeAt {q k m} := by
    have := @h.nodeAt q k m
    grind [Refs.dropRef, Proc.eraseRef]
  refAt {q d u} := by
    have := @h.refAt q d u
    have := @h.refAt q d r
    grind [Refs.dropRef, Proc.eraseRef]
  refFor {q m u} := by
    have := @h.refFor q m u
    have := @h.refFor q m r
    grind [Refs.dropRef, Proc.eraseRef]

theorem Indexed.dropRef (h : Indexed s) (hr : s.ref r = some rf) (hp : s.proc rf.proc = some pr) :
    Indexed (dropRef r rf pr s) where
  toTables := h.toTables.dropRef hr hp
  work := h.work
  fresh {m} hm := by
    have hf := h.fresh (m := m) hm
    simp [Refs.dropRef, setRef_ref, hf]

theorem Inv.removeRef (h : Inv s) (hr : s.ref r = some rf) (hp : s.proc rf.proc = some pr)
    (hn : s.node rf.node = some nd) (h0 : rf.strong = 0) : Inv (removeRef r rf pr nd s) := by
  have hrefs : ∀ m, refsOf (Refs.removeRef r rf pr nd s) m = (refsOf s m).erase r := by
    intro m
    have := @h.mem_refsOf m r
    grind [Refs.removeRef, List.erase_of_not_mem]
  have hweak : isStrong s r = false := by simp [isStrong_of hr, h0]
  have hsame : ∀ u, isStrong (Refs.removeRef r rf pr nd s) u = isStrong s u := by grind [Refs.removeRef]
  have hwork := h.work hn
  refine Indexed.inv ((h.indexed.dropRef hr hp).changeNode hn rfl rfl hwork)
    ⟨fun {m u} => ?_, fun m => hrefs m ▸ (h.nodup m).erase r⟩ ⟨fun {m x} hx => ?_, fun {u f} hu => ?_⟩
  · rw [hrefs, (h.nodup m).mem_erase_iff, h.mem_refsOf]
    grind [refKey_removeRef]
  · rw [strongRefs_congr fun u _ => hsame u]
    simp only [Refs.removeRef, setRef_node, setNode_node, setProc_node] at hx
    split at hx
    · cases hx
      obtain ⟨x, hx, hmem⟩ := h.refNode hr
      cases hn.symm.trans hx
      rw [h.internal hn, strongRefs, (List.perm_cons_erase hmem).countP_eq]
      simp [strongRefs, hweak]
    · exact h.internal hx
  · have := @h.nonneg u f
    grind [Refs.removeRef]

/-! ## Processes -/

def Proc.Empty (pr : Proc) : Prop :=
  (∀ k, pr.nodes.find k = none) ∧ (∀ d, pr.refsByDesc.find d = none) ∧ ∀ n, pr.refsByNode.find n = none

theorem Tables.changeEmptyProc (h : Tables s) {o : Option Proc} (hs : ∀ x ∈ s.proc p, x.Empty) (ho : ∀ x ∈ o, x.Empty) :
    Tables (setProc p o s) := by
  refine h.congr ?_ rfl rfl
  unfold Proc.Empty at hs ho
  refine ⟨?_, ?_, ?_⟩ <;> funext q k <;> cases hq : s.proc q <;> cases o <;> grind

theorem Tables.empty_proc (h : Tables s) (hp : s.proc p = some pr) (hn : pr.nodes.first = none)
    (hd : pr.refsByDesc.first = none) : pr.Empty := by
  refine ⟨fun k => Table.find_of_first_none hn, fun d => Table.find_of_first_none hd, fun m => ?_⟩
  cases hf : pr.refsByNode.find m with
  | none => rfl
  | some r =>
    -- a reference in the tree by nodes would be in the empty tree by descriptors
    obtain ⟨d, hkey⟩ := h.refFor.mp ((refFor_of hp m).trans hf)
    have := (refAt_of hp d).symm.trans (h.refAt.mpr ⟨m, hkey⟩)
    rw [Table.find_of_first_none hd] at this
    cases this

theorem Indexed.changeEmptyProc (h : Indexed s) {o : Option Proc} (hs : ∀ x ∈ s.proc p, x.Empty)
    (ho : ∀ x ∈ o, x.Empty) : Indexed (setProc p o s) :=
  ⟨h.toTables.changeEmptyProc hs ho, h.work, h.fresh⟩

theorem Inv.changeEmptyProc (h : Inv s) {o : Option Proc} (hs : ∀ x ∈ s.proc p, x.Empty) (ho : ∀ x ∈ o, x.Empty) :
    Inv (setProc p o s) :=
  (h.indexed.changeEmptyProc hs ho).inv (h.toLinks.congr rfl rfl) ⟨h.internal, h.nonneg⟩

theorem Indexed.changeFiles (h : Indexed s) (hp : s.proc p = some pr) (files : List Nat) :
    Indexed (setProc p (some { pr with files := files }) s) := by
  refine ⟨h.toTables.congr ⟨?_, ?_, ?_⟩ rfl rfl, h.work, h.fresh⟩ <;> funext q k <;> grind

theorem Inv.changeFiles (h : Inv s) (hp : s.proc p = some pr) (files : List Nat) :
    Inv (setProc p (some { pr with files := files }) s) :=
  (h.indexed.changeFiles hp files).inv (h.toLinks.congr rfl rfl) ⟨h.internal, h.nonneg⟩

theorem Inv.killNode (h : Inv s) (hn : s.node n = some nd) (hp : nd.proc = some p) (hpr : s.proc p = some pr)
    (nd' : Node) (hrefs : nd'.refs = nd.refs) (hi : nd'.internalStrongRefs = nd.internalStrongRefs)
    (hproc : nd'.proc = none) (hw : nd'.work = none) :
    Inv (setNode n (some nd') (setProc p (some { pr with nodes := pr.nodes.erase nd.ptr }) s)) := by
  refine (h.indexed.eraseNode hn hp hpr (by simp [hproc, hw])).inv (h.toLinks.congr ?_ rfl)
    ⟨fun {m x} hx => ?_, h.nonneg⟩
  · funext m
    grind
  · have := @h.internal m x
    have := h.internal hn
    change _ = strongRefs s x.refs
    grind

end G3Mod.Binder.Refs
