import G3Mod.Binder.Refs.Lemmas.Updates

/-!
# The trees and the heaps agree, whatever the counts are
-/

namespace G3Mod.Binder.Refs

open Function Lib

variable {s s' t : State} {p q : ProcId} {n m : NodeId} {r u : RefId} {nd nd' : Node} {rf rf' : Ref} {pr : Proc}
  {op : Op} {o : List Event}

theorem Indexed.init : Indexed emptyState := ⟨Inv.init.toTables, Inv.init.work, Inv.init.fresh⟩

/-! ## Updates -/

theorem Indexed.update (h : Indexed s) (hu : Update s s') : Indexed s' := by
  cases hu with
  | node hn hh => exact h.changeNode hn hh.proc hh.ptr (hh.work (h.work hn))
  | free hn _ => exact h.removeNode hn
  | count hr hkey => exact h.changeCount hr hkey
  | link hp hn hd hf => exact h.linkRef hp hn hd hf
  | drop hr hp => exact h.dropRef hr hp
  | files hp l => exact h.changeFiles hp l

theorem Indexed.updates (h : Indexed s) (hu : Updates s s') : Indexed s' := by
  induction hu with
  | refl => exact h
  | tail _ hu ih => exact ih.update hu

/-! ## Work items, and the processes themselves -/

theorem Indexed.dropWork (h : Indexed s) (gone : TodoList → Bool) : Indexed (releaseWork gone s) := by
  apply h.mapNodes
  intro n nd hn
  split
  · exact ⟨rfl, rfl, by simp [Node.Targets]⟩
  · exact ⟨rfl, rfl, h.work hn⟩

variable {ptr : Nat}

theorem releaseNode_cases (h : Indexed s) (hp : s.proc p = some pr) (hat : pr.nodes.find ptr = some n)
    (hx : releaseNode p ptr n s = .ok (o, s')) : ∃ nd, s.node n = some nd ∧ nd.proc = some p ∧ nd.ptr = ptr ∧
      s' = setNode n (if nd.refs = [] then none else some { nd with
        work := none, proc := none, localStrongRefs := 0, localWeakRefs := 0 })
        (setProc p (some { pr with nodes := pr.nodes.erase ptr }) s) := by
  obtain ⟨nd, hn, hproc, hptr⟩ := nodeKey_eq_some.mp (h.nodeAt.mp ((nodeAt_of hp ptr).trans hat))
  refine ⟨nd, hn, hproc, hptr, ?_⟩
  simp only [releaseNode, getProc_of hp, getNode_of hn, ok_bind] at hx
  split at hx
  · next e => cases hx; rw [if_pos e]
  · next e => cases hx; rw [if_neg e]

theorem Indexed.releaseNode (h : Indexed s) (hp : s.proc p = some pr) (hat : pr.nodes.find ptr = some n)
    (hx : releaseNode p ptr n s = .ok (o, s')) : Indexed s' := by
  obtain ⟨nd, hn, hproc, rfl, rfl⟩ := releaseNode_cases h hp hat hx
  exact h.eraseNode hn hproc hp (by grind)

variable {fuel : Nat}

theorem releaseNodes_keeps {P : State → Prop} (hstep : ∀ {s pr ptr n o s'}, P s → s.proc p = some pr →
      pr.nodes.find ptr = some n → releaseNode p ptr n s = .ok (o, s') → P s')
    (h : P s) (hx : releaseNodes p fuel s = .ok (o, s')) : P s' ∧ ∃ pr, s'.proc p = some pr ∧ pr.nodes.first = none := by
  induction fuel generalizing s o with
  | zero =>
    obtain ⟨pr, hp, hx⟩ := bind_ok hx
    split at hx
    · next he => cases hx; exact ⟨h, pr, getProc_ok hp, he⟩
    · cases hx
  | succ fuel ih =>
    obtain ⟨pr, hp, hx⟩ := bind_ok hx
    have hp := getProc_ok hp
    split at hx
    · next he => cases hx; exact ⟨h, pr, hp, he⟩
    rename_i e he
    obtain ⟨⟨o1, s1⟩, h1, hx⟩ := bind_ok hx
    obtain ⟨⟨o2, s2⟩, h2, hx⟩ := bind_ok hx
    cases hx
    exact ih (hstep h hp (Table.find_of_first he) h1) h2

theorem Indexed.releaseNodes (h : Indexed s) (hx : releaseNodes p fuel s = .ok (o, s')) :
    Indexed s' ∧ ∃ pr, s'.proc p = some pr ∧ pr.nodes.first = none :=
  releaseNodes_keeps (fun hs hp hat h1 => hs.releaseNode hp hat h1) h hx

theorem Update.nodes_empty (hu : Update s s') (hp : s.proc p = some pr) (he : pr.nodes.first = none) :
    ∃ pr', s'.proc p = some pr' ∧ pr'.nodes.first = none := by
  cases hu with
  | @free n nd _ _ =>
    obtain ⟨pr', hp', _, _, hnil⟩ := settle_proc hp n nd none
    exact ⟨pr', hp', hnil he⟩
  | link hq _ _ _ => grind [Proc.addRef]
  | drop _ hq => grind [dropRef, Proc.eraseRef]
  | files hq l => grind
  | _ => exact ⟨pr, hp, he⟩

theorem Updates.nodes_empty (hu : Updates s s') (h : ∃ pr, s.proc p = some pr ∧ pr.nodes.first = none) :
    ∃ pr, s'.proc p = some pr ∧ pr.nodes.first = none := by
  induction hu with
  | refl => exact h
  | tail _ hu ih =>
    obtain ⟨pr, hp, he⟩ := ih
    exact hu.nodes_empty hp he

theorem releaseRefs_updates (hx : releaseRefs p fuel s = .ok (o, s')) :
    Updates s s' ∧ ∃ pr, s'.proc p = some pr ∧ pr.refsByDesc.first = none := by
  induction fuel generalizing s o with
  | zero =>
    obtain ⟨pr, hp, hx⟩ := bind_ok hx
    split at hx
    · next he => cases hx; exact ⟨.refl, pr, getProc_ok hp, he⟩
    · cases hx
  | succ fuel ih =>
    obtain ⟨pr, hp, hx⟩ := bind_ok hx
    split at hx
    · next he => cases hx; exact ⟨.refl, pr, getProc_ok hp, he⟩
    obtain ⟨⟨o1, s1⟩, h1, hx⟩ := bind_ok hx
    obtain ⟨⟨o2, s2⟩, h2, hx⟩ := bind_ok hx
    cases hx
    exact ⟨(binderDeleteRef_run h1).trans (ih h2).1, (ih h2).2⟩

theorem Indexed.deferredRelease (h : Indexed s) (hx : deferredRelease p s = .ok (o, s')) : Indexed s' := by
  obtain ⟨pr, _, hx⟩ := bind_ok hx
  obtain ⟨s1, h1, hx⟩ := bind_ok hx
  obtain ⟨⟨o2, s2⟩, h2, hx⟩ := bind_ok hx
  obtain ⟨⟨o3, s3⟩, h3, hx⟩ := bind_ok hx
  cases hx
  have hs1 : Indexed s1 := by
    rcases forgetContextMgr_cases h1 with rfl | ⟨_, rfl⟩
    · exact h
    · exact h.setMgr none
  obtain ⟨hs2, hnil⟩ := (hs1.dropWork _).releaseNodes h2
  obtain ⟨hup, pr3, hp3, hdone⟩ := releaseRefs_updates h3
  have hs3 := hs2.updates hup
  obtain ⟨pr', hp', hnodes⟩ := hup.nodes_empty hnil
  cases hp3.symm.trans hp'
  refine (hs3.dropWork _).changeEmptyProc (fun y hy => ?_) (by simp)
  cases hp3.symm.trans hy
  exact hs3.toTables.empty_proc hp3 hnodes hdone

variable {alloc : Bool}

theorem setContextMgr_cases (hx : setContextMgr p alloc s = .ok s') : s' = s ∨
    s.contextMgrNode = none ∧ ∃ pr, s.proc p = some pr ∧ pr.nodes.find 0 = none ∧
      s' = { setNode s.next (some (newNode p 0 0).manage) (addNode p pr (newNode p 0 0) s) with
        contextMgrNode := some s.next } := by
  unfold setContextMgr at hx
  split at hx
  · cases hx
    exact .inl rfl
  rename_i hc
  obtain ⟨⟨x, s1⟩, h1, hend⟩ := bind_ok hx
  rcases binderNewNode_cases h1 with ⟨rfl, rfl⟩ | ⟨pr, hp, hk, rfl, rfl⟩
  · cases hend
    exact .inl rfl
  have hn : (addNode p pr (newNode p 0 0) s).node s.next = some (newNode p 0 0) := by simp [addNode_node]
  simp only [getNode_of hn, ok_bind] at hend
  cases hend
  exact .inr ⟨hc, pr, hp, hk, rfl⟩

theorem Indexed.setContextMgr (h : Indexed s) (hx : setContextMgr p alloc s = .ok s') : Indexed s' := by
  rcases setContextMgr_cases hx with rfl | ⟨_, pr, hp, hk, rfl⟩
  · exact h
  have hw : (newNode p 0 0).Targets (newNode p 0 0).work := by simp [Node.Targets, newNode]
  have hn : (Refs.addNode p pr (newNode p 0 0) s).node s.next = some (newNode p 0 0) := by simp [addNode_node]
  have hm : Indexed (setNode s.next (some (newNode p 0 0).manage) (Refs.addNode p pr (newNode p 0 0) s)) :=
    (h.addNode hp hk rfl hw).changeNode hn rfl rfl hw
  exact hm.setMgr (some s.next)

theorem Indexed.workNode (h : Indexed s) (hop : (Op.workNode p n).Permitted s) (hx : workNode p n s = .ok (o, s')) :
    Indexed s' := by
  obtain ⟨nd, hn, l, hl, rfl⟩ := hop
  have hproc : nd.proc = some l.proc := h.work hn l hl
  simp only [Refs.workNode, getNode_of hn, ok_bind] at hx
  split at hx
  next c nd' hrep =>
    cases hx
    have hlinks := Node.report_links hrep (h.work hn)
    exact h.changeNode hn hlinks.proc hlinks.ptr hlinks.work
  split at hx
  · obtain ⟨pr, hp, hx⟩ := bind_ok hx
    cases hx
    have := h.removeNode hn
    rwa [removeNode_of_proc hproc (getProc_ok hp)] at this
  · cases hx
    exact h.changeNode hn rfl rfl (by simp [Node.Targets])

/-! ## The `BUG()` -/

/-- The second loop of `binder_get_ref_for_node` does not meet the new descriptor. -/
def Unbugged {A : Type} (x : Except Bug A) : Prop := ∀ d, x ≠ .error (.descInUse d)

section Unbugged

variable {A B : Type}

@[simp] theorem Unbugged.ok (a : A) : Unbugged (.ok a) := nofun

variable {x : Except Bug A}

theorem Unbugged.bind {f : A → Except Bug B} (hx : Unbugged x) (hf : ∀ a, Unbugged (f a)) :
    Unbugged (x >>= f) := by
  intro d h
  rcases bind_error h with h | ⟨a, _, h⟩
  · exact hx d h
  · exact hf a d h

@[simp] theorem Unbugged.ite {c : Prop} [Decidable c] {y : Except Bug A} (hx : Unbugged x) (hy : Unbugged y) :
    Unbugged (if c then x else y) := by split <;> assumption

theorem getProc_unbugged : Unbugged (getProc p s) := by
  unfold getProc
  split <;> exact nofun

theorem getNode_unbugged : Unbugged (getNode n s) := by
  unfold getNode
  split <;> exact nofun

theorem getRef_unbugged : Unbugged (getRef r s) := by
  unfold getRef
  split <;> exact nofun

variable {cookie : Nat}

theorem binderNewNode_unbugged : Unbugged (binderNewNode p ptr cookie alloc s) := by
  refine getProc_unbugged.bind fun pr => ?_
  split <;> exact .ok _

variable {strong internal : Bool} {target : Option TodoList}

theorem binderIncNode_unbugged :
    Unbugged (binderIncNode n strong internal target s) :=
  getNode_unbugged.bind fun _ => .ok _

theorem freeUnused_unbugged : Unbugged (freeUnused n nd s) := by
  refine .ite ?_ (.ok _)
  unfold freeNode
  split
  · exact .ok _
  · exact getProc_unbugged.bind fun _ => .ok _

theorem binderDecNode_unbugged : Unbugged (binderDecNode n strong internal s) := by
  refine getNode_unbugged.bind fun nd => .ite (.ok _) ?_
  unfold dropNode
  split
  · exact .ite (.ok _) freeUnused_unbugged
  · exact freeUnused_unbugged

theorem binderGetRefForNode_unbugged : Unbugged (binderGetRefForNode p n alloc s) := by
  refine getProc_unbugged.bind fun pr => ?_
  split
  · exact .ok _
  split
  · refine getNode_unbugged.bind fun nd => ?_
    rw [Table.find_eq_none.mpr (nextDesc_unused pr.refsByDesc.sorted)]
    exact .ok _
  · exact .ok _

theorem binderIncRef_unbugged : Unbugged (binderIncRef r strong target s) := by
  refine getRef_unbugged.bind fun rf => Unbugged.bind (.ite binderIncNode_unbugged (.ok _)) fun x => ?_
  split <;> exact .ok _

theorem binderDeleteRef_unbugged : Unbugged (binderDeleteRef r s) :=
  getRef_unbugged.bind fun _ => getProc_unbugged.bind fun _ =>
    Unbugged.bind (.ite binderDecNode_unbugged (.ok _)) fun _ =>
    Unbugged.bind (getNode_unbugged.bind fun _ => .ok _) fun _ => binderDecNode_unbugged.bind fun _ => .ok _

theorem binderDecRef_unbugged : Unbugged (binderDecRef r strong s) :=
  getRef_unbugged.bind fun _ => .ite (.ok _) (Unbugged.bind (.ite binderDecNode_unbugged (.ok _)) fun _ =>
    Unbugged.bind (.ite binderDeleteRef_unbugged (.ok _)) fun _ => .ok _)

theorem bcDone_unbugged : Unbugged (bcDone p ptr cookie strong s) := by
  refine Unbugged.bind (getProc_unbugged.bind fun _ => .ok _) fun x => ?_
  cases x with
  | none => exact .ok _
  | some n => exact getNode_unbugged.bind fun nd => .ite binderDecNode_unbugged (.ok _)

theorem workNode_unbugged : Unbugged (workNode p n s) := by
  refine getNode_unbugged.bind fun nd => ?_
  split
  · exact .ok _
  · exact .ite (getProc_unbugged.bind fun _ => .ok _) (.ok _)

theorem setContextMgr_unbugged : Unbugged (setContextMgr p alloc s) := by
  unfold setContextMgr
  split
  · exact .ok _
  refine binderNewNode_unbugged.bind fun x => ?_
  split
  · exact .ok _
  · exact getNode_unbugged.bind fun _ => .ok _

theorem releaseNodes_unbugged : Unbugged (releaseNodes p fuel s) := by
  induction fuel generalizing s with
  | zero =>
    refine getProc_unbugged.bind fun pr => ?_
    split
    · exact .ok _
    · exact nofun
  | succ fuel ih =>
    refine getProc_unbugged.bind fun pr => ?_
    split
    · exact .ok _
    · exact Unbugged.bind (getProc_unbugged.bind fun pr => getNode_unbugged.bind fun nd => .ite (.ok _) (.ok _))
        fun x => ih.bind fun _ => .ok _

theorem releaseRefs_unbugged : Unbugged (releaseRefs p fuel s) := by
  induction fuel generalizing s with
  | zero =>
    refine getProc_unbugged.bind fun pr => ?_
    split
    · exact .ok _
    · exact nofun
  | succ fuel ih =>
    refine getProc_unbugged.bind fun pr => ?_
    split
    · exact .ok _
    · exact binderDeleteRef_unbugged.bind fun x => ih.bind fun _ => .ok _

theorem deferredRelease_unbugged : Unbugged (deferredRelease p s) := by
  refine getProc_unbugged.bind fun pr => Unbugged.bind ?_ fun s1 =>
    releaseNodes_unbugged.bind fun x => releaseRefs_unbugged.bind fun _ => .ok _
  unfold forgetContextMgr
  split
  · exact .ok _
  · exact getNode_unbugged.bind fun _ => .ok _

theorem exec_unbugged (s : State) (op : Op) : Unbugged (exec s op) := by
  cases op with
  | openProc p => exact .ok _
  | setContextMgr p alloc => exact setContextMgr_unbugged.bind fun _ => .ok _
  | newNode p ptr cookie alloc => exact binderNewNode_unbugged.bind fun _ => .ok _
  | getRefForNode p n alloc => exact binderGetRefForNode_unbugged.bind fun _ => .ok _
  | incRef r strong target => exact binderIncRef_unbugged.bind fun _ => .ok _
  | decRef r strong => exact binderDecRef_unbugged.bind fun _ => .ok _
  | deleteRef r => exact binderDeleteRef_unbugged
  | incNode n strong target => exact binderIncNode_unbugged.bind fun _ => .ok _
  | decNode n strong => exact binderDecNode_unbugged
  | workNode p n => exact workNode_unbugged
  | bcDone p ptr cookie strong => exact bcDone_unbugged
  | setFiles p files => exact Unbugged.bind (getProc_unbugged.bind fun _ => .ok _) fun _ => .ok _
  | threadExit p a => exact .ok _
  | deferredRelease p => exact deferredRelease_unbugged

end Unbugged

theorem exec_indexed (h : Indexed s) (hop : op.Permitted s) (hx : exec s op = .ok (o, s')) : Indexed s' := by
  rcases exec_updates hop hx with hu | hspecial
  · exact h.updates hu
  cases op with
  | openProc p =>
    cases hx
    have hnone : s.proc p = none := hop
    exact h.changeEmptyProc (by simp [hnone]) (by simp [Proc.Empty, newProc])
  | setContextMgr p alloc =>
    obtain ⟨s1, h1, hx⟩ := bind_ok hx
    cases hx
    exact h.setContextMgr h1
  | newNode p ptr cookie alloc =>
    obtain ⟨⟨x, s1⟩, h1, hx⟩ := bind_ok hx
    cases hx
    rcases binderNewNode_cases h1 with ⟨_, rfl⟩ | ⟨pr, hp, hk, _, rfl⟩
    · exact h
    · exact h.addNode hp hk rfl (by simp [Node.Targets, newNode])
  | workNode p n => exact h.workNode hop hx
  | threadExit p a =>
    cases hx
    exact h.dropWork _
  | deferredRelease p => exact h.deferredRelease hx
  | _ => exact hspecial.elim

theorem indexed_of_reachable (h : fullMachine.Reachable s) : Indexed s := by
  apply h.invariant
  · rintro s rfl
    exact Indexed.init
  · intro s op o s' hi he hx
    exact exec_indexed hi he hx

end G3Mod.Binder.Refs
