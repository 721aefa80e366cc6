import G3Mod.Binder.Refs.Lemmas.Inv

/-!
# What the functions on nodes and references do
-/

namespace G3Mod.Binder.Refs

open Function Lib

variable {s s' s'' t : State} {p : ProcId} {n m : NodeId} {r : RefId} {nd nd' : Node} {rf : Ref} {pr : Proc}
  {strong internal mgr : Bool} {target : Option TodoList} {o o' : List Event} {x : Option Node} {Q Q' : Node → Prop}

theorem setNode_self (hn : s.node n = some nd) : setNode n (some nd) s = s := by
  simp [setNode, ← hn]

theorem setNode_setNode (x y : Option Node) : setNode n x (setNode n y s) = setNode n x s := by
  simp [setNode]

theorem setRef_setNode (x : Option Ref) (y : Option Node) :
    setRef r x (setNode n y s) = setNode n y (setRef r x s) := rfl

/-! ## Counting at a node -/

def Node.addLocal (strong : Bool) (nd : Node) : Node :=
  if strong then { nd with localStrongRefs := incr nd.localStrongRefs }
  else { nd with localWeakRefs := incr nd.localWeakRefs }

theorem Node.inc_local (mgr strong : Bool) (target : Option TodoList) (nd : Node) : ∃ w, (w = nd.work ∨ w = target) ∧
    (nd.inc mgr strong false target).2 = { nd.addLocal strong with work := w } := by
  refine ⟨(nd.inc mgr strong false target).2.work, ?_⟩
  cases strong <;> cases target <;>
    grind [Node.inc, Node.incWeak, Node.requestWeak, Node.incStrong, Node.offer, Node.addLocal]

theorem Node.inc_internal (mgr strong : Bool) (target : Option TodoList) (nd : Node) :
    nd.inc mgr strong true target = (.einval, nd) ∨
    ∃ w, (w = nd.work ∨ w = target) ∧ nd.inc mgr strong true target =
      (.ok, { nd with work := w, internalStrongRefs :=
        if strong then incr nd.internalStrongRefs else nd.internalStrongRefs }) := by
  cases hst : (nd.inc mgr strong true target).1 with
  | einval =>
    left
    cases strong <;> cases target <;> grind [Node.inc, Node.incWeak, Node.requestWeak, Node.incStrong]
  | ok =>
    refine .inr ⟨(nd.inc mgr strong true target).2.work, ?_⟩
    cases strong <;> cases target <;> cases nd <;>
      grind [Node.inc, Node.incWeak, Node.requestWeak, Node.incStrong, Node.offer]

theorem binderIncNode_of (hn : s.node n = some nd) : binderIncNode n strong internal target s =
    .ok ((nd.inc (s.contextMgrNode = some n) strong internal target).1,
      setNode n (some (nd.inc (s.contextMgrNode = some n) strong internal target).2) s) := by
  simp [binderIncNode, getNode_of hn, pure, Except.pure]

theorem Node.Targets.of_or {w : Option TodoList} (h : nd.Targets nd.work) (ht : nd.Targets target)
    (hw : w = nd.work ∨ w = target) : nd.Targets w := by
  grind

theorem binderIncNode_local (h : Inv s) (hn : s.node n = some nd) (ht : nd.Targets target) (strong : Bool) :
    ∃ st w, binderIncNode n strong false target s =
        .ok (st, setNode n (some { nd.addLocal strong with work := w }) s) ∧
      Inv (setNode n (some { nd.addLocal strong with work := w }) s) := by
  obtain ⟨w, hw, he⟩ := nd.inc_local (s.contextMgrNode = some n) strong target
  refine ⟨_, w, (binderIncNode_of hn).trans (by rw [he]), h.changeNode hn ?_⟩
  have htw : nd.Targets w := (h.work hn).of_or ht hw
  cases strong <;> exact ⟨rfl, rfl, rfl, rfl, htw⟩

/-! ## A node that loses a count -/

/-- Nothing refers to the node, no count is left, and its process is dead or does not hold it. -/
def Node.Unneeded (nd : Node) : Prop :=
  nd.refs = [] ∧ nd.localStrongRefs = 0 ∧ nd.localWeakRefs = 0 ∧
    (nd.proc = none ∨ nd.hasStrongRef = false ∧ nd.hasWeakRef = false)

inductive Fate (n : NodeId) (nd : Node) : Option Node → List Event → Prop
  | kept {w : Option TodoList} (hw : nd.Targets w) : Fate n nd (some { nd with work := w }) []
  | freed (hu : nd.Unneeded) : Fate n nd none [.freed n { nd with work := none }]

def settle (n : NodeId) (nd : Node) (s : State) : Option Node → State
  | some nd' => setNode n (some nd') s
  | none => removeNode n nd s

theorem Node.dec_links (strong internal : Bool) (nd : Node) : (nd.dec strong internal).refs = nd.refs ∧
    (nd.dec strong internal).proc = nd.proc ∧ (nd.dec strong internal).ptr = nd.ptr ∧
    (nd.dec strong internal).work = nd.work := by
  cases strong <;> cases internal <;> exact ⟨rfl, rfl, rfl, rfl⟩

def Node.Homed (nd : Node) (s : State) : Prop := ∀ p, nd.proc = some p → ∃ pr, s.proc p = some pr

theorem freeNode_of (h : nd.Homed s) (hp : nd'.proc = nd.proc) (hk : nd'.ptr = nd.ptr) :
    freeNode n nd' s = .ok ([.freed n nd'], removeNode n nd s) := by
  cases hproc : nd.proc with
  | none => simp [freeNode, removeNode, hp, hproc, pure, Except.pure]
  | some p =>
    obtain ⟨pr, hpr⟩ := h p hproc
    simp [freeNode, removeNode, hp, hk, hproc, hpr, getProc_of hpr, pure, Except.pure]

theorem freeUnused_spec (h : nd.Homed s) (hp : nd'.proc = nd.proc) (hk : nd'.ptr = nd.ptr)
    (hw : nd'.Targets nd'.work)
    (hhas : nd'.proc = none ∨ nd'.hasStrongRef = false ∧ nd'.hasWeakRef = false) :
    ∃ o x, freeUnused n nd' s = .ok (o, settle n nd s x) ∧ Fate n nd' x o := by
  unfold freeUnused
  split
  next hu => exact ⟨_, none, freeNode_of h hp hk, .freed ⟨hu.1, hu.2.1, hu.2.2, hhas⟩⟩
  · exact ⟨_, some nd', rfl, .kept hw⟩

theorem dropNode_spec (h : nd.Homed s) (hp : nd'.proc = nd.proc) (hk : nd'.ptr = nd.ptr)
    (hw : nd'.Targets nd'.work) :
    ∃ o x, dropNode n nd' s = .ok (o, settle n nd s x) ∧ Fate n nd' x o := by
  unfold dropNode
  split
  next p hproc =>
    split
    next hhas =>
      refine ⟨_, some { nd' with work := nd'.work.or (some ⟨p, none⟩) }, rfl, .kept fun l hl => ?_⟩
      have := hw l
      cases hwork : nd'.work <;> grind
    · next hhas => exact freeUnused_spec h hp hk hw (.inr (by simpa using hhas))
  · next hproc => exact freeUnused_spec h hp hk hw (.inl hproc)

theorem binderDecNode_spec (strong internal : Bool) (hn : s.node n = some nd) (hhome : nd.Homed s)
    (hwork : nd.Targets nd.work) :
    ∃ o x, binderDecNode n strong internal s = .ok (o, settle n nd s x) ∧ Fate n (nd.dec strong internal) x o := by
  obtain ⟨_, hproc, hptr, hw⟩ := nd.dec_links strong internal
  have ht : (nd.dec strong internal).Targets (nd.dec strong internal).work := by
    rw [hw]
    intro l hl
    rw [hproc]
    exact hwork l hl
  simp only [binderDecNode, getNode_of hn, ok_bind]
  split
  · exact ⟨_, some _, rfl, .kept ht⟩
  · exact dropNode_spec hhome hproc hptr ht

theorem Inv.homed (h : Inv s) (hn : s.node n = some nd) : nd.Homed s := fun _ hp => h.nodeProc hn hp

theorem Inv.settled {x : Option Node} {o : List Event} (h : Inv s) (hn : s.node n = some nd)
    (hf : Fate n nd' x o) (hrefs : nd'.refs = nd.refs) (hproc : nd'.proc = nd.proc) (hptr : nd'.ptr = nd.ptr)
    (hi : nd'.internalStrongRefs = nd.internalStrongRefs) : Inv (settle n nd s x) := by
  cases hf with
  | kept hw => exact h.changeNode hn ⟨hrefs, hproc, hptr, hi, hw⟩
  | freed hu => exact h.freeNode hn (hrefs ▸ hu.1)

theorem binderDecNode_local (h : Inv s) (hn : s.node n = some nd) (strong : Bool) :
    ∃ o x, binderDecNode n strong false s = .ok (o, settle n nd s x) ∧ Fate n (nd.dec strong false) x o ∧
      Inv (settle n nd s x) := by
  have hi : (nd.dec strong false).internalStrongRefs = nd.internalStrongRefs := by cases strong <;> rfl
  obtain ⟨o, x, hx, hf⟩ := binderDecNode_spec strong false hn (h.homed hn) (h.work hn)
  obtain ⟨hrefs, hproc, hptr, _⟩ := nd.dec_links strong false
  exact ⟨o, x, hx, hf, h.settled hn hf hrefs hproc hptr hi⟩

/-! ## What is freed -/

/-- A step frees only nodes with `Q`, and every node that is gone after it is among its events. -/
structure Frees (Q : Node → Prop) (s : State) (o : List Event) (s' : State) : Prop where
  seen : ∀ {n nd}, s.node n = some nd → s'.node n = none → ∃ nd', .freed n nd' ∈ o
  right : ∀ {n nd}, .freed n nd ∈ o → Q nd

theorem Frees.mono (h : Frees Q s o s') (hQ : ∀ nd, Q nd → Q' nd) : Frees Q' s o s' :=
  ⟨h.seen, fun he => hQ _ (h.right he)⟩

theorem Frees.trans (h : Frees Q s o s') (h' : Frees Q s' o' s'') : Frees Q s (o ++ o') s'' where
  seen {n nd} hn hgone := by
    have := @h.seen n nd hn
    have := @h'.seen n
    cases hm : s'.node n <;> grind
  right he := (List.mem_append.mp he).elim h.right h'.right

theorem Frees.of_kept (h : ∀ n nd, s.node n = some nd → s'.node n ≠ none) : Frees Q s [] s' :=
  ⟨fun hn hgone => absurd hgone (h _ _ hn), fun he => by cases he⟩

theorem Frees.refl : Frees Q s [] s := .of_kept fun _ _ hn => by simp [hn]

theorem Frees.keepNode (he : t.node = s.node) : Frees Q s [] (setNode n (some nd) t) := by
  apply Frees.of_kept
  intro m x hm
  grind

theorem Fate.frees (hf : Fate n nd' x o) (he : t.node = s.node) : Frees Node.Unneeded s o (settle n nd t x) := by
  cases hf with
  | kept hw => exact .keepNode he
  | freed hu =>
    refine ⟨fun {m y} hm hgone => ?_, fun hev => ?_⟩
    · have := congrFun he m
      grind [settle]
    · cases List.mem_singleton.mp hev
      exact hu

theorem binderNewNode_spec (h : Inv s) (hp : s.proc p = some pr) (ptr cookie : Nat) (alloc : Bool) :
    binderNewNode p ptr cookie alloc s = .ok (none, s) ∨
    binderNewNode p ptr cookie alloc s = .ok (some s.next, addNode p pr (newNode p ptr cookie) s) ∧
      Inv (addNode p pr (newNode p ptr cookie) s) := by
  simp only [binderNewNode, getProc_of hp, ok_bind]
  split
  · exact .inl rfl
  rename_i hk
  cases alloc with
  | false => exact .inl rfl
  | true => exact .inr ⟨rfl, h.addNode hp hk rfl rfl rfl (by simp [Node.Targets, newNode])⟩

theorem binderGetRefForNode_spec (h : Inv s) (hp : s.proc p = some pr) (hn : s.node n = some nd) (alloc : Bool) :
    (∃ x, binderGetRefForNode p n alloc s = .ok (x, s)) ∨
    ∃ d, binderGetRefForNode p n alloc s = .ok (some s.next, linkRef p pr n nd d s) ∧ Inv (linkRef p pr n nd d s) := by
  simp only [binderGetRefForNode, getProc_of hp, ok_bind]
  cases hf : pr.refsByNode.find n with
  | some r => exact .inl ⟨some r, rfl⟩
  | none =>
    cases alloc with
    | false => exact .inl ⟨none, rfl⟩
    | true =>
      have hd : pr.refsByDesc.find (nextDesc (descStart n s) pr.refsByDesc.entries) = none :=
        Table.find_eq_none.mpr (nextDesc_unused pr.refsByDesc.sorted)
      refine .inr ⟨_, ?_, h.linkRef hp hn hd hf⟩
      simp [addRef, getNode_of hn, hd, pure, Except.pure]

theorem Ref.inc_key : rf.SameKey (rf.inc strong) := by cases strong <;> exact ⟨rfl, rfl, rfl⟩

theorem Ref.dec_key : rf.SameKey (rf.dec strong) := by cases strong <;> exact ⟨rfl, rfl, rfl⟩

def recount (r : RefId) (rf : Ref) (nd : Node) (s : State) : State := setRef r (some rf) (setNode rf.node (some nd) s)

theorem binderIncRef_spec (h : Inv s) (hr : s.ref r = some rf) (hn : s.node rf.node = some nd)
    (ht : nd.Targets target) (hc : rf.count strong ≠ intMax)
    (hi : strong = true → nd.internalStrongRefs ≠ intMax) :
    binderIncRef r strong target s = .ok (.einval, s) ∨
    ∃ nd', binderIncRef r strong target s = .ok (.ok, recount r (rf.inc strong) nd' s) ∧
      Inv (recount r (rf.inc strong) nd' s) := by
  have h0 := h.nonneg hr
  have hnode : (rf.inc strong).node = rf.node := rf.inc_key.node
  have hpos : 0 ≤ (rf.inc strong).strong ∧ 0 ≤ (rf.inc strong).weak := by
    cases strong <;> grind [Ref.inc, Ref.count, incr_of_ne]
  simp only [binderIncRef, getRef_of hr, ok_bind, incNodeIfFirst, recount, hnode]
  by_cases hz : rf.count strong = 0
  · simp only [hz, ↓reduceIte, binderIncNode_of hn, ok_bind]
    rcases nd.inc_internal (s.contextMgrNode = some rf.node) strong target with he | ⟨w, hw, he⟩
    · rw [he]
      simp [setNode_self hn, pure, Except.pure]
    have hwork : nd.Targets w := (h.work hn).of_or ht hw
    rw [he]
    refine .inr ⟨_, rfl, h.changeCount hr hn _ _ rf.inc_key hpos rfl rfl rfl hwork ?_⟩
    cases strong <;> grind [Ref.inc, Ref.count, incr_of_ne, Bool.toNat_eq_one, Bool.toNat_eq_zero]
  · refine .inr ⟨nd, ?_, h.changeCount hr hn _ _ rf.inc_key hpos rfl rfl rfl (h.work hn) ?_⟩
    · simp [if_neg hz, setNode_self hn, pure, Except.pure]
    · cases strong <;> grind [Ref.inc, Ref.count, incr_of_ne, Bool.toNat_eq_one, Bool.toNat_eq_zero]

/-! ## References that lose a count -/

theorem binderDecNode_internal (hn : s.node n = some nd) (hhome : nd.Homed s) (hwork : nd.Targets nd.work)
    (hrefs : nd.refs ≠ []) :
    ∃ w, nd.Targets w ∧ binderDecNode n true true s =
      .ok ([], setNode n (some { nd with work := w, internalStrongRefs := decr nd.internalStrongRefs }) s) := by
  obtain ⟨o, x, hx, hf⟩ := binderDecNode_spec true true hn hhome hwork
  cases hf with
  | @kept w hw => exact ⟨w, hw, hx⟩
  | freed hu => exact absurd hu.1 hrefs

theorem Inv.internal_nonneg (h : Inv s) (hn : s.node n = some nd) : 0 ≤ nd.internalStrongRefs := by
  rw [h.internal hn]
  exact Int.natCast_nonneg _

theorem dropStrong_spec (h : Inv s) (hr : s.ref r = some rf) (hn : s.node rf.node = some nd) (s' : State)
    (hs : s'.node rf.node = some nd) (hhome : nd.Homed s') :
    ∃ w i, nd.Targets w ∧ i = nd.internalStrongRefs - (decide (0 < rf.strong)).toNat ∧
      dropStrong rf s' = .ok ([], setNode rf.node (some { nd with work := w, internalStrongRefs := i }) s') := by
  unfold dropStrong
  split
  next hne =>
    obtain ⟨x, hx, hmem⟩ := h.refNode hr
    cases hn.symm.trans hx
    obtain ⟨w, hw, he⟩ := binderDecNode_internal hs hhome (h.work hn) (List.ne_nil_of_mem hmem)
    refine ⟨w, _, hw, ?_, he⟩
    have hpos : 0 < rf.strong := lt_of_le_of_ne (h.nonneg hr).1 (Ne.symm hne)
    simp [hpos, decr_of_nonneg (h.internal_nonneg hn)]
  next hz =>
    refine ⟨nd.work, nd.internalStrongRefs, h.work hn, ?_, by rw [setNode_self hs]; rfl⟩
    simp [not_not.mp hz]

theorem settle_setNode {x y : Option Node} : settle n nd (setNode n y s) x = settle n nd s x := by
  cases x with
  | none => cases hp : nd.proc <;> simp [settle, removeNode, hp, setNode, setProc]
  | some z => exact setNode_setNode _ _

theorem setRef_settle {x : Option Node} {y : Option Ref} :
    setRef r y (settle n nd s x) = settle n nd (setRef r y s) x := by
  cases x with
  | none => cases hp : nd.proc <;> simp [settle, removeNode, hp, setNode, setProc, setRef]
  | some z => rfl

theorem Inv.unlinked {w : Option TodoList} {i : Int} (h : Inv s) (hr : s.ref r = some rf)
    (hn : s.node rf.node = some nd) (hp : s.proc rf.proc = some pr) (hw : nd.Targets w)
    (hi : i = nd.internalStrongRefs - (decide (0 < rf.strong)).toNat) :
    Inv (setNode rf.node (some { nd with work := w, internalStrongRefs := i, refs := nd.refs.erase r })
      (dropRef r rf pr s)) := by
  have hweak := h.changeCount hr hn { rf with strong := 0 } { nd with work := w, internalStrongRefs := i }
    ⟨rfl, rfl, rfl⟩ ⟨le_rfl, (h.nonneg hr).2⟩ rfl rfl rfl hw (by simpa using hi)
  have hinv := hweak.removeRef (r := r) (show _ = some { rf with strong := 0 } by simp [setRef_ref]) hp
    (show _ = some { nd with work := w, internalStrongRefs := i } by simp [setNode_node]) rfl
  simpa [Refs.removeRef, dropRef, setRef, setNode, setProc, Proc.eraseRef] using hinv

theorem Inv.deleteRef (h : Inv s) (hr : s.ref r = some rf) (hp : s.proc rf.proc = some pr) :
    ∃ o nd x, binderDeleteRef r s = .ok (o, settle rf.node nd (dropRef r rf pr s) x) ∧
      Frees Node.Unneeded s o (settle rf.node nd (dropRef r rf pr s) x) ∧
      Inv (settle rf.node nd (dropRef r rf pr s) x) := by
  obtain ⟨nd, hn, _⟩ := h.refNode hr
  have hhome : nd.Homed (setProc rf.proc (some (pr.eraseRef rf)) s) := by
    intro q hq
    have := h.homed hn q hq
    grind
  obtain ⟨w, i, hw, hi, hx⟩ := dropStrong_spec h hr hn (setProc rf.proc (some (pr.eraseRef rf)) s) hn hhome
  have hinv := h.unlinked hr hn hp hw hi
  have hnode : ∀ (y : Node) (t : State), (setNode rf.node (some y) t).node rf.node = some y := by
    simp [setNode_node]
  obtain ⟨o, x, hd, hf⟩ := binderDecNode_spec false true
    (hnode { nd with work := w, internalStrongRefs := i, refs := nd.refs.erase r }
      (setProc rf.proc (some (pr.eraseRef rf)) s)) hhome hw
  refine ⟨o, _, x, ?_, hf.frees rfl, settle_setNode ▸ hinv.settled (hnode _ _) hf rfl rfl rfl rfl⟩
  simp only [binderDeleteRef, getRef_of hr, getProc_of hp, ok_bind, hx, unlinkRef, getNode, setNode_node,
    ↓reduceIte, setNode_setNode, pure, Except.pure, List.nil_append, hd]
  rw [setRef_settle, setRef_setNode, settle_setNode, dropRef]

theorem decNodeIfLast_spec (h : Inv s) (hr : s.ref r = some rf) (hn : s.node rf.node = some nd)
    (hc : rf.count strong ≠ 0) :
    ∃ nd', decNodeIfLast strong (rf.dec strong) (setRef r (some (rf.dec strong)) s) =
        .ok ([], recount r (rf.dec strong) nd' s) ∧
      Inv (recount r (rf.dec strong) nd' s) := by
  have h0 := h.nonneg hr
  have hnode : (rf.dec strong).node = rf.node := rf.dec_key.node
  have hpos : 0 ≤ (rf.dec strong).strong ∧ 0 ≤ (rf.dec strong).weak := by
    cases strong <;> grind [Ref.dec, Ref.count, decr_of_nonneg]
  unfold decNodeIfLast recount
  rw [hnode]
  split
  next hz =>
    obtain ⟨rfl, hz⟩ := hz
    have hone : rf.strong = 1 := by grind [Ref.dec, decr_of_nonneg]
    obtain ⟨x, hx, hmem⟩ := h.refNode hr
    cases hn.symm.trans hx
    obtain ⟨w, hw, he⟩ := binderDecNode_internal (s := setRef r (some (rf.dec true)) s) hn (h.homed hn)
      (h.work hn) (List.ne_nil_of_mem hmem)
    refine ⟨_, he, h.changeCount hr hn _ _ rf.dec_key hpos rfl rfl rfl hw ?_⟩
    have hz' : (rf.dec true).strong = 0 := hz
    simp [hz', hone, decr_of_nonneg (h.internal_nonneg hn)]
  next hz =>
    refine ⟨nd, by rw [setNode_self hn]; rfl, h.changeCount hr hn _ _ rf.dec_key hpos rfl rfl rfl (h.work hn) ?_⟩
    cases strong <;> grind [Ref.dec, Ref.count, decr_of_nonneg, Bool.toNat_eq_one, Bool.toNat_eq_zero]

theorem Inv.decRef (h : Inv s) (hr : s.ref r = some rf) (strong : Bool) :
    ∃ st o s', binderDecRef r strong s = .ok (st, o, s') ∧ Frees Node.Unneeded s o s' ∧ Inv s' := by
  obtain ⟨nd, hn, _⟩ := h.refNode hr
  simp only [binderDecRef, getRef_of hr, ok_bind]
  by_cases hc : rf.count strong = 0
  · exact ⟨_, _, _, by rw [if_pos hc]; rfl, .refl, h⟩
  obtain ⟨nd', he, hinv⟩ := decNodeIfLast_spec h hr hn hc
  have hkeep : Frees Node.Unneeded s [] (recount r (rf.dec strong) nd' s) := .keepNode (t := setRef r _ s) rfl
  simp only [if_neg hc, he, ok_bind, deleteIfUnused, List.nil_append]
  split
  · have hr' : (recount r (rf.dec strong) nd' s).ref r = some (rf.dec strong) := by simp [recount, setRef_ref]
    obtain ⟨pr, hp⟩ := hinv.refProc hr'
    obtain ⟨o, nd, x, hx, hfree, hinv'⟩ := hinv.deleteRef hr' hp
    exact ⟨_, _, _, by rw [hx]; rfl, hkeep.trans hfree, hinv'⟩
  · exact ⟨_, _, _, rfl, hkeep, hinv⟩

end G3Mod.Binder.Refs
