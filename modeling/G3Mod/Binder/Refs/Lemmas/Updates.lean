import G3Mod.Binder.Refs.Lemmas.Steps

/-!
# What is freed, and the release of a process
-/

namespace G3Mod.Binder.Refs

open Function Lib

variable {s s' s'' t : State} {p : ProcId} {n : NodeId} {r : RefId} {nd nd' : Node} {rf : Ref} {pr : Proc}
  {o o' : List Event} {x : Option Node} {strong : Bool} {Q Q' : Node → Prop}

/-! ## Reports to the process -/

theorem Node.report_links {c : Command} {nd' : Node} (h : nd.report = some (c, nd')) (hw : nd.Targets nd.work) :
    nd.SameLinks nd' := by
  unfold Node.report at h
  split_ifs at h <;> cases h <;> exact ⟨rfl, rfl, rfl, rfl, hw⟩

theorem Node.unneeded_of_report (h : nd.report = none) (hw : nd.weak = false) (hs : nd.strong = false) :
    nd.Unneeded := by
  grind [Node.report, Node.weak, Node.strong, Node.Unneeded]

theorem releaseNode_spec (h : Inv s) (hp : s.proc p = some pr) {e : Nat × NodeId} (he : pr.nodes.first = some e) :
    ∃ o s', releaseNode p e.1 e.2 s = .ok (o, s') ∧ Inv s' ∧
      Frees (fun nd => nd.refs = [] ∧ nd.proc = some p) s o s' ∧
      s'.proc p = some { pr with nodes := pr.nodes.erase e.1 } := by
  obtain ⟨k, n⟩ := e
  have hat : nodeAt s p k = some n := (nodeAt_of hp k).trans (Table.find_of_first he)
  obtain ⟨nd, hn, hproc, hptr⟩ := nodeKey_eq_some.mp (h.nodeAt.mp hat)
  subst hptr
  simp only [releaseNode, getProc_of hp, getNode_of hn, ok_bind]
  split
  next hnil =>
    have hinv := h.freeNode hn hnil
    rw [removeNode_of_proc hproc hp] at hinv
    refine ⟨_, _, rfl, hinv, ⟨fun {m y} hm hgone => ?_, fun hev => ?_⟩, by simp [setProc_proc]⟩
    · grind
    · cases List.mem_singleton.mp hev
      exact ⟨hnil, hproc⟩
  · have hkill := h.killNode hn hproc hp { nd with
      work := none, proc := none, localStrongRefs := 0, localWeakRefs := 0 } rfl rfl rfl rfl
    exact ⟨_, _, rfl, hkill, .keepNode rfl, by simp [setProc_proc]⟩

theorem releaseNodes_spec {fuel : Nat} (h : Inv s) (hp : s.proc p = some pr)
    (hfuel : pr.nodes.entries.length ≤ fuel) :
    ∃ o s' pr', releaseNodes p fuel s = .ok (o, s') ∧ Inv s' ∧
      Frees (fun nd => nd.refs = [] ∧ nd.proc = some p) s o s' ∧
      s'.proc p = some pr' ∧ pr'.nodes.first = none ∧ pr'.refsByDesc = pr.refsByDesc := by
  induction fuel generalizing s pr with
  | zero =>
    have hnil : pr.nodes.first = none := by
      simpa [Table.first] using List.length_eq_zero_iff.mp (Nat.le_zero.mp hfuel)
    exact ⟨[], s, pr, by simp [releaseNodes, getProc_of hp, hnil, pure, Except.pure], h, .refl, hp, hnil, rfl⟩
  | succ fuel ih =>
    cases he : pr.nodes.first with
    | none => exact ⟨[], s, pr, by simp [releaseNodes, getProc_of hp, he, pure, Except.pure], h, .refl, hp, he, rfl⟩
    | some e =>
      obtain ⟨o, s1, hx, hinv, hfree, hp1⟩ := releaseNode_spec h hp he
      have hlen := Table.length_erase_first he
      obtain ⟨o', s2, pr', hx', hinv', hfree', hp', hnil, hrefs⟩ := ih hinv hp1 (by simp only; omega)
      refine ⟨o ++ o', s2, pr', ?_, hinv', hfree.trans hfree', hp', hnil, hrefs⟩
      simp [releaseNodes, getProc_of hp, he, hx, hx', pure, Except.pure]

theorem settle_proc {q : ProcId} (hq : t.proc q = some pr) (n : NodeId) (nd : Node) (x : Option Node) :
    ∃ pr', (settle n nd t x).proc q = some pr' ∧ pr'.refsByDesc = pr.refsByDesc ∧ pr'.files = pr.files ∧
      (pr.nodes.first = none → pr'.nodes.first = none) := by
  cases x with
  | some y => exact ⟨pr, hq, rfl, rfl, id⟩
  | none =>
    cases hp : nd.proc with
    | none => exact ⟨pr, by simpa [settle, removeNode, hp] using hq, rfl, rfl, id⟩
    | some p =>
      by_cases e : q = p
      · subst e
        refine ⟨{ pr with nodes := pr.nodes.erase nd.ptr }, ?_, rfl, rfl, fun hnil => ?_⟩
        · simp [settle, removeNode, hp, hq, setProc_proc]
        · have hentries : pr.nodes.entries = [] := List.head?_eq_none_iff.mp hnil
          simp [Table.first, Table.erase, hentries]
      · exact ⟨pr, by simpa [settle, removeNode, hp, setProc_proc, e] using hq, rfl, rfl, id⟩

theorem releaseRefs_spec (fuel : Nat) (h : Inv s) (hp : s.proc p = some pr) (hnil : pr.nodes.first = none)
    (hfuel : pr.refsByDesc.entries.length ≤ fuel) :
    ∃ o s' pr', releaseRefs p fuel s = .ok (o, s') ∧ Inv s' ∧ Frees Node.Unneeded s o s' ∧
      s'.proc p = some pr' ∧ pr'.nodes.first = none ∧ pr'.refsByDesc.first = none := by
  induction fuel generalizing s pr with
  | zero =>
    have he : pr.refsByDesc.first = none := by
      simpa [Table.first] using List.length_eq_zero_iff.mp (Nat.le_zero.mp hfuel)
    exact ⟨[], s, pr, by simp [releaseRefs, getProc_of hp, he, pure, Except.pure], h, .refl, hp, hnil, he⟩
  | succ fuel ih =>
    cases he : pr.refsByDesc.first with
    | none => exact ⟨[], s, pr, by simp [releaseRefs, getProc_of hp, he, pure, Except.pure], h, .refl, hp, hnil, he⟩
    | some e =>
      have hat : refAt s p e.1 = some e.2 := by rw [refAt_of hp, Table.find_of_first he]
      obtain ⟨m, hkey⟩ := h.refAt.mp hat
      obtain ⟨rf, hr, rfl, _, hdesc⟩ := refKey_eq_some.mp hkey
      obtain ⟨o, nd, x, hx, hfree, hinv⟩ := h.deleteRef hr hp
      have hq : (dropRef e.2 rf pr s).proc rf.proc = some (pr.eraseRef rf) := by simp [dropRef, setProc_proc]
      obtain ⟨pr1, hp1, hrefs1, _, hnil1⟩ := settle_proc hq rf.node nd x
      have hlen := Table.length_erase_first he
      have hle : pr1.refsByDesc.entries.length ≤ fuel := by
        rw [hrefs1]
        simp only [Proc.eraseRef, hdesc]
        omega
      obtain ⟨o', s2, pr', hx', hinv', hfree', hp', hnil', hdone⟩ := ih hinv hp1 (hnil1 hnil) hle
      refine ⟨o ++ o', s2, pr', ?_, hinv', hfree.trans hfree', hp', hnil', hdone⟩
      simp [releaseRefs, getProc_of hp, he, hx, hx', pure, Except.pure]

theorem Inv.dropWork (h : Inv s) (gone : TodoList → Bool) : Inv (releaseWork gone s) := by
  apply h.mapNodes
  intro n nd hn
  split
  · exact ⟨rfl, rfl, rfl, rfl, by simp [Node.Targets]⟩
  · exact ⟨rfl, rfl, rfl, rfl, h.work hn⟩

theorem Frees.dropWork (gone : TodoList → Bool) : Frees Q s [] (releaseWork gone s) := by
  apply Frees.of_kept
  intro n nd hn
  simp [releaseWork, hn]

theorem forgetContextMgr_cases (h : forgetContextMgr p s = .ok s') : s' = s ∨
    (∃ n nd, s.contextMgrNode = some n ∧ s.node n = some nd ∧ nd.proc = some p) ∧
      s' = { s with contextMgrNode := none } := by
  unfold forgetContextMgr at h
  split at h
  · cases h
    exact .inl rfl
  obtain ⟨nd, hn, h⟩ := bind_ok h
  have hn := getNode_ok hn
  cases h
  grind

/-- What may be freed when `p` is released: its own nodes without references, and what nobody needs. -/
def Node.Released (p : ProcId) (nd : Node) : Prop := nd.Unneeded ∨ nd.refs = [] ∧ nd.proc = some p

theorem deferredRelease_spec (h : Inv s) (hx : deferredRelease p s = .ok (o, s')) :
    Inv s' ∧ Frees (Node.Released p) s o s' := by
  obtain ⟨pr, hp, hx⟩ := bind_ok hx
  obtain ⟨s1, hmgr, hx⟩ := bind_ok hx
  have hpr := getProc_ok hp
  obtain ⟨hinv1, hnode1, hproc1⟩ : Inv s1 ∧ s1.node = s.node ∧ s1.proc = s.proc := by
    rcases forgetContextMgr_cases hmgr with rfl | ⟨_, rfl⟩
    · exact ⟨h, rfl, rfl⟩
    · exact ⟨h.setMgr none, rfl, rfl⟩
  have hpr1 : (releaseWork (fun l => l.proc = p ∧ l.thread ≠ none) s1).proc p = some pr := hproc1 ▸ hpr
  obtain ⟨o1, s2, pr2, hx2, hinv2, hfree2, hp2, hnil2, hrefs2⟩ :=
    releaseNodes_spec (hinv1.dropWork (fun l => l.proc = p ∧ l.thread ≠ none)) hpr1 le_rfl
  obtain ⟨o2, s3, pr3, hx3, hinv3, hfree3, hp3, hnil3, hdone3⟩ :=
    releaseRefs_spec pr.refsByDesc.entries.length hinv2 hp2 hnil2 (by rw [hrefs2])
  rw [hx2, ok_bind, hx3, ok_bind] at hx
  cases hx
  have hinv4 := hinv3.dropWork (fun l => l.proc = p ∧ l.thread = none)
  constructor
  · refine hinv4.changeEmptyProc (fun y hy => ?_) (by simp)
    cases hp3.symm.trans hy
    exact hinv3.toTables.empty_proc hp3 hnil3 hdone3
  have hstart : Frees (Node.Released p) s [] (releaseWork (fun l => l.proc = p ∧ l.thread ≠ none) s1) := by
    have := Frees.dropWork (Q := Node.Released p) (s := s1) (fun l => l.proc = p ∧ l.thread ≠ none)
    exact ⟨fun hn hgone => this.seen (hnode1 ▸ hn) hgone, this.right⟩
  have hend : Frees (Node.Released p) s3 []
      (setProc p none (releaseWork (fun l => l.proc = p ∧ l.thread = none) s3)) :=
    ⟨fun hn hgone => (Frees.dropWork (Q := Node.Released p) _).seen hn hgone, fun he => by cases he⟩
  have hall := ((hstart.trans (hfree2.mono fun _ => .inr)).trans (hfree3.mono fun _ => .inl)).trans hend
  simpa using hall

/-! # What the functions can do to the heaps, whatever the counts are -/

structure Node.SameHold (nd nd' : Node) : Prop where
  proc : nd'.proc = nd.proc
  ptr : nd'.ptr = nd.ptr
  cookie : nd'.cookie = nd.cookie
  strong : nd'.hasStrongRef = nd.hasStrongRef
  weak : nd'.hasWeakRef = nd.hasWeakRef
  work : nd.Targets nd.work → nd'.Targets nd'.work

theorem Node.SameHold.refl (nd : Node) : nd.SameHold nd := ⟨rfl, rfl, rfl, rfl, rfl, id⟩

def Node.Unheld (nd : Node) : Prop := nd.proc = none ∨ nd.hasStrongRef = false ∧ nd.hasWeakRef = false

inductive Update (s : State) : State → Prop
  | node {n : NodeId} {nd nd' : Node} (hn : s.node n = some nd) (h : nd.SameHold nd') : Update s (setNode n (some nd') s)
  | free {n : NodeId} {nd : Node} (hn : s.node n = some nd) (h : nd.Unheld) : Update s (removeNode n nd s)
  | count {r : RefId} {rf rf' : Ref} (hr : s.ref r = some rf) (h : rf.SameKey rf') : Update s (setRef r (some rf') s)
  | link {p : ProcId} {pr : Proc} {n : NodeId} {nd : Node} {d : Nat} (hp : s.proc p = some pr) (hn : s.node n = some nd)
      (hd : pr.refsByDesc.find d = none) (hf : pr.refsByNode.find n = none) : Update s (linkRef p pr n nd d s)
  | drop {r : RefId} {rf : Ref} {pr : Proc} (hr : s.ref r = some rf) (hp : s.proc rf.proc = some pr) :
      Update s (dropRef r rf pr s)
  | files {p : ProcId} {pr : Proc} (hp : s.proc p = some pr) (l : List Nat) :
      Update s (setProc p (some { pr with files := l }) s)

abbrev Updates : State → State → Prop := Relation.ReflTransGen Update

variable {s s' t : State} {p q : ProcId} {n m : NodeId} {r u : RefId} {nd nd' : Node} {rf rf' : Ref} {pr : Proc}
  {strong internal : Bool} {target : Option TodoList} {o : List Event}

theorem Update.updates (h : Update s s') : Updates s s' := .single h

/-! ## The functions -/

theorem Node.dec_hold (strong internal : Bool) (nd : Node) : nd.SameHold (nd.dec strong internal) := by
  cases strong <;> cases internal <;> exact ⟨rfl, rfl, rfl, rfl, rfl, id⟩

theorem Node.inc_hold (mgr strong internal : Bool) (ht : nd.Targets target) :
    nd.SameHold (nd.inc mgr strong internal target).2 := by
  cases internal with
  | false =>
    obtain ⟨w, hw, he⟩ := nd.inc_local mgr strong target
    rw [he]
    cases strong <;> exact ⟨rfl, rfl, rfl, rfl, rfl, fun h => h.of_or ht hw⟩
  | true =>
    rcases nd.inc_internal mgr strong target with he | ⟨w, hw, he⟩
    · rw [he]
      exact .refl nd
    · rw [he]
      exact ⟨rfl, rfl, rfl, rfl, rfl, fun h => h.of_or ht hw⟩

theorem binderIncNode_update {st : Status} (ht : ∀ nd, s.node n = some nd → nd.Targets target)
    (h : binderIncNode n strong internal target s = .ok (st, s')) : Update s s' := by
  obtain ⟨nd, hn, h⟩ := bind_ok h
  have hn := getNode_ok hn
  cases h
  exact .node hn (Node.inc_hold _ _ _ (ht nd hn))

theorem freeNode_update (hn : s.node n = some nd) (hu : nd.Unheld) (hp : nd'.proc = nd.proc) (hk : nd'.ptr = nd.ptr)
    (h : freeNode n nd' s = .ok (o, s')) : Update s s' := by
  have he : s' = removeNode n nd s := by
    cases hproc : nd.proc with
    | none =>
      simp only [freeNode, hp, hproc] at h
      cases h
      simp [removeNode, hproc]
    | some p =>
      simp only [freeNode, hp, hk, hproc] at h
      obtain ⟨pr, hpr, h⟩ := bind_ok h
      cases h
      rw [removeNode_of_proc hproc (getProc_ok hpr)]
  rw [he]
  exact .free hn hu

theorem freeUnused_update (hn : s.node n = some nd) (hh : nd.SameHold nd') (hu : nd.Unheld)
    (h : freeUnused n nd' s = .ok (o, s')) : Update s s' := by
  unfold freeUnused at h
  split at h
  · refine freeNode_update hn hu ?_ ?_ h
    · exact hh.proc
    · exact hh.ptr
  · cases h
    exact .node hn hh

theorem dropNode_update (hn : s.node n = some nd) (hh : nd.SameHold nd') (h : dropNode n nd' s = .ok (o, s')) :
    Update s s' := by
  unfold dropNode at h
  split at h
  next p hproc =>
    split at h
    · cases h
      refine .node hn ⟨hh.proc, hh.ptr, hh.cookie, hh.strong, hh.weak, fun hw l hl => ?_⟩
      have := hh.work hw l
      cases hwork : nd'.work <;> grind
    next hhas =>
      refine freeUnused_update hn hh (.inr ?_) h
      simpa [← hh.strong, ← hh.weak] using hhas
  · next hproc => exact freeUnused_update hn hh (.inl (hh.proc ▸ hproc)) h

theorem binderDecNode_update (h : binderDecNode n strong internal s = .ok (o, s')) : Update s s' := by
  obtain ⟨nd, hn, h⟩ := bind_ok h
  have hn := getNode_ok hn
  split at h
  · cases h
    exact .node hn (nd.dec_hold strong internal)
  · exact dropNode_update hn (nd.dec_hold strong internal) h

theorem binderDecNode_setRef (x : Option Ref) : binderDecNode n strong internal (setRef r x s) =
    (binderDecNode n strong internal s).map fun y => (y.1, setRef r x y.2) := by
  have hfree : ∀ nd, freeUnused n nd (setRef r x s) = (freeUnused n nd s).map fun y => (y.1, setRef r x y.2) := by
    intro nd
    unfold freeUnused
    split
    · unfold freeNode
      cases hp : nd.proc with
      | none => rfl
      | some p =>
        simp only [getProc, setRef_proc]
        cases s.proc p <;> rfl
    · rfl
  simp only [binderDecNode, getNode, setRef_node]
  cases s.node n with
  | none => rfl
  | some nd =>
    simp only [ok_bind]
    split
    · rfl
    unfold dropNode
    split
    · split
      · rfl
      · exact hfree _
    · exact hfree _

theorem binderNewNode_cases {ptr cookie : Nat} {alloc : Bool} {x : Option NodeId}
    (h : binderNewNode p ptr cookie alloc s = .ok (x, s')) :
    (x = none ∧ s' = s) ∨ ∃ pr, s.proc p = some pr ∧ pr.nodes.find ptr = none ∧ x = some s.next ∧
      s' = addNode p pr (newNode p ptr cookie) s := by
  obtain ⟨pr, hp, h⟩ := bind_ok h
  split at h
  · cases h
    exact .inl ⟨rfl, rfl⟩
  rename_i hk
  cases alloc with
  | false => cases h; exact .inl ⟨rfl, rfl⟩
  | true => cases h; exact .inr ⟨pr, getProc_ok hp, hk, rfl, rfl⟩

theorem binderGetRefForNode_cases {alloc : Bool} {x : Option RefId}
    (h : binderGetRefForNode p n alloc s = .ok (x, s')) :
    (s' = s ∧ x = refFor s p n) ∨ ∃ pr nd, s.proc p = some pr ∧ s.node n = some nd ∧ pr.refsByNode.find n = none ∧
      pr.refsByDesc.find (nextDesc (descStart n s) pr.refsByDesc.entries) = none ∧ x = some s.next ∧
      s' = linkRef p pr n nd (nextDesc (descStart n s) pr.refsByDesc.entries) s := by
  obtain ⟨pr, hp, h⟩ := bind_ok h
  have hp := getProc_ok hp
  split at h
  next hf =>
    cases h
    exact .inl ⟨rfl, by rw [refFor_of hp, hf]⟩
  rename_i hf
  cases alloc with
  | false =>
    cases h
    exact .inl ⟨rfl, by rw [refFor_of hp, hf]⟩
  | true =>
    obtain ⟨nd, hn, h⟩ := bind_ok h
    split at h
    · cases h
    next hd =>
      cases h
      exact .inr ⟨pr, nd, hp, getNode_ok hn, hf, hd, rfl, rfl⟩

theorem binderGetRefForNode_updates {alloc : Bool} {x : Option RefId}
    (h : binderGetRefForNode p n alloc s = .ok (x, s')) : Updates s s' := by
  rcases binderGetRefForNode_cases h with ⟨rfl, _⟩ | ⟨pr, nd, hp, hn, hf, hd, _, rfl⟩
  · exact .refl
  · exact (Update.link hp hn hd hf).updates

theorem binderIncRef_updates {st : Status}
    (ht : ∀ rf nd, s.ref r = some rf → s.node rf.node = some nd → nd.Targets target)
    (h : binderIncRef r strong target s = .ok (st, s')) : Updates s s' := by
  obtain ⟨rf, hr, h⟩ := bind_ok h
  have hr := getRef_ok hr
  obtain ⟨⟨st', s1⟩, hx, h⟩ := bind_ok h
  have hup : Updates s s1 ∧ s1.ref r = some rf := by
    unfold incNodeIfFirst at hx
    split at hx
    · refine ⟨(binderIncNode_update (fun nd => ht rf nd hr) hx).updates, ?_⟩
      obtain ⟨nd, _, hx⟩ := bind_ok hx
      cases hx
      exact hr
    · cases hx
      exact ⟨.refl, hr⟩
  cases st' with
  | einval => cases h; exact hup.1
  | ok => cases h; exact hup.1.tail (.count hup.2 rf.inc_key)

theorem dropStrong_setRef (x : Option Ref) : dropStrong rf (setRef r x s) =
    (dropStrong rf s).map fun y => (y.1, setRef r x y.2) := by
  unfold dropStrong
  split
  · exact binderDecNode_setRef x
  · rfl

theorem dropStrong_updates (h : dropStrong rf s = .ok (o, s')) : Updates s s' := by
  unfold dropStrong at h
  split at h
  · exact (binderDecNode_update h).updates
  · cases h
    exact .refl

theorem unlinkRef_update (h : unlinkRef r n s = .ok s') : Update s s' := by
  obtain ⟨nd, hn, h⟩ := bind_ok h
  cases h
  exact .node (getNode_ok hn) ⟨rfl, rfl, rfl, rfl, rfl, id⟩

theorem binderDeleteRef_updates (h : binderDeleteRef r s = .ok (o, s')) : ∃ rf pr, s.ref r = some rf ∧
    s.proc rf.proc = some pr ∧ Updates (dropRef r rf pr s) s' := by
  obtain ⟨rf, hr, h⟩ := bind_ok h
  obtain ⟨pr, hp, h⟩ := bind_ok h
  obtain ⟨⟨o1, s1⟩, hx, h⟩ := bind_ok h
  obtain ⟨s2, hu, h⟩ := bind_ok h
  obtain ⟨⟨o2, s3⟩, hy, h⟩ := bind_ok h
  cases h
  refine ⟨rf, pr, getRef_ok hr, getProc_ok hp, ?_⟩
  have h1 : Updates (dropRef r rf pr s) (setRef r none s1) := by
    have hdrop : dropStrong rf (dropRef r rf pr s) = .ok (o1, setRef r none s1) := by
      rw [dropRef, dropStrong_setRef, hx]
      rfl
    exact dropStrong_updates hdrop
  have h2 : Update (setRef r none s1) (setRef r none s2) := by
    apply unlinkRef_update (r := r) (n := rf.node)
    obtain ⟨nd, hn, hu⟩ := bind_ok hu
    cases hu
    simp only [unlinkRef, getNode_of (show (setRef r none s1).node rf.node = some nd from getNode_ok hn), ok_bind]
    rfl
  have h3 : Update (setRef r none s2) (setRef r none s3) := by
    apply binderDecNode_update (o := o2)
    rw [binderDecNode_setRef, hy]
    rfl
  exact (h1.tail h2).tail h3

theorem binderDeleteRef_run (h : binderDeleteRef r s = .ok (o, s')) : Updates s s' := by
  obtain ⟨rf, pr, hr, hp, hup⟩ := binderDeleteRef_updates h
  exact .head (.drop hr hp) hup

theorem decNodeIfLast_updates (h : decNodeIfLast strong rf s = .ok (o, s')) : Updates s s' := by
  unfold decNodeIfLast at h
  split at h
  · exact (binderDecNode_update h).updates
  · cases h
    exact .refl

theorem binderDecRef_updates {st : Status} (h : binderDecRef r strong s = .ok (st, o, s')) : Updates s s' := by
  obtain ⟨rf, hr, h⟩ := bind_ok h
  have hr := getRef_ok hr
  split at h
  · cases h
    exact .refl
  obtain ⟨⟨o1, s1⟩, hx, h⟩ := bind_ok h
  obtain ⟨⟨o2, s2⟩, hy, h⟩ := bind_ok h
  cases h
  have h1 : Updates s s1 := .head (.count hr rf.dec_key) (decNodeIfLast_updates hx)
  unfold deleteIfUnused at hy
  split at hy
  · exact h1.trans (binderDeleteRef_run hy)
  · cases hy
    exact h1

def Op.Special : Op → Prop
  | .openProc _ | .setContextMgr _ _ | .newNode _ _ _ _ | .workNode _ _ | .threadExit _ _ | .deferredRelease _ => True
  | _ => False

theorem acknowledge_updates {cookie : Nat} (h : acknowledge n cookie strong s = .ok (o, s')) : Updates s s' := by
  obtain ⟨nd, hn, h⟩ := bind_ok h
  split at h
  · have hh : nd.SameHold (nd.clearPending strong) := by cases strong <;> exact ⟨rfl, rfl, rfl, rfl, rfl, id⟩
    exact .head (.node (getNode_ok hn) hh) (binderDecNode_update h).updates
  · cases h
    exact .refl

theorem bcDone_updates {ptr cookie : Nat} (h : bcDone p ptr cookie strong s = .ok (o, s')) : Updates s s' := by
  obtain ⟨x, _, h⟩ := bind_ok h
  cases x with
  | none => cases h; exact .refl
  | some n => exact acknowledge_updates h

theorem exec_updates {op : Op} (hop : op.Permitted s) (hx : exec s op = .ok (o, s')) : Updates s s' ∨ op.Special := by
  cases op with
  | getRefForNode p n alloc =>
    obtain ⟨⟨x, s1⟩, h1, hx⟩ := bind_ok hx
    cases hx
    exact .inl (binderGetRefForNode_updates h1)
  | incRef r strong target =>
    obtain ⟨⟨st, s1⟩, h1, hx⟩ := bind_ok hx
    cases hx
    refine .inl (binderIncRef_updates (fun rf nd hr hn => ?_) h1)
    obtain ⟨rf', hr', nd', hn', ht⟩ := hop
    grind
  | decRef r strong =>
    obtain ⟨⟨st, o1, s1⟩, h1, hx⟩ := bind_ok hx
    cases hx
    exact .inl (binderDecRef_updates h1)
  | deleteRef r => exact .inl (binderDeleteRef_run hx)
  | incNode n strong target =>
    obtain ⟨⟨st, s1⟩, h1, hx⟩ := bind_ok hx
    cases hx
    refine .inl (binderIncNode_update (fun nd hn => ?_) h1).updates
    obtain ⟨nd', hn', ht⟩ := hop
    grind
  | decNode n strong => exact .inl (binderDecNode_update hx).updates
  | bcDone p ptr cookie strong => exact .inl (bcDone_updates hx)
  | setFiles p files =>
    obtain ⟨s1, h1, hx⟩ := bind_ok hx
    cases hx
    obtain ⟨pr, hp, h1⟩ := bind_ok h1
    cases h1
    exact .inl (Update.files (getProc_ok hp) files).updates
  | _ => exact .inr trivial

end G3Mod.Binder.Refs
