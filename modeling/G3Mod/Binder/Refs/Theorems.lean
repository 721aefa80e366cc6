import G3Mod.Binder.Refs.Lemmas.Protocol

/-!
# Theorems on binder nodes and references
-/

namespace G3Mod.Binder.Refs

open Lib

variable {s s' : State} {p : ProcId} {n : NodeId} {nd : Node} {op : Op} {o : List Event}

/-! ## The operations -/

def Op.MayFree : Op → Node → Prop
  | .deferredRelease p => Node.Released p
  | _ => Node.Unneeded

def Returns (s : State) (f : Except Bug (List Event × State)) : Prop :=
  ∃ o s', f = .ok (o, s') ∧ Inv s' ∧ Frees Node.Unneeded s o s'

theorem addNode_frees {pr : Proc} {Q : Node → Prop} : Frees Q s [] (addNode p pr nd s) := by
  apply Frees.of_kept
  intro m x hm
  rw [addNode_node]
  split
  · simp
  · simp [hm]

section

variable (h : Inv s)

include h

theorem newNode_returns {ptr cookie : Nat} {alloc : Bool} (hp : s.proc p ≠ none) :
    Returns s (exec s (.newNode p ptr cookie alloc)) := by
  obtain ⟨pr, hp⟩ := Option.ne_none_iff_exists'.mp hp
  rcases binderNewNode_spec h hp ptr cookie alloc with hx | ⟨hx, hinv⟩
  · exact ⟨_, _, by simp only [exec, hx]; rfl, h, .refl⟩
  · exact ⟨_, _, by simp only [exec, hx]; rfl, hinv, addNode_frees⟩

theorem setContextMgr_returns {alloc : Bool} (hp : s.proc p ≠ none) :
    Returns s (exec s (.setContextMgr p alloc)) := by
  obtain ⟨pr, hp⟩ := Option.ne_none_iff_exists'.mp hp
  cases hc : s.contextMgrNode with
  | some m => exact ⟨_, _, by simp only [exec, setContextMgr, hc]; rfl, h, .refl⟩
  | none =>
    rcases binderNewNode_spec h hp 0 0 alloc with hx | ⟨hx, hinv⟩
    · exact ⟨_, _, by simp only [exec, setContextMgr, hc, hx]; rfl, h, .refl⟩
    have hn : (addNode p pr (newNode p 0 0) s).node s.next = some (newNode p 0 0) := by simp [addNode_node]
    refine ⟨_, _, by simp only [exec, setContextMgr, hc, hx, ok_bind, getNode_of hn]; rfl, ?_, ?_⟩
    · have hlinks : (newNode p 0 0).SameLinks (newNode p 0 0).manage :=
        ⟨rfl, rfl, rfl, rfl, by simp [Node.Targets, Node.manage, newNode]⟩
      exact (hinv.changeNode hn hlinks).setMgr _
    apply Frees.of_kept
    intro m x hm
    simp only [setNode_node, addNode_node]
    split
    · simp
    · simp [hm]

theorem getRefForNode_returns {alloc : Bool} (hp : s.proc p ≠ none) (hn : s.node n ≠ none) :
    Returns s (exec s (.getRefForNode p n alloc)) := by
  obtain ⟨pr, hp⟩ := Option.ne_none_iff_exists'.mp hp
  obtain ⟨nd, hn⟩ := Option.ne_none_iff_exists'.mp hn
  rcases binderGetRefForNode_spec h hp hn alloc with ⟨x, hx⟩ | ⟨d, hx, hinv⟩
  · exact ⟨_, _, by simp only [exec, hx]; rfl, h, .refl⟩
  refine ⟨_, _, by simp only [exec, hx]; rfl, hinv, .of_kept fun m x hm => ?_⟩
  rw [linkRef_node]
  split
  · simp
  · simp [hm]

theorem incRef_returns {r : RefId} {strong : Bool} {target : Option TodoList}
    (hop : (Op.incRef r strong target).Permitted s) (hov : (Op.incRef r strong target).NoOverflow s) :
    Returns s (exec s (.incRef r strong target)) := by
  obtain ⟨rf, hr, nd, hn, ht⟩ := hop
  obtain ⟨rf', hr', hc, hi⟩ := hov
  cases hr.symm.trans hr'
  have hi' : strong = true → nd.internalStrongRefs ≠ intMax := by simp_all
  rcases binderIncRef_spec h hr hn ht hc hi' with hx | ⟨nd', hx, hinv⟩
  · exact ⟨_, _, by simp only [exec, hx]; rfl, h, .refl⟩
  · exact ⟨_, _, by simp only [exec, hx]; rfl, hinv, .keepNode (t := setRef r _ s) rfl⟩

theorem decNode_returns (hn : s.node n ≠ none) (strong : Bool) :
    Returns s (binderDecNode n strong false s) := by
  obtain ⟨nd, hn⟩ := Option.ne_none_iff_exists'.mp hn
  obtain ⟨o, x, hx, hf, hinv⟩ := binderDecNode_local h hn strong
  exact ⟨_, _, hx, hinv, hf.frees rfl⟩

theorem workNode_returns (hop : (Op.workNode p n).Permitted s) : Returns s (workNode p n s) := by
  obtain ⟨nd, hn, l, hl, rfl⟩ := hop
  have hproc : nd.proc = some l.proc := h.work hn l hl
  simp only [Returns, workNode, getNode_of hn, ok_bind]
  cases hrep : nd.report with
  | some c =>
    refine ⟨_, _, rfl, h.changeNode hn (Node.report_links hrep (h.work hn)), ⟨fun hm hgone => ?_, by simp⟩⟩
    obtain ⟨_, he⟩ := (Frees.keepNode (Q := Node.Unneeded) rfl).seen hm hgone
    cases he
  | none =>
    simp only
    split
    next hu =>
      obtain ⟨pr, hp⟩ := h.nodeProc hn hproc
      have hunneeded := Node.unneeded_of_report hrep hu.1 hu.2
      have hinv := h.freeNode hn hunneeded.1
      rw [removeNode_of_proc hproc hp] at hinv
      refine ⟨_, _, by simp only [freeRead, getProc_of hp]; rfl, hinv, ?_⟩
      refine ⟨fun {m x} hm hgone => ?_, fun hev => ?_⟩
      · grind
      · cases List.mem_singleton.mp hev
        exact hunneeded
    · exact ⟨_, _, rfl, h.changeNode hn ⟨rfl, rfl, rfl, rfl, by simp [Node.Targets]⟩, .keepNode rfl⟩

theorem bcDone_returns {ptr cookie : Nat} {strong : Bool} (hp : s.proc p ≠ none) :
    Returns s (bcDone p ptr cookie strong s) := by
  obtain ⟨pr, hp⟩ := Option.ne_none_iff_exists'.mp hp
  simp only [Returns, bcDone, binderGetNode_of hp, ok_bind]
  cases hat : nodeAt s p ptr with
  | none => exact ⟨_, _, rfl, h, .refl⟩
  | some n =>
    obtain ⟨nd, hn, _⟩ := nodeKey_eq_some.mp (h.nodeAt.mp hat)
    simp only [acknowledge, getNode_of hn, ok_bind]
    split
    · have hinv : Inv (setNode n (some (nd.clearPending strong)) s) := by
        have hw := h.work hn
        apply h.changeNode hn
        cases strong <;> exact ⟨rfl, rfl, rfl, rfl, hw⟩
      obtain ⟨o, s', hx, hinv', hfree⟩ := decNode_returns (n := n) hinv (by simp [setNode_node]) strong
      have hkeep : Frees Node.Unneeded s [] (setNode n (some (nd.clearPending strong)) s) := .keepNode rfl
      exact ⟨o, s', hx, hinv', by simpa using hkeep.trans hfree⟩
    · exact ⟨_, _, rfl, h, .refl⟩

theorem exec_returns (hop : op.Permitted s) (hov : op.NoOverflow s) (hrel : ∀ p, op ≠ .deferredRelease p) :
    Returns s (exec s op) := by
  cases op with
  | openProc p =>
    refine ⟨_, _, rfl, h.changeEmptyProc (fun x hx => ?_) (fun x hx => ?_), .of_kept fun _ _ hn => by simp [hn]⟩
    · rw [show s.proc p = none from hop] at hx
      cases hx
    · cases hx
      exact ⟨fun _ => rfl, fun _ => rfl, fun _ => rfl⟩
  | setContextMgr p alloc => exact setContextMgr_returns h hop
  | newNode p ptr cookie alloc => exact newNode_returns h hop
  | getRefForNode p n alloc => exact getRefForNode_returns h hop.1 hop.2
  | incRef r strong target => exact incRef_returns h hop hov
  | decRef r strong =>
    obtain ⟨rf, hr⟩ := Option.ne_none_iff_exists'.mp hop
    obtain ⟨st, o, s', hx, hfree, hinv⟩ := h.decRef hr strong
    exact ⟨o, s', by simp only [exec, hx]; rfl, hinv, hfree⟩
  | deleteRef r =>
    obtain ⟨rf, hr⟩ := Option.ne_none_iff_exists'.mp hop
    obtain ⟨pr, hp⟩ := h.refProc hr
    obtain ⟨o, nd, x, hx, hfree, hinv⟩ := h.deleteRef hr hp
    exact ⟨o, _, hx, hinv, hfree⟩
  | incNode n strong target =>
    obtain ⟨nd, hn, ht⟩ := hop
    obtain ⟨st, w, hx, hinv⟩ := binderIncNode_local h hn ht strong
    exact ⟨_, _, by simp only [exec, hx]; rfl, hinv, .keepNode rfl⟩
  | decNode n strong => exact decNode_returns h hop strong
  | workNode p n => exact workNode_returns h hop
  | bcDone p ptr cookie strong => exact bcDone_returns h hop
  | setFiles p files =>
    obtain ⟨pr, hp⟩ := Option.ne_none_iff_exists'.mp hop
    exact ⟨_, _, by simp only [exec, setFiles, getProc_of hp]; rfl, h.changeFiles hp files,
      .of_kept fun _ _ hn => by simp [hn]⟩
  | threadExit p a => exact ⟨_, _, rfl, h.dropWork _, .dropWork _⟩
  | deferredRelease p => exact absurd rfl (hrel p)

theorem exec_step (hop : op.Permitted s) (hov : op.NoOverflow s) (hx : exec s op = .ok (o, s')) :
    Inv s' ∧ Frees op.MayFree s o s' := by
  by_cases hrel : ∃ p, op = .deferredRelease p
  · obtain ⟨p, rfl⟩ := hrel
    exact deferredRelease_spec h hx
  have hrel' : ∀ p, op ≠ .deferredRelease p := fun p e => hrel ⟨p, e⟩
  obtain ⟨o', t, hx', hinv, hfree⟩ := exec_returns h hop hov hrel'
  cases hx.symm.trans hx'
  refine ⟨hinv, hfree.mono fun nd hnd => ?_⟩
  cases op with
  | deferredRelease p => exact absurd rfl (hrel' p)
  | _ => exact hnd

end

theorem inv_of_reachable (h : machine.Reachable s) : Inv s := by
  apply h.invariant
  · rintro s rfl
    exact Inv.init
  · intro s op o s' hi he hx
    exact (exec_step hi he.1 he.2 hx).1

/-- If no counter overflows, `internal_strong_refs` counts the strong references and no node in use is freed. -/
theorem reference_graph_sound (h : machine.Reachable s) :
    (∀ n nd, s.node n = some nd → nd.internalStrongRefs = strongRefs s nd.refs) ∧
    (∀ p pr r, s.proc p = some pr → (∃ d, pr.refsByDesc.find d = some r) ∨ (∃ n, pr.refsByNode.find n = some r) →
      ∃ rf nd, s.ref r = some rf ∧ s.node rf.node = some nd ∧ r ∈ nd.refs) ∧
    ∀ op o s', op.Permitted s → op.NoOverflow s → exec s op = .ok (o, s') → Frees op.MayFree s o s' := by
  have hinv := inv_of_reachable h
  refine ⟨fun n nd hn => hinv.internal hn, fun p pr r hp hr => ?_, fun op o s' hop hov hx =>
    (exec_step hinv hop hov hx).2⟩
  have hkey : ∃ k, refKey s r = some k := by
    rcases hr with ⟨d, hd⟩ | ⟨n, hn⟩
    · obtain ⟨n, hk⟩ := hinv.refAt.mp ((refAt_of hp d).trans hd)
      exact ⟨_, hk⟩
    · obtain ⟨d, hk⟩ := hinv.refFor.mp ((refFor_of hp n).trans hn)
      exact ⟨_, hk⟩
  obtain ⟨k, hk⟩ := hkey
  obtain ⟨rf, hrf, _⟩ := refKey_eq_some.mp hk
  obtain ⟨nd, hn, hm⟩ := hinv.refNode hrf
  exact ⟨rf, nd, hrf, hn, hm⟩

def sharedOps : List Op :=
  [.openProc 0, .openProc 1, .newNode 0 7 8 true, .getRefForNode 1 0 true, .incRef 1 true (some ⟨0, some 0⟩)]

theorem sharedOps_sound : ∃ es s nd, machine.Run emptyState es s ∧ s.node 0 = some nd ∧
    nd.internalStrongRefs = 1 ∧ nd.internalStrongRefs = strongRefs s nd.refs := by
  have hr : machine.Run emptyState _ _ := Machine.run_of_execList sharedOps rfl
  exact ⟨_, _, _, hr, rfl, by decide, (reference_graph_sound ⟨_, _, rfl, hr⟩).1 0 _ rfl⟩

/-- A node that a buffer still counts on is freed with its process. -/
theorem release_frees_counted_node : ∃ es s o s' nd, machine.Run emptyState es s ∧
    (Op.deferredRelease 0).Permitted s ∧ exec s (.deferredRelease 0) = .ok (o, s') ∧
    .freed 0 nd ∈ o ∧ nd.localStrongRefs = 1 := by
  have hr : machine.Run emptyState _ _ :=
    Machine.run_of_execList [.openProc 0, .newNode 0 7 8 true, .incNode 0 true none] rfl
  exact ⟨_, _, _, _, _, hr, by decide, rfl, List.mem_singleton_self _, by decide⟩

theorem new_handle_least {pr : Proc} {alloc : Bool} {r : RefId} (hp : s.proc p = some pr)
    (hf : pr.refsByNode.find n = none) (hx : binderGetRefForNode p n alloc s = .ok (some r, s')) :
    ∃ rf, s'.ref r = some rf ∧ pr.refsByDesc.find rf.desc = none ∧ descStart n s ≤ rf.desc ∧
      (∀ d, descStart n s ≤ d → d < rf.desc → pr.refsByDesc.find d ≠ none) ∧
      rf.desc ≤ pr.refsByDesc.entries.length + 1 := by
  have hstart : descStart n s ≤ 1 := by
    unfold descStart
    split <;> omega
  rcases binderGetRefForNode_cases hx with ⟨_, hr⟩ | ⟨pr', nd, hp', hn, _, hd, hr, rfl⟩
  · rw [refFor_of hp, hf] at hr
    cases hr
  cases hp.symm.trans hp'
  cases hr
  refine ⟨_, (linkRef_ref _ _ _ _ _ _).trans (if_pos rfl), hd, start_le_nextDesc pr.refsByDesc.sorted hstart, ?_, ?_⟩
  · intro d hlo hlt hnone
    obtain ⟨e, he, rfl⟩ := nextDesc_least pr.refsByDesc.sorted hlo hlt
    exact Table.find_eq_none.mp hnone e he rfl
  · have := nextDesc_le (descStart n s) pr.refsByDesc.entries
    simp only
    omega

/-- The trees of a process agree, and a new reference gets the least unused descriptor. No `BUG()` is reached. -/
theorem handle_table_sound (h : fullMachine.Reachable s) :
    (∀ p pr, s.proc p = some pr →
      (∀ r, (∃ d, pr.refsByDesc.find d = some r) ↔ ∃ n, pr.refsByNode.find n = some r) ∧
      (∀ d r, pr.refsByDesc.find d = some r ↔ ∃ rf, s.ref r = some rf ∧ rf.proc = p ∧ rf.desc = d) ∧
      (∀ n r, pr.refsByNode.find n = some r ↔ ∃ rf, s.ref r = some rf ∧ rf.proc = p ∧ rf.node = n) ∧
      (∀ r r' rf rf', s.ref r = some rf → s.ref r' = some rf' → rf.proc = p → rf'.proc = p →
        rf.desc = rf'.desc ∨ rf.node = rf'.node → r = r') ∧
      ∀ n alloc r s', pr.refsByNode.find n = none → binderGetRefForNode p n alloc s = .ok (some r, s') →
        ∃ rf, s'.ref r = some rf ∧ pr.refsByDesc.find rf.desc = none ∧ descStart n s ≤ rf.desc ∧
          (∀ d, descStart n s ≤ d → d < rf.desc → pr.refsByDesc.find d ≠ none) ∧
          rf.desc ≤ pr.refsByDesc.entries.length + 1) ∧
    ∀ op d, exec s op ≠ .error (.descInUse d) := by
  have hinv := indexed_of_reachable h
  refine ⟨fun p pr hp => ?_, fun op d => exec_unbugged s op d⟩
  have hdesc : ∀ d r, pr.refsByDesc.find d = some r ↔ ∃ rf, s.ref r = some rf ∧ rf.proc = p ∧ rf.desc = d := by
    intro d r
    rw [← refAt_of hp, hinv.refAt]
    simp [refKey_eq_some]
  have hnode : ∀ n r, pr.refsByNode.find n = some r ↔ ∃ rf, s.ref r = some rf ∧ rf.proc = p ∧ rf.node = n := by
    intro n r
    rw [← refFor_of hp, hinv.refFor]
    simp [refKey_eq_some]
  refine ⟨fun r => ?_, hdesc, hnode, fun r r' rf rf' hr hr' hrp hrp' hsame => ?_, fun n alloc r s' hf hx =>
    new_handle_least hp hf hx⟩
  · simp [*]
  rcases hsame with e | e
  · have h1 := (hdesc _ r).mpr ⟨rf, hr, hrp, rfl⟩
    have h2 := (hdesc _ r').mpr ⟨rf', hr', hrp', e.symm⟩
    exact Option.some.inj (h1.symm.trans h2)
  · have h1 := (hnode _ r).mpr ⟨rf, hr, hrp, rfl⟩
    have h2 := (hnode _ r').mpr ⟨rf', hr', hrp', e.symm⟩
    exact Option.some.inj (h1.symm.trans h2)

def handleOps : List Op :=
  [.openProc 0, .openProc 1, .setContextMgr 0 true, .newNode 0 7 8 true, .newNode 0 9 8 true, .newNode 0 11 8 true,
    .getRefForNode 1 1 true, .getRefForNode 1 2 true, .getRefForNode 1 0 true, .deleteRef 4]

theorem handleOps_sound : ∃ es s pr, fullMachine.Run emptyState es s ∧ s.proc 1 = some pr ∧
    pr.refsByDesc.entries = [(0, 6), (2, 5)] ∧
    ∀ r s', binderGetRefForNode 1 3 true s = .ok (some r, s') → ∃ rf, s'.ref r = some rf ∧ 1 ≤ rf.desc ∧
      ∀ d, 1 ≤ d → d < rf.desc → pr.refsByDesc.find d ≠ none := by
  have hr : fullMachine.Run emptyState _ _ := Machine.run_of_execList handleOps rfl
  refine ⟨_, _, _, hr, rfl, by decide, fun r s' hx => ?_⟩
  obtain ⟨rf, h1, _, h2, h3, _⟩ := ((handle_table_sound ⟨_, _, rfl, hr⟩).1 1 _ rfl).2.2.2.2 3 true r s' (by decide) hx
  exact ⟨rf, h1, h2, h3⟩

/-- If no `put_user` fails, the commands for a node are a prefix of `(INCREFS (ACQUIRE RELEASE)* DECREFS)*`. -/
theorem node_commands_bracketed {es : List (ReadOp × List Event)} (h : cleanMachine.Run emptyState es s) :
    (∀ n nd, s.node n = some nd → nd.proc ≠ none →
      (∃ cs, Rounds (commandsFor n es ++ cs)) ∧ (nd.hasStrongRef = true → nd.hasWeakRef = true)) ∧
    ∀ p n o s', cleanMachine.enabled s (.call (.workNode p n)) → exec s (.workNode p n) = .ok (o, s') → s'.node n = none →
      commandsFor n es = [] ∨ (commandsFor n es).getLast? = some .decrefs := by
  have hinv := told_of_run h
  refine ⟨fun n nd hn hp => ?_, fun p n o s' he hx hgone => ?_⟩
  · rcases hinv.live hn hp with ⟨_, hnil, _, hw⟩ | hst
    · exact ⟨⟨[], by rw [hnil]; exact .nil⟩, fun _ => hw⟩
    refine ⟨hst.rounds, fun hs => ?_⟩
    cases hw : nd.hasWeakRef with
    | true => rfl
    | false =>
      rw [hw, hs] at hst
      exact hst.elim
  obtain ⟨nd, hn, l, hl, rfl⟩ := he.1
  have hlive : nd.proc ≠ none := by
    rw [hinv.indexed.work hn l hl]
    exact Option.some_ne_none _
  simp only [exec, workNode, getNode_of hn, ok_bind] at hx
  split at hx
  · cases hx
    simp [setNode_node] at hgone
  rename_i hrep
  split at hx
  next hu =>
    obtain ⟨hs, hw⟩ := Node.report_unheld hrep hu.1 hu.2
    rcases hinv.live hn hlive with ⟨_, hnil, _⟩ | hst
    · exact .inl hnil
    · rw [hs, hw] at hst
      exact Rounds.last hst
  · cases hx
    simp [setNode_node] at hgone

def toldOps : List ReadOp :=
  (sharedOps.map ReadOp.call) ++ [.call (.workNode 0 0), .call (.workNode 0 0)]

theorem toldOps_bracketed : ∃ es s, cleanMachine.Run emptyState es s ∧ commandsFor 0 es = [.increfs, .acquire] ∧
    ∃ cs, Rounds ([.increfs, .acquire] ++ cs) := by
  have hr : cleanMachine.Run emptyState _ _ := Machine.run_of_execList toldOps rfl
  exact ⟨_, _, hr, rfl, ((node_commands_bracketed hr).1 0 _ rfl nofun).1⟩

/-- The first command is lost, and the process is told to `ACQUIRE` a node that it never heard of. -/
theorem fault_loses_increfs : ∃ es s, readMachine.Run emptyState es s ∧ s.node 0 ≠ none ∧
    commandsFor 0 es = [.acquire] ∧ ∀ cs, ¬ Rounds ([.acquire] ++ cs) := by
  have hr : readMachine.Run emptyState _ _ :=
    Machine.run_of_execList (sharedOps.map ReadOp.call ++ [.workNodeFault 0 0, .call (.workNode 0 0)]) rfl
  refine ⟨_, _, hr, nofun, rfl, fun cs h => ?_⟩
  cases h

end G3Mod.Binder.Refs
