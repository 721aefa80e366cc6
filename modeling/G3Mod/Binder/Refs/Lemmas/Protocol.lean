import G3Mod.Binder.Refs.Lemmas.Handles

/-!
# The commands that a process gets for a node
-/

namespace G3Mod.Binder.Refs

open Function Lib

/-! ## Rounds of commands -/

/-- `INCREFS (ACQUIRE RELEASE)* DECREFS`, any number of times. -/
inductive Rounds : List Command → Prop
  | nil : Rounds []
  | round (k : Nat) {cs : List Command} (h : Rounds cs) :
      Rounds (.increfs :: ((List.replicate k [.acquire, .release]).flatten ++ .decrefs :: cs))

variable {cs : List Command}

theorem Rounds.append {cs' : List Command} (h : Rounds cs) (h' : Rounds cs') : Rounds (cs ++ cs') := by
  induction h with
  | nil => exact h'
  | round k _ ih =>
    have := Rounds.round k ih
    simpa using this

/-- The commands so far, and which references they leave the process with. -/
def Stage (cs : List Command) : (weak strong : Bool) → Prop
  | false, false => Rounds cs
  | true, false => ∃ done k, Rounds done ∧ cs = done ++ .increfs :: (List.replicate k [.acquire, .release]).flatten
  | true, true => ∃ done k, Rounds done ∧
      cs = done ++ .increfs :: (List.replicate k [.acquire, .release]).flatten ++ [.acquire]
  | false, true => False

theorem Stage.rounds {weak strong : Bool} (h : Stage cs weak strong) : ∃ cs', Rounds (cs ++ cs') := by
  cases weak <;> cases strong
  case false.false => exact ⟨[], by simpa [Stage] using h⟩
  case false.true => exact h.elim
  case true.false =>
      obtain ⟨done, k, hd, rfl⟩ := h
      exact ⟨[.decrefs], by simpa using hd.append (.round k .nil)⟩
  case true.true =>
      obtain ⟨done, k, hd, rfl⟩ := h
      refine ⟨[.release, .decrefs], ?_⟩
      have := hd.append (.round (k + 1) .nil)
      simpa [List.replicate_succ'] using this

theorem Stage.increfs {cs : List Command} (h : Stage cs false false) : Stage (cs ++ [.increfs]) true false :=
  ⟨cs, 0, h, rfl⟩

theorem Stage.acquire {cs : List Command} (h : Stage cs true false) : Stage (cs ++ [.acquire]) true true := by
  obtain ⟨done, k, hd, rfl⟩ := h
  exact ⟨done, k, hd, rfl⟩

theorem Stage.release {cs : List Command} (h : Stage cs true true) : Stage (cs ++ [.release]) true false := by
  obtain ⟨done, k, hd, rfl⟩ := h
  exact ⟨done, k + 1, hd, by simp [List.replicate_succ']⟩

theorem Stage.decrefs {cs : List Command} (h : Stage cs true false) : Stage (cs ++ [.decrefs]) false false := by
  obtain ⟨done, k, hd, rfl⟩ := h
  have := hd.append (.round k .nil)
  simpa [Stage] using this

theorem Rounds.last (h : Rounds cs) : cs = [] ∨ cs.getLast? = some .decrefs := by
  induction h with
  | nil => exact .inl rfl
  | round k h ih =>
    right
    rw [← List.cons_append, List.getLast?_append, List.getLast?_cons]
    rcases ih with rfl | ih
    · rfl
    · rw [ih]
      rfl

variable {s s' : State} {p : ProcId} {n m : NodeId} {nd nd' : Node} {pr : Proc} {op : ReadOp} {o : List Event}

variable {c : Command}

theorem Node.report_stage (h : nd.report = some (c, nd'))
    (hs : Stage cs nd.hasWeakRef nd.hasStrongRef) : Stage (cs ++ [c]) nd'.hasWeakRef nd'.hasStrongRef := by
  have hweak : nd.strong = true → nd.weak = true := by
    intro e
    simp [Node.weak, e]
  have hnot : nd.hasWeakRef = false → nd.hasStrongRef = false := by
    intro e
    cases hst : nd.hasStrongRef with
    | false => rfl
    | true => rw [e, hst] at hs; exact hs.elim
  unfold Node.report at h
  split_ifs at h with h1 h2 h3 h4
  · cases h
    rw [h1.2, hnot h1.2] at hs
    simpa [hnot h1.2] using hs.increfs
  · cases h
    have hw : nd.hasWeakRef = true := by grind
    rw [hw, h2.2] at hs
    simpa [hw] using hs.acquire
  · cases h
    have hw : nd.hasWeakRef = true := by grind
    rw [hw, h3.2] at hs
    simpa [hw] using hs.release
  · cases h
    have hst : nd.hasStrongRef = false := by grind
    rw [h4.2, hst] at hs
    simpa [hst] using hs.decrefs

theorem Node.report_held (hs : nd.strong = true) (h1 : nd.hasStrongRef = true) (h2 : nd.hasWeakRef = true) :
    nd.report = none := by
  have hw : nd.weak = true := by simp [Node.weak, hs]
  simp [Node.report, hs, hw, h1, h2]

theorem Node.report_unheld (h : nd.report = none) (hw : nd.weak = false) (hs : nd.strong = false) :
    nd.hasStrongRef = false ∧ nd.hasWeakRef = false := by
  grind [Node.report]

/-! ## What leaves the references of a process to its nodes alone -/

def Holds (s s' : State) : Prop := ∀ n nd', s'.node n = some nd' → nd'.proc ≠ none →
  ∃ nd, s.node n = some nd ∧ nd.proc = nd'.proc ∧ nd.hasStrongRef = nd'.hasStrongRef ∧ nd.hasWeakRef = nd'.hasWeakRef

theorem Holds.of_node (h : s'.node = s.node) : Holds s s' := fun _ nd' hn _ => ⟨nd', h ▸ hn, rfl, rfl, rfl⟩

theorem Holds.refl (s : State) : Holds s s := .of_node rfl

theorem Holds.trans {t : State} (h : Holds s s') (h' : Holds s' t) : Holds s t := by
  intro n nd'' hn hp
  obtain ⟨nd', hn', hp', hs', hw'⟩ := h' n nd'' hn hp
  obtain ⟨nd, hn0, hp0, hs0, hw0⟩ := h n nd' hn' (hp' ▸ hp)
  exact ⟨nd, hn0, hp0.trans hp', hs0.trans hs', hw0.trans hw'⟩

theorem Holds.setNode (hn : s.node n = some nd)
    (h : nd'.proc = none ∨ nd.proc = nd'.proc ∧ nd.hasStrongRef = nd'.hasStrongRef ∧ nd.hasWeakRef = nd'.hasWeakRef) :
    Holds s (setNode n (some nd') s) := by
  intro m x hx hp
  grind

theorem Holds.removed (h : ∀ m, s'.node m = if m = n then none else s.node m) : Holds s s' := by
  intro m x hx _
  grind

theorem Update.holds (h : Update s s') : Holds s s' := by
  cases h with
  | node hn hh => exact .setNode hn (.inr ⟨hh.proc.symm, hh.strong.symm, hh.weak.symm⟩)
  | free hn _ => exact .removed fun m => removeNode_node
  | count _ _ => exact .of_node rfl
  | link _ hn _ _ => exact Holds.setNode hn (.inr ⟨rfl, rfl, rfl⟩)
  | drop _ _ => exact .of_node rfl
  | files _ _ => exact .of_node rfl

theorem Update.mgr (h : Update s s') : s'.contextMgrNode = s.contextMgrNode ∧ s.next ≤ s'.next := by
  cases h with
  | @free n nd _ _ =>
    refine ⟨?_, by rw [removeNode_next]⟩
    unfold removeNode
    cases nd.proc <;> rfl
  | link _ _ _ _ => exact ⟨rfl, Nat.le_succ _⟩
  | _ => exact ⟨rfl, Nat.le_refl _⟩

theorem Updates.holds (h : Updates s s') :
    Holds s s' ∧ s'.contextMgrNode = s.contextMgrNode ∧ s.next ≤ s'.next := by
  induction h with
  | refl => exact ⟨.refl s, rfl, Nat.le_refl _⟩
  | tail _ hu ih => exact ⟨ih.1.trans hu.holds, hu.mgr.1.trans ih.2.1, ih.2.2.trans hu.mgr.2⟩

theorem releaseWork_holds (gone : TodoList → Bool) (s : State) : Holds s (releaseWork gone s) := by
  intro n x hx _
  obtain ⟨nd, hn, rfl⟩ := Option.map_eq_some_iff.mp hx
  refine ⟨nd, hn, ?_⟩
  split <;> exact ⟨rfl, rfl, rfl⟩

theorem releaseNodes_holds {fuel : Nat} (h : Indexed s) (hx : releaseNodes p fuel s = .ok (o, s')) :
    Holds s s' ∧ s'.contextMgrNode = s.contextMgrNode ∧ s'.next = s.next := by
  refine (releaseNodes_keeps (P := fun t => Indexed t ∧ Holds s t ∧ t.contextMgrNode = s.contextMgrNode ∧
    t.next = s.next) ?_ ⟨h, .refl s, rfl, rfl⟩ hx).1.2
  intro t pr ptr n o t' ht hp hat h1
  refine ⟨ht.1.releaseNode hp hat h1, ?_⟩
  obtain ⟨nd, hn, _, _, rfl⟩ := releaseNode_cases ht.1 hp hat h1
  refine ⟨ht.2.1.trans ?_, ht.2.2⟩
  split
  · exact .removed (n := n) fun m => setNode_node _ _ _ _
  · exact Holds.setNode (s := setProc p _ t) hn (.inl rfl)

theorem deferredRelease_holds (h : Indexed s) (hx : deferredRelease p s = .ok (o, s')) :
    Holds s s' ∧ s.next ≤ s'.next ∧ (s'.contextMgrNode = s.contextMgrNode ∨ s'.contextMgrNode = none ∧
      ∀ n nd', s.contextMgrNode = some n → s'.node n = some nd' → nd'.proc = none) := by
  have hend := h.deferredRelease hx
  obtain ⟨pr, _, hx⟩ := bind_ok hx
  obtain ⟨s1, h1, hx⟩ := bind_ok hx
  obtain ⟨⟨o2, s2⟩, h2, hx⟩ := bind_ok hx
  obtain ⟨⟨o3, s3⟩, h3, hx⟩ := bind_ok hx
  cases hx
  have hs1 : Indexed s1 ∧ s1.node = s.node ∧ s1.next = s.next := by
    rcases forgetContextMgr_cases h1 with rfl | ⟨_, rfl⟩
    · exact ⟨h, rfl, rfl⟩
    · exact ⟨h.setMgr none, rfl, rfl⟩
  obtain ⟨h₂h, h₂m, h₂n⟩ := releaseNodes_holds (hs1.1.dropWork _) h2
  obtain ⟨h₃h, h₃m, h₃n⟩ := (releaseRefs_updates h3).1.holds
  have hall : Holds s (setProc p none (releaseWork (fun l => l.proc = p ∧ l.thread = none) s3)) :=
    ((Holds.of_node hs1.2.1).trans (releaseWork_holds _ s1)).trans
      (h₂h.trans (h₃h.trans ((releaseWork_holds _ s3).trans (.of_node rfl))))
  have hmgr : s3.contextMgrNode = s1.contextMgrNode := h₃m.trans h₂m
  refine ⟨hall, ?_, ?_⟩
  · calc s.next = s1.next := hs1.2.2.symm
      _ = s2.next := h₂n.symm
      _ ≤ s3.next := h₃n
  rcases forgetContextMgr_cases h1 with rfl | ⟨⟨n, nd, hc, hn, hp⟩, rfl⟩
  · exact .inl hmgr
  refine .inr ⟨hmgr, fun m nd' hm hm' => ?_⟩
  cases hc.symm.trans hm
  -- the node was with the process that is gone
  by_contra hlive
  obtain ⟨nd0, hn0, hp0, _⟩ := hall n nd' hm' hlive
  cases hn.symm.trans hn0
  obtain ⟨pr', hpr'⟩ := hend.toTables.nodeProc hm' (hp0.symm.trans hp)
  simp [setProc_proc] at hpr'

/-! ## Every operation -/

def commandsFor (n : NodeId) (es : List (ReadOp × List Event)) : List Command :=
  es.flatMap fun e =>
    match e.1 with
    | .call (.workNode _ m) =>
      if m = n then e.2.filterMap fun ev => match ev with | .command c _ _ => some c | .freed _ _ => none else []
    | _ => []

/-- No `put_user` fails, and the count that `BINDER_SET_CONTEXT_MGR` took is still there. -/
def ReadOp.Clean (s : State) : ReadOp → Prop
  | .workNodeFault _ n => ∀ nd ∈ s.node n, nd.report = none
  | .call (.workNode _ n) => s.contextMgrNode = some n → ∀ nd ∈ s.node n, nd.strong = true
  | .call _ => True

instance {s : State} : {op : ReadOp} → Decidable (op.Clean s)
  | .workNodeFault _ n => inferInstanceAs (Decidable (∀ nd ∈ s.node n, nd.report = none))
  | .call (.workNode _ n) => inferInstanceAs (Decidable (s.contextMgrNode = some n → ∀ nd ∈ s.node n, nd.strong = true))
  | .call (.openProc _) | .call (.setContextMgr _ _) | .call (.newNode _ _ _ _) | .call (.getRefForNode _ _ _)
  | .call (.incRef _ _ _) | .call (.decRef _ _) | .call (.deleteRef _) | .call (.incNode _ _ _) | .call (.decNode _ _)
  | .call (.bcDone _ _ _ _) | .call (.setFiles _ _) | .call (.threadExit _ _) | .call (.deferredRelease _) =>
    inferInstanceAs (Decidable True)

def cleanMachine : Machine State ReadOp (List Event) Bug where
  init s := s = emptyState
  enabled s op := op.Permitted s ∧ op.Clean s
  exec := ReadOp.exec

instance {s : State} {op : ReadOp} : Decidable (cleanMachine.enabled s op) :=
  inferInstanceAs (Decidable (op.Permitted s ∧ op.Clean s))

/-- What the flags of a live node say about the commands that were written for it. -/
structure Told (es : List (ReadOp × List Event)) (s : State) : Prop where
  indexed : Indexed s
  live : ∀ {n nd}, s.node n = some nd → nd.proc ≠ none →
    (s.contextMgrNode = some n ∧ commandsFor n es = [] ∧ nd.hasStrongRef = true ∧ nd.hasWeakRef = true) ∨
      Stage (commandsFor n es) nd.hasWeakRef nd.hasStrongRef
  fresh : ∀ {n}, s.next ≤ n → commandsFor n es = []

theorem commandsFor_snoc (n : NodeId) (es : List (ReadOp × List Event)) (e : ReadOp × List Event) :
    commandsFor n (es ++ [e]) = commandsFor n es ++ commandsFor n [e] := by
  simp [commandsFor]

variable {es : List (ReadOp × List Event)}

theorem commandsFor_quiet (h : ∀ p, op ≠ .call (.workNode p n)) :
    commandsFor n (es ++ [(op, o)]) = commandsFor n es := by
  rw [commandsFor_snoc]
  suffices hnil : commandsFor n [(op, o)] = [] by rw [hnil, List.append_nil]
  cases op with
  | workNodeFault q m => rfl
  | call op =>
    cases op with
    | workNode q m =>
      have hm : m ≠ n := by
        rintro rfl
        exact h q rfl
      simp [commandsFor, hm]
    | _ => rfl

theorem Told.quiet (h : Told es s) (hi : Indexed s') (hh : Holds s s')
    (hc : s'.contextMgrNode = s.contextMgrNode ∨ ∀ n nd', s.contextMgrNode = some n → s'.node n = some nd' → nd'.proc = none)
    (hn : s.next ≤ s'.next) (hq : ∀ p n, op ≠ .call (.workNode p n)) : Told (es ++ [(op, o)]) s' where
  indexed := hi
  live {n nd'} hn' hp := by
    rw [commandsFor_quiet fun p => hq p n]
    obtain ⟨nd, hn0, hp0, hs, hw⟩ := hh n nd' hn' hp
    rcases h.live hn0 (hp0 ▸ hp) with ⟨hm, hnil, h1, h2⟩ | hst
    · rcases hc with hc | hc
      · exact .inl ⟨hc.trans hm, hnil, hs ▸ h1, hw ▸ h2⟩
      · exact absurd (hc n nd' hm hn') hp
    · exact .inr (hs ▸ hw ▸ hst)
  fresh {n} hle := by
    rw [commandsFor_quiet fun p => hq p n]
    exact h.fresh (hn.trans hle)

theorem Told.updates {es : List (ReadOp × List Event)} (h : Told es s) (hu : Updates s s')
    (hq : ∀ p n, op ≠ .call (.workNode p n)) : Told (es ++ [(op, o)]) s' :=
  h.quiet (h.indexed.updates hu) hu.holds.1 (.inl hu.holds.2.1) hu.holds.2.2 hq

theorem Told.create (h : Told es s) (hi : Indexed s') (hnext : s'.next = s.next + 1)
    (hnode : ∀ m, s'.node m = if m = s.next then some nd else s.node m)
    (hc : s'.contextMgrNode = s.contextMgrNode ∧ nd.hasStrongRef = false ∧ nd.hasWeakRef = false ∨
      s.contextMgrNode = none ∧ s'.contextMgrNode = some s.next ∧ nd.hasStrongRef = true ∧ nd.hasWeakRef = true)
    (hq : ∀ p n, op ≠ .call (.workNode p n)) : Told (es ++ [(op, o)]) s' where
  indexed := hi
  live {n x} hx hp := by
    rw [commandsFor_quiet fun p => hq p n]
    have hnil := h.fresh (Nat.le_refl s.next)
    have := @h.live n x
    have : Stage [] false false := Rounds.nil
    grind
  fresh {n} hle := by
    rw [commandsFor_quiet fun p => hq p n]
    exact h.fresh (by omega)

theorem commandsFor_other (h : m ≠ n) :
    commandsFor n (es ++ [(.call (.workNode p m), o)]) = commandsFor n es := by
  simp [commandsFor, h]

theorem commandsFor_command {ptr cookie : Nat} :
    commandsFor n (es ++ [(.call (.workNode p n), [.command c ptr cookie])]) = commandsFor n es ++ [c] := by
  simp [commandsFor]

theorem commandsFor_none (h : ∀ c ptr cookie, .command c ptr cookie ∉ o) :
    commandsFor m (es ++ [(.call (.workNode p n), o)]) = commandsFor m es := by
  rw [commandsFor_snoc]
  suffices hnil : commandsFor m [(.call (.workNode p n), o)] = [] by rw [hnil, List.append_nil]
  simp only [commandsFor, List.flatMap_cons, List.flatMap_nil, List.append_nil]
  split
  · rw [List.filterMap_eq_nil_iff]
    intro ev hev
    cases ev with
    | command c ptr cookie => exact absurd hev (h c ptr cookie)
    | freed _ _ => rfl
  · rfl

theorem workNode_none (hn : s.node n = some nd) (hrep : nd.report = none) (hx : workNode p n s = .ok (o, s')) :
    (∀ c ptr cookie, .command c ptr cookie ∉ o) ∧ Holds s s' ∧ s'.contextMgrNode = s.contextMgrNode ∧ s'.next = s.next := by
  simp only [workNode, getNode_of hn, ok_bind, hrep] at hx
  split at hx
  · obtain ⟨pr, _, hx⟩ := bind_ok hx
    cases hx
    exact ⟨by simp, .removed fun m => setNode_node _ _ _ _, rfl, rfl⟩
  · cases hx
    exact ⟨by simp, .setNode hn (.inr ⟨rfl, rfl, rfl⟩), rfl, rfl⟩

theorem Told.workNode {es : List (ReadOp × List Event)} (h : Told es s) (hop : (Op.workNode p n).Permitted s)
    (hclean : ReadOp.Clean s (.call (.workNode p n))) (hx : workNode p n s = .ok (o, s')) :
    Told (es ++ [(.call (.workNode p n), o)]) s' := by
  have hi := h.indexed.workNode hop hx
  obtain ⟨nd, hn, l, hl, rfl⟩ := hop
  have hlive : nd.proc ≠ none := by
    rw [h.indexed.work hn l hl]
    exact Option.some_ne_none _
  cases hrep : nd.report with
  | none =>
    obtain ⟨hno, hh, hm, hnext⟩ := workNode_none hn hrep hx
    refine ⟨hi, fun {m x} hx' hp => ?_, fun {m} hle => ?_⟩
    · rw [commandsFor_none hno]
      obtain ⟨y, hy, hyp, hs, hw⟩ := hh m x hx' hp
      rcases h.live hy (hyp ▸ hp) with ⟨hc, hnil, h1, h2⟩ | hst
      · exact .inl ⟨hm.trans hc, hnil, hs ▸ h1, hw ▸ h2⟩
      · exact .inr (hs ▸ hw ▸ hst)
    · rw [commandsFor_none hno]
      exact h.fresh (hnext ▸ hle)
  | some c =>
    simp only [Refs.workNode, getNode_of hn, ok_bind, hrep] at hx
    cases hx
    refine ⟨hi, fun {m x} hx' hp => ?_, fun {m} hle => ?_⟩
    · rw [setNode_node] at hx'
      split at hx'
      next e =>
        subst e
        cases hx'
        rw [commandsFor_command]
        rcases h.live hn hlive with ⟨hc, _, h1, h2⟩ | hst
        · rw [Node.report_held (hclean hc nd hn) h1 h2] at hrep
          cases hrep
        · exact .inr (Node.report_stage hrep hst)
      next e =>
        rw [commandsFor_other (Ne.symm e)]
        exact h.live hx' hp
    · have hne : n ≠ m := ((h.indexed.node_lt hn).trans_le hle).ne
      rw [commandsFor_other hne]
      exact h.fresh hle

theorem Told.call {es : List (ReadOp × List Event)} {op : Op} (h : Told es s) (hop : op.Permitted s)
    (hclean : ReadOp.Clean s (.call op)) (hx : exec s op = .ok (o, s')) : Told (es ++ [(.call op, o)]) s' := by
  have hi := exec_indexed h.indexed hop hx
  cases op with
  | openProc p =>
    cases hx
    exact h.quiet hi (.of_node rfl) (.inl rfl) (Nat.le_refl _) nofun
  | setContextMgr p alloc =>
    obtain ⟨s1, h1, hx⟩ := bind_ok hx
    cases hx
    rcases setContextMgr_cases h1 with rfl | ⟨hnone, pr, hp, hk, rfl⟩
    · exact h.quiet hi (.refl _) (.inl rfl) (Nat.le_refl _) nofun
    have hnode : ∀ m, (setNode s.next (some (newNode p 0 0).manage) (addNode p pr (newNode p 0 0) s)).node m =
        if m = s.next then some (newNode p 0 0).manage else s.node m := by
      grind
    exact h.create hi rfl hnode (.inr ⟨hnone, rfl, rfl, rfl⟩) nofun
  | newNode p ptr cookie alloc =>
    obtain ⟨⟨x, s1⟩, h1, hx⟩ := bind_ok hx
    cases hx
    rcases binderNewNode_cases h1 with ⟨_, rfl⟩ | ⟨pr, hp, hk, _, rfl⟩
    · exact h.quiet hi (.refl _) (.inl rfl) (Nat.le_refl _) nofun
    · exact h.create hi rfl (fun m => addNode_node) (.inl ⟨rfl, rfl, rfl⟩) nofun
  | workNode p n => exact h.workNode hop hclean hx
  | threadExit p a =>
    cases hx
    exact h.quiet hi (releaseWork_holds _ s) (.inl rfl) (Nat.le_refl _) nofun
  | deferredRelease p =>
    obtain ⟨hh, hn, hc⟩ := deferredRelease_holds h.indexed hx
    exact h.quiet hi hh (hc.imp id And.right) hn nofun
  | _ => exact h.updates ((exec_updates hop hx).resolve_right id) nofun

theorem Told.init : Told [] emptyState where
  indexed := Indexed.init
  live h := nomatch h
  fresh _ := rfl

theorem Told.step (h : Told es s) (he : cleanMachine.enabled s op)
    (hx : cleanMachine.exec s op = .ok (o, s')) : Told (es ++ [(op, o)]) s' := by
  cases op with
  | call op => exact h.call he.1 he.2 hx
  | workNodeFault p n =>
    have hperm : (Op.workNode p n).Permitted s := he.1
    obtain ⟨nd, hn, _⟩ := he.1
    have hrep : nd.report = none := he.2 nd hn
    have hx' : Refs.workNode p n s = .ok (o, s') := by
      have hx : Refs.workNodeFault p n s = .ok (o, s') := hx
      simpa only [workNodeFault, getNode_of hn, ok_bind, hrep] using hx
    obtain ⟨_, hh, hm, hnext⟩ := workNode_none hn hrep hx'
    exact h.quiet (h.indexed.workNode hperm hx') hh (.inl hm) hnext.ge nofun

theorem told_of_run (h : cleanMachine.Run emptyState es s) : Told es s := by
  induction h with
  | nil => exact Told.init
  | snoc _ he hx ih => exact ih.step he hx

end G3Mod.Binder.Refs
