import G3Mod.Binder.Transaction.Lemmas.StackInv

/-!
# Commands keep the stacks
-/

namespace G3Mod.Binder.Transaction

open Function Lib Relation

variable {dead : Option ThreadId} {stk : ThreadId → List Nat} {s s' : State} {t u : Nat}
  {a f : ThreadId} {p : ProcId} {n : NodeId} {x : Tx} {b : Buffer} {th : Thread} {q : Place}
  {c : ReturnError} {e : Option ReturnError}

/-- Of the callers of `a` from the process `p`, the outermost is `a` itself. -/
def SelfCall (s : State) (a : ThreadId) (p : ProcId) : Prop :=
  ∃ th t u, s.thread a = some th ∧ th.stack = some t ∧ OutermostCaller s p t u a

/-! ## Failing commands -/

theorem transactionFailed_none (h : StackInv none stk s) (hth : s.thread a = some th)
    (he : th.returnError = .ok) : ∃ s', transactionFailed a none c s = .ok s' ∧ StackInv none stk s' := by
  have hw := h.waits hth
  refine ⟨_, ?_, h.sameStack hth { th with returnError := c } rfl hw⟩
  simp [transactionFailed, getThread_eq.mpr hth, he]

theorem transactionFailed_some (h : StackInv none stk s) (hth : s.thread a = some th)
    (he : th.returnError = .ok) (hl : Loose none stk s t) (hq : ∀ q, t ∉ queue s q)
    (hx : s.tx t = some x) (ho : x.oneWay = false) :
    ∃ s' stk', transactionFailed a (some t) c s = .ok s' ∧ StackInv none stk' s' := by
  have hw := h.waits hth
  have h1 := h.sameStack hth { th with returnError := .transactionComplete } rfl hw
  obtain ⟨s', stk', hs', h'⟩ := binderSendFailedReply_inv (e := c) h1 (hl.sameStack hth) hq hx ho
  exact ⟨s', stk', by simp [transactionFailed, getThread_eq.mpr hth, he, hs'], h'⟩

theorem newThread_inv (h : StackInv none stk s) (hth : s.thread a = none) :
    StackInv none (update stk a []) (newThread a p s) := by
  have hne : ∀ {u c}, u ∈ queue (newThread a p s) c → c ≠ .thread a ∧ u ∈ queue s c := by grind [newThread]
  have hmem : ∀ {u c}, u ∈ update stk a [] c → c ≠ a ∧ u ∈ stk c := by grind
  have halive : ∀ {c}, c ≠ a → (Alive none (newThread a p s) c ↔ Alive none s c) := by grind [newThread]
  exact
    { toQueues := h.toQueues.quiet (Still.setThread.quiet.trans
        (Quiet.setTodo (by simp) (List.nil_sublist _)))
      toLinks := (h.toLinks.addThread ⟨p, none, .ok, .ok, none⟩ hth rfl).congr rfl rfl rfl
      attached := h.attached
      live := fun hu => h.live (hne hu).2
      loose := fun hu => by
        have hl := h.loose (hne hu).2
        exact ⟨hl.leaf, fun hc hu' => hl.unread ((halive (hmem hu').1).mp hc) (hmem hu').2⟩
      called := fun {c u y b} hc hu hy hb ho hn => by
        obtain ⟨hca, hu⟩ := hne hu
        have hca : c ≠ a := fun e => hca (by rw [e])
        obtain ⟨v, l, z, hv, hrest⟩ := h.called ((halive hca).mp hc) hu hy hb ho hn
        exact ⟨v, l, z, by rwa [update_of_ne hca], hrest⟩
      oneWay := fun hu => h.oneWay (hne hu).2
      target := h.target }

theorem Links.leaf_youngest (h : Links dead stk s) (ht : s.next ≤ t + 1) : Leaf (Up s) t := by
  rintro c ⟨y, hy, hp⟩
  have := (h.parent hy hp).1
  have := h.txLt hy
  omega

theorem attached_newTx (h : Attached s) (hx : x.buffer = b.transaction) : Attached (newTx x b s) := by
  intro u
  have := h u
  grind

theorem StackInv.not_called (h : StackInv none stk s) (hc : CanCall stk s a) : ¬ Called stk s a t := by
  rintro ⟨q, l, y, hq, hy, hf, _⟩
  have := h.sender hy hf
  grind [CanCall]

theorem StackInv.addTx {stk' : ThreadId → List Nat} (h : StackInv none stk s)
    (hx : ∀ n, x.oneWay = true → b.targetNode = some n → b.asyncTransaction = true)
    (hsent : ∀ f, x.fromThread = some f → b.targetNode.isSome) (hxb : x.buffer = b.transaction)
    (hp : ∀ u q, x.fromParent = some u → u ∉ queue s q)
    (halive : ∀ {a}, Alive none s' a ↔ Alive none s a) (hs : Still (newTx x b s) s')
    (htx : s'.tx = (newTx x b s).tx) (hbuf : s'.buffer = (newTx x b s).buffer) (hlinks : Links none stk' s')
    (hstk : ∀ a, stk' a = stk a ∨ (stk' a = s.next :: stk a ∧ CanCall stk s a)) : StackInv none stk' s' := by
  have hqueue : ∀ {q}, queue s' q = queue s q := fun {q} => by rw [queue, hs.todo]; rfl
  have hne : ∀ {q u}, u ∈ queue s q → u ≠ s.next := fun {q u} hu e => h.next_not_queued (e ▸ hu)
  replace htx := congrFun htx
  replace hbuf := congrFun hbuf
  have hforth : ∀ {u y}, s.tx u = some y → s'.tx u = some y := fun {u y} hy =>
    (htx u).trans (newTx_tx_old h.toLinks hy)
  exact
    { toQueues := (h.toQueues.newTx hx).quiet hs.quiet
      toLinks := hlinks
      attached := by
        intro u
        rw [htx, hbuf]
        exact attached_newTx h.attached hxb u
      live := fun {q u} hu => by
        rw [hqueue] at hu
        obtain ⟨y, hy, hyb⟩ := h.live hu
        exact ⟨y, hforth hy, hyb⟩
      loose := fun {q u} hu => by
        rw [hqueue] at hu
        have hl := h.loose hu
        refine ⟨fun v hv => ?_, fun {d y} hd hud hy => ?_⟩
        · have := hl.leaf v
          grind
        · have := hstk d
          exact hl.unread (halive.mp hd) (by grind) (by grind)
      called := fun {d u y b'} hd hu hy hb' ho hn => by
        rw [hqueue] at hu
        have hc := h.called (halive.mp hd) hu (x := y) (b := b') (by grind) (by grind) ho hn
        rcases hstk d with e | ⟨_, hcan⟩
        · obtain ⟨v, l, z, hv, hz, hzf, hdesc⟩ := hc
          refine ⟨v, l, z, e.trans hv, hforth hz, hzf, ?_⟩
          exact TransGen.mono (fun _ _ hp => hp.imp fun y hy => ⟨hforth hy.1, hy.2⟩) _ _ hdesc
        · exact absurd hc (h.not_called hcan)
      oneWay := fun {n u y} hu hy => by
        rw [hqueue] at hu
        exact h.oneWay hu (by grind)
      target := fun {u y f b'} hy hf hb' => by
        have := @h.target u y f b'
        grind }

theorem acceptSync_inv {target : Option ThreadId} (h : StackInv none stk s) (hth : s.thread a = some th)
    (hw : th.waiting = none) (hc : CanCall stk s a) (hta : target ≠ some a)
    (hcall : ∀ f, target = some f → ∃ r l y q m z, stk a = r :: l ∧ s.tx r = some y ∧ y.toThread = some a ∧
      stk f = q :: m ∧ s.tx q = some z ∧ z.fromThread = some f ∧ ReflTransGen (Up s) r q) :
    ∃ stk', StackInv none stk' (acceptSync a th n p target s) := by
  have hchain := h.chain (by simp) hth
  have hlinks := h.toLinks.pushSent { th with stack := some s.next } (by simp) hth hc
    (x := ⟨some a, th.stack, target, none, true, false⟩) (b := newBuffer p (some n) false)
    rfl rfl hta rfl rfl (by simp [hw])
  have hnotq : ∀ u q, th.stack = some u → u ∉ queue s q := fun u q hu hq => by
    have := @(h.loose hq).unread a
    grind [CanCall, Follows]
  have h1 := h.addTx (by simp) (fun _ _ => rfl) rfl hnotq (alive_setThread (s := newTx _ _ s) hth) Still.setThread rfl rfl
    hlinks fun d => by grind
  refine ⟨_, StackInv.addComplete (h1.enqueue (fun q => h.next_not_queued) (b := newBuffer p (some n) false)
    (x := ⟨some a, th.stack, target, none, true, false⟩) ?_ rfl ⟨?_, ?_⟩ ?_ rfl ?_ ?_)⟩
  · simp [newTx_tx]
  · exact hlinks.leaf_youngest (Nat.le_refl _)
  · intro d y hd hmem hy
    have hd' : Alive none s d := (alive_setThread (s := newTx _ _ s) hth).mp hd
    have := fun hm => h.toLinks.lt_of_mem (t := s.next) hd' hm
    grind
  · simp [newTx_buffer]
  · intro m hm
    cases target <;> cases hm
  · intro f hf _ _ _
    have htf : target = some f := by grind
    obtain ⟨r, l, y, q, m, z, hr, hy, _, hq, hz, hzf, hdesc⟩ := hcall f htf
    have hfa : f ≠ a := fun e => hta (by rw [htf, e])
    rw [hr] at hchain
    refine ⟨q, m, z, by rwa [update_of_ne hfa], newTx_tx_old (b := newBuffer p (some n) false) h.toLinks hz, hzf, ?_⟩
    refine TransGen.head' ⟨_, (newTx_tx (b := newBuffer p (some n) false)).trans (if_pos rfl), hchain.1⟩ ?_
    exact ReflTransGen.mono (fun _ _ => h.toLinks.up_newTx (b := newBuffer p (some n) false)) _ _ hdesc

section

variable (h : StackInv none stk s)

include h

theorem acceptOneWay_inv : StackInv none stk (acceptOneWay a n p s) := by
  have hlinks := h.toLinks.addUnsent (x := ⟨none, none, none, none, true, true⟩)
    (b := newBuffer p (some n) true) rfl rfl
  have h1 := h.addTx (fun _ _ _ => rfl) (fun _ _ => rfl) rfl (fun _ _ => by simp) alive_newTx Still.refl
    rfl rfl hlinks fun d => .inl rfl
  have hl : Loose none stk (newTx ⟨none, none, none, none, true, true⟩ (newBuffer p (some n) true) s) s.next := by
    refine ⟨hlinks.leaf_youngest (Nat.le_refl _), fun hd hmem _ => ?_⟩
    exact absurd (h.toLinks.lt_of_mem (alive_newTx.mp hd) hmem) (Nat.lt_irrefl _)
  have hx1 : (newTx ⟨none, none, none, none, true, true⟩ (newBuffer p (some n) true) s).tx s.next =
      some ⟨none, none, none, none, true, true⟩ := by simp [newTx_tx]
  have hb1 : (newTx ⟨none, none, none, none, true, true⟩ (newBuffer p (some n) true) s).buffer s.next =
      some (newBuffer p (some n) true) := by simp [newTx_buffer]
  refine StackInv.addComplete ?_
  split
  · exact h1.enqueue (fun q => h.next_not_queued) hx1 rfl hl hb1 rfl
      (fun m hm => by cases hm; exact ⟨rfl, rfl, rfl⟩) (by simp)
  · exact h1.setNode.enqueue (fun q => h.next_not_queued) hx1 rfl ⟨hl.leaf, hl.unread⟩ hb1 rfl (by simp)
      (by simp)

/-! ## `BC_TRANSACTION` -/

theorem StackInv.top (hth : s.thread a = some th) (hs : th.stack = some t) :
    ∃ l x, stk a = t :: l ∧ s.tx t = some x ∧ (x.toThread ≠ some a → x.fromThread = some a) := by
  have hc := h.chain (by simp) hth
  rw [hs] at hc
  cases hl : stk a with
  | nil =>
    rw [hl] at hc
    cases hc
  | cons t' l =>
    rw [hl] at hc
    obtain ⟨e, o, ⟨x, hx, hb⟩, _⟩ := hc
    exact ⟨l, x, by grind, by grind, by grind⟩

theorem StackInv.top_lt (hth : s.thread a = some th) (t : Nat)
    (ht : th.stack = some t) : t < s.next + 1 ∧ ∃ x, s.tx t = some x := by
  obtain ⟨l, x, _, hx, _⟩ := h.top hth ht
  exact ⟨Nat.lt_succ_of_lt (h.toLinks.txLt hx), x, hx⟩

theorem StackInv.stack_nil (hth : s.thread a = some th) (hs : th.stack = none) :
    stk a = [] := by
  have hc := h.chain (by simp) hth
  cases hl : stk a with
  | nil => rfl
  | cons t l => grind [Follows]

theorem awaitsReply_inv (hth : s.thread a = some th) :
    ∃ w, awaitsReply a s = .ok w ∧ (w = false → CanCall stk s a) := by
  cases hs : th.stack with
  | none =>
    exact ⟨false, by simp [awaitsReply, getThread_eq.mpr hth, hs], fun _ => .inl (h.stack_nil hth hs)⟩
  | some t =>
    obtain ⟨l, x, hl, hx, _⟩ := h.top hth hs
    refine ⟨decide (x.toThread ≠ some a),
      by simp only [awaitsReply, getThread_eq.mpr hth, ok_bind, hs, getTx_eq.mpr hx], fun hw => ?_⟩
    exact .inr ⟨t, l, x, hl, hx, by simpa using hw⟩

theorem targetThread_inv (hth : s.thread a = some th) (hc : CanCall stk s a)
    (hself : ¬ SelfCall s a p) :
    ∃ r, targetThread a p s = .ok r ∧ r ≠ some a ∧ ∀ f, r = some f → ∃ r l y q m z, stk a = r :: l ∧
      s.tx r = some y ∧ y.toThread = some a ∧ stk f = q :: m ∧ s.tx q = some z ∧ z.fromThread = some f ∧
      ReflTransGen (Up s) r q := by
  obtain ⟨r, hr, hcase⟩ := callerLoop_spec (p := p) none h.toLinks (h.top_lt hth)
  refine ⟨r, by simp only [targetThread, getThread_eq.mpr hth, ok_bind, hr], ?_⟩
  rcases hcase with ⟨rfl, _⟩ | ⟨t, u, f, hst, rfl, hout⟩
  · exact ⟨by simp, by simp⟩
  have hfa : f ≠ a := by
    rintro rfl
    exact hself ⟨th, t, u, hth, hst, hout⟩
  refine ⟨fun e => hfa (Option.some.inj e), fun g hg => ?_⟩
  cases hg
  obtain ⟨l, x, hl, hx, _⟩ := h.top hth hst
  have hto : x.toThread = some a := by grind [CanCall]
  have ha : Alive none s a := ⟨by simp, th, hth⟩
  obtain ⟨y', fth, hy', hyf, _⟩ := hout.sent
  obtain ⟨q, m, z, hq, hz, hzf, hdesc⟩ :=
    h.toLinks.caller_top (h.toLinks.leaf_of_top ha hl hx hto) hx hto hfa hy' hyf hout.above
  exact ⟨t, l, x, q, m, z, hl, hx, hto, hq, hz, hzf, hdesc⟩

theorem failed_inv (hth : s.thread a = some th) (he : th.returnError = .ok) :
    ∃ o s' stk', (do let s ← transactionFailed a none c s; .ok ([], s) : Except Bug (List Event × State)) =
      .ok (o, s') ∧ StackInv none stk' s' := by
  obtain ⟨s', hs', h'⟩ := transactionFailed_none (c := c) h hth he
  exact ⟨[], s', stk, by rw [hs']; rfl, h'⟩

theorem sendSync_inv (hth : s.thread a = some th) (hw : th.waiting = none)
    (he : th.returnError = .ok) (hself : e = none → ¬ SelfCall s a p) :
    ∃ o s' stk', sendSync a n p e s = .ok (o, s') ∧ StackInv none stk' s' := by
  obtain ⟨w, hwt, hcan⟩ := awaitsReply_inv h hth
  simp only [sendSync, getThread_eq.mpr hth, ok_bind, hwt]
  cases w with
  | true => exact failed_inv h hth he
  | false =>
    simp only [Bool.false_eq_true, if_false]
    have hc := hcan rfl
    cases e with
    | none =>
      obtain ⟨r, hr, hra, hcall⟩ := targetThread_inv h hth hc (hself rfl)
      obtain ⟨stk', h'⟩ := acceptSync_inv (n := n) (p := p) h hth hw hc hra hcall
      exact ⟨[.accepted s.next n false], _, stk', by simp only [hr, ok_bind], h'⟩
    | some c =>
      obtain ⟨r, hr, _⟩ := callerLoop_spec (p := p) none h.toLinks (h.top_lt hth)
      simp only [targetThread, getThread_eq.mpr hth, ok_bind, hr]
      exact failed_inv h hth he

theorem bcTransaction_inv (hth : s.thread a = some th) (hw : th.waiting = none)
    (he : th.returnError = .ok) {target : Target} {oneWay : Bool}
    (hself : ∀ n p, target = .node n → oneWay = false → e = none → (s.node n).proc = some p →
      ¬ SelfCall s a p) :
    ∃ o s' stk', bcTransaction a target oneWay e s = .ok (o, s') ∧ StackInv none stk' s' := by
  cases target with
  | invalidHandle | noContextManager => exact failed_inv h hth he
  | node n =>
    simp only [bcTransaction]
    cases hp : (s.node n).proc with
    | none => exact failed_inv h hth he
    | some p =>
      cases oneWay with
      | true =>
        cases e with
        | some c => exact failed_inv h hth he
        | none => exact ⟨_, _, stk, rfl, acceptOneWay_inv h⟩
      | false => exact sendSync_inv h hth hw he fun he => hself n p rfl rfl he hp

theorem StackInv.popReceived {l : List Nat} (hth : s.thread a = some th)
    (hw : th.waiting = none) (hs : stk a = t :: l) (hx : s.tx t = some x) (hto : x.toThread = some a) :
    StackInv none (update stk a l) (setThread a (some { th with stack := x.toParent }) s) ∧
      Loose none (update stk a l) (setThread a (some { th with stack := x.toParent }) s) t ∧
      ∀ q, t ∉ queue s q := by
  have ha : Alive none s a := ⟨by simp, th, hth⟩
  have hnd := h.toLinks.nodup ha
  have hsub : ∀ {d u}, u ∈ update stk a l d → u ∈ stk d := by grind
  refine ⟨?_, ⟨h.toLinks.leaf_of_top ha hs hx hto, fun {d y} hd hmem hy => ?_⟩, fun q hq => ?_⟩
  · exact
      { toQueues := h.toQueues.quiet Still.setThread.quiet
        toLinks := h.toLinks.popReceived { th with stack := x.toParent } (by simp) hth hs hx hto rfl (by simp [hw])
        attached := h.attached
        live := h.live
        loose := fun ht => ⟨(h.loose ht).leaf,
          fun hd hu => (h.loose ht).unread ((alive_setThread hth).mp hd) (hsub hu)⟩
        called := fun {d u y b} hd hu hy hb ho hn => by
          obtain ⟨v, m, z, hv, hrest⟩ := h.called ((alive_setThread hth).mp hd) hu hy hb ho hn
          refine ⟨v, m, z, ?_, hrest⟩
          by_cases e : d = a
          · subst e
            exact absurd ⟨v, m, z, hv, hrest⟩ (h.not_called (.inr ⟨t, l, x, hs, hx, hto⟩))
          · rwa [update_of_ne e]
        oneWay := h.oneWay
        target := h.target }
  · grind
  · exact (h.loose hq).unread ha (by rw [hs]; simp) hx hto

end

theorem acceptReply_inv (oneWay : Bool) (h : StackInv none stk s) (hl : Loose none stk s t)
    (hq : ∀ q, t ∉ queue s q) (hx : s.tx t = some x) (hf : x.fromThread = some f) :
    ∃ s' stk', acceptReply a f p t oneWay s = .ok s' ∧ StackInv none stk' s' := by
  have hlinks := h.toLinks.addUnsent (x := ⟨none, none, some f, none, true, oneWay⟩)
    (b := newBuffer p none false) rfl rfl
  have h1 := h.addTx (fun _ _ e => by simp [newBuffer] at e) (by simp) rfl (fun _ _ => by simp) alive_newTx
    Still.refl rfl rfl hlinks fun d => .inl rfl
  have hx1 := newTx_tx_old (x := ⟨none, none, some f, none, true, oneWay⟩) (b := newBuffer p none false)
    h.toLinks hx
  have hl1 : Loose none stk (newTx ⟨none, none, some f, none, true, oneWay⟩ (newBuffer p none false) s) t := by
    refine ⟨fun c hc => ?_, fun hd hmem hy => hl.unread hd hmem (by grind)⟩
    have := hl.leaf c
    grind
  obtain ⟨⟨_, fth, hfth⟩, _⟩ := h.sender hx hf
  obtain ⟨s2, l, hs2, h2, hth2, htx2, hsub⟩ := binderPopTransaction_some h1 hl1 hq hx1 hf hfth
  have hstill := binderPopTransaction_steady hs2
  have hlt := h.toLinks.txLt hx
  obtain ⟨b, hb, hk⟩ := hstill.quiet.buffer_forth (b := newBuffer p none false)
    (newTx_buffer.trans (if_pos rfl))
  obtain ⟨hkn, _, hkf⟩ := kind_eq hk
  have hnew : s2.tx s.next = some ⟨none, none, some f, none, true, oneWay⟩ := by
    rw [htx2, update_of_ne (by omega), newTx_tx, if_pos rfl]
  refine ⟨addTail (.thread a) .transactionComplete (addTail (.thread f) (.transaction s.next) s2), _,
    by simp only [acceptReply, hs2, ok_bind], StackInv.addComplete
    (h2.enqueue (fun q => ?_) hnew rfl ⟨?_, fun {d y} hd hmem _ => ?_⟩ hb hkf (by simp) ?_)⟩
  · rw [queue, hstill.todo]
    exact h.next_not_queued
  · exact h2.toLinks.leaf_youngest (by rw [hstill.next]; exact Nat.le_refl _)
  · have hd' : Alive none s d := by
      have := congrFun hth2 d
      grind
    exact absurd (h.toLinks.lt_of_mem hd' (hsub d _ hmem)) (Nat.lt_irrefl _)
  · intro d _ _ _ hn
    rw [hkn] at hn
    cases hn

theorem bcReply_inv {oneWay : Bool} (h : StackInv none stk s) (hth : s.thread a = some th)
    (hw : th.waiting = none) (he : th.returnError = .ok) :
    ∃ o s' stk', bcReply a oneWay e s = .ok (o, s') ∧ StackInv none stk' s' := by
  simp only [bcReply, getThread_eq.mpr hth, ok_bind]
  cases hs : th.stack with
  | none => exact failed_inv h hth he
  | some t =>
    obtain ⟨l, x, hl, hx, _⟩ := h.top hth hs
    simp only [getTx_eq.mpr hx, ok_bind]
    by_cases hto : x.toThread = some a
    · rw [if_neg (by simpa using hto)]
      obtain ⟨h1, hloose, hq⟩ := h.popReceived hth hw hl hx hto
      have hth1 : (setThread a (some { th with stack := x.toParent }) s).thread a =
          some { th with stack := x.toParent } := by rw [setThread_thread, if_pos rfl]
      have ho : x.oneWay = false := h.onStack ⟨by simp, th, hth⟩ (by rw [hl]; simp) hx
      have hfail : ∀ c, ∃ o s' stk',
          (do let s ← transactionFailed a (some t) c (setThread a (some { th with stack := x.toParent }) s)
              .ok ([], s) : Except Bug (List Event × State)) = .ok (o, s') ∧ StackInv none stk' s' :=
        fun c => by
        obtain ⟨s', stk', hs', h'⟩ := transactionFailed_some (c := c) h1 hth1 he hloose hq hx ho
        exact ⟨[], s', stk', by rw [hs']; rfl, h'⟩
      cases hf : x.fromThread with
      | none => exact hfail _
      | some f =>
        obtain ⟨⟨_, fth, hfth⟩, _⟩ := h1.sender hx hf
        obtain ⟨htop, _⟩ := h1.toLinks.top_of_leaf hx hf hloose.leaf hfth
        simp only [getThread_eq.mpr hfth, ok_bind, htop]
        rw [if_neg (by simp)]
        cases e with
        | some c => exact hfail c
        | none =>
          obtain ⟨s', stk', hs', h'⟩ := acceptReply_inv (a := a) (p := fth.proc) oneWay h1 hloose hq hx hf
          exact ⟨[], s', stk', by rw [hs']; rfl, h'⟩
    · rw [if_pos hto]
      exact failed_inv h hth he

end G3Mod.Binder.Transaction
