import G3Mod.Binder.Transaction.Lemmas.Calls

/-!
# The invariant of the stacks and the lists, and what ends a transaction
-/

namespace G3Mod.Binder.Transaction

open Function Lib Relation

variable {dead : Option ThreadId} {stk stk' : ThreadId → List Nat} {s s' : State} {t u : Nat}
  {a : ThreadId} {x : Tx} {b : Buffer} {th : Thread} {q : Place} {e : ReturnError}

def Attached (s : State) : Prop :=
  ∀ t, (∃ x, s.tx t = some x ∧ x.buffer = true) ↔ ∃ b, s.buffer t = some b ∧ b.transaction = true

/-- The thread `a` is called back: `t` descends from the transaction that it waits for. -/
def Called (stk : ThreadId → List Nat) (s : State) (a : ThreadId) (t : Nat) : Prop :=
  ∃ q l y, stk a = q :: l ∧ s.tx q = some y ∧ y.fromThread = some a ∧ TransGen (Up s) t q

structure StackInv (dead : Option ThreadId) (stk : ThreadId → List Nat) (s : State) : Prop
    extends Queues s, Links dead stk s where
  attached : Attached s
  live : ∀ {q t}, t ∈ queue s q → ∃ x, s.tx t = some x ∧ x.buffer = true
  loose : ∀ {q t}, t ∈ queue s q → Loose dead stk s t
  called : ∀ {a t x b}, Alive dead s a → t ∈ queue s (.thread a) → s.tx t = some x → s.buffer t = some b →
    x.oneWay = false → b.targetNode.isSome → Called stk s a t
  oneWay : ∀ {n t x}, t ∈ queue s (.async n) → s.tx t = some x → x.oneWay = true
  target : ∀ {t x a b}, s.tx t = some x → x.fromThread = some a → s.buffer t = some b → b.targetNode.isSome

/-! ## Threads and lists -/

section

variable (h : StackInv dead stk s)

include h

theorem StackInv.sameTx {dead' : Option ThreadId} (hQ : Queues s') (hL : Links dead' stk s') (htx : s'.tx = s.tx)
    (hb : s'.buffer = s.buffer) (hq : ∀ {q t}, t ∈ queue s' q → t ∈ queue s q)
    (ha : ∀ {a}, Alive dead' s' a → Alive dead s a) : StackInv dead' stk s' := by
  have hup : Up s' = Up s := by funext t p; simp only [Up, htx]
  exact
    { toQueues := hQ
      toLinks := hL
      attached := by simp only [Attached, htx, hb]; exact h.attached
      live := fun ht => by rw [htx]; exact h.live (hq ht)
      loose := fun ht => by
        refine ⟨by rw [hup]; exact (h.loose (hq ht)).leaf, fun hc hs hx => ?_⟩
        exact (h.loose (hq ht)).unread (ha hc) hs (htx ▸ hx)
      called := fun hc ht hx hbuf ho hn => by
        simp only [Called, htx, hup]
        exact h.called (ha hc) (hq ht) (htx ▸ hx) (hb ▸ hbuf) ho hn
      oneWay := fun ht hx => h.oneWay (hq ht) (htx ▸ hx)
      target := fun hx hf hbuf => h.target (htx ▸ hx) hf (hb ▸ hbuf) }

theorem StackInv.sameStack (hth : s.thread a = some th) (th' : Thread)
    (hs : th'.stack = th.stack) (hw : th'.waiting = some true → th'.stack = none) :
    StackInv dead stk (setThread a (some th') s) :=
  h.sameTx (h.toQueues.quiet Still.setThread.quiet) (h.toLinks.sameStack hth th' hs hw) rfl rfl id
    (alive_setThread hth).mp

theorem StackInv.dropHead {w : Work} {rest : List Work}
    (hl : s.todo q = w :: rest) : StackInv dead stk (setTodo q rest s) :=
  h.sameTx (h.toQueues.dropHead hl) (h.toLinks.congr rfl rfl rfl) rfl rfl (mem_queue_dropHead hl) id

theorem StackInv.addComplete : StackInv dead stk (addTail (.thread a) .transactionComplete s) :=
  h.sameTx (h.toQueues.quiet Quiet.addComplete) (h.toLinks.congr rfl rfl rfl) rfl rfl (by simp) id

theorem StackInv.setNode {n : NodeId} {d : Node} : StackInv dead stk (setNode n d s) :=
  h.sameTx ⟨h.bufferLt, h.kind, h.nodup, h.disjoint, h.queued, h.asyncTodo⟩ (h.toLinks.congr rfl rfl rfl) rfl rfl id id

theorem StackInv.enqueue (ht : ∀ q, t ∉ queue s q) (hx : s.tx t = some x)
    (hxb : x.buffer = true) (hl : Loose dead stk s t) (hb : s.buffer t = some b)
    (hf : b.allowUserFree = false)
    (hq : ∀ n, q = .async n → b.asyncTransaction = true ∧ b.targetNode = some n ∧ x.oneWay = true)
    (hc : ∀ a, q = .thread a → Alive dead s a → x.oneWay = false → b.targetNode.isSome → Called stk s a t) :
    StackInv dead stk (addTail q (.transaction t) s) where
  toQueues := h.toQueues.addTail ht hb hf fun n e => ⟨(hq n e).1, (hq n e).2.1⟩
  toLinks := h.toLinks.congr rfl rfl rfl
  attached := h.attached
  live {p u} hu := by
    have := @h.live p u
    grind
  loose hu := by
    rcases mem_addTail.mp hu with hu | ⟨_, rfl⟩
    · exact ⟨(h.loose hu).leaf, (h.loose hu).unread⟩
    · exact ⟨hl.leaf, hl.unread⟩
  called {c u y b'} ha hu hy hb' ho hn := by
    rcases mem_addTail.mp hu with hu | ⟨e, rfl⟩
    · exact h.called ha hu hy hb' ho hn
    · exact hc c e.symm ha (by grind) (by grind)
  oneWay {n u y} hu hy := by
    have := @h.oneWay n u y
    grind
  target := h.target

theorem StackInv.free (hl : Leaf (Up s) t) (hq : ∀ q, t ∉ queue s q)
    (hs : Still s s') (htx : s'.tx = update s.tx t none) (ha : ∀ {a}, Alive dead s' a ↔ Alive dead s a)
    (hstk : ∀ a, stk' a = stk a ∨ stk a = t :: stk' a) (hlinks : Links dead stk' s')
    (hatt : Attached s') : StackInv dead stk' s' := by
  replace htx := congrFun htx
  have hback : ∀ {u y}, s'.tx u = some y → u ≠ t ∧ s.tx u = some y := by grind
  have hforth : ∀ {u y}, u ≠ t → s.tx u = some y → s'.tx u = some y := by grind
  have hqueue : ∀ {q}, queue s' q = queue s q := fun {q} => by rw [queue, queue, hs.todo]
  have hne : ∀ {q u}, u ∈ queue s q → u ≠ t := fun {q u} hu e => hq q (e ▸ hu)
  have hsub : ∀ {a u}, u ∈ stk' a → u ∈ stk a := by grind
  exact
    { toQueues := h.toQueues.quiet hs.quiet
      toLinks := hlinks
      attached := hatt
      live := fun {q u} hu => by
        rw [hqueue] at hu
        obtain ⟨y, hy, hb⟩ := h.live hu
        exact ⟨y, hforth (hne hu) hy, hb⟩
      loose := fun {q u} hu => by
        rw [hqueue] at hu
        refine ⟨?_, fun hc hu' hy => (h.loose hu).unread (ha.mp hc) (hsub hu') (hback hy).2⟩
        rintro c ⟨y, hy, hp⟩
        exact (h.loose hu).leaf c ⟨y, (hback hy).2, hp⟩
      called := fun {c u y b} hc hu hy hb ho hn => by
        rw [hqueue] at hu
        obtain ⟨b0, hb0, hk⟩ := hs.quiet.buffer_back hb
        obtain ⟨v, l, z, hv, hz, hzf, hd⟩ :=
          h.called (ha.mp hc) hu (hback hy).2 hb0 ho (by rw [(kind_eq hk).1]; exact hn)
        have hvt : v ≠ t := fun e => hl.not_transGen (e ▸ hd)
        exact ⟨v, l, z, by grind, hforth hvt hz, hzf,
          hl.transGen_avoid (fun c q hc hp => hp.imp fun y hy => ⟨hforth hc hy.1, hy.2⟩) (hne hu) hd⟩
      oneWay := fun hu hy => by
        rw [hqueue] at hu
        exact h.oneWay hu (hback hy).2
      target := fun hy hf hb => by
        obtain ⟨b0, hb0, hk⟩ := hs.quiet.buffer_back hb
        rw [← (kind_eq hk).1]
        exact h.target (hback hy).2 hf hb0 }

end

theorem clearBufferTransaction_ok (h : Attached s) (hx : s.tx t = some x) :
    ∃ s', clearBufferTransaction t x s = .ok s' ∧ s'.tx = s.tx ∧ s'.thread = s.thread ∧
      ∀ y, (∀ z, y = some z → z.buffer = false) → Attached (setTx t y s') := by
  cases hxb : x.buffer with
  | false =>
    refine ⟨s, by simp [clearBufferTransaction, hxb], rfl, rfl, fun y hy u => ?_⟩
    have := h u
    grind
  | true =>
    obtain ⟨b, hb, _⟩ := (h t).mp ⟨x, hx, hxb⟩
    refine ⟨setBuffer t (some { b with transaction := false }) s,
      by simp [clearBufferTransaction, hxb, getBuffer_eq.mpr hb], rfl, rfl, fun y hy u => ?_⟩
    have := h u
    grind

theorem freeTx_ok (h : Attached s) (hx : s.tx t = some x) : ∃ s', freeTx t s = .ok s' ∧
    s'.tx = update s.tx t none ∧ s'.thread = s.thread ∧ Attached s' := by
  obtain ⟨s', hs', htx, hth, hatt⟩ := clearBufferTransaction_ok h hx
  refine ⟨setTx t none s', by simp [freeTx, getTx_eq.mpr hx, hs'], ?_, hth, hatt none (by simp)⟩
  rw [← htx]
  rfl

theorem binderPopTransaction_none (h : StackInv dead stk s) (hl : Loose dead stk s t)
    (hq : ∀ q, t ∉ queue s q) (hx : s.tx t = some x) (hf : x.fromThread = none) :
    ∃ s', binderPopTransaction none t s = .ok s' ∧ StackInv dead stk s' ∧ s'.thread = s.thread ∧
      s'.tx = update s.tx t none := by
  obtain ⟨s', hs', htx, hth, hatt⟩ := freeTx_ok h.attached hx
  have hstill := (freeTx_steady hs').toStill
  have hlinks : Links dead stk s' := (h.toLinks.freeUnsent hl hx hf).congr hth htx hstill.next
  exact ⟨s', hs', h.free hl.leaf hq hstill htx (Alive.congr hth) (fun a => .inl rfl) hlinks hatt, hth, htx⟩

theorem binderPopTransaction_some (h : StackInv dead stk s) (hl : Loose dead stk s t)
    (hq : ∀ q, t ∉ queue s q) (hx : s.tx t = some x) (hf : x.fromThread = some a)
    (hth : s.thread a = some th) :
    ∃ s' l, binderPopTransaction (some a) t s = .ok s' ∧ StackInv dead (update stk a l) s' ∧
      s'.thread = update s.thread a (some { th with stack := x.fromParent }) ∧
      s'.tx = update s.tx t none ∧ ∀ c u, u ∈ update stk a l c → u ∈ stk c := by
  obtain ⟨htop, l, hl'⟩ := h.toLinks.top_of_leaf hx hf hl.leaf hth
  obtain ⟨s', hs', htx, hth', hatt⟩ :=
    freeTx_ok (s := setThread a (some { th with stack := x.fromParent }) s) h.attached hx
  have hstill := Still.setThread.trans (freeTx_steady hs').toStill
  have hw : th.waiting ≠ some true := fun hw => by simp [h.waits hth hw] at htop
  have hlinks : Links dead (update stk a l) s' :=
    (h.toLinks.popSent hl { th with stack := x.fromParent } hx hf hth hl' rfl fun e => absurd e hw).congr
      hth' htx hstill.next
  refine ⟨s', l, ?_, h.free hl.leaf hq hstill htx ?_ (fun c => by grind) hlinks hatt, hth', htx, by grind⟩
  · simp [binderPopTransaction, getThread_eq.mpr hth, htop, getTx_eq.mpr hx, hf, hs']
  · exact fun {c} => (Alive.congr hth').trans (alive_setThread hth)

theorem shiftError_stack (th : Thread) : th.shiftError.stack = th.stack ∧ th.shiftError.waiting = th.waiting := by
  unfold Thread.shiftError
  split <;> exact ⟨rfl, rfl⟩

theorem Loose.sameStack {th' : Thread} (hl : Loose dead stk s t) (hth : s.thread a = some th) :
    Loose dead stk (setThread a (some th') s) t :=
  ⟨hl.leaf, fun hc => hl.unread ((alive_setThread hth).mp hc)⟩

theorem failedReplyLoop_inv {fuel : Nat} (h : StackInv dead stk s) (hl : Loose dead stk s t)
    (hq : ∀ q, t ∉ queue s q) (hx : s.tx t = some x) (hfuel : t < fuel) :
    ∃ s' stk', failedReplyLoop e fuel t s = .ok s' ∧ StackInv dead stk' s' := by
  induction fuel generalizing t s x with
  | zero => exact absurd hfuel (Nat.not_lt_zero t)
  | succ fuel ih =>
    cases hf : x.fromThread with
    | some a =>
      obtain ⟨⟨_, th, hth⟩, _⟩ := h.sender hx hf
      obtain ⟨he1, he2⟩ := shiftError_stack th
      have h1 := h.sameStack hth th.shiftError he1 fun hw => by
        rw [he1]
        exact h.waits hth (he2 ▸ hw)
      by_cases hok : th.shiftError.returnError = .ok
      · have hth1 : (setThread a (some th.shiftError) s).thread a = some th.shiftError := by
          rw [setThread_thread, if_pos rfl]
        obtain ⟨s2, l, hp, h2, hth2, _⟩ := binderPopTransaction_some h1 (hl.sameStack hth) hq hx hf hth1
        have hth2' : s2.thread a = some { th.shiftError with stack := x.fromParent } := by
          rw [hth2, update_self]
        have hw2 := h2.waits hth2'
        refine ⟨_, _, ?_, h2.sameStack hth2'
          { th.shiftError with stack := x.fromParent, returnError := e } rfl hw2⟩
        simp [failedReplyLoop, getTx_eq.mpr hx, hf, getThread_eq.mpr hth, hok, hp,
          getThread_eq.mpr hth2']
      · exact ⟨_, stk, by simp [failedReplyLoop, getTx_eq.mpr hx, hf, getThread_eq.mpr hth, hok], h1⟩
    | none =>
      obtain ⟨s1, hp, h1, hth1, htx1⟩ := binderPopTransaction_none h hl hq hx hf
      cases hpar : x.fromParent with
      | none => exact ⟨s1, stk, by simp [failedReplyLoop, getTx_eq.mpr hx, hf, hp, hpar], h1⟩
      | some r =>
        obtain ⟨hlt, y, hy, _⟩ := h.parent hx hpar
        have hl1 := h.toLinks.loose_parent hx hf hpar
        have hlr : Loose dead stk s1 r :=
          ⟨fun c ⟨z, hz, hzp⟩ => hl1.leaf c ⟨z, (congrFun htx1 c).symm.trans hz, hzp⟩,
            fun hc hr hz => hl1.unread ((Alive.congr hth1).mp hc) hr ((congrFun htx1 r).symm.trans hz)⟩
        have hqr : ∀ q, r ∉ queue s1 q := fun q hr => by
          rw [queue, (binderPopTransaction_steady hp).todo] at hr
          exact (h.loose (q := q) hr).leaf t ⟨x, hx, hpar⟩
        obtain ⟨s2, stk2, hs2, h2⟩ := ih (x := y) h1 hlr hqr
          (by rw [htx1, update_of_ne (by omega), hy]) (by omega)
        exact ⟨s2, stk2, by simp [failedReplyLoop, getTx_eq.mpr hx, hf, hp, hpar, hs2], h2⟩

theorem binderSendFailedReply_inv (h : StackInv dead stk s) (hl : Loose dead stk s t)
    (hq : ∀ q, t ∉ queue s q) (hx : s.tx t = some x) (ho : x.oneWay = false) :
    ∃ s' stk', binderSendFailedReply t e s = .ok s' ∧ StackInv dead stk' s' := by
  obtain ⟨s', stk', hs', h'⟩ :=
    failedReplyLoop_inv (e := e) h hl hq hx (Nat.lt_succ_of_lt (h.toLinks.txLt hx))
  exact ⟨s', stk', by simp [binderSendFailedReply, getTx_eq.mpr hx, ho, hs'], h'⟩

end G3Mod.Binder.Transaction
