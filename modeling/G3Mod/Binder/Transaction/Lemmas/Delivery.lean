import G3Mod.Binder.Transaction.Lemmas.Commands
import G3Mod.Binder.Transaction.Lemmas.Exit
import G3Mod.Binder.Transaction.Lemmas.OneWay

/-!
# Reads and freed buffers keep the stacks
-/

namespace G3Mod.Binder.Transaction

open Function Lib Relation

variable {dead : Option ThreadId} {stk : ThreadId → List Nat} {s s' : State} {t u : Nat}
  {a f : ThreadId} {p : ProcId} {n : NodeId} {x : Tx} {b : Buffer} {th : Thread} {q : Place}

/-! ## `BC_FREE_BUFFER` -/

theorem Links.setBufferFlag (h : Links dead stk s) (hx : s.tx t = some x) (v : Bool) :
    Links dead stk (setTx t (some { x with buffer := v }) s) := by
  generalize hx' : { x with buffer := v } = x'
  have hforth : ∀ {u y}, s.tx u = some y → ∃ y', (setTx t (some x') s).tx u = some y' ∧
      y'.fromThread = y.fromThread ∧ y'.toThread = y.toThread := by grind
  have hup : ∀ {c p}, Up (setTx t (some x') s) c p ↔ Up s c p := by grind
  exact
    { txLt := fun {u y'} hy' => by
        have := @h.txLt u
        grind
      chain := fun {c cth} hd hth => (h.chain hd hth).mono fun u _ o hb => by grind
      sender := fun {u y' c} hy' hf => by
        have := @h.sender u x c
        have := @h.sender u y' c
        grind
      parent := fun {u y' q} hy' hp => by
        have := @h.parent u x q
        have := @h.parent u y' q
        grind
      child := fun c c' p hc hc' => h.child c c' p (hup.mp hc) (hup.mp hc')
      callback := fun {c r y' q} ha hr hy' hto hq => by
        obtain ⟨y, hy, hyto, hyq⟩ : ∃ y, s.tx r = some y ∧ y.toThread = some c ∧ y.toParent = some q := by grind
        obtain ⟨hd, z, hz, hzf⟩ := h.callback ha hr hy hyto hyq
        obtain ⟨z', hz', e, _⟩ := hforth hz
        exact ⟨TransGen.mono (fun _ _ => hup.mpr) _ _ hd, z', hz', e.trans hzf⟩
      onStack := fun {c u y'} ha ht hy' => by
        have := @h.onStack c u x ha ht
        have := @h.onStack c u y' ha ht
        grind
      waits := h.waits }

section

variable (h : StackInv none stk s)

include h

theorem StackInv.changeTx {stk' : ThreadId → List Nat} (hq : ∀ q, t ∉ queue s q)
    (hother : ∀ {u}, u ≠ t → s'.tx u = s.tx u)
    (hforth : ∀ {u y}, s.tx u = some y → ∃ y', s'.tx u = some y' ∧ y'.fromThread = y.fromThread)
    (hback : ∀ {u y'}, s'.tx u = some y' → ∃ y, s.tx u = some y ∧ y'.fromThread = y.fromThread)
    (hup : ∀ {c p}, Up s' c p ↔ Up s c p) (hqueue : ∀ {q}, queue s' q = queue s q)
    (hbuf : ∀ {u b}, s'.buffer u = some b → s.buffer u = some b)
    (halive : ∀ {a}, Alive none s' a ↔ Alive none s a)
    (hstk : ∀ d, stk' d = stk d ∨ stk' d = t :: stk d ∧ ∀ u y b, u ∈ queue s (.thread d) → s.tx u = some y →
      s.buffer u = some b → y.oneWay = false → b.targetNode.isSome → False)
    (hQ : Queues s') (hlinks : Links none stk' s') (hatt : Attached s') : StackInv none stk' s' := by
  have hne : ∀ {q u}, u ∈ queue s q → u ≠ t := fun {q u} hu e => hq q (e ▸ hu)
  exact
    { toQueues := hQ
      toLinks := hlinks
      attached := hatt
      live := fun {q u} hu => by
        rw [hqueue] at hu
        rw [hother (hne hu)]
        exact h.live hu
      loose := fun {q u} hu => by
        rw [hqueue] at hu
        have hl := h.loose hu
        refine ⟨fun c hc => hl.leaf c (hup.mp hc), fun {d y} hd hm hy => ?_⟩
        exact hl.unread (halive.mp hd) (by grind) (hother (hne hu) ▸ hy)
      called := fun {d u y b'} hd hu hy hb' ho hn => by
        rw [hqueue] at hu
        rw [hother (hne hu)] at hy
        rcases hstk d with e | ⟨_, hidle⟩
        · obtain ⟨v, l, z, hv, hz, hzf, hdesc⟩ := h.called (halive.mp hd) hu hy (hbuf hb') ho hn
          obtain ⟨z', hz', e'⟩ := hforth hz
          exact ⟨v, l, z', e.trans hv, hz', e'.trans hzf, TransGen.mono (fun _ _ => hup.mpr) _ _ hdesc⟩
        · exact absurd (hidle u y b' hu hy (hbuf hb') ho hn) id
      oneWay := fun {m u y} hu hy => by
        rw [hqueue] at hu
        exact h.oneWay hu (hother (hne hu) ▸ hy)
      target := fun {u y f b'} hy hf hb' => by
        obtain ⟨y0, hy0, e⟩ := hback hy
        exact h.target hy0 (e ▸ hf) (hbuf hb') }

theorem StackInv.freeBuffer (hq : ∀ q, t ∉ queue s q)
    (hb : s.buffer t = some b) (htx : s' = s ∧ b.transaction = false ∨
      ∃ x, s.tx t = some x ∧ s' = setTx t (some { x with buffer := false }) s) :
    StackInv none stk (setBuffer t none s') := by
  have hatt := h.attached
  rcases htx with ⟨rfl, hbt⟩ | ⟨x, hx, rfl⟩
  · refine h.changeTx hq (fun _ => rfl) (by grind) (by grind) Iff.rfl rfl (by grind) Iff.rfl (fun _ => .inl rfl)
      (h.toQueues.freeBuffer hq) (h.toLinks.congr rfl rfl rfl) fun u => ?_
    have := hatt u
    grind
  refine h.changeTx hq (by grind) (by grind) (by grind) (by grind) rfl (by grind) Iff.rfl (fun _ => .inl rfl)
    ((h.toQueues.quiet (Still.setTx hx { x with buffer := false } rfl).quiet).freeBuffer hq)
    ((h.toLinks.setBufferFlag hx false).congr rfl rfl rfl) fun u => ?_
  have := hatt u
  grind

theorem StackInv.moveAsync {rest : List Work}
    (hl : s.todo (.async n) = .transaction u :: rest) :
    StackInv none stk (addTail (.thread a) (.transaction u) (setTodo (.async n) rest s)) := by
  have hu : u ∈ queue s (.async n) := by rw [mem_queue, hl]; simp
  obtain ⟨x, hx, hxb⟩ := h.live hu
  obtain ⟨b, hb, hf⟩ := h.queued hu
  have ho := h.oneWay hu hx
  refine (h.dropHead hl).enqueue (fun q => h.head_gone hl) hx hxb
    ⟨(h.loose hu).leaf, (h.loose hu).unread⟩ hb hf (by simp) fun _ _ _ ho' _ => ?_
  rw [ho] at ho'
  cases ho'

theorem bcFreeBuffer_inv {es : List Event} (hone : OneWayInv s es)
    (hth : s.thread a = some th) :
    ∃ o s' stk', bcFreeBuffer a t s = .ok (o, s') ∧ StackInv none stk' s' := by
  simp only [bcFreeBuffer, getThread_eq.mpr hth, ok_bind]
  cases hb : s.buffer t with
  | none => exact ⟨[], s, stk, rfl, h⟩
  | some b =>
    dsimp only
    split
    · exact ⟨[], s, stk, rfl, h⟩
    rename_i hok
    simp only [not_or, Bool.not_eq_false] at hok
    have hq : ∀ q, t ∉ queue s q := fun q => h.not_queued_of_delivered hb hok.2
    have hdetach : ∃ s1, detachTransaction t b s = .ok s1 ∧ (s1 = s ∧ b.transaction = false ∨
        ∃ x, s.tx t = some x ∧ s1 = setTx t (some { x with buffer := false }) s) := by
      cases hbt : b.transaction with
      | false => exact ⟨s, by simp [detachTransaction, hbt], .inl ⟨rfl, rfl⟩⟩
      | true =>
        obtain ⟨x, hx, _⟩ := (h.attached t).mpr ⟨b, hb, hbt⟩
        exact ⟨_, by simp [detachTransaction, hbt, getTx_eq.mpr hx], .inr ⟨x, hx, rfl⟩⟩
    obtain ⟨s1, hs1, hcase⟩ := hdetach
    have hstill := (detachTransaction_steady hs1).1
    have hfree := h.freeBuffer hq hb hcase
    have hnext : ∃ s2, nextAsync a b s1 = .ok s2 ∧ StackInv none stk (setBuffer t none s2) := by
      unfold nextAsync
      split
      next m hm hn =>
        have hout : Outside s m t := ⟨b, hb, hm, hn, hq _⟩
        rw [hstill.node, (hone.hasAsync m).mpr ⟨t, hout⟩, if_neg (by simp)]
        split
        · exact ⟨_, rfl, hfree.setNode⟩
        next w rest hl =>
          obtain ⟨v, _, rfl, _⟩ := hfree.asyncTodo (n := m) (w := w) (by rw [setBuffer_todo, hl]; simp)
          exact ⟨_, rfl, hfree.moveAsync hl⟩
      · exact ⟨s1, rfl, hfree⟩
    obtain ⟨s2, hs2, h2⟩ := hnext
    exact ⟨[], setBuffer t none s2, stk, by simp only [hs1, hs2, ok_bind], h2⟩

/-! ## Reads -/

theorem senderPid_inv (hx : s.tx t = some x) : ∃ r, senderPid x s = .ok r := by
  unfold senderPid
  cases hf : x.fromThread with
  | none => exact ⟨none, rfl⟩
  | some f =>
    obtain ⟨⟨_, fth, hfth⟩, _⟩ := h.sender hx hf
    exact ⟨some fth.proc, by simp [getThread_eq.mpr hfth]⟩

theorem StackInv.deliver (hq : ∀ q, t ∉ queue s q) (hb : s.buffer t = some b) :
    StackInv none stk (setBuffer t (some { b with allowUserFree := true }) s) where
  toQueues := h.toQueues.deliver hq hb
  toLinks := h.toLinks.congr rfl rfl rfl
  attached u := by
    have := h.attached u
    grind
  live := h.live
  loose hu := ⟨(h.loose hu).leaf, (h.loose hu).unread⟩
  called {d u y b'} hd hu hy hb' ho hn := by
    exact h.called hd hu hy (b := b') (by grind) ho hn
  oneWay := h.oneWay
  target {u y f b'} hy hf hb' := by
    have := @h.target u y f
    grind

theorem StackInv.receive (hq : ∀ q, t ∉ queue s q) (hl : Loose none stk s t)
    (hx : s.tx t = some x) (hth : s.thread a = some th) (hf : x.fromThread ≠ some a) (ho : x.oneWay = false)
    (hcb : ∀ q, th.stack = some q → TransGen (Up s) t q ∧ ∃ y, s.tx q = some y ∧ y.fromThread = some a)
    (hidle : ∀ u x b, u ∈ queue s (.thread a) → s.tx u = some x → s.buffer u = some b → x.oneWay = false →
      b.targetNode.isSome → False) :
    ∃ stk', StackInv none stk' (setThread a (some { th with stack := some t, waiting := none })
      (setTx t (some { x with toParent := th.stack, toThread := some a }) s)) := by
  have hatt := h.attached
  refine ⟨update stk a (t :: stk a), h.changeTx hq (by grind) (by grind) (by grind) (by grind) rfl (fun h => h)
    (alive_setThread (s := setTx t _ s) hth) (fun d => ?_)
    (h.toQueues.quiet ((Still.setTx hx _ (by rfl)).trans Still.setThread).quiet)
    (h.toLinks.pushReceived { th with stack := some t, waiting := none } hl hx (by simp) hth hf ho hcb rfl (by simp))
    fun u => ?_⟩
  · by_cases e : d = a
    · subst e
      exact .inr ⟨update_self .., hidle⟩
    · exact .inl (update_of_ne e ..)
  · have := hatt u
    grind

end

def ReadsFrom (s : State) (a : ThreadId) (th : Thread) (q : Place) : Prop :=
  q = .thread a ∨ (∃ p, q = .proc p) ∧ s.todo (.thread a) = [] ∧ th.waiting = some true

section

variable (h : StackInv none stk s)

include h

theorem StackInv.callback_of_reads (hth : s.thread a = some th)
    (hr : ReadsFrom s a th q) (ht : t ∈ queue s q) (hx : s.tx t = some x) (hb : s.buffer t = some b)
    (ho : x.oneWay = false) (hn : b.targetNode.isSome) :
    x.fromThread ≠ some a ∧ ∀ v, th.stack = some v →
      TransGen (Up s) t v ∧ ∃ y, s.tx v = some y ∧ y.fromThread = some a := by
  have ha : Alive none s a := ⟨by simp, th, hth⟩
  rcases hr with rfl | ⟨_, _, hw⟩
  · obtain ⟨v, l, y, hv, hy, hyf, hd⟩ := h.called ha ht hx hb ho hn
    refine ⟨fun hf => ?_, fun w hw => ?_⟩
    · obtain ⟨_, m, hm⟩ := h.toLinks.top_of_leaf hx hf (h.loose ht).leaf hth
      rw [hv] at hm
      cases hm
      exact (h.loose ht).leaf.not_transGen hd
    have hc := h.chain (by simp) hth
    rw [hv, hw] at hc
    cases hc.1
    exact ⟨hd, y, hy, hyf⟩
  · have hs := h.waits hth hw
    have := fun hf => (h.sender (a := a) hx hf).2.1
    have := h.stack_nil hth hs
    exact ⟨by grind, by simp [hs]⟩

theorem StackInv.no_other_call {rest : List Work} (hth : s.thread a = some th)
    (hr : ReadsFrom s a th q) (hl : s.todo q = .transaction t :: rest) (hx : s.tx t = some x)
    (hb : s.buffer t = some b) (ho : x.oneWay = false) (hn : b.targetNode.isSome) {y : Tx} {b' : Buffer}
    (hu : u ∈ queue (setTodo q rest s) (.thread a)) (hy : s.tx u = some y) (hb' : s.buffer u = some b')
    (hyo : y.oneWay = false) (hyn : b'.targetNode.isSome) : False := by
  have ha : Alive none s a := ⟨by simp, th, hth⟩
  have ht : t ∈ queue s q := by rw [mem_queue, hl]; simp
  have hu' := mem_queue_dropHead hl hu
  rcases hr with rfl | ⟨_, hempty, _⟩
  · obtain ⟨v, l, _, hv, _, _, hd⟩ := h.called ha ht hx hb ho hn
    obtain ⟨v', l', _, hv', _, _, hd'⟩ := h.called ha hu' hy hb' hyo hyn
    rw [hv] at hv'
    cases hv'
    have e := (h.loose ht).leaf.unique h.child (h.loose hu').leaf hd.to_reflTransGen hd'.to_reflTransGen
    exact h.head_gone hl (e ▸ hu)
  · rw [queue, hempty] at hu'
    cases hu'

theorem readTransaction_inv {rest : List Work} (hth : s.thread a = some th)
    (hr : ReadsFrom s a th q) (hl : s.todo q = .transaction t :: rest) :
    ∃ o s' stk', readTransaction a q rest t s = .ok (o, s') ∧ StackInv none stk' s' := by
  have ht : t ∈ queue s q := by rw [mem_queue, hl]; simp
  obtain ⟨x, hx, hxb⟩ := h.live ht
  obtain ⟨b, hb, _⟩ := h.queued ht
  obtain ⟨r, hsend⟩ := senderPid_inv h hx
  have hgone : ∀ q', t ∉ queue (setTodo q rest s) q' := fun q' => h.head_gone hl
  have h1 := (h.dropHead hl).deliver hgone hb
  have hloose : Loose none stk (setBuffer t (some { b with allowUserFree := true }) (setTodo q rest s)) t :=
    ⟨(h.loose ht).leaf, (h.loose ht).unread⟩
  simp only [readTransaction, getTx_eq.mpr hx, ok_bind]
  rw [if_neg (by simp [hxb])]
  simp only [getBuffer_eq.mpr hb, hsend, ok_bind]
  have hth1 : (setBuffer t (some { b with allowUserFree := true }) (setTodo q rest s)).thread a = some th := hth
  rw [getThread_eq.mpr hth1, ok_bind]
  split
  next n hn ho =>
    have hn' : b.targetNode.isSome := by rw [hn]; rfl
    obtain ⟨hf, hcb⟩ := h.callback_of_reads hth hr ht hx hb ho hn'
    obtain ⟨stk', h'⟩ := h1.receive hgone hloose hx hth1 hf ho hcb fun u y b' hu hy hb' hyo hyn => by
      have hne : u ≠ t := fun e => hgone _ (e ▸ hu)
      rw [setBuffer_buffer, if_neg hne] at hb'
      exact h.no_other_call hth hr hl hx hb ho hn' hu hy hb' hyo hyn
    exact ⟨_, _, stk', rfl, h'⟩
  rename_i hno
  have hf : x.fromThread = none := by
    cases hf : x.fromThread with
    | none => rfl
    | some f =>
      obtain ⟨ha, hmem, _⟩ := h.sender hx hf
      obtain ⟨n, hn⟩ := Option.isSome_iff_exists.mp (h.target hx hf hb)
      exact absurd (h.onStack ha hmem hx) (hno n hn)
  obtain ⟨s2, hs2, h2, hth2, _⟩ := binderPopTransaction_none h1 hloose hgone hx hf
  obtain ⟨x', hx', hs2⟩ := bind_ok hs2
  cases (getTx_eq.mpr hx).symm.trans hx'
  obtain ⟨s3, hs3, e⟩ := bind_ok hs2
  cases e
  have hth3 := (congrFun hth2 a).trans hth1
  exact ⟨_, _, stk, by rw [hs3]; rfl, h2.sameStack hth3 { th with waiting := none } rfl (by simp)⟩

theorem readItem_inv (hth : s.thread a = some th) :
    ∃ o s' stk', readItem a s = .ok (o, s') ∧ StackInv none stk' s' := by
  simp only [readItem, getThread_eq.mpr hth, ok_bind]
  have hr : ReadsFrom s a th (if s.todo (.thread a) = [] ∧ th.waiting = some true then .proc th.proc
      else .thread a) := by
    split
    · next hp => exact .inr ⟨⟨_, rfl⟩, hp⟩
    · exact .inl rfl
  generalize (if s.todo (.thread a) = [] ∧ th.waiting = some true then Place.proc th.proc
    else .thread a) = q at hr
  split
  · exact ⟨[], s, stk, rfl, h⟩
  · next hl => exact ⟨_, _, stk, rfl, h.dropHead hl⟩
  · next hl => exact readTransaction_inv h hth hr hl

theorem readBegin_inv {room : Nat} {fault : Bool} (hth : s.thread a = some th) :
    ∃ o s' stk', readBegin a room fault s = .ok (o, s') ∧ StackInv none stk' s' := by
  have hw := h.waits hth
  simp only [readBegin, getThread_eq.mpr hth, ok_bind]
  split
  · split
    · split
      · exact ⟨_, s, stk, rfl, h⟩
      · split
        · exact ⟨_, _, stk, rfl, h.sameStack hth { th with returnError2 := .ok } rfl hw⟩
        · exact ⟨_, _, stk, rfl, h.sameStack hth { th with returnError := .ok, returnError2 := .ok } rfl hw⟩
    · exact ⟨_, _, stk, rfl, h.sameStack hth { th with returnError := .ok } rfl hw⟩
  refine ⟨_, _, stk, rfl, h.sameStack hth { th with
    waiting := some (decide (th.stack = none ∧ s.todo (.thread a) = [])) } rfl fun e => ?_⟩
  simp only [Option.some.injEq, decide_eq_true_eq] at e
  exact e.1

end

/-- The operation is not a call that the driver would send to the calling thread itself. -/
def Op.NoSelfCall (s : State) : Op → Prop
  | .bcTransaction a (.node n) false none => ∀ p, (s.node n).proc = some p → ¬ SelfCall s a p
  | _ => True

theorem exec_inv {es : List Event} {op : Op} (h : StackInv none stk s) (hone : OneWayInv s es)
    (hop : op.Permitted s) (hself : op.NoSelfCall s) :
    ∃ o s' stk', exec s op = .ok (o, s') ∧ StackInv none stk' s' := by
  cases op with
  | newThread a p => exact ⟨[], _, _, rfl, newThread_inv h hop⟩
  | bcTransaction a target oneWay outcome =>
    obtain ⟨th, hth, hw, he⟩ := hop
    refine bcTransaction_inv h hth hw he fun n p ht ho hout hp => ?_
    subst ht ho hout
    exact hself p hp
  | bcReply a oneWay outcome =>
    obtain ⟨th, hth, hw, he⟩ := hop
    exact bcReply_inv h hth hw he
  | bcFreeBuffer a t =>
    obtain ⟨th, hth, _⟩ := hop
    exact bcFreeBuffer_inv h hone hth
  | readBegin a room fault =>
    obtain ⟨th, hth, _⟩ := hop
    exact readBegin_inv h hth
  | readItem a =>
    obtain ⟨th, hth, _⟩ := hop
    exact readItem_inv h hth
  | readEnd a =>
    obtain ⟨th, hth, _⟩ := hop
    exact ⟨[], _, stk, by simp only [exec, readEnd, getThread_eq.mpr hth, ok_bind],
      h.sameStack hth { th with waiting := none } rfl (by simp)⟩
  | threadExit a =>
    obtain ⟨th, hth, _⟩ := hop
    obtain ⟨s', stk', hs', h'⟩ := threadExit_inv h hth
    exact ⟨[], s', stk', hs', h'⟩

theorem StackInv.init (h : Initial s) : StackInv none (fun _ => []) s := by
  obtain ⟨hth, htodo, _, htx, hbuf⟩ := h
  have hq : ∀ p, queue s p = [] := fun p => by rw [queue, htodo]; rfl
  constructor
  case toQueues => constructor <;> simp [htodo, htx, hbuf, hq]
  case toLinks => constructor <;> simp [hth, htx, Up]
  all_goals simp [Attached, htx, hbuf, hq]

end G3Mod.Binder.Transaction
