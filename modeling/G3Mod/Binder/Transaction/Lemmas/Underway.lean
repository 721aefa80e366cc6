import G3Mod.Binder.Transaction.Lemmas.OneWay

/-!
# Where the one-way transactions are
-/

namespace G3Mod.Binder.Transaction

open Function Lib

variable {s s' s'' : State} {es o : List Event} {t u : Nat} {a f : ThreadId} {p : ProcId} {n : NodeId}
  {b : Buffer} {th : Thread} {e : Option ReturnError}

@[grind =] def Queued (s : State) (p : ProcId) (t : Nat) : Prop :=
  t ∈ queue s (.proc p) ∨ ∃ a th, s.thread a = some th ∧ th.proc = p ∧ t ∈ queue s (.thread a)

/-- The buffers of one-way transactions belong to the process of the node, and none of the transactions is
lost. -/
structure Underway (s : State) : Prop where
  target : ∀ {t b}, s.buffer t = some b → b.asyncTransaction = true → ∃ n, b.targetNode = some n
  proc : ∀ {t b n}, s.buffer t = some b → b.asyncTransaction = true → b.targetNode = some n →
    (s.node n).proc = some b.proc
  held : ∀ {t b n}, s.buffer t = some b → b.asyncTransaction = true → b.targetNode = some n →
    b.allowUserFree = false → t ∈ queue s (.async n) ∨ Queued s b.proc t

/-! ## Steps that lose nothing -/

/-- The step accepts no one-way transaction and takes none off a list without delivering it. -/
structure Carries (s s' : State) : Prop where
  node : ∀ n, (s'.node n).proc = (s.node n).proc
  buffer : ∀ {t b'}, s'.buffer t = some b' → b'.asyncTransaction = true → ∃ b, s.buffer t = some b ∧
    b.asyncTransaction = true ∧ b.targetNode = b'.targetNode ∧ b.proc = b'.proc ∧
    (b'.allowUserFree = false → b.allowUserFree = false)
  async : ∀ {t b' n}, s'.buffer t = some b' → b'.asyncTransaction = true → b'.allowUserFree = false →
    t ∈ queue s (.async n) → t ∈ queue s' (.async n)
  queued : ∀ {t b' p}, s'.buffer t = some b' → b'.asyncTransaction = true → b'.allowUserFree = false →
    Queued s p t → Queued s' p t

theorem Carries.refl : Carries s s :=
  ⟨fun _ => rfl, fun hb ha => ⟨_, hb, ha, rfl, rfl, id⟩, fun _ _ _ => id, fun _ _ _ => id⟩

theorem Carries.trans (h : Carries s s') (h' : Carries s' s'') : Carries s s'' where
  node n := (h'.node n).trans (h.node n)
  buffer hb ha := by
    obtain ⟨b', hb', ha', hn', hp', hf'⟩ := h'.buffer hb ha
    obtain ⟨b, hb, ha, hn, hp, hf⟩ := h.buffer hb' ha'
    exact ⟨b, hb, ha, hn.trans hn', hp.trans hp', fun e => hf (hf' e)⟩
  async hb ha hf ht := by
    obtain ⟨b', hb', ha', _, _, hf'⟩ := h'.buffer hb ha
    exact h'.async hb ha hf (h.async hb' ha' (hf' hf) ht)
  queued hb ha hf ht := by
    obtain ⟨b', hb', ha', _, _, hf'⟩ := h'.buffer hb ha
    exact h'.queued hb ha hf (h.queued hb' ha' (hf' hf) ht)

theorem Underway.carry (h : Underway s) (hc : Carries s s') : Underway s' where
  target hb ha := by
    obtain ⟨b, hb, ha, hn, _⟩ := hc.buffer hb ha
    rw [← hn]
    exact h.target hb ha
  proc hb ha hn := by
    obtain ⟨b, hb, ha, hn', hp, _⟩ := hc.buffer hb ha
    rw [hc.node, ← hp]
    exact h.proc hb ha (hn'.trans hn)
  held hb' ha' hn' hf' := by
    obtain ⟨b, hb, ha, hn, hp, hf⟩ := hc.buffer hb' ha'
    rw [← hp]
    exact (h.held hb ha (hn.trans hn') (hf hf')).imp (hc.async hb' ha' hf') (hc.queued hb' ha' hf')

theorem Queued.mono (ht : Queued s p t) (hth : ∀ a th, s.thread a = some th → t ∈ queue s (.thread a) →
    ∃ th', s'.thread a = some th' ∧ th'.proc = th.proc) (hq : ∀ q, t ∈ queue s q → t ∈ queue s' q) :
    Queued s' p t := by
  rcases ht with ht | ⟨a, th, ha, hp, ht⟩
  · exact .inl (hq _ ht)
  · obtain ⟨th', ha', hp'⟩ := hth a th ha ht
    exact .inr ⟨a, th', ha', hp'.trans hp, hq _ ht⟩

theorem Carries.lists (hth : s'.thread = s.thread) (hn : ∀ n, (s'.node n).proc = (s.node n).proc)
    (hb : s'.buffer = s.buffer)
    (hq : ∀ q t b, s.buffer t = some b → b.asyncTransaction = true → t ∈ queue s q → t ∈ queue s' q) :
    Carries s s' where
  node := hn
  buffer hb' ha := ⟨_, hb ▸ hb', ha, rfl, rfl, id⟩
  async hb' ha _ ht := hq _ _ _ (hb ▸ hb') ha ht
  queued hb' ha _ ht := ht.mono (fun a th h _ => ⟨th, by rw [hth, h], rfl⟩)
    fun q => hq q _ _ (hb ▸ hb') ha

theorem Carries.addTail {q : Place} {w : Work} : Carries s (addTail q w s) :=
  .lists rfl (fun _ => rfl) rfl fun q' t _ _ _ ht => by
    rw [mem_queue] at ht ⊢
    grind

theorem Carries.buffers (hth : s'.thread = s.thread) (hn : s'.node = s.node) (htodo : s'.todo = s.todo)
    (hb : ∀ {t b'}, s'.buffer t = some b' → b'.asyncTransaction = true → s.buffer t = some b') : Carries s s' where
  node n := by rw [hn]
  buffer hb' ha := ⟨_, hb hb' ha, ha, rfl, rfl, id⟩
  async _ _ _ ht := by rwa [queue, htodo]
  queued _ _ _ ht := ht.mono (fun a th h _ => ⟨th, by rw [hth, h], rfl⟩) fun q hq => by rwa [queue, htodo]

theorem Carries.newSync {x : Tx} (hb : b.asyncTransaction = false) : Carries s (newTx x b s) :=
  .buffers rfl rfl rfl (by grind)

theorem Carries.freeBuffer : Carries s (Transaction.setBuffer t none s) := .buffers rfl rfl rfl (by grind)

variable {q : Place} {w : Work} {rest : List Work}

theorem mem_queue_rest (hl : s.todo q = w :: rest)
    (hw : w ≠ .transaction t) {q' : Place} (ht : t ∈ queue s q') : t ∈ queue (setTodo q rest s) q' := by
  rw [mem_queue] at ht ⊢
  grind

theorem Carries.dropHead (hl : s.todo q = w :: rest)
    (hw : ∀ t b, w = .transaction t → s.buffer t = some b → b.asyncTransaction = false) :
    Carries s (setTodo q rest s) :=
  .lists rfl (fun _ => rfl) rfl fun _ t b hb ha ht =>
    mem_queue_rest hl (fun e => by simp [hw t b e hb] at ha) ht

theorem Carries.deliver (hl : s.todo q = .transaction t :: rest)
    (hb : s.buffer t = some b) :
    Carries s (Transaction.setBuffer t (some { b with allowUserFree := true }) (setTodo q rest s)) := by
  have hne : ∀ {u c}, (Transaction.setBuffer t (some { b with allowUserFree := true })
      (setTodo q rest s)).buffer u = some c → c.allowUserFree = false → u ≠ t := by grind
  have hrest : ∀ {u}, u ≠ t → ∀ q', u ∈ queue s q' → u ∈ queue (setTodo q rest s) q' :=
    fun hu q' => mem_queue_rest hl (by simpa using hu.symm)
  exact
    { node := fun _ => rfl
      buffer := fun {u c} hc ha => by grind
      async := fun hc _ hf ht => hrest (hne hc hf) _ ht
      queued := fun hc _ hf ht => ht.mono (fun c cth hc _ => ⟨cth, hc, rfl⟩) (hrest (hne hc hf)) }

theorem Steady.carries (h : Steady s s') : Carries s s' where
  node n := by rw [h.node]
  buffer {t b'} hb ha := by
    obtain ⟨b, hb0, hk⟩ := h.quiet.buffer_back hb
    have hp := h.bufferProc t
    simp only [hb, hb0, Option.map_some, Option.some.injEq] at hp
    obtain ⟨h1, h2, h3⟩ := kind_eq hk
    exact ⟨b, hb0, h2.trans ha, h1, hp.symm, h3.trans⟩
  async _ _ _ ht := by rwa [queue, h.todo]
  queued _ _ _ ht := ht.mono (fun a th ha _ => h.threadProc ha) fun q hq => by rwa [queue, h.todo]

/-! ## Commands -/

theorem acceptSync_carries {target : Option ThreadId} (hth : s.thread a = some th) :
    Carries s (acceptSync a th n p target s) := by
  have hnew : Carries s (newTx ⟨some a, th.stack, target, none, true, false⟩
      (newBuffer p (some n) false) s) := .newSync rfl
  have hth' : (newTx ⟨some a, th.stack, target, none, true, false⟩
      (newBuffer p (some n) false) s).thread a = some th := hth
  exact ((hnew.trans (Steady.setThread hth' { th with stack := some s.next } rfl).carries).trans .addTail).trans
    .addTail

variable {oneWay : Bool}

theorem bcReply_carries (hx : bcReply a oneWay e s = .ok (o, s')) : Carries s s' := by
  obtain ⟨rfl, hs | ⟨s1, f, p, t, hs, h1⟩⟩ := bcReply_cases hx
  · exact hs.carries
  obtain ⟨s2, h2, h1⟩ := bind_ok h1
  cases h1
  exact (((hs.carries.trans (.newSync rfl)).trans (binderPopTransaction_steady h2).carries).trans
    .addTail).trans .addTail

theorem Underway.accept (h : Underway s) (hth : s'.thread = s.thread)
    (hnode : ∀ m, (s'.node m).proc = (s.node m).proc)
    (hb : ∀ u, s'.buffer u = if u = s.next then some (newBuffer p (some n) true) else s.buffer u)
    (hq : ∀ q u, u ∈ queue s q → u ∈ queue s' q) (hn : (s.node n).proc = some p)
    (ht : s.next ∈ queue s' (.async n) ∨ s.next ∈ queue s' (.proc p)) : Underway s' where
  target {u c} hc ha := by
    have := @h.target u c
    grind [newBuffer]
  proc {u c m} hc ha hm := by
    have := @h.proc u c m
    grind [newBuffer]
  held {u c m} hc ha hm hf := by
    rw [hb] at hc
    split at hc
    next e =>
      cases hc
      cases hm
      exact e ▸ ht.imp_right .inl
    · refine (h.held hc ha hm hf).imp (hq _ u) fun hu => hu.mono (fun a th ha _ => ⟨th, ?_, rfl⟩) fun q => hq q u
      rw [hth, ha]

theorem bcTransaction_underway (h : Underway s) {target : Target}
    (hx : bcTransaction a target oneWay e s = .ok (o, s')) : Underway s' := by
  rcases bcTransaction_cases hx with ⟨rfl, hs⟩ | ⟨n, p, th, r, hth, rfl, rfl⟩ | ⟨n, p, hn, rfl, rfl⟩
  · exact h.carry hs.carries
  · exact h.carry (acceptSync_carries hth)
  refine Underway.carry ?_ Carries.addTail
  split
  · exact h.accept rfl (fun _ => rfl) (fun u => newTx_buffer (x := ⟨none, none, none, none, true, true⟩))
      (by grind) hn (.inl (by grind))
  · exact h.accept rfl (by grind) (fun u => newTx_buffer (x := ⟨none, none, none, none, true, true⟩))
      (by grind) hn (.inr (by grind))

theorem Underway.handOver (h : Underway s) (hth : s.thread a = some th)
    (hn : (s.node n).proc = some th.proc) (hl : s.todo (.async n) = w :: rest) :
    Underway (addTail (.thread a) w (setTodo (.async n) rest s)) where
  target := h.target
  proc := h.proc
  held {u c m} hc ha hm hf := by
    have := h.proc hc ha hm
    have := h.held hc ha hm hf
    grind [mem_queue]

theorem bcFreeBuffer_underway (h : Underway s) (hx : bcFreeBuffer a t s = .ok (o, s')) : Underway s' := by
  obtain ⟨rfl, rfl | ⟨th, b, s1, s2, hth, hb, hp, _, h1, h2, rfl⟩⟩ := bcFreeBuffer_cases hx
  · exact h
  obtain ⟨hs, ht, _⟩ := detachTransaction_steady h1
  refine Underway.carry ?_ Carries.freeBuffer
  unfold nextAsync at h2
  split at h2
  next n ha hn =>
    split at h2
    · cases h2
    split at h2
    · cases h2
      exact (h.carry hs.carries).carry (.lists rfl (by grind) rfl fun _ _ _ _ _ => id)
    rename_i w rest hl
    cases h2
    refine (h.carry hs.carries).handOver ((congrFun ht _).trans hth) ?_ hl
    rw [hs.node, h.proc hb ha hn, hp]
  · cases h2
    exact h.carry hs.carries

theorem readTransaction_carries (hl : s.todo q = .transaction t :: rest)
    (hx : readTransaction a q rest t s = .ok (o, s')) : Carries s s' := by
  obtain ⟨x, b, _, hb, rfl, hs⟩ := readTransaction_cases hx
  exact (Carries.deliver hl hb).trans hs.carries

theorem readItem_carries (hx : readItem a s = .ok (o, s')) : Carries s s' := by
  rcases readItem_cases hx with ⟨rfl, rfl⟩ | ⟨q, w, rest, _, hl, ⟨rfl, rfl, rfl⟩ | ⟨t, rfl, hx⟩⟩
  · exact .refl
  · exact .dropHead hl fun t b e => by cases e
  · exact readTransaction_carries hl hx

/-! ## The exit of a thread -/

def NoneOneWay (s : State) (q : Place) : Prop :=
  ∀ t ∈ queue s q, ∀ b, s.buffer t = some b → b.asyncTransaction = false

theorem NoneOneWay.carry (h : NoneOneWay s q) (hc : Carries s s')
    (hq : ∀ t ∈ queue s' q, t ∈ queue s q) : NoneOneWay s' q := by
  intro t ht b' hb'
  by_contra ha
  obtain ⟨b, hb, ha, _⟩ := hc.buffer hb' (by simpa using ha)
  rw [h t (hq t ht) b hb] at ha
  cases ha

theorem releaseWork_carries {l : List Work} (hl : s.todo q = l) (hno : NoneOneWay s q)
    (h : releaseWork q l s = .ok s') : Carries s s' := by
  refine (releaseWork_keeps (R := fun t => Carries s t ∧ NoneOneWay t q) ?_ ?_ ⟨.refl, hno⟩ hl h).1.1
  · intro s1 w rest h1 hl
    have hd : Carries s1 (setTodo q rest s1) :=
      .dropHead hl fun t b e => h1.2 t (by rw [mem_queue, hl, e]; simp) b
    exact ⟨h1.1.trans hd, h1.2.carry hd fun t ht => mem_queue_dropHead hl ht⟩
  · intro s1 s2 h1 hs
    exact ⟨h1.1.trans hs.carries, h1.2.carry hs.carries fun u hu => by rwa [queue, hs.todo] at hu⟩

theorem releaseWork_todo (h : releaseWork q (s.todo q) s = .ok s') : s'.todo q = [] :=
  (releaseWork_keeps (R := fun _ => True) (fun _ _ => trivial) (fun _ _ => trivial) trivial rfl h).2

theorem Carries.removeThread (hl : s.todo (.thread a) = []) : Carries s (Transaction.setThread a none s) where
  node _ := rfl
  buffer hb ha := ⟨_, hb, ha, rfl, rfl, id⟩
  async _ _ _ ht := ht
  queued _ _ _ ht := ht.mono (fun c cth hc hu => by
    rw [mem_queue] at hu
    grind) fun _ => id

theorem threadExit_carries (hno : NoneOneWay s (.thread a)) (h : threadExit a s = .ok (o, s')) :
    Carries s s' := by
  obtain ⟨rfl, s1, s2, hs, h2, rfl⟩ := threadExit_cases h
  have hr := releaseWork_carries rfl (hno.carry hs.carries fun u hu => by rwa [queue, hs.todo] at hu) h2
  exact (hs.carries.trans hr).trans (.removeThread (releaseWork_todo h2))

theorem threadExit_todo (h : threadExit a s = .ok (o, s')) : s'.todo (.thread a) = [] := by
  obtain ⟨rfl, s1, s2, _, h2, rfl⟩ := threadExit_cases h
  rw [setThread_todo]
  exact releaseWork_todo h2

def Op.LosesNone (s : State) : Op → Prop
  | .threadExit a => NoneOneWay s (.thread a)
  | _ => True

theorem exec_underway (h : Underway s) {op : Op} (hop : op.Permitted s) (hno : op.LosesNone s)
    (hx : exec s op = .ok (o, s')) : Underway s' := by
  cases op with
  | newThread a p =>
    cases hx
    have hop : s.thread a = none := hop
    refine h.carry ⟨fun _ => rfl, fun hb ha => ⟨_, hb, ha, rfl, rfl, id⟩, fun _ _ _ ht => ?_, fun _ _ _ ht => ?_⟩
    · grind [newThread]
    · grind [newThread]
  | bcTransaction a target oneWay outcome => exact bcTransaction_underway h hx
  | bcReply a oneWay outcome => exact h.carry (bcReply_carries hx)
  | bcFreeBuffer a t => exact bcFreeBuffer_underway h hx
  | readBegin a room fault => exact h.carry (readBegin_cases hx).2.carries
  | readItem a => exact h.carry (readItem_carries hx)
  | readEnd a =>
    exact h.carry (readEnd_cases hx).2.carries
  | threadExit a => exact h.carry (threadExit_carries hno hx)

/-- A one-way transaction of the node is on a list of the node's process, or delivered with its buffer not
yet freed. -/
def Progressing (s : State) (n : NodeId) : Prop :=
  ∃ t b, s.buffer t = some b ∧ b.asyncTransaction = true ∧ b.targetNode = some n ∧
    (s.node n).proc = some b.proc ∧ (Queued s b.proc t ∨ b.allowUserFree = true)

def Progress (s : State) : Prop :=
  ∀ n, s.todo (.async n) ≠ [] ∨ (s.node n).hasAsyncTransaction = true → Progressing s n

theorem Underway.progress (h : Underway s) (hone : OneWayInv s es) : Progress s := by
  intro n hn
  have hs : (s.node n).hasAsyncTransaction = true := hn.elim hone.pending id
  obtain ⟨t, b, hb, ha, ht, hq⟩ := (hone.hasAsync n).mp hs
  refine ⟨t, b, hb, ha, ht, h.proc hb ha ht, ?_⟩
  cases hf : b.allowUserFree with
  | true => exact .inr rfl
  | false => exact .inl ((h.held hb ha ht hf).resolve_left hq)

theorem threadExit_stops (h : Underway s) (hone : OneWayInv s es) (hx : threadExit a s = .ok (o, s'))
    (ht : t ∈ queue s (.thread a)) (hb : s.buffer t = some b) (ha : b.asyncTransaction = true) :
    ¬ Progress s' := by
  intro hp
  obtain ⟨n, hn⟩ := h.target hb ha
  obtain ⟨_, hq⟩ := threadExit_quiet hx
  have hone' := hone.quiet hq
  have hout : Outside s n t := ⟨b, hb, ha, hn, fun hq' => by cases hone.disjoint ht hq'⟩
  have hmark := (hone'.hasAsync n).mpr ⟨t, hq.outside.mpr hout⟩
  obtain ⟨u, c, hc, hca, hcn, _, hu⟩ := hp n (.inr hmark)
  -- the transaction that makes progress could only be `t`, which is on no list any more
  obtain ⟨c0, hc0, hk⟩ := hq.buffer_back hc
  obtain ⟨hk1, hk2, hk3⟩ := kind_eq hk
  have hplace : ∀ {q}, u ∈ queue s' q → (∀ m, q ≠ .async m) → q ≠ .thread a → False := by
    intro q hu' hq1 hq2
    have hu := (hq.todo q).subset hu'
    have : Outside s n u := ⟨c0, hc0, hk2.trans hca, hk1.trans hcn, fun h' => hq1 n (hone.disjoint hu h')⟩
    rw [hone.single this hout] at hu
    exact hq2 (hone.disjoint hu ht)
  rcases hu with (hu | ⟨d, dth, hd, _, hu⟩) | hu
  · exact hplace hu (by simp) (by simp)
  · refine hplace hu (by simp) fun e => ?_
    rw [mem_queue, e, threadExit_todo hx] at hu
    cases hu
  have hdel : c0.allowUserFree = true := hk3.trans hu
  have : Outside s n u := ⟨c0, hc0, hk2.trans hca, hk1.trans hcn, hone.not_queued_of_delivered hc0 hdel⟩
  rw [hone.single this hout] at hc0
  exact hone.not_queued_of_delivered hc0 hdel ht

theorem Underway.init (h : Initial s) : Underway s := by
  obtain ⟨_, _, _, _, hbuf⟩ := h
  constructor <;> simp [hbuf]

end G3Mod.Binder.Transaction
