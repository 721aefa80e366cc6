import G3Mod.Binder.Transaction.Lemmas.Basic
import G3Mod.Lib.Chain

/-!
# The lists of work items

A transaction is on at most one list, and only there can its buffer be one that user space does not have.
-/

namespace G3Mod.Binder.Transaction

open Function Lib

variable {s s' : State} {t u : Nat} {p q : Place} {b : Buffer}

/-- The lists of work items: a transaction is on at most one of them, with its buffer still there. -/
structure Queues (s : State) : Prop where
  bufferLt : ∀ {t b}, s.buffer t = some b → t < s.next
  kind : ∀ {t x b n}, s.tx t = some x → s.buffer t = some b → x.oneWay = true → b.targetNode = some n →
    b.asyncTransaction = true
  nodup : ∀ p, (queue s p).Nodup
  disjoint : ∀ {p q t}, t ∈ queue s p → t ∈ queue s q → p = q
  queued : ∀ {p t}, t ∈ queue s p → ∃ b, s.buffer t = some b ∧ b.allowUserFree = false
  asyncTodo : ∀ {n w}, w ∈ s.todo (.async n) → ∃ t b, w = .transaction t ∧ s.buffer t = some b ∧
    b.asyncTransaction = true ∧ b.targetNode = some n

theorem Queues.not_queued_of_delivered (h : Queues s) (hb : s.buffer t = some b)
    (hu : b.allowUserFree = true) : t ∉ queue s p := by
  intro hq
  obtain ⟨b', hb', hf⟩ := h.queued hq
  grind

theorem Queues.next_not_queued (h : Queues s) : s.next ∉ queue s p := by
  intro hq
  obtain ⟨b, hb, _⟩ := h.queued hq
  exact Nat.lt_irrefl _ (h.bufferLt hb)

theorem Queues.buffer_next (h : Queues s) : s.buffer s.next = none := by
  cases hb : s.buffer s.next with
  | none => rfl
  | some b => exact absurd (h.bufferLt hb) (Nat.lt_irrefl _)

/-! ## Quiet steps -/

theorem kind_eq {b b' : Buffer} (h : b.kind = b'.kind) : b.targetNode = b'.targetNode ∧
    b.asyncTransaction = b'.asyncTransaction ∧ b.allowUserFree = b'.allowUserFree := by
  simpa [Buffer.kind] using h

theorem Quiet.buffer_back (hq : Quiet s s') (hb : s'.buffer t = some b) :
    ∃ b0, s.buffer t = some b0 ∧ b0.kind = b.kind := by
  have h := hq.buffer t
  rw [hb] at h
  simpa using h.symm

theorem Quiet.buffer_forth (hq : Quiet s s') (hb : s.buffer t = some b) :
    ∃ b1, s'.buffer t = some b1 ∧ b1.kind = b.kind := by
  have h := hq.buffer t
  rw [hb] at h
  simpa using h

theorem Queues.quiet (h : Queues s) (hq : Quiet s s') : Queues s' where
  bufferLt hb := by
    obtain ⟨b0, hb0, _⟩ := hq.buffer_back hb
    exact hq.next ▸ h.bufferLt hb0
  kind hx hb ho hn := by
    obtain ⟨x0, hx0, he⟩ := hq.tx _ _ hx
    obtain ⟨b0, hb0, hk⟩ := hq.buffer_back hb
    obtain ⟨h1, h2, _⟩ := kind_eq hk
    exact h2 ▸ h.kind hx0 hb0 (he ▸ ho) (h1.trans hn)
  nodup p := (h.nodup p).sublist (hq.todo p)
  disjoint ht hu := h.disjoint ((hq.todo _).subset ht) ((hq.todo _).subset hu)
  queued ht := by
    obtain ⟨b, hb, hf⟩ := h.queued ((hq.todo _).subset ht)
    obtain ⟨b1, hb1, hk⟩ := hq.buffer_forth hb
    exact ⟨b1, hb1, (kind_eq hk).2.2.trans hf⟩
  asyncTodo hw := by
    rw [hq.async] at hw
    obtain ⟨t, b, rfl, hb, ha, hn⟩ := h.asyncTodo hw
    obtain ⟨b1, hb1, hk⟩ := hq.buffer_forth hb
    obtain ⟨h1, h2, _⟩ := kind_eq hk
    exact ⟨t, b1, rfl, hb1, h2.trans ha, h1.trans hn⟩

/-! ## The updates -/

theorem Queues.newTx_buffer_old {x : Tx} {b' : Buffer} (h : Queues s) (hb : s.buffer t = some b') :
    (newTx x b s).buffer t = some b' := by
  have := h.bufferLt hb
  grind

theorem Queues.newTx {x : Tx} (h : Queues s)
    (hx : ∀ n, x.oneWay = true → b.targetNode = some n → b.asyncTransaction = true) :
    Queues (newTx x b s) where
  bufferLt {t b'} hb' := by
    have := @h.bufferLt t b'
    grind
  kind {t x' b' n} hx' hb' ho hn := by
    have := @h.kind t x' b' n
    grind
  nodup := h.nodup
  disjoint := h.disjoint
  queued ht := by
    obtain ⟨b', hb', hf⟩ := h.queued ht
    exact ⟨b', h.newTx_buffer_old hb', hf⟩
  asyncTodo hw := by
    obtain ⟨t, b', rfl, hb', ha, hn⟩ := h.asyncTodo hw
    exact ⟨t, b', rfl, h.newTx_buffer_old hb', ha, hn⟩

theorem mem_addTail : u ∈ queue (addTail q (.transaction t) s) p ↔ u ∈ queue s p ∨ (p = q ∧ u = t) := by
  rw [queue_addTail]
  split <;> simp [*]

theorem Queues.addTail (h : Queues s) (ht : ∀ p, t ∉ queue s p) (hb : s.buffer t = some b)
    (hf : b.allowUserFree = false)
    (hq : ∀ n, q = .async n → b.asyncTransaction = true ∧ b.targetNode = some n) :
    Queues (addTail q (.transaction t) s) where
  bufferLt := h.bufferLt
  kind := h.kind
  nodup p := by
    have := h.nodup p
    grind
  disjoint {p1 p2 u} h1 h2 := by
    have := @h.disjoint p1 p2 u
    grind
  queued {p u} hu := by
    have := @h.queued p u
    grind
  asyncTodo {n w} hw := by
    have := @h.asyncTodo n w
    grind

theorem mem_queue_dropHead {w : Work} {rest : List Work} (hl : s.todo p = w :: rest)
    (hu : u ∈ queue (setTodo p rest s) q) : u ∈ queue s q := by
  grind [queue]

theorem Queues.dropHead {w : Work} {rest : List Work} (h : Queues s) (hl : s.todo p = w :: rest) :
    Queues (setTodo p rest s) where
  bufferLt := h.bufferLt
  kind := h.kind
  nodup q := by
    have := h.nodup q
    grind [queue]
  disjoint hu hv := h.disjoint (mem_queue_dropHead hl hu) (mem_queue_dropHead hl hv)
  queued hu := h.queued (mem_queue_dropHead hl hu)
  asyncTodo {n w'} hw := by
    have := @h.asyncTodo n w'
    grind

theorem Queues.head_gone {rest : List Work} (h : Queues s) (hl : s.todo p = .transaction t :: rest) :
    t ∉ queue (setTodo p rest s) q := by
  intro hq
  have ht : t ∈ queue s p := by rw [mem_queue, hl]; simp
  have e := h.disjoint ht (mem_queue_dropHead hl hq)
  subst e
  have hnd := h.nodup p
  rw [queue, hl] at hnd
  rw [queue_setTodo, if_pos rfl] at hq
  exact (List.nodup_cons.mp hnd).1 hq

theorem Queues.replaceBuffer {o : Option Buffer} (h : Queues s) (ht : ∀ p, t ∉ queue s p)
    (ho : ∀ b', o = some b' → ∃ b, s.buffer t = some b ∧ b.targetNode = b'.targetNode ∧
      b.asyncTransaction = b'.asyncTransaction) : Queues (setBuffer t o s) where
  bufferLt {u b'} hb' := by
    have := @h.bufferLt u
    grind
  kind {u x b' n} hx hb' := by
    have := @h.kind u x
    grind
  nodup := h.nodup
  disjoint := h.disjoint
  queued {p u} hq := by
    have := @h.queued p u
    grind
  asyncTodo {n w} hw := by
    obtain ⟨u, b', rfl, hb', ha, hn⟩ := h.asyncTodo hw
    have hu : u ≠ t := fun e => ht (.async n) (e ▸ mem_queue.mpr hw)
    exact ⟨u, b', rfl, by grind, ha, hn⟩

theorem Queues.deliver (h : Queues s) (ht : ∀ p, t ∉ queue s p) (hb : s.buffer t = some b) :
    Queues (setBuffer t (some { b with allowUserFree := true }) s) :=
  h.replaceBuffer ht (by grind)

theorem Queues.freeBuffer (h : Queues s) (ht : ∀ p, t ∉ queue s p) : Queues (setBuffer t none s) :=
  h.replaceBuffer ht (by simp)

/-! # The stacks of the threads

A synchronous transaction is on the stack of its sender (`from_parent`), and once it is read on that of its receiver
(`to_parent`). -/

open Relation

variable {dead : Option ThreadId} {stk : ThreadId → List Nat} {r p : Nat} {a f : ThreadId} {x : Tx} {th : Thread}

@[grind =] def Up (s : State) (t p : Nat) : Prop := ∃ x, s.tx t = some x ∧ x.fromParent = some p

@[grind =] def Below (s : State) (a : ThreadId) (t : Nat) (o : Option Nat) : Prop :=
  ∃ x, s.tx t = some x ∧ ((x.toThread = some a ∧ x.toParent = o) ∨
    (x.toThread ≠ some a ∧ x.fromThread = some a ∧ x.fromParent = o))

@[grind =] def Alive (dead : Option ThreadId) (s : State) (a : ThreadId) : Prop :=
  dead ≠ some a ∧ ∃ th, s.thread a = some th

/-- The transactions and the stacks `stk` of the threads. `dead` is the thread that is being freed. -/
structure Links (dead : Option ThreadId) (stk : ThreadId → List Nat) (s : State) : Prop where
  txLt : ∀ {t x}, s.tx t = some x → t < s.next
  chain : ∀ {a th}, dead ≠ some a → s.thread a = some th → Follows (Below s a) th.stack (stk a)
  sender : ∀ {t x a}, s.tx t = some x → x.fromThread = some a →
    Alive dead s a ∧ t ∈ stk a ∧ x.toThread ≠ some a
  parent : ∀ {t x p}, s.tx t = some x → x.fromParent = some p →
    p < t ∧ ∃ y, s.tx p = some y ∧ y.toThread = x.fromThread
  child : ∀ c c' p, Up s c p → Up s c' p → c = c'
  /-- a thread that works on `r` while it waits for `q` was called back on behalf of `q` -/
  callback : ∀ {a r x q}, Alive dead s a → r ∈ stk a → s.tx r = some x → x.toThread = some a →
    x.toParent = some q → TransGen (Up s) r q ∧ ∃ y, s.tx q = some y ∧ y.fromThread = some a
  onStack : ∀ {a t x}, Alive dead s a → t ∈ stk a → s.tx t = some x → x.oneWay = false
  waits : ∀ {a th}, s.thread a = some th → th.waiting = some true → th.stack = none

structure Loose (dead : Option ThreadId) (stk : ThreadId → List Nat) (s : State) (t : Nat) : Prop where
  leaf : Leaf (Up s) t
  unread : ∀ {a x}, Alive dead s a → t ∈ stk a → s.tx t = some x → x.toThread ≠ some a

/-! ## Consequences -/

theorem below_unique (a : ThreadId) : ∀ t o o', Below s a t o → Below s a t o' → o = o' := by
  rintro t o o' ⟨x, hx, h⟩ ⟨x', hx', h'⟩
  grind

section

variable (h : Links dead stk s)

include h

theorem Links.nodup (ha : Alive dead s a) : (stk a).Nodup := by
  obtain ⟨hd, th, hth⟩ := ha
  exact (h.chain hd hth).nodup (below_unique a)

theorem Links.below_sent (hx : s.tx t = some x) (hf : x.fromThread = some a) :
    Below s a t x.fromParent :=
  ⟨x, hx, .inr ⟨(h.sender hx hf).2.2, hf, rfl⟩⟩

theorem Links.top_of_leaf (hx : s.tx t = some x) (hf : x.fromThread = some a)
    (hl : Leaf (Up s) t) (hth : s.thread a = some th) : th.stack = some t ∧ ∃ l, stk a = t :: l := by
  obtain ⟨ha, ht, _⟩ := h.sender hx hf
  have hc := h.chain ha.1 hth
  obtain ⟨pre, post, e⟩ := List.append_of_mem ht
  rcases List.eq_nil_or_concat pre with rfl | ⟨pre, r, rfl⟩
  · rw [e] at hc
    exact ⟨hc.1, post, e⟩
  -- the element above `t` would descend from it
  rw [e, List.concat_append] at hc
  obtain ⟨y, hy, ⟨hto, hp⟩ | ⟨_, _, hp⟩⟩ := hc.link_of_adjacent
  · have hr : r ∈ stk a := by rw [e]; simp
    exact absurd (h.callback ha hr hy hto hp).1 hl.not_transGen
  · exact absurd ⟨y, hy, hp⟩ (hl r)

theorem Links.up_lt (hu : Up s t p) : p < t := by
  obtain ⟨x, hx, hp⟩ := hu
  exact (h.parent hx hp).1

theorem Links.transGen_lt (hu : TransGen (Up s) t u) : u < t := by
  induction hu with
  | single hu => exact h.up_lt hu
  | tail _ hu ih => exact Nat.lt_trans (h.up_lt hu) ih

theorem Links.leaf_of_top (ha : Alive dead s a) {l : List Nat}
    (hs : stk a = t :: l) (hx : s.tx t = some x) (hto : x.toThread = some a) : Leaf (Up s) t := by
  rintro c ⟨y, hy, hp⟩
  obtain ⟨hlt, x', hx', e⟩ := h.parent hy hp
  rw [hx] at hx'
  cases hx'
  have hf : y.fromThread = some a := e.symm.trans hto
  have hc := (h.sender hy hf).2.1
  obtain ⟨th, hth⟩ := ha.2
  have hbelow := h.below_sent hy hf
  rw [hp] at hbelow
  obtain ⟨pre, post, e'⟩ := (h.chain ha.1 hth).adjacent (below_unique a) hc hbelow
  have hnd := h.nodup ha
  -- `c` stands right above `t`, which is at the top
  rw [hs] at e' hnd
  cases pre with
  | nil =>
    simp only [List.nil_append, List.cons.injEq] at e'
    omega
  | cons v pre =>
    simp only [List.cons_append, List.cons.injEq] at e'
    have : t ∈ l := by rw [e'.2]; simp
    exact (List.nodup_cons.mp hnd).1 this

end

theorem Alive.congr (ht : s'.thread = s.thread) : Alive dead s' a ↔ Alive dead s a := by
  unfold Alive
  rw [ht]

theorem Links.congr (h : Links dead stk s) (ht : s'.thread = s.thread) (hx : s'.tx = s.tx)
    (hn : s'.next = s.next) : Links dead stk s' := by
  have hup : Up s' = Up s := by funext t p; simp only [Up, hx]
  have hbelow : Below s' = Below s := by funext a t o; simp only [Below, hx]
  exact
    { txLt := by rw [hx, hn]; exact h.txLt
      chain := by rw [ht, hbelow]; exact h.chain
      sender := by simp only [hx, Alive.congr ht]; exact h.sender
      parent := by simp only [hx]; exact h.parent
      child := by rw [hup]; exact h.child
      callback := by simp only [hx, Alive.congr ht, hup]; exact h.callback
      onStack := by simp only [hx, Alive.congr ht]; exact h.onStack
      waits := by rw [ht]; exact h.waits }

theorem alive_setThread {th' : Thread} (hth : s.thread a = some th) {b : ThreadId} :
    Alive dead (setThread a (some th') s) b ↔ Alive dead s b := by
  grind

theorem Links.setStack {th' : Thread} {l : List Nat} (h : Links dead stk s) (hth : s.thread a = some th)
    (hc : dead ≠ some a → Follows (Below s a) th'.stack l) (hl : ∀ t, t ∈ l → t ∈ stk a)
    (hs : ∀ {t x}, s.tx t = some x → x.fromThread = some a → t ∈ l)
    (hw : th'.waiting = some true → th'.stack = none) :
    Links dead (update stk a l) (setThread a (some th') s) where
  txLt := h.txLt
  chain {b bth} hd hb := by
    have := @h.chain b bth hd
    change Follows (Below s b) _ _
    grind
  sender hx hf := by
    have := h.sender hx hf
    grind
  parent := h.parent
  child := h.child
  callback {b _ _ _} hb hr := h.callback ((alive_setThread hth).mp hb) (by grind)
  onStack {b _ _} hb ht := h.onStack ((alive_setThread hth).mp hb) (by grind)
  waits {b bth} hb := by
    have := @h.waits b bth
    grind

theorem Links.sameStack (h : Links dead stk s) (hth : s.thread a = some th) (th' : Thread)
    (hs : th'.stack = th.stack) (hw : th'.waiting = some true → th'.stack = none) :
    Links dead stk (setThread a (some th') s) := by
  have h' := h.setStack (l := stk a) hth (fun hd => by rw [hs]; exact h.chain hd hth) (fun _ ht => ht)
    (fun hx hf => (h.sender hx hf).2.1) hw
  rwa [update_eq_self] at h'

theorem Links.popReceived {l : List Nat} (h : Links dead stk s) (th' : Thread) (hd : dead ≠ some a)
    (hth : s.thread a = some th) (hs : stk a = t :: l) (hx : s.tx t = some x) (hto : x.toThread = some a)
    (hs' : th'.stack = x.toParent) (hw : th'.waiting = some true → th'.stack = none) :
    Links dead (update stk a l) (setThread a (some th') s) := by
  refine h.setStack hth (fun _ => ?_) (fun u hu => ?_) (fun {u y} hy hf => ?_) hw
  · have hc := h.chain hd hth
    rw [hs] at hc
    obtain ⟨_, o, ht, hc⟩ := hc
    rw [hs', below_unique a t _ _ ⟨x, hx, .inl ⟨hto, rfl⟩⟩ ht]
    exact hc
  · rw [hs]
    exact List.mem_cons_of_mem t hu
  obtain ⟨_, hu, hne⟩ := h.sender hy hf
  rw [hs] at hu
  rcases List.mem_cons.mp hu with rfl | hu
  · rw [hx] at hy
    cases hy
    exact absurd hto hne
  · exact hu

theorem Links.free {stk' : ThreadId → List Nat} (h : Links dead stk s) (hl : Leaf (Up s) t)
    (htx : s'.tx = s.tx) (hn : s'.next = s.next) (ha : ∀ {a}, Alive dead s' a ↔ Alive dead s a)
    (hsub : ∀ {a u}, Alive dead s a → u ∈ stk' a → u ∈ stk a ∧ u ≠ t)
    (hchain : ∀ {a th}, dead ≠ some a → s'.thread a = some th → Follows (Below s a) th.stack (stk' a))
    (hsend : ∀ {a u y}, s.tx u = some y → y.fromThread = some a → u ≠ t → u ∈ stk' a)
    (hw : ∀ {a th}, s'.thread a = some th → th.waiting = some true → th.stack = none) :
    Links dead stk' (setTx t none s') := by
  have hback : ∀ {u y}, (setTx t none s').tx u = some y → u ≠ t ∧ s.tx u = some y := fun {u y} hu => by
    rw [setTx_tx] at hu
    split at hu
    · cases hu
    · next e => exact ⟨e, htx ▸ hu⟩
  have hforth : ∀ {u y}, u ≠ t → s.tx u = some y → (setTx t none s').tx u = some y := fun {u y} e hu => by
    rwa [setTx_tx, if_neg e, htx]
  have hup : ∀ {c q}, Up (setTx t none s') c q → Up s c q := fun {c q} ⟨y, hy, hq⟩ => ⟨y, (hback hy).2, hq⟩
  exact
    { txLt := fun hx => hn ▸ h.txLt (hback hx).2
      chain := fun {a th} hd hth => by
        refine (hchain hd hth).mono fun u hu o ⟨y, hy, ho⟩ => ⟨y, hforth ?_ hy, ho⟩
        exact (hsub (ha.mp ⟨hd, th, hth⟩) hu).2
      sender := fun hx hf => by
        obtain ⟨hne, hx⟩ := hback hx
        obtain ⟨hb, _, hto⟩ := h.sender hx hf
        exact ⟨ha.mpr hb, hsend hx hf hne, hto⟩
      parent := fun {u y q} hy hq => by
        obtain ⟨_, hy⟩ := hback hy
        obtain ⟨hlt, z, hz, e⟩ := h.parent hy hq
        refine ⟨hlt, z, hforth (fun e => ?_) hz, e⟩
        exact hl u ⟨y, hy, e ▸ hq⟩
      child := fun c c' q hc hc' => h.child c c' q (hup hc) (hup hc')
      callback := fun {a r x q} hb hr hx hto hq => by
        obtain ⟨hne, hx⟩ := hback hx
        have hb := ha.mp hb
        obtain ⟨hd, z, hz, e⟩ := h.callback hb (hsub hb hr).1 hx hto hq
        refine ⟨hl.transGen_avoid (fun c q hc ⟨y, hy, hq⟩ => ⟨y, hforth hc hy, hq⟩) hne hd,
          z, hforth (fun e => ?_) hz, e⟩
        exact hl.not_transGen (e ▸ hd)
      onStack := fun hb ht hx => h.onStack (ha.mp hb) (hsub (ha.mp hb) ht).1 (hback hx).2
      waits := hw }

theorem Loose.not_mem (hl : Loose dead stk s t) (h : Links dead stk s) (ha : Alive dead s a)
    (hx : s.tx t = some x) (hf : x.fromThread ≠ some a) : t ∉ stk a := by
  intro ht
  obtain ⟨th, hth⟩ := ha.2
  obtain ⟨o, y, hy, ⟨hto, _⟩ | ⟨_, hf', _⟩⟩ := (h.chain ha.1 hth).exists_link ht
  · exact hl.unread ha ht hy hto
  · rw [hx] at hy
    cases hy
    exact hf hf'

theorem Links.freeUnsent (h : Links dead stk s) (hl : Loose dead stk s t) (hx : s.tx t = some x)
    (hf : x.fromThread = none) : Links dead stk (setTx t none s) := by
  refine h.free hl.leaf rfl rfl Iff.rfl (fun {a u} ha hu => ⟨hu, fun e => ?_⟩) h.chain
    (fun hy hfy _ => (h.sender hy hfy).2.1) h.waits
  exact hl.not_mem h ha hx (by rw [hf]; simp) (e ▸ hu)

theorem Links.popSent {l : List Nat} (h : Links dead stk s) (hl : Loose dead stk s t) (th' : Thread)
    (hx : s.tx t = some x) (hf : x.fromThread = some a) (hth : s.thread a = some th) (hs : stk a = t :: l)
    (hs' : th'.stack = x.fromParent) (hw : th'.waiting = some true → th'.stack = none) :
    Links dead (update stk a l) (setTx t none (setThread a (some th') s)) := by
  have ha := (h.sender hx hf).1
  have hnd := h.nodup ha
  refine h.free hl.leaf rfl rfl (alive_setThread hth) (fun {b u} hb hu => ?_) (fun {b bth} hd hb => ?_)
    (fun {b u y} hy hfy hne => ?_) (fun {b bth} hb => ?_)
  · have := fun hf => hl.not_mem h hb hx hf
    grind
  · by_cases e : b = a
    · subst e
      obtain rfl : th' = bth := by grind
      obtain ⟨_, o, ht, hc⟩ := hs ▸ h.chain hd hth
      rw [update_self, hs', below_unique b t _ _ (h.below_sent hx hf) ht]
      exact hc
    · rw [update_of_ne e]
      exact h.chain hd (by grind)
  · have := h.sender hy hfy
    grind
  · have := @h.waits b bth
    grind

theorem Links.loose_parent (h : Links dead stk s) (hx : s.tx t = some x) (hf : x.fromThread = none)
    (hp : x.fromParent = some p) : Loose dead stk (setTx t none s) p := by
  obtain ⟨hlt, y, hy, hto⟩ := h.parent hx hp
  constructor
  · intro c hc
    have := h.child c t p
    grind
  · grind

end G3Mod.Binder.Transaction
