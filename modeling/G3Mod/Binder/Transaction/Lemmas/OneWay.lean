import G3Mod.Binder.Transaction.Lemmas.Stacks

/-!
# The one-way transactions of a node
-/

namespace G3Mod.Binder.Transaction

open Function Lib

variable {s s' : State} {es o : List Event} {t u : Nat} {a : ThreadId} {p q : Place} {n : NodeId}
  {b : Buffer}

@[grind =] def Outside (s : State) (n : NodeId) (t : Nat) : Prop :=
  ∃ b, s.buffer t = some b ∧ b.asyncTransaction = true ∧ b.targetNode = some n ∧ t ∉ queue s (.async n)

def Event.acceptedFor (n : NodeId) : Event → Option Nat
  | .accepted t m true => if m = n then some t else none
  | _ => none

def Event.deliveredFor (n : NodeId) : Event → Option Nat
  | .transaction t m true => if m = n then some t else none
  | _ => none

def accepted (n : NodeId) (es : List Event) : List Nat := es.filterMap (Event.acceptedFor n)

def delivered (n : NodeId) (es : List Event) : List Nat := es.filterMap (Event.deliveredFor n)

@[simp] theorem accepted_append : accepted n (es ++ o) = accepted n es ++ accepted n o :=
  List.filterMap_append

@[simp] theorem delivered_append : delivered n (es ++ o) = delivered n es ++ delivered n o :=
  List.filterMap_append

def Silent (o : List Event) : Prop := ∀ n, accepted n o = [] ∧ delivered n o = []

theorem Silent.nil : Silent [] := fun _ => ⟨rfl, rfl⟩

/-- What was accepted for `n` has left its list (`left`) or is still on it; at most the last is not delivered. -/
structure Ordered (s : State) (n : NodeId) (acc del left : List Nat) : Prop where
  split : acc = left ++ queue s (.async n)
  sublist : del.Sublist left
  last : ∀ {t p}, Outside s n t → t ∈ queue s p → ∃ l, left = l ++ [t] ∧ del.Sublist l

structure OneWayInv (s : State) (es : List Event) : Prop extends Queues s where
  single : ∀ {n t u}, Outside s n t → Outside s n u → t = u
  hasAsync : ∀ n, (s.node n).hasAsyncTransaction = true ↔ ∃ t, Outside s n t
  pending : ∀ {n}, s.todo (.async n) ≠ [] → (s.node n).hasAsyncTransaction = true
  order : ∀ n, ∃ left, Ordered s n (accepted n es) (delivered n es) left
  acceptedLt : ∀ {n t}, t ∈ accepted n es → t < s.next
  acceptedNodup : ∀ n, (accepted n es).Nodup

theorem Outside.node_unique {m : NodeId} (h : Outside s n t) (h' : Outside s m t) : n = m := by
  grind

/-! ## Quiet steps -/

theorem Quiet.queue_async (hq : Quiet s s') : queue s' (.async n) = queue s (.async n) := by
  rw [queue, queue, hq.async]

theorem Quiet.outside (hq : Quiet s s') : Outside s' n t ↔ Outside s n t := by
  have := fun b => @hq.buffer_back _ _ t b
  have := fun b => @hq.buffer_forth _ _ t b
  have := hq.queue_async (n := n)
  grind

theorem OneWayInv.sameOutside (h : OneWayInv s es) (hQ : Queues s')
    (hout : ∀ {m u}, Outside s' m u ↔ Outside s m u) (htodo : ∀ n, s'.todo (.async n) = s.todo (.async n))
    (hnode : ∀ n, s'.node n = s.node n) (hnext : s.next ≤ s'.next)
    (hmem : ∀ {m u q}, Outside s m u → u ∈ queue s' q → u ∈ queue s q) : OneWayInv s' es where
  toQueues := hQ
  single ht hu := h.single (hout.mp ht) (hout.mp hu)
  hasAsync n := by simp only [hnode, hout, h.hasAsync]
  pending hn := by
    rw [hnode]
    exact h.pending (htodo _ ▸ hn)
  order n := by
    obtain ⟨left, ho⟩ := h.order n
    refine ⟨left, ?_, ho.sublist, fun ht hp => ho.last (hout.mp ht) (hmem (hout.mp ht) hp)⟩
    rw [queue, htodo]
    exact ho.split
  acceptedLt ht := Nat.lt_of_lt_of_le (h.acceptedLt ht) hnext
  acceptedNodup := h.acceptedNodup

theorem OneWayInv.quiet (h : OneWayInv s es) (hq : Quiet s s') : OneWayInv s' es :=
  h.sameOutside (h.toQueues.quiet hq) hq.outside hq.async (congrFun hq.node) (Nat.le_of_eq hq.next.symm)
    fun _ hp => (hq.todo _).subset hp

theorem OneWayInv.silent (h : OneWayInv s es) (ho : Silent o) : OneWayInv s (es ++ o) := by
  have ha : ∀ n, accepted n (es ++ o) = accepted n es := fun n => by simp [(ho n).1]
  have hd : ∀ n, delivered n (es ++ o) = delivered n es := fun n => by simp [(ho n).2]
  exact { h with
    order := fun n => by rw [ha, hd]; exact h.order n
    acceptedLt := fun ht => h.acceptedLt (ha _ ▸ ht)
    acceptedNodup := fun n => ha n ▸ h.acceptedNodup n }

theorem Queues.outside_newTx_sync {x : Tx} (h : Queues s) (hb : b.asyncTransaction = false) :
    Outside (Transaction.newTx x b s) n t ↔ Outside s n t := by
  have := fun b' => @h.bufferLt t b'
  grind

theorem OneWayInv.newSync {x : Tx} (h : OneWayInv s es) (hb : b.asyncTransaction = false)
    (hx : x.oneWay = true → b.targetNode = none) : OneWayInv (newTx x b s) es :=
  h.sameOutside (h.toQueues.newTx fun n ho hn => by simp [hx ho] at hn) (h.outside_newTx_sync hb)
    (fun _ => rfl) (fun _ => rfl) (Nat.le_succ _) fun _ hp => hp

theorem OneWayInv.addSync (h : OneWayInv s es) (hp : ∀ n, p ≠ .async n) (ht : ∀ q, t ∉ queue s q)
    (hb : s.buffer t = some b) (ha : b.asyncTransaction = false) (hf : b.allowUserFree = false) :
    OneWayInv (addTail p (.transaction t) s) es :=
  h.sameOutside (h.toQueues.addTail ht hb hf fun n e => absurd e (hp n)) (by grind) (by grind) (fun _ => rfl)
    (Nat.le_refl _) (by grind)

/-! ## A new one-way transaction -/

section OneWay

variable {x : Tx}

theorem accepted_new {m : NodeId} : accepted m (es ++ [.accepted t n true]) =
    if m = n then accepted m es ++ [t] else accepted m es := by
  split
  · next h => simp [accepted, Event.acceptedFor, h]
  · next h => simp [accepted, Event.acceptedFor, Ne.symm h]

theorem delivered_new {m : NodeId} : delivered m (es ++ [.accepted t n true]) = delivered m es := by
  simp [delivered, Event.deliveredFor]

theorem OneWayInv.acceptedLt_new (h : OneWayInv s es) {m : NodeId}
    (ht : t ∈ accepted m (es ++ [.accepted s.next n true])) : t < s.next + 1 := by
  have := @h.acceptedLt m t
  grind [accepted_new]

theorem OneWayInv.acceptedNodup_new (h : OneWayInv s es) (m : NodeId) :
    (accepted m (es ++ [.accepted s.next n true])).Nodup := by
  rw [accepted_new]
  split
  · rw [← List.concat_eq_append]
    exact (h.acceptedNodup m).concat fun ht => Nat.lt_irrefl _ (h.acceptedLt ht)
  · exact h.acceptedNodup m

theorem OneWayInv.sendQueued (h : OneWayInv s es) (ha : b.asyncTransaction = true)
    (hn : b.targetNode = some n) (hf : b.allowUserFree = false)
    (hs : (s.node n).hasAsyncTransaction = true) :
    OneWayInv (addTail (.async n) (.transaction s.next) (newTx x b s))
      (es ++ [.accepted s.next n true]) := by
  have hout : ∀ m u, Outside (addTail (.async n) (.transaction s.next) (newTx x b s)) m u ↔
      Outside s m u := fun m u => by
    have := h.buffer_next
    grind
  exact
    { toQueues := (h.toQueues.newTx fun _ _ _ => ha).addTail (fun _ => h.next_not_queued)
        (b := b) (by rw [newTx_buffer, if_pos rfl]) hf fun m e => by cases e; exact ⟨ha, hn⟩
      single := fun hu hv => h.single ((hout _ _).mp hu) ((hout _ _).mp hv)
      hasAsync := fun m => by simp only [hout]; exact h.hasAsync m
      pending := fun {m} hm => by
        have := @h.pending m
        grind
      order := fun m => by
        obtain ⟨left, ho⟩ := h.order m
        refine ⟨left, ?_, by rw [delivered_new]; exact ho.sublist, fun {t q} hu hq => ?_⟩
        · rw [accepted_new, queue_addTail, ho.split]
          by_cases e : m = n <;> simp [e]
        rw [delivered_new]
        have hu' := (hout _ _).mp hu
        exact ho.last hu' (p := q) (by grind)
      acceptedLt := h.acceptedLt_new
      acceptedNodup := h.acceptedNodup_new }

theorem OneWayInv.sendFirst {p : ProcId} {d : Node} (h : OneWayInv s es) (ha : b.asyncTransaction = true)
    (hn : b.targetNode = some n) (hf : b.allowUserFree = false)
    (hs : (s.node n).hasAsyncTransaction = false) (hd : d.hasAsyncTransaction = true) :
    OneWayInv (addTail (.proc p) (.transaction s.next) (setNode n d (newTx x b s)))
      (es ++ [.accepted s.next n true]) := by
  have hnone : ∀ u, ¬ Outside s n u := fun u hu => by simpa [hs] using (h.hasAsync n).mpr ⟨u, hu⟩
  have hempty : s.todo (.async n) = [] := by
    by_contra hne
    simpa [hs] using h.pending hne
  have hqa : ∀ m, queue (addTail (.proc p) (.transaction s.next) (setNode n d (newTx x b s))) (.async m) =
      queue s (.async m) := by grind
  have hout : ∀ m u, Outside (addTail (.proc p) (.transaction s.next) (setNode n d (newTx x b s))) m u ↔
      Outside s m u ∨ (m = n ∧ u = s.next) := fun m u => by
    have := h.buffer_next
    have := @h.next_not_queued
    grind
  have hQ : Queues (setNode n d (newTx x b s)) :=
    have hQ := h.toQueues.newTx (x := x) (b := b) fun _ _ _ => ha
    ⟨hQ.bufferLt, hQ.kind, hQ.nodup, hQ.disjoint, hQ.queued, hQ.asyncTodo⟩
  exact
    { toQueues := hQ.addTail (b := b) (fun _ => h.next_not_queued)
        (show (newTx x b s).buffer s.next = some b by rw [newTx_buffer, if_pos rfl]) hf (by simp)
      single := fun {m u v} hu hv => by
        have := @h.single m u v
        rcases hu with hu | hu <;> rcases hv with hv | hv <;> grind
      hasAsync := fun m => by
        simp only [hout]
        by_cases e : m = n
        · simp [e, setNode_node, hd]
        · simp [e, setNode_node, h.hasAsync m]
      pending := fun {m} hm => by
        have := @h.pending m
        grind
      order := fun m => by
        obtain ⟨left, ho⟩ := h.order m
        rw [accepted_new, delivered_new]
        by_cases e : m = n
        · subst e
          rw [if_pos rfl]
          have hq : queue s (.async m) = [] := by rw [queue, hempty]; rfl
          have hsplit := ho.split
          rw [hq, List.append_nil] at hsplit
          refine ⟨left ++ [s.next], ?_, ho.sublist.trans (List.sublist_append_left _ _), fun hu _ => ?_⟩
          · rw [hqa, hq, List.append_nil, hsplit]
          · rcases (hout _ _).mp hu with hu | ⟨_, rfl⟩
            · exact absurd hu (hnone _)
            · exact ⟨left, rfl, ho.sublist⟩
        · rw [if_neg e]
          refine ⟨left, by rw [hqa]; exact ho.split, ho.sublist, fun {t q} hu hq => ?_⟩
          have hu := ((hout _ _).mp hu).resolve_right fun hm => e hm.1
          exact ho.last hu (p := q) (by grind)
      acceptedLt := h.acceptedLt_new
      acceptedNodup := h.acceptedNodup_new }

end OneWay

def Delivers (t : Nat) (b : Buffer) (o : List Event) : Prop :=
  ∀ n, accepted n o = [] ∧ (delivered n o = [] ∨
    (delivered n o = [t] ∧ b.asyncTransaction = true ∧ b.targetNode = some n))

theorem OneWayInv.deliver {rest : List Work} (h : OneWayInv s es) (hp : ∀ n, p ≠ .async n)
    (hl : s.todo p = .transaction t :: rest) (hb : s.buffer t = some b) (hd : Delivers t b o) :
    OneWayInv (setBuffer t (some { b with allowUserFree := true }) (setTodo p rest s)) (es ++ o) := by
  have hq0 := Quiet.dropHead hp hl
  have h0 := h.quiet hq0
  have ht : t ∈ queue s p := by rw [mem_queue, hl]; simp
  have hrest : ∀ q, t ∉ queue (setTodo p rest s) q := fun q => h.head_gone hl
  have hout : ∀ n u, Outside (setBuffer t (some { b with allowUserFree := true }) (setTodo p rest s)) n u ↔
      Outside s n u := fun n u => by
    grind
  exact
    { toQueues := h0.toQueues.deliver hrest hb
      single := fun hu hv => h.single ((hout _ _).mp hu) ((hout _ _).mp hv)
      hasAsync := fun n => by simp only [hout]; exact h.hasAsync n
      pending := h0.pending
      order := fun n => by
        obtain ⟨left, ho⟩ := h.order n
        obtain ⟨hacc, hdel⟩ := hd n
        rw [accepted_append, hacc, List.append_nil, delivered_append]
        have hsplit : accepted n es = left ++ queue (setTodo p rest s) (.async n) := by
          rw [ho.split, hq0.queue_async]
        rcases hdel with hdel | ⟨hdel, ha, hn⟩
        · rw [hdel, List.append_nil]
          exact ⟨left, hsplit, ho.sublist, fun {u q} hu hq => ho.last ((hout n u).mp hu) ((hq0.todo q).subset hq)⟩
        have hot : Outside s n t := ⟨b, hb, ha, hn, fun hq => hp n (h.disjoint ht hq)⟩
        obtain ⟨l, rfl, hs⟩ := ho.last hot ht
        rw [hdel]
        refine ⟨_, hsplit, hs.append (List.Sublist.refl _), fun {u q} hu hq => ?_⟩
        exact absurd (h.single ((hout n u).mp hu) hot ▸ hq) (hrest q)
      acceptedLt := fun {n u} hu => by
        rw [accepted_append, (hd n).1, List.append_nil] at hu
        exact h.acceptedLt hu
      acceptedNodup := fun n => by
        rw [accepted_append, (hd n).1, List.append_nil]
        exact h.acceptedNodup n }

theorem outside_freeBuffer {m : NodeId} : Outside (setBuffer t none s) m u ↔ Outside s m u ∧ u ≠ t := by
  grind

theorem OneWayInv.freeOther (h : OneWayInv s es) (ht : ∀ p, t ∉ queue s p) (ho : ∀ n, ¬ Outside s n t) :
    OneWayInv (setBuffer t none s) es :=
  h.sameOutside (h.toQueues.freeBuffer ht)
    (fun {m u} => outside_freeBuffer.trans ⟨fun hu => hu.1, fun hu => ⟨hu, fun e => ho m (e ▸ hu)⟩⟩)
    (fun _ => rfl) (fun _ => rfl) (Nat.le_refl _) fun _ hp => hp

theorem OneWayInv.freeLast {d : Node} (h : OneWayInv s es) (ht : ∀ p, t ∉ queue s p) (ho : Outside s n t)
    (hn : s.todo (.async n) = []) (hd : d.hasAsyncTransaction = false) :
    OneWayInv (setBuffer t none (setNode n d s)) es := by
  have hout : ∀ m u, Outside (setBuffer t none (setNode n d s)) m u ↔ Outside s m u ∧ m ≠ n := fun m u => by
    rw [outside_freeBuffer]
    constructor
    · rintro ⟨hu, hne⟩
      exact ⟨hu, fun e => hne (h.single (e ▸ hu) ho)⟩
    · rintro ⟨hu, hne⟩
      exact ⟨hu, fun e => hne (hu.node_unique (e ▸ ho))⟩
  have hQ := h.toQueues.freeBuffer ht
  exact
    { toQueues := ⟨hQ.bufferLt, hQ.kind, hQ.nodup, hQ.disjoint, hQ.queued, hQ.asyncTodo⟩
      single := fun hu hv => h.single ((hout _ _).mp hu).1 ((hout _ _).mp hv).1
      hasAsync := fun m => by
        simp only [hout]
        by_cases e : m = n
        · simp [e, setNode_node, hd]
        · simp [e, setNode_node, h.hasAsync m]
      pending := fun {m} hm => by
        have := @h.pending m
        grind
      order := fun m => by
        obtain ⟨left, hl⟩ := h.order m
        exact ⟨left, hl.split, hl.sublist, fun hu hq => hl.last ((hout _ _).mp hu).1 hq⟩
      acceptedLt := h.acceptedLt
      acceptedNodup := h.acceptedNodup }

theorem OneWayInv.freeNext {rest : List Work} (h : OneWayInv s es) (ht : ∀ p, t ∉ queue s p)
    (ho : Outside s n t) (hn : s.todo (.async n) = .transaction u :: rest) :
    OneWayInv (setBuffer t none (addTail (.thread a) (.transaction u) (setTodo (.async n) rest s))) es := by
  have hu : u ∈ queue s (.async n) := by rw [mem_queue, hn]; simp
  have hsplit : queue s (.async n) = u :: rest.filterMap Work.tx? := by rw [queue, hn]; rfl
  have hurest : u ∉ rest.filterMap Work.tx? := by
    have := h.nodup (.async n)
    rw [hsplit] at this
    exact (List.nodup_cons.mp this).1
  have hqa : ∀ m, queue (setBuffer t none (addTail (.thread a) (.transaction u) (setTodo (.async n) rest s)))
      (.async m) = if m = n then rest.filterMap Work.tx? else queue s (.async m) := by grind
  -- the freed transaction of the node is replaced by the one that leaves the list
  have hout : ∀ m v,
      Outside (setBuffer t none (addTail (.thread a) (.transaction u) (setTodo (.async n) rest s))) m v ↔
        (Outside s m v ∧ m ≠ n) ∨ (m = n ∧ v = u) := fun m v => by
    obtain ⟨t', b', e', hb', ha', hn'⟩ := h.asyncTodo (w := .transaction u) (by rw [hn]; simp)
    have := @h.single n v t
    grind
  exact
    { toQueues := by
        obtain ⟨b', hb', hf⟩ := h.queued hu
        refine ((h.toQueues.dropHead hn).addTail (fun _ => h.head_gone hn) hb' hf (by simp)).freeBuffer
          fun q hq => ?_
        rcases mem_addTail.mp hq with hq | ⟨_, rfl⟩
        · exact ht q (mem_queue_dropHead hn hq)
        · exact ht _ hu
      single := fun {m v v'} hv hv' => by
        have := @h.single m v v'
        rcases hv with hv | hv <;> rcases hv' with hv' | hv' <;> grind
      hasAsync := fun m => by
        simp only [hout]
        by_cases e : m = n
        · subst e
          simpa using (h.hasAsync m).mpr ⟨t, ho⟩
        · simpa [e] using h.hasAsync m
      pending := fun {m} hm => by
        have := @h.pending m
        grind
      order := fun m => by
        obtain ⟨left, hl⟩ := h.order m
        by_cases e : m = n
        · subst e
          refine ⟨left ++ [u], ?_, hl.sublist.trans (List.sublist_append_left _ _), fun hv _ => ?_⟩
          · rw [hqa, if_pos rfl, hl.split, hsplit]
            simp
          · obtain ⟨_, rfl⟩ := ((hout _ _).mp hv).resolve_left fun hv => hv.2 rfl
            exact ⟨left, rfl, hl.sublist⟩
        refine ⟨left, by rw [hqa, if_neg e]; exact hl.split, hl.sublist, fun hv hq => ?_⟩
        have kv := (((hout _ _).mp hv).resolve_right fun hv => e hv.1).1
        rcases mem_addTail.mp hq with hq | ⟨_, ev⟩
        · exact hl.last kv (mem_queue_dropHead hn hq)
        · exact hl.last kv (ev ▸ hu)
      acceptedLt := h.acceptedLt
      acceptedNodup := h.acceptedNodup }

/-! # Every operation keeps the order of the one-way transactions -/

variable {p : ProcId} {e : Option ReturnError}

theorem OneWayInv.still (h : OneWayInv s es) (hs : Still s s') : OneWayInv s' es := h.quiet hs.quiet

theorem OneWayInv.steady (h : OneWayInv s es) (hs : Steady s s') : OneWayInv s' (es ++ []) :=
  (h.quiet hs.quiet).silent Silent.nil

theorem silent_accepted : Silent [.accepted t n false] := fun _ => ⟨rfl, rfl⟩

theorem OneWayInv.acceptSync {th : Thread} {target : Option ThreadId} (h : OneWayInv s es) :
    OneWayInv (acceptSync a th n p target s) es := by
  refine OneWayInv.quiet ?_ Quiet.addComplete
  have h1 := (h.newSync (b := newBuffer p (some n) false) (x := ⟨some a, th.stack, target, none, true, false⟩)
    rfl (by simp)).still (Still.setThread (a := a) (v := some { th with stack := some s.next }))
  have hb : (setThread a (some { th with stack := some s.next }) (newTx
      ⟨some a, th.stack, target, none, true, false⟩ (newBuffer p (some n) false) s)).buffer s.next =
      some (newBuffer p (some n) false) := by simp [newTx_buffer]
  refine h1.addSync ?_ (fun q => h.next_not_queued) hb rfl rfl
  cases target <;> simp

variable {oneWay : Bool}

theorem bcTransaction_oneWay (h : OneWayInv s es) {target : Target}
    (hx : bcTransaction a target oneWay e s = .ok (o, s')) : OneWayInv s' (es ++ o) := by
  rcases bcTransaction_cases hx with ⟨rfl, hs⟩ | ⟨n, p, th, r, _, rfl, rfl⟩ | ⟨n, p, _, rfl, rfl⟩
  · exact h.steady hs
  · exact h.acceptSync.silent silent_accepted
  refine OneWayInv.quiet ?_ Quiet.addComplete
  split
  · next hs => exact h.sendQueued rfl rfl rfl hs
  · next hs => exact h.sendFirst rfl rfl rfl (by simpa [newTx] using hs) rfl

theorem acceptReply_oneWay (h : OneWayInv s es) {f : ThreadId}
    (hx : acceptReply a f p t oneWay s = .ok s') : OneWayInv s' es := by
  obtain ⟨s1, h1, hx⟩ := bind_ok hx
  cases hx
  have hs := binderPopTransaction_steady h1
  have hn := (h.newSync (b := newBuffer p none false) rfl (fun _ => rfl)).still hs.toStill
  obtain ⟨b, hb, hk⟩ := hs.quiet.buffer_forth (newTx_buffer.trans (if_pos rfl))
  obtain ⟨_, hka, hkf⟩ := kind_eq hk
  refine OneWayInv.quiet (hn.addSync (by simp) (fun q => ?_) hb hka hkf) Quiet.addComplete
  rw [queue, hs.todo]
  exact h.next_not_queued

theorem bcReply_oneWay (h : OneWayInv s es) (hx : bcReply a oneWay e s = .ok (o, s')) :
    OneWayInv s' (es ++ o) := by
  obtain ⟨rfl, hs | ⟨s1, f, p, t, hs, h1⟩⟩ := bcReply_cases hx
  · exact h.steady hs
  · exact (acceptReply_oneWay (h.still hs.toStill) h1).silent Silent.nil

theorem bcFreeBuffer_oneWay (h : OneWayInv s es) (hx : bcFreeBuffer a t s = .ok (o, s')) :
    OneWayInv s' (es ++ o) := by
  obtain ⟨rfl, rfl | ⟨th, b, s1, s2, _, hb, _, hf, h1, h2, rfl⟩⟩ := bcFreeBuffer_cases hx
  · exact h.silent Silent.nil
  obtain ⟨hs, _, hbuf⟩ := detachTransaction_steady h1
  have hi := h.still hs.toStill
  have hb1 : s1.buffer t = some b := by rw [hbuf, hb]
  have ht : ∀ q, t ∉ queue s1 q := fun q => hi.not_queued_of_delivered hb1 hf
  refine OneWayInv.silent ?_ Silent.nil
  unfold nextAsync at h2
  split at h2
  next n ha hn =>
    have hout : Outside s1 n t := ⟨b, hb1, ha, hn, ht _⟩
    split at h2
    · cases h2
    split at h2
    next hl =>
      cases h2
      exact hi.freeLast ht hout hl rfl
    rename_i w rest hl
    cases h2
    obtain ⟨u, _, rfl, _⟩ := hi.asyncTodo (n := n) (w := w) (by rw [hl]; simp)
    exact hi.freeNext ht hout hl
  next hno =>
    cases h2
    exact hi.freeOther ht fun n => by grind

variable {c : Bug}

theorem getTx_error (hx : getTx t s = .error c) : c = .freedTx t := by
  grind [getTx]

theorem getThread_error (hx : getThread a s = .error c) : c = .freedThread a := by
  grind [getThread]

variable {b : Buffer}

theorem detachTransaction_error (hx : detachTransaction t b s = .error c) :
    c = .freedTx t := by
  unfold detachTransaction at hx
  split at hx
  · rcases bind_error hx with hx | ⟨x, _, hx⟩
    · exact getTx_error hx
    · cases hx
  · cases hx

theorem nextAsync_error (hx : nextAsync a b s = .error c) :
    ∃ n, b.asyncTransaction = true ∧ b.targetNode = some n ∧ (s.node n).hasAsyncTransaction = false := by
  grind [nextAsync]

theorem bcFreeBuffer_asserts (h : OneWayInv s es) : bcFreeBuffer a t s ≠ .error (.noAsyncTransaction n) := by
  intro hx
  rcases bind_error hx with hx | ⟨th, _, hx⟩
  · cases getThread_error hx
  split at hx
  · cases hx
  rename_i b hb
  split at hx
  · cases hx
  rename_i hok
  simp only [not_or, Bool.not_eq_false] at hok
  rcases bind_error hx with hx | ⟨s1, h1, hx⟩
  · cases detachTransaction_error hx
  rcases bind_error hx with hx | ⟨s2, _, hx⟩
  · obtain ⟨m, ha, hm, hs⟩ := nextAsync_error hx
    have hout : Outside s m t := ⟨b, hb, ha, hm, h.not_queued_of_delivered hb hok.2⟩
    rw [(detachTransaction_steady h1).1.node, (h.hasAsync m).mpr ⟨t, hout⟩] at hs
    cases hs
  · cases hx

/-! ## Reads -/

theorem delivers_sync : Delivers t b [.transaction t n false] :=
  fun _ => ⟨rfl, .inl rfl⟩

theorem delivers_reply : Delivers t b [.reply t] := fun _ => ⟨rfl, .inl rfl⟩

theorem delivers_oneWay (ha : b.asyncTransaction = true) (hn : b.targetNode = some n) :
    Delivers t b [.transaction t n true] := fun m => by
  refine ⟨rfl, ?_⟩
  by_cases hm : n = m
  · subst hm
    exact .inr ⟨by simp [delivered, Event.deliveredFor], ha, hn⟩
  · exact .inl (by simp [delivered, Event.deliveredFor, hm])

theorem readTransaction_oneWay (h : OneWayInv s es) {q : Place} (hq : ∀ n, q ≠ .async n) {rest : List Work}
    (hl : s.todo q = .transaction t :: rest) (hx : readTransaction a q rest t s = .ok (o, s')) :
    OneWayInv s' (es ++ o) := by
  obtain ⟨x, b, hxt, hb, rfl, hs⟩ := readTransaction_cases hx
  refine OneWayInv.still (h.deliver hq hl hb ?_) hs.toStill
  split
  next n hn =>
    cases ho : x.oneWay with
    | false => exact delivers_sync
    | true => exact delivers_oneWay (h.kind hxt hb ho hn) hn
  · exact delivers_reply

theorem readItem_oneWay (h : OneWayInv s es) (hx : readItem a s = .ok (o, s')) : OneWayInv s' (es ++ o) := by
  rcases readItem_cases hx with ⟨rfl, rfl⟩ | ⟨q, w, rest, hq, hl, ⟨rfl, rfl, rfl⟩ | ⟨t, rfl, hx⟩⟩
  · exact h.silent Silent.nil
  · exact (h.quiet (Quiet.dropHead hq hl)).silent fun _ => ⟨rfl, rfl⟩
  · exact readTransaction_oneWay h hq hl hx

theorem readBegin_oneWay (h : OneWayInv s es) {room : Nat} {fault : Bool}
    (hx : readBegin a room fault s = .ok (o, s')) : OneWayInv s' (es ++ o) := by
  obtain ⟨ho, hs⟩ := readBegin_cases hx
  refine (h.still hs.toStill).silent fun n => ⟨?_, ?_⟩ <;> rw [List.eq_nil_iff_forall_not_mem] <;>
    simp only [accepted, delivered, List.mem_filterMap] <;> rintro t ⟨v, hv, ht⟩ <;>
    obtain ⟨c, rfl⟩ := ho v hv <;> cases ht

theorem exec_oneWay (h : OneWayInv s es) {op : Op} (hx : exec s op = .ok (o, s')) :
    OneWayInv s' (es ++ o) := by
  cases op with
  | newThread a p =>
    cases hx
    refine OneWayInv.silent (OneWayInv.quiet (h.still Still.setThread) (Quiet.setTodo (by simp) ?_)) Silent.nil
    exact List.nil_sublist _
  | bcTransaction a target oneWay outcome => exact bcTransaction_oneWay h hx
  | bcReply a oneWay outcome => exact bcReply_oneWay h hx
  | bcFreeBuffer a t => exact bcFreeBuffer_oneWay h hx
  | readBegin a room fault => exact readBegin_oneWay h hx
  | readItem a => exact readItem_oneWay h hx
  | readEnd a =>
    obtain ⟨rfl, hs⟩ := readEnd_cases hx
    exact h.steady hs
  | threadExit a =>
    obtain ⟨rfl, hq⟩ := threadExit_quiet hx
    exact (h.quiet hq).silent Silent.nil

theorem OneWayInv.init (h : Initial s) : OneWayInv s [] := by
  obtain ⟨_, htodo, hnode, _, hbuf⟩ := h
  have hq : ∀ p, queue s p = [] := fun p => by rw [queue, htodo]; rfl
  have hout : ∀ n t, ¬ Outside s n t := by grind
  constructor
  case toQueues => constructor <;> simp [htodo, hbuf, hq]
  case order => exact fun n => ⟨[], by rw [hq]; rfl, .slnil, fun ht => absurd ht (hout _ _)⟩
  all_goals simp [hnode, hout, htodo, accepted]

end G3Mod.Binder.Transaction
