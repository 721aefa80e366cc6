import Mathlib.Data.List.Chain
import G3Mod.Binder.Transaction.Lemmas.Delivery
import G3Mod.Binder.Transaction.Lemmas.Underway

/-!
# Theorems on binder transactions
-/

namespace G3Mod.Binder.Transaction

open Lib

variable {s₀ s : State}

/-! ## One-way transactions -/

def events (es : List (Op × List Event)) : List Event := es.flatMap Prod.snd

theorem foldl_events (es : List (Op × List Event)) (m : List Event) :
    es.foldl (fun m e => m ++ e.2) m = m ++ events es := by
  induction es generalizing m with
  | nil => simp [events]
  | cons e es ih => simp [events, ih]

theorem run_oneWay {es : List (Op × List Event)} (hs : Initial s₀) (h : machine.Run s₀ es s) :
    OneWayInv s (events es) := by
  have hr := h.summary (R := OneWayInv) (f := fun m e => m ++ e.2)
    (fun hi _ hx => exec_oneWay hi hx) (OneWayInv.init hs)
  rwa [foldl_events] at hr

/-- A one-way transaction of `n` on the list of a thread or process, or delivered with its buffer not yet
freed. -/
def InFlight (s : State) (n : NodeId) (t : Nat) : Prop :=
  ∃ b, s.buffer t = some b ∧ b.asyncTransaction = true ∧ b.targetNode = some n ∧
    (b.allowUserFree = true ∨ ∃ p, (∀ m, p ≠ .async m) ∧ t ∈ queue s p)

theorem Queues.outside_of_inFlight {n : NodeId} {t : Nat} (h : Queues s) (ht : InFlight s n t) :
    Outside s n t := by
  obtain ⟨b, hb, ha, hn, hf | ⟨p, hp, hq⟩⟩ := ht
  · exact ⟨b, hb, ha, hn, h.not_queued_of_delivered hb hf⟩
  · exact ⟨b, hb, ha, hn, fun hq' => hp n (h.disjoint hq hq')⟩

/-- The one-way transactions of a node are delivered one at a time, each once and in the order of acceptance. -/
theorem oneWay_in_order {es : List (Op × List Event)} (hs : Initial s₀) (h : machine.Run s₀ es s)
    (n : NodeId) :
    (∀ t, InFlight s n t → Outside s n t) ∧
    (∀ t u, Outside s n t → Outside s n u → t = u) ∧
    ((s.node n).hasAsyncTransaction = true ↔ ∃ t, Outside s n t) ∧
    (delivered n (events es)).Sublist (accepted n (events es)) ∧
    (accepted n (events es)).Nodup ∧ (delivered n (events es)).Nodup ∧
    ∀ a t, exec s (.bcFreeBuffer a t) ≠ .error (.noAsyncTransaction n) := by
  have hi := run_oneWay hs h
  obtain ⟨left, ho⟩ := hi.order n
  have hsub : (delivered n (events es)).Sublist (accepted n (events es)) := by
    rw [ho.split]
    exact ho.sublist.trans (List.sublist_append_left _ _)
  exact ⟨fun t => hi.outside_of_inFlight, fun t u => hi.single, hi.hasAsync n, hsub, hi.acceptedNodup n, (hi.acceptedNodup n).sublist hsub,
    fun a t => bcFreeBuffer_asserts hi⟩

def sampleState : State where
  thread _ := none
  todo _ := []
  node _ := { proc := some 1, hasAsyncTransaction := false }
  tx _ := none
  buffer _ := none
  next := 0

theorem sampleState_initial : Initial sampleState :=
  ⟨fun _ => rfl, fun _ => rfl, fun _ => rfl, fun _ => rfl, fun _ => rfl⟩

def sampleOps : List Op :=
  [.newThread 0 0, .newThread 1 1, .bcTransaction 0 (.node 7) true none, .bcTransaction 0 (.node 7) true none,
    .readBegin 1 8 false, .readItem 1, .bcFreeBuffer 1 0, .readBegin 1 8 false, .readItem 1]

theorem sampleOps_in_order : ∃ es s, machine.Run sampleState es s ∧
    accepted 7 (events es) = [0, 1] ∧ delivered 7 (events es) = [0, 1] ∧
    (delivered 7 (events es)).Nodup ∧ (s.node 7).hasAsyncTransaction = true := by
  have hr : machine.Run sampleState _ _ := Machine.run_of_execList sampleOps rfl
  exact ⟨_, _, hr, by decide, by decide, (oneWay_in_order sampleState_initial hr 7).2.2.2.2.2.1, by decide⟩

def keepingMachine : Machine State Op (List Event) Bug where
  init := Initial
  enabled s op := op.Permitted s ∧ op.LosesNone s
  exec := exec

theorem keepingMachine_invariant (h : keepingMachine.Reachable s) : Underway s ∧ ∃ es, OneWayInv s es := by
  apply h.invariant
  · intro s₀ hs
    exact ⟨Underway.init hs, [], OneWayInv.init hs⟩
  · intro s op o s' ⟨hu, es, hone⟩ hop hx
    exact ⟨exec_underway hu hop.1 hop.2 hx, es ++ o, exec_oneWay hone hx⟩

/-- No one-way transaction is stuck, up to the first exit of a thread that has one on its list. -/
theorem oneWay_progress_iff (h : keepingMachine.Reachable s) :
    Progress s ∧ ∀ a o s', exec s (.threadExit a) = .ok (o, s') →
      (Progress s' ↔ NoneOneWay s (.thread a)) := by
  obtain ⟨hu, es, hone⟩ := keepingMachine_invariant h
  refine ⟨hu.progress hone, fun a o s' hx => ⟨fun hp t ht b hb => ?_, fun hno => ?_⟩⟩
  · cases ha : b.asyncTransaction with
    | false => rfl
    | true => exact absurd hp (threadExit_stops hu hone hx ht hb ha)
  · exact (hu.carry (threadExit_carries hno hx)).progress (exec_oneWay hone hx)

def handOverOps : List Op := sampleOps.take 7

theorem handOverOps_progress : ∃ s, keepingMachine.Reachable s ∧
    (s.node 7).hasAsyncTransaction = true ∧ Progress s := by
  have h0 : keepingMachine.Reachable sampleState := .init sampleState_initial
  have h1 := h0.step (l := Op.newThread 0 0) ⟨by decide, trivial⟩ rfl
  have h2 := h1.step (l := Op.newThread 1 1) ⟨by decide, trivial⟩ rfl
  have h3 := h2.step (l := Op.bcTransaction 0 (.node 7) true none) ⟨by decide, trivial⟩ rfl
  have h4 := h3.step (l := Op.bcTransaction 0 (.node 7) true none) ⟨by decide, trivial⟩ rfl
  have h5 := h4.step (l := Op.readBegin 1 8 false) ⟨by decide, trivial⟩ rfl
  have h6 := h5.step (l := Op.readItem 1) ⟨by decide, trivial⟩ rfl
  have h7 := h6.step (l := Op.bcFreeBuffer 1 0) ⟨by decide, trivial⟩ rfl
  exact ⟨_, h7, rfl, (oneWay_progress_iff h7).1⟩

/-- If thread 1 exits then, the second transaction is lost, and the node is marked for good. -/
theorem threadExit_loses_oneWay : ∃ es s, machine.Run sampleState es s ∧
    (s.node 7).hasAsyncTransaction = true ∧ ¬ Progressing s 7 := by
  have hr : machine.Run sampleState _ _ := Machine.run_of_execList (handOverOps ++ [.threadExit 1]) rfl
  refine ⟨_, _, hr, rfl, ?_⟩
  rintro ⟨t, b, hb, _, _, _, hq⟩
  match t, hb with
  | 0, hb => cases hb
  | 1, hb =>
    cases hb
    rcases hq with (ht | ⟨a, th, hth, _, ht⟩) | hf
    · cases ht
    · match a, hth with
      | 0, hth => exact absurd ht (by decide)
      | 1, hth => cases hth
      | a + 2, hth => cases hth
    · cases hf
  | t + 2, hb => cases hb

/-! ## The stacks -/

def calmMachine : Machine State Op (List Event) Bug where
  init := Initial
  enabled s op := op.Permitted s ∧ op.NoSelfCall s
  exec := exec

theorem calmMachine_inductive :
    calmMachine.Inductive fun s => ∃ stk es, StackInv none stk s ∧ OneWayInv s es where
  init h := ⟨_, [], StackInv.init h, OneWayInv.init h⟩
  step := by
    rintro s op ⟨stk, es, h, hone⟩ ⟨hop, hself⟩
    obtain ⟨o, s', stk', hx, h'⟩ := exec_inv h hone hop hself
    exact ⟨o, s', hx, stk', es ++ o, h', exec_oneWay hone hx⟩

/-- If no thread calls itself, stacks are finite chains of live transactions and no operation runs into a `BUG`. -/
theorem stacks_sound_without_selfCall (h : calmMachine.Reachable s) :
    (∀ a th, s.thread a = some th → ∃ l, l.Nodup ∧ Follows (Below s a) th.stack l) ∧
    ∀ op : Op, op.Permitted s → op.NoSelfCall s → ∃ o s', exec s op = .ok (o, s') := by
  obtain ⟨stk, es, hi, hone⟩ := calmMachine_inductive.reachable h
  refine ⟨fun a th hth => ?_, fun op hop hself => ?_⟩
  · have hc := hi.chain (by simp) hth
    exact ⟨stk a, hc.nodup (below_unique a), hc⟩
  · obtain ⟨o, s', _, hx, _⟩ := exec_inv hi hone hop hself
    exact ⟨o, s', hx⟩

def duplexState : State := { sampleState with node := fun n => { proc := some n, hasAsyncTransaction := false } }

theorem duplexState_initial : Initial duplexState :=
  ⟨fun _ => rfl, fun _ => rfl, fun _ => rfl, fun _ => rfl, fun _ => rfl⟩

theorem call_stacks_sound : ∃ s th, calmMachine.Reachable s ∧ s.thread 1 = some th ∧ th.stack = some 0 ∧
    ∃ l, l.Nodup ∧ Follows (Below s 1) th.stack l := by
  have h0 : calmMachine.Reachable duplexState := .init duplexState_initial
  have h1 := h0.step (l := Op.newThread 0 0) ⟨by decide, trivial⟩ rfl
  have h2 := h1.step (l := Op.newThread 1 1) ⟨by decide, trivial⟩ rfl
  have h3 := h2.step (l := Op.bcTransaction 0 (.node 1) false none)
    ⟨by decide, fun p _ ⟨th, t, u, hth, hst, _⟩ => by cases hth; cases hst⟩ rfl
  have h4 := h3.step (l := Op.readBegin 1 8 false) ⟨by decide, trivial⟩ rfl
  have h5 := h4.step (l := Op.readItem 1) ⟨by decide, trivial⟩ rfl
  exact ⟨_, _, h5, rfl, rfl, (stacks_sound_without_selfCall h5).1 1 _ rfl⟩

/-- Thread 0 calls process 1, is called back and calls its own process, of which it is the outermost caller. -/
def selfCallOps : List Op :=
  [.newThread 0 0, .newThread 1 1, .bcTransaction 0 (.node 1) false none, .readBegin 1 8 false, .readItem 1,
    .bcTransaction 1 (.node 0) false none, .readBegin 0 8 false, .readItem 0, .readItem 0,
    .bcTransaction 0 (.node 0) false none]

/-- If the thread exits then, a freed transaction is used; if it reads the transaction first, its stack
has no end. -/
theorem selfCall_breaks_stack :
    (∃ es s, machine.Run duplexState es s ∧ (Op.threadExit 0).Permitted s ∧
      exec s (.threadExit 0) = .error (.freedTx 2)) ∧
    ∃ es s th, machine.Run duplexState es s ∧ s.thread 0 = some th ∧
      ∀ l, ¬ Follows (Below s 0) th.stack l := by
  refine ⟨?_, ?_⟩
  · have hr : machine.Run duplexState _ _ := Machine.run_of_execList selfCallOps rfl
    exact ⟨_, _, hr, by decide, rfl⟩
  · have hr : machine.Run duplexState _ _ :=
      Machine.run_of_execList (selfCallOps ++ [.readBegin 0 8 false, .readItem 0]) rfl
    exact ⟨_, _, _, hr, rfl, fun l => Follows.not_self (below_unique 0) (t := 2) ⟨_, rfl, .inl ⟨rfl, rfl⟩⟩⟩

/-! ## Waiting threads -/

open Relation

variable {dead : Option ThreadId} {stk : ThreadId → List Nat} {a b c : ThreadId}

/-- The thread `a` waits for the reply to a transaction that the thread `b` works on. -/
def WaitsFor (s : State) (a b : ThreadId) : Prop :=
  ∃ th t x, s.thread a = some th ∧ th.stack = some t ∧ s.tx t = some x ∧ x.fromThread = some a ∧
    x.toThread = some b ∧ ∃ th' l, s.thread b = some th' ∧ Follows (Below s b) th'.stack l ∧ t ∈ l

/-- Later transactions are nearer to the top. -/
theorem Links.sorted (h : Links dead stk s) (ha : Alive dead s a) : (stk a).Pairwise (· > ·) := by
  obtain ⟨hd, th, hth⟩ := ha
  apply List.isChain_iff_pairwise.mp
  apply List.isChain_iff_forall_rel_of_append_cons_cons.mpr
  intro r q pre post e
  have hc := h.chain hd hth
  rw [e] at hc
  -- `r` was sent to the thread while it waited for `q`, or by the thread while it worked on `q`
  obtain ⟨x, hx, ⟨hto, hp⟩ | ⟨_, _, hp⟩⟩ := hc.link_of_adjacent
  · exact h.transGen_lt (h.callback ⟨hd, th, hth⟩ (by simp [e]) hx hto hp).1
  · exact (h.parent hx hp).1

def top (s : State) (a : ThreadId) : Nat := ((s.thread a).bind Thread.stack).getD 0

theorem Links.top_lt (h : Links none stk s) (hab : WaitsFor s a b) (hbc : WaitsFor s b c) :
    top s a < top s b ∧ top s b < s.next := by
  obtain ⟨th, t, x, hth, ht, hx, _, hto, _, l, hb, hl, hm⟩ := hab
  obtain ⟨th', t', x', hth', ht', hx', hf, _⟩ := hbc
  obtain rfl : th' = _ := Option.some.inj (hth'.symm.trans hb)
  have hc := h.chain (by simp) hb
  obtain rfl := hc.unique (below_unique b) hl
  have hs := h.sorted ⟨by simp, _, hb⟩
  simp only [top, hth, hth', ht, ht', Option.bind_some, Option.getD_some]
  refine ⟨?_, h.txLt hx'⟩
  cases e : stk b with
  | nil => simp [e] at hm
  | cons u l =>
    rw [e] at hc hs hm
    obtain rfl : t' = u := Option.some.inj (ht'.symm.trans hc.1)
    -- the top of the stack of `b` was sent by `b`, so that it is not the one that `b` works on
    have hne : t ≠ t' := by
      rintro rfl
      exact (h.sender hx' hf).2.2 (Option.some.inj (hx'.symm.trans hx) ▸ hto)
    exact (List.pairwise_cons.mp hs).1 t ((List.mem_cons.mp hm).resolve_left hne)

theorem Links.top_lt_of_transGen (h : Links none stk s) (hab : TransGen (WaitsFor s) a b) (hbc : WaitsFor s b c) :
    top s a < top s b := by
  induction hab generalizing c with
  | single hab => exact (h.top_lt hab hbc).1
  | tail _ hb ih => exact Nat.lt_trans (ih hb) (h.top_lt hb hbc).1

theorem Links.wait_ends {a b : ThreadId} (h : Links none stk s) (hab : WaitsFor s a b) :
    ∃ c, TransGen (WaitsFor s) a c ∧ ∀ d, ¬WaitsFor s c d := by
  by_cases hb : ∃ c, WaitsFor s b c
  · obtain ⟨c, hbc⟩ := hb
    have := h.top_lt hab hbc
    obtain ⟨d, hd, he⟩ := h.wait_ends hbc
    exact ⟨d, .head hab hd, he⟩
  · exact ⟨b, .single hab, not_exists.mp hb⟩
termination_by s.next - top s a

/-- If no thread calls itself, waiting threads form no cycle: each chain of them ends at a thread that can go on. -/
theorem no_deadlock (h : calmMachine.Reachable s) (hab : WaitsFor s a b) :
    ¬TransGen (WaitsFor s) b a ∧ ∃ c, TransGen (WaitsFor s) a c ∧ ∀ d, ¬WaitsFor s c d := by
  obtain ⟨stk, _, hi, _⟩ := calmMachine_inductive.reachable h
  refine ⟨fun hba => ?_, hi.wait_ends hab⟩
  exact Nat.lt_irrefl _ (hi.top_lt_of_transGen (.head hab hba) hab)

theorem call_not_deadlocked : ∃ s, calmMachine.Reachable s ∧ WaitsFor s 0 1 ∧ ¬TransGen (WaitsFor s) 1 0 := by
  obtain ⟨s, h, hw⟩ : ∃ s, calmMachine.Reachable s ∧ WaitsFor s 0 1 := by
    have h0 : calmMachine.Reachable duplexState := .init duplexState_initial
    have h1 := h0.step (l := Op.newThread 0 0) ⟨by decide, trivial⟩ rfl
    have h2 := h1.step (l := Op.newThread 1 1) ⟨by decide, trivial⟩ rfl
    have h3 := h2.step (l := Op.bcTransaction 0 (.node 1) false none)
      ⟨by decide, fun p _ ⟨th, t, u, hth, hst, _⟩ => by cases hth; cases hst⟩ rfl
    have h4 := h3.step (l := Op.readBegin 1 8 false) ⟨by decide, trivial⟩ rfl
    refine ⟨_, h4.step (l := Op.readItem 1) ⟨by decide, trivial⟩ rfl, _, 0, _, rfl, rfl, rfl, rfl, rfl, _, [0], rfl, ?_, ?_⟩
    · exact ⟨rfl, none, ⟨_, rfl, .inl ⟨rfl, rfl⟩⟩, rfl⟩
    · simp
  exact ⟨s, h, hw, (no_deadlock h hw).1⟩

end G3Mod.Binder.Transaction
