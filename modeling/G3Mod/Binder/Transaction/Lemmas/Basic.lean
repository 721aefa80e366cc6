import G3Mod.Binder.Transaction.Model

/-!
# Access to the heaps, and steps that leave the one-way transactions alone
-/

namespace G3Mod.Binder.Transaction

open Function Lib

variable {s s' s'' : State} {t u : Nat} {a : ThreadId} {p q : Place} {n : NodeId}

/-! ## What the updates leave alone -/

section Updates

attribute [grind =] setTx_thread setTx_todo setTx_node setTx_buffer setTx_next setThread_todo setThread_node
  setThread_tx setThread_buffer setThread_next setBuffer_thread setBuffer_todo setBuffer_node setBuffer_tx
  setBuffer_next setNode_thread setNode_todo setNode_tx setNode_buffer setNode_next setTodo_thread setTodo_node
  setTodo_tx setTodo_buffer setTodo_next newTx_thread newTx_todo newTx_node newTx_next

variable (s : State) (t u : Nat) (a a' : ThreadId) (n m : NodeId) (p q : Place) (x : Option Tx)
  (th : Option Thread) (b : Option Buffer) (d : Node) (l : List Work) (w : Work)

@[grind =] theorem setTx_tx : (setTx t x s).tx u = if u = t then x else s.tx u := by
  simp [setTx, update_apply]

@[grind =] theorem setThread_thread : (setThread a th s).thread a' = if a' = a then th else s.thread a' := by
  simp [setThread, update_apply]

@[grind =] theorem setBuffer_buffer : (setBuffer t b s).buffer u = if u = t then b else s.buffer u := by
  simp [setBuffer, update_apply]

@[grind =] theorem setNode_node : (setNode n d s).node m = if m = n then d else s.node m := by
  simp [setNode, update_apply]

@[grind =] theorem setTodo_todo : (setTodo p l s).todo q = if q = p then l else s.todo q := by
  simp [setTodo, update_apply]

@[simp, grind =] theorem addTail_thread : (addTail p w s).thread a' = s.thread a' := rfl

@[simp, grind =] theorem addTail_node : (addTail p w s).node m = s.node m := rfl

@[simp, grind =] theorem addTail_tx : (addTail p w s).tx u = s.tx u := rfl

@[simp, grind =] theorem addTail_buffer : (addTail p w s).buffer u = s.buffer u := rfl

@[grind =] theorem addTail_todo : (addTail p w s).todo q = if q = p then s.todo p ++ [w] else s.todo q := by
  rw [addTail, setTodo_todo]

variable {s u} {x : Tx} {b : Buffer}

@[grind =] theorem newTx_tx : (newTx x b s).tx u = if u = s.next then some x else s.tx u := by
  simp [newTx, update_apply]

@[grind =] theorem newTx_buffer : (newTx x b s).buffer u = if u = s.next then some b else s.buffer u := by
  simp [newTx, update_apply]

end Updates

theorem getTx_eq {x : Tx} : getTx t s = .ok x ↔ s.tx t = some x := by
  unfold getTx
  cases s.tx t <;> simp

theorem getThread_eq {th : Thread} : getThread a s = .ok th ↔ s.thread a = some th := by
  unfold getThread
  cases s.thread a <;> simp

theorem getBuffer_eq {b : Buffer} : getBuffer t s = .ok b ↔ s.buffer t = some b := by
  unfold getBuffer
  cases s.buffer t <;> simp

theorem clearBufferTransaction_eq {x : Tx} (h : clearBufferTransaction t x s = .ok s') :
    (x.buffer = false ∧ s' = s) ∨
      (x.buffer = true ∧ ∃ b, s.buffer t = some b ∧
        s' = setBuffer t (some { b with transaction := false }) s) := by
  unfold clearBufferTransaction at h
  split at h
  next hx =>
    obtain ⟨b, hb, h⟩ := bind_ok h
    cases h
    exact .inr ⟨hx, b, getBuffer_eq.mp hb, rfl⟩
  next hx =>
    cases h
    exact .inl ⟨by simpa using hx, rfl⟩

/-! ## The transactions of a list of work items -/

def Work.tx? : Work → Option Nat
  | .transaction t => some t
  | .transactionComplete => none

def queue (s : State) (p : Place) : List Nat := (s.todo p).filterMap Work.tx?

@[simp] theorem tx?_transactionComplete : Work.transactionComplete.tx? = none := rfl

@[simp, grind =] theorem queue_setThread {th : Option Thread} : queue (setThread a th s) p = queue s p := rfl

@[simp, grind =] theorem queue_setBuffer {b : Option Buffer} : queue (setBuffer t b s) p = queue s p := rfl

@[simp, grind =] theorem queue_setNode {d : Node} : queue (setNode n d s) p = queue s p := rfl

@[simp, grind =] theorem queue_newTx {x : Tx} {b : Buffer} : queue (newTx x b s) p = queue s p := rfl

@[grind =] theorem queue_setTodo {l : List Work} :
    queue (setTodo q l s) p = if p = q then l.filterMap Work.tx? else queue s p := by
  grind [queue]

@[grind =] theorem queue_addTail : queue (addTail q (.transaction t) s) p =
    if p = q then queue s p ++ [t] else queue s p := by
  grind [queue, addTail, Work.tx?]

@[simp, grind =] theorem queue_addTail_complete : queue (addTail q .transactionComplete s) p = queue s p := by
  grind [queue, addTail, Work.tx?]

theorem mem_queue : t ∈ queue s p ↔ .transaction t ∈ s.todo p := by
  simp only [queue, List.mem_filterMap]
  constructor
  · rintro ⟨w, hw, h⟩
    cases w with
    | transaction u => cases h; exact hw
    | transactionComplete => cases h
  · exact fun h => ⟨_, h, rfl⟩

/-! ## Quiet steps -/

@[grind =] def Buffer.kind (b : Buffer) : Option NodeId × Bool × Bool :=
  (b.targetNode, b.asyncTransaction, b.allowUserFree)

/-- The step starts no transaction, delivers none and frees no buffer; the lists of work items stay. -/
structure Still (s s' : State) : Prop where
  node : s'.node = s.node
  next : s'.next = s.next
  todo : s'.todo = s.todo
  buffer : ∀ t, (s'.buffer t).map Buffer.kind = (s.buffer t).map Buffer.kind
  tx : ∀ t x', s'.tx t = some x' → ∃ x, s.tx t = some x ∧ x'.oneWay = x.oneWay

theorem Still.refl : Still s s :=
  ⟨rfl, rfl, rfl, fun _ => rfl, fun _ x h => ⟨x, h, rfl⟩⟩

theorem Still.trans (h : Still s s') (h' : Still s' s'') : Still s s'' where
  node := h'.node.trans h.node
  next := h'.next.trans h.next
  todo := h'.todo.trans h.todo
  buffer t := (h'.buffer t).trans (h.buffer t)
  tx t x'' hx := by
    obtain ⟨x', hx', e⟩ := h'.tx t x'' hx
    obtain ⟨x, hx, e'⟩ := h.tx t x' hx'
    exact ⟨x, hx, e.trans e'⟩

theorem Still.setThread {v : Option Thread} : Still s (setThread a v s) :=
  ⟨rfl, rfl, rfl, fun _ => rfl, fun _ x h => ⟨x, h, rfl⟩⟩

theorem Still.freed : Still s (setTx t none s) where
  node := rfl
  next := rfl
  todo := rfl
  buffer _ := rfl
  tx u x' h := by grind

theorem Still.setTx {x : Tx} (hx : s.tx t = some x) (x' : Tx) (he : x'.oneWay = x.oneWay) :
    Still s (setTx t (some x') s) where
  node := rfl
  next := rfl
  todo := rfl
  buffer _ := rfl
  tx u y h := by grind

theorem Still.setBuffer {b : Buffer} (hb : s.buffer t = some b) (b' : Buffer) (he : b'.kind = b.kind) :
    Still s (setBuffer t (some b') s) where
  node := rfl
  next := rfl
  todo := rfl
  buffer u := by grind
  tx _ x h := ⟨x, h, rfl⟩

/-- As `Still`, and the threads and the buffers stay with their processes. -/
structure Steady (s s' : State) : Prop extends Still s s' where
  threadProc : ∀ {a th}, s.thread a = some th → ∃ th', s'.thread a = some th' ∧ th'.proc = th.proc
  bufferProc : ∀ t, (s'.buffer t).map Buffer.proc = (s.buffer t).map Buffer.proc

theorem Steady.refl : Steady s s := ⟨.refl, fun h => ⟨_, h, rfl⟩, fun _ => rfl⟩

theorem Steady.trans (h : Steady s s') (h' : Steady s' s'') : Steady s s'' where
  toStill := h.toStill.trans h'.toStill
  threadProc ha := by
    obtain ⟨th', ha', e⟩ := h.threadProc ha
    obtain ⟨th'', ha'', e'⟩ := h'.threadProc ha'
    exact ⟨th'', ha'', e'.trans e⟩
  bufferProc t := (h'.bufferProc t).trans (h.bufferProc t)

theorem Steady.setThread {th : Thread} (hth : s.thread a = some th) (th' : Thread) (hp : th'.proc = th.proc) :
    Steady s (setThread a (some th') s) :=
  ⟨.setThread, fun {c cth} hc => by grind, fun _ => rfl⟩

theorem Steady.setTx {x : Tx} (hx : s.tx t = some x) (x' : Tx) (he : x'.oneWay = x.oneWay) :
    Steady s (setTx t (some x') s) :=
  ⟨.setTx hx x' he, fun ha => ⟨_, ha, rfl⟩, fun _ => rfl⟩

theorem Steady.freed : Steady s (Transaction.setTx t none s) :=
  ⟨.freed, fun ha => ⟨_, ha, rfl⟩, fun _ => rfl⟩

/-! ## The functions that are steady -/

theorem clearBufferTransaction_steady {x : Tx} (h : clearBufferTransaction t x s = .ok s') :
    Steady s s' ∧ s'.tx = s.tx ∧ s'.thread = s.thread := by
  rcases clearBufferTransaction_eq h with ⟨_, rfl⟩ | ⟨_, b, hb, rfl⟩
  · exact ⟨.refl, rfl, rfl⟩
  · exact ⟨⟨.setBuffer hb { b with transaction := false } rfl, fun ha => ⟨_, ha, rfl⟩, by grind⟩, rfl, rfl⟩

theorem freeTx_steady (h : freeTx t s = .ok s') : Steady s s' := by
  obtain ⟨x, _, h⟩ := bind_ok h
  obtain ⟨s1, h1, h⟩ := bind_ok h
  cases h
  exact (clearBufferTransaction_steady h1).1.trans .freed

theorem binderPopTransaction_steady {o : Option ThreadId} (h : binderPopTransaction o t s = .ok s') :
    Steady s s' := by
  cases o with
  | none => exact freeTx_steady h
  | some a =>
    obtain ⟨th, hth, h⟩ := bind_ok h
    split at h
    · cases h
    obtain ⟨x, _, h⟩ := bind_ok h
    split at h
    · cases h
    · exact (Steady.setThread (getThread_eq.mp hth) { th with stack := x.fromParent } rfl).trans
        (freeTx_steady h)

theorem shiftError_proc (th : Thread) : th.shiftError.proc = th.proc := by
  unfold Thread.shiftError
  split <;> rfl

theorem failedReplyLoop_steady {e : ReturnError} {fuel : Nat} (h : failedReplyLoop e fuel t s = .ok s') :
    Steady s s' := by
  induction fuel generalizing t s with
  | zero => cases h
  | succ fuel ih =>
    obtain ⟨x, _, h⟩ := bind_ok h
    split at h
    · obtain ⟨th, hth, h⟩ := bind_ok h
      have hc := Steady.setThread (getThread_eq.mp hth) th.shiftError (shiftError_proc th)
      dsimp only at h
      split at h
      · obtain ⟨s1, h1, h⟩ := bind_ok h
        obtain ⟨th', hth', h⟩ := bind_ok h
        cases h
        exact (hc.trans (binderPopTransaction_steady h1)).trans
          (.setThread (getThread_eq.mp hth') { th' with returnError := e } rfl)
      · cases h
        exact hc
    · obtain ⟨s1, h1, h⟩ := bind_ok h
      have hq := binderPopTransaction_steady h1
      split at h
      · cases h
        exact hq
      · exact hq.trans (ih h)

theorem binderSendFailedReply_steady {e : ReturnError} (h : binderSendFailedReply t e s = .ok s') :
    Steady s s' := by
  obtain ⟨x, _, h⟩ := bind_ok h
  split at h
  · cases h
  · exact failedReplyLoop_steady h

theorem transactionFailed_steady {o : Option Nat} {e : ReturnError} (h : transactionFailed a o e s = .ok s') :
    Steady s s' := by
  obtain ⟨th, hth, h⟩ := bind_ok h
  rw [getThread_eq] at hth
  split at h
  · cases h
  cases o with
  | none =>
    cases h
    exact .setThread hth { th with returnError := e } rfl
  | some t =>
    exact (Steady.setThread hth { th with returnError := .transactionComplete } rfl).trans
      (binderSendFailedReply_steady h)

theorem detachLoop_steady {fuel : Nat} {o : Option Nat} (h : detachLoop a fuel o s = .ok s') : Steady s s' := by
  induction fuel generalizing o s with
  | zero =>
    cases o with
    | none => cases h; exact .refl
    | some t => cases h
  | succ fuel ih =>
    cases o with
    | none => cases h; exact .refl
    | some t =>
      obtain ⟨x, hx, h⟩ := bind_ok h
      rw [getTx_eq] at hx
      split at h
      · obtain ⟨s1, h1, h⟩ := bind_ok h
        obtain ⟨hs1, he, _⟩ := clearBufferTransaction_steady h1
        have hx1 : s1.tx t = some x := by rw [he, hx]
        have hd := Steady.setTx hx1 { x with toThread := none, buffer := false } rfl
        exact (hs1.trans hd).trans (ih h)
      · split at h
        · exact (Steady.setTx hx { x with fromThread := none } rfl).trans (ih h)
        · cases h

theorem releaseTransaction_steady (h : releaseTransaction t s = .ok s') : Steady s s' := by
  obtain ⟨x, _, h⟩ := bind_ok h
  split at h
  · cases h
  obtain ⟨b, _, h⟩ := bind_ok h
  split at h
  · exact binderSendFailedReply_steady h
  · cases h
    exact .refl

theorem detachTransaction_steady {b : Buffer} (h : detachTransaction t b s = .ok s') :
    Steady s s' ∧ s'.thread = s.thread ∧ s'.buffer = s.buffer := by
  unfold detachTransaction at h
  split at h
  · obtain ⟨x, hx, h⟩ := bind_ok h
    cases h
    exact ⟨.setTx (getTx_eq.mp hx) { x with buffer := false } rfl, rfl, rfl⟩
  · cases h
    exact ⟨.refl, rfl, rfl⟩

/-! ## What the operations do -/

section Operations

variable {o : List Event} {e : Option ReturnError}

theorem failed_cases {r : Option Nat} {c : ReturnError}
    (hx : (do let s ← transactionFailed a r c s; .ok ([], s)) = .ok (o, s')) : o = [] ∧ Steady s s' := by
  obtain ⟨s1, h1, hx⟩ := bind_ok hx
  cases hx
  exact ⟨rfl, transactionFailed_steady h1⟩

theorem bcTransaction_cases {target : Target} {oneWay : Bool} (hx : bcTransaction a target oneWay e s = .ok (o, s')) :
    (o = [] ∧ Steady s s') ∨
      (∃ n p th r, s.thread a = some th ∧ o = [.accepted s.next n false] ∧ s' = acceptSync a th n p r s) ∨
      ∃ n p, (s.node n).proc = some p ∧ o = [.accepted s.next n true] ∧ s' = acceptOneWay a n p s := by
  cases target with
  | invalidHandle | noContextManager => exact .inl (failed_cases hx)
  | node n =>
    simp only [bcTransaction] at hx
    split at hx
    · exact .inl (failed_cases hx)
    rename_i p hp
    split at hx
    · cases e with
      | some c => exact .inl (failed_cases hx)
      | none =>
        cases hx
        exact .inr (.inr ⟨n, p, hp, rfl, rfl⟩)
    obtain ⟨th, hth, hx⟩ := bind_ok hx
    obtain ⟨waits, _, hx⟩ := bind_ok hx
    split at hx
    · exact .inl (failed_cases hx)
    obtain ⟨r, _, hx⟩ := bind_ok hx
    cases e with
    | some c => exact .inl (failed_cases hx)
    | none =>
      cases hx
      exact .inr (.inl ⟨n, p, th, r, getThread_eq.mp hth, rfl, rfl⟩)

theorem bcReply_cases {oneWay : Bool} (hx : bcReply a oneWay e s = .ok (o, s')) :
    o = [] ∧ (Steady s s' ∨ ∃ s1 f p t, Steady s s1 ∧ acceptReply a f p t oneWay s1 = .ok s') := by
  obtain ⟨th, hth, hx⟩ := bind_ok hx
  split at hx
  · exact (failed_cases hx).imp_right .inl
  obtain ⟨x, _, hx⟩ := bind_ok hx
  split at hx
  · exact (failed_cases hx).imp_right .inl
  have hc := Steady.setThread (getThread_eq.mp hth) { th with stack := x.toParent } rfl
  split at hx
  · exact (failed_cases hx).imp_right fun h => .inl (hc.trans h)
  obtain ⟨fth, _, hx⟩ := bind_ok hx
  split at hx
  · obtain ⟨_, _, hx⟩ := bind_ok hx
    exact (failed_cases hx).imp_right fun h => .inl (hc.trans h)
  cases e with
  | some c => exact (failed_cases hx).imp_right fun h => .inl (hc.trans h)
  | none =>
    obtain ⟨s2, h2, hx⟩ := bind_ok hx
    cases hx
    exact ⟨rfl, .inr ⟨_, _, _, _, hc, h2⟩⟩

theorem bcFreeBuffer_cases (hx : bcFreeBuffer a t s = .ok (o, s')) :
    o = [] ∧ (s' = s ∨ ∃ th b s1 s2, s.thread a = some th ∧ s.buffer t = some b ∧ b.proc = th.proc ∧
      b.allowUserFree = true ∧ detachTransaction t b s = .ok s1 ∧ nextAsync a b s1 = .ok s2 ∧
      s' = setBuffer t none s2) := by
  obtain ⟨th, hth, hx⟩ := bind_ok hx
  split at hx
  · cases hx
    exact ⟨rfl, .inl rfl⟩
  rename_i b hb
  split at hx
  · cases hx
    exact ⟨rfl, .inl rfl⟩
  rename_i hok
  simp only [not_or, ne_eq, not_not, Bool.not_eq_false] at hok
  obtain ⟨s1, h1, hx⟩ := bind_ok hx
  obtain ⟨s2, h2, hx⟩ := bind_ok hx
  cases hx
  exact ⟨rfl, .inr ⟨th, b, s1, s2, getThread_eq.mp hth, hb, hok.1, hok.2, h1, h2, rfl⟩⟩

theorem readTransaction_cases {rest : List Work} (hx : readTransaction a q rest t s = .ok (o, s')) :
    ∃ x b, s.tx t = some x ∧ s.buffer t = some b ∧
      o = (match b.targetNode with | some n => [.transaction t n x.oneWay] | none => [.reply t]) ∧
      Steady (setBuffer t (some { b with allowUserFree := true }) (setTodo q rest s)) s' := by
  obtain ⟨x, hxt, hx⟩ := bind_ok hx
  rw [getTx_eq] at hxt
  split at hx
  · cases hx
  obtain ⟨b, hb, hx⟩ := bind_ok hx
  obtain ⟨_, _, hx⟩ := bind_ok hx
  obtain ⟨th, hth, hx⟩ := bind_ok hx
  rw [getThread_eq] at hth
  refine ⟨x, b, hxt, getBuffer_eq.mp hb, ?_⟩
  split at hx
  next n hn ho =>
    cases hx
    refine ⟨by simp [hn, ho], Steady.trans (.setTx (s := setBuffer t _ (setTodo q rest s)) hxt
      { x with toParent := th.stack, toThread := some a } rfl) ?_⟩
    exact .setThread (s := setTx t _ (setBuffer t _ (setTodo q rest s))) hth
      { th with stack := some t, waiting := none } rfl
  rename_i hno
  obtain ⟨s1, h1, hx⟩ := bind_ok hx
  cases hx
  obtain ⟨hs1, _, ht⟩ := clearBufferTransaction_steady h1
  have ho : ∀ n, b.targetNode = some n → x.oneWay = true := fun n hn => by simpa using hno n hn
  refine ⟨?_, (hs1.trans .freed).trans (.setThread (s := setTx t none s1) ((congrFun ht a).trans hth)
    { th with waiting := none } rfl)⟩
  cases hn : b.targetNode <;> simp [ho, hn]

theorem readItem_cases (hx : readItem a s = .ok (o, s')) : (o = [] ∧ s' = s) ∨
    ∃ q w rest, (∀ n, q ≠ .async n) ∧ s.todo q = w :: rest ∧
      ((w = .transactionComplete ∧ o = [.transactionComplete] ∧ s' = setTodo q rest s) ∨
        ∃ t, w = .transaction t ∧ readTransaction a q rest t s = .ok (o, s')) := by
  obtain ⟨th, _, hx⟩ := bind_ok hx
  have hp : ∀ n, (if s.todo (.thread a) = [] ∧ th.waiting = some true then Place.proc th.proc
      else .thread a) ≠ .async n := fun n => by split <;> simp
  dsimp only at hx
  split at hx
  · cases hx
    exact .inl ⟨rfl, rfl⟩
  next hl =>
    cases hx
    exact .inr ⟨_, _, _, hp, hl, .inl ⟨rfl, rfl, rfl⟩⟩
  · next hl => exact .inr ⟨_, _, _, hp, hl, .inr ⟨_, rfl, hx⟩⟩

theorem readBegin_cases {room : Nat} {fault : Bool} (hx : readBegin a room fault s = .ok (o, s')) :
    (∀ v ∈ o, ∃ c, v = .error c) ∧ Steady s s' := by
  obtain ⟨th, hth, hx⟩ := bind_ok hx
  rw [getThread_eq] at hth
  have hset := fun th' => Steady.setThread hth th'
  split at hx
  · split at hx
    · split at hx
      · cases hx
        exact ⟨by simp, .refl⟩
      · split at hx <;> cases hx <;> exact ⟨by simp, hset _ rfl⟩
    · cases hx
      exact ⟨by simp, hset _ rfl⟩
  · cases hx
    exact ⟨by simp, hset _ rfl⟩

theorem readEnd_cases (hx : readEnd a s = .ok (o, s')) : o = [] ∧ Steady s s' := by
  obtain ⟨th, hth, hx⟩ := bind_ok hx
  cases hx
  exact ⟨rfl, .setThread (getThread_eq.mp hth) { th with waiting := none } rfl⟩

theorem threadExit_cases (hx : threadExit a s = .ok (o, s')) :
    o = [] ∧ ∃ s1 s2, Steady s s1 ∧ releaseWork (.thread a) (s1.todo (.thread a)) s1 = .ok s2 ∧
      s' = setThread a none s2 := by
  obtain ⟨th, _, h⟩ := bind_ok hx
  obtain ⟨r, _, h⟩ := bind_ok h
  obtain ⟨s1, h1, h⟩ := bind_ok h
  obtain ⟨s2, h2, h⟩ := bind_ok h
  obtain ⟨s3, h3, h⟩ := bind_ok h
  cases h
  have hs2 : Steady s1 s2 := by
    cases r with
    | none => cases h2; exact .refl
    | some t => exact binderSendFailedReply_steady h2
  exact ⟨rfl, s2, s3, (detachLoop_steady h1).trans hs2, h3, rfl⟩

end Operations

/-! ## Quiet steps -/

/-- As `Still`, but work items may be dropped from the lists of threads and processes. -/
structure Quiet (s s' : State) : Prop where
  node : s'.node = s.node
  next : s'.next = s.next
  buffer : ∀ t, (s'.buffer t).map Buffer.kind = (s.buffer t).map Buffer.kind
  tx : ∀ t x', s'.tx t = some x' → ∃ x, s.tx t = some x ∧ x'.oneWay = x.oneWay
  async : ∀ n, s'.todo (.async n) = s.todo (.async n)
  todo : ∀ p, (queue s' p).Sublist (queue s p)

theorem Still.quiet (h : Still s s') : Quiet s s' :=
  ⟨h.node, h.next, h.buffer, h.tx, fun _ => by rw [h.todo], fun _ => by rw [queue, queue, h.todo]⟩

theorem Quiet.trans (h : Quiet s s') (h' : Quiet s' s'') : Quiet s s'' where
  node := h'.node.trans h.node
  next := h'.next.trans h.next
  buffer t := (h'.buffer t).trans (h.buffer t)
  tx t x'' hx := by
    obtain ⟨x', hx', e⟩ := h'.tx t x'' hx
    obtain ⟨x, hx, e'⟩ := h.tx t x' hx'
    exact ⟨x, hx, e.trans e'⟩
  async n := (h'.async n).trans (h.async n)
  todo p := (h'.todo p).trans (h.todo p)

theorem Quiet.setTodo {l : List Work} (hp : ∀ n, p ≠ .async n)
    (h : (l.filterMap Work.tx?).Sublist (queue s p)) : Quiet s (setTodo p l s) where
  node := rfl
  next := rfl
  buffer _ := rfl
  tx _ x h := ⟨x, h, rfl⟩
  async n := by simp [Transaction.setTodo, (hp n).symm]
  todo q := by
    rw [queue_setTodo]
    split
    · next e => exact e ▸ h
    · exact .refl _

theorem Quiet.addComplete : Quiet s (addTail (.thread a) .transactionComplete s) :=
  Quiet.setTodo (by simp) (by simp [queue])

theorem Quiet.dropHead (hp : ∀ n, p ≠ .async n) {w : Work} {rest : List Work} (h : s.todo p = w :: rest) :
    Quiet s (Transaction.setTodo p rest s) :=
  Quiet.setTodo hp (by rw [queue, h]; exact (List.sublist_cons_self w rest).filterMap _)

theorem releaseWork_keeps {R : State → Prop} (hdrop : ∀ {s w rest}, R s → s.todo p = w :: rest → R (setTodo p rest s))
    (hend : ∀ {s s'}, R s → Steady s s' → R s') {l : List Work} (hs : R s) (hl : s.todo p = l)
    (h : releaseWork p l s = .ok s') : R s' ∧ s'.todo p = [] := by
  induction l generalizing s with
  | nil => cases h; exact ⟨hs, hl⟩
  | cons w rest ih =>
    have hrest : (setTodo p rest s).todo p = rest := by rw [setTodo_todo, if_pos rfl]
    cases w with
    | transactionComplete => exact ih (hdrop hs hl) hrest h
    | transaction t =>
      obtain ⟨s1, h1, h⟩ := bind_ok h
      have hq := releaseTransaction_steady h1
      exact ih (hend (hdrop hs hl) hq) (by rw [hq.todo, hrest]) h

theorem threadExit_quiet {o : List Event} (h : threadExit a s = .ok (o, s')) : o = [] ∧ Quiet s s' := by
  obtain ⟨rfl, s1, s2, hs, hw, rfl⟩ := threadExit_cases h
  have hwork := releaseWork_keeps (R := Quiet s1) (fun hq hl => hq.trans (.dropHead (by simp) hl))
    (fun hq hs => hq.trans hs.quiet) Still.refl.quiet rfl hw
  exact ⟨rfl, (hs.quiet.trans hwork.1).trans Still.setThread.quiet⟩

end G3Mod.Binder.Transaction
