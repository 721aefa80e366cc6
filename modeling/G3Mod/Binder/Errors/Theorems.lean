import G3Mod.Binder.Errors.Model

/-!
# Errors are delivered once

The two slots are a queue of at most two codes.
-/

namespace G3Mod.Binder.Errors

open Lib Function
open Transaction (ReturnError Thread)

variable {s s' t : Slots} {op : Op} {o : Out} {es : List (Op × Out)} {r : Read} {code : ReturnError}

/-! ## The queue -/

def Slots.Ordered (s : Slots) : Prop := s.returnError = .ok → s.returnError2 = .ok

@[simp] theorem pending_empty : Slots.pending ⟨.ok, .ok⟩ = [] := rfl

theorem pending_one (h : code ≠ .ok) : Slots.pending ⟨code, .ok⟩ = [code] := by
  simp [Slots.pending, h]

theorem pending_two {code2 : ReturnError} (h : code ≠ .ok) (h2 : code2 ≠ .ok) :
    Slots.pending ⟨code, code2⟩ = [code2, code] := by
  simp [Slots.pending, h, h2]

theorem Slots.Ordered.cases (h : s.Ordered) : s = ⟨.ok, .ok⟩ ∨ (∃ e, e ≠ .ok ∧ s = ⟨e, .ok⟩) ∨
    ∃ e e2, e ≠ .ok ∧ e2 ≠ .ok ∧ s = ⟨e, e2⟩ := by
  obtain ⟨e, e2⟩ := s
  by_cases he : e = .ok
  · have he2 : e2 = .ok := h he
    exact .inl (by rw [he, he2])
  · grind

/-- What a step takes from the queue in front, and adds to it at the end. -/
structure Queued (s : Slots) (e : Op × Out) (t : Slots) : Prop where
  ordered : t.Ordered
  eq : s.pending ++ e.2.set = delivered e ++ t.pending

theorem sendFailedReply_queued (h : s.Ordered) (hc : code ≠ .ok) :
    Queued s (.sendFailedReply code, ⟨if s.Takes then [code] else [], []⟩) (s.sendFailedReply code) := by
  rcases h.cases with rfl | ⟨e, he, rfl⟩ | ⟨e, e2, he, he2, rfl⟩
  · refine ⟨fun h => absurd h hc, ?_⟩
    simp [Slots.Takes, delivered, Slots.sendFailedReply, pending_one hc]
  · refine ⟨fun h => ?_, ?_⟩
    · simp only [Slots.sendFailedReply, he, ne_eq, not_false_eq_true, and_self, if_true] at h
      exact absurd h hc
    · simp [Slots.Takes, delivered, Slots.sendFailedReply, he, pending_one he, pending_two hc he]
  · refine ⟨fun h => ?_, ?_⟩
    · simp [Slots.sendFailedReply, he, he2] at h
    · simp [Slots.Takes, delivered, Slots.sendFailedReply, he, he2, pending_two he he2]

theorem fail_queued (h : s.Ordered) (hc : code ≠ .ok) (he : s.returnError = .ok) :
    Queued s (.fail code, ⟨[code], []⟩) { s with returnError := code } := by
  rcases h.cases with rfl | ⟨e, he', rfl⟩ | ⟨e, e2, he', _, rfl⟩
  · exact ⟨fun h => absurd h hc, by simp [delivered, pending_one hc]⟩
  · exact absurd he he'
  · exact absurd he he'

theorem read_queued (h : s.Ordered) (hr : (Op.read r).Roomy s) :
    Queued s (.read r, ⟨[], (s.read r).1⟩) (s.read r).2 := by
  have hw : word = 4 := rfl
  rcases h.cases with rfl | ⟨e, he, rfl⟩ | ⟨e, e2, he, he2, rfl⟩
  · have hread : Slots.read r ⟨.ok, .ok⟩ = ([], ⟨.ok, .ok⟩) := by simp [Slots.read]
    rw [hread]
    exact ⟨h, rfl⟩
  · have hroom := hr (by rw [pending_one he]; exact List.cons_ne_nil _ _)
    rw [pending_one he, List.length_singleton] at hroom
    simp only [Slots.read]
    split
    · exact ⟨h, by simp [delivered]⟩
    split
    next hlt =>
      obtain ⟨hpos, hfit⟩ := hroom hlt.2
      simp only [ne_eq, not_true_eq_false, if_false]
      split
      · exact ⟨h, by simp [delivered]⟩
      · refine ⟨fun _ => rfl, ?_⟩
        have : r.ptr + word ≤ r.size := by simpa using hfit
        simp [delivered, pending_one he, hpos, this]
    · exact ⟨h, by simp [delivered]⟩
  · have hroom := hr (by rw [pending_two he he2]; exact List.cons_ne_nil _ _)
    rw [pending_two he he2] at hroom
    simp only [Slots.read]
    split
    · exact ⟨h, by simp [delivered]⟩
    split
    next hlt =>
      obtain ⟨hpos, hfit⟩ := hroom hlt.2
      have hfit : r.ptr + word + word ≤ r.size := by grind
      split
      · exact ⟨h, by simp [delivered]⟩
      rw [if_neg (by omega)]
      split
      · refine ⟨fun _ => rfl, ?_⟩
        have : r.ptr + word ≤ r.size := by omega
        simp [delivered, pending_two he he2, pending_one he, hpos, this]
      refine ⟨fun _ => rfl, ?_⟩
      have h1 : r.ptr + word ≤ r.size := by omega
      have h2 : 0 ≤ r.ptr + word := by omega
      simp [delivered, pending_two he he2, hpos, hfit, h1, h2]
    · exact ⟨h, by simp [delivered]⟩

theorem step_queued (h : s.Ordered) (hp : op.Permitted s) (hr : op.Roomy s) (hx : exec s op = .ok (o, t)) :
    Queued s (op, o) t := by
  cases op with
  | sendFailedReply code =>
    cases hx
    exact sendFailedReply_queued h hp
  | fail code =>
    simp only [exec, hp.2, ne_eq, not_true_eq_false, if_false] at hx
    cases hx
    exact fail_queued h hp.1 hp.2
  | read r =>
    cases hx
    exact read_queued h hr

/-! ## Runs -/

theorem queued_run (h0 : roomyMachine.init s) (h : roomyMachine.Run s es t) :
    t.Ordered ∧ setCodes es = deliveredCodes es ++ t.pending := by
  induction h with
  | nil =>
    cases h0
    exact ⟨fun _ => rfl, rfl⟩
  | @snoc t t' es op o _ he hx ih =>
    obtain ⟨hordered, heq⟩ := ih
    have hstep := step_queued hordered he.1 he.2 hx
    refine ⟨hstep.ordered, ?_⟩
    calc setCodes (es ++ [(op, o)]) = setCodes es ++ o.set := by simp [setCodes]
      _ = deliveredCodes es ++ (t.pending ++ o.set) := by rw [heq, List.append_assoc]
      _ = deliveredCodes es ++ (delivered (op, o) ++ t'.pending) := by rw [hstep.eq]
      _ = deliveredCodes (es ++ [(op, o)]) ++ t'.pending := by simp [deliveredCodes]

theorem read_delivers (h : s.Ordered) (hpos : 0 ≤ r.ptr) (hfit : r.ptr + word + word ≤ r.size) (hn : r.faultNoop = false)
    (h2 : r.fault2 = false) (h1 : r.fault = false) :
    delivered (.read r, ⟨[], (s.read r).1⟩) = s.pending ∧ (s.read r).2.pending = [] := by
  have hw : word = 4 := rfl
  have hroom : (Op.read r).Roomy s := fun _ _ => by
    refine ⟨hpos, ?_⟩
    have hle : s.pending.length ≤ 2 := List.length_filter_le _ _
    rw [hw] at hfit ⊢
    omega
  have hend : (s.read r).2.pending = [] := by
    have hne : r.ptr + word ≠ r.size := by omega
    have hlt : r.ptr < r.size := by omega
    rcases h.cases with rfl | ⟨e, he, rfl⟩ | ⟨e, e2, he, he2, rfl⟩
    · simp [Slots.read]
    · simp [Slots.read, hn, h1, he, hlt]
    · simp [Slots.read, hn, h1, h2, he, he2, hlt, hne]
  have heq := (read_queued h hroom).eq
  rw [hend, List.append_nil, List.append_nil] at heq
  exact ⟨heq.symm, hend⟩

/-- If reads have room for the errors they find, the codes read and those still set are those that have been set, in
order and each once. -/
theorem errors_delivered_once (h₀ : roomyMachine.init s) (h : roomyMachine.Run s es t) :
    setCodes es = deliveredCodes es ++ t.pending ∧
      ∀ r : Read, 0 ≤ r.ptr → r.ptr + word + word ≤ r.size → r.faultNoop = false → r.fault2 = false → r.fault = false →
        ∃ o t', exec t (.read r) = .ok (o, t') ∧ delivered (.read r, o) = t.pending ∧ t'.pending = [] := by
  obtain ⟨hordered, heq⟩ := queued_run h₀ h
  refine ⟨heq, fun r hpos hfit hn h2 h1 => ⟨_, _, rfl, read_delivers hordered hpos hfit hn h2 h1⟩⟩

def freshRead (size : Int) : Read := ⟨size, 0, false, false, false⟩

def twoErrors : List Op := [.sendFailedReply .failedReply, .sendFailedReply .deadReply]

instance {s : Slots} : {op : Op} → Decidable (op.Roomy s)
  | .read _ => inferInstanceAs (Decidable (_ → _ → _))
  | .sendFailedReply _ | .fail _ => inferInstanceAs (Decidable True)

instance {s : Slots} {op : Op} : Decidable (roomyMachine.enabled s op) :=
  inferInstanceAs (Decidable (op.Permitted s ∧ op.Roomy s))

theorem two_errors_delivered : ∃ es t, roomyMachine.execList ⟨.ok, .ok⟩ (twoErrors ++ [.read (freshRead 12)]) = some (es, t) ∧
    setCodes es = deliveredCodes es ++ t.pending ∧ deliveredCodes es = [.failedReply, .deadReply] := by
  refine ⟨_, _, rfl, ?_, rfl⟩
  exact (errors_delivered_once rfl (Machine.run_of_execList (twoErrors ++ [.read (freshRead 12)]) rfl)).1

/-- The first read has room for one word after `BR_NOOP`. -/
theorem first_error_twice : ∃ es t,
    machine.execList ⟨.ok, .ok⟩ (twoErrors ++ [.read (freshRead 8), .read (freshRead 12)]) = some (es, t) ∧
      setCodes es = [.failedReply, .deadReply] ∧ deliveredCodes es = [.failedReply, .failedReply, .deadReply] :=
  ⟨_, _, rfl, rfl, rfl⟩

/-! ## The threads of the transactions -/

section Threads

open Transaction hiding exec machine Op Bug

variable {S S' : State} {a b : ThreadId} {u fuel room : Nat} {error : ReturnError} {fault : Bool} {th : Thread}

def threadSlots (th : Thread) : Slots := ⟨th.returnError, th.returnError2⟩

def slotsOf (S : State) (b : ThreadId) : Option Slots := (S.thread b).map threadSlots

theorem slotsOf_setThread : slotsOf (setThread a (some th) S) = update (slotsOf S) a (some (threadSlots th)) := by
  funext c
  by_cases hc : c = a
  · subst hc
    simp [slotsOf, setThread]
  · simp [slotsOf, setThread, hc]

theorem freeTx_thread (h : freeTx u S = .ok S') : S'.thread = S.thread := by
  obtain ⟨x, _, h⟩ := bind_ok h
  obtain ⟨S1, h1, h⟩ := bind_ok h
  cases h
  rcases clearBufferTransaction_eq h1 with ⟨_, rfl⟩ | ⟨_, _, _, rfl⟩
  · rfl
  · rfl

theorem binderPopTransaction_slots {o : Option ThreadId} (h : binderPopTransaction o u S = .ok S') :
    slotsOf S' = slotsOf S := by
  cases o with
  | none =>
    unfold slotsOf
    rw [freeTx_thread h]
  | some a =>
    obtain ⟨th, hth, h⟩ := bind_ok h
    rw [getThread_eq] at hth
    split at h
    · cases h
    obtain ⟨x, _, h⟩ := bind_ok h
    split at h
    · cases h
    have heq : slotsOf S' = slotsOf (setThread a (some { th with stack := x.fromParent }) S) := by
      unfold slotsOf
      rw [freeTx_thread h]
    rw [heq, slotsOf_setThread]
    refine update_eq_self_iff.mpr ?_
    simp [slotsOf, hth, threadSlots]

theorem shiftError_slots (error : ReturnError) (th : Thread) :
    (threadSlots th).sendFailedReply error =
      if th.shiftError.returnError = .ok then { threadSlots th.shiftError with returnError := error }
      else threadSlots th.shiftError := by
  unfold Slots.sendFailedReply Thread.shiftError threadSlots
  split
  · rfl
  · rfl

theorem failedReplyLoop_slots (h : failedReplyLoop error fuel u S = .ok S') :
    slotsOf S' = slotsOf S ∨ ∃ a sl, slotsOf S a = some sl ∧
      slotsOf S' = update (slotsOf S) a (some (sl.sendFailedReply error)) := by
  induction fuel generalizing u S with
  | zero => cases h
  | succ fuel ih =>
    obtain ⟨x, _, h⟩ := bind_ok h
    split at h
    next a _ =>
      obtain ⟨th, hth, h⟩ := bind_ok h
      rw [getThread_eq] at hth
      refine .inr ⟨a, threadSlots th, by rw [slotsOf, hth]; rfl, ?_⟩
      rw [shiftError_slots]
      dsimp only at h
      split at h
      next hok =>
        obtain ⟨S1, hpop, h⟩ := bind_ok h
        obtain ⟨th', hth', h⟩ := bind_ok h
        rw [getThread_eq] at hth'
        cases h
        have hslots := binderPopTransaction_slots hpop
        rw [slotsOf_setThread] at hslots
        have hth1 : threadSlots th' = threadSlots th.shiftError := by
          have := congrFun hslots a
          rw [slotsOf, hth', update_self] at this
          exact Option.some_inj.mp this
        rw [slotsOf_setThread, hslots, update_idem, if_pos hok, ← hth1]
        rfl
      next hok =>
        cases h
        rw [slotsOf_setThread, if_neg hok]
    · obtain ⟨S1, hpop, h⟩ := bind_ok h
      have hslots := binderPopTransaction_slots hpop
      split at h
      · cases h
        exact .inl hslots
      · rw [← hslots]
        exact ih h

/-- Thread 0 waits for the reply to transaction 0, and has an error to report. -/
def pendingCall : State where
  thread _ := some ⟨0, some 0, .deadReply, .ok, none⟩
  todo _ := []
  node _ := ⟨none, false⟩
  tx _ := some ⟨some 0, none, none, none, false, false⟩
  buffer _ := none
  next := 1

theorem pendingCall_failed : ∃ S', failedReplyLoop .failedReply 1 0 pendingCall = .ok S' ∧
    (slotsOf S' = slotsOf pendingCall ∨ ∃ a sl, slotsOf pendingCall a = some sl ∧
      slotsOf S' = update (slotsOf pendingCall) a (some (sl.sendFailedReply .failedReply))) := by
  have h : failedReplyLoop .failedReply 1 0 pendingCall = .ok _ := rfl
  exact ⟨_, h, failedReplyLoop_slots h⟩

def wordRead (ptr : Int) (room : Nat) (fault : Bool) (th : Thread) : Read :=
  ⟨ptr + word * room, ptr, false, false, fault && decide (th.returnError2 ≠ .ok)⟩

theorem readBegin_slots {ptr : Int} {events : List Event} (hptr : ptr ≠ 0) (hth : S.thread a = some th)
    (h : readBegin a room fault S = .ok (events, S')) :
    events = ((threadSlots th).read (wordRead ptr room fault th)).1.map (fun w => .error w.code) ∧
      slotsOf S' = update (slotsOf S) a (some ((threadSlots th).read (wordRead ptr room fault th)).2) := by
  have hw : word = 4 := rfl
  have hp : (wordRead ptr room fault th).ptr = ptr := if_neg hptr
  have hsize : (wordRead ptr room fault th).size = ptr + word * room := rfl
  have hlt : ptr < ptr + word * room ↔ 0 < room := by
    rw [hw]
    omega
  have hone : ptr + word = ptr + word * room ↔ room = 1 := by
    rw [hw]
    omega
  have hread : (threadSlots th).read (wordRead ptr room fault th) =
      if th.returnError ≠ .ok ∧ 0 < room then
        if th.returnError2 ≠ .ok then
          if room = 1 then ([⟨ptr, th.returnError2⟩], threadSlots th)
          else if fault then ([⟨ptr, th.returnError2⟩], ⟨th.returnError, .ok⟩)
          else ([⟨ptr, th.returnError2⟩, ⟨ptr + word, th.returnError⟩], ⟨.ok, .ok⟩)
        else ([⟨ptr, th.returnError⟩], ⟨.ok, th.returnError2⟩)
      else ([], threadSlots th) := by
    unfold Slots.read
    rw [hp, hsize, if_neg fun h => hptr h.1]
    simp only [hlt, hone]
    by_cases h2 : th.returnError2 = .ok
    · simp [threadSlots, wordRead, h2]
    · simp [threadSlots, wordRead, h2]
  obtain ⟨th', hth', h⟩ := bind_ok h
  rw [getThread_eq, hth] at hth'
  cases hth'
  have hself : ∀ sl, sl = threadSlots th → slotsOf S = update (slotsOf S) a (some sl) := fun sl hsl => by
    refine (update_eq_self_iff.mpr ?_).symm
    rw [slotsOf, hth, hsl]
    rfl
  rw [hread]
  split at h
  next hpend =>
    rw [if_pos hpend]
    split at h
    next h2 =>
      rw [if_pos h2]
      split at h
      next hone =>
        cases h
        rw [if_pos hone]
        exact ⟨rfl, hself _ rfl⟩
      rename_i hone
      rw [if_neg hone]
      split at h
      next hf =>
        cases h
        rw [if_pos hf]
        exact ⟨rfl, slotsOf_setThread⟩
      rename_i hf
      cases h
      rw [if_neg hf]
      exact ⟨rfl, slotsOf_setThread⟩
    next h2 =>
      cases h
      rw [if_neg h2]
      exact ⟨rfl, slotsOf_setThread⟩
  next hpend =>
    cases h
    rw [if_neg hpend]
    exact ⟨rfl, slotsOf_setThread⟩

theorem pendingCall_read : ∃ events S', readBegin 0 8 false pendingCall = .ok (events, S') ∧
    events = ((⟨.deadReply, .ok⟩ : Slots).read ⟨36, 4, false, false, false⟩).1.map fun w => .error w.code := by
  have h : readBegin 0 8 false pendingCall = .ok (_, _) := rfl
  have hth : pendingCall.thread 0 = some ⟨0, some 0, .deadReply, .ok, none⟩ := rfl
  exact ⟨_, _, h, (readBegin_slots (show (4 : Int) ≠ 0 by decide) hth h).1⟩

end Threads

end G3Mod.Binder.Errors
