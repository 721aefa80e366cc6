import G3Mod.Binder.Objects.Model
import G3Mod.Binder.Refs.Lemmas.Updates

/-!
# Where `return_error` comes from
-/

namespace G3Mod.Binder.Objects

open Function Lib Refs

open Transaction (ReturnError)

variable {c : Call} {luck : Luck} {off : Nat} {d d' : Data} {s s' : State} {e : ReturnError} {o : List Event}
  {a : ThreadId}

/-! ## Translation -/

def WrongCookie (c : Call) (off : Nat) (d : Data) (s : State) : Prop :=
  d.Valid off ∧ ∃ strong n nd, d.type off = some (.binder strong) ∧ binderGetNode c.proc (d.object off) s = .ok (some n) ∧
    s.node n = some nd ∧ d.cookie off ≠ nd.cookie

theorem senderNode_cases {x : Option NodeId} (h : senderNode c luck off d s = .ok (x, s')) :
    (∃ n, binderGetNode c.proc (d.object off) s = .ok (some n) ∧ x = some n ∧ s' = s) ∨
    (∀ n, binderGetNode c.proc (d.object off) s ≠ .ok (some n)) ∧
      (x = none ∨ ∃ n nd, x = some n ∧ s'.node n = some nd ∧ nd.cookie = d.cookie off) := by
  obtain ⟨o, ho, h⟩ := bind_ok h
  cases o with
  | some n =>
    cases h
    exact .inl ⟨n, ho, rfl, rfl⟩
  | none =>
    have hno : ∀ n, binderGetNode c.proc (d.object off) s ≠ .ok (some n) := by
      intro n hn
      rw [ho] at hn
      cases hn
    refine .inr ⟨hno, ?_⟩
    obtain ⟨⟨y, s1⟩, hy, hend⟩ := bind_ok h
    rcases binderNewNode_cases hy with ⟨rfl, rfl⟩ | ⟨pr, hp, hk, rfl, rfl⟩
    · cases hend
      exact .inl rfl
    obtain ⟨nd, hn, h⟩ := bind_ok hend
    have hnew : (addNode c.proc pr (newNode c.proc (d.object off) (d.cookie off)) s).node s.next =
        some (newNode c.proc (d.object off) (d.cookie off)) := addNode_node.trans (if_pos rfl)
    cases hnew.symm.trans (getNode_ok hn)
    cases h
    exact .inr ⟨s.next, _, rfl, (setNode_node _ _ _ _).trans (if_pos rfl), rfl⟩

variable {strong : Bool}

theorem translateBinder_error (hv : d.Valid off) (ht : d.type off = some (.binder strong))
    (h : translateBinder c luck strong off d s = .ok (.error e, s')) :
    WrongCookie c off d s ∧ e = .unset c.garbage ∨ ¬ WrongCookie c off d s ∧ e = .failedReply := by
  obtain ⟨⟨x, s1⟩, hx, hend⟩ := bind_ok h
  -- a node that the sender did not have has the right cookie
  rcases senderNode_cases hx with ⟨n, hn, rfl, rfl⟩ | ⟨hno, hnew⟩
  · obtain ⟨nd, hnd, h⟩ := bind_ok hend
    have hnd := getNode_ok hnd
    split at h
    next hc =>
      cases h
      exact .inl ⟨⟨hv, strong, n, nd, ht, hn, hnd, hc⟩, rfl⟩
    rename_i hc
    have hw : ¬ WrongCookie c off d s1 := by
      rintro ⟨_, _, n', nd', _, hn', hnd', hc'⟩
      cases hn.symm.trans hn'
      cases hnd.symm.trans hnd'
      exact hc hc'
    obtain ⟨⟨y, s2⟩, _, h⟩ := bind_ok h
    cases y with
    | none => cases h; exact .inr ⟨hw, rfl⟩
    | some desc => cases h
  · have hw : ¬ WrongCookie c off d s := by
      rintro ⟨_, _, n', _, _, hn', _⟩
      exact hno n' hn'
    rcases hnew with rfl | ⟨n, nd, rfl, hnd, hc⟩
    · cases hend
      exact .inr ⟨hw, rfl⟩
    obtain ⟨nd', hnd', h⟩ := bind_ok hend
    cases hnd.symm.trans (getNode_ok hnd')
    split at h
    · next hne => exact absurd hc.symm hne
    obtain ⟨⟨y, s2⟩, _, h⟩ := bind_ok h
    cases y with
    | none => cases h; exact .inr ⟨hw, rfl⟩
    | some desc => cases h

theorem translateHandle_error (h : translateHandle c luck strong off d s = .ok (.error e, s')) :
    e = .failedReply := by
  obtain ⟨x, _, h⟩ := bind_ok h
  cases x with
  | none => cases h; rfl
  | some r =>
    obtain ⟨rf, _, h⟩ := bind_ok h
    obtain ⟨nd, _, h⟩ := bind_ok h
    split at h
    · obtain ⟨x, _, h⟩ := bind_ok h
      cases h
    obtain ⟨⟨y, s2⟩, _, h⟩ := bind_ok h
    cases y with
    | none => cases h; rfl
    | some desc => cases h

theorem translateFd_error (h : translateFd c luck off d s = .ok (.error e, s')) : e = .failedReply := by
  obtain ⟨x, _, h⟩ := bind_ok h
  split at h
  · cases h; rfl
  obtain ⟨pr, _, h⟩ := bind_ok h
  split at h
  · cases h; rfl
  split at h
  · cases h; rfl
  · obtain ⟨pr', _, h⟩ := bind_ok h
    cases h

theorem translate_error (h : translate c luck off d s = .ok (.error e, s')) :
    WrongCookie c off d s ∧ e = .unset c.garbage ∨ ¬ WrongCookie c off d s ∧ e = .failedReply := by
  have hother : (∀ strong, d.type off ≠ some (.binder strong)) → ¬ WrongCookie c off d s := by
    rintro hne ⟨_, strong, _, _, ht, _⟩
    exact hne strong ht
  unfold translate at h
  split at h
  next hv =>
    split at h
    · next strong ht => exact translateBinder_error hv ht h
    · next strong ht => exact .inr ⟨hother (by simp [ht]), translateHandle_error h⟩
    · next ht => exact .inr ⟨hother (by simp [ht]), translateFd_error h⟩
    · next ht => cases h; exact .inr ⟨hother (by simp [ht]), rfl⟩
  next hv =>
    cases h
    exact .inr ⟨fun hw => hv hw.1, rfl⟩

theorem translate_wrongCookie (hw : WrongCookie c off d s) : translate c luck off d s = .ok (.error (.unset c.garbage), s) := by
  obtain ⟨hv, strong, n, nd, ht, hn, hnd, hc⟩ := hw
  simp only [translate, if_pos hv, ht, translateBinder, senderNode, hn, ok_bind, pure, Except.pure, getNode, hnd, if_pos hc]

/-- After the objects before it have been translated, the loop comes to an object with a wrong cookie. -/
def MeetsWrongCookie (c : Call) (luck : Nat → Luck) (offs : List Nat) (k : Nat) (d : Data) (s : State) : Prop :=
  ∃ pre off post d' s', offs = pre ++ off :: post ∧ translateLoop c luck pre k d s = .ok (d', none, s') ∧
    WrongCookie c off d' s'

theorem translateLoop_error {luck : Nat → Luck} {offs : List Nat} {k j : Nat}
    (h : translateLoop c luck offs k d s = .ok (d', some (j, e), s')) :
    MeetsWrongCookie c luck offs k d s ∧ e = .unset c.garbage ∨
      ¬ MeetsWrongCookie c luck offs k d s ∧ e = .failedReply := by
  induction offs generalizing k d s with
  | nil => cases h
  | cons off offs ih =>
    obtain ⟨⟨x, s1⟩, hx, h⟩ := bind_ok h
    cases x with
    | error e' =>
      cases h
      rcases translate_error hx with ⟨hw, rfl⟩ | ⟨hw, rfl⟩
      · exact .inl ⟨⟨[], off, offs, _, s, rfl, rfl, hw⟩, rfl⟩
      refine .inr ⟨?_, rfl⟩
      rintro ⟨pre, off', post, d1, s2, hsplit, hpre, hw'⟩
      cases pre with
      | nil =>
        cases hsplit
        cases hpre
        exact hw hw'
      | cons b pre =>
        cases hsplit
        simp only [translateLoop, hx, ok_bind] at hpre
        cases hpre
    | ok d1 =>
      have hstep : ∀ pre, translateLoop c luck (off :: pre) k d s = translateLoop c luck pre (k + 1) d1 s1 := by
        intro pre
        simp only [translateLoop, hx, ok_bind]
      have hmeets : MeetsWrongCookie c luck (off :: offs) k d s ↔ MeetsWrongCookie c luck offs (k + 1) d1 s1 := by
        constructor
        · rintro ⟨pre, off', post, d2, s2, hsplit, hpre, hw⟩
          cases pre with
          | nil =>
            cases hsplit
            cases hpre
            rw [translate_wrongCookie hw] at hx
            cases hx
          | cons b pre =>
            cases hsplit
            exact ⟨pre, off', post, d2, s2, rfl, hstep pre ▸ hpre, hw⟩
        · rintro ⟨pre, off', post, d2, s2, hsplit, hpre, hw⟩
          exact ⟨off :: pre, off', post, d2, s2, by rw [hsplit]; rfl, (hstep pre).trans hpre, hw⟩
      rw [hmeets]
      exact ih h

/-! ## The exits -/

def Defined (e : ReturnError) : Prop := e = .failedReply ∨ e = .deadReply

def FillsWrongCookie (c : Call) (pl : Payload) (env : Env) (s : State) : Prop :=
  env.t = true ∧ env.tcomplete = true ∧ env.buffer = true ∧ env.copyData = true ∧ env.copyOffsets = true ∧
    pl.aligned = true ∧ ∃ s₁, holdTarget c.node s = .ok s₁ ∧ MeetsWrongCookie c env.luck pl.offsets 0 pl.data s₁

theorem fill_error {pl : Payload} {env : Env} (h : fill c pl env s = .ok (.error e, o, s')) :
    FillsWrongCookie c pl env s ∧ e = .unset c.garbage ∨ ¬ FillsWrongCookie c pl env s ∧ e = .failedReply := by
  unfold fill at h
  split at h
  next halloc =>
    obtain ⟨s1, hs1, h⟩ := bind_ok h
    obtain ⟨⟨d1, f, s2⟩, hx, h⟩ := bind_ok h
    cases f with
    | none => cases h
    | some f =>
      obtain ⟨⟨o1, s3⟩, _, h⟩ := bind_ok h
      cases h
      unfold translateAll at hx
      split at hx
      next hcopy =>
        have hiff : FillsWrongCookie c pl env s ↔ MeetsWrongCookie c env.luck pl.offsets 0 pl.data s1 := by
          constructor
          · rintro ⟨_, _, _, _, _, _, s1', hs1', hm⟩
            cases hs1.symm.trans hs1'
            exact hm
          · exact fun hm => ⟨halloc.1, halloc.2.1, halloc.2.2, hcopy.1, hcopy.2.1, hcopy.2.2, s1, hs1, hm⟩
        rw [hiff]
        exact translateLoop_error hx
      next hcopy =>
        cases hx
        refine .inr ⟨?_, rfl⟩
        rintro ⟨_, _, _, h1, h2, h3, _⟩
        exact hcopy ⟨h1, h2, h3⟩
  next halloc =>
    cases h
    refine .inr ⟨?_, rfl⟩
    rintro ⟨h1, h2, h3, _⟩
    exact halloc ⟨h1, h2, h3⟩

variable {A : Type}

theorem onRefs_ok {x : Except Bug A} {y : A} (h : onRefs x = .ok y) : x = .ok y := by
  cases x with
  | error b => cases h
  | ok b => cases h; rfl

theorem onTxs_ok {x : Except Transaction.Bug A} {y : A} (h : onTxs x = .ok y) : x = .ok y := by
  cases x with
  | error b => cases h
  | ok b => cases h; rfl

variable {fds : Bool} {t t' : Transaction.State} {irt : Option Nat}

theorem routeReply_error
    (h : routeReply a fds t = .ok (.error (irt, e), t')) : Defined e := by
  obtain ⟨th, _, h⟩ := bind_ok h
  split at h
  · cases h; exact .inl rfl
  obtain ⟨x, _, h⟩ := bind_ok h
  split at h
  · cases h; exact .inl rfl
  split at h
  · cases h; exact .inr rfl
  obtain ⟨fth, _, h⟩ := bind_ok h
  split at h
  · obtain ⟨_, _, h⟩ := bind_ok h
    cases h; exact .inl rfl
  · cases h

variable {p : ProcId}

theorem targetNode_error {handle : Nat} (h : targetNode p handle s = .ok (.error e)) : Defined e := by
  unfold targetNode at h
  split at h
  · obtain ⟨x, _, h⟩ := bind_ok h
    cases x with
    | none => cases h; exact .inl rfl
    | some r =>
      obtain ⟨rf, _, h⟩ := bind_ok h
      cases h
  · split at h
    · cases h; exact .inr rfl
    · cases h

theorem routeCall_error {oneWay : Bool} {n : NodeId}
    (h : routeCall a oneWay n p t = .ok (.error (irt, e))) : Defined e ∧ irt = none := by
  unfold routeCall at h
  split at h
  · cases h
  obtain ⟨waits, _, h⟩ := bind_ok h
  split at h
  · cases h; exact ⟨.inl rfl, rfl⟩
  · obtain ⟨z, _, h⟩ := bind_ok h
    cases h

variable {tr : Request} {reply : Bool} {w : World}

theorem route_error
    (h : route a tr reply fds w = .ok (.error (irt, e), t)) : Defined e ∧ (reply = false → irt = none) := by
  unfold route at h
  split at h
  · next hr => exact ⟨routeReply_error (onTxs_ok h), fun e => by rw [hr] at e; cases e⟩
  obtain ⟨th, _, h⟩ := bind_ok h
  obtain ⟨x, hx, h⟩ := bind_ok h
  cases x with
  | error e' =>
    cases h
    exact ⟨targetNode_error (onRefs_ok hx), fun _ => rfl⟩
  | ok n =>
    obtain ⟨nd, _, h⟩ := bind_ok h
    split at h
    · cases h; exact ⟨.inr rfl, fun _ => rfl⟩
    · obtain ⟨r, hr, h⟩ := bind_ok h
      cases h
      exact ⟨(routeCall_error (onTxs_ok hr)).1, fun _ => (routeCall_error (onTxs_ok hr)).2⟩

theorem route_call {r : Route}
    (h : route a tr reply fds w = .ok (.ok r, t)) : reply = false → r.inReplyTo = none := by
  unfold route at h
  split at h
  · next hr => exact fun e => by rw [hr] at e; cases e
  obtain ⟨th, _, h⟩ := bind_ok h
  obtain ⟨x, hx, h⟩ := bind_ok h
  cases x with
  | error e' => cases h
  | ok n =>
    obtain ⟨nd, _, h⟩ := bind_ok h
    split at h
    · cases h
    obtain ⟨r', hr, h⟩ := bind_ok h
    cases h
    have hr := onTxs_ok hr
    unfold routeCall at hr
    split at hr
    · cases hr; exact fun _ => rfl
    obtain ⟨waits, _, hr⟩ := bind_ok hr
    split at hr
    · cases hr
    · obtain ⟨z, _, hr⟩ := bind_ok hr
      cases hr; exact fun _ => rfl

theorem transactionFailed_reports
    (h : Transaction.transactionFailed a irt e t = .ok t') :
    (irt = none → ∃ th, t'.thread a = some th ∧ th.returnError = e) ∧
    ∀ u, irt = some u → ∃ t1 th, t1.thread a = some th ∧ th.returnError = .transactionComplete ∧
      Transaction.binderSendFailedReply u e t1 = .ok t' := by
  obtain ⟨th, _, h⟩ := bind_ok h
  split at h
  · cases h
  cases irt with
  | none =>
    cases h
    exact ⟨fun _ => ⟨{ th with returnError := e }, by simp [Transaction.setThread], rfl⟩, nofun⟩
  | some u =>
    refine ⟨nofun, fun v hv => ?_⟩
    cases hv
    exact ⟨_, { th with returnError := .transactionComplete }, by simp [Transaction.setThread], rfl, h⟩

/-! # Theorems on the objects in a transaction -/

variable {tr : Request} {reply fds : Bool} {env : Env} {w w' : World} {irt : Option Nat}

def World.Agree (w : World) : Prop := ∀ n nd, w.refs.node n = some nd → (w.txs.node n).proc = nd.proc

def Exit.outcome : Exit → Option ReturnError
  | .accepted _ => none
  | .failed _ e => some e

theorem binderTransaction_reply {x : Exit} (h : binderTransaction a tr true fds env w = .ok (x, w')) :
    Transaction.bcReply a tr.oneWay x.outcome w.txs = .ok ([], w'.txs) := by
  obtain ⟨th, hth, h⟩ := bind_ok h
  have hth := onTxs_ok hth
  obtain ⟨⟨r, t⟩, hr, h⟩ := bind_ok h
  have hr : routeReply a fds w.txs = .ok (r, t) := onTxs_ok hr
  simp only [routeReply, hth, ok_bind] at hr
  simp only [Transaction.bcReply, hth, ok_bind]
  split at hr
  next hs =>
    cases hr
    obtain ⟨t', ht', h⟩ := bind_ok h
    cases h
    simp only [hs, onTxs_ok ht', ok_bind]
  rename_i irt hs
  obtain ⟨y, hy, hr⟩ := bind_ok hr
  simp only [hs, hy, ok_bind]
  split at hr
  next hto =>
    cases hr
    obtain ⟨t', ht', h⟩ := bind_ok h
    cases h
    rw [if_pos hto]
    simp only [onTxs_ok ht', ok_bind]
  rename_i hto
  rw [if_neg hto]
  split at hr
  next hf =>
    cases hr
    obtain ⟨t', ht', h⟩ := bind_ok h
    cases h
    simp only [hf, onTxs_ok ht', ok_bind]
  rename_i f hf
  obtain ⟨fth, hfth, hr⟩ := bind_ok hr
  simp only [hf, hfth, ok_bind]
  split at hr
  next hst =>
    obtain ⟨pk, hpk, hr⟩ := bind_ok hr
    cases hr
    obtain ⟨t', ht', h⟩ := bind_ok h
    cases h
    rw [if_pos hst]
    simp only [hpk, onTxs_ok ht', ok_bind]
  rename_i hst
  cases hr
  rw [if_neg hst]
  obtain ⟨⟨y, o1, s1⟩, _, h⟩ := bind_ok h
  cases y with
  | error e' =>
    obtain ⟨t', ht', h⟩ := bind_ok h
    cases h
    simp only [Exit.outcome, onTxs_ok ht', ok_bind]
  | ok d =>
    obtain ⟨t', ht', h⟩ := bind_ok h
    cases h
    obtain ⟨th', _, ht'⟩ := bind_ok (onTxs_ok ht')
    simp only [Exit.outcome, show Transaction.acceptReply _ _ _ _ _ _ = _ from ht', ok_bind]

theorem binderTransaction_call {x : Exit} (hw : w.Agree) (h : binderTransaction a tr false fds env w = .ok (x, w')) :
    ∃ target o, Transaction.bcTransaction a target tr.oneWay x.outcome w.txs = .ok (o, w'.txs) := by
  obtain ⟨th, hth, h⟩ := bind_ok h
  have hth := onTxs_ok hth
  obtain ⟨⟨r, t⟩, hr, h⟩ := bind_ok h
  simp only [route, Bool.false_eq_true, if_false, hth, onTxs, ok_bind] at hr
  obtain ⟨y, hy, hr⟩ := bind_ok hr
  cases y with
  | error e' =>
    cases hr
    obtain ⟨t', ht', h⟩ := bind_ok h
    cases h
    have ht' := onTxs_ok ht'
    rcases targetNode_error (onRefs_ok hy) with rfl | rfl
    · exact ⟨.invalidHandle, [], by simp only [Transaction.bcTransaction, ht', ok_bind]⟩
    · exact ⟨.noContextManager, [], by simp only [Transaction.bcTransaction, ht', ok_bind]⟩
  | ok n =>
    obtain ⟨nd, hnd, hr⟩ := bind_ok hr
    have hproc := hw n nd (getNode_ok (onRefs_ok hnd))
    refine ⟨.node n, ?_⟩
    simp only [Transaction.bcTransaction, hproc]
    split at hr
    next hp =>
      cases hr
      obtain ⟨t', ht', h⟩ := bind_ok h
      cases h
      exact ⟨[], by simp only [hp, onTxs_ok ht', ok_bind]⟩
    rename_i p hp
    obtain ⟨r', hr', hr⟩ := bind_ok hr
    have hr' := onTxs_ok hr'
    cases hr
    simp only [hp]
    unfold routeCall at hr'
    split at hr'
    next ho =>
      cases hr'
      obtain ⟨⟨y, o1, s1⟩, _, h⟩ := bind_ok h
      simp only [ho, if_true]
      cases y with
      | error e' =>
        obtain ⟨t', ht', h⟩ := bind_ok h
        cases h
        exact ⟨[], by simp only [Transaction.sendOneWay, Exit.outcome, onTxs_ok ht', ok_bind]⟩
      | ok d =>
        obtain ⟨t', ht', h⟩ := bind_ok h
        cases h
        simp only [accept, hth, ok_bind, ho, if_true, onTxs] at ht'
        cases ht'
        exact ⟨_, rfl⟩
    next ho =>
      obtain ⟨waits, hwait, hr'⟩ := bind_ok hr'
      rw [if_neg ho]
      simp only [Transaction.sendSync, hth, hwait, ok_bind]
      split at hr'
      next hb =>
        cases hr'
        obtain ⟨t', ht', h⟩ := bind_ok h
        cases h
        exact ⟨[], by rw [if_pos hb]; simp only [onTxs_ok ht', ok_bind]⟩
      rename_i hb
      obtain ⟨z, hz, hr'⟩ := bind_ok hr'
      cases hr'
      obtain ⟨⟨y, o1, s1⟩, _, h⟩ := bind_ok h
      rw [if_neg hb]
      simp only [hz, ok_bind]
      cases y with
      | error e' =>
        obtain ⟨t', ht', h⟩ := bind_ok h
        cases h
        exact ⟨[], by simp only [Exit.outcome, onTxs_ok ht', ok_bind]⟩
      | ok d =>
        obtain ⟨t', ht', h⟩ := bind_ok h
        cases h
        simp only [accept, hth, ok_bind, if_neg ho, onTxs] at ht'
        cases ht'
        exact ⟨_, rfl⟩

/-! ## Errors are reported -/

/-- The transaction finds its target and fills a buffer, and one of its objects has a wrong cookie. -/
def SendsWrongCookie (a : ThreadId) (tr : Request) (reply fds : Bool) (env : Env) (w : World) : Prop :=
  ∃ th r t, Transaction.getThread a w.txs = .ok th ∧ route a tr reply fds w = .ok (.ok r, t) ∧
    FillsWrongCookie ⟨th.proc, a, r.proc, r.node, r.acceptFds, tr.garbage⟩ tr.payload env w.refs

/-- An error exit that was not taken for a wrong cookie has a defined code, and reports it where it has to. -/
theorem failed_transaction_reported (h : binderTransaction a tr reply fds env w = .ok (.failed irt e, w')) :
    (Defined e ↔ ¬ SendsWrongCookie a tr reply fds env w) ∧
    (irt = none → ∃ th, w'.txs.thread a = some th ∧ th.returnError = e) ∧
    ∀ u, irt = some u → reply = true ∧ ∃ t th, t.thread a = some th ∧ th.returnError = .transactionComplete ∧
      Transaction.binderSendFailedReply u e t = .ok w'.txs := by
  obtain ⟨th, hth, h⟩ := bind_ok h
  obtain ⟨⟨r, t⟩, hr, h⟩ := bind_ok h
  cases r with
  | error f =>
    obtain ⟨irt', e'⟩ := f
    obtain ⟨t', ht', h⟩ := bind_ok h
    cases h
    have hrep := transactionFailed_reports (onTxs_ok ht')
    obtain ⟨hdef, hcall⟩ := route_error hr
    refine ⟨⟨fun _ => ?_, fun _ => hdef⟩, hrep.1, fun u hu => ⟨?_, hrep.2 u hu⟩⟩
    · rintro ⟨_, _, _, _, hr', _⟩
      rw [hr] at hr'
      cases hr'
    cases reply with
    | true => rfl
    | false =>
      rw [hcall rfl] at hu
      cases hu
  | ok r =>
    obtain ⟨⟨y, o, s⟩, hy, h⟩ := bind_ok h
    cases y with
    | ok d =>
      obtain ⟨t', _, h⟩ := bind_ok h
      cases h
    | error e' =>
      obtain ⟨t', ht', h⟩ := bind_ok h
      cases h
      have hrep := transactionFailed_reports (onTxs_ok ht')
      have hiff : SendsWrongCookie a tr reply fds env w ↔
          FillsWrongCookie ⟨th.proc, a, r.proc, r.node, r.acceptFds, tr.garbage⟩ tr.payload env w.refs := by
        constructor
        · rintro ⟨th', r', t'', hth', hr', hf⟩
          cases (onTxs_ok hth).symm.trans hth'
          rw [hr] at hr'
          cases hr'
          exact hf
        · exact fun hf => ⟨th, r, t, onTxs_ok hth, hr, hf⟩
      refine ⟨?_, hrep.1, fun u hu => ⟨?_, hrep.2 u hu⟩⟩
      · rw [hiff]
        rcases fill_error (onRefs_ok hy) with ⟨hf, rfl⟩ | ⟨hf, rfl⟩
        · exact iff_of_false (by simp [Defined]) (not_not.mpr hf)
        · exact iff_of_true (.inl rfl) hf
      cases reply with
      | true => rfl
      | false =>
        rw [route_call hr rfl] at hu
        cases hu

def cookieWorld : World where
  refs := ((fullMachine.execList emptyState
    [.openProc 0, .openProc 1, .setContextMgr 0 true, .newNode 1 4 8 true]).map Prod.snd).getD emptyState
  txs :=
    { thread := fun a => if a = 0 then some ⟨1, none, .ok, .ok, none⟩ else none
      todo := fun _ => []
      node := fun n => ⟨if n = 0 then some 0 else some 1, false⟩
      tx := fun _ => none
      buffer := fun _ => none
      next := 0 }

def cookieRequest (cookie : Nat) : Request where
  handle := 0
  oneWay := false
  payload := ⟨⟨16, fun off => if off = 0 then 0x73622a85 else if off = 8 then 4 else if off = 12 then cookie else 0⟩, [0],
    true⟩
  garbage := 0

def luckyEnv : Env := ⟨true, true, true, true, true, fun _ => ⟨true, true, true⟩⟩

theorem failed_transaction_reported_alloc : ∃ w', binderTransaction 0 (cookieRequest 8) false false
      { luckyEnv with luck := fun _ => ⟨true, false, true⟩ } cookieWorld = .ok (.failed none .failedReply, w') ∧
    ∃ th, w'.txs.thread 0 = some th ∧ th.returnError = .failedReply := by
  obtain ⟨w', h⟩ : ∃ w', binderTransaction 0 (cookieRequest 8) false false
      { luckyEnv with luck := fun _ => ⟨true, false, true⟩ } cookieWorld = .ok (.failed none .failedReply, w') := ⟨_, rfl⟩
  exact ⟨w', h, (failed_transaction_reported h).2.1 rfl⟩

/-- With the wrong cookie the thread's error is a value that was never set. -/
theorem wrong_cookie_unreported : ∃ w' th, binderTransaction 0 (cookieRequest 9) false false luckyEnv cookieWorld =
    .ok (.failed none (.unset 0), w') ∧ w'.txs.thread 0 = some th ∧ th.returnError = .unset 0 :=
  ⟨_, _, rfl, rfl, rfl⟩

theorem cookie_reply_step : ∃ x w', binderTransaction 0 (cookieRequest 8) true false luckyEnv cookieWorld = .ok (x, w') ∧
    Transaction.bcReply 0 false x.outcome cookieWorld.txs = .ok ([], w'.txs) := by
  have h : binderTransaction 0 (cookieRequest 8) true false luckyEnv cookieWorld = .ok (_, _) := rfl
  exact ⟨_, _, h, binderTransaction_reply h⟩

theorem cookie_call_step : ∃ x w' target o,
    binderTransaction 0 (cookieRequest 8) false false luckyEnv cookieWorld = .ok (x, w') ∧
      Transaction.bcTransaction 0 target false x.outcome cookieWorld.txs = .ok (o, w'.txs) := by
  have ha : cookieWorld.Agree := by
    rintro (_ | _ | n) nd h
    · cases h; rfl
    · cases h; rfl
    · cases h
  have h : binderTransaction 0 (cookieRequest 8) false false luckyEnv cookieWorld = .ok (_, _) := rfl
  obtain ⟨target, o, hx⟩ := binderTransaction_call ha h
  exact ⟨_, _, target, o, h, hx⟩

end G3Mod.Binder.Objects
