import G3Mod.Binder.Transaction.Lemmas.Stacks

/-!
# Calls: the pushes on the stacks and the choice of the target thread
-/

namespace G3Mod.Binder.Transaction

open Function Lib Relation

variable {dead : Option ThreadId} {stk : ThreadId → List Nat} {s s' : State} {t u r : Nat}
  {a f : ThreadId} {x : Tx} {b : Buffer} {th : Thread}

/-! ## New threads and transactions -/

theorem Links.addThread (h : Links none stk s) (th : Thread) (hth : s.thread a = none) (hs : th.stack = none) :
    Links none (update stk a []) (setThread a (some th) s) where
  txLt := h.txLt
  chain {c cth} hd hc := by
    have := @h.chain c cth hd
    change Follows (Below s c) _ _
    grind [Follows]
  sender hx hf := by
    have := h.sender hx hf
    grind
  parent := h.parent
  child := h.child
  callback {c _ _ _} hc hr := h.callback (a := c) (by grind) (by grind)
  onStack {c _ _} hc ht := h.onStack (a := c) (by grind) (by grind)
  waits {c cth} hc := by
    have := @h.waits c cth
    grind

theorem newTx_tx_old (h : Links dead stk s) {y : Tx} (hy : s.tx u = some y) : (newTx x b s).tx u = some y := by
  have := h.txLt hy
  grind

theorem Links.lt_of_mem (h : Links dead stk s) (ha : Alive dead s a) (ht : t ∈ stk a) : t < s.next := by
  obtain ⟨hd, th, hth⟩ := ha
  obtain ⟨_, y, hy, _⟩ := (h.chain hd hth).exists_link ht
  exact h.txLt hy

theorem Links.up_newTx (h : Links dead stk s) {c q : Nat} (hu : Up s c q) : Up (newTx x b s) c q := by
  obtain ⟨y, hy, hq⟩ := hu
  exact ⟨y, newTx_tx_old h hy, hq⟩

theorem Links.chain_newTx (h : Links dead stk s) (hd : dead ≠ some a) (hth : s.thread a = some th) :
    Follows (Below (newTx x b s) a) th.stack (stk a) :=
  (h.chain hd hth).mono fun _ _ _ ⟨y, hy, ho⟩ => ⟨y, newTx_tx_old h hy, ho⟩

theorem alive_newTx : Alive dead (newTx x b s) a ↔ Alive dead s a := Iff.rfl

theorem Links.addUnsent (h : Links dead stk s) (hf : x.fromThread = none) (hp : x.fromParent = none) :
    Links dead stk (newTx x b s) where
  txLt {t y} hy := by
    have := @h.txLt t y
    grind
  chain hd hth := h.chain_newTx hd hth
  sender {t y c} hy hfy := by
    have := @h.sender t y c
    grind
  parent {t y q} hy hpy := by
    have := @h.parent t y q
    have := @h.txLt
    grind
  child c c' q hc hc' := by
    have := h.child c c' q
    grind
  callback {c r y q} ha hr hy hto hq := by
    have hlt := h.lt_of_mem (alive_newTx.mp ha) hr
    obtain ⟨hd, z, hz, e⟩ := h.callback (alive_newTx.mp ha) hr (by grind) hto hq
    exact ⟨TransGen.mono (fun _ _ => h.up_newTx) _ _ hd, z, newTx_tx_old h hz, e⟩
  onStack {c t y} ha ht hy := by
    have := h.lt_of_mem (alive_newTx.mp ha) ht
    exact h.onStack (alive_newTx.mp ha) ht (by grind)
  waits := h.waits

def CanCall (stk : ThreadId → List Nat) (s : State) (a : ThreadId) : Prop :=
  stk a = [] ∨ ∃ r l y, stk a = r :: l ∧ s.tx r = some y ∧ y.toThread = some a

theorem Links.pushSent (h : Links dead stk s) (th' : Thread) (hd : dead ≠ some a)
    (hth : s.thread a = some th) (hc : CanCall stk s a) (hf : x.fromThread = some a)
    (hp : x.fromParent = th.stack) (hto : x.toThread ≠ some a) (ho : x.oneWay = false)
    (hs' : th'.stack = some s.next) (hw : th'.waiting ≠ some true) :
    Links dead (update stk a (s.next :: stk a)) (setThread a (some th') (newTx x b s)) := by
  have ha : Alive dead s a := ⟨hd, th, hth⟩
  have halive : ∀ {c}, Alive dead (setThread a (some th') (newTx x b s)) c ↔ Alive dead s c :=
    alive_setThread (s := newTx x b s) hth
  have hparent : ∀ {q}, th.stack = some q → ∃ y, s.tx q = some y ∧ y.toThread = some a ∧ Leaf (Up s) q := by
    have hch := h.chain hd hth
    rcases hc with hc | ⟨r, l, y, hc, hy, hr⟩
    · grind [Follows]
    · have := h.leaf_of_top ha hc hy hr
      grind [Follows]
  constructor
  case txLt =>
    intro t y hy
    have := @h.txLt t y
    grind
  case chain =>
    intro c cth hdc hcth
    by_cases e : c = a
    · subst e
      obtain rfl : cth = th' := by grind
      rw [update_self]
      exact ⟨hs', th.stack, ⟨x, by grind, .inr ⟨hto, hf, hp⟩⟩, h.chain_newTx (b := b) hd hth⟩
    · rw [update_of_ne e]
      exact h.chain_newTx (b := b) hdc (by grind)
  case sender =>
    intro t y c hy hfy
    have := @h.sender t y c
    grind
  case parent =>
    intro t y q hy hq
    have := @h.parent t y q
    have := @h.txLt
    grind
  case child =>
    intro c c' q hc hc'
    have := h.child c c' q
    grind [Leaf]
  case callback =>
    intro c r y q hc hr hy htoc hq
    -- the new transaction is only on the stack of its sender
    have hr' : r ∈ stk c ∧ r ≠ s.next := by
      have := fun hr => h.lt_of_mem (t := r) (halive.mp hc) hr
      grind
    obtain ⟨hdesc, z, hz, e⟩ := h.callback (halive.mp hc) hr'.1 (by grind) htoc hq
    exact ⟨TransGen.mono (fun _ _ => h.up_newTx (b := b)) _ _ hdesc, z, newTx_tx_old (b := b) h hz, e⟩
  case onStack =>
    intro c t y hc ht hy
    have := @h.onStack c t y (halive.mp hc)
    grind
  case waits =>
    intro c cth hc hw
    have := @h.waits c cth
    grind

theorem up_setTx {x' : Tx} {o : Option Thread} (hx : s.tx t = some x) (hp : x'.fromParent = x.fromParent) :
    Up (setThread a o (setTx t (some x') s)) = Up s := by
  funext c q
  grind

theorem Links.pushReceived (h : Links dead stk s) (th' : Thread) (hl : Loose dead stk s t)
    (hx : s.tx t = some x) (hd : dead ≠ some a) (hth : s.thread a = some th) (hf : x.fromThread ≠ some a)
    (ho : x.oneWay = false)
    (hcb : ∀ q, th.stack = some q → TransGen (Up s) t q ∧ ∃ y, s.tx q = some y ∧ y.fromThread = some a)
    (hs' : th'.stack = some t) (hw : th'.waiting ≠ some true) :
    Links dead (update stk a (t :: stk a)) (setThread a (some th')
      (setTx t (some { x with toParent := th.stack, toThread := some a }) s)) := by
  have hta := hl.not_mem h ⟨hd, th, hth⟩ hx hf
  generalize hx' : { x with toParent := th.stack, toThread := some a } = x'
  have hfield : x'.fromThread = x.fromThread ∧ x'.fromParent = x.fromParent ∧ x'.toParent = th.stack ∧
      x'.toThread = some a ∧ x'.oneWay = x.oneWay := by simp [← hx']
  have halive : ∀ {c}, Alive dead (setThread a (some th') (setTx t (some x') s)) c ↔ Alive dead s c :=
    alive_setThread (s := setTx t _ s) hth
  constructor
  case txLt =>
    intro u y hy
    have := @h.txLt u
    grind
  case chain =>
    intro c cth hdc hcth
    by_cases e : c = a
    · subst e
      obtain rfl : cth = th' := by grind
      rw [update_self]
      refine ⟨hs', th.stack, ⟨x', by grind, .inl ⟨hfield.2.2.2.1, hfield.2.2.1⟩⟩, ?_⟩
      refine (h.chain hd hth).mono fun u hu o hb => ?_
      grind
    rw [update_of_ne e]
    have hc : s.thread c = some cth := by grind
    -- on another stack it is there as sent
    refine (h.chain hdc hc).mono fun u hu o hb => ?_
    have := fun ht => hl.unread ⟨hdc, cth, hc⟩ ht hx
    clear hcb
    grind
  case sender =>
    intro u y c hy hfy
    have := @h.sender u x c
    have := @h.sender u y c
    grind
  case parent =>
    intro u y q hy hq
    have := @h.parent u x q
    have := @h.parent u y q
    have := hl.leaf u
    clear hcb
    grind
  case child => simpa only [up_setTx hx hfield.2.1] using h.child
  case callback =>
    intro c r y q hc hr hy hto hq
    rw [up_setTx hx hfield.2.1]
    obtain ⟨hdesc, z, hz, e⟩ : TransGen (Up s) r q ∧ ∃ z, s.tx q = some z ∧ z.fromThread = some c := by
      by_cases e : r = t
      · have := hcb q (by grind)
        grind
      · exact h.callback (halive.mp hc) (by grind) (by grind) hto hq
    exact ⟨hdesc, by clear hcb hdesc; grind⟩
  case onStack =>
    intro c u y hc hu hy
    have := @h.onStack c u y (halive.mp hc)
    grind
  case waits =>
    intro c cth hc hw
    have := @h.waits c cth
    grind

def SentFrom (s : State) (p : ProcId) (u : Nat) (f : ThreadId) : Prop :=
  ∃ x th, s.tx u = some x ∧ x.fromThread = some f ∧ s.thread f = some th ∧ th.proc = p

/-- On the chain of callers that starts at `t`, `u` is the outermost transaction from the process `p`, and
`f` sent it. -/
structure OutermostCaller (s : State) (p : ProcId) (t u : Nat) (f : ThreadId) : Prop where
  above : ReflTransGen (Up s) t u
  sent : SentFrom s p u f
  outermost : ∀ {v g}, TransGen (Up s) u v → ¬ SentFrom s p v g

theorem callerLoop_spec {p : ProcId} {fuel : Nat} {o : Option Nat} (found : Option ThreadId)
    (h : Links dead stk s) (ho : ∀ t, o = some t → t < fuel ∧ ∃ x, s.tx t = some x) :
    ∃ r, callerLoop p fuel o found s = .ok r ∧
      ((r = found ∧ ∀ t, o = some t → ∀ u f, ReflTransGen (Up s) t u → ¬ SentFrom s p u f) ∨
        ∃ t u f, o = some t ∧ r = some f ∧ OutermostCaller s p t u f) := by
  induction fuel generalizing o found with
  | zero =>
    cases o with
    | none => exact ⟨found, by unfold callerLoop; rfl, .inl ⟨rfl, by simp⟩⟩
    | some t => exact absurd (ho t rfl).1 (Nat.not_lt_zero t)
  | succ fuel ih =>
    cases o with
    | none => exact ⟨found, by unfold callerLoop; rfl, .inl ⟨rfl, by simp⟩⟩
    | some t =>
      obtain ⟨hlt, x, hx⟩ := ho t rfl
      have hnext : ∀ q, x.fromParent = some q → q < fuel ∧ ∃ y, s.tx q = some y := fun q hq => by
        obtain ⟨hq', y, hy, _⟩ := h.parent hx hq
        exact ⟨by omega, y, hy⟩
      -- a transaction above `t` is `t` itself or above its `from_parent`
      have habove : ∀ {u}, ReflTransGen (Up s) t u → u = t ∨
          ∃ q, x.fromParent = some q ∧ ReflTransGen (Up s) q u := fun {u} hu => by
        rcases ReflTransGen.cases_head hu with e | ⟨q, ⟨y, hy, hq⟩, hu⟩
        · exact .inl e.symm
        · rw [hx] at hy
          cases hy
          exact .inr ⟨q, hq, hu⟩
      have hstep : ∀ q, x.fromParent = some q → Up s t q := fun q hq => ⟨x, hx, hq⟩
      have hturn : ∃ found', callerLoop p (fuel + 1) (some t) found s = callerLoop p fuel x.fromParent found' s ∧
          ((found' = found ∧ ∀ f, ¬ SentFrom s p t f) ∨ ∃ f, found' = some f ∧ SentFrom s p t f) := by
        cases hf : x.fromThread with
        | none =>
          refine ⟨found, by simp only [callerLoop, getTx_eq.mpr hx, ok_bind, hf], .inl ⟨rfl, ?_⟩⟩
          grind [SentFrom]
        | some f =>
          obtain ⟨⟨_, th, hth⟩, _⟩ := h.sender hx hf
          refine ⟨if th.proc = p then some f else found, ?_, by grind [SentFrom]⟩
          simp only [callerLoop, getTx_eq.mpr hx, getThread_eq.mpr hth, ok_bind, hf]
      obtain ⟨found', hturn, hself⟩ := hturn
      obtain ⟨r, hr, hcase⟩ := ih (o := x.fromParent) found' hnext
      refine ⟨r, hturn.trans hr, ?_⟩
      rcases hcase with ⟨rfl, hnone⟩ | ⟨q, u, g, hq, rfl, hout⟩
      · rcases hself with ⟨rfl, hself⟩ | ⟨f, rfl, hself⟩
        · refine .inl ⟨rfl, fun t' ht' u g hu => ?_⟩
          cases ht'
          rcases habove hu with rfl | ⟨q, hq, hu⟩
          · exact hself g
          · exact hnone q hq u g hu
        · refine .inr ⟨t, t, f, rfl, rfl, .refl, hself, fun {v g} hv => ?_⟩
          obtain ⟨q, ⟨y, hy, hq⟩, hqv⟩ := TransGen.head'_iff.mp hv
          cases hx.symm.trans hy
          exact hnone q hq v g hqv
      · exact .inr ⟨t, u, g, rfl, rfl, hout.above.head (hstep q hq), hout.sent, hout.outermost⟩

theorem Links.caller_top (h : Links dead stk s) (hr : Leaf (Up s) r) (hx : s.tx r = some x)
    (hto : x.toThread = some a) (hfa : f ≠ a) {y : Tx} (hy : s.tx u = some y) (hf : y.fromThread = some f)
    (hu : ReflTransGen (Up s) r u) :
    ∃ q l z, stk f = q :: l ∧ s.tx q = some z ∧ z.fromThread = some f ∧ ReflTransGen (Up s) r q := by
  -- towards the top of the stack the numbers grow
  induction hn : s.next - u using Nat.strongRecOn generalizing u y with
  | _ n ih =>
    obtain ⟨hfal, hmem, hne⟩ := h.sender hy hf
    obtain ⟨hd, fth, hfth⟩ := hfal
    have hc := h.chain hd hfth
    obtain ⟨pre, post, e⟩ := List.append_of_mem hmem
    rcases List.eq_nil_or_concat pre with rfl | ⟨pre, v, rfl⟩
    · exact ⟨u, post, y, e, hy, hf, hu⟩
    rw [e, List.concat_append] at hc
    obtain ⟨z, hz, ⟨hzto, hzp⟩ | ⟨_, hzf, hzp⟩⟩ := hc.link_of_adjacent
    · -- `f` works on `v` on behalf of `u`
      have hv : v ∈ stk f := by rw [e]; simp
      obtain ⟨hvu, _⟩ := h.callback ⟨hd, fth, hfth⟩ hv hz hzto hzp
      have hrv := hr.above_of_descends h.child hu hvu.to_reflTransGen
      rcases ReflTransGen.cases_tail hrv with rfl | ⟨c, hrc, hcv⟩
      · rw [hx] at hz
        cases hz
        exact absurd (Option.some.inj (hto.symm.trans hzto)) (Ne.symm hfa)
      obtain ⟨w, hw, hwp⟩ := hcv
      obtain ⟨hlt, z', hz', ez⟩ := h.parent hw hwp
      rw [hz] at hz'
      cases hz'
      have := h.transGen_lt hvu
      have := h.txLt hw
      exact ih (s.next - c) (by omega) hw (ez.symm.trans hzto) hrc rfl
    · obtain ⟨_, y', hy', ey⟩ := h.parent hz hzp
      rw [hy] at hy'
      cases hy'
      exact absurd (ey.trans hzf) hne

end G3Mod.Binder.Transaction
