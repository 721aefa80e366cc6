import Mathlib.Data.List.Perm.Subperm
import G3Mod.Binder.Transaction.Lemmas.StackInv

/-!
# The exit of a thread
-/

namespace G3Mod.Binder.Transaction

open Function Lib Relation

variable {dead : Option ThreadId} {stk : ThreadId → List Nat} {s s' : State} {t u : Nat}
  {a : ThreadId} {x : Tx} {th : Thread} {q : Place}

/-! ## Detaching the thread from its transactions -/

@[grind =] def Tx.detach (a : ThreadId) (x : Tx) : Tx :=
  if x.toThread = some a then { x with toThread := none, buffer := false } else { x with fromThread := none }

theorem detach_received (hto : x.toThread = some a) :
    x.detach a = { x with toThread := none, buffer := false } := if_pos hto

theorem detach_sent (hto : x.toThread ≠ some a) : x.detach a = { x with fromThread := none } := if_neg hto

theorem detachLoop_ok {l : List Nat} {o : Option Nat} (fuel : Nat) (hc : Follows (Below s a) o l)
    (h : Attached s) (hfuel : l.length ≤ fuel) :
    ∃ s', detachLoop a fuel o s = .ok s' ∧ s'.thread = s.thread ∧ Attached s' ∧
      ∀ u, s'.tx u = if u ∈ l then (s.tx u).map (Tx.detach a) else s.tx u := by
  induction l generalizing o s fuel with
  | nil =>
    cases hc
    refine ⟨s, ?_, rfl, h, fun u => by simp⟩
    cases fuel <;> rfl
  | cons t l ih =>
    have hnd := hc.nodup (below_unique a)
    obtain ⟨rfl, o', ⟨x, hx, hb⟩, hc⟩ := hc
    cases fuel with
    | zero => simp at hfuel
    | succ fuel =>
      -- one turn replaces `t` and keeps the rest of the stack
      obtain ⟨s1, hth, htx, hatt, hturn⟩ : ∃ s1, s1.thread = s.thread ∧
          (∀ u, s1.tx u = if u = t then some (x.detach a) else s.tx u) ∧ Attached s1 ∧
          detachLoop a (fuel + 1) (some t) s = detachLoop a fuel o' s1 := by
        rcases hb with ⟨hto, rfl⟩ | ⟨hto, hf, rfl⟩
        · obtain ⟨s1, hs1, htx1, hth1, hatt1⟩ := clearBufferTransaction_ok h hx
          refine ⟨setTx t (some { x with toThread := none, buffer := false }) s1, hth1, fun u => ?_, hatt1 _ (by simp),
            by simp [detachLoop, getTx_eq.mpr hx, hto, hs1]⟩
          rw [setTx_tx, htx1, detach_received hto]
        refine ⟨setTx t (some { x with fromThread := none }) s, rfl, fun u => ?_, fun u => ?_,
          by simp [detachLoop, getTx_eq.mpr hx, hto, hf]⟩
        · rw [setTx_tx, detach_sent hto]
        · have := h u
          grind
      have hc1 : Follows (Below s1 a) o' l := hc.mono fun u hu o ⟨y, hy, ho⟩ => ⟨y, by grind, ho⟩
      obtain ⟨s', hs', hth', hatt', htx'⟩ := ih fuel hc1 hatt (Nat.le_of_succ_le_succ hfuel)
      exact ⟨s', hturn.trans hs', hth'.trans hth, hatt', fun u => by grind⟩

theorem alive_some (hth : s'.thread = s.thread) {c : ThreadId} :
    Alive (some a) s' c ↔ Alive none s c ∧ c ≠ a := by
  grind

section Detached

variable (h : Links none stk s) (ha : Alive none s a) (hth : s'.thread = s.thread)
  (htx : ∀ u, s'.tx u = if u ∈ stk a then (s.tx u).map (Tx.detach a) else s.tx u)

include htx

theorem detached_back {y' : Tx} (hy : s'.tx u = some y') :
    ∃ y, s.tx u = some y ∧ y' = if u ∈ stk a then y.detach a else y := by
  cases hu : s.tx u <;> grind

theorem detached_forth {y : Tx} (hy : s.tx u = some y) :
    s'.tx u = some (if u ∈ stk a then y.detach a else y) := by
  grind

theorem detached_up {c p : Nat} : Up s' c p ↔ Up s c p := by
  cases hu : s.tx c <;> grind

theorem detached_ends {y y' : Tx} {c : ThreadId} (hc : c ≠ a) (hy : s.tx u = some y)
    (hy' : s'.tx u = some y') :
    (y'.toThread = some c ↔ y.toThread = some c) ∧ (y'.fromThread = some c → y.fromThread = some c) := by
  grind

include h ha

theorem detached_from {y : Tx} {c : ThreadId} (hc : c ≠ a) (hy : s.tx u = some y)
    (hf : y.fromThread = some c) : ∃ y', s'.tx u = some y' ∧ y'.fromThread = some c := by
  refine ⟨_, detached_forth htx hy, ?_⟩
  obtain ⟨th, hth⟩ := ha.2
  have := fun hu => (h.chain ha.1 hth).exists_link (t := u) hu
  grind

theorem detached_ends_self {y' : Tx} (hy' : s'.tx u = some y') :
    y'.fromThread ≠ some a ∧ (u ∈ stk a → y'.toThread ≠ some a) := by
  obtain ⟨y, hy, rfl⟩ := detached_back htx hy'
  have := fun e => h.sender (a := a) hy e
  grind

include hth

theorem Links.detached (hn : s'.next = s.next) : Links (some a) stk s' where
  txLt hy' := by
    obtain ⟨y, hy, _⟩ := detached_back htx hy'
    exact hn ▸ h.txLt hy
  chain {c cth} hd hcth := by
    have hc : c ≠ a := fun e => hd (by rw [e])
    rw [hth] at hcth
    refine (h.chain (by simp) hcth).mono fun u hu o ⟨y, hy, hb⟩ => ?_
    have hy' := detached_forth htx hy
    have := detached_from h ha htx hc hy
    grind
  sender {u y' c} hy' hf := by
    have hc : c ≠ a := by
      rintro rfl
      exact (detached_ends_self h ha htx hy').1 hf
    obtain ⟨y, hy, _⟩ := detached_back htx hy'
    obtain ⟨e1, e2⟩ := detached_ends htx hc hy hy'
    obtain ⟨hal, hu, hto⟩ := h.sender hy (e2 hf)
    exact ⟨(alive_some hth).mpr ⟨hal, hc⟩, hu, fun e => hto (e1.mp e)⟩
  parent {u y' p} hy' hp := by
    obtain ⟨y, hy, e⟩ := detached_back htx hy'
    have hyp : y.fromParent = some p := by grind
    obtain ⟨hlt, z, hz, hzy⟩ := h.parent hy hyp
    refine ⟨hlt, _, detached_forth htx hz, ?_⟩
    obtain ⟨th, hath⟩ := ha.2
    -- the receiver of the parent is the sender: both ends are cut, or none
    by_cases hza : z.toThread = some a
    · obtain ⟨_, hua, hyto⟩ := h.sender hy (hzy.symm.trans hza)
      have hb := h.below_sent hy (hzy.symm.trans hza)
      rw [hyp] at hb
      obtain ⟨pre, post, e'⟩ := (h.chain ha.1 hath).adjacent (below_unique a) hua hb
      grind
    · have := fun hu => (h.chain ha.1 hath).exists_link (t := u) hu
      grind
  child c c' p hc hc' := h.child c c' p ((detached_up htx).mp hc) ((detached_up htx).mp hc')
  callback {c r y' q} hc hr hy' hto hq := by
    obtain ⟨hal, hne⟩ := (alive_some hth).mp hc
    obtain ⟨y, hy, e⟩ := detached_back htx hy'
    obtain ⟨hd, z, hz, hzf⟩ := h.callback hal hr hy ((detached_ends htx hne hy hy').1.mp hto) (q := q) (by grind)
    exact ⟨TransGen.mono (fun _ _ => (detached_up htx).mpr) _ _ hd, detached_from h ha htx hne hz hzf⟩
  onStack {c u y'} hc hu hy' := by
    obtain ⟨y, hy, e⟩ := detached_back htx hy'
    have ho := h.onStack ((alive_some hth).mp hc).1 hu hy
    grind
  waits hc := h.waits (hth ▸ hc)

end Detached

theorem StackInv.detached (h : StackInv none stk s) (ha : Alive none s a) (hs : Still s s')
    (hth : s'.thread = s.thread) (hatt : Attached s')
    (htx : ∀ u, s'.tx u = if u ∈ stk a then (s.tx u).map (Tx.detach a) else s.tx u) :
    StackInv (some a) stk s' := by
  have hqueue : ∀ {q}, queue s' q = queue s q := fun {q} => by rw [queue, queue, hs.todo]
  exact
    { toQueues := h.toQueues.quiet hs.quiet
      toLinks := h.toLinks.detached ha hth htx hs.next
      attached := hatt
      live := fun {q u} hu => by
        rw [hqueue] at hu
        obtain ⟨y, hy, hyb⟩ := h.live hu
        have := fun hua => (h.loose hu).unread ha hua hy
        exact ⟨_, detached_forth htx hy, by grind⟩
      loose := fun {q u} hu => by
        rw [hqueue] at hu
        refine ⟨fun c hc => (h.loose hu).leaf c ((detached_up htx).mp hc), fun {c y'} hc huc hy' => ?_⟩
        obtain ⟨hal, hne⟩ := (alive_some hth).mp hc
        obtain ⟨y, hy, _⟩ := detached_back htx hy'
        exact fun e => (h.loose hu).unread hal huc hy ((detached_ends htx hne hy hy').1.mp e)
      called := fun {c u y' b} hc hu hy' hb ho hn => by
        rw [hqueue] at hu
        obtain ⟨hal, hne⟩ := (alive_some hth).mp hc
        obtain ⟨y, hy, e⟩ := detached_back htx hy'
        obtain ⟨b0, hb0, hk⟩ := hs.quiet.buffer_back hb
        obtain ⟨v, l, z, hv, hz, hzf, hd⟩ := h.called hal hu hy hb0 (by grind) (by rw [(kind_eq hk).1]; exact hn)
        obtain ⟨z', hz', hzf'⟩ := detached_from h.toLinks ha htx hne hz hzf
        exact ⟨v, l, z', hv, hz', hzf', TransGen.mono (fun _ _ => (detached_up htx).mpr) _ _ hd⟩
      oneWay := fun {n u y'} hu hy' => by
        rw [hqueue] at hu
        obtain ⟨y, hy, e⟩ := detached_back htx hy'
        have ho := h.oneWay hu hy
        grind
      target := fun {u y' c b} hy' hf hb => by
        have hne : c ≠ a := by
          rintro rfl
          exact (detached_ends_self h.toLinks ha htx hy').1 hf
        obtain ⟨y, hy, _⟩ := detached_back htx hy'
        obtain ⟨b0, hb0, hk⟩ := hs.quiet.buffer_back hb
        rw [← (kind_eq hk).1]
        exact h.target hy ((detached_ends htx hne hy hy').2 hf) hb0 }

theorem releaseTransaction_inv (h : StackInv dead stk s) (hl : Loose dead stk s t) (hq : ∀ q, t ∉ queue s q)
    (hx : s.tx t = some x) (hxb : x.buffer = true) :
    ∃ s' stk', releaseTransaction t s = .ok s' ∧ StackInv dead stk' s' := by
  obtain ⟨b, hb, _⟩ := (h.attached t).mp ⟨x, hx, hxb⟩
  by_cases hsync : b.targetNode.isSome ∧ x.oneWay = false
  · obtain ⟨s', stk', hs', h'⟩ := binderSendFailedReply_inv (e := .deadReply) h hl hq hx hsync.2
    exact ⟨s', stk', by simp [releaseTransaction, getTx_eq.mpr hx, hxb, getBuffer_eq.mpr hb, hsync, hs'], h'⟩
  · exact ⟨s, stk, by simp [releaseTransaction, getTx_eq.mpr hx, hxb, getBuffer_eq.mpr hb, hsync], h⟩

theorem releaseWork_inv {l : List Work} (h : StackInv dead stk s) (hl : s.todo q = l) :
    ∃ s' stk', releaseWork q l s = .ok s' ∧ StackInv dead stk' s' := by
  induction l generalizing s stk with
  | nil => exact ⟨s, stk, rfl, h⟩
  | cons w rest ih =>
    have h1 := h.dropHead hl
    have htodo : (setTodo q rest s).todo q = rest := by rw [setTodo_todo, if_pos rfl]
    cases w with
    | transactionComplete => exact ih h1 htodo
    | transaction t =>
      have ht : t ∈ queue s q := by rw [mem_queue, hl]; simp
      obtain ⟨x, hx, hxb⟩ := h.live ht
      obtain ⟨s2, stk2, hs2, h2⟩ := releaseTransaction_inv h1
        ⟨(h.loose ht).leaf, (h.loose ht).unread⟩ (fun q' => h.head_gone hl) hx hxb
      obtain ⟨s', stk', hs', hpost⟩ := ih h2 (by rw [(releaseTransaction_steady hs2).todo, htodo])
      exact ⟨s', stk', by simp [releaseWork, hs2, hs'], hpost⟩

theorem StackInv.remove (h : StackInv (some a) stk s) : StackInv none stk (setThread a none s) := by
  have halive : ∀ {c}, Alive none (setThread a none s) c ↔ Alive (some a) s c := by grind
  have hback : ∀ {c cth}, (setThread a none s).thread c = some cth → c ≠ a ∧ s.thread c = some cth := by grind
  refine h.sameTx (h.toQueues.quiet Still.setThread.quiet) ?_ rfl rfl id halive.mp
  exact
    { txLt := h.toLinks.txLt
      chain := fun _ hc => h.chain (fun e => (hback hc).1 (Option.some.inj e).symm) (hback hc).2
      sender := fun hx hf => by
        obtain ⟨hc, hrest⟩ := h.sender hx hf
        exact ⟨halive.mpr hc, hrest⟩
      parent := h.parent
      child := h.child
      callback := fun hc => h.callback (halive.mp hc)
      onStack := fun hc => h.onStack (halive.mp hc)
      waits := fun hc => h.waits (hback hc).2 }

theorem Links.length_le (h : Links dead stk s) (ha : Alive dead s a) : (stk a).length ≤ s.next := by
  have hsub : stk a ⊆ List.range s.next := fun t ht => List.mem_range.mpr (h.lt_of_mem ha ht)
  have := ((h.nodup ha).subperm hsub).length_le
  rwa [List.length_range] at this

theorem currentTransaction_inv (h : StackInv none stk s) (hth : s.thread a = some th) :
    ∃ r, currentTransaction a s = .ok r ∧ ∀ t, r = some t → ∃ x, s.tx t = some x ∧ x.oneWay = false ∧
      x.toThread = some a ∧ t ∈ stk a ∧ Leaf (Up s) t ∧ ∀ q, t ∉ queue s q := by
  have ha : Alive none s a := ⟨by simp, th, hth⟩
  have hc := h.chain (by simp) hth
  cases hst : th.stack with
  | none => exact ⟨none, by simp [currentTransaction, getThread_eq.mpr hth, hst], by simp⟩
  | some t =>
    rw [hst] at hc
    cases hs : stk a with
    | nil => rw [hs] at hc; cases hc
    | cons t' l =>
      rw [hs] at hc
      obtain ⟨e, o, ⟨x, hx, _⟩, _⟩ := hc
      cases e
      have hmem : t ∈ stk a := by rw [hs]; simp
      refine ⟨if x.toThread = some a then some t else none,
        by simp [currentTransaction, getThread_eq.mpr hth, hst, getTx_eq.mpr hx], fun u hu => ?_⟩
      split at hu
      next hto =>
        cases hu
        refine ⟨x, hx, h.onStack ha hmem hx, hto, by simp, h.toLinks.leaf_of_top ha hs hx hto, fun q hq => ?_⟩
        exact (h.loose hq).unread ha hmem hx hto
      · cases hu

theorem replyDead_inv (h : StackInv dead stk s) {r : Option Nat}
    (hr : ∀ t, r = some t → Loose dead stk s t ∧ (∀ q, t ∉ queue s q) ∧ ∃ x, s.tx t = some x ∧ x.oneWay = false) :
    ∃ s' stk', replyDead r s = .ok s' ∧ StackInv dead stk' s' := by
  cases r with
  | none => exact ⟨s, stk, rfl, h⟩
  | some t =>
    obtain ⟨hl, hq, x, hx, ho⟩ := hr t rfl
    exact binderSendFailedReply_inv h hl hq hx ho

theorem threadExit_inv (h : StackInv none stk s) (hth : s.thread a = some th) :
    ∃ s' stk', threadExit a s = .ok ([], s') ∧ StackInv none stk' s' := by
  have ha : Alive none s a := ⟨by simp, th, hth⟩
  obtain ⟨r, hr, hcur⟩ := currentTransaction_inv h hth
  obtain ⟨s1, hs1, hth1, hatt1, htx1⟩ := detachLoop_ok (2 * s.next + 1) (h.chain (by simp) hth)
    h.attached (by have := h.toLinks.length_le ha; omega)
  have hstill := (detachLoop_steady hs1).toStill
  have h1 := h.detached ha hstill hth1 hatt1 htx1
  obtain ⟨s2, stk2, hs2, h2⟩ := replyDead_inv h1 (r := r) fun t ht => by
    obtain ⟨x, hx, ho, hto, hmem, hleaf, hq⟩ := hcur t ht
    have hx1 := detached_forth htx1 hx
    rw [if_pos hmem, detach_received hto] at hx1
    refine ⟨⟨fun c hc => hleaf c ((detached_up htx1).mp hc), fun _ _ hy => ?_⟩, fun q => ?_, _, hx1, ho⟩
    · rw [hx1] at hy
      cases hy
      simp
    · rw [queue, hstill.todo]
      exact hq q
  obtain ⟨s3, stk3, hs3, h3⟩ := releaseWork_inv h2 (q := .thread a) rfl
  refine ⟨_, stk3, ?_, h3.remove⟩
  simp [threadExit, getThread_eq.mpr hth, hr, hs1, hs2, hs3]

end G3Mod.Binder.Transaction
