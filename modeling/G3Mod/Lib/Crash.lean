import Mathlib.Data.List.Basic

/-!
# Programs that can be cut off between two operations

A program is a tree: it returns a value, or it issues an operation and goes on with the answer.
-/

namespace Lib

structure Interface where
  Op : Type
  Ans : Op → Type

inductive Prog (F : Interface) (α : Type) : Type
  | ret (a : α) : Prog F α
  | call (op : F.Op) (k : F.Ans op → Prog F α) : Prog F α

/-- `exec s op a` is the state after `op` has been answered by `a` in `s`; `none` where this answer is
not possible. -/
structure World (F : Interface) (S : Type) where
  exec : S → (op : F.Op) → F.Ans op → Option S

variable {F : Interface} {S α β : Type}

namespace Prog

def bind : Prog F α → (α → Prog F β) → Prog F β
  | .ret a, f => f a
  | .call op k, f => .call op fun a => (k a).bind f

instance : Monad (Prog F) where
  pure := .ret
  bind := Prog.bind

def issue (op : F.Op) : Prog F (F.Ans op) :=
  .call op .ret

@[simp] theorem pure_eq (a : α) : (pure a : Prog F α) = .ret a := rfl

@[simp] theorem ret_bind (a : α) (f : α → Prog F β) : (Prog.ret a >>= f) = f a := rfl

@[simp] theorem call_bind (op : F.Op) (k : F.Ans op → Prog F α) (f : α → Prog F β) :
    (Prog.call op k >>= f) = .call op fun a => k a >>= f := rfl

@[simp] theorem issue_bind (op : F.Op) (f : F.Ans op → Prog F β) : (issue op >>= f) = .call op f := rfl

theorem bind_assoc {γ : Type} (p : Prog F α) (f : α → Prog F β) (g : β → Prog F γ) :
    ((p >>= f) >>= g) = (p >>= fun a => f a >>= g) := by
  induction p with
  | ret a => rfl
  | call op k ih =>
    simp only [call_bind, call.injEq, heq_eq_eq, true_and]
    funext a
    exact ih a

end Prog

/-! ## Runs -/

/-- `Steps w p s q t`: some of the operations of `p`, issued from `s`, leave the program `q` to run in
the state `t`. -/
inductive Steps (w : World F S) : Prog F α → S → Prog F α → S → Prop
  | refl {p : Prog F α} {s : S} : Steps w p s p s
  | step {op : F.Op} {k : F.Ans op → Prog F α} {a : F.Ans op} {q : Prog F α} {s t u : S} :
      w.exec s op a = some t → Steps w (k a) t q u → Steps w (.call op k) s q u

/-- The states reached by starting `p` again and again, each time after it was cut off or had ended. -/
inductive Restarts (w : World F S) (p : Prog F α) : S → S → Prop
  | refl {s : S} : Restarts w p s s
  | again {s t u : S} {q : Prog F α} : Restarts w p s t → Steps w p t q u → Restarts w p s u

variable {w : World F S}

variable {f : α → Prog F β} {a : α}

theorem Steps.bind {p : Prog F α} {q : Prog F β} {s t u : S}
    (h : Steps w p s (.ret a) t) (h' : Steps w (f a) t q u) : Steps w (p >>= f) s q u := by
  generalize hr : Prog.ret a = r at h
  induction h with
  | refl => subst hr; exact h'
  | step hx _ ih => exact .step hx (ih h' hr)

theorem Steps.bind_left {p q : Prog F α} {s t : S} (h : Steps w p s q t) (f : α → Prog F β) :
    Steps w (p >>= f) s (q >>= f) t := by
  induction h with
  | refl => exact .refl
  | step hx _ ih => exact .step hx ih

def Can (w : World F S) (P : S → Prop) (p : Prog F α) (s : S) : Prop :=
  ∃ q t, Steps w p s q t ∧ P t

variable {P : S → Prop}

theorem Can.now {p : Prog F α} {s : S} (h : P s) : Can w P p s :=
  ⟨p, s, .refl, h⟩

theorem Can.step {P : S → Prop} {op : F.Op} {k : F.Ans op → Prog F α} {s t : S} (a : F.Ans op)
    (h : w.exec s op a = some t) (hc : Can w P (k a) t) : Can w P (.call op k) s := by
  obtain ⟨q, u, hs, hp⟩ := hc
  exact ⟨q, u, .step h hs, hp⟩

theorem Can.left {p : Prog F α} {s : S} (h : Can w P p s) (f : α → Prog F β) :
    Can w P (p >>= f) s := by
  obtain ⟨q, t, hs, hp⟩ := h
  exact ⟨_, t, hs.bind_left f, hp⟩

theorem Can.after {p : Prog F α} {s t : S}
    (h : Steps w p s (.ret a) t) (hc : Can w P (f a) t) : Can w P (p >>= f) s := by
  obtain ⟨q, u, hs, hp⟩ := hc
  exact ⟨q, u, h.bind hs, hp⟩

theorem Steps.exists_ret (hw : ∀ s op, ∃ a t, w.exec s op a = some t) (p : Prog F α) (s : S) :
    ∃ a t, Steps w p s (.ret a) t := by
  induction p generalizing s with
  | ret a => exact ⟨a, s, .refl⟩
  | call op k ih =>
    obtain ⟨a, t, hx⟩ := hw s op
    obtain ⟨b, u, hs⟩ := ih a t
    exact ⟨b, u, .step hx hs⟩

/-- At most `n` operations, each answered as `policy` says. -/
def World.follow (w : World F S) (policy : S → (op : F.Op) → F.Ans op) :
    Nat → Prog F α → S → Option (Prog F α × S)
  | 0, p, s => some (p, s)
  | _ + 1, .ret a, s => some (.ret a, s)
  | n + 1, .call op k, s =>
    match w.exec s op (policy s op) with
    | none => none
    | some t => w.follow policy n (k (policy s op)) t

theorem Steps.of_follow (n : Nat) (policy : S → (op : F.Op) → F.Ans op) {p q : Prog F α} {s t : S}
    (h : w.follow policy n p s = some (q, t)) : Steps w p s q t := by
  induction n generalizing p s with
  | zero =>
    cases h
    exact .refl
  | succ n ih =>
    cases p with
    | ret a =>
      cases h
      exact .refl
    | call op k =>
      rw [World.follow] at h
      split at h
      · cases h
      · exact .step ‹_› (ih h)

/-! ## Conditions on every state of a run -/

/-- From `s` on, `I` holds in every state that a run of `p` reaches, and `Q` of what it returns. -/
def Safe (w : World F S) (I : S → Prop) (Q : α → S → Prop) : Prog F α → S → Prop
  | .ret a, s => I s ∧ Q a s
  | .call op k, s => I s ∧ ∀ a t, w.exec s op a = some t → Safe w I Q (k a) t

namespace Safe

variable {I J : S → Prop} {Q R : α → S → Prop} {p : Prog F α} {s t : S}

theorem inv (h : Safe w I Q p s) : I s := by
  cases p with
  | ret a => exact h.1
  | call op k => exact h.1

theorem ret {a : α} (hi : I s) (hq : Q a s) : Safe w I Q (.ret a) s :=
  ⟨hi, hq⟩

theorem call {op : F.Op} {k : F.Ans op → Prog F α} (hi : I s)
    (h : ∀ a t, w.exec s op a = some t → Safe w I Q (k a) t) : Safe w I Q (.call op k) s :=
  ⟨hi, h⟩

theorem steps {q : Prog F α} (h : Safe w I Q p s) (hs : Steps w p s q t) : Safe w I Q q t := by
  induction hs with
  | refl => exact h
  | step hx _ ih => exact ih (h.2 _ _ hx)

theorem returns (h : Safe w I Q p s) (hs : Steps w p s (.ret a) t) : Q a t :=
  (h.steps hs).2

theorem mono (h : Safe w I Q p s) (hi : ∀ t, I t → J t) (hq : ∀ a t, I t → Q a t → R a t) :
    Safe w J R p s := by
  induction p generalizing s with
  | ret a => exact ⟨hi _ h.1, hq _ _ h.1 h.2⟩
  | call op k ih => exact ⟨hi _ h.1, fun a t hx => ih a (h.2 a t hx)⟩

theorem bind {Q : β → S → Prop} (h : Safe w I (fun a t => Safe w I Q (f a) t) p s) :
    Safe w I Q (p >>= f) s := by
  induction p generalizing s with
  | ret a => exact h.2
  | call op k ih => exact ⟨h.1, fun a t hx => ih a (h.2 a t hx)⟩

theorem seq {Q' : β → S → Prop} (h : Safe w I Q p s)
    (hf : ∀ a t, I t → Q a t → Safe w I Q' (f a) t) : Safe w I Q' (p >>= f) s :=
  bind (h.mono (fun _ hi => hi) hf)

end Safe

theorem Restarts.keeps {J : S → Prop} {Q : α → S → Prop} {p : Prog F α} {s t : S}
    (hJ : ∀ s, J s → Safe w J Q p s) (h : Restarts w p s t) (hs : J s) : J t := by
  induction h with
  | refl => exact hs
  | again _ hr ih => exact ((hJ _ ih).steps hr).inv

end Lib
