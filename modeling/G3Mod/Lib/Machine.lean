import Mathlib.Data.List.Basic

/-!
# Machines whose steps may run into an assertion

A machine is given by its initial states, the operations a caller may issue in a state and what an operation does: it
returns an output and the next state, or stops at an assertion.
-/

namespace Lib

variable {A B : Type}

@[simp] theorem ok_bind {E : Type} {a : A} {f : A → Except E B} : (Except.ok a >>= f) = f a := rfl

theorem bind_ok {E : Type} {x : Except E A} {f : A → Except E B} {b : B} (h : x >>= f = .ok b) :
    ∃ a, x = .ok a ∧ f a = .ok b := by
  cases x with
  | error e => cases h
  | ok a => exact ⟨a, rfl, h⟩

theorem bind_error {E : Type} {x : Except E A} {f : A → Except E B} {e : E} (h : x >>= f = .error e) :
    x = .error e ∨ ∃ a, x = .ok a ∧ f a = .error e := by
  cases x with
  | error e' => cases h; exact .inl rfl
  | ok a => exact .inr ⟨a, rfl, h⟩

/-- States `S`, operations `L`, outputs `O`, assertions `E`. -/
structure Machine (S L O E : Type) where
  init : S → Prop
  enabled : S → L → Prop
  exec : S → L → Except E (O × S)

namespace Machine

variable {S L O E : Type} {M : Machine S L O E}

/-- `M.Run s es t`: the operations of `es`, issued in order from `s`, return the outputs of `es` and
end in `t`. -/
inductive Run (M : Machine S L O E) : S → List (L × O) → S → Prop
  | nil {s : S} : Run M s [] s
  | snoc {s t u : S} {es : List (L × O)} {l : L} {o : O} :
      Run M s es t → M.enabled t l → M.exec t l = .ok (o, u) → Run M s (es ++ [(l, o)]) u

def Reachable (M : Machine S L O E) (t : S) : Prop :=
  ∃ s es, M.init s ∧ M.Run s es t

/-- `I` holds initially; in a state with `I` every permitted operation returns, and keeps `I`. -/
structure Inductive (M : Machine S L O E) (I : S → Prop) : Prop where
  init : ∀ {s}, M.init s → I s
  step : ∀ {s l}, I s → M.enabled s l → ∃ o t, M.exec s l = .ok (o, t) ∧ I t

variable {I : S → Prop} {s t : S} {es : List (L × O)}

theorem Inductive.run (hI : M.Inductive I)
    (h : M.Run s es t) (hs : I s) : I t := by
  induction h with
  | nil => exact hs
  | snoc _ he hx ih =>
    obtain ⟨o', t', hx', hi⟩ := hI.step ih he
    rw [hx] at hx'
    cases hx'
    exact hi

theorem Inductive.reachable (hI : M.Inductive I) (h : M.Reachable t) : I t := by
  obtain ⟨s, es, hs, hr⟩ := h
  exact hI.run hr (hI.init hs)

variable {l : L}

theorem Inductive.safe (hI : M.Inductive I) (h : M.Reachable t)
    (hl : M.enabled t l) : ∃ o u, M.exec t l = .ok (o, u) := by
  obtain ⟨o, u, hx, _⟩ := hI.step (hI.reachable h) hl
  exact ⟨o, u, hx⟩

theorem Reachable.init (h : M.init s) : M.Reachable s := ⟨s, [], h, .nil⟩

variable {o : O}

theorem Reachable.step (h : M.Reachable s) (hl : M.enabled s l)
    (hx : M.exec s l = .ok (o, t)) : M.Reachable t := by
  obtain ⟨s0, es, hs, hr⟩ := h
  exact ⟨s0, _, hs, hr.snoc hl hx⟩

theorem Run.summary {R : S → A → Prop} {f : A → L × O → A}
    (hstep : ∀ {s m l o t}, R s m → M.enabled s l → M.exec s l = .ok (o, t) → R t (f m (l, o))) (h : M.Run s es t) {m : A} (hs : R s m) : R t (es.foldl f m) := by
  induction h with
  | nil => exact hs
  | snoc _ he hx ih =>
    rw [List.foldl_append]
    exact hstep ih he hx

theorem Reachable.invariant (h : M.Reachable t) (hinit : ∀ {s}, M.init s → I s)
    (hstep : ∀ {s l o t}, I s → M.enabled s l → M.exec s l = .ok (o, t) → I t) : I t := by
  obtain ⟨s, es, hs, hr⟩ := h
  induction hr with
  | nil => exact hinit hs
  | snoc _ he hx ih => exact hstep ih he hx

theorem Run.mono {M' : Machine S L O E} (h : M.Run s es t) (hx : M'.exec = M.exec)
    (he : ∀ {s l}, M.enabled s l → M'.enabled s l) : M'.Run s es t := by
  induction h with
  | nil => exact .nil
  | snoc _ hl ho ih => exact ih.snoc (he hl) (hx ▸ ho)

theorem Run.cons {u : S} (he : M.enabled s l)
    (hx : M.exec s l = .ok (o, t)) (h : M.Run t es u) : M.Run s ((l, o) :: es) u := by
  induction h with
  | nil =>
    exact Run.nil.snoc he hx
  | snoc _ he' hx' ih => exact ih.snoc he' hx'

/-- The run of a list of operations, if each is permitted and none stops. -/
def execList (M : Machine S L O E) [∀ s l, Decidable (M.enabled s l)] :
    S → List L → Option (List (L × O) × S)
  | s, [] => some ([], s)
  | s, l :: ls =>
    if M.enabled s l then
      match M.exec s l with
      | .error _ => none
      | .ok (o, t) => (execList M t ls).map fun r => ((l, o) :: r.1, r.2)
    else none

theorem run_of_execList [∀ s l, Decidable (M.enabled s l)] (ls : List L)
    (h : M.execList s ls = some (es, t)) : M.Run s es t := by
  induction ls generalizing s es with
  | nil => cases h; exact .nil
  | cons l ls ih =>
    simp only [execList] at h
    split at h
    next he =>
      split at h
      · cases h
      rename_i o s1 hx
      obtain ⟨r, hr, e⟩ := Option.map_eq_some_iff.mp h
      cases e
      exact Run.cons he hx (ih hr)
    · cases h

theorem reachable_of_execList [∀ s l, Decidable (M.enabled s l)] (hs : M.init s) (ls : List L)
    (h : (M.execList s ls).map Prod.snd = some t) : M.Reachable t := by
  obtain ⟨⟨es, t⟩, he, rfl⟩ := Option.map_eq_some_iff.mp h
  exact ⟨s, es, hs, run_of_execList ls he⟩

end Machine

end Lib
