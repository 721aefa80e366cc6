import G3Mod.Idr.Lemmas.Layers

/-!
# The search for a free id
-/

namespace G3Mod.Idr

open Function Lib

variable {s s' : State} {c c' : Search} {r : Found × State} {i j id l m q d a x : Nat} {n : Layer}

/-! ## Blocks of ids -/

theorem size_pow_le (h : Wf s) : idrSize ^ s.layers ≤ 2 ^ 30 := by
  calc idrSize ^ s.layers ≤ idrSize ^ 6 := Nat.pow_le_pow_right (by decide) h.layersLe
    _ = 2 ^ 30 := by decide

theorem place_congr (h : place i l = place j l) (hd : l ≤ d) : place i d = place j d := by
  obtain ⟨e, rfl⟩ : ∃ e, d = l + e := ⟨d - l, by omega⟩
  rw [place_add, place_add, h]

theorem lt_of_place (h : place i l = place j l) (hj : j < idrSize ^ d) (hd : l ≤ d) : i < idrSize ^ d := by
  have h1 : place i d = 0 := (place_congr h hd).trans (Nat.div_eq_of_lt hj)
  have := (place_eq_iff.mp h1).2
  omega

theorem split_digit : place i l = idrSize * place i (l + 1) + digit i l := by rw [digit_eq, split_place]

def blockEnd (i l : Nat) : Nat := (place i l + 1) * idrSize ^ l

theorem lt_blockEnd : i < blockEnd i l := (place_eq_iff.mp rfl).2

theorem blockEnd_le (hd : l ≤ d) : blockEnd i l ≤ blockEnd i d := by
  obtain ⟨e, rfl⟩ : ∃ e, d = l + e := ⟨d - l, by omega⟩
  have := Nat.lt_mul_div_succ (place i l) (size_pos (l := e))
  rw [blockEnd, blockEnd, place_add, Nat.pow_add, Nat.mul_comm (idrSize ^ l), ← Nat.mul_assoc, Nat.mul_comm _ (idrSize ^ e)]
  exact Nat.mul_le_mul_right _ this

def slotStart (i l m : Nat) : Nat := (idrSize * place i (l + 1) + m) * idrSize ^ l

theorem slotStart_size : slotStart i l idrSize = blockEnd i (l + 1) := by
  rw [slotStart, blockEnd, Nat.pow_succ]
  ring

/-! ## Where the loop is -/

structure Grown (s s' : State) : Prop where
  wf : Wf s'
  value : ∀ i, value s' i = value s i
  layers : s'.layers = s.layers

theorem Grown.refl (h : Wf s) : Grown s s := ⟨h, fun _ => rfl, rfl⟩

theorem Grown.trans {s'' : State} (h : Grown s s') (h' : Grown s' s'') : Grown s s'' :=
  ⟨h'.wf, fun i => (h'.value i).trans (h.value i), h'.layers.trans h.layers⟩

theorem Grown.bit (h : Grown s s') (hn : s'.layer (l, q) = some n) (hm : m < idrSize) :
    n.bitmap m = true ↔ Packed s l (idrSize * q + m) := by rw [h.wf.bit hn hm, Packed.same h.value]

/-- The search is at level `l` on the way to `c.id`; what it has passed is allocated. -/
structure Going (s : State) (id : Nat) (c : Search) (l : Nat) : Prop where
  grown : Grown s c.idr
  level : c.l = l
  name : c.p = (l, place c.id (l + 1))
  lt : l < s.layers
  idLt : c.id < idrSize ^ s.layers
  here : ∃ n, c.idr.layer (l, place c.id (l + 1)) = some n
  above : ∀ j, l < j → j < s.layers → c.pa j = some (j, place c.id (j + 1)) ∧ ¬ Packed s j (place c.id j)
  end_ : c.pa s.layers = none
  le : id ≤ c.id
  all : ∀ j, id ≤ j → j < c.id → Alloc s j

/-- The search from `id` has found the first free id `i`, with the layers on the way to it on record. -/
structure Success (s : State) (id i : Nat) (pa : Nat → Option Name) (s' : State) : Prop where
  grown : Grown s s'
  le : id ≤ i
  lt : i < idrSize ^ s.layers
  free : ¬ Alloc s i
  least : ∀ j, id ≤ j → j < i → Alloc s j
  path : ∀ j, j < s.layers → pa j = some (j, place i (j + 1))
  end_ : pa s.layers = none
  leaf : ∃ n, s'.layer (0, place i 1) = some n

inductive Answer (s : State) (id : Nat) : Found × State → Prop
  | found {i : Nat} {pa : Nat → Option Name} {s' : State} : Success s id i pa s' → Answer s id (.id i pa, s')
  | noMemory {s' : State} : Grown s s' → Answer s id (.noMemory, s')
  | needToGrow {s' : State} : Grown s s' → (∀ j, id ≤ j → j < idrSize ^ s.layers → Alloc s j) →
      Answer s id (.needToGrow (idrSize ^ s.layers), s')

theorem Going.alloc_to (h : Going s id c l) (hn : c.idr.layer (l, place c.id (l + 1)) = some n) (hm : m ≤ idrSize)
    (hb : ∀ j, digit c.id l ≤ j → j < m → n.bitmap j = true) (hj : id ≤ j) (hjm : j < slotStart c.id l m) : Alloc s j := by
  by_cases hlt : j < c.id
  · exact h.all j hj hlt
  have h1 : place c.id l ≤ place j l := Nat.div_le_div_right (Nat.le_of_not_lt hlt)
  have h2 : place j l < idrSize * place c.id (l + 1) + m := by
    by_contra hge
    have : slotStart c.id l m ≤ j := by
      calc slotStart c.id l m ≤ place j l * idrSize ^ l := Nat.mul_le_mul_right _ (Nat.le_of_not_lt hge)
        _ ≤ j := Nat.div_mul_le_self _ _
    omega
  have h3 := split_digit (i := c.id) (l := l)
  obtain ⟨e, he⟩ : ∃ e, place j l = idrSize * place c.id (l + 1) + e :=
    ⟨place j l - idrSize * place c.id (l + 1), by omega⟩
  exact (h.grown.bit hn (m := e) (by omega)).mp (hb e (by omega) (by omega)) j he

theorem makeChild_cases (h : Wf s) (hn : s.layer (l + 1, q) = some n) (hm : m < idrSize) :
    (makeChild (l + 1, q) n m (l + 1) s = none) ∨
      ∃ s', makeChild (l + 1, q) n m (l + 1) s = some s' ∧ Grown s s' ∧
        ∃ n', s'.layer (l, idrSize * q + m) = some n' := by
  have hchild : child (l + 1, q) m = (l, idrSize * q + m) := rfl
  unfold makeChild
  rw [hchild]
  cases hc : s.layer (l, idrSize * q + m) with
  | some n' => exact .inr ⟨s, rfl, .refl h, n', hc⟩
  | none =>
    by_cases hf : s.idFreeCnt = 0
    · exact .inl (by simp [getFromFreeList, hf])
    · refine .inr ⟨withChild s l q m n (s.idFreeCnt - 1), by simp [getFromFreeList, hf, withChild],
        ⟨h.withChild hn hm hc, fun i => withChild_value hc, rfl⟩, newLayer l, ?_⟩
      rw [withChild_layer, if_pos rfl]

theorem Going.downId (h : Going s id c l) (hn : c.idr.layer (l, place c.id (l + 1)) = some n) (hm : m < idrSize)
    (hle : digit c.id l ≤ m) (hlow : ∀ j, digit c.id l ≤ j → j < m → n.bitmap j = true)
    (hi : (if m = digit c.id c.l then c.id else replaceDigit c.id c.l (digit c.id c.l) m) = i) :
    place i l = idrSize * place c.id (l + 1) + m ∧ c.id ≤ i ∧ (∀ j, id ≤ j → j < i → Alloc s j) ∧
      (i = c.id ∨ idrSize ^ l ∣ i) := by
  have hsplit := split_digit (i := c.id) (l := l)
  rw [h.level] at hi
  split at hi
  next e =>
    subst hi
    exact ⟨by omega, Nat.le_refl _, h.all, .inl rfl⟩
  have hplace : place (slotStart c.id l m) l = idrSize * place c.id (l + 1) + m := place_mul
  have hlt : slotStart c.id l m < idrSize ^ s.layers :=
    lt_of_place (by rw [place_succ, hplace, mul_add_div hm]) h.idLt h.lt
  have hmax := h.grown.layers ▸ size_pow_le h.grown.wf
  obtain rfl : slotStart c.id l m = i := (replaceDigit_eq hm (by rw [← slotStart]; omega)).symm.trans hi
  refine ⟨hplace, ?_, fun j => h.alloc_to hn (Nat.le_of_lt hm) hlow, .inr ⟨_, Nat.mul_comm _ _⟩⟩
  calc c.id ≤ blockEnd c.id l := Nat.le_of_lt lt_blockEnd
    _ ≤ slotStart c.id l m := Nat.mul_le_mul_right _ (by omega)

theorem Going.goDown (h : Going s id c l) (hn : c.idr.layer (l, place c.id (l + 1)) = some n) (hm : m < idrSize)
    (hb : n.bitmap m = false) (hle : digit c.id l ≤ m) (hlow : ∀ j, digit c.id l ≤ j → j < m → n.bitmap j = true) :
    (∃ r, goDown c n m = .ok (.inr r) ∧ Answer s id r) ∨
      ∃ l' c', l = l' + 1 ∧ goDown c n m = .ok (.inl c') ∧ Going s id c' l' ∧ (c'.id = c.id ∨ idrSize ^ l ∣ c'.id) := by
  unfold Idr.goDown
  generalize hi : (if m = digit c.id c.l then c.id else replaceDigit c.id c.l (digit c.id c.l) m) = i
  obtain ⟨hp, hge, hall, hdvd⟩ := h.downId hn hm hle hlow hi
  have hsucc : place i (l + 1) = place c.id (l + 1) := by rw [place_succ, hp, mul_add_div hm]
  have hlt : i < idrSize ^ s.layers := lt_of_place hsucc h.idLt h.lt
  have hnp : ¬ Packed s l (place i l) := by
    rw [hp, ← h.grown.bit hn hm, hb]
    exact Bool.false_ne_true
  have habove := fun j => h.above j
  have hcongr := fun j => place_congr (d := j) hsucc
  have hmax : ¬ maxIdBit ≤ i := by
    have : maxIdBit = 2 ^ 31 := rfl
    have := h.grown.layers ▸ size_pow_le h.grown.wf
    omega
  have hend := h.end_
  have hl := h.lt
  have hname := h.name
  simp only [if_neg hmax]
  cases l with
  | zero =>
    refine .inl ⟨_, if_pos h.level, .found ⟨h.grown, Nat.le_trans h.le hge, hlt, ?_, hall, ?_, ?_, n, hsucc ▸ hn⟩⟩
    · rwa [packed_zero, place_zero] at hnp
    · grind [update_apply]
    · grind [update_apply]
  | succ l =>
    rw [if_neg (by rw [h.level]; omega), h.level, h.name]
    rcases makeChild_cases h.grown.wf hn hm with hx | ⟨s', hx, hg, n', hn'⟩
    · exact .inl ⟨_, by rw [hx], .noMemory h.grown⟩
    refine .inr ⟨l, _, rfl, by rw [hx], ?_, hdvd⟩
    exact
      { grown := h.grown.trans hg
        level := rfl
        name := by rw [hp]; rfl
        lt := by omega
        idLt := hlt
        here := ⟨n', by rw [hp]; exact hn'⟩
        above := by grind [update_apply]
        end_ := by grind [update_apply]
        le := Nat.le_trans h.le hge
        all := hall }

/-- The end of the tree is not reached in the middle of the last slot of the top layer. -/
def Roomy (s : State) (id : Nat) : Prop :=
  (∃ i, id ≤ i ∧ i < idrSize ^ s.layers ∧ ¬ Alloc s i) ∨ s.layers = 1 ∨ Packed s (s.layers - 1) (idrSize - 1)

theorem restart_going (pa : Nat → Option Name) (hg : Grown s s') (hl : 0 < s.layers) (hi : i < idrSize ^ s.layers)
    (hle : id ≤ i) (hall : ∀ j, id ≤ j → j < i → Alloc s j) :
    ∃ c, restart s' i pa = .ok c ∧ Going s id c (s.layers - 1) ∧ c.id = i := by
  have hl' : 0 < s'.layers := hg.layers ▸ hl
  have hplace : place i (s.layers - 1 + 1) = 0 := by rw [Nat.sub_add_cancel hl]; exact place_top hi
  refine ⟨_, by simp only [restart, hg.wf.top_eq hl']; rfl, ?_, rfl⟩
  exact
    { grown := hg
      level := congrArg (· - 1) hg.layers
      name := by rw [hplace, hg.layers]
      lt := Nat.sub_lt hl Nat.one_pos
      idLt := hi
      here := by rw [hplace, ← hg.layers]; exact hg.wf.root hl'
      above := fun j _ _ => by omega
      end_ := by rw [← hg.layers]; exact update_self _ _ _
      le := hle
      all := hall }

theorem Going.goBack (h : Going s id c l) (hroom : Roomy s id)
    (hall : ∀ j, id ≤ j → j < blockEnd c.id (l + 1) → Alloc s j) :
    (∃ r, goBack c = .ok (.inr r) ∧ Answer s id r) ∨
      ∃ l' c', goBack c = .ok (.inl c') ∧ Going s id c' l' ∧ idrSize ^ (l + 1) ∣ c'.id ∧ ¬ idrSize ^ (l + 1) ∣ c.id := by
  have htop : blockEnd c.id s.layers = idrSize ^ s.layers := by
    rw [blockEnd, place_top h.idLt, Nat.zero_add, Nat.one_mul]
  have hend : blockEnd c.id (l + 1) ≤ idrSize ^ s.layers := htop ▸ blockEnd_le h.lt
  have hnext : nextAt c.id (l + 1) = blockEnd c.id (l + 1) := by
    have := h.grown.layers ▸ size_pow_le h.grown.wf
    exact nextAt_eq (by rw [← blockEnd]; omega)
  unfold Idr.goBack
  simp only [h.level, hnext, shiftRight_eq]
  by_cases hlast : l + 1 = s.layers
  · rw [hlast] at hall ⊢
    rw [htop] at hall
    simp only [h.end_, htop]
    exact .inl ⟨_, rfl, .needToGrow h.grown hall⟩
  have hlt : l + 1 < s.layers := Nat.lt_of_le_of_ne h.lt hlast
  obtain ⟨hpa, hnp⟩ := h.above (l + 1) (Nat.lt_succ_self l) hlt
  have hle : id ≤ blockEnd c.id (l + 1) := Nat.le_trans h.le (Nat.le_of_lt lt_blockEnd)
  -- a block that is searched from its start on is not packed
  have hnot : ¬ idrSize ^ (l + 1) ∣ c.id := fun hdvd => hnp fun i hi => by
    have hi := place_eq_iff.mp hi
    rw [place, Nat.div_mul_cancel hdvd] at hi
    exact hall i (Nat.le_trans h.le hi.1) hi.2
  have hdvd : idrSize ^ (l + 1) ∣ blockEnd c.id (l + 1) := ⟨_, Nat.mul_comm _ _⟩
  simp only [hpa]
  split
  next hsame =>
    obtain ⟨n, hn⟩ := h.here
    obtain ⟨n', hn'⟩ := h.grown.wf.parent hn (h.grown.layers.symm ▸ hlt)
    rw [← place_succ, hsame] at hn'
    refine .inr ⟨l + 1, _, rfl, ?_, hdvd, hnot⟩
    exact
      { grown := h.grown
        level := rfl
        name := by rw [hsame]
        lt := hlt
        idLt := lt_of_place hsame.symm h.idLt hlt
        here := ⟨n', hn'⟩
        above := fun j hj hjl => by
          rw [← place_congr hsame (show l + 1 + 1 ≤ j + 1 by omega), ← place_congr hsame (show l + 1 + 1 ≤ j by omega)]
          exact h.above j (by omega) hjl
        end_ := h.end_
        le := hle
        all := hall }
  · have hin : blockEnd c.id (l + 1) < idrSize ^ s.layers := by
      refine Nat.lt_of_le_of_ne hend fun e => ?_
      rcases hroom with ⟨i, hi, hilt, hf⟩ | h1 | hp
      · exact hf (hall i hi (e ▸ hilt))
      · omega
      -- the search has gone down to the last slot of the top layer
      obtain ⟨d, hd⟩ : ∃ d, s.layers = d + 1 := ⟨s.layers - 1, by omega⟩
      have hle' : blockEnd c.id (l + 1) ≤ blockEnd c.id d := blockEnd_le (by omega)
      have hlt' := h.idLt
      rw [hd, Nat.pow_succ] at hlt'
      have hlt' : place c.id d < idrSize := Nat.div_lt_of_lt_mul hlt'
      rw [e, hd, Nat.pow_succ, Nat.mul_comm, blockEnd] at hle'
      have := Nat.le_of_mul_le_mul_right hle' size_pos
      rw [hd, Nat.add_sub_cancel, show idrSize - 1 = place c.id d by omega] at hp
      exact (h.above d (by omega) (by omega)).2 hp
    obtain ⟨c', hx, h', hid⟩ := restart_going c.pa h.grown (by omega) hin hle hall
    exact .inr ⟨_, c', by rw [hx]; rfl, h', hid ▸ hdvd, hnot⟩

/-- A bound for the turns that are left. -/
def Turns (s : State) (c : Search) (l x : Nat) : Prop :=
  (idrSize ^ (l + 1) ∣ c.id ∧ l < x) ∨ ∃ a, idrSize ^ a ∣ c.id ∧ 8 * (s.layers - a) + l + 8 ≤ x

theorem Going.step (h : Going s id c l) (hroom : Roomy s id) (ht : Turns s c l (x + 1)) :
    (∃ r, subAllocStep c = .ok (.inr r) ∧ Answer s id r) ∨
      ∃ l' c', subAllocStep c = .ok (.inl c') ∧ Going s id c' l' ∧ Turns s c' l' x := by
  obtain ⟨n, hn⟩ := h.here
  have hstep : subAllocStep c = if n.findNextZero (digit c.id l) = idrSize then Idr.goBack c
      else Idr.goDown c n (n.findNextZero (digit c.id l)) := by
    simp only [subAllocStep, h.name, h.level, getLayer_eq.mpr hn, ok_bind]
  rw [hstep]
  rcases findNextZero_spec (n := n) (digit_lt (i := c.id) (l := l)) with ⟨hm, hf⟩ | ⟨hm, hle, hb, hlow⟩
  · rw [if_pos hm]
    refine (h.goBack hroom fun j hj hjl => h.alloc_to hn (Nat.le_refl _) hf hj (slotStart_size ▸ hjl)).imp_right ?_
    rintro ⟨l', c', hx, h', hdvd, hnot⟩
    refine ⟨l', c', hx, h', .inr ⟨l + 1, hdvd, ?_⟩⟩
    rcases ht with ⟨hd, _⟩ | ⟨a, ha, hx⟩
    · exact absurd hd hnot
    have hal : a < l + 1 := by
      by_contra hge
      exact hnot (Nat.dvd_trans (pow_dvd_pow _ (Nat.le_of_not_lt hge)) ha)
    have := h'.lt
    have : s.layers ≤ 6 := h.grown.layers ▸ h.grown.wf.layersLe
    omega
  · rw [if_neg (by omega)]
    refine (h.goDown hn hm hb hle hlow).imp_right ?_
    rintro ⟨l', c', rfl, hx, h', hid | hdvd⟩
    · refine ⟨l', c', hx, h', ?_⟩
      rw [Turns, hid]
      refine ht.imp (fun ⟨hd, hlt⟩ => ⟨Nat.dvd_trans (pow_dvd_pow _ (Nat.le_succ _)) hd, by omega⟩) ?_
      exact fun ⟨a, ha, hlt⟩ => ⟨a, ha, by omega⟩
    · refine ⟨l', c', hx, h', .inl ⟨hdvd, ?_⟩⟩
      rcases ht with ⟨_, hlt⟩ | ⟨a, _, hlt⟩ <;> omega

theorem Going.run (h : Going s id c l) (hroom : Roomy s id) (ht : Turns s c l x) :
    ∃ r, subAllocLoop x c = .ok r ∧ Answer s id r := by
  induction x generalizing c l with
  | zero => rcases ht with ⟨_, hlt⟩ | ⟨a, _, hlt⟩ <;> omega
  | succ x ih =>
    rw [subAllocLoop]
    rcases h.step hroom ht with ⟨r, hx, ha⟩ | ⟨l', c', hx, h', ht'⟩
    · exact ⟨r, by rw [hx]; rfl, ha⟩
    · obtain ⟨r, hr, ha⟩ := ih h' ht'
      exact ⟨r, by rw [hx]; exact hr, ha⟩

theorem subAlloc_answer (h : Wf s) (hl : 0 < s.layers) (hi : i < idrSize ^ s.layers) (hroom : Roomy s i) :
    ∃ r, subAlloc i s = .ok r ∧ Answer s i r := by
  obtain ⟨c, hc, hgo, _⟩ := restart_going (fun _ => none) (.refl h) hl hi (Nat.le_refl i) fun j _ _ => by omega
  rw [subAlloc, hc, ok_bind]
  refine hgo.run hroom (.inr ⟨0, by simp, ?_⟩)
  have : s.layers ≤ 6 := h.layersLe
  have : subAllocFuel = 512 := rfl
  omega

end G3Mod.Idr
