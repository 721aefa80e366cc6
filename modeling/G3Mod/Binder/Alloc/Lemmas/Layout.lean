import G3Mod.Binder.Alloc.Lemmas.Pages
import G3Mod.Lib.ListSum

/-!
# The layout of the buffer area
-/

namespace G3Mod.Binder.Alloc

variable {l pre post post' : List Nat} {a b c n q x s e : Nat}

/-! ## Neighbours in the list -/

theorem next_append_of_notMem (h : c ∉ pre) : next c (pre ++ l) = next c l := by
  induction pre with
  | nil => rfl
  | cons y pre ih =>
    simp only [List.mem_cons, not_or] at h
    rw [List.cons_append, next, if_neg (Ne.symm h.1), ih h.2]

theorem next_append_of_mem (h : c ∈ pre) : next c (pre ++ b :: post) = next c (pre ++ b :: post') := by
  induction pre with
  | nil => cases h
  | cons y pre ih =>
    simp only [List.cons_append, next]
    split
    · cases pre <;> rfl
    · grind

theorem notMem_of_nodup (h : (pre ++ b :: post).Nodup) : b ∉ pre :=
  fun hm => (List.nodup_append.mp h).2.2 b hm b (by simp) rfl

theorem notMem_insert (h : (pre ++ b :: n :: post).Nodup) : n ∉ pre ++ b :: post := by
  intro hm
  have hnd := List.nodup_append.mp h
  rcases List.mem_append.mp hm with hm | hm
  · exact hnd.2.2 n hm n (by simp) rfl
  · simp_all

theorem next_self (h : b ∉ pre) : next b (pre ++ b :: post) = post.head? := by
  rw [next_append_of_notMem h, next, if_pos rfl]

theorem next_eq_some (h : next a l = some b) : ∃ pre post, l = pre ++ a :: b :: post := by
  induction l with
  | nil => cases h
  | cons y l ih =>
    unfold next at h
    split at h
    · rename_i hy
      obtain ⟨post, rfl⟩ := List.head?_eq_some_iff.mp h
      exact ⟨[], post, by rw [hy]; rfl⟩
    · grind

theorem prev_self (h : (pre ++ q :: b :: post).Nodup) : prev b (pre ++ q :: b :: post) = some q := by
  induction pre with
  | nil => simp [prev]
  | cons y pre ih =>
    cases pre with
    | nil =>
      have hqb : q ≠ b := by simp_all
      simp [prev, hqb]
    | cons z pre =>
      have hzb : z ≠ b := by simp_all
      simpa [prev, hzb] using ih (List.nodup_cons.mp h).2

theorem prev_eq_some (h : prev b l = some q) : ∃ pre post, l = pre ++ q :: b :: post := by
  induction l with
  | nil => cases h
  | cons y l ih =>
    cases l with
    | nil => cases h
    | cons z l =>
      unfold prev at h
      split at h
      · rename_i hz
        cases h
        exact ⟨[], l, by rw [hz]; rfl⟩
      · grind

theorem listAdd_self (h : b ∉ pre) : listAdd n b (pre ++ b :: post) = pre ++ b :: n :: post := by
  induction pre with
  | nil => simp [listAdd]
  | cons y pre ih =>
    simp only [List.mem_cons, not_or] at h
    rw [List.cons_append, listAdd, if_neg (Ne.symm h.1), ih h.2, List.cons_append]

theorem erase_after (h : (pre ++ q :: b :: post).Nodup) :
    (pre ++ q :: b :: post).erase b = pre ++ q :: post := by
  have happ : pre ++ q :: b :: post = (pre ++ [q]) ++ b :: post := by simp
  rw [happ] at h ⊢
  rw [List.erase_append_right _ (notMem_of_nodup h), List.erase_cons_head]
  simp

theorem next_insert (hb : c ≠ b) (hn : c ≠ n) :
    next c (pre ++ b :: n :: post) = next c (pre ++ b :: post) := by
  by_cases hc : c ∈ pre
  · exact next_append_of_mem hc
  · rw [next_append_of_notMem hc, next_append_of_notMem hc]
    simp only [next, if_neg (Ne.symm hb), if_neg (Ne.symm hn)]

theorem next_inserted (h : (pre ++ b :: n :: post).Nodup) :
    next n (pre ++ b :: n :: post) = post.head? := by
  have happ : pre ++ b :: n :: post = (pre ++ [b]) ++ n :: post := by simp
  rw [happ] at h ⊢
  exact next_self (notMem_of_nodup h)

theorem mem_insert : c ∈ pre ++ b :: n :: post ↔ c ∈ pre ++ b :: post ∨ c = n := by
  simp only [List.mem_append, List.mem_cons]
  tauto

/-! ## Spaced headers -/

/-- The headers start at `s`, do not overlap each other and end before `e`. -/
structure Spaced (s e : Nat) (l : List Nat) : Prop where
  first : l.head? = some s
  spaced : l.Pairwise fun a c => data a ≤ c
  inside : ∀ b ∈ l, data b ≤ e

def endOf (e : Nat) (l : List Nat) (b : Nat) : Nat := (next b l).getD e

theorem Spaced.nodup (h : Spaced s e l) : l.Nodup := by
  refine h.spaced.imp ?_
  intro a c hac
  rw [data_eq] at hac
  omega

theorem endOf_insert (hb : c ≠ b) (hn : c ≠ n) :
    endOf e (pre ++ b :: n :: post) c = endOf e (pre ++ b :: post) c := by
  unfold endOf
  rw [next_insert hb hn]

theorem endOf_self (h : b ∉ pre) : endOf e (pre ++ b :: post) b = post.head?.getD e := by
  unfold endOf
  rw [next_self h]

theorem endOf_inserted (h : (pre ++ b :: n :: post).Nodup) :
    endOf e (pre ++ b :: n :: post) b = n ∧
      endOf e (pre ++ b :: n :: post) n = endOf e (pre ++ b :: post) b := by
  refine ⟨by rw [endOf_self (notMem_of_nodup h)]; rfl, ?_⟩
  rw [endOf_self (notMem_of_nodup h)]
  unfold endOf
  rw [next_inserted h]

theorem Spaced.notMem_pre (h : Spaced s e (pre ++ b :: post)) : b ∉ pre := notMem_of_nodup h.nodup

theorem Spaced.endOf_le_of_mem (h : Spaced s e (pre ++ b :: post)) (hc : c ∈ post) :
    endOf e (pre ++ b :: post) b ≤ c := by
  rw [endOf_self h.notMem_pre]
  cases post with
  | nil => cases hc
  | cons d post =>
    rcases List.mem_cons.mp hc with rfl | hc
    · exact le_rfl
    have hp := (List.pairwise_append.mp h.spaced).2.1
    have hd := (List.pairwise_cons.mp (List.pairwise_cons.mp hp).2).1 c hc
    rw [data_eq] at hd
    simp only [List.head?_cons, Option.getD_some]
    omega

theorem Spaced.endOf_le (h : Spaced s e l) (hb : b ∈ l) (hc : c ∈ l) (hbc : b ≠ c) :
    endOf e l b ≤ c ∨ endOf e l c ≤ b := by
  obtain ⟨pre, post, rfl⟩ := List.append_of_mem hb
  rcases List.mem_append.mp hc with hc | hc
  · obtain ⟨pre1, pre2, rfl⟩ := List.append_of_mem hc
    right
    have happ : (pre1 ++ c :: pre2) ++ b :: post = pre1 ++ c :: (pre2 ++ b :: post) := by simp
    rw [happ] at h ⊢
    exact h.endOf_le_of_mem (by simp)
  · rcases List.mem_cons.mp hc with rfl | hc
    · exact absurd rfl hbc
    · exact .inl (h.endOf_le_of_mem hc)

theorem endOf_cases : endOf e l b = e ∨ endOf e l b ∈ l := by
  unfold endOf
  cases hn : next b l with
  | none => exact .inl rfl
  | some n =>
    obtain ⟨pre, post, rfl⟩ := next_eq_some hn
    exact .inr (by simp)

theorem Spaced.data_le_endOf (h : Spaced s e l) (hb : b ∈ l) : data b ≤ endOf e l b := by
  obtain ⟨pre, post, rfl⟩ := List.append_of_mem hb
  rw [endOf_self h.notMem_pre]
  cases post with
  | nil => exact h.inside b hb
  | cons d post => exact (List.pairwise_cons.mp (List.pairwise_append.mp h.spaced).2.1).1 d (by simp)

theorem Spaced.endOf_le_end (h : Spaced s e l) : endOf e l b ≤ e := by
  rcases endOf_cases (e := e) (l := l) (b := b) with he | hm
  · exact he.le
  · have := h.inside _ hm
    rw [data_eq] at this
    omega

theorem Spaced.start_le (h : Spaced s e l) (hb : b ∈ l) : s ≤ b := by
  cases l with
  | nil => cases hb
  | cons y l =>
    have hy : y = s := by simpa using h.first
    rcases List.mem_cons.mp hb with rfl | hb
    · exact hy.ge
    · have := (List.pairwise_cons.mp h.spaced).1 b hb
      rw [data_eq] at this
      omega

theorem Spaced.insert (h : Spaced s e (pre ++ b :: post)) (hn : data b ≤ n)
    (he : data n ≤ endOf e (pre ++ b :: post) b) : Spaced s e (pre ++ b :: n :: post) where
  first := by
    have := h.first
    cases pre <;> simpa using this
  spaced := by
    have happ : ∀ l, pre ++ b :: l = (pre ++ [b]) ++ l := by simp
    have hs := h.spaced
    rw [happ] at hs ⊢
    refine Lib.pairwise_insert hs (fun a ha => ?_) fun c hc => he.trans (h.endOf_le_of_mem hc)
    rcases List.mem_append.mp ha with ha | ha
    · have hab := (List.pairwise_append.mp h.spaced).2.2 a ha b (by simp)
      rw [data_eq] at hn
      exact hab.trans (by omega)
    · rw [List.mem_singleton.mp ha]
      exact hn
  inside c hc := by
    rcases mem_insert.mp hc with hc | rfl
    · exact h.inside c hc
    · exact he.trans h.endOf_le_end

theorem Spaced.remove (h : Spaced s e (pre ++ b :: n :: post)) : Spaced s e (pre ++ b :: post) where
  first := by
    have := h.first
    cases pre <;> simpa using this
  spaced := h.spaced.sublist (by simp)
  inside c hc := h.inside c (mem_insert.mpr (.inl hc))

/-! ## Addresses in use -/

/-- The address `x` lies in a header, or in the data of a buffer that is not free. -/
def Used (e : Nat) (l : List Nat) (free : Nat → Bool) (x : Nat) : Prop :=
  ∃ b ∈ l, (b ≤ x ∧ x < data b) ∨ (free b = false ∧ data b ≤ x ∧ x < endOf e l b)

variable {f g : Nat → Bool}

theorem used_last (hb : b ∈ l) : Used e l f (data b - 1) :=
  ⟨b, hb, .inl (by rw [data_eq]; omega)⟩

theorem used_endOf (h : endOf e l b ≠ e) : Used e l f (endOf e l b) := by
  rcases endOf_cases (e := e) (l := l) (b := b) with he | hm
  · exact absurd he h
  · exact ⟨_, hm, .inl (by rw [data_eq]; omega)⟩

theorem Spaced.used_range (h : Spaced s e l) (hx : Used e l f x) : s ≤ x ∧ x < e := by
  obtain ⟨b, hb, hx⟩ := hx
  have h1 := h.start_le hb
  have h2 := h.inside b hb
  have h3 := h.endOf_le_end (b := b)
  rw [data_eq] at *
  omega

theorem Spaced.not_used (h : Spaced s e l) (hb : b ∈ l) (hf : f b = true) (h1 : data b ≤ x)
    (h2 : x < endOf e l b) : ¬ Used e l f x := by
  rintro ⟨c, hc, hx⟩
  by_cases hbc : b = c
  · grind
  have hle := h.endOf_le hb hc hbc
  have hd := h.data_le_endOf hc
  rw [data_eq] at *
  omega

theorem used_alloc (hb : b ∈ l) (hg : g b = false) (hf : f b = true) (hfg : ∀ c ∈ l, c ≠ b → g c = f c) :
    Used e l g x ↔ Used e l f x ∨ (data b ≤ x ∧ x < endOf e l b) := by
  unfold Used
  constructor
  · rintro ⟨c, hc, hx⟩
    by_cases hcb : c = b
    · grind
    · rw [hfg c hc hcb] at hx
      exact .inl ⟨c, hc, hx⟩
  rintro (⟨c, hc, hx⟩ | hx)
  · by_cases hcb : c = b
    · grind
    · exact ⟨c, hc, by rwa [hfg c hc hcb]⟩
  · exact ⟨b, hb, .inr ⟨hg, hx⟩⟩

theorem used_insert (h : (pre ++ b :: n :: post).Nodup) (hb : f b = true) (hn : f n = true) :
    Used e (pre ++ b :: n :: post) f x ↔ Used e (pre ++ b :: post) f x ∨ (n ≤ x ∧ x < data n) := by
  constructor
  · rintro ⟨c, hc, hx⟩
    by_cases hcn : c = n
    · simp_all
    have hc' : c ∈ pre ++ b :: post := (mem_insert.mp hc).resolve_right hcn
    refine .inl ⟨c, hc', ?_⟩
    by_cases hcb : c = b
    · simp_all
    · rw [endOf_insert hcb hcn] at hx
      exact hx
  · rintro (⟨c, hc, hx⟩ | hx)
    · refine ⟨c, mem_insert.mpr (.inl hc), ?_⟩
      have hcn : c ≠ n := by
        rintro rfl
        exact notMem_insert h hc
      by_cases hcb : c = b
      · simp_all
      · rw [endOf_insert hcb hcn]
        exact hx
    · exact ⟨n, by simp, .inl hx⟩

theorem used_congr (hfg : ∀ c ∈ l, g c = f c) : Used e l g x ↔ Used e l f x := by
  refine exists_congr fun c => and_congr_right fun hc => ?_
  rw [hfg c hc]

theorem used_split (h : Spaced s e (pre ++ b :: n :: post)) (hb : f b = true) (hgb : g b = false)
    (hgn : g n = true) (hg : ∀ c, c ≠ b → c ≠ n → g c = f c) :
    Used e (pre ++ b :: n :: post) g x ↔
      Used e (pre ++ b :: post) f x ∨ (data b ≤ x ∧ x < data n) := by
  have hnd := h.nodup
  have hnb : n ≠ b := by
    rintro rfl
    exact notMem_insert hnd (by simp)
  have hold : ∀ c ∈ pre ++ b :: post, Function.update f n true c = f c := by grind
  have hfb : Function.update f n true b = true := (Function.update_of_ne hnb.symm _ _).trans hb
  -- the header of the rest first, with both parts free, then the data of the first part
  have hins := used_insert (e := e) (x := x) hnd hfb (Function.update_self n true f)
  have hall := used_alloc (e := e) (x := x) (l := pre ++ b :: n :: post) (b := b) (g := g) (by simp) hgb hfb (by
    intro c _ hcb
    by_cases hcn : c = n
    · rw [hcn, hgn, Function.update_self]
    · rw [hg c hcb hcn, Function.update_of_ne hcn])
  have hbn := h.data_le_endOf (b := b) (by simp)
  rw [(endOf_inserted hnd).1] at hbn hall
  rw [hall, hins, used_congr hold, or_assoc]
  refine or_congr_right ?_
  rw [data_eq]
  omega

theorem Spaced.endOf_of_next (h : Spaced s e l) (hb : b ∈ l) (hn : next b l = some n) : data b ≤ n := by
  have := h.data_le_endOf hb
  rw [endOf, hn] at this
  exact this

theorem used_next (hn : next b l = some n) : Used e l f n := by
  obtain ⟨pre, post, rfl⟩ := next_eq_some hn
  exact ⟨n, by simp, .inl (by rw [data_eq]; omega)⟩

theorem Spaced.used_remove (h : Spaced s e (pre ++ q :: b :: post)) (hq : f q = true) (hb : f b = true) :
    Used e (pre ++ q :: post) f x ↔
      Used e (pre ++ q :: b :: post) f x ∧ ¬ (b ≤ x ∧ x < data b) := by
  have hnd := h.nodup
  have hends := endOf_inserted (e := e) hnd
  have hqb := h.data_le_endOf (b := q) (by simp)
  have hbe := h.data_le_endOf (b := b) (by simp)
  rw [hends.1] at hqb
  rw [hends.2] at hbe
  rw [used_insert hnd hq hb]
  constructor
  · intro hx
    refine ⟨.inl hx, fun hin => ?_⟩
    exact h.remove.not_used (by simp) hq (hqb.trans hin.1) (Nat.lt_of_lt_of_le hin.2 hbe) hx
  · rintro ⟨hx | hx, hin⟩
    · exact hx
    · exact absurd hx hin

theorem Spaced.used_gap (h : Spaced s e (pre ++ q :: b :: post)) (hq : f q = true)
    (hx : Used e (pre ++ q :: post) f x) :
    x < data q ∨ ∃ n ∈ next b (pre ++ q :: b :: post), n ≤ x := by
  have hends := endOf_inserted (e := e) h.nodup
  by_contra hno
  simp only [not_or, Nat.not_lt, not_exists, not_and, Nat.not_le] at hno
  refine h.remove.not_used (by simp) hq hno.1 ?_ hx
  rw [← hends.2, endOf]
  cases hn : next b (pre ++ q :: b :: post) with
  | none => exact (h.remove.used_range hx).2
  | some n => exact hno.2 n hn

/-- No two neighbours are both free, except perhaps for a pair with `x`. -/
def Apart (x : Option Nat) (l : List Nat) (free : Nat → Bool) : Prop :=
  ∀ a c, next a l = some c → free a = true → free c = true → x = some a ∨ x = some c

theorem Apart.alloc (h : Apart none l f) (hg : ∀ c, g c = true → f c = true) : Apart none l g :=
  fun a c hac ha hc => h a c hac (hg a ha) (hg c hc)

theorem Apart.free (h : Apart none l f) (hg : ∀ c, c ≠ b → g c = f c) : Apart (some b) l g := by
  intro a c hac ha hc
  by_cases hab : a = b
  · exact .inl (by rw [hab])
  by_cases hcb : c = b
  · exact .inr (by rw [hcb])
  rw [hg a hab] at ha
  rw [hg c hcb] at hc
  rcases h a c hac ha hc with h | h <;> cases h

theorem Apart.split (h : Apart none (pre ++ b :: post) f) (hnd : (pre ++ b :: n :: post).Nodup)
    (hb : f b = true) (hgb : g b = false) (hg : ∀ c, c ≠ b → c ≠ n → g c = f c) :
    Apart none (pre ++ b :: n :: post) g := by
  intro a c hac ha hc
  have hab : a ≠ b := by
    rintro rfl
    rw [hgb] at ha
    cases ha
  have hcb : c ≠ b := by
    rintro rfl
    rw [hgb] at hc
    cases hc
  have hcn : c ≠ n := by
    rintro rfl
    obtain ⟨pre1, post1, hsplit⟩ := next_eq_some hac
    have h1 := prev_self (hsplit ▸ hnd)
    rw [← hsplit, prev_self hnd] at h1
    exact hab (Option.some.inj h1).symm
  by_cases han : a = n
  · -- what follows the remainder followed the buffer before
    subst han
    rw [next_inserted hnd] at hac
    rw [hg c hcb hcn] at hc
    rcases h b c (by rw [next_self (notMem_of_nodup hnd), hac]) hb hc with h | h <;> cases h
  rw [next_insert hab han] at hac
  rw [hg a hab han] at ha
  rw [hg c hcb hcn] at hc
  rcases h a c hac ha hc with h | h <;> cases h

theorem Apart.joinNext (h : Apart (some b) (pre ++ b :: n :: post) f) (hnd : (pre ++ b :: n :: post).Nodup)
    (hn : f n = true) :
    Apart (some b) (pre ++ b :: post) f ∧
      ∀ c, next b (pre ++ b :: post) = some c → f c = false := by
  constructor
  · intro a c hac ha hc
    by_cases hab : a = b
    · exact .inl (by rw [hab])
    have han : a ≠ n := by
      rintro rfl
      obtain ⟨pre1, post1, hsplit⟩ := next_eq_some hac
      exact notMem_insert hnd (by rw [hsplit]; simp)
    exact h a c (by rw [next_insert hab han]; exact hac) ha hc
  intro c hc
  rw [next_self (notMem_of_nodup hnd)] at hc
  cases hfc : f c with
  | false => rfl
  | true =>
    rcases h n c (by rw [next_inserted hnd]; exact hc) hn hfc with h | h
    · cases h
      exact absurd (by simp) (notMem_insert hnd)
    cases h
    obtain ⟨post1, rfl⟩ := List.head?_eq_some_iff.mp hc
    have := (List.nodup_append.mp hnd).2.1
    simp at this

theorem Apart.joinPrev (h : Apart (some b) (pre ++ q :: b :: post) f) (hnd : (pre ++ q :: b :: post).Nodup)
    (hq : f q = true) (hnext : ∀ c, next b (pre ++ q :: b :: post) = some c → f c = false) :
    Apart none (pre ++ q :: post) f := by
  have hb := notMem_insert hnd
  intro a c hac ha hc
  have hsplit := next_eq_some hac
  have hab : a ≠ b := by grind
  have hcb : c ≠ b := by grind
  by_cases haq : a = q
  · subst haq
    rw [next_self (notMem_of_nodup hnd)] at hac
    rw [next_inserted hnd] at hnext
    rw [hnext c hac] at hc
    cases hc
  rcases h a c (by rw [next_insert haq hab]; exact hac) ha hc with h | h
  · cases h
    exact absurd rfl hab
  · cases h
    exact absurd rfl hcb

theorem Apart.done (h : Apart (some b) l f) (hnd : l.Nodup)
    (hprev : ∀ q, prev b l = some q → f q = false) (hnext : ∀ c, next b l = some c → f c = false) :
    Apart none l f := by
  intro a c hac ha hc
  rcases h a c hac ha hc with h | h
  · cases h
    rw [hnext c hac] at hc
    cases hc
  cases h
  obtain ⟨pre, post, rfl⟩ := next_eq_some hac
  rw [hprev a (prev_self hnd)] at ha
  cases ha

/-! # Pages and the addresses in use -/

/-- `pages` are the pages, counted from `first`, that hold an address with `U`. -/
def Covers (first : Nat) (U : Nat → Prop) (pages : Nat → Bool) : Prop :=
  ∀ i, pages i = true ↔ ∃ x, U x ∧ x / 4096 = first + i

variable {p : Proc} {U V : Nat → Prop} {d e used b q : Nat}

theorem Covers.congr {first : Nat} {pages : Nat → Bool} (h : Covers first U pages) (hV : ∀ x, V x ↔ U x) :
    Covers first V pages :=
  fun i => (h i).trans (exists_congr fun x => and_congr_left' (hV x).symm)

/-- Taking the addresses from `d` to `d + used` into use, or to `e` if that is at most 44 bytes more. -/
theorem Covers.map (h : Covers p.firstPage U p.pages) {hi : Nat} (hd : 0 < d) (hlast : U (d - 1))
    (hend : e % 4096 ≠ 0 → U e) (hused : d + used ≤ e)
    (hhi : hi = d + used ∨ (hi = e ∧ e ≤ d + used + 44)) :
    Covers p.firstPage (fun x => U x ∨ (d ≤ x ∧ x < hi))
      (p.setPages ((d + 4095) / 4096) (min ((d + used + 4095) / 4096) (e / 4096)) true).pages := by
  intro i
  simp only [Proc.setPages]
  generalize hk : p.firstPage + i = k
  split
  · rename_i hin
    refine ⟨fun _ => ⟨4096 * k, .inr ?_, by omega⟩, fun _ => rfl⟩
    omega
  rw [h i, hk]
  constructor
  · rintro ⟨x, hx, hxk⟩
    exact ⟨x, .inl hx, hxk⟩
  rintro ⟨x, hx | hx, hxk⟩
  · exact ⟨x, hx, hxk⟩
  -- the page lies below the range, so it holds `d - 1`, or above it, so it holds `e`
  by_cases hlow : k < (d + 4095) / 4096
  · exact ⟨d - 1, hlast, by omega⟩
  · exact ⟨e, hend (by omega), by omega⟩

theorem Covers.unmap (h : Covers p.firstPage U p.pages) (hd : 0 < d) (hlast : U (d - 1))
    (hend : e % 4096 ≠ 0 → U e) :
    Covers p.firstPage (fun x => U x ∧ ¬ (d ≤ x ∧ x < e))
      (p.setPages ((d + 4095) / 4096) (e / 4096) false).pages := by
  intro i
  simp only [Proc.setPages]
  generalize hk : p.firstPage + i = k
  split
  · grind
  rw [h i, hk]
  constructor
  · grind
  · rintro ⟨x, hx, hxk⟩
    exact ⟨x, hx.1, hxk⟩

theorem freePageStart_iff {n : Option Nat} (hn : ∀ m ∈ n, b + 40 ≤ m) :
    freePageStart q b n = true ↔ (q + 39) / 4096 ≠ b / 4096 ∧ ∀ m ∈ n, m / 4096 ≠ b / 4096 := by
  unfold freePageStart bufferEndPage bufferStartPage
  cases n with
  | none =>
    simp [pageMask, headerSize_eq, pageSize_eq]
  | some m =>
    have hm := hn m rfl
    simp [pageMask, headerSize_eq, pageSize_eq]
    omega

theorem freePageEnd_iff {n : Option Nat} (hq : q + 40 ≤ b) :
    freePageEnd q b n = true ↔
      (q + 39) / 4096 ≠ (b + 39) / 4096 ∧ ∀ m ∈ n, m / 4096 ≠ (b + 39) / 4096 := by
  unfold freePageEnd bufferEndPage bufferStartPage
  cases n with
  | none | some m =>
    simp [pageMask, headerSize_eq, pageSize_eq]
    omega

theorem headerPages_iff {n : Option Nat} {k : Nat} (hfree : (freePageStart q b n || freePageEnd q b n) = true) :
    ((if freePageStart q b n then b / 4096 else (b + 39) / 4096) ≤ k ∧
        k < (if freePageEnd q b n then (b + 39) / 4096 else b / 4096) + 1) ↔
      (k = b / 4096 ∧ freePageStart q b n = true) ∨ (k = (b + 39) / 4096 ∧ freePageEnd q b n = true) := by
  revert hfree
  cases freePageStart q b n with
  | false => grind
  | true => grind

/-- The header at `b` lies between the free buffer at `q` and the header `n`. -/
structure HeaderGap (U V : Nat → Prop) (q b : Nat) (n : Option Nat) : Prop where
  removed : ∀ x, V x ↔ U x ∧ ¬ (b ≤ x ∧ x < b + 40)
  before : q + 40 ≤ b
  after : ∀ m ∈ n, b + 40 ≤ m
  header : ∀ x, b ≤ x → x < b + 40 → U x
  last : U (q + 39)
  next : ∀ m ∈ n, U m
  gap : ∀ x, V x → x < q + 40 ∨ ∃ m ∈ n, m ≤ x

variable {n : Option Nat}

theorem HeaderGap.keep (g : HeaderGap U V q b n) {k : Nat} (hk : k = b / 4096 ∨ k = (b + 39) / 4096)
    (hout : ¬ ((k = b / 4096 ∧ freePageStart q b n = true) ∨
      (k = (b + 39) / 4096 ∧ freePageEnd q b n = true))) : ∃ x, V x ∧ x / 4096 = k := by
  rw [freePageStart_iff g.after, freePageEnd_iff g.before] at hout
  have hbefore := g.before
  by_cases hqk : (q + 39) / 4096 = k
  · exact ⟨_, (g.removed _).mpr ⟨g.last, by omega⟩, hqk⟩
  have hm : ∃ m ∈ n, m / 4096 = k := by grind
  obtain ⟨m, hm, hmk⟩ := hm
  have hbm := g.after m hm
  exact ⟨m, (g.removed m).mpr ⟨g.next m hm, by omega⟩, hmk⟩

theorem HeaderGap.unmapHeader (g : HeaderGap U V q b n) (h : Covers p.firstPage U p.pages)
    (hfree : (freePageStart q b n || freePageEnd q b n) = true) :
    Covers p.firstPage V
      (p.setPages (if freePageStart q b n then b / 4096 else (b + 39) / 4096)
        ((if freePageEnd q b n then (b + 39) / 4096 else b / 4096) + 1) false).pages := by
  have hbefore := g.before
  intro i
  simp only [Proc.setPages, headerPages_iff hfree]
  generalize hk : p.firstPage + i = k
  split
  · rename_i hin
    refine ⟨by simp, ?_⟩
    rintro ⟨x, hx, hxk⟩
    -- what is left in the page would be the end of `q` or the start of `n`
    rcases hin with ⟨hkb, hfs⟩ | ⟨hkb, hfe⟩
    · obtain ⟨h1, h2⟩ := (freePageStart_iff g.after).mp hfs
      rcases g.gap x hx with hx | ⟨m, hm, hmx⟩
      · omega
      · have h3 := h2 m hm
        have h4 := g.after m hm
        omega
    obtain ⟨h1, h2⟩ := (freePageEnd_iff g.before).mp hfe
    rcases g.gap x hx with hx | ⟨m, hm, hmx⟩
    · omega
    · have h3 := h2 m hm
      have h4 := g.after m hm
      omega
  · rename_i hout
    rw [h i, hk]
    constructor
    · rintro ⟨x, hx, hxk⟩
      by_cases hin : b ≤ x ∧ x < b + 40
      · exact g.keep (by omega) hout
      · exact ⟨x, (g.removed x).mpr ⟨hx, hin⟩, hxk⟩
    · rintro ⟨x, hx, hxk⟩
      exact ⟨x, ((g.removed x).mp hx).1, hxk⟩

theorem HeaderGap.keepHeader (g : HeaderGap U V q b n) (h : Covers p.firstPage U p.pages)
    (hfree : ¬ (freePageStart q b n || freePageEnd q b n) = true) : Covers p.firstPage V p.pages := by
  simp only [Bool.or_eq_true, not_or] at hfree
  intro i
  rw [h i]
  constructor
  · rintro ⟨x, hx, hxk⟩
    by_cases hin : b ≤ x ∧ x < b + 40
    · exact g.keep (by omega) fun hk => hk.elim (fun hk => hfree.1 hk.2) fun hk => hfree.2 hk.2
    · exact ⟨x, (g.removed x).mpr ⟨hx, hin⟩, hxk⟩
  · rintro ⟨x, hx, hxk⟩
    exact ⟨x, ((g.removed x).mp hx).1, hxk⟩

theorem HeaderGap.mapped (g : HeaderGap U V q b n) (h : Covers p.firstPage U p.pages)
    (hfree : (freePageStart q b n || freePageEnd q b n) = true) {i : Nat}
    (h1 : (if freePageStart q b n then b / 4096 else (b + 39) / 4096) ≤ p.firstPage + i)
    (h2 : p.firstPage + i < (if freePageEnd q b n then (b + 39) / 4096 else b / 4096) + 1) :
    p.pages i = true := by
  refine (h i).mpr ?_
  rcases (headerPages_iff hfree).mp ⟨h1, h2⟩ with ⟨hk, -⟩ | ⟨hk, -⟩
  · exact ⟨b, g.header b (by omega) (by omega), hk.symm⟩
  · exact ⟨b + 39, g.header _ (by omega) (by omega), hk.symm⟩

end G3Mod.Binder.Alloc
