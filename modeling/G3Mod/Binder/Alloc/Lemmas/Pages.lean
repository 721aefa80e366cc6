import Mathlib.Tactic.Linarith
import G3Mod.Binder.Alloc.Model

/-!
# Mapping and unmapping pages
-/

namespace G3Mod.Binder.Alloc

variable {p : Proc}

theorem pageSize_eq : pageSize = 4096 := rfl

theorem headerSize_eq : headerSize = 40 := rfl

theorem data_eq (b : Nat) : data b = b + 40 := rfl

theorem pageMask_eq (x : Nat) : pageMask x = 4096 * (x / 4096) := Nat.mul_comm _ _

theorem pageAlign_eq (x : Nat) : pageAlign x = 4096 * ((x + 4095) / 4096) := pageMask_eq _

def Proc.firstPage (p : Proc) : Nat := p.buffer / pageSize

def Proc.setPages (p : Proc) (s e : Nat) (v : Bool) : Proc :=
  { p with pages := fun i => if s ≤ p.firstPage + i ∧ p.firstPage + i < e then v else p.pages i }

structure Aligned (p : Proc) : Prop where
  buffer : p.buffer = 4096 * p.firstPage
  bufferSize : p.bufferSize = 4096 * pageCount p

theorem Aligned.pageIndex (h : Aligned p) (k : Nat) :
    pageIndex p (4096 * k) = k - p.firstPage := by
  have hb := h.buffer
  unfold Alloc.pageIndex
  rw [hb, pageSize_eq, ← Nat.mul_sub, Nat.mul_div_cancel_left _ (by decide)]

theorem withPages_congr {f g : Nat → Bool} (h : ∀ i, f i = g i) : { p with pages := f } = { p with pages := g } := by
  rw [funext h]

theorem Proc.setPages_of_le {s e : Nat} (h : e ≤ s) (v : Bool) : p.setPages s e v = p :=
  withPages_congr (g := p.pages) fun _ => if_neg (by omega)

theorem Proc.setPages_setPage {s e : Nat} {v : Bool} (hs : p.firstPage ≤ s) (he : s ≤ e) :
    (p.setPages s e v).setPage (e - p.firstPage) v = p.setPages s (e + 1) v := by
  refine withPages_congr fun i => ?_
  simp only [Function.update_apply, Proc.setPages]
  by_cases hi : i = e - p.firstPage
  · rw [if_pos hi, if_pos (by omega)]
  rw [if_neg hi]
  congr 1
  simp only [eq_iff_iff]
  omega

theorem Proc.setPage_setPages {s e : Nat} {v : Bool} (hs : p.firstPage ≤ s) (he : s ≤ e) :
    (p.setPage (e - p.firstPage) v).setPages s e v = p.setPages s (e + 1) v := by
  rw [← Proc.setPages_setPage hs he]
  refine withPages_congr fun i => ?_
  simp only [Proc.setPages, Proc.setPage, Function.update_apply]
  by_cases hi : i = e - p.firstPage
  · rw [if_pos hi, if_pos hi, ite_self]
  · rw [if_neg hi, if_neg hi]
    rfl

theorem Proc.setPages_undo {s e : Nat}
    (h : ∀ i, s ≤ p.firstPage + i → p.firstPage + i < e → p.pages i = false) :
    (p.setPages s e true).setPages s e false = p := by
  refine withPages_congr (g := p.pages) fun i => ?_
  split
  next hi => exact (h i hi.1 hi.2).symm
  next hi => exact if_neg hi

/-! ## The loops -/

theorem freeLoop_eq {s : Nat} : ∀ {n : Nat} {p : Proc}, Aligned p → p.firstPage ≤ s →
    s + n ≤ p.firstPage + pageCount p →
    (∀ i, s ≤ p.firstPage + i → p.firstPage + i < s + n → p.pages i = true) →
    freeLoop n (4096 * (s + n) - 4096) p = .ok (p.setPages s (s + n) false)
  | 0, p, _, _, _, _ => by simp only [freeLoop, Nat.add_zero, Proc.setPages_of_le le_rfl]
  | n + 1, p, ha, hs, hn, hp => by
      have hi : pageIndex p (4096 * (s + (n + 1)) - 4096) = s + n - p.firstPage := by
        rw [← ha.pageIndex, Nat.mul_add, Nat.mul_add, Nat.mul_add, Nat.mul_one, ← Nat.add_assoc,
          Nat.add_sub_cancel]
      have hpage : p.pages (s + n - p.firstPage) = true := hp _ (by omega) (by omega)
      simp only [freeLoop, hi, hpage]
      rw [if_neg (by omega), if_neg (by simp)]
      have hrec := freeLoop_eq (s := s) (n := n) (p := p.setPage (s + n - p.firstPage) false)
        ⟨ha.buffer, ha.bufferSize⟩ hs (Nat.le_of_succ_le hn) (by
          intro i h1 h2
          have hne : i ≠ s + n - p.firstPage := by
            change p.firstPage + i < s + n at h2
            omega
          simp only [Proc.setPage, Function.update_of_ne hne]
          exact hp i h1 (Nat.lt_succ_of_lt h2))
      have haddr : 4096 * (s + (n + 1)) - 4096 - pageSize = 4096 * (s + n) - 4096 := by
        rw [pageSize_eq]
        omega
      rw [haddr, hrec, Proc.setPage_setPages hs (by omega)]
      rfl

theorem mapLoop_eq (env : PageEnv) {s : Nat} (ha : Aligned p) (hs : p.firstPage ≤ s) :
    ∀ {n m : Nat}, s + m + n ≤ p.firstPage + pageCount p →
      (∀ i, s ≤ p.firstPage + i → p.firstPage + i < s + m + n → p.pages i = false) →
      mapLoop env (4096 * s) n (4096 * (s + m)) (p.setPages s (s + m) true)
          = .ok (true, p.setPages s (s + m + n) true) ∨
        mapLoop env (4096 * s) n (4096 * (s + m)) (p.setPages s (s + m) true) = .ok (false, p)
  | 0, m, _, _ => .inl rfl
  | n + 1, m, hn, hp => by
      have hal : Aligned (p.setPages s (s + m) true) := ⟨ha.buffer, ha.bufferSize⟩
      have hi : pageIndex (p.setPages s (s + m) true) (4096 * (s + m)) = s + m - p.firstPage :=
        hal.pageIndex _
      have hpage : (p.setPages s (s + m) true).pages (s + m - p.firstPage) = false := by
        simp only [Proc.setPages]
        rw [if_neg (by omega)]
        exact hp _ (by omega) (by omega)
      have hcount : ¬ pageCount (p.setPages s (s + m) true) ≤ s + m - p.firstPage := by
        change ¬ pageCount p ≤ _
        omega
      have hstep : (p.setPages s (s + m) true).setPage (s + m - p.firstPage) true
          = p.setPages s (s + m + 1) true := Proc.setPages_setPage hs (by omega)
      -- freeing what has been mapped so far gives the state before the call
      have hundo : ∀ e, e ≤ m + 1 →
          freeLoop e (4096 * (s + e) - 4096) (p.setPages s (s + e) true) = .ok p := by
        intro e he
        rw [freeLoop_eq (p := p.setPages s (s + e) true) ⟨ha.buffer, ha.bufferSize⟩ hs (by
            change s + e ≤ p.firstPage + pageCount p
            omega) (by
            intro i h1 h2
            exact if_pos ⟨h1, h2⟩)]
        rw [Proc.setPages_undo]
        intro i h1 h2
        exact hp i h1 (by omega)
      have hturns : (4096 * (s + m) - 4096 * s) / pageSize = m := by
        rw [pageSize_eq]
        omega
      simp only [mapLoop, hi, hpage, hcount, if_false, Bool.false_eq_true, hturns, hstep]
      have hlast := hundo (m + 1) le_rfl
      have haddr : 4096 * (s + (m + 1)) - 4096 = 4096 * (s + m) := by omega
      rw [haddr] at hlast
      cases env.result (s + m - p.firstPage) with
      | mapped =>
        have hrec := mapLoop_eq env ha hs (n := n) (m := m + 1) (by omega) (by
          intro i h1 h2
          exact hp i h1 (by omega))
        have hend : s + (m + 1) + n = s + m + (n + 1) := by omega
        rw [hend] at hrec
        exact hrec
      | allocPageFailed =>
        refine .inr ?_
        change (freeLoop m (4096 * (s + m) - 4096) _ >>= _) = _
        rw [hundo m (by omega)]
        rfl
      | mapVmAreaFailed | vmInsertPageFailed =>
        refine .inr ?_
        change (freeLoop (m + 1) (4096 * (s + m)) (p.setPages s (s + (m + 1)) true) >>= _) = _
        rw [hlast]
        rfl

theorem mapPageRange_eq (env : PageEnv) (vma : Bool) {s e : Nat} (ha : Aligned p) (hs : p.firstPage ≤ s)
    (he : e ≤ p.firstPage + pageCount p)
    (hp : ∀ i, s ≤ p.firstPage + i → p.firstPage + i < e → p.pages i = false) :
    mapPageRange env (4096 * s) (4096 * e) vma p = .ok (true, p.setPages s e true) ∨
      mapPageRange env (4096 * s) (4096 * e) vma p = .ok (false, p) := by
  unfold mapPageRange
  split
  · exact .inl (by rw [Proc.setPages_of_le (by omega)])
  split
  · exact .inr rfl
  have hturns : (4096 * e - 4096 * s + (pageSize - 1)) / pageSize = e - s := by
    rw [pageSize_eq]
    omega
  have hloop := mapLoop_eq env ha hs (n := e - s) (m := 0) (by omega) (by
    intro i h1 h2
    exact hp i h1 (by omega))
  have hend : s + 0 + (e - s) = e := by omega
  rw [hturns]
  rw [hend, Nat.add_zero, Proc.setPages_of_le le_rfl] at hloop
  exact hloop

theorem unmapPageRange_eq {s e : Nat} (ha : Aligned p) (hs : p.firstPage ≤ s)
    (he : e ≤ p.firstPage + pageCount p)
    (hp : ∀ i, s ≤ p.firstPage + i → p.firstPage + i < e → p.pages i = true) :
    unmapPageRange (4096 * s) (4096 * e) p = .ok (p.setPages s e false) := by
  unfold unmapPageRange
  split
  · rw [Proc.setPages_of_le (by omega)]
  have hturns : (4096 * e - 4096 * s) / pageSize = e - s := by
    rw [pageSize_eq]
    omega
  have hend : s + (e - s) = e := by omega
  have hloop := freeLoop_eq (s := s) (n := e - s) ha hs (by omega) (by
    intro i h1 h2
    exact hp i h1 (by omega))
  rw [hend] at hloop
  rw [hturns, ← hloop]
  rfl

def Proc.mapFrom (p : Proc) (start : Nat) : Nat → Proc
  | 0 => p
  | k + 1 => (p.mapFrom start k).setPage (pageIndex p (start + k * pageSize)) true

theorem Proc.mapFrom_pageIndex (p : Proc) (start k addr : Nat) : Alloc.pageIndex (p.mapFrom start k) addr = Alloc.pageIndex p addr := by
  induction k with
  | zero => rfl
  | succ k ih => exact ih

def Proc.Unmapped (p : Proc) (start k : Nat) : Prop :=
  ∀ j < k, (p.mapFrom start j).pages (Alloc.pageIndex p (start + j * pageSize)) = false

theorem freeLoop_mapFrom {start : Nat} {q : Proc} : ∀ {k : Nat}, p.Unmapped start k →
    freeLoop k (start + k * pageSize - pageSize) (p.mapFrom start k) = .ok q → q = p
  | 0, _, h => by cases h; rfl
  | k + 1, hu, h => by
      have haddr : start + (k + 1) * pageSize - pageSize = start + k * pageSize := by
        rw [Nat.succ_mul]
        omega
      have hback : (p.mapFrom start (k + 1)).setPage (Alloc.pageIndex p (start + k * pageSize)) false =
          p.mapFrom start k := by
        have : Function.update (Function.update (p.mapFrom start k).pages (Alloc.pageIndex p (start + k * pageSize)) true)
            (Alloc.pageIndex p (start + k * pageSize)) false = (p.mapFrom start k).pages := by
          rw [Function.update_idem, ← hu k (Nat.lt_succ_self k), Function.update_eq_self]
        simp only [Proc.mapFrom, Proc.setPage, this]
      simp only [freeLoop, haddr, Proc.mapFrom_pageIndex] at h
      split at h
      · cases h
      split at h
      · cases h
      · rw [hback] at h
        exact freeLoop_mapFrom (fun j hj => hu j (Nat.lt_succ_of_lt hj)) h

theorem mapLoop_failed (env : PageEnv) {start : Nat} {q : Proc} : ∀ {n k : Nat}, p.Unmapped start k →
    mapLoop env start n (start + k * pageSize) (p.mapFrom start k) = .ok (false, q) → q = p
  | 0, _, _, h => by cases h
  | n + 1, k, hu, h => by
      have hturns : (start + k * pageSize - start) / pageSize = k := by
        rw [Nat.add_sub_cancel_left, pageSize_eq]
        omega
      have haddr : start + k * pageSize + pageSize = start + (k + 1) * pageSize := by
        rw [Nat.succ_mul]
        omega
      simp only [mapLoop, Proc.mapFrom_pageIndex, hturns] at h
      split at h
      · cases h
      split at h
      · cases h
      rename_i hfree
      have hu' : p.Unmapped start (k + 1) := by
        intro j hj
        rcases Nat.lt_succ_iff_lt_or_eq.mp hj with hj | rfl
        · exact hu j hj
        · simpa using hfree
      have hfail : ∀ {r : Proc}, freeLoop (k + 1) (start + k * pageSize) (p.mapFrom start (k + 1)) = .ok r → r = p := by
        intro r hr
        refine freeLoop_mapFrom hu' ?_
        rwa [← haddr, Nat.add_sub_cancel]
      split at h
      · rw [haddr] at h
        exact mapLoop_failed env hu' h
      · obtain ⟨r, hr, h⟩ := Lib.bind_ok h
        cases h
        exact freeLoop_mapFrom hu hr
      all_goals
        obtain ⟨r, hr, h⟩ := Lib.bind_ok h
        cases h
        exact hfail hr

theorem mapPageRange_failed {env : PageEnv} {start stop : Nat} {vma : Bool} {q : Proc}
    (h : mapPageRange env start stop vma p = .ok (false, q)) : q = p := by
  unfold mapPageRange at h
  split at h
  · cases h
  split at h
  · cases h; rfl
  have hnone : p.Unmapped start 0 := fun j hj => absurd hj (Nat.not_lt_zero j)
  have hstart : start + 0 * pageSize = start := by omega
  exact mapLoop_failed env hnone (hstart ▸ h)

end G3Mod.Binder.Alloc
