import G3Mod.Cmm.Lemmas.Inv

/-!
# The other loops
-/

namespace G3Mod.Cmm

open Function Lib

variable {env : Env} {s : State} {a b x : Ptr} {xs ys pre post left right : List Ptr}

/-! ## `MergeFragmentation` -/

theorem mid_remove (hb : b ∈ left ++ a :: right) (hab : a ≠ b) :
    ∃ pre post left' right', left ++ a :: right = pre ++ b :: post ∧ pre ++ post = left' ++ a :: right' ∧
      right'.length ≤ right.length := by
  rcases List.mem_append.mp hb with hb | hb
  · obtain ⟨l1, l2, rfl⟩ := List.append_of_mem hb
    exact ⟨l1, l2 ++ a :: right, l1 ++ l2, right, by simp, by simp, le_rfl⟩
  rcases List.mem_cons.mp hb with rfl | hb
  · exact absurd rfl hab
  · obtain ⟨r1, r2, rfl⟩ := List.append_of_mem hb
    exact ⟨left ++ a :: r1, r2, left, r1 ++ r2, by simp, by simp, by simp⟩

variable {I J : Interval} {c : Bool}

theorem Placed.join (hI : Placed env I c) (hJ : Placed env J c)
    (h : I.start + I.size = J.start) : Placed env ⟨I.start, I.size + J.size⟩ c := by
  grind [Placed]

theorem Placed.meets {c' : Bool} (hI : Placed env I c) (hJ : Placed env J c')
    (h : (I.start + I.size) % 2 ^ 32 = J.start) : I.start + I.size = J.start := by
  have := hI.bounds
  have := hJ.bounds
  omega

namespace Inv

theorem absorb {start : Nat} (h : Inv env s xs (left ++ a :: right) []) (hb : b ∈ left ++ a :: right)
    (hflag : (s.freeMem a).cacheFlag = (s.freeMem b).cacheFlag)
    (hmeet : start = (s.freeMem a).startAddr ∧
        ((s.freeMem a).startAddr + (s.freeMem a).size) % 2 ^ 32 = (s.freeMem b).startAddr ∨
      start = (s.freeMem b).startAddr ∧
        (s.freeMem a).startAddr = ((s.freeMem b).startAddr + (s.freeMem b).size) % 2 ^ 32) :
    ∃ left' right', Inv env (deleteNodeFromFreeList b
        { s with
          freeMem := update s.freeMem a
            ⟨start, ((s.freeMem a).size + (s.freeMem b).size) % 2 ^ 32, (s.freeMem a).cacheFlag⟩ })
      xs (left' ++ a :: right') [] ∧ right'.length ≤ right.length := by
  have hpa := h.frees a (by simp)
  have hpb := h.frees b hb
  have hkind : (s.freeMem b).cached = (s.freeMem a).cached := by simp [FreeMem.cached, hflag]
  rw [hkind] at hpb
  -- one of the two begins where the other ends
  have hplaced : Placed env ⟨start, (s.freeMem a).size + (s.freeMem b).size⟩ (s.freeMem a).cached ∧
      ∀ c, Interval.cover ⟨start, (s.freeMem a).size + (s.freeMem b).size⟩ c =
        (s.freeMem a).piece.cover c + (s.freeMem b).piece.cover c := by
    rcases hmeet with ⟨rfl, hmeet⟩ | ⟨rfl, hmeet⟩
    · have heq : (s.freeMem a).startAddr + (s.freeMem a).size = (s.freeMem b).startAddr := hpa.meets hpb hmeet
      exact ⟨hpa.join hpb heq, fun c => by rw [Interval.cover_split, heq]; rfl⟩
    have heq : (s.freeMem b).startAddr + (s.freeMem b).size = (s.freeMem a).startAddr :=
      hpb.meets hpa hmeet.symm
    rw [Nat.add_comm]
    refine ⟨hpb.join hpa heq, fun c => ?_⟩
    rw [Interval.cover_split, heq, Nat.add_comm]
    rfl
  have hbounds := hplaced.1.bounds
  have hab : a ≠ b := by
    rintro rfl
    have := hpa.1
    simp only [FreeMem.piece] at *
    omega
  rw [Nat.mod_eq_of_lt (by simp only at hbounds; omega)]
  obtain ⟨pre, post, left', right', hys, hrest, hlen⟩ := mid_remove hb hab
  rw [hys] at h
  have hjoin := h.join (a := a) (m := ⟨start, _, (s.freeMem a).cacheFlag⟩) (by rw [hrest]; simp) hplaced.2 hplaced.1
  rw [hrest] at hjoin
  exact ⟨left', right', hjoin, hlen⟩

theorem mergeInner {fuel : Nat} {seen rest : List Ptr} (h : Inv env s xs (left ++ a :: right) [])
    (hys : left ++ a :: right = seen ++ rest) (hfuel : rest.length < fuel) :
    ∃ s' left' right', Cmm.mergeInner s a fuel ((rest ++ [s.freeTail]).head (by simp)) = .ok s' ∧
      Inv env s' xs (left' ++ a :: right') [] ∧ right'.length ≤ right.length ∧ s'.allocMem = s.allocMem ∧
      s'.instanceNo = s.instanceNo := by
  induction rest generalizing seen fuel with
  | nil =>
    cases fuel with
    | zero => simp at hfuel
    | succ fuel => exact ⟨s, left, right, by simp [Cmm.mergeInner], h, le_rfl, rfl, rfl⟩
  | cons b rest ih =>
    cases fuel with
    | zero => simp at hfuel
    | succ fuel =>
      have hb : b ∈ left ++ a :: right := by rw [hys]; simp
      have hring : Ring s.freeLinks s.freeTail (seen ++ b :: rest) := hys ▸ h.lists.free
      show ∃ s' left' right', Cmm.mergeInner s a (fuel + 1) b = .ok s' ∧ _
      rw [Cmm.mergeInner, if_neg hring.ne_tail]
      dsimp only
      split
      · next hmeet =>
        obtain ⟨left', right', hinv, hlen⟩ := h.absorb hb hmeet.2 (.inl ⟨rfl, hmeet.1⟩)
        exact ⟨_, left', right', rfl, hinv, hlen, by simp, by simp⟩
      split
      · next hmeet =>
        obtain ⟨left', right', hinv, hlen⟩ := h.absorb hb hmeet.2 (.inr ⟨rfl, hmeet.1⟩)
        exact ⟨_, left', right', rfl, hinv, hlen, by simp, by simp⟩
      · rw [hring.next_eq]
        exact ih (hys.trans (by simp : _ = (seen ++ [b]) ++ rest)) (by simpa using hfuel)

theorem mergeOuter {fuel : Nat} {left rest : List Ptr} (h : Inv env s xs (left ++ rest) []) (hfuel : rest.length < fuel) :
    ∃ s' ys', Cmm.mergeOuter fuel ((rest ++ [s.freeTail]).head (by simp)) s = .ok s' ∧ Inv env s' xs ys' [] ∧
      s'.allocMem = s.allocMem ∧ s'.instanceNo = s.instanceNo := by
  induction fuel generalizing s left rest with
  | zero => simp at hfuel
  | succ fuel ih =>
    cases rest with
    | nil => exact ⟨s, left, by simp [Cmm.mergeOuter], by simpa using h, rfl, rfl⟩
    | cons a right =>
      have hat : a ≠ s.freeTail := by
        rintro rfl
        exact h.lists.free.not_mem (by simp)
      have hlen := h.lists.length
      obtain ⟨s1, left', right', hrun, hinv, hle, hmem, hno⟩ :=
        h.mergeInner (List.nil_append _).symm (show _ < s.used.length by omega)
      rw [← h.lists.freeHead_eq] at hrun
      have hinv' : Inv env s1 xs ((left' ++ [a]) ++ right') [] := by simpa using hinv
      obtain ⟨s2, ys', hrun', hinv2, hmem', hno'⟩ :=
        ih hinv' (by simp only [List.length_cons] at hfuel; omega)
      refine ⟨s2, ys', ?_, hinv2, hmem'.trans hmem, hno'.trans hno⟩
      show Cmm.mergeOuter (fuel + 1) a s = .ok s2
      rw [Cmm.mergeOuter, if_neg hat, hrun, ok_bind, hinv.lists.free.next_eq]
      exact hrun'

theorem mergeFragmentation (h : Inv env s xs ys []) :
    ∃ s' ys', Cmm.mergeFragmentation s = .ok s' ∧ Inv env s' xs ys' [] ∧ s'.allocMem = s.allocMem ∧
      s'.instanceNo = s.instanceNo := by
  have hlen := h.lists.length
  have hnil : Inv env s xs ([] ++ ys) [] := h
  obtain ⟨s', ys', hrun, hinv⟩ := hnil.mergeOuter (show _ < s.used.length by omega)
  rw [← h.lists.freeHead_eq] at hrun
  exact ⟨s', ys', hrun, hinv⟩

end Inv

/-! ## `GetMemArea` -/

def Best (s : State) (allocSize : Nat) (cacheFlag : Int) (seen : List Ptr) : Option Ptr → Prop
  | none => ∀ p ∈ seen, fits allocSize cacheFlag (s.freeMem p) = false
  | some m => m ∈ seen ∧ fits allocSize cacheFlag (s.freeMem m) = true ∧
      ∀ p ∈ seen, fits allocSize cacheFlag (s.freeMem p) = true → (s.freeMem m).size ≤ (s.freeMem p).size

variable {allocSize fuel : Nat} {cacheFlag : Int} {seen rest : List Ptr}

theorem bestLoop_spec {best : Option Ptr}
    (h : Ring s.freeLinks s.freeTail (seen ++ rest)) (hbest : Best s allocSize cacheFlag seen best)
    (hfuel : rest.length < fuel) :
    ∃ best', bestLoop s allocSize cacheFlag fuel ((rest ++ [s.freeTail]).head (by simp)) best = .ok best' ∧
      Best s allocSize cacheFlag (seen ++ rest) best' := by
  induction rest generalizing seen fuel best with
  | nil =>
    cases fuel with
    | zero => simp at hfuel
    | succ fuel => exact ⟨best, by simp [bestLoop], by simpa using hbest⟩
  | cons x rest ih =>
    cases fuel with
    | zero => simp at hfuel
    | succ fuel =>
      show ∃ best', bestLoop s allocSize cacheFlag (fuel + 1) x best = .ok best' ∧ _
      rw [bestLoop, if_neg h.ne_tail, h.next_eq]
      rw [show seen ++ x :: rest = seen ++ [x] ++ rest by simp] at h ⊢
      refine ih h ?_ (by simpa using hfuel)
      cases best <;> grind [Best, better]

variable {m : FreeMem}

theorem of_fits (h : fits allocSize cacheFlag m = true) :
    allocSize ≤ m.size ∧ m.cached = decide (cacheFlag ≠ 0) := by
  obtain ⟨hsize, hkind⟩ := (Bool.and_eq_true _ _).mp h
  refine ⟨of_decide_eq_true hsize, ?_⟩
  by_cases hflag : cacheFlag = 0
  · simp_all [FreeMem.cached]
  · simp_all [FreeMem.cached]

variable {n : Nat}

theorem Placed.first (h : Placed env I c) (hpos : 0 < n) (hle : n ≤ I.size) :
    Placed env ⟨I.start, n⟩ c := by
  grind [Placed]

theorem Placed.last (h : Placed env I c) (hle : n ≤ I.size) (hpos : 0 < I.size - n) :
    Placed env ⟨I.start + n, I.size - n⟩ c := by
  grind [Placed]

theorem cut_piece (h : Placed env m.piece c) (hlt : allocSize < m.size) :
    (cut allocSize m).piece = ⟨m.startAddr + allocSize, m.size - allocSize⟩ := by
  have hbounds := h.bounds
  simp only [FreeMem.piece] at hbounds
  simp only [cut, FreeMem.piece]
  rw [Nat.mod_eq_of_lt (by omega)]

theorem Inv.takeFrom {allocSize : Nat} {m : Ptr} (h : Inv env s xs (pre ++ m :: post) [])
    (hle : allocSize ≤ (s.freeMem m).size) :
    ∃ ys', Inv env (Cmm.takeFrom allocSize m s) xs ys' [⟨(s.freeMem m).startAddr, allocSize⟩] ∧
      (Cmm.takeFrom allocSize m s).allocMem = s.allocMem ∧ (Cmm.takeFrom allocSize m s).instanceNo = s.instanceNo := by
  have hm : m ∈ pre ++ m :: post := by simp
  have hcov : Covers (⟨(s.freeMem m).startAddr, allocSize⟩ ::
      ⟨(s.freeMem m).startAddr + allocSize, (s.freeMem m).size - allocSize⟩ :: pieces s xs (pre ++ post))
      env.start (env.start + (cachedMemSize + nonCachedMemSize)) := by
    have hperm := h.covers.perm (List.Perm.append_left _ pieces_free_mid)
    rw [List.nil_append, FreeMem.piece, ← Nat.add_sub_cancel' hle] at hperm
    exact hperm.split
  have hold : ∀ p ∈ pre ++ post, update s.freeMem m (cut allocSize (s.freeMem m)) p = s.freeMem p := by
    intro p hp
    refine update_of_ne ?_ _ _
    rintro rfl
    exact not_mem_of_nodup_mid h.nodup_free hp
  have hlists : Lists { s with freeMem := update s.freeMem m (cut allocSize (s.freeMem m)) } xs (pre ++ m :: post) :=
    { h.lists with }
  have hsize : (cut allocSize (s.freeMem m)).size = (s.freeMem m).size - allocSize := rfl
  simp only [Cmm.takeFrom, update_self, hsize]
  split
  next hzero =>
    -- the whole piece is taken
    refine ⟨pre ++ post, ⟨hlists.deleteFree, ?_, by simpa using h.allocs, fun p hp => ?_⟩, by simp, by simp⟩
    · rw [pieces_congr (s := s) (by simp) (by simpa using hold)]
      rw [hzero] at hcov
      exact hcov.congr fun a => by simp [Interval.cover_empty]
    · have := h.frees p (by grind)
      simpa [hold p hp] using this
  rename_i hzero
  have hplaced := h.frees m hm
  have hpiece := cut_piece hplaced (show allocSize < (s.freeMem m).size by omega)
  refine ⟨pre ++ m :: post, ⟨hlists, ?_, h.allocs, fun p hp => ?_⟩, rfl, rfl⟩
  · have hpieces : pieces { s with freeMem := update s.freeMem m (cut allocSize (s.freeMem m)) } xs (pre ++ post) =
        pieces s xs (pre ++ post) := pieces_congr (fun p _ => rfl) hold
    refine hcov.congr fun a => ?_
    rw [List.singleton_append, coverage_cons, coverage_perm pieces_free_mid, coverage_cons, hpieces, coverage_cons,
      coverage_cons]
    dsimp only
    rw [update_self, hpiece]
  dsimp only
  by_cases e : p = m
  · rw [e, update_self, hpiece]
    exact hplaced.last hle (Nat.pos_of_ne_zero hzero)
  · rw [update_of_ne e]
    exact h.frees p hp

theorem Inv.getMemArea {allocSize : Nat} (h : Inv env s xs ys []) (hpos : 0 < allocSize) (cacheFlag : Int) :
    (Best s allocSize cacheFlag ys none ∧ Cmm.getMemArea allocSize cacheFlag s = .ok (0, s)) ∨
      ∃ m s' ys', Best s allocSize cacheFlag ys (some m) ∧
        Cmm.getMemArea allocSize cacheFlag s = .ok ((s.freeMem m).startAddr, s') ∧
        Inv env s' xs ys' [⟨(s.freeMem m).startAddr, allocSize⟩] ∧
        Placed env ⟨(s.freeMem m).startAddr, allocSize⟩ (decide (cacheFlag ≠ 0)) ∧
        s'.allocMem = s.allocMem ∧ s'.instanceNo = s.instanceNo := by
  have hlen := h.lists.length
  have hring : Ring s.freeLinks s.freeTail ([] ++ ys) := h.lists.free
  have hseen : Best s allocSize cacheFlag [] none := fun p hp => by cases hp
  obtain ⟨best, hrun, hbest⟩ := bestLoop_spec hring hseen (show ys.length < s.used.length by omega)
  rw [← h.lists.freeHead_eq] at hrun
  rw [List.nil_append] at hbest
  unfold Cmm.getMemArea
  by_cases hempty : s.freeHead = s.freeTail
  · -- only the sentinel is left
    rw [if_pos hempty]
    refine .inl ⟨?_, rfl⟩
    cases ys with
    | nil => exact hseen
    | cons y ys =>
      have hy : y = s.freeTail := h.lists.freeHead_eq.symm.trans hempty
      exact absurd (hy ▸ List.mem_cons_self) h.lists.free.not_mem
  rw [if_neg hempty, hrun, ok_bind]
  cases best with
  | none => exact .inl ⟨hbest, rfl⟩
  | some m =>
    obtain ⟨hle, hkind⟩ := of_fits hbest.2.1
    have hplaced := h.frees m hbest.1
    rw [hkind] at hplaced
    obtain ⟨pre, post, hys⟩ := List.append_of_mem hbest.1
    obtain ⟨ys', hinv, hmem, hno⟩ := (hys ▸ h).takeFrom hle
    exact .inr ⟨m, _, ys', hbest, rfl, hinv, hplaced.first hpos hle, hmem, hno⟩

theorem findLoop_spec (uAddr : Nat) (h : Ring s.allocLinks s.allocTail (seen ++ rest))
    (hfuel : rest.length < fuel) :
    ∃ node, findLoop s uAddr fuel ((rest ++ [s.allocTail]).head (by simp)) = .ok node ∧
      (node = s.allocTail ∨ node ∈ rest) := by
  induction rest generalizing seen fuel with
  | nil =>
    cases fuel with
    | zero => simp at hfuel
    | succ fuel => exact ⟨s.allocTail, by simp [findLoop], .inl rfl⟩
  | cons x rest ih =>
    cases fuel with
    | zero => simp at hfuel
    | succ fuel =>
      show ∃ node, findLoop s uAddr (fuel + 1) x = .ok node ∧ _
      rw [findLoop, if_neg h.ne_tail]
      split
      · exact ⟨x, rfl, .inr (by simp)⟩
      rw [h.next_eq]
      rw [show seen ++ x :: rest = seen ++ [x] ++ rest by simp] at h
      obtain ⟨node, hrun, hnode⟩ := ih h (by simpa using hfuel)
      exact ⟨node, hrun, hnode.imp_right (List.mem_cons_of_mem _)⟩

end G3Mod.Cmm
