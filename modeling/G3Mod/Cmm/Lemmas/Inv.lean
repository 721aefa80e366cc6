import G3Mod.Cmm.Model
import G3Mod.Lib.Cover

/-!
# The two lists

`Lists s xs ys`: `xs` are the nodes of the allocation list and `ys` those of the free list, in order, and `kmalloc` has
given out these nodes and the two sentinels.
-/

namespace G3Mod.Cmm

open Function Lib

variable {s : State} {x : Ptr} {xs ys pre post : List Ptr}

/-! ## What the node functions leave alone -/

@[simp] theorem deleteNodeFromAllocList_same : (deleteNodeFromAllocList x s).allocMem = s.allocMem ∧
    (deleteNodeFromAllocList x s).freeMem = s.freeMem ∧ (deleteNodeFromAllocList x s).allocTail = s.allocTail ∧
    (deleteNodeFromAllocList x s).instanceNo = s.instanceNo := by
  unfold deleteNodeFromAllocList kfree
  split_ifs <;> exact ⟨rfl, rfl, rfl, rfl⟩

@[simp] theorem deleteNodeFromFreeList_same : (deleteNodeFromFreeList x s).allocMem = s.allocMem ∧
    (deleteNodeFromFreeList x s).freeMem = s.freeMem ∧ (deleteNodeFromFreeList x s).instanceNo = s.instanceNo := by
  unfold deleteNodeFromFreeList kfree
  split_ifs <;> exact ⟨rfl, rfl, rfl⟩

theorem update_fresh {β : Type} {f : Ptr → β} {t p : Ptr} {l : List Ptr} (hp : p ∉ t :: l) (m : β) :
    ∀ q ∈ l, update f p m q = f q := by
  intro q hq
  apply update_of_ne
  rintro rfl
  exact hp (List.mem_cons_of_mem _ hq)

/-! ## The lists -/

structure Lists (s : State) (xs ys : List Ptr) : Prop where
  alloc : Ring s.allocLinks s.allocTail xs
  allocHead : s.allocHead = s.allocLinks.next s.allocTail
  free : Ring s.freeLinks s.freeTail ys
  freeHead : s.freeHead = s.freeLinks.next s.freeTail
  used : s.used.Perm (s.allocTail :: xs ++ s.freeTail :: ys)
  nodup : s.used.Nodup

namespace Lists

section

variable (h : Lists s xs ys)

include h

theorem length : s.used.length = xs.length + ys.length + 2 := by
  rw [h.used.length_eq]
  simp
  omega

theorem allocHead_eq : s.allocHead = (xs ++ [s.allocTail]).head (by simp) :=
  h.allocHead.trans h.alloc.next_tail

theorem freeHead_eq : s.freeHead = (ys ++ [s.freeTail]).head (by simp) :=
  h.freeHead.trans h.free.next_tail

theorem allocList_eq : allocList s = xs.map s.allocMem := by
  unfold allocList
  rw [h.allocHead, Ring.walk_eq h.alloc.path h.alloc.not_mem (by rw [h.length]; omega)]

theorem freeList_eq : freeList s = ys.map s.freeMem := by
  unfold freeList
  rw [h.freeHead, Ring.walk_eq h.free.path h.free.not_mem (by rw [h.length]; omega)]

theorem fresh (env : Env) {p : Ptr} (hp : p = env.kmalloc s.mallocs s.used) :
    p ∉ s.allocTail :: xs ∧ p ∉ s.freeTail :: ys := by
  have hnot : p ∉ s.allocTail :: xs ++ s.freeTail :: ys := by
    rw [← h.used.mem_iff, hp]
    exact env.fresh _ _
  rw [List.mem_append, not_or] at hnot
  exact hnot

theorem insertFree (env : Env) (mem : Ptr → FreeMem) :
    Lists (insertNodeToFreeList (kmalloc env s).1 { (kmalloc env s).2 with freeMem := mem }) xs
      ((kmalloc env s).1 :: ys) := by
  have hring := h.free.insert (h.fresh env rfl).2
  rw [← h.freeHead] at hring
  refine ⟨h.alloc, h.allocHead, hring, hring.next_cons.symm, (h.used.cons _).trans ?_,
    List.nodup_cons.mpr ⟨env.fresh _ _, h.nodup⟩⟩
  exact List.perm_middle.symm.trans (List.Perm.append_left _ (List.Perm.swap _ _ _))

theorem insertAlloc (env : Env) (mem : Ptr → AllocMem) :
    Lists (insertNodeToAllocList (kmalloc env s).1 { (kmalloc env s).2 with allocMem := mem })
      ((kmalloc env s).1 :: xs) ys := by
  have hring := h.alloc.insert (h.fresh env rfl).1
  rw [← h.allocHead] at hring
  exact ⟨hring, hring.next_cons.symm, h.free, h.freeHead, (h.used.cons _).trans (List.Perm.swap _ _ _),
    List.nodup_cons.mpr ⟨env.fresh _ _, h.nodup⟩⟩

end

theorem head_unlink {L : Links Ptr} {head t : Ptr} (h : Ring L t (pre ++ x :: post)) (hhead : head = L.next t) :
    (if x = head then L.next x else head) = (L.unlink x).next t := by
  rw [h.unlink.next_tail]
  cases pre with
  | nil =>
    rw [if_pos (hhead.trans h.next_cons).symm, h.next_eq]
    rfl
  | cons y pre =>
    have hy : head = y := hhead.trans h.next_cons
    have hne : x ≠ head := by
      rintro rfl
      have hnodup := (List.nodup_cons.mp h.nodup).2
      rw [← hy] at hnodup
      simp at hnodup
    rw [if_neg hne, hy]
    rfl

theorem erase_perm {l l' : List Ptr} (h : l.Perm (x :: l')) : (l.erase x).Perm l' := by
  have herase := h.erase x
  rwa [List.erase_cons_head] at herase

theorem deleteAlloc (h : Lists s (pre ++ x :: post) ys) :
    Lists (deleteNodeFromAllocList x s) (pre ++ post) ys := by
  have heq : deleteNodeFromAllocList x s =
      { s with
        allocLinks := s.allocLinks.unlink x, allocHead := (s.allocLinks.unlink x).next s.allocTail,
        used := s.used.erase x } := by
    rw [← head_unlink h.alloc h.allocHead]
    simp only [deleteNodeFromAllocList, if_neg h.alloc.ne_tail, kfree]
    split <;> rfl
  rw [heq]
  refine ⟨h.alloc.unlink, rfl, h.free, h.freeHead, erase_perm (h.used.trans ?_), h.nodup.erase x⟩
  simp only [List.cons_append, List.append_assoc]
  exact (List.Perm.cons _ List.perm_middle).trans (List.Perm.swap _ _ _)

theorem deleteFree (h : Lists s xs (pre ++ x :: post)) :
    Lists (deleteNodeFromFreeList x s) xs (pre ++ post) := by
  have heq : deleteNodeFromFreeList x s =
      { s with
        freeLinks := s.freeLinks.unlink x, freeHead := (s.freeLinks.unlink x).next s.freeTail,
        used := s.used.erase x } := by
    rw [← head_unlink h.free h.freeHead]
    simp only [deleteNodeFromFreeList, if_neg h.free.ne_tail, kfree]
    split <;> rfl
  rw [heq]
  refine ⟨h.alloc, h.allocHead, h.free.unlink, rfl, erase_perm (h.used.trans ?_), h.nodup.erase x⟩
  have hmid : (s.freeTail :: (pre ++ x :: post)).Perm (x :: s.freeTail :: (pre ++ post)) :=
    (List.Perm.cons _ List.perm_middle).trans (List.Perm.swap _ _ _)
  exact (List.Perm.append_left _ hmid).trans List.perm_middle

end Lists

/-! # The pieces cover the two areas

`Inv env s xs ys taken`: the pieces of both lists and `taken` cover the memory exactly once, each in the area of its
kind. -/

variable {env : Env} {taken : List Interval}

def AllocMem.piece (m : AllocMem) : Interval := ⟨m.pAddr, m.size⟩

def FreeMem.piece (m : FreeMem) : Interval := ⟨m.startAddr, m.size⟩

def AllocMem.cached (m : AllocMem) : Bool := m.cacheFlag ≠ 0

def FreeMem.cached (m : FreeMem) : Bool := m.cacheFlag ≠ 0

def Placed (env : Env) (I : Interval) (cached : Bool) : Prop :=
  0 < I.size ∧
    if cached then env.start ≤ I.start ∧ I.start + I.size ≤ env.start + cachedMemSize
    else env.start + cachedMemSize ≤ I.start ∧
      I.start + I.size ≤ env.start + (cachedMemSize + nonCachedMemSize)

theorem Placed.bounds {I : Interval} {c : Bool} (h : Placed env I c) :
    0 < I.start ∧ env.start ≤ I.start ∧ I.start + I.size ≤ 2 ^ 32 := by
  have hpos := env.start_pos
  have hle := env.start_le
  grind [Placed]

def pieces (s : State) (xs ys : List Ptr) : List Interval :=
  xs.map (fun p => (s.allocMem p).piece) ++ ys.map (fun p => (s.freeMem p).piece)

structure Inv (env : Env) (s : State) (xs ys : List Ptr) (taken : List Interval) : Prop where
  lists : Lists s xs ys
  covers : Covers (taken ++ pieces s xs ys) env.start (env.start + (cachedMemSize + nonCachedMemSize))
  allocs : ∀ p ∈ xs, Placed env (s.allocMem p).piece (s.allocMem p).cached
  frees : ∀ p ∈ ys, Placed env (s.freeMem p).piece (s.freeMem p).cached

/-! ## Pieces of lists -/

theorem pieces_alloc_mid : (pieces s (pre ++ x :: post) ys).Perm ((s.allocMem x).piece :: pieces s (pre ++ post) ys) := by
  simp only [pieces, List.map_append, List.map_cons, List.append_assoc, List.cons_append]
  exact List.perm_middle

theorem pieces_free_mid : (pieces s xs (pre ++ x :: post)).Perm ((s.freeMem x).piece :: pieces s xs (pre ++ post)) := by
  simp only [pieces, List.map_append, List.map_cons]
  rw [← List.append_assoc, ← List.append_assoc]
  exact List.perm_middle

theorem pieces_free_cons : (pieces s xs (x :: ys)).Perm ((s.freeMem x).piece :: pieces s xs ys) := List.perm_middle

theorem pieces_congr {s' : State} (ha : ∀ p ∈ xs, s'.allocMem p = s.allocMem p)
    (hf : ∀ p ∈ ys, s'.freeMem p = s.freeMem p) : pieces s' xs ys = pieces s xs ys := by
  unfold pieces
  congr 1
  · exact List.map_congr_left fun p hp => by rw [ha p hp]
  · exact List.map_congr_left fun p hp => by rw [hf p hp]

theorem not_mem_of_nodup_mid {l : List Ptr} (h : (l ++ x :: post).Nodup) : x ∉ l ++ post :=
  (List.nodup_middle.mp h |> List.nodup_cons.mp).1

@[simp] theorem releaseAllocMem_same : (releaseAllocMem env x s).allocMem = s.allocMem ∧
    (releaseAllocMem env x s).allocTail = s.allocTail ∧ (releaseAllocMem env x s).instanceNo = s.instanceNo := by
  simp only [releaseAllocMem, deleteNodeFromAllocList_same]
  exact ⟨rfl, rfl, rfl⟩

namespace Inv

theorem nodup_free (h : Inv env s xs ys taken) : ys.Nodup := (List.nodup_cons.mp h.lists.free.nodup).2

theorem releaseAllocMem (h : Inv env s (pre ++ x :: post) ys []) :
    ∃ p, Inv env (Cmm.releaseAllocMem env x s) (pre ++ post) (p :: ys) [] := by
  have hfresh := h.lists.fresh env rfl
  set p := (kmalloc env s).1 with hp
  set m : FreeMem := ⟨(s.allocMem x).pAddr, (s.allocMem x).size, if (s.allocMem x).cacheFlag ≠ 0 then 1 else 0⟩ with hm
  have hlists := (h.lists.insertFree env (update s.freeMem p m)).deleteAlloc
  have hfree : (Cmm.releaseAllocMem env x s).freeMem = update s.freeMem p m := by
    simp only [Cmm.releaseAllocMem, deleteNodeFromAllocList_same]
    rfl
  have hold : ∀ q ∈ ys, update s.freeMem p m q = s.freeMem q := update_fresh hfresh.2 m
  have hpieces : pieces (Cmm.releaseAllocMem env x s) (pre ++ post) ys = pieces s (pre ++ post) ys :=
    pieces_congr (by simp) fun q hq => by rw [hfree, hold q hq]
  refine ⟨p, hlists, ?_, fun q hq => ?_, fun q hq => ?_⟩
  · -- the new free piece is the piece of `x`
    have hcov := h.covers.perm (List.Perm.append_left _ pieces_alloc_mid)
    refine hcov.congr fun a => ?_
    rw [List.nil_append, List.nil_append, coverage_perm pieces_free_cons, coverage_cons, coverage_cons, hpieces, hfree,
      update_self]
    rfl
  · rw [releaseAllocMem_same.1]
    exact h.allocs q (by grind)
  rw [hfree]
  rcases List.mem_cons.mp hq with rfl | hq
  · have hcached : m.cached = (s.allocMem x).cached := by grind [FreeMem.cached, AllocMem.cached]
    rw [update_self, hcached]
    exact h.allocs x (by simp)
  · rw [hold q hq]
    exact h.frees q hq

theorem releaseLoop {fuel : Nat} {kept rest : List Ptr} (h : Inv env s (kept ++ rest) ys []) (instNo : Nat)
    (hkept : ∀ p ∈ kept, (s.allocMem p).instNo ≠ instNo) (hfuel : rest.length < fuel) :
    ∃ s' ys', Cmm.releaseLoop env instNo fuel ((rest ++ [s.allocTail]).head (by simp)) s = .ok s' ∧
      Inv env s' (kept ++ rest.filter fun p => (s.allocMem p).instNo ≠ instNo) ys' [] ∧
      s'.allocMem = s.allocMem ∧ s'.instanceNo = s.instanceNo := by
  induction rest generalizing s ys kept fuel with
  | nil =>
    cases fuel with
    | zero => simp at hfuel
    | succ fuel => exact ⟨s, ys, by simp [Cmm.releaseLoop], by simpa using h, rfl, rfl⟩
  | cons x rest ih =>
    cases fuel with
    | zero => simp at hfuel
    | succ fuel =>
      have hlen : rest.length < fuel := by simpa using hfuel
      have hring := h.lists.alloc
      show ∃ s' ys', Cmm.releaseLoop env instNo (fuel + 1) x s = .ok s' ∧ _
      rw [Cmm.releaseLoop, if_neg hring.ne_tail]
      by_cases hinst : (s.allocMem x).instNo = instNo
      · rw [if_pos hinst]
        -- the node before `x` is the last one that was kept, or the sentinel
        obtain ⟨p, hinv⟩ := h.releaseAllocMem
        have hnext : (Cmm.releaseAllocMem env x s).allocLinks.next (s.allocLinks.prev x) =
            (rest ++ [(Cmm.releaseAllocMem env x s).allocTail]).head (by simp) := by
          rw [hring.path.split.1.prev_eq, ← hinv.lists.alloc.path.next_last]
          simp only [releaseAllocMem_same]
        dsimp only
        rw [hnext]
        obtain ⟨s', ys', hrun, hinv', hmem', hno'⟩ := ih hinv (by simpa using hkept) hlen
        exact ⟨s', ys', hrun, by simpa [hinst] using hinv', by simpa using hmem', by simpa using hno'⟩
      · rw [if_neg hinst, hring.next_eq]
        have hinv : Inv env s ((kept ++ [x]) ++ rest) ys [] := by simpa using h
        obtain ⟨s', ys', hrun, hinv', hmem', hno'⟩ := ih hinv (by grind) hlen
        exact ⟨s', ys', hrun, by simpa [hinst] using hinv', hmem', hno'⟩

theorem join {a b : Ptr} {m : FreeMem} (h : Inv env s xs (pre ++ b :: post) []) (ha : a ∈ pre ++ post)
    (hcover : ∀ c, m.piece.cover c = (s.freeMem a).piece.cover c + (s.freeMem b).piece.cover c)
    (hplaced : Placed env m.piece m.cached) :
    Inv env (deleteNodeFromFreeList b { s with freeMem := update s.freeMem a m }) xs (pre ++ post) [] := by
  have hlists : Lists { s with freeMem := update s.freeMem a m } xs (pre ++ b :: post) := { h.lists with }
  have hnodup := (List.nodup_middle.mp h.nodup_free |> List.nodup_cons.mp).2
  refine ⟨hlists.deleteFree, ?_, by simpa using h.allocs, fun p hp => ?_⟩
  · obtain ⟨l, r, hlr⟩ := List.append_of_mem ha
    have hpieces : pieces (deleteNodeFromFreeList b { s with freeMem := update s.freeMem a m }) xs (l ++ r) =
        pieces s xs (l ++ r) := by
      refine pieces_congr (by simp) fun p hp => ?_
      rw [deleteNodeFromFreeList_same.2.1]
      exact update_of_ne (fun e => not_mem_of_nodup_mid (hlr ▸ hnodup) (e ▸ hp)) _ _
    refine h.covers.congr fun c => ?_
    -- `a` and `b` in front of the other nodes
    rw [List.nil_append, List.nil_append, coverage_perm pieces_free_mid, coverage_cons, hlr,
      coverage_perm pieces_free_mid, coverage_perm pieces_free_mid, coverage_cons, coverage_cons, hpieces,
      deleteNodeFromFreeList_same.2.1]
    simp only [update_self, hcover c]
    omega
  · have := h.frees p (by grind)
    simp only [deleteNodeFromFreeList_same, update_apply]
    split <;> assumption

end Inv

end G3Mod.Cmm
