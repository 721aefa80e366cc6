import G3Mod.Cmm.Lemmas.Loops

/-!
# The memory manager loses nothing and gives nothing out twice
-/

namespace G3Mod.Cmm

open Function Lib

variable {env : Env} {s : State} {xs ys : List Ptr}

/-! ## Calls -/

theorem virAddr_ne_zero {arg : AllocArg} {p n : Nat} (h : Placed env ⟨p, n⟩ (decide (arg.cacheFlag ≠ 0))) :
    virAddr env arg p ≠ 0 := by
  have h1 := env.cached_pos
  have h2 := env.cached_le
  have h3 := env.nonCached_pos
  have h4 := env.nonCached_le
  obtain ⟨hpos, h⟩ := h
  unfold virAddr
  by_cases hflag : arg.cacheFlag = 0
  · grind
  · grind

theorem Inv.insertAlloc {m : AllocMem} (h : Inv env s xs ys [m.piece]) (hplaced : Placed env m.piece m.cached) :
    Inv env (insertNodeToAllocList (kmalloc env s).1
      { (kmalloc env s).2 with allocMem := update s.allocMem (kmalloc env s).1 m }) ((kmalloc env s).1 :: xs) ys [] := by
  have hlists := h.lists.insertAlloc env (update s.allocMem (kmalloc env s).1 m)
  have hold : ∀ p ∈ xs, update s.allocMem (kmalloc env s).1 m p = s.allocMem p :=
    update_fresh (h.lists.fresh env rfl).1 m
  refine ⟨hlists, h.covers.congr fun a => ?_, fun p hp => ?_, h.frees⟩
  · have hpieces : pieces (insertNodeToAllocList (kmalloc env s).1
        { (kmalloc env s).2 with allocMem := update s.allocMem (kmalloc env s).1 m }) xs ys = pieces s xs ys :=
      pieces_congr hold fun p _ => rfl
    rw [List.nil_append, List.singleton_append, coverage_cons, ← hpieces]
    show coverage ((update s.allocMem (kmalloc env s).1 m (kmalloc env s).1).piece :: _) a = _
    rw [coverage_cons, update_self]
    rfl
  show Placed env (update s.allocMem (kmalloc env s).1 m p).piece (update s.allocMem (kmalloc env s).1 m p).cached
  rcases List.mem_cons.mp hp with rfl | hp
  · simpa using hplaced
  · simpa only [hold p hp] using h.allocs p hp

theorem Inv.getCodecVirAddr {arg : AllocArg} (h : Inv env s xs ys []) (instNo : Nat) (hpos : 0 < arg.buffSize) :
    (Best s arg.buffSize arg.cacheFlag ys none ∧ Cmm.getCodecVirAddr env instNo arg s = .ok (none, s)) ∨
      ∃ m p a s' ys', Best s arg.buffSize arg.cacheFlag ys (some m) ∧ p ∉ xs ∧
        Cmm.getCodecVirAddr env instNo arg s = .ok (some a.uAddr, s') ∧ Inv env s' (p :: xs) ys' [] ∧
        s'.allocMem = update s.allocMem p a ∧ a.pAddr = (s.freeMem m).startAddr ∧ a.size = arg.buffSize ∧
        a.instNo = instNo ∧ a.cacheFlag = arg.cacheFlag := by
  rcases h.getMemArea hpos arg.cacheFlag with ⟨hbest, hrun⟩ | ⟨m, s1, ys', hbest, hrun, hinv, hplaced, hmem, _⟩
  · refine .inl ⟨hbest, ?_⟩
    rw [Cmm.getCodecVirAddr, hrun, ok_bind]
    exact if_pos rfl
  have hne : (s.freeMem m).startAddr ≠ 0 := hplaced.bounds.1.ne'
  set a : AllocMem := ⟨(s.freeMem m).startAddr, virAddr env arg (s.freeMem m).startAddr,
    userAddr env arg (s.freeMem m).startAddr, arg.buffSize, instNo, arg.cacheFlag⟩ with ha
  have hinv' : Inv env s1 xs ys' [a.piece] := hinv
  have hfresh := (hinv.lists.fresh env rfl).1
  refine .inr ⟨m, (kmalloc env s1).1, a, _, ys', hbest, fun hp => hfresh (List.mem_cons_of_mem _ hp), ?_,
    hinv'.insertAlloc hplaced, ?_, rfl, rfl, rfl, rfl⟩
  · rw [Cmm.getCodecVirAddr, hrun, ok_bind]
    dsimp only
    rw [if_neg hne, if_neg (virAddr_ne_zero hplaced)]
    rfl
  · rw [← hmem]
    rfl

theorem Inv.memFree (h : Inv env s xs ys []) (uAddr : Nat) :
    ∃ b s' xs' ys', Cmm.memFree env uAddr s = .ok (b, s') ∧ Inv env s' xs' ys' [] := by
  have hlen := h.lists.length
  have hring : Ring s.allocLinks s.allocTail ([] ++ xs) := h.lists.alloc
  obtain ⟨node, hrun, hnode⟩ := findLoop_spec uAddr hring (show _ < s.used.length by omega)
  rw [← h.lists.allocHead_eq] at hrun
  rw [Cmm.memFree, hrun, ok_bind]
  by_cases htail : node = s.allocTail
  · exact ⟨false, s, xs, ys, if_pos htail, h⟩
  · obtain ⟨pre, post, rfl⟩ := List.append_of_mem (hnode.resolve_left htail)
    obtain ⟨p, hinv⟩ := h.releaseAllocMem
    exact ⟨true, _, _, _, if_neg htail, hinv⟩

theorem Inv.cmmRelease (h : Inv env s xs ys []) (instNo : Nat) :
    ∃ s' ys', Cmm.cmmRelease env instNo s = .ok s' ∧
      Inv env s' (xs.filter fun p => (s.allocMem p).instNo ≠ instNo) ys' [] ∧ s'.allocMem = s.allocMem := by
  have hlen := h.lists.length
  have hnil : Inv env s ([] ++ xs) ys [] := h
  obtain ⟨s1, ys1, hrun, hinv, hmem, hno⟩ := hnil.releaseLoop instNo nofun (show _ < s.used.length by omega)
  rw [← h.lists.allocHead_eq] at hrun
  obtain ⟨s2, ys2, hrun', hinv', hmem', _⟩ := hinv.mergeFragmentation
  refine ⟨{ s2 with instanceNo := s2.instanceNo.set instNo false }, ys2, ?_, ?_, hmem'.trans hmem⟩
  · rw [Cmm.cmmRelease, hrun, ok_bind, hrun', ok_bind]
  · exact ⟨{ hinv'.lists with }, hinv'.covers, hinv'.allocs, hinv'.frees⟩

theorem lists_initLists (env : Env) : Lists (initLists env) [] [] := by
  have halloc : Ring (initLists env).allocLinks (initLists env).allocTail [] := .nil (update_self ..) (update_self ..)
  have hfree : Ring (initLists env).freeLinks (initLists env).freeTail [] := .nil (update_self ..) (update_self ..)
  refine ⟨halloc, halloc.next_nil.symm, hfree, hfree.next_nil.symm, List.Perm.swap _ _ _, ?_⟩
  exact List.nodup_cons.mpr ⟨env.fresh _ _, List.nodup_cons.mpr ⟨env.fresh _ _, List.nodup_nil⟩⟩

theorem Inv.addFree {m : FreeMem} {taken : List Interval} (h : Inv env s xs ys (m.piece :: taken))
    (hplaced : Placed env m.piece m.cached) : Inv env (Cmm.addFree env m s) xs ((kmalloc env s).1 :: ys) taken := by
  have hlists := h.lists.insertFree env (update s.freeMem (kmalloc env s).1 m)
  have hold : ∀ p ∈ ys, update s.freeMem (kmalloc env s).1 m p = s.freeMem p :=
    update_fresh (h.lists.fresh env rfl).2 m
  refine ⟨hlists, h.covers.congr fun a => ?_, h.allocs, fun p hp => ?_⟩
  · have hpieces : pieces (Cmm.addFree env m s) xs ys = pieces s xs ys := pieces_congr (fun p _ => rfl) hold
    rw [coverage_append, coverage_perm pieces_free_cons, coverage_cons, hpieces]
    show _ + ((update s.freeMem (kmalloc env s).1 m (kmalloc env s).1).piece.cover a + _) = _
    rw [update_self, List.cons_append, coverage_cons, coverage_append]
    omega
  show Placed env (update s.freeMem (kmalloc env s).1 m p).piece (update s.freeMem (kmalloc env s).1 m p).cached
  rcases List.mem_cons.mp hp with rfl | hp
  · simpa using hplaced
  · simpa only [hold p hp] using h.frees p hp

theorem inv_cmmInit (env : Env) : ∃ ys, Inv env (cmmInit env) [] ys [] := by
  have hsizes : 0 < cachedMemSize ∧ 0 < nonCachedMemSize := by decide
  have hinit : Inv env (initLists env) [] [] [⟨env.start, cachedMemSize⟩, ⟨env.start + cachedMemSize, nonCachedMemSize⟩] := by
    refine ⟨lists_initLists env, ?_, nofun, nofun⟩
    have hone : Covers [⟨env.start, cachedMemSize + nonCachedMemSize⟩] env.start
        (env.start + (cachedMemSize + nonCachedMemSize)) := fun a => Nat.add_zero _
    exact hone.split
  have hfirst := hinit.addFree (m := ⟨env.start, cachedMemSize, 1⟩) ⟨hsizes.1, le_rfl, le_rfl⟩
  exact ⟨_, hfirst.addFree (m := ⟨env.start + cachedMemSize, nonCachedMemSize, 0⟩)
    ⟨hsizes.2, le_rfl, (Nat.add_assoc ..).le⟩⟩

/-! ## Every run -/

/-- The pieces on both lists cover the memory exactly once, each in the area of its kind. -/
def Tiles (env : Env) (s : State) : Prop :=
  Covers ((allocList s).map AllocMem.piece ++ (freeList s).map FreeMem.piece) env.start
      (env.start + (cachedMemSize + nonCachedMemSize)) ∧
    (∀ m ∈ allocList s, Placed env m.piece m.cached) ∧ ∀ m ∈ freeList s, Placed env m.piece m.cached

theorem Inv.tiles (h : Inv env s xs ys []) : Tiles env s := by
  unfold Tiles
  rw [h.lists.allocList_eq, h.lists.freeList_eq]
  refine ⟨?_, ?_, ?_⟩
  · have hcov := h.covers
    rw [List.map_map, List.map_map]
    exact hcov
  · simpa using h.allocs
  · simpa using h.frees

/-- An allocation fails when no free piece fits; otherwise it uses the smallest one, and nothing else is new. -/
def Allocated (s s' : State) (instNo : Nat) (arg : AllocArg) : Option Nat → Prop
  | none => (∀ m ∈ freeList s, fits arg.buffSize arg.cacheFlag m = false) ∧ s' = s
  | some uAddr => ∃ m ∈ freeList s, fits arg.buffSize arg.cacheFlag m = true ∧
      (∀ m' ∈ freeList s, fits arg.buffSize arg.cacheFlag m' = true → m.size ≤ m'.size) ∧
      ∃ vAddr, allocList s' = ⟨m.startAddr, vAddr, uAddr, arg.buffSize, instNo, arg.cacheFlag⟩ :: allocList s

theorem Inv.allocated {arg : AllocArg} (h : Inv env s xs ys []) (instNo : Nat) (hpos : 0 < arg.buffSize) :
    ∃ a s' xs' ys', Cmm.getCodecVirAddr env instNo arg s = .ok (a, s') ∧ Allocated s s' instNo arg a ∧
      Inv env s' xs' ys' [] := by
  rcases h.getCodecVirAddr instNo hpos with
    ⟨hbest, hrun⟩ | ⟨m, p, a, s', ys', ⟨hm, hfit, hmin⟩, hp, hrun, hinv, hmem, haddr, hsize, hinst, hflag⟩
  · refine ⟨none, s, xs, ys, hrun, ⟨?_, rfl⟩, h⟩
    rw [h.lists.freeList_eq]
    simpa using fun p hp => hbest p hp
  refine ⟨_, s', p :: xs, ys', hrun, ⟨s.freeMem m, ?_, hfit, ?_, a.vAddr, ?_⟩, hinv⟩
  · rw [h.lists.freeList_eq]
    exact List.mem_map_of_mem hm
  · rw [h.lists.freeList_eq]
    simpa using hmin
  rw [hinv.lists.allocList_eq, h.lists.allocList_eq, List.map_cons, hmem, update_self]
  congr 1
  · rw [← haddr, ← hsize, ← hinst, ← hflag]
  apply List.map_congr_left
  intro q hq
  apply update_of_ne
  rintro rfl
  exact hp hq

theorem Inv.exec (h : Inv env s xs ys []) {op : Op} (hp : op.Permitted s) :
    ∃ o s' xs' ys', exec env s op = .ok (o, s') ∧ Inv env s' xs' ys' [] := by
  cases op with
  | open_ =>
    simp only [Cmm.exec, getInstanceNo]
    split
    · exact ⟨_, _, xs, ys, rfl, { h.lists with }, h.covers, h.allocs, h.frees⟩
    · exact ⟨_, s, xs, ys, rfl, h⟩
  | alloc instNo arg =>
    obtain ⟨a, s', xs', ys', hrun, _, hinv⟩ := h.allocated instNo hp.2.1
    exact ⟨.address a, s', xs', ys', by rw [Cmm.exec, hrun]; rfl, hinv⟩
  | free instNo uAddr =>
    obtain ⟨b, s', xs', ys', hrun, hinv⟩ := h.memFree uAddr
    exact ⟨.freed b, s', xs', ys', by rw [Cmm.exec, hrun]; rfl, hinv⟩
  | merge instNo =>
    obtain ⟨s', ys', hrun, hinv, _⟩ := h.mergeFragmentation
    exact ⟨.done, s', xs, ys', by rw [Cmm.exec, hrun]; rfl, hinv⟩
  | release instNo =>
    obtain ⟨s', ys', hrun, hinv, _⟩ := h.cmmRelease instNo
    exact ⟨.done, s', _, ys', by rw [Cmm.exec, hrun]; rfl, hinv⟩

theorem machine_inductive (env : Env) : (machine env).Inductive fun s => ∃ xs ys, Inv env s xs ys [] where
  init := by
    rintro s rfl
    exact ⟨[], inv_cmmInit env⟩
  step := by
    rintro s op ⟨xs, ys, h⟩ hp
    obtain ⟨o, s', xs', ys', hexec, hinv⟩ := h.exec hp
    exact ⟨o, s', hexec, xs', ys', hinv⟩

/-- The lists tile the two areas, an allocation takes the smallest piece that fits, and a release takes the entries of
one instance. -/
theorem codec_memory_tiled (h : (machine env).Reachable s) :
    Tiles env s ∧ (∀ op : Op, op.Permitted s → ∃ o s', (machine env).exec s op = .ok (o, s')) ∧
      (∀ instNo arg, (Op.alloc instNo arg).Permitted s →
        ∃ a s', (machine env).exec s (.alloc instNo arg) = .ok (.address a, s') ∧ Allocated s s' instNo arg a) ∧
      ∀ instNo, (Op.release instNo).Permitted s →
        ∃ s', (machine env).exec s (.release instNo) = .ok (.done, s') ∧
          allocList s' = (allocList s).filter fun m => m.instNo ≠ instNo := by
  obtain ⟨xs, ys, hinv⟩ := (machine_inductive env).reachable h
  refine ⟨hinv.tiles, fun op hop => (machine_inductive env).safe h hop, ?_, ?_⟩
  · intro instNo arg hp
    obtain ⟨a, s', _, _, hrun, halloc, _⟩ := hinv.allocated instNo hp.2.1
    exact ⟨a, s', by simp only [machine, Cmm.exec, hrun, ok_bind], halloc⟩
  intro instNo hp
  obtain ⟨s', ys', hrun, hinv', hmem⟩ := hinv.cmmRelease instNo
  refine ⟨s', by simp only [machine, Cmm.exec, hrun, ok_bind], ?_⟩
  rw [hinv'.lists.allocList_eq, hinv.lists.allocList_eq, hmem, List.filter_map]
  rfl

def countingEnv : Env where
  start := 0x50000000
  cachedVirAddr := 0xe0000000
  nonCachedVirAddr := 0xe1000000
  kmalloc _ used := used.foldr max 0 + 1
  fresh _ used h := by
    have hle : ∀ l : List Nat, ∀ p ∈ l, p ≤ l.foldr max 0 := by
      intro l
      induction l with
      | nil => simp
      | cons q l ih =>
        intro p hp
        rcases List.mem_cons.mp hp with rfl | hp
        · exact le_max_left _ _
        · exact (ih p hp).trans (le_max_right _ _)
    have := hle used _ h
    omega
  start_pos := by decide
  start_le := by decide
  cached_pos := by decide
  cached_le := by decide
  nonCached_pos := by decide
  nonCached_le := by decide

theorem first_open_tiled : ∃ s, (machine countingEnv).Reachable s ∧ s.instanceNo[0]? = some true ∧ Tiles countingEnv s := by
  have h0 := Machine.Reachable.init (M := machine countingEnv) rfl
  have h1 := h0.step (l := Op.open_) trivial rfl
  exact ⟨_, h1, rfl, (codec_memory_tiled h1).1⟩

end G3Mod.Cmm
