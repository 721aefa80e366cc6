import G3Mod.Pmem.Theorems
import G3Mod.Pmem.Files.Model

/-!
# Who owns a block

A connected file copies the index of the file that it is connected to and takes no reference.
-/

namespace G3Mod.Pmem.Files

open Function Lib

variable {s s' : State} {f g : FileId} {d e : Data} {i j k size : Nat}

/-! ## The property -/

def Overlap (s : State) (d e : Data) : Prop :=
  ∃ i j k k', d.index = some i ∧ e.index = some j ∧ Block s.info i k ∧ Block s.info j k' ∧
    i < j + 2 ^ k' ∧ j < i + 2 ^ k

structure Owned (s : State) : Prop where
  /-- the block at the index of a file is marked allocated -/
  allocated : ∀ {f d i}, s.file f = some d → d.index = some i →
    (∃ k, Block s.info i k) ∧ (s.info.bitmap i).allocated = true
  /-- files with overlapping blocks have their index from the same allocation -/
  shared : ∀ {f g d e}, s.file f = some d → s.file g = some e → f ≠ g → Overlap s d e →
    ∃ n, d.alloc = some n ∧ e.alloc = some n

/-- A file that owns its block is released only when no other file holds the index. -/
def Op.Careful (s : State) : Op → Prop
  | .release f _ => ∀ d i, s.file f = some d → d.connected = false → d.index = some i →
      ∀ g e, g ≠ f → s.file g = some e → e.index ≠ some i
  | _ => True

/-! ## The invariant -/

structure Inv (s : State) : Prop where
  tidy : ∃ head, Tidy s.info head
  allocated : ∀ {f d i}, s.file f = some d → d.index = some i → (s.info.bitmap i).allocated = true
  same : ∀ {f g d e i}, s.file f = some d → s.file g = some e → d.index = some i → e.index = some i →
    d.alloc = e.alloc
  numbered : ∀ {f d i}, s.file f = some d → d.index = some i → ∃ n, d.alloc = some n
  listed : ∀ f ∈ s.dataList, (s.file f).isSome

theorem Inv.owned (h : Inv s) : Owned s := by
  obtain ⟨head, ht⟩ := h.tidy
  refine ⟨fun hf hi => ?_, fun {f g d e} hf hg _ ho => ?_⟩
  · have ha := h.allocated hf hi
    exact ⟨⟨_, ht.block_iff.mpr ⟨ht.head_of_allocated ha, rfl⟩⟩, ha⟩
  obtain ⟨i, j, k, k', hi, hj, hb, hb', hlt, hlt'⟩ := ho
  obtain ⟨hhi, rfl⟩ := ht.block_iff.mp hb
  obtain ⟨hhj, rfl⟩ := ht.block_iff.mp hb'
  obtain ⟨n, hn⟩ := h.numbered hf hi
  -- blocks that overlap are the same
  have hij : i = j := by
    rcases Nat.lt_trichotomy i j with hl | hl | hl
    · have := ht.blocks.tiling.end_le_of_lt hhi hhj hl
      omega
    · exact hl
    · have := ht.blocks.tiling.end_le_of_lt hhj hhi hl
      omega
  subst hij
  exact ⟨n, hn, (h.same hf hg hi hj).symm.trans hn⟩

theorem setData_file : (setData f d s).file g = if g = f then some d else s.file g := by
  simp [setData, update_apply]

def Data.core (d : Data) : Option Nat × Bool × Option Nat := (d.index, d.connected, d.alloc)

structure Same (s s' : State) : Prop where
  info : s'.info = s.info
  dataList : s'.dataList = s.dataList
  file : ∀ f, (s'.file f).map Data.core = (s.file f).map Data.core

theorem Same.refl : Same s s := ⟨rfl, rfl, fun _ => rfl⟩

theorem Same.trans {s'' : State} (h : Same s s') (h' : Same s' s'') : Same s s'' :=
  ⟨h'.info.trans h.info, h'.dataList.trans h.dataList, fun f => (h'.file f).trans (h.file f)⟩

theorem Same.setData (hd : s.file f = some d) (hc : e.core = d.core) : Same s (setData f e s) := by
  refine ⟨rfl, rfl, fun g => ?_⟩
  rw [setData_file]
  split
  · next h => rw [h, hd, Option.map_some, Option.map_some, hc]
  · rfl

theorem Same.old (h : Same s s') (hd : s'.file f = some d) : ∃ e, s.file f = some e ∧ e.core = d.core := by
  have := h.file f
  rw [hd, Option.map_some] at this
  obtain ⟨e, he, hc⟩ := Option.map_eq_some_iff.mp this.symm
  exact ⟨e, he, hc⟩

theorem Inv.of_same (h : Inv s) (hs : Same s s') : Inv s' := by
  have hindex : ∀ {d e : Data}, e.core = d.core → e.index = d.index ∧ e.alloc = d.alloc := fun hc =>
    ⟨congrArg Prod.fst hc, congrArg (·.2.2) hc⟩
  refine ⟨by rw [hs.info]; exact h.tidy, fun hf hi => ?_, fun hf hg hi hj => ?_, fun hf hi => ?_, fun f hf => ?_⟩
  · obtain ⟨e, he, hc⟩ := hs.old hf
    rw [hs.info]
    exact h.allocated he ((hindex hc).1.trans hi)
  · obtain ⟨d0, hd0, hc⟩ := hs.old hf
    obtain ⟨e0, he0, hc'⟩ := hs.old hg
    rw [← (hindex hc).2, ← (hindex hc').2]
    exact h.same hd0 he0 ((hindex hc).1.trans hi) ((hindex hc').1.trans hj)
  · obtain ⟨e, he, hc⟩ := hs.old hf
    rw [← (hindex hc).2]
    exact h.numbered he ((hindex hc).1.trans hi)
  · rw [hs.dataList] at hf
    have := h.listed f hf
    have hm := congrArg Option.isSome (hs.file f)
    simp only [Option.isSome_map] at hm
    rw [hm]
    exact this

/-! ## The calls -/

theorem Inv.setIndex (h : Inv s) (hi : ∀ i, e.index = some i → (s.info.bitmap i).allocated = true)
    (hn : ∀ i, e.index = some i → ∃ n, e.alloc = some n)
    (hsame : ∀ {g d i}, g ≠ f → s.file g = some d → d.index = some i → e.index = some i → d.alloc = e.alloc) :
    Inv (setData f e s) := by
  refine ⟨h.tidy, fun {g d i} hg hx => ?_, fun {g g' d d' i} hg hg' hx hx' => ?_, fun {g d i} hg hx => ?_, fun g hg => ?_⟩
  · rw [setData_file] at hg
    split at hg
    · cases hg
      exact hi i hx
    · exact h.allocated hg hx
  · rw [setData_file] at hg hg'
    split at hg
    · grind
    rename_i hne
    split at hg'
    · cases hg'
      exact hsame hne hg hx hx'
    · exact h.same hg hg' hx hx'
  · rw [setData_file] at hg
    split at hg
    · cases hg
      exact hn i hx
    · exact h.numbered hg hx
  · rw [setData_file]
    split
    · rfl
    · exact h.listed g hg

theorem Inv.pmemOpen (h : Inv s) (f : FileId) (mem : Bool) : Inv (pmemOpen f mem s).2 := by
  unfold Files.pmemOpen
  split
  · have hs : Inv (setData f newData s) :=
      h.setIndex (fun i hx => by cases hx) (fun i hx => by cases hx) fun _ _ _ hx => by cases hx
    refine { hs with listed := fun g hg => ?_ }
    rcases List.mem_cons.mp hg with rfl | hg
    · show ((setData g _ s).file g).isSome = true
      rw [setData_file, if_pos rfl]
      rfl
    · exact hs.listed g hg
  · exact h

theorem Inv.allocate (h : Inv s) (f : FileId) (d : Data) (len : Nat) :
    ∃ e t, allocate f d len s = .ok (e, t) ∧ Inv t ∧ t.file f = some e := by
  obtain ⟨head, ht⟩ := h.tidy
  obtain ⟨r, info, hx, hbest, hnone, hsome⟩ := pmemAllocate_spec ht len
  have hself : ∀ {e : Data} {u : State}, (setData f e u).file f = some e := by
    intro e u
    rw [setData_file, if_pos rfl]
  simp only [Files.allocate, hx, liftAlloc, ok_bind]
  cases r with
  | none =>
    obtain rfl := hnone rfl
    refine ⟨_, _, rfl, ?_, hself⟩
    exact h.setIndex (fun i hx => by cases hx) (fun i hx => by cases hx) fun _ _ _ hx => by cases hx
  | some b =>
    obtain ⟨_, hm, head', ht'⟩ := hsome b rfl
    -- the new block was free, so no open file has its index
    have hfresh : ∀ {g e i}, s.file g = some e → e.index = some i → i ≠ b := fun hg hx hb => by
      have := h.allocated hg hx
      rw [hb, hbest.2.1] at this
      cases this
    have hs : Inv { s with info := info, allocs := s.allocs + 1 } := by
      refine ⟨⟨head', ht'⟩, fun {g e i} hg hx => ?_, h.same, h.numbered, h.listed⟩
      rw [hm.allocated, if_neg (hfresh hg hx)]
      exact h.allocated hg hx
    refine ⟨_, _, rfl, ?_, hself⟩
    refine hs.setIndex (f := f) (e := { d with index := some b, alloc := some s.allocs }) ?_ ?_ ?_
    · intro i hx
      cases hx
      rw [hm.allocated, if_pos rfl]
    · exact fun i _ => ⟨_, rfl⟩
    · grind

theorem getData_eq (hd : s.file f = some d) : getData f s = .ok d := by rw [getData, hd]

theorem Inv.ioctlAllocate (h : Inv s) (hf : (s.file f).isSome) (len : Nat) :
    ∃ r t, ioctlAllocate f len s = .ok (r, t) ∧ Inv t := by
  obtain ⟨d, hd⟩ := Option.isSome_iff_exists.mp hf
  simp only [Files.ioctlAllocate, getData_eq hd, ok_bind]
  cases hi : d.index with
  | some i => exact ⟨.einval, s, rfl, h⟩
  | none =>
    obtain ⟨e, t, hx, ht, _⟩ := h.allocate f d len
    exact ⟨.ok, t, by simp only [Option.isSome_none, Bool.false_eq_true, if_false, hx, ok_bind], ht⟩

theorem Inv.pmemConnect (h : Inv s) (hf : (s.file f).isSome) {src : Option FileId}
    (hsrc : ∀ g ∈ src, (s.file g).isSome) (connect : Nat) :
    ∃ r t, pmemConnect f connect src s = .ok (r, t) ∧ Inv t := by
  obtain ⟨d, hd⟩ := Option.isSome_iff_exists.mp hf
  simp only [Files.pmemConnect, getData_eq hd, ok_bind]
  cases src with
  | none => exact ⟨.einval, s, rfl, h⟩
  | some g =>
    obtain ⟨e, he⟩ := Option.isSome_iff_exists.mp (hsrc g rfl)
    simp only [getData_eq he, ok_bind]
    split
    · exact ⟨.einval, s, rfl, h⟩
    split
    · exact ⟨.einval, s, rfl, h⟩
    refine ⟨.ok, _, rfl, h.setIndex (fun i hx => h.allocated he hx) (fun i hx => ?_) ?_⟩
    · have := h.numbered he hx
      exact this
    · intro g' d' i _ hg hx hx'
      have := h.same hg he hx hx'
      exact this

theorem Inv.pmemMmap (h : Inv s) (hf : (s.file f).isSome) (pgoff size : Nat) (mapped : Bool) :
    ∃ r t, pmemMmap f pgoff size mapped s = .ok (r, t) ∧ Inv t := by
  obtain ⟨d, hd⟩ := Option.isSome_iff_exists.mp hf
  simp only [Files.pmemMmap, getData_eq hd, ok_bind]
  split
  · exact ⟨_, s, rfl, h⟩
  split
  · exact ⟨_, s, rfl, h⟩
  obtain ⟨e, t, hx, ht, he⟩ : ∃ e t, allocateForMap f d size s = .ok (e, t) ∧ Inv t ∧ t.file f = some e := by
    unfold allocateForMap
    split
    · exact h.allocate f d size
    · exact ⟨d, s, rfl, h, hd⟩
  simp only [hx, ok_bind]
  split
  · exact ⟨_, t, rfl, ht⟩
  split
  · exact ⟨_, t, rfl, ht⟩
  split
  · exact ⟨_, t, rfl, ht⟩
  · split <;> exact ⟨_, _, rfl, ht.of_same (.setData he rfl)⟩

theorem Inv.pmemVmaClose (h : Inv s) (hf : (s.file f).isSome) (same : Bool) :
    ∃ r t, pmemVmaClose f same s = .ok (r, t) ∧ Inv t := by
  obtain ⟨d, hd⟩ := Option.isSome_iff_exists.mp hf
  simp only [Files.pmemVmaClose, getData_eq hd, ok_bind]
  split
  · exact ⟨_, s, rfl, h⟩
  · split
    · exact ⟨_, _, rfl, h.of_same (.setData hd rfl)⟩
    · exact ⟨_, s, rfl, h⟩

theorem Inv.pmemRemap (h : Inv s) (hf : (s.file f).isSome) (region : Region) (op : Operation) (env : RemapEnv) :
    ∃ r t, pmemRemap f region op env s = .ok (r, t) ∧ Inv t := by
  obtain ⟨d, hd⟩ := Option.isSome_iff_exists.mp hf
  simp only [Files.pmemRemap, getData_eq hd, ok_bind]
  split
  · exact ⟨_, s, rfl, h⟩
  split
  · exact ⟨_, s, rfl, h⟩
  split
  · exact ⟨_, s, rfl, h⟩
  split
  · exact ⟨_, s, rfl, h⟩
  split
  · exact ⟨_, s, rfl, h⟩
  cases op with
  | map =>
    simp only
    split
    · exact ⟨_, s, rfl, h⟩
    · exact ⟨_, _, rfl, h.of_same (.setData hd rfl)⟩
  | unmap =>
    simp only
    split
    · exact ⟨_, _, rfl, h.of_same (.setData hd rfl)⟩
    · exact ⟨_, s, rfl, h⟩

theorem pmemRevoke_core {mm : Bool} : (pmemRevoke mm d).core = d.core := by
  unfold pmemRevoke
  simp only
  split <;> rfl

theorem revokeAll_same (list : List FileId) {mm : FileId → Bool} (h : ∀ g ∈ list, (s.file g).isSome) :
    ∃ t, revokeAll f mm list s = .ok t ∧ Same s t := by
  induction list generalizing s with
  | nil => exact ⟨s, rfl, .refl⟩
  | cons g list ih =>
    obtain ⟨d, hd⟩ := Option.isSome_iff_exists.mp (h g (List.mem_cons_self))
    simp only [revokeAll, getData_eq hd, ok_bind]
    split
    · have hs : Same s (setData g (pmemRevoke (mm g) d) s) := .setData hd pmemRevoke_core
      obtain ⟨t, ht, hst⟩ := ih (s := setData g (pmemRevoke (mm g) d) s) fun g' hg' => by
        have := congrArg Option.isSome (hs.file g')
        simp only [Option.isSome_map] at this
        rw [this]
        exact h g' (List.mem_cons_of_mem _ hg')
      exact ⟨t, ht, hs.trans hst⟩
    · exact ih fun g' hg' => h g' (List.mem_cons_of_mem _ hg')

theorem Inv.close (h : Inv s) (f : FileId) :
    Inv { s with dataList := s.dataList.filter (· ≠ f), file := update s.file f none } := by
  have hold : ∀ {g d}, update s.file f none g = some d → s.file g = some d := fun {g d} hg => by
    rw [update_apply] at hg
    split at hg
    · cases hg
    · exact hg
  refine ⟨h.tidy, fun hg => h.allocated (hold hg), fun hg hg' => h.same (hold hg) (hold hg'),
    fun hg => h.numbered (hold hg), fun g hg => ?_⟩
  have hg := List.mem_filter.mp hg
  have hne : g ≠ f := by simpa using hg.2
  show (update s.file f none g).isSome = true
  rw [update_of_ne hne]
  exact h.listed g hg.1

theorem Inv.pmemRelease (h : Inv s) (hf : (s.file f).isSome) {mm : FileId → Bool}
    (hc : (Op.release f mm).Careful s) : ∃ r t, pmemRelease f mm s = .ok (r, t) ∧ Inv t := by
  obtain ⟨d, hd⟩ := Option.isSome_iff_exists.mp hf
  obtain ⟨s1, hx, hs⟩ : ∃ s1, revokeClients f mm d s = .ok s1 ∧ Same s s1 := by
    unfold revokeClients
    split
    · exact revokeAll_same _ h.listed
    · exact ⟨s, rfl, .refl⟩
  have h1 := h.of_same hs
  obtain ⟨d1, hd1⟩ : ∃ d1, s1.file f = some d1 := by
    have := hs.file f
    rw [hd, Option.map_some] at this
    obtain ⟨d1, hd1, _⟩ := Option.map_eq_some_iff.mp this
    exact ⟨d1, hd1⟩
  have hcl := h1.close f
  simp only [Files.pmemRelease, getData_eq hd, ok_bind, hx, getData_eq hd1, freeOwned]
  split
  · exact ⟨_, _, rfl, hcl⟩
  rename_i hcon
  cases hidx : d1.index with
  | none => exact ⟨_, _, rfl, hcl⟩
  | some i =>
    -- the owner frees its block, and no other open file has the index
    obtain ⟨head, ht⟩ := h1.tidy
    obtain ⟨info, hfree, hm, head', ht', -⟩ := pmemFree_spec ht (h1.allocated hd1 hidx)
    simp only [hfree, liftAlloc, ok_bind]
    refine ⟨_, _, rfl, ⟨head', ht'⟩, fun {g e j} hg hj => ?_, hcl.same, hcl.numbered, hcl.listed⟩
    have hg : update s1.file f none g = some e := hg
    have hne : g ≠ f := fun e => by
      rw [e, update_self] at hg
      cases hg
    rw [update_of_ne hne] at hg
    rw [hm.allocated, if_neg]
    · exact h1.allocated hg hj
    intro hji
    obtain ⟨d0, hd0, hc0⟩ := hs.old hd1
    obtain ⟨e0, he0, hc1⟩ := hs.old hg
    have hcon0 : d0.connected = false := by
      rw [show d0.connected = d1.connected from congrArg (·.2.1) hc0]
      simpa using hcon
    refine hc d0 i hd0 hcon0 ((congrArg Prod.fst hc0).trans hidx) g e0 hne he0 ?_
    rw [← hji, ← hj]
    exact congrArg Prod.fst hc1

def carefulMachine (size : Nat) : Machine State Op Ret Bug where
  init := (machine size).init
  enabled s op := op.Permitted s ∧ op.Careful s
  exec := exec

theorem carefulMachine_inductive (hn : size / minAlloc < 2 ^ 31) : (carefulMachine size).Inductive Inv where
  init := by
    rintro s ⟨hs, hf, hl, _⟩
    obtain ⟨s0, hs0, hm⟩ := pmemSetup_made hn
    rw [hs0] at hs
    injection hs with hs
    have hno : ∀ {f d}, s.file f = some d → False := fun {f d} h => by
      rw [hf] at h
      cases h
    refine ⟨⟨_, hs ▸ hm.blocks hn, hs ▸ hm.coalesced, hs ▸ hm.noAllocator⟩, fun h => (hno h).elim,
      fun h => (hno h).elim, fun h => (hno h).elim, fun f h => ?_⟩
    rw [hl] at h
    cases h
  step := by
    rintro s op h ⟨hp, hc⟩
    cases op with
    | open_ f mem => exact ⟨_, _, rfl, h.pmemOpen f mem⟩
    | allocate f len => exact h.ioctlAllocate hp len
    | connect f connect src => exact h.pmemConnect hp.1 hp.2 connect
    | mmap f pgoff size mapped => exact h.pmemMmap hp pgoff size mapped
    | vmaClose f same => exact h.pmemVmaClose hp same
    | remap f region op env => exact h.pmemRemap hp region op env
    | release f mm => exact h.pmemRelease hp hc

/-- If no owner is released while its index is in use, files overlap only within one allocation. -/
theorem careful_files_owned (hn : size / minAlloc < 2 ^ 31) (h : (carefulMachine size).Reachable s) : Owned s :=
  ((carefulMachine_inductive hn).reachable h).owned

def noFiles : State where
  info := sevenPages.info
  file _ := none
  dataList := []
  allocs := 0

theorem connected_closes_first : ∃ s, (carefulMachine (7 * 4096)).Reachable s ∧ Owned s ∧
    (s.file 0).isSome ∧ s.file 1 = none := by
  have h0 : (carefulMachine (7 * 4096)).Reachable noFiles := .init ⟨rfl, rfl, rfl, rfl⟩
  have h1 := h0.step (l := Op.open_ 0 true) ⟨rfl, trivial⟩ rfl
  have h2 := h1.step (l := Op.allocate 0 4096) ⟨rfl, trivial⟩ rfl
  have h3 := h2.step (l := Op.open_ 1 true) ⟨rfl, trivial⟩ rfl
  have h4 := h3.step (l := Op.connect 1 5 (some 0)) ⟨by decide, trivial⟩ rfl
  have h5 := h4.step (l := Op.release 1 fun _ => false) ⟨rfl, fun d i hd hc => by cases hd; cases hc⟩ rfl
  exact ⟨_, h5, careful_files_owned (by decide) h5, rfl, rfl⟩

def masterFirst : List Op :=
  [.open_ 0 true, .allocate 0 4096, .open_ 1 true, .connect 1 5 (some 0), .release 0 fun _ => false]

/-- The block of the connected file is free, and goes to a third file. -/
theorem master_closes_first : (∃ es s, (machine (7 * 4096)).Run noFiles es s ∧ ¬ Owned s) ∧
    ∃ es s, (machine (7 * 4096)).Run noFiles es s ∧ ∃ d e, s.file 1 = some d ∧ s.file 2 = some e ∧
      d.index = some 6 ∧ e.index = some 6 ∧ d.alloc ≠ e.alloc := by
  have h : (machine (7 * 4096)).Run noFiles _ _ := Machine.run_of_execList masterFirst rfl
  have h' : (machine (7 * 4096)).Run noFiles _ _ :=
    Machine.run_of_execList (masterFirst ++ [.open_ 2 true, .allocate 2 4096]) rfl
  refine ⟨⟨_, _, h, fun ho => ?_⟩, _, _, h', _, _, rfl, rfl, rfl, rfl, by decide⟩
  have := (ho.allocated (f := 1) rfl rfl).2
  exact absurd this (by decide)

end G3Mod.Pmem.Files
