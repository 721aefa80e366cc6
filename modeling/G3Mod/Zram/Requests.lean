import G3Mod.Zram.Theorems

/-!
# Requests to the disk

`zram_make_request` looks at the start of a request only.
-/

namespace G3Mod.Zram

open Function Lib

/-! ## Requests -/

def sectorShift : Nat := 9

def sectorsPerPageShift : Nat := 3

def sectorsPerPage : Nat := 2 ^ sectorsPerPageShift

structure Bio where
  sector : Nat
  size : Nat
  deriving DecidableEq, Repr

/-- The pages of the segments of a `struct bio`, and its direction; of a write, what the allocators do for each page. -/
inductive Transfer where
  | read (olds : List Page)
  | write (segs : List (Page × Supply)) (outcome : InitOutcome) (totalramBytes : Nat)

def Transfer.count : Transfer → Nat
  | .read olds => olds.length
  | .write segs _ _ => segs.length

def Bio.first (bio : Bio) : Nat := bio.sector / 2 ^ sectorsPerPageShift

def Bio.pages (bio : Bio) : Nat := bio.size / pageSize

def validIoRequest (disksize : Nat) (bio : Bio) : Bool :=
  !(disksize / 2 ^ sectorShift ≤ bio.sector || bio.sector % sectorsPerPage != 0 || bio.size % pageSize != 0)

inductive Reply where
  | read (pages : Option (List Page))
  | write (stored : Nat) (ok : Bool)
  | invalid

def zramMakeRequest (lzo : Lzo) (bio : Bio) (transfer : Transfer) (s : Zram) : Except Bug (Reply × Zram) :=
  if validIoRequest s.disksize bio then
    match transfer with
    | .read olds => do
        let (pages, s) ← zramRead lzo bio.first olds s
        .ok (.read pages, s)
    | .write segs outcome totalram => do
        let ((stored, ok), s) ← zramWrite lzo bio.first segs outcome totalram s
        .ok (.write stored ok, s)
  else .ok (.invalid, s)

/-! ## The entries of the table that are used -/

def readIndices (lzo : Lzo) (s : Zram) : List Page → Nat → List Nat
  | [], _ => []
  | old :: olds, index => index ::
      match readPage lzo index old s with
      | .ok (true, _) => readIndices lzo s olds (index + 1)
      | _ => []

def writeIndices (lzo : Lzo) : List (Page × Supply) → Nat → Zram → List Nat
  | [], _, _ => []
  | (p, sup) :: segs, index, s => index ::
      match storePage lzo sup index p s with
      | .ok (true, s) => writeIndices lzo segs (index + 1) s
      | _ => []

def usedIndices (lzo : Lzo) (bio : Bio) (transfer : Transfer) (s : Zram) : List Nat :=
  if validIoRequest s.disksize bio then
    match transfer with
    | .read olds => if s.initDone then readIndices lzo s olds bio.first else []
    | .write segs outcome totalram =>
      match zramReady outcome totalram s with
      | .ok (true, s) => writeIndices lzo segs bio.first (countWrite s)
      | _ => []
  else []

section

variable {lzo : Lzo} {s s' s₀ t : Zram} {bio : Bio} {transfer : Transfer} {segs : List (Page × Supply)}
  {old p : Page} {olds : List Page} {sup : Supply} {ok : Bool} {index i k m : Nat}

theorem dropPage_table {clen : Nat} {e : Entry} (h : dropPage index clen e s = .ok s') (hi : i ≠ index) :
    s'.table i = s.table i := by
  obtain ⟨_, _, h⟩ := bind_ok h
  obtain ⟨_, _, h⟩ := bind_ok h
  cases h
  exact update_of_ne hi _ _

theorem free_table {a : Address} {whole : Bool} (h : free a whole s = .ok s') : s'.table = s.table := by
  unfold free at h
  split at h
  · split at h
    · cases h
      rfl
    · cases h
  · cases h

theorem zramFreePage_table (h : zramFreePage index s = .ok s') (hi : i ≠ index) : s'.table i = s.table i := by
  unfold zramFreePage at h
  dsimp only at h
  split at h
  · split at h
    · obtain ⟨_, _, h⟩ := bind_ok h
      cases h
      exact update_of_ne hi _ _
    · cases h
      rfl
  split at h
  · obtain ⟨s1, hfree, h⟩ := bind_ok h
    obtain ⟨_, _, h⟩ := bind_ok h
    exact (dropPage_table h hi).trans (congrFun (free_table hfree) i)
  obtain ⟨_, _, h⟩ := bind_ok h
  obtain ⟨s1, hfree, h⟩ := bind_ok h
  have htable := congrFun (free_table hfree) i
  split at h
  · obtain ⟨_, _, h⟩ := bind_ok h
    exact (dropPage_table h hi).trans htable
  · exact (dropPage_table h hi).trans htable

theorem storeNew_table (hi : i ≠ index) : (storeNew lzo sup index p s).2.table i = s.table i := by
  unfold storeNew
  split
  · exact update_of_ne hi _ _
  split
  · rfl
  split
  · split
    · rfl
    · exact update_of_ne hi _ _
  · split
    · exact update_of_ne hi _ _
    · exact update_of_ne hi _ _

theorem storePage_table (h : storePage lzo sup index p s = .ok (ok, s')) (hi : i ≠ index) : s'.table i = s.table i := by
  obtain ⟨s1, hfree, h⟩ := bind_ok h
  have hs' : (storeNew lzo sup index p { s1 with mem := sup.mem }).2 = s' := congrArg Prod.snd (Except.ok.inj h)
  rw [← hs', storeNew_table hi]
  show s1.table i = s.table i
  unfold freeOld at hfree
  split at hfree
  · exact zramFreePage_table hfree hi
  · cases hfree
    rfl

theorem writeLoop_table {r : Nat × Bool} (h : writeLoop lzo segs index k s = .ok (r, s'))
    (hi : i ∉ writeIndices lzo segs index s) : s'.table i = s.table i := by
  induction segs generalizing index k s with
  | nil =>
    cases h
    rfl
  | cons seg segs ih =>
    obtain ⟨⟨ok, s1⟩, hstore, h⟩ := bind_ok h
    rw [writeIndices, hstore] at hi
    have hne : i ≠ index := fun heq => hi (heq ▸ List.mem_cons_self)
    have hfirst := storePage_table hstore hne
    cases ok with
    | false =>
      cases h
      exact hfirst
    | true => exact (ih h fun hm => hi (List.mem_cons_of_mem _ hm)).trans hfirst

theorem mem_readIndices (h : i ∈ readIndices lzo s olds index) : index ≤ i ∧ i < index + olds.length := by
  induction olds generalizing index with
  | nil => cases h
  | cons old olds ih =>
    rw [List.length_cons]
    rcases List.mem_cons.mp h with rfl | h
    · omega
    split at h
    · have := ih h
      omega
    · cases h

theorem mem_writeIndices (h : i ∈ writeIndices lzo segs index s) : index ≤ i ∧ i < index + segs.length := by
  induction segs generalizing index s with
  | nil => cases h
  | cons seg segs ih =>
    rw [List.length_cons]
    rcases List.mem_cons.mp h with rfl | h
    · omega
    split at h
    · have := ih h
      omega
    · cases h

theorem mem_usedIndices (h : i ∈ usedIndices lzo bio transfer s) : i < bio.first + transfer.count := by
  unfold usedIndices at h
  split at h
  · split at h
    · split at h
      · exact (mem_readIndices h).2
      · cases h
    · split at h
      · exact (mem_writeIndices h).2
      · cases h
  · cases h

theorem mem_readIndices_empty (hs : s.table = fun _ => emptyEntry) (h : m < olds.length) :
    index + m ∈ readIndices lzo s olds index := by
  induction olds generalizing index m with
  | nil => exact absurd h (Nat.not_lt_zero _)
  | cons old olds ih =>
    have hread : readPage lzo index old s = .ok (true, old) := by
      simp only [readPage, hs, emptyEntry, Bool.false_eq_true, if_false]
    rw [readIndices, hread]
    cases m with
    | zero => exact List.mem_cons_self
    | succ m =>
      refine List.mem_cons_of_mem _ ?_
      rw [show index + (m + 1) = index + 1 + m by omega]
      exact ih (Nat.lt_of_succ_lt_succ h)

end

def blankDisk (disksize : Nat) : Zram := { twoPages with disksize := disksize, initDone := true }

theorem validIoRequest_bounds {disksize : Nat} {bio : Bio} (h : validIoRequest disksize bio = true) :
    bio.sector < disksize / 2 ^ sectorShift ∧ bio.size % pageSize = 0 := by
  simp only [validIoRequest, Bool.not_eq_true', Bool.or_eq_false_iff, decide_eq_false_iff_not,
    bne_eq_false_iff_eq] at h
  exact ⟨Nat.lt_of_not_le h.1.1, h.2⟩

/-- An accepted request stays within the table, whatever the device holds and whichever way it goes, iff it ends on the
disk. -/
theorem accepted_in_table_iff {disksize : Nat} {bio : Bio} (hvalid : validIoRequest disksize bio = true) :
    (∀ lzo s transfer, s.disksize = disksize → transfer.count * pageSize = bio.size →
      ∀ i ∈ usedIndices lzo bio transfer s, i < disksize / pageSize) ↔
      bio.first + bio.pages ≤ disksize / pageSize := by
  have hpages : ∀ {transfer : Transfer}, transfer.count * pageSize = bio.size → transfer.count = bio.pages := by
    intro transfer hc
    rw [Bio.pages, ← hc]
    exact (Nat.mul_div_cancel _ (by decide)).symm
  constructor
  · intro h
    obtain ⟨hsector, hsize⟩ := validIoRequest_bounds hvalid
    by_contra hout
    have hpos : 0 < bio.pages := by
      -- a request without pages starts on the disk, and does not end behind it
      unfold Bio.first sectorsPerPageShift pageSize at hout
      unfold sectorShift at hsector
      omega
    let olds := List.replicate bio.pages zeroPage
    have hcount : (Transfer.read olds).count * pageSize = bio.size := by
      show olds.length * pageSize = bio.size
      rw [List.length_replicate]
      exact Nat.div_mul_cancel (Nat.dvd_of_mod_eq_zero hsize)
    have := h plainLzo (blankDisk disksize) (.read olds) rfl hcount (bio.first + (bio.pages - 1)) (by
      rw [usedIndices, if_pos (show validIoRequest (blankDisk disksize).disksize bio = true from hvalid)]
      exact mem_readIndices_empty rfl (by rw [List.length_replicate]; omega))
    omega
  · intro hfit lzo s transfer _ hcount i hi
    have := mem_usedIndices hi
    rw [hpages hcount] at this
    omega

theorem last_page_in_table : validIoRequest (blankDisk 8192).disksize ⟨8, 4096⟩ = true ∧
    ∀ i ∈ usedIndices plainLzo ⟨8, 4096⟩ (.read [zeroPage]) (blankDisk 8192), i < 2 :=
  ⟨by decide, (accepted_in_table_iff (by decide : validIoRequest 8192 ⟨8, 4096⟩ = true)).mpr (by decide) _ _ _ rfl rfl⟩

/-- Two pages from the last one on. -/
theorem accepted_behind_table : validIoRequest (blankDisk 8192).disksize ⟨8, 8192⟩ = true ∧
    2 ∈ usedIndices plainLzo ⟨8, 8192⟩ (.read [zeroPage, zeroPage]) (blankDisk 8192) ∧
      (blankDisk 8192).disksize / pageSize = 2 := by
  refine ⟨by decide, ?_, by decide⟩
  have h : 1 + 1 ∈ readIndices plainLzo (blankDisk 8192) [zeroPage, zeroPage] 1 := mem_readIndices_empty rfl (by decide)
  exact h

/-! ## What a read leaves in the pages -/

def ReadDetermined (lzo : Lzo) (s : Zram) (first count : Nat) : Prop :=
  ∀ olds olds' pages pages' t t', olds.length = count → olds'.length = count →
    zramRead lzo first olds s = .ok (some pages, t) → zramRead lzo first olds' s = .ok (some pages', t') → pages = pages'

def Entry.Filled (e : Entry) : Prop := e.zero = true ∨ e.page.isSome = true

instance {e : Entry} : Decidable e.Filled := inferInstanceAs (Decidable (_ ∨ _))

theorem Tracks.filled_iff {lzo : Lzo} {s : Zram} {wr : Nat → Option Page} (h : Tracks lzo s wr) (i : Nat) :
    (s.table i).Filled ↔ (wr i).isSome = true := by
  have hholds := h.inv.heap.holds i
  rw [comp_apply] at hholds
  cases hw : wr i with
  | none =>
    rw [hw] at hholds
    obtain ⟨hp, hz, _⟩ := hholds
    simp [Entry.Filled, hp, hz]
  | some p =>
    simp only [hw, rep] at hholds
    simp only [Entry.Filled, Option.isSome_some, iff_true]
    split at hholds
    · exact .inl hholds.2.1
    split at hholds
    · obtain ⟨_, _, _, page, hp, _⟩ := hholds
      exact .inr (by rw [hp]; rfl)
    split at hholds <;>
    · obtain ⟨_, _, _, page, hp, _⟩ := hholds
      exact .inr (by rw [hp]; rfl)

theorem Tracks.zramRead {lzo : Lzo} {s : Zram} {wr : Nat → Option Page} (hlzo : lzo.Inverts) (h : Tracks lzo s wr)
    (first : Nat) (olds : List Page) :
    ∃ t, zramRead lzo first olds s = .ok (some (olds.mapIdx fun k old => (wr (first + k)).getD old), t) := by
  obtain ⟨t, ht, _⟩ := h.read hlzo first olds
  obtain ⟨⟨pages, t'⟩, hread, ht⟩ := bind_ok ht
  cases ht
  exact ⟨_, hread⟩

theorem zeroPage_ne_onesPage : zeroPage ≠ Vector.replicate pageSize 1 := by
  intro h
  have := congrArg (fun p : Page => p[0]) h
  simp [zeroPage] at this

/-- What successful reads leave in the pages depends on the device alone iff there is something in every slot. -/
theorem read_determined_iff {lzo : Lzo} {s : Zram} (hlzo : lzo.Inverts) (h : (machine lzo).Reachable s)
    (first count : Nat) :
    ReadDetermined lzo s first count ↔ ∀ k < count, (s.table (first + k)).Filled := by
  obtain ⟨s₀, es, h0, hrun⟩ := h
  have htracks := tracks_run hlzo h0 hrun
  constructor
  · intro hdet k hk
    rw [htracks.filled_iff]
    by_contra hnone
    rw [Bool.not_eq_true, Option.isSome_eq_false_iff, Option.isNone_iff_eq_none] at hnone
    obtain ⟨t, ht⟩ := htracks.zramRead hlzo first (List.replicate count zeroPage)
    obtain ⟨t', ht'⟩ := htracks.zramRead hlzo first (List.replicate count (Vector.replicate pageSize 1))
    have heq := hdet _ _ _ _ t t' List.length_replicate List.length_replicate ht ht'
    have hk' := congrArg (fun pages : List Page => pages[k]?) heq
    simp only [List.getElem?_mapIdx, List.getElem?_replicate, hk, if_true, Option.map_some, hnone, Option.getD_none,
      Option.some_inj] at hk'
    exact zeroPage_ne_onesPage hk'
  · intro hfilled olds olds' pages pages' t t' hlen hlen' hx hx'
    obtain ⟨t1, ht1⟩ := htracks.zramRead hlzo first olds
    obtain ⟨t2, ht2⟩ := htracks.zramRead hlzo first olds'
    rw [ht1] at hx
    rw [ht2] at hx'
    cases hx
    cases hx'
    apply List.ext_getElem
    · rw [List.length_mapIdx, List.length_mapIdx, hlen, hlen']
    intro k hk _
    rw [List.length_mapIdx, hlen] at hk
    obtain ⟨p, hp⟩ := Option.isSome_iff_exists.mp ((htracks.filled_iff _).mp (hfilled k hk))
    rw [List.getElem_mapIdx, List.getElem_mapIdx, hp, Option.getD_some, Option.getD_some]

theorem zero_page_determined : ReadDetermined plainLzo zeroWritten 0 1 :=
  (read_determined_iff plainLzo_inverts ⟨twoPages, _, twoPages_init, zeroWrite_run⟩ 0 1).mpr (by decide)

/-- The second page has not been written. -/
theorem unwritten_page_leaks : (machine plainLzo).Reachable zeroWritten ∧
    zramRead plainLzo 1 [zeroPage] zeroWritten =
      .ok (some [zeroPage], { zeroWritten with stats := { zeroWritten.stats with numReads := 1 } }) ∧
    zramRead plainLzo 1 [Vector.replicate pageSize 1] zeroWritten =
      .ok (some [Vector.replicate pageSize 1], { zeroWritten with stats := { zeroWritten.stats with numReads := 1 } }) ∧
    zeroPage ≠ Vector.replicate pageSize 1 :=
  ⟨⟨twoPages, _, twoPages_init, zeroWrite_run⟩, rfl, rfl, zeroPage_ne_onesPage⟩

end G3Mod.Zram
