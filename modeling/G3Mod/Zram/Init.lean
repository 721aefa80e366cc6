import G3Mod.Zram.Theorems

/-!
# Failing initialization

`zram_init_device` cleans up through `zram_reset_device`, which frees the pages that the table refers to.
-/

namespace G3Mod.Zram

open Function Lib

structure Device where
  zram : Zram
  compressWorkmem : Bool
  compressBuffer : Bool
  table : Bool
  memPool : Bool

inductive ResetBug where
  | nullTable
  | nullPool
  | heap (b : Bug)
  deriving DecidableEq, Repr

def freeObject (a : Address) (whole : Bool) (d : Device) : Except ResetBug Device :=
  match free a whole d.zram with
  | .ok s => .ok { d with zram := s }
  | .error b => .error (.heap b)

def resetEntry (index : Nat) (d : Device) : Except ResetBug Device :=
  if d.table then
    let e := d.zram.table index
    match e.page with
    | none => .ok d
    | some page =>
      if e.uncompressed then freeObject (page, 0) true d
      else if d.memPool then freeObject (page, e.offset) false d
      else .error .nullPool
  else .error .nullTable

/-- The loop of `zram_reset_device`, over `n` entries from `index` on. -/
def resetLoop : Nat → Nat → Device → Except ResetBug Device
  | 0, _, d => .ok d
  | n + 1, index, d => do
      let d ← resetEntry index d
      resetLoop n (index + 1) d

def freeBuffers (d : Device) : Device :=
  { d with zram := { d.zram with initDone := false }, compressWorkmem := false, compressBuffer := false }

def zramResetDevice (d : Device) : Except ResetBug Device := do
  let d ← resetLoop d.zram.numPages 0 (freeBuffers d)
  .ok { d with zram := resetEmpty d.zram, table := false, memPool := false }

def failInit (d : Device) : Except ResetBug (Bool × Device) := do
  let d ← zramResetDevice d
  .ok (false, d)

def setDisksize (totalramBytes : Nat) (d : Device) : Device :=
  { d with zram := { d.zram with disksize := zramSetDisksize totalramBytes d.zram.disksize } }

def initDevice (outcome : InitOutcome) (totalramBytes : Nat) (d : Device) : Except ResetBug (Bool × Device) :=
  if d.zram.initDone then .ok (true, d)
  else
    let d := setDisksize totalramBytes d
    if outcome = .noWorkmem then failInit { d with compressWorkmem := false }
    else
      let d := { d with compressWorkmem := true }
      if outcome = .noBuffer then failInit { d with compressBuffer := false }
      else
        let d := { d with compressBuffer := true }
        if outcome = .noTable then failInit { d with table := false, zram := { d.zram with disksize := 0 } }
        else
          let d := { d with table := true, zram := { d.zram with table := fun _ => emptyEntry } }
          if outcome = .noPool then failInit { d with memPool := false }
          else .ok (true, { d with memPool := true, zram := { d.zram with initDone := true } })

structure Device.Blank (d : Device) : Prop where
  initDone : d.zram.initDone = false
  workmem : d.compressWorkmem = false
  buffer : d.compressBuffer = false
  table : d.table = false
  pool : d.memPool = false

def CleanFailure (r : Except ResetBug (Bool × Device)) : Prop :=
  ∃ d, r = .ok (false, d) ∧ d.Blank ∧ d.zram.disksize = 0

variable {d d' : Device} {outcome : InitOutcome} {ram n index : Nat}

/-! ## The loop -/

theorem resetLoop_empty (n index : Nat) (ht : d.table = true) (he : d.zram.table = fun _ => emptyEntry) :
    resetLoop n index d = .ok d := by
  induction n generalizing index with
  | zero => rfl
  | succ n ih =>
    have hentry : resetEntry index d = .ok d := by
      simp only [resetEntry, ht, if_true, he, emptyEntry]
    rw [resetLoop, hentry, ok_bind, ih]

theorem resetLoop_null (index : Nat) (ht : d.table = false) (hn : n ≠ 0) : resetLoop n index d = .error .nullTable := by
  obtain ⟨n, rfl⟩ := Nat.exists_eq_succ_of_ne_zero hn
  have hentry : resetEntry index d = .error .nullTable := by
    simp only [resetEntry, ht, Bool.false_eq_true, if_false]
  rw [resetLoop, hentry]
  rfl

theorem freeObject_buffers {a : Address} {whole : Bool} (h : freeObject a whole d = .ok d') :
    d'.compressWorkmem = d.compressWorkmem ∧ d'.compressBuffer = d.compressBuffer := by
  unfold freeObject at h
  split at h
  · cases h
    exact ⟨rfl, rfl⟩
  · cases h

theorem resetEntry_buffers (h : resetEntry index d = .ok d') :
    d'.compressWorkmem = d.compressWorkmem ∧ d'.compressBuffer = d.compressBuffer := by
  simp only [resetEntry] at h
  split at h
  · split at h
    · cases h
      exact ⟨rfl, rfl⟩
    split at h
    · exact freeObject_buffers h
    · split at h
      · exact freeObject_buffers h
      · cases h
  · cases h

theorem resetLoop_buffers (h : resetLoop n index d = .ok d') :
    d'.compressWorkmem = d.compressWorkmem ∧ d'.compressBuffer = d.compressBuffer := by
  induction n generalizing index d with
  | zero =>
    cases h
    exact ⟨rfl, rfl⟩
  | succ n ih =>
    obtain ⟨d1, hentry, h⟩ := bind_ok h
    obtain ⟨hw, hb⟩ := resetEntry_buffers hentry
    obtain ⟨hw', hb'⟩ := ih h
    exact ⟨hw'.trans hw, hb'.trans hb⟩

theorem zramResetDevice_blank (h : zramResetDevice d = .ok d') : d'.Blank ∧ d'.zram.disksize = 0 := by
  obtain ⟨d1, hloop, h⟩ := bind_ok h
  cases h
  obtain ⟨hw, hb⟩ := resetLoop_buffers hloop
  exact ⟨⟨rfl, hw, hb, rfl, rfl⟩, rfl⟩

def cleared (d : Device) : Device := ⟨resetEmpty d.zram, false, false, false, false⟩

theorem cleared_blank (d : Device) : (cleared d).Blank := ⟨rfl, rfl, rfl, rfl, rfl⟩

theorem failInit_empty (ht : d.table = true) (he : d.zram.table = fun _ => emptyEntry) :
    failInit d = .ok (false, cleared d) := by
  have hloop : resetLoop d.zram.numPages 0 (freeBuffers d) = .ok (freeBuffers d) := resetLoop_empty _ 0 ht he
  rw [failInit, zramResetDevice, hloop, ok_bind, ok_bind]
  rfl

theorem failInit_null (ht : d.table = false) :
    failInit d = if d.zram.numPages = 0 then .ok (false, cleared d) else .error .nullTable := by
  rw [failInit, zramResetDevice]
  split
  next hn =>
    rw [hn, resetLoop, ok_bind, ok_bind]
    rfl
  rename_i hn
  have hloop : resetLoop d.zram.numPages 0 (freeBuffers d) = .error .nullTable := resetLoop_null 0 ht hn
  rw [hloop]
  rfl

theorem initDevice_eq (h : d.Blank) : initDevice outcome ram d =
    match outcome with
    | .ok => .ok (true,
        ⟨{ (setDisksize ram d).zram with initDone := true, table := fun _ => emptyEntry }, true, true, true, true⟩)
    | .noWorkmem | .noBuffer =>
      if (setDisksize ram d).zram.numPages = 0 then .ok (false, cleared d) else .error .nullTable
    | .noTable | .noPool => .ok (false, cleared d) := by
  rw [initDevice, if_neg (by rw [h.initDone]; decide)]
  cases outcome with
  | ok => rfl
  | noWorkmem | noBuffer => exact failInit_null h.table
  | noTable =>
    refine Eq.trans (failInit_null ?_) ?_
    · rfl
    · exact if_pos (Nat.zero_div _)
  | noPool => exact failInit_empty rfl rfl

theorem initDevice_refines (h : d.Blank) (outcome : InitOutcome) (ram : Nat) :
    (zramReady outcome ram d.zram = .error .nullTable ∧ initDevice outcome ram d = .error .nullTable) ∨
      ∃ ok d', zramReady outcome ram d.zram = .ok (ok, d'.zram) ∧ initDevice outcome ram d = .ok (ok, d') := by
  rw [zramReady, if_neg (by rw [h.initDone]; decide), initDevice_eq h]
  have hsmall : (if (setDisksize ram d).zram.numPages = 0 then .ok (false, resetEmpty d.zram) else .error Bug.nullTable) =
      zramInitDevice .noBuffer ram d.zram := rfl
  cases outcome with
  | ok | noTable | noPool => exact .inr ⟨_, _, rfl, rfl⟩
  | noWorkmem =>
    rw [show zramInitDevice .noWorkmem ram d.zram = zramInitDevice .noBuffer ram d.zram from rfl, ← hsmall]
    split
    · exact .inr ⟨_, _, rfl, rfl⟩
    · exact .inl ⟨rfl, rfl⟩
  | noBuffer =>
    rw [← hsmall]
    split
    · exact .inr ⟨_, _, rfl, rfl⟩
    · exact .inl ⟨rfl, rfl⟩

inductive DeviceOp where
  | store (disksize : Nat)
  | init (outcome : InitOutcome) (totalramBytes : Nat)
  /-- requests, after which the pages and the statistics are those of `s` -/
  | use (s : Zram)
  | reset

def DeviceOp.Permitted (d : Device) : DeviceOp → Prop
  | .store _ => d.zram.initDone = false
  | .use s => d.zram.initDone = true ∧ s.initDone = true
  | _ => True

def deviceMachine : Machine Device DeviceOp Bool ResetBug where
  init := Device.Blank
  enabled d op := op.Permitted d
  exec d
    | .store disksize => .ok (true, { d with zram := { d.zram with disksize := pageMask disksize } })
    | .init outcome ram => initDevice outcome ram d
    | .use s => .ok (true, { d with zram := s })
    | .reset => do
        let d ← zramResetDevice d
        .ok (true, d)

theorem initDevice_ok {ok : Bool} (h : initDevice outcome ram d = .ok (ok, d')) : d'.zram.initDone = true ∨ d'.Blank := by
  have hfail : ∀ {d1}, failInit d1 = .ok (ok, d') → d'.Blank := fun h => by
    obtain ⟨d2, hreset, h⟩ := bind_ok h
    cases h
    exact (zramResetDevice_blank hreset).1
  simp only [initDevice] at h
  split at h
  next hinit =>
    cases h
    exact .inl hinit
  split at h
  · exact .inr (hfail h)
  split at h
  · exact .inr (hfail h)
  split at h
  · exact .inr (hfail h)
  split at h
  · exact .inr (hfail h)
  · cases h
    exact .inl rfl

theorem blank_of_reachable (h : deviceMachine.Reachable d) : d.zram.initDone = false → d.Blank := by
  refine h.invariant (I := fun d => d.zram.initDone = false → d.Blank) (fun h _ => h) ?_
  intro d op ok d' hd hp hx
  cases op with
  | store n =>
    cases hx
    have hblank := hd hp
    exact fun _ => ⟨hp, hblank.workmem, hblank.buffer, hblank.table, hblank.pool⟩
  | init outcome ram =>
    intro hn
    rcases initDevice_ok hx with hinit | hblank
    · exact absurd (hn.symm.trans hinit) (by decide)
    · exact hblank
  | use s =>
    cases hx
    exact fun hn => absurd (hn.symm.trans hp.2) (by decide)
  | reset =>
    obtain ⟨d1, hreset, hx⟩ := bind_ok hx
    cases hx
    exact fun _ => (zramResetDevice_blank hreset).1

/-- A failure is clean exactly when it was the table or the pool, or the disk has less than a page. -/
theorem init_failure_clean_iff (h : deviceMachine.Reachable d) (hinit : d.zram.initDone = false)
    (hfail : outcome ≠ .ok) : CleanFailure (initDevice outcome ram d) ↔
      outcome = .noTable ∨ outcome = .noPool ∨ zramSetDisksize ram d.zram.disksize < pageSize := by
  rw [initDevice_eq (blank_of_reachable h hinit)]
  have hclean : CleanFailure (.ok (false, cleared d)) := ⟨_, rfl, cleared_blank d, rfl⟩
  have hbug : ¬ CleanFailure (.error .nullTable) := fun ⟨_, h, _⟩ => by cases h
  have hsmall : (setDisksize ram d).zram.numPages = 0 ↔ zramSetDisksize ram d.zram.disksize < pageSize :=
    Nat.div_eq_zero_iff_lt (by decide)
  cases outcome with
  | ok => exact absurd rfl hfail
  | noTable => exact ⟨fun _ => .inl rfl, fun _ => hclean⟩
  | noPool => exact ⟨fun _ => .inr (.inl rfl), fun _ => hclean⟩
  | noWorkmem | noBuffer =>
    simp only [reduceCtorEq, false_or, ← hsmall]
    split
    · next hn => exact ⟨fun _ => hn, fun _ => hclean⟩
    · next hn => exact ⟨fun hc => absurd hc hbug, fun h => absurd h hn⟩

def newDevice : Device := ⟨twoPages, false, false, false, false⟩

theorem newDevice_reachable : deviceMachine.Reachable newDevice := .init ⟨rfl, rfl, rfl, rfl, rfl⟩

theorem no_pool_clean : CleanFailure (initDevice .noPool 0 newDevice) :=
  (init_failure_clean_iff newDevice_reachable rfl (by decide)).mpr (.inr (.inl rfl))

/-- Without memory for the compressor, `zram_reset_device` reads the first entry of a table that does not exist. -/
theorem no_workmem_null_table : deviceMachine.Reachable newDevice ∧
    initDevice .noWorkmem 0 newDevice = .error .nullTable ∧ initDevice .noBuffer 0 newDevice = .error .nullTable :=
  ⟨newDevice_reachable, rfl, rfl⟩

end G3Mod.Zram
