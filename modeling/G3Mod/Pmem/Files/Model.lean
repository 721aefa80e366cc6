import G3Mod.Pmem.Model

/-!
# The files of a pmem device

`struct pmem_data` of the open files of one device, and the calls that change it, one after the other. What the kernel
does outside the driver is given with the call: the file behind a descriptor, whether the mm of a task still exists,
whether memory or page table entries can be had.
-/

namespace G3Mod.Pmem.Files

abbrev FileId := Nat

structure Region where
  offset : Nat
  len : Nat
  deriving DecidableEq, Repr

/-- `struct pmem_data`, and the number of the allocation that `index` was taken from. -/
structure Data where
  index : Option Nat
  connected : Bool
  masterMap : Bool
  submap : Bool
  unsubmap : Bool
  vma : Bool
  task : Bool
  masterFd : Nat
  masterFile : Option FileId
  regionList : List Region
  alloc : Option Nat
  deriving DecidableEq, Repr

/-- The device, its open files with `data_list`, and the number of allocations so far. -/
structure State where
  info : Info
  file : FileId → Option Data
  dataList : List FileId
  allocs : Nat

inductive Bug where
  | alloc (e : Pmem.Bug)
  | notOpen (f : FileId)
  deriving DecidableEq, Repr

inductive Ret where
  | ok
  | failed
  | einval
  | eagain
  | enomem
  deriving DecidableEq, Repr

def getData (f : FileId) (s : State) : Except Bug Data :=
  match s.file f with
  | none => .error (.notOpen f)
  | some d => .ok d

def setData (f : FileId) (d : Data) (s : State) : State :=
  { s with file := Function.update s.file f (some d) }

def liftAlloc {A : Type} : Except Pmem.Bug A → Except Bug A
  | .error e => .error (.alloc e)
  | .ok a => .ok a

def Data.isSubmap (d : Data) : Bool := d.submap && !d.unsubmap

/-- `pmem_len` of a file with an allocation, on a device with an allocator. -/
def Data.len (d : Data) (s : State) : Nat :=
  match d.index with
  | none => 0
  | some i => pmemLen (s.info.bitmap i).order

def pageAligned (n : Nat) : Prop := n % 4096 = 0

instance {n : Nat} : Decidable (pageAligned n) := inferInstanceAs (Decidable (_ = _))

/-! ## `pmem_open`, `PMEM_ALLOCATE` and `PMEM_CONNECT` -/

def newData : Data where
  index := none
  connected := false
  masterMap := false
  submap := false
  unsubmap := false
  vma := false
  task := false
  masterFd := 0
  masterFile := none
  regionList := []
  alloc := none

/-- `pmem_open`. `mem` says whether `kmalloc` succeeds. -/
def pmemOpen (f : FileId) (mem : Bool) (s : State) : Ret × State :=
  if mem then (.ok, { setData f newData s with dataList := f :: s.dataList }) else (.failed, s)

def allocate (f : FileId) (d : Data) (len : Nat) (s : State) : Except Bug (Data × State) := do
  let (r, info) ← liftAlloc (pmemAllocate len s.info)
  let s := { s with info := info }
  match r with
  | none => .ok ({ d with index := none }, setData f { d with index := none } s)
  | some i =>
    let d := { d with index := some i, alloc := some s.allocs }
    .ok (d, { setData f d s with allocs := s.allocs + 1 })

def ioctlAllocate (f : FileId) (len : Nat) (s : State) : Except Bug (Ret × State) := do
  let d ← getData f s
  if d.index.isSome then .ok (.einval, s)
  else do
    let (_, s) ← allocate f d len s
    .ok (.ok, s)

/-- `pmem_connect`. `src` is the pmem file behind the descriptor `connect`, if there is one. -/
def pmemConnect (f : FileId) (connect : Nat) (src : Option FileId) (s : State) : Except Bug (Ret × State) := do
  let d ← getData f s
  match src with
  | none => .ok (.einval, s)
  | some g => do
      let e ← getData g s
      if e.index.isNone then .ok (.einval, s)
      else if d.index.isSome ∧ d.index ≠ e.index then .ok (.einval, s)
      else
        .ok (.ok,
          setData f
            { d with index := e.index, connected := true, masterFd := connect, masterFile := some g, alloc := e.alloc } s)

/-- `pmem_mmap` allocates for a file without an index. -/
def allocateForMap (f : FileId) (d : Data) (size : Nat) (s : State) : Except Bug (Data × State) :=
  if d.index = none then allocate f d size s else .ok (d, s)

/-- `pmem_mmap`. `mapped` says whether the page table entries can be set. -/
def pmemMmap (f : FileId) (pgoff size : Nat) (mapped : Bool) (s : State) : Except Bug (Ret × State) := do
  let d ← getData f s
  if pgoff ≠ 0 ∨ ¬ pageAligned size then .ok (.einval, s)
  else if d.masterMap ∨ d.submap ∨ d.unsubmap then .ok (.einval, s)
  else do
    let (d, s) ← allocateForMap f d size s
    if d.index.isNone then .ok (.einval, s)
    else if d.len s < size then .ok (.einval, s)
    else if mapped = false then .ok (.eagain, s)
    else if d.connected then .ok (.ok, setData f { d with submap := true, task := true, vma := true } s)
    else .ok (.ok, setData f { d with masterMap := true } s)

/-- `pmem_vma_close`. `same` says whether it is the mapping that `data->vma` points to. -/
def pmemVmaClose (f : FileId) (same : Bool) (s : State) : Except Bug (Ret × State) := do
  let d ← getData f s
  if d.index.isNone then .ok (.ok, s)
  else if d.vma ∧ same then
    .ok (.ok, setData f { d with vma := false, unsubmap := d.unsubmap || (d.connected && d.submap) } s)
  else .ok (.ok, s)

/-- `pmem_lock_data_and_mm`. `mm` says whether the mm of the task that mapped the file still exists. -/
def lockDataAndMm (d : Data) (mm : Bool) : Bool := !d.isSubmap || mm

/-- `is_master_owner`. `fd` is the file behind the descriptor `master_fd` of the caller. -/
def isMasterOwner (d : Data) (fd : Option FileId) : Bool :=
  d.index.isSome && (d.masterMap || (fd.isSome && d.masterFile == fd))

inductive Operation where
  | map
  | unmap
  deriving DecidableEq, Repr

structure RemapEnv where
  mm : Bool
  fd : Option FileId
  mem : Bool
  mapped : Bool
  deriving DecidableEq, Repr

def pmemRemap (f : FileId) (region : Region) (op : Operation) (env : RemapEnv) (s : State) :
    Except Bug (Ret × State) := do
  let d ← getData f s
  if ¬ pageAligned region.offset ∨ ¬ pageAligned region.len then .ok (.einval, s)
  else if region.len = 0 then .ok (.ok, s)
  else if lockDataAndMm d env.mm = false then .ok (.ok, s)
  else if isMasterOwner d env.fd = false then .ok (.einval, s)
  else if d.len s < region.offset ∨ d.len s < region.len ∨ d.len s < (region.offset + region.len) % 2 ^ 32 then
    .ok (.einval, s)
  else
    let remapped := if d.vma ∧ d.isSubmap ∧ env.mapped = false then Ret.eagain else Ret.ok
    match op with
    | .map =>
      if env.mem = false then .ok (.enomem, s)
      else .ok (remapped, setData f { d with regionList := region :: d.regionList } s)
    | .unmap =>
      if region ∈ d.regionList then
        .ok (.ok, setData f { d with regionList := d.regionList.filter (· ≠ region) } s)
      else .ok (.einval, s)

def pmemRevoke (mm : Bool) (d : Data) : Data :=
  let d := { d with masterFile := none }
  if lockDataAndMm d mm ∧ d.vma then { d with regionList := [] } else d

/-- The loop over `data_list` when a master is released. `mm g` is as in `lockDataAndMm`. -/
def revokeAll (f : FileId) (mm : FileId → Bool) : List FileId → State → Except Bug State
  | [], s => .ok s
  | g :: list, s => do
      let d ← getData g s
      if d.isSubmap ∧ d.masterFile = some f then revokeAll f mm list (setData g (pmemRevoke (mm g) d) s)
      else revokeAll f mm list s

/-- If the file is a master, the connected files are revoked. -/
def revokeClients (f : FileId) (mm : FileId → Bool) (d : Data) (s : State) : Except Bug State :=
  if d.masterMap then revokeAll f mm s.dataList s else .ok s

/-- A file that is not connected frees its allocation. -/
def freeOwned (d : Data) (s : State) : Except Bug State :=
  if d.connected then .ok s
  else
    match d.index with
    | none => .ok s
    | some i => do
        let info ← liftAlloc (pmemFree i s.info)
        .ok { s with info := info }

def pmemRelease (f : FileId) (mm : FileId → Bool) (s : State) : Except Bug (Ret × State) := do
  let d ← getData f s
  let s ← revokeClients f mm d s
  let d ← getData f s
  let s ← freeOwned d { s with dataList := s.dataList.filter (· ≠ f) }
  .ok (.ok, { s with file := Function.update s.file f none })

inductive Op where
  | open_ (f : FileId) (mem : Bool)
  | allocate (f : FileId) (len : Nat)
  | connect (f : FileId) (connect : Nat) (src : Option FileId)
  | mmap (f : FileId) (pgoff size : Nat) (mapped : Bool)
  | vmaClose (f : FileId) (same : Bool)
  | remap (f : FileId) (region : Region) (op : Operation) (env : RemapEnv)
  | release (f : FileId) (mm : FileId → Bool)

def exec (s : State) : Op → Except Bug (Ret × State)
  | .open_ f mem => .ok (pmemOpen f mem s)
  | .allocate f len => ioctlAllocate f len s
  | .connect f connect src => pmemConnect f connect src s
  | .mmap f pgoff size mapped => pmemMmap f pgoff size mapped s
  | .vmaClose f same => pmemVmaClose f same s
  | .remap f region op env => pmemRemap f region op env s
  | .release f mm => pmemRelease f mm s

/-- A file is opened once, the other calls are for open files, and so is the file behind a descriptor. -/
def Op.Permitted (s : State) : Op → Prop
  | .open_ f _ => s.file f = none
  | .allocate f _ => (s.file f).isSome
  | .connect f _ src => (s.file f).isSome ∧ ∀ g ∈ src, (s.file g).isSome
  | .mmap f _ _ _ => (s.file f).isSome
  | .vmaClose f _ => (s.file f).isSome
  | .remap f _ _ _ => (s.file f).isSome
  | .release f _ => (s.file f).isSome

instance {s : State} {op : Op} : Decidable (op.Permitted s) := by
  cases op <;> unfold Op.Permitted <;> infer_instance

def machine (size : Nat) : Lib.Machine State Op Ret Bug where
  init s := pmemSetup size false = .ok s.info ∧ (s.file = fun _ => none) ∧ s.dataList = [] ∧ s.allocs = 0
  enabled s op := op.Permitted s
  exec := exec

instance {size : Nat} {s : State} {op : Op} : Decidable ((machine size).enabled s op) :=
  inferInstanceAs (Decidable (op.Permitted s))

end G3Mod.Pmem.Files
