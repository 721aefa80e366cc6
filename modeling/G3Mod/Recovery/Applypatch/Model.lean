import G3Mod.Lib.Crash
import G3Mod.Recovery.Imgpatch.Model

/-!
# `applypatch.c` and `freecache.c`

`applypatch` is a program over its system calls, so that it can be cut off between any two of them. SHA-1, the
compressors and the MTD partitions are black boxes. Two names denote the same file when they are equal.
-/

namespace G3Mod.Recovery.Applypatch

open Lib Imgpatch

abbrev Name := List Char

abbrev Digest := List UInt8

structure Stat where
  mode : Nat
  uid : Nat
  gid : Nat
  deriving DecidableEq, Repr

structure File where
  data : Bytes
  st : Stat
  deriving DecidableEq, Repr

/-! ## System calls -/

inductive Op where
  /-- `stat`, `fopen` and `fread` of the whole file. -/
  | readFile (name : Name)
  | readMtd (name : Name)
  /-- A look at a `FileContents` whose buffer has been freed. -/
  | staleContents
  | statfs (path : Name)
  /-- `open` with `O_WRONLY | O_CREAT | O_TRUNC`. -/
  | openTrunc (name : Name)
  | write (name : Name) (data : Bytes)
  | chmod (name : Name) (mode : Nat)
  | chown (name : Name) (uid gid : Nat)
  | unlink (name : Name)
  | rename (old new : Name)
  | readdir (dir : Name)
  | statRegular (path : Name)
  /-- The links below `/proc` that `EliminateOpenFiles` reads. -/
  | openFiles
  | writeMtd (data : Bytes) (name : Name)

/-- A failed call is answered by `none` or `false`. -/
def Op.Ans : Op → Type
  | readFile _ => Option File
  | readMtd _ => Option Bytes
  | staleContents => File
  | statfs _ => Option Nat
  | openTrunc _ => Option Stat
  | write _ _ => Option Nat
  | chmod _ _ => Bool
  | chown _ _ _ => Bool
  | unlink _ => Bool
  | rename _ _ => Bool
  | readdir _ => Option (List Name)
  | statRegular _ => Bool
  | openFiles => Option (List Name)
  | writeMtd _ _ => Bool

abbrev calls : Interface := ⟨Op, Op.Ans⟩

abbrev Prog := Lib.Prog calls

def sys (op : Op) : Prog op.Ans :=
  Lib.Prog.issue (F := calls) op

def readFile (name : Name) : Prog (Option File) := sys (.readFile name)
def readMtd (name : Name) : Prog (Option Bytes) := sys (.readMtd name)
def staleContents : Prog File := sys .staleContents
def statfs (path : Name) : Prog (Option Nat) := sys (.statfs path)
def openTrunc (name : Name) : Prog (Option Stat) := sys (.openTrunc name)
def write (name : Name) (data : Bytes) : Prog (Option Nat) := sys (.write name data)
def chmod (name : Name) (mode : Nat) : Prog Bool := sys (.chmod name mode)
def chown (name : Name) (uid gid : Nat) : Prog Bool := sys (.chown name uid gid)
def unlink (name : Name) : Prog Bool := sys (.unlink name)
def rename (old new : Name) : Prog Bool := sys (.rename old new)
def readdir (dir : Name) : Prog (Option (List Name)) := sys (.readdir dir)
def statRegular (path : Name) : Prog Bool := sys (.statRegular path)
def openFiles : Prog (Option (List Name)) := sys .openFiles
def writeMtd (data : Bytes) (name : Name) : Prog Bool := sys (.writeMtd data name)

def hexDigit (c : Char) : Option Nat :=
  if '0' ≤ c ∧ c ≤ '9' then some (c.toNat - '0'.toNat)
  else if 'a' ≤ c ∧ c ≤ 'f' then some (c.toNat - 'a'.toNat + 10)
  else if 'A' ≤ c ∧ c ≤ 'F' then some (c.toNat - 'A'.toNat + 10)
  else none

def shaDigestSize : Nat := 20

/-- The loop of `ParseSha1` with `n` characters to go; `pd` holds the bytes so far, the newest first. -/
def parseDigits : Nat → List Char → List UInt8 → Option (List Char × List UInt8)
  | 0, ps, pd => some (ps, pd)
  | _ + 1, [], _ => none
  | n + 1, c :: ps, pd =>
    match hexDigit c with
    | none => none
    | some digit =>
      if (shaDigestSize * 2 - (n + 1)) % 2 = 0 then parseDigits n ps (UInt8.ofNat digit <<< 4 :: pd)
      else
        match pd with
        | [] => none
        | b :: pd => parseDigits n ps ((b ||| UInt8.ofNat digit) :: pd)

/-- `ParseSha1`; `none` for `-1`. Nothing may follow the 40 digits. -/
def parseSha1 (str : List Char) : Option Digest :=
  match parseDigits (shaDigestSize * 2) str [] with
  | some ([], pd) => some pd.reverse
  | _ => none

def findMatchingPatchFrom (sha1 : Digest) : Int → List (List Char) → Int
  | _, [] => -1
  | i, s :: rest => if parseSha1 s = some sha1 then i else findMatchingPatchFrom sha1 (i + 1) rest

def findMatchingPatch (sha1 : Digest) (patchSha1Str : List (List Char)) : Int :=
  findMatchingPatchFrom sha1 0 patchSha1Str

def cacheTempSource : Name := "/cache/saved.file".toList

def isMtd (filename : Name) : Bool :=
  filename.take 4 == "MTD:".toList

structure FileContents where
  sha1 : Digest
  data : Bytes
  st : Stat

def loadFileContents (sha : Bytes → Digest) (filename : Name) : Prog (Option FileContents) :=
  if isMtd filename then do
    match ← readMtd filename with
    | none => pure none
    | some data => pure (some ⟨sha data, data, ⟨0o644, 0, 0⟩⟩)
  else do
    match ← readFile filename with
    | none => pure none
    | some f => pure (some ⟨sha f.data, f.data, f.st⟩)

/-- `FileSink` with `rest` to write after `done` bytes; every turn writes at least one. -/
def fileSinkLoop (filename : Name) : Nat → Bytes → Nat → Prog Nat
  | 0, _, done => pure done
  | fuel + 1, rest, done =>
    if rest.isEmpty then pure done
    else do
      match ← write filename rest with
      | none => pure done
      | some wrote => fileSinkLoop filename fuel (rest.drop wrote) (done + wrote)

def fileSink (filename : Name) (data : Bytes) : Prog Nat :=
  fileSinkLoop filename data.length data 0

def saveFileContents (filename : Name) (file : FileContents) : Prog Bool := do
  match ← openTrunc filename with
  | none => pure false
  | some _ =>
    let bytesWritten ← fileSink filename file.data
    if bytesWritten ≠ file.data.length then pure false
    else if !(← chmod filename file.st.mode) then pure false
    else if !(← chown filename file.st.uid file.st.gid) then pure false
    else pure true

/-! ## Room on `/cache` -/

/-- `FreeSpaceForFile`: `-1` for an error is the largest `size_t`. -/
def freeSpaceForFile (filename : Name) : Prog Nat := do
  match ← statfs filename with
  | none => pure (2 ^ 32 - 1)
  | some n => pure n

def cacheDir : Name := "/cache".toList

def expendableDirs : List Name := ["/cache".toList, "/cache/recovery/otatest".toList]

def expendableIn (dir : Name) : List Name → Prog (List Name)
  | [] => pure []
  | entry :: entries => do
      let path := dir ++ '/' :: entry
      if path = cacheTempSource then expendableIn dir entries
      else
        let isReg ← statRegular path
        let names ← expendableIn dir entries
        pure (if isReg then path :: names else names)

def findExpendableIn : List Name → Prog (List Name)
  | [] => pure []
  | dir :: dirs => do
      match ← readdir dir with
      | none => findExpendableIn dirs
      | some entries =>
        let names ← expendableIn dir entries
        let more ← findExpendableIn dirs
        pure (names ++ more)

/-- `FindExpendableFiles`: the names, `none` in the place of an open file. -/
def findExpendableFiles : Prog (Option (List (Option Name))) := do
  let names ← findExpendableIn expendableDirs
  match ← openFiles with
  | none => pure none
  | some links => pure (some (names.map fun name => if name ∈ links then none else some name))

/-- The loop of `MakeFreeSpaceOnCache`: the last value of `free_now`. -/
def deleteLoop (bytesNeeded : Nat) : List (Option Name) → Nat → Prog Nat
  | [], freeNow => pure freeNow
  | entry :: names, freeNow =>
    if freeNow < bytesNeeded then
      match entry with
      | none => deleteLoop bytesNeeded names freeNow
      | some name => do
          let _ ← unlink name
          let freeNow ← freeSpaceForFile cacheDir
          deleteLoop bytesNeeded names freeNow
    else pure freeNow

def makeFreeSpaceOnCache (bytesNeeded : Nat) : Prog Bool := do
  let freeNow ← freeSpaceForFile cacheDir
  if freeNow ≥ bytesNeeded then pure true
  else
    match ← findExpendableFiles with
    | none => pure false
    | some [] => pure false
    | some names =>
      let freeNow ← deleteLoop bytesNeeded names freeNow
      pure (decide (freeNow ≥ bytesNeeded))

/-! ## Applying a patch -/

inductive ValueType where
  | string
  | blob
  deriving DecidableEq, Repr

structure Value where
  type : ValueType
  data : Bytes
  deriving DecidableEq, Repr

def bsdiff40 : Bytes := [0x42, 0x53, 0x44, 0x49, 0x46, 0x46, 0x34, 0x30]

/-- What a patch sends to the sink; `none` for an unknown format. -/
def patchOutput (z : Codec) (source patch : Bytes) : Option Sent :=
  if patch.take 8 = bsdiff40 then some (applyBSDiffPatch z source patch 0)
  else if patch.take 8 = imgdiff2 then some (applyImagePatch z source patch)
  else none

/-- Whether a patch went through, the bytes in the SHA context and the state of the sink. -/
structure Fed (σ : Type) where
  ok : Bool
  ctx : Bytes
  state : σ

def feed {σ : Type} (sink : Bytes → σ → Prog (Int × σ)) : List Piece → Bytes → σ → Prog (Fed σ)
  | [], ctx, s => pure ⟨true, ctx, s⟩
  | p :: ps, ctx, s => do
      let (n, s) ← sink p.data s
      if n = p.data.length then feed sink ps (ctx ++ p.data) s
      else if p.checked then pure ⟨false, ctx, s⟩
      else feed sink ps ctx s

/-- `FileSink` as the sink of a patch. -/
def outputSink (outname : Name) (data : Bytes) (_ : Unit) : Prog (Int × Unit) := do
  let done ← fileSink outname data
  pure (done, ())

/-- `MemorySink` with a buffer of `size` bytes, of which the bytes of `buffer` are in use. -/
def memorySink (size : Nat) (data buffer : Bytes) : Prog (Int × Bytes) :=
  if (size : Int) - buffer.length < data.length then pure (-1, buffer)
  else pure (data.length, buffer ++ data)

/-! ## `applypatch` -/

structure Args where
  sourceFilename : Name
  targetFilename : Name
  targetSha1Str : List Char
  targetSize : Nat
  patches : List (List Char × Value)

namespace Args

def target (a : Args) : Name :=
  if a.targetFilename = ['-'] then a.sourceFilename else a.targetFilename

def outname (a : Args) : Name :=
  a.target ++ ".patch".toList

def targetFs (a : Args) : Name :=
  a.target.take 1 ++ (a.target.drop 1).takeWhile (· ≠ '/')

def toUse (a : Args) (sha1 : Digest) : Int :=
  findMatchingPatch sha1 (a.patches.map Prod.fst)

def patchData (a : Args) (i : Int) : Option Value :=
  a.patches[i.toNat]?.map Prod.snd

def sourcePatch (a : Args) (sha1 : Digest) : Option Value :=
  if a.toUse sha1 ≥ 0 then a.patchData (a.toUse sha1) else none

/-- `copy_patch_value`. The first patch is not taken. -/
def copyPatch (a : Args) (sha1 : Digest) : Option Value :=
  if a.toUse sha1 > 0 then a.patchData (a.toUse sha1) else none

end Args

/-- Which file is patched, by which patch; or what is returned instead. -/
inductive Selection where
  | ended (code : Int)
  | source (file : FileContents) (patch : Value)
  | copy (file : FileContents) (patch : Value)

/-- The copy in the cache, where the source file is bad. -/
def selectCopy (sha : Bytes → Digest) (a : Args) : Prog Selection := do
  match ← loadFileContents sha cacheTempSource with
  | none => pure (.ended 1)
  | some file =>
    match a.copyPatch file.sha1 with
    | none => pure (.ended 1)
    | some patch => pure (.copy file patch)

/-- The source file; it has been loaded already where it is the target. -/
def loadSource (sha : Bytes → Digest) (a : Args) (loaded : Option FileContents) : Prog (Option FileContents) :=
  if loaded.isNone ∨ a.target ≠ a.sourceFilename then loadFileContents sha a.sourceFilename
  else pure loaded

/-- The choice, once the target has been loaded into `loaded` and is not what it should become. -/
def selectSource (sha : Bytes → Digest) (a : Args) (loaded : Option FileContents) : Prog Selection := do
  match ← loadSource sha a loaded with
  | none => selectCopy sha a
  | some file =>
    match a.sourcePatch file.sha1 with
    | none => selectCopy sha a
    | some patch => pure (.source file patch)

def select (sha : Bytes → Digest) (a : Args) (targetSha1 : Digest) : Prog Selection := do
  let loaded ← loadFileContents sha a.target
  if loaded.map FileContents.sha1 = some targetSha1 then pure (.ended 0)
  else selectSource sha a loaded

/-- Room for the source file on `/cache`, and a copy of it there. -/
def backUp (file : FileContents) : Prog Bool := do
  if !(← makeFreeSpaceOnCache file.data.length) then pure false
  else saveFileContents cacheTempSource file

/-- The first part of a turn of the loop, for a target in a file: `retry` and `made_copy`, or a return of 1. -/
def makeRoom (a : Args) (source : Option FileContents) (retry : Nat) (madeCopy : Bool) : Prog (Option (Nat × Bool)) := do
  let enoughSpace := false
  if retry > 0 then
    let freeSpace ← freeSpaceForFile a.targetFs
    -- this declares a second `enough_space`, which ends with the block
    let _enoughSpace := decide (freeSpace > a.targetSize * 3 / 2)
  let retry := if !enoughSpace then 0 else retry
  match source with
  | none => pure (some (retry, madeCopy))
  | some file =>
    if !enoughSpace then
      if isMtd a.sourceFilename then pure none
      else if !(← backUp file) then pure none
      else
        let _ ← unlink a.sourceFilename
        let _ ← freeSpaceForFile a.targetFs
        pure (some (retry, true))
    else pure (some (retry, madeCopy))

/-- The first part of a turn of the loop, for a target in an MTD partition. -/
def makeRoomMtd (source : Option FileContents) : Prog (Option (Nat × Bool)) := do
  let file ←
    match source with
    | some file => pure file
    | none => do
        let f ← staleContents
        pure ⟨[], f.data, f.st⟩
  if !(← backUp file) then pure none else pure (some (0, true))

/-- What the code before the check of the hash ends with: a return, or an output in a file or in `mtd`. -/
inductive Generated where
  | ended (code : Int)
  | output (targetSha1 : Digest) (madeCopy : Bool) (st : Stat) (ctx : Bytes) (mtd : Option Bytes)

/-- The rest of a turn of the loop; `again` is the next turn. -/
def turn (z : Codec) (a : Args) (targetSha1 : Digest) (file : FileContents) (patch : Value)
    (room : Option (Nat × Bool)) (again : Bool → Prog Generated) : Prog Generated :=
  match room with
  | none => pure (.ended 1)
  | some (retry, madeCopy) =>
    if patch.type ≠ .blob then pure (.ended 1)
    else if isMtd a.target then
      match patchOutput z file.data patch.data with
      | none => pure (.ended 1)
      | some sent => do
          let fed ← feed (memorySink a.targetSize) sent.pieces [] []
          if fed.ok ∧ sent.result = 0 then pure (.output targetSha1 madeCopy file.st fed.ctx (some fed.state))
          else if retry = 0 then pure (.ended 1)
          else again madeCopy
    else do
      match ← openTrunc a.outname with
      | none => pure (.ended 1)
      | some _ =>
        match patchOutput z file.data patch.data with
        | none => pure (.ended 1)
        | some sent =>
          let fed ← feed (outputSink a.outname) sent.pieces [] ()
          if fed.ok ∧ sent.result = 0 then pure (.output targetSha1 madeCopy file.st fed.ctx none)
          else if retry = 0 then pure (.ended 1)
          else
            let _ ← unlink a.outname
            again madeCopy

/-- The retry loop. A turn that ends with `retry` 0 does not come back. -/
def patchLoop (z : Codec) (a : Args) (targetSha1 : Digest) (source : Option FileContents) (file : FileContents)
    (patch : Value) : Nat → Bool → Prog Generated
  | 0, madeCopy => do
      let room ← if isMtd a.target then makeRoomMtd source else makeRoom a source 0 madeCopy
      turn z a targetSha1 file patch room fun _ => pure (.ended 1)
  | retry + 1, madeCopy => do
      let room ← if isMtd a.target then makeRoomMtd source else makeRoom a source (retry + 1) madeCopy
      turn z a targetSha1 file patch room (patchLoop z a targetSha1 source file patch retry)

/-- `applypatch` up to the check of the new file's hash. -/
def generate (sha : Bytes → Digest) (z : Codec) (a : Args) : Prog Generated :=
  match parseSha1 a.targetSha1Str with
  | none => pure (.ended 1)
  | some targetSha1 => do
      match ← select sha a targetSha1 with
      | .ended code => pure (.ended code)
      | .source file patch => patchLoop z a targetSha1 (some file) file patch 1 false
      | .copy file patch => patchLoop z a targetSha1 none file patch 1 false

def cleanUp (madeCopy : Bool) : Prog Int := do
  if madeCopy then
    let _ ← unlink cacheTempSource
  pure 0

def replaceTarget (a : Args) (madeCopy : Bool) (st : Stat) (mtd : Option Bytes) : Prog Int :=
  match mtd with
  | some buffer => do
      if !(← writeMtd buffer a.target) then pure 1
      else cleanUp madeCopy
  | none => do
      if !(← chmod a.outname st.mode) then pure 1
      else if !(← chown a.outname st.uid st.gid) then pure 1
      else if !(← rename a.outname a.target) then pure 1
      else cleanUp madeCopy

/-- `applypatch` from the check of the new file's hash on. -/
def finish (sha : Bytes → Digest) (a : Args) : Generated → Prog Int
  | .ended code => pure code
  | .output targetSha1 madeCopy st ctx mtd =>
    if sha ctx ≠ targetSha1 then pure 1 else replaceTarget a madeCopy st mtd

def applypatch (sha : Bytes → Digest) (z : Codec) (a : Args) : Prog Int := do
  let generated ← generate sha z a
  finish sha a generated

def applypatchCheck (sha : Bytes → Digest) (filename : Name) (patchSha1Str : List (List Char)) : Prog Int := do
  let file ← loadFileContents sha filename
  let good := match file with
    | none => false
    | some f => patchSha1Str.isEmpty || decide (0 ≤ findMatchingPatch f.sha1 patchSha1Str)
  if good then pure 0
  else
    match ← loadFileContents sha cacheTempSource with
    | none => pure 1
    | some f => if findMatchingPatch f.sha1 patchSha1Str < 0 then pure 1 else pure 0

/-! ## The file system -/

/-- The files, and the names of those that have been created, truncated, written, removed or renamed so far. -/
structure Disk where
  files : Name → Option File
  touched : List Name

namespace Disk

def set (d : Disk) (name : Name) (f : Option File) : Disk :=
  ⟨fun n => if n = name then f else d.files n, name :: d.touched⟩

def setStat (d : Disk) (name : Name) (g : Stat → Stat) : Disk :=
  ⟨fun n => if n = name then (d.files n).map fun f => { f with st := g f.st } else d.files n, d.touched⟩

def data (d : Disk) (name : Name) : Option Bytes :=
  (d.files name).map File.data

end Disk

/-- Which calls may fail, and which amounts of free space `statfs` may report. -/
structure Conditions where
  readsFail : Bool
  writesFail : Bool
  room : Name → Nat → Bool

/-- A call that asks for the existing file `name` and then leaves `d'`. -/
def onFile (c : Conditions) (d : Disk) (name : Name) (d' : Disk) (ok : Bool) : Option Disk :=
  if ok then (if (d.files name).isSome then some d' else none)
  else if (d.files name).isNone ∨ c.writesFail then some d else none

def exec (c : Conditions) (d : Disk) : (op : Op) → op.Ans → Option Disk
  | .readFile name, (none : Option File) => if (d.files name).isNone ∨ c.readsFail then some d else none
  | .readFile name, some f => if d.files name = some f then some d else none
  | .readMtd _, _ => some d
  | .staleContents, _ => some d
  | .statfs _, (none : Option Nat) => if c.readsFail then some d else none
  | .statfs path, some n => if c.room path n then some d else none
  | .openTrunc _, (none : Option Stat) => if c.writesFail then some d else none
  | .openTrunc name, some st =>
    some (d.set name (some ⟨[], ((d.files name).map File.st).getD st⟩))
  | .write _ data, (none : Option Nat) => if data = [] ∨ c.writesFail then some d else none
  | .write name data, some n =>
    if 1 ≤ n ∧ n ≤ data.length then
      some (d.set name ((d.files name).map fun f => { f with data := f.data ++ data.take n }))
    else none
  | .chmod name mode, ok => onFile c d name (d.setStat name fun st => { st with mode := mode }) ok
  | .chown name uid gid, ok => onFile c d name (d.setStat name fun st => { st with uid := uid, gid := gid }) ok
  | .unlink name, ok => onFile c d name (d.set name none) ok
  | .rename old new, ok => onFile c d old ((d.set old none).set new (d.files old)) ok
  | .readdir _, (none : Option (List Name)) => some d
  | .readdir _, some entries => if entries.all fun e => '/' ∉ e then some d else none
  | .statRegular path, (ok : Bool) =>
    if ok then (if (d.files path).isSome then some d else none)
    else if (d.files path).isNone ∨ c.readsFail then some d else none
  | .openFiles, (none : Option (List Name)) => if c.readsFail then some d else none
  | .openFiles, some _ => some d
  | .writeMtd _ _, (ok : Bool) => if ok ∨ c.writesFail then some d else none

def world (c : Conditions) : World calls Disk := ⟨exec c⟩

end G3Mod.Recovery.Applypatch
