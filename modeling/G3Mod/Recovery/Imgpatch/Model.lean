import Mathlib.Algebra.Ring.Nat
import Mathlib.Algebra.Ring.Int.Defs

/-!
# Patches: `utils.c`, `ApplyBSDiffPatch` of `bspatch.c` and `ApplyImagePatch` of `imgpatch.c`

Files, patches and buffers are lists of bytes; zlib and the in-memory bspatch are black boxes. A patch hands its output
to a sink piece by piece. The pieces do not depend on the sink, so that they are computed as a list; how the patch goes
on after a sink that takes less than it is given differs, and each piece says so.
-/

namespace G3Mod.Recovery

abbrev Bytes := List UInt8

namespace Imgpatch

/-! ## Little-endian numbers -/

def leNat : Bytes → Nat
  | [] => 0
  | b :: bs => b.toNat + 256 * leNat bs

def leBytes : Nat → Nat → Bytes
  | 0, _ => []
  | n + 1, v => UInt8.ofNat v :: leBytes n (v / 256)

def read2 (bs : Bytes) (i : Nat) : Nat :=
  leNat ((bs.drop i).take 2)

/-- `Read4`: the result is a signed `int`. -/
def read4 (bs : Bytes) (i : Nat) : Int :=
  Int.bmod (leNat ((bs.drop i).take 4)) (2 ^ 32)

/-- `Read8`, assigned to a `size_t`. -/
def read8 (bs : Bytes) (i : Nat) : Nat :=
  leNat ((bs.drop i).take 8) % 2 ^ 32

def write4 (value : Int) : Bytes :=
  leBytes 4 (value % 2 ^ 32).toNat

def write8 (value : Nat) : Bytes :=
  leBytes 8 value

structure DeflateParams where
  level : Int
  method : Int
  windowBits : Int
  memLevel : Int
  strategy : Int
  deriving DecidableEq, Repr

/-- `ApplyBSDiffPatchMem`; raw `inflate`, with the number of bytes it takes; `deflate`. -/
structure Codec where
  applyBSDiffPatchMem : Bytes → Bytes → Option Bytes
  inflate : Bytes → Option (Bytes × Nat)
  deflate : DeflateParams → Bytes → Bytes

/-! ## What a patch sends to its sink -/

/-- One call of the sink. `checked`: the patch fails when the sink does not take all of `data`. -/
structure Piece where
  data : Bytes
  checked : Bool
  deriving DecidableEq, Repr

/-- The calls of the sink, and what the patch returns when the sink has taken everything. -/
structure Sent where
  pieces : List Piece
  result : Int
  deriving DecidableEq, Repr

namespace Sent

def fail (result : Int) : Sent :=
  ⟨[], result⟩

def andThen (s t : Sent) : Sent :=
  if s.result = 0 then ⟨s.pieces ++ t.pieces, t.result⟩ else s

def ignored (s : Sent) : Sent :=
  ⟨s.pieces.map fun p => { p with checked := false }, 0⟩

def bytes (s : Sent) : Bytes :=
  s.pieces.flatMap Piece.data

end Sent

def applyBSDiffPatch (z : Codec) (oldData patch : Bytes) (patchOffset : Nat) : Sent :=
  match z.applyBSDiffPatchMem oldData (patch.drop patchOffset) with
  | none => .fail (-1)
  | some newData => ⟨[⟨newData, true⟩], 0⟩

/-! ## `ApplyImagePatch` -/

def chunkNormal : Int := 0

def chunkDeflate : Int := 2

def chunkRaw : Int := 3

def imgdiff2 : Bytes := [0x49, 0x4d, 0x47, 0x44, 0x49, 0x46, 0x46, 0x32]

def slice (bs : Bytes) (start len : Nat) : Bytes :=
  (bs.drop start).take len

/-- The output of `deflate` in buffers of `tempSize` bytes; `fuel` is at least the length of the output. -/
def flush (tempSize : Nat) : Nat → Bytes → List Bytes
  | 0, out => [out]
  | fuel + 1, out =>
    if out.length ≤ tempSize then [out]
    else out.take tempSize :: flush tempSize fuel (out.drop tempSize)

/-- A `CHUNK_NORMAL` record whose header is at `pos`. The return value of `ApplyBSDiffPatch` is dropped. -/
def normalChunk (z : Codec) (oldData patch : Bytes) (pos : Nat) : Sent :=
  let srcStart := read8 patch pos
  let srcLen := read8 patch (pos + 8)
  let patchOffset := read8 patch (pos + 16)
  (applyBSDiffPatch z (slice oldData srcStart srcLen) patch patchOffset).ignored

def deflateChunk (z : Codec) (oldData patch : Bytes) (pos : Nat) : Sent :=
  let srcStart := read8 patch pos
  let srcLen := read8 patch (pos + 8)
  let patchOffset := read8 patch (pos + 16)
  let expandedLen := read8 patch (pos + 24)
  let params : DeflateParams :=
    { level := read4 patch (pos + 40)
      method := read4 patch (pos + 44)
      windowBits := read4 patch (pos + 48)
      memLevel := read4 patch (pos + 52)
      strategy := read4 patch (pos + 56) }
  match z.inflate (slice oldData srcStart srcLen) with
  | none => .fail (-1)
  | some (expandedSource, _) =>
    -- a longer stream does not end in the buffer, a shorter one does not fill it
    if expandedSource.length ≠ expandedLen then .fail (-1)
    else
      match z.applyBSDiffPatchMem expandedSource (patch.drop patchOffset) with
      | none => .fail (-1)
      | some uncompressedTarget =>
        let tempSize := max expandedLen 32768
        let out := z.deflate params uncompressedTarget
        ⟨(flush tempSize out.length out).map fun d => ⟨d, true⟩, 0⟩

/-- The loop over the chunk records, the first of the remaining ones at `pos`. -/
def chunkLoop (z : Codec) (oldData patch : Bytes) : Nat → Nat → Sent
  | 0, _ => ⟨[], 0⟩
  | n + 1, pos =>
    if pos + 4 > patch.length then .fail (-1)
    else
      let type := read4 patch pos
      let pos := pos + 4
      if type = chunkNormal then
        if pos + 24 > patch.length then .fail (-1)
        else (normalChunk z oldData patch pos).andThen (chunkLoop z oldData patch n (pos + 24))
      else if type = chunkRaw then
        if pos + 4 > patch.length then .fail (-1)
        else
          let dataLen := read4 patch pos
          let pos := pos + 4
          if pos + dataLen > patch.length then .fail (-1)
          -- no sink returns a negative number of bytes taken that equals `data_len`
          else if dataLen < 0 then .fail (-1)
          else
            Sent.andThen ⟨[⟨slice patch pos dataLen.toNat, true⟩], 0⟩
              (chunkLoop z oldData patch n (pos + dataLen.toNat))
      else if type = chunkDeflate then
        if pos + 60 > patch.length then .fail (-1)
        else (deflateChunk z oldData patch pos).andThen (chunkLoop z oldData patch n (pos + 60))
      else .fail (-1)

def applyImagePatch (z : Codec) (oldData patch : Bytes) : Sent :=
  if patch.length < 12 then .fail (-1)
  else if patch.take 8 ≠ imgdiff2 then .fail (-1)
  else chunkLoop z oldData patch (read4 patch 8).toNat 12

end Imgpatch

end G3Mod.Recovery
