import Mathlib.Algebra.Ring.Nat
import G3Mod.Lib.Machine

/-!
# Package verification: `verify_file` of `verifier.c` and the end record search of `minzip/Zip.c`

A package is the list of its bytes. The hash and the signature check are black boxes. `verify_file` finds the end of
central directory record by the length in the footer, `parseZipArchive` by its marker, from the end.
-/

namespace G3Mod.Recovery.Verifier

abbrev Byte := UInt8

structure Crypto where
  Key : Type
  Ctx : Type
  Digest : Type
  rsaNumBytes : Nat
  shaInit : Ctx
  shaUpdate : Ctx → List Byte → Ctx
  shaFinal : Ctx → Digest
  rsaVerify : Key → List Byte → Digest → Bool

/-- What the system gives to one call, and the byte `n + 1` places in front of the `eocd` buffer. -/
structure Env where
  opens : Bool
  reads : Nat → Bool
  eocdAlloc : Bool
  bufferAlloc : Bool
  before : Nat → Byte

/-- The places where `verify_file` returns `VERIFY_FAILURE`. -/
inductive Failure where
  | failedToOpen
  | failedToSeek
  | failedToReadFooter
  | noFooter
  | signatureTooShort
  | mallocForEocd
  | failedToReadEocd
  | noEocdMarker
  | laterEocdMarker
  | mallocForBuffer
  | failedToReadData
  | failedToVerify
  deriving DecidableEq, Repr

def footerSize : Nat := 6

def eocdHeaderSize : Nat := 22

def bufferSize : Nat := 4096

/-! ## `verify_file` -/

def ensure (c : Bool) (e : Failure) : Except Failure Unit :=
  if c then .ok () else .error e

def fseekEnd (file : List Byte) (n : Nat) : Except Failure Nat :=
  if n ≤ file.length then .ok (file.length - n) else .error .failedToSeek

/-- The `k`-th `fread` of the call: `n` bytes from `pos`, or the failure `e`. -/
def fread (env : Env) (file : List Byte) (k pos n : Nat) (e : Failure) : Except Failure (List Byte) :=
  if env.reads k ∧ pos + n ≤ file.length then .ok ((file.drop pos).take n) else .error e

def word (bs : List Byte) (i : Nat) : Nat :=
  (bs.getD i 0).toNat + (bs.getD (i + 1) 0).toNat * 256

def markerAt (bs : List Byte) (i : Nat) : Bool :=
  bs.getD i 0 == 0x50 && bs.getD (i + 1) 0 == 0x4b && bs.getD (i + 2) 0 == 0x05 && bs.getD (i + 3) 0 == 0x06

/-- The byte at `eocd + i`. Places in front of the buffer are memory of someone else. -/
def peek (env : Env) (eocd : List Byte) (i : Int) : Byte :=
  if 0 ≤ i then eocd.getD i.toNat 0 else env.before (-i - 1).toNat

/-- The offset in the `eocd` buffer of the block that is given to `RSA_verify`. -/
def rsaOffset (c : Crypto) (eocdSize : Nat) : Int :=
  (eocdSize : Int) - 6 - c.rsaNumBytes

/-- The bytes that `RSA_verify` gets to see. -/
def rsaBlock (c : Crypto) (env : Env) (eocd : List Byte) (eocdSize : Nat) : List Byte :=
  (List.range c.rsaNumBytes).map fun k : Nat => peek env eocd (rsaOffset c eocdSize + (k : Int))

/-- The loop over the signed part, from `soFar` on. The first argument bounds the rounds. -/
def hashLoop (c : Crypto) (env : Env) (file : List Byte) (signedLen : Nat) :
    Nat → Nat → Nat → c.Ctx → Except Failure c.Ctx
  | 0, _, _, ctx => .ok ctx
  | fuel + 1, k, soFar, ctx =>
    if soFar < signedLen then do
      let size := if signedLen - soFar < bufferSize then signedLen - soFar else bufferSize
      let buffer ← fread env file k soFar size .failedToReadData
      hashLoop c env file signedLen fuel (k + 1) (soFar + size) (c.shaUpdate ctx buffer)
    else .ok ctx

def verifyFile (c : Crypto) (env : Env) (keys : List c.Key) (file : List Byte) : Except Failure Unit := do
  ensure env.opens .failedToOpen
  let pos ← fseekEnd file footerSize
  let footer ← fread env file 0 pos footerSize .failedToReadFooter
  ensure (footer.getD 2 0 == 0xff && footer.getD 3 0 == 0xff) .noFooter
  let commentSize := word footer 4
  let signatureStart := word footer 0
  -- both sides are signed numbers
  ensure (!decide ((signatureStart : Int) - footerSize < c.rsaNumBytes)) .signatureTooShort
  let eocdSize := commentSize + eocdHeaderSize
  let pos ← fseekEnd file eocdSize
  let signedLen := pos + eocdHeaderSize - 2
  ensure env.eocdAlloc .mallocForEocd
  let eocd ← fread env file 1 pos eocdSize .failedToReadEocd
  ensure (markerAt eocd 0) .noEocdMarker
  ensure (!(List.range' 4 (eocdSize - 3 - 4)).any (markerAt eocd)) .laterEocdMarker
  ensure env.bufferAlloc .mallocForBuffer
  let ctx ← hashLoop c env file signedLen signedLen 2 0 c.shaInit
  let sha1 := c.shaFinal ctx
  ensure (keys.any fun key => c.rsaVerify key (rsaBlock c env eocd eocdSize) sha1) .failedToVerify

/-! ## `parseZipArchive` -/

def endSig : Nat := 0x06054b50

def locSig : Nat := 0x04034b50

def endHdr : Nat := 22
def endSub : Nat := 8
def endOff : Nat := 16

def get2LE (bs : List Byte) (p : Nat) : Nat :=
  (bs.getD p 0).toNat + (bs.getD (p + 1) 0).toNat * 2 ^ 8

def get4LE (bs : List Byte) (p : Nat) : Nat :=
  (bs.getD p 0).toNat + (bs.getD (p + 1) 0).toNat * 2 ^ 8 + (bs.getD (p + 2) 0).toNat * 2 ^ 16 +
    (bs.getD (p + 3) 0).toNat * 2 ^ 24

/-- The test of the loop that looks for the record. -/
def endSigAt (file : List Byte) (p : Nat) : Bool :=
  (file.getD p 0).toNat == endSig % 256 && get4LE file p == endSig

/-- The loop, with `ptr` at `p`: it stops at a marker or in front of the first byte. -/
def searchBack (file : List Byte) : Nat → Option Nat
  | 0 => if endSigAt file 0 then some 0 else none
  | p + 1 => if endSigAt file (p + 1) then some (p + 1) else searchBack file p

def findEocd (file : List Byte) : Option Nat :=
  if endHdr ≤ file.length then searchBack file (file.length - endHdr) else none

/-- The places where `parseZipArchive` gives up before it reads the central directory. -/
inductive ZipError where
  | looksEmpty
  | notZip
  | noEndRecord
  | invalidEntries (numEntries cdOffset : Nat)
  deriving DecidableEq, Repr

/-- The two items of the end record that `parseZipArchive` reads. -/
structure EndRecord where
  numEntries : Nat
  cdOffset : Nat
  deriving DecidableEq, Repr

def readEndRecord (file : List Byte) (p : Nat) : EndRecord :=
  ⟨get2LE file (p + endSub), get4LE file (p + endOff)⟩

/-- `parseZipArchive` up to the loop over the central directory. -/
def parseZipArchive (file : List Byte) : Except ZipError EndRecord :=
  let val := get4LE file 0
  if val = endSig then .error .looksEmpty
  else if val ≠ locSig then .error .notZip
  else
    match findEocd file with
    | none => .error .noEndRecord
    | some p =>
      let r := readEndRecord file p
      if r.numEntries = 0 ∨ file.length ≤ r.cdOffset then .error (.invalidEntries r.numEntries r.cdOffset)
      else .ok r

end G3Mod.Recovery.Verifier
