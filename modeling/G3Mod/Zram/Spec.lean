import G3Mod.Zram.Model

/-!
# What a page of the disk holds
-/

namespace G3Mod.Zram

open Function

inductive Rep where
  | empty
  | zero
  | object (bytes : List Byte) (whole : Bool)
  deriving DecidableEq, Repr

def rep (lzo : Lzo) : Option Page → Rep
  | none => .empty
  | some p =>
    if pageZeroFilled p then .zero
    else
      match lzo.compress p with
      | none => .object p.toList true
      | some c => if maxZpageSize < c.length then .object p.toList true else .object c false

/-- The pages after a write that stored `stored` pages; the one at which it fails is lost. -/
def record : List Page → Nat → Nat → Bool → (Nat → Option Page) → Nat → Option Page
  | [], _, _, _, w => w
  | _ :: _, index, 0, ok, w => if ok then w else update w index none
  | p :: ps, index, stored + 1, ok, w => record ps (index + 1) stored ok (update w index (some p))

def writtenStep (w : Nat → Option Page) : Op × Out → Nat → Option Page
  | (.write first segs _ _, .write stored ok) => record (segs.map Prod.fst) first stored ok w
  | (.slotFree index _, _) => update w index none
  | _ => w

/-- The page of the last successful write, if nothing else has happened to the page of the disk since. -/
def written (es : List (Op × Out)) : Nat → Option Page := es.foldl writtenStep fun _ => none

def Lzo.Inverts (lzo : Lzo) : Prop := ∀ {p c} (old : Page), lzo.compress p = some c → lzo.decompress c old = (true, p)

/-! ## The statistics -/

def Zram.numPages (s : Zram) : Nat := s.disksize / pageSize

def Zram.storedLength (s : Zram) (i : Nat) : Nat :=
  match (s.table i).page with
  | none => 0
  | some page => ((s.live (page, (s.table i).offset)).map Object.size).getD 0

structure StatsOk (s : Zram) : Prop where
  pagesStored : s.stats.pagesStored = (List.range s.numPages).countP fun i => (s.table i).page.isSome
  pagesZero : s.stats.pagesZero = (List.range s.numPages).countP fun i => (s.table i).zero
  pagesExpand : s.stats.pagesExpand = (List.range s.numPages).countP fun i => (s.table i).uncompressed
  comprSize : s.stats.comprSize = ((List.range s.numPages).map s.storedLength).sum
  goodCompress : s.stats.goodCompress = (List.range s.numPages).countP fun i =>
    (s.table i).page.isSome && decide (s.storedLength i ≤ pageSize / 2)

end G3Mod.Zram
