import G3Mod.Recovery.Applypatch.Model

/-!
# Image patches and sinks that take less than they are offered
-/

namespace G3Mod.Recovery.Applypatch

open Lib Imgpatch

variable {z : Codec} {old patch : Bytes} {take : Nat → Nat}

/-- A sink that takes at most `take i` bytes at its call number `i`. -/
def limitedSink (take : Nat → Nat) (data : Bytes) (s : Nat × Bytes) : Prog (Int × (Nat × Bytes)) :=
  pure (min (take s.1) data.length, (s.1 + 1, s.2 ++ data.take (take s.1)))

def TakesAll (take : Nat → Nat) (P : Piece → Prop) : Nat → List Piece → Prop
  | _, [] => True
  | i, p :: ps => (P p → p.data.length ≤ take i) ∧ TakesAll take P (i + 1) ps

theorem takesAll_iff {i : Nat} {ps : List Piece} : TakesAll take (fun _ => True) i ps ↔
    TakesAll take (fun p => p.checked = true) i ps ∧ TakesAll take (fun p => p.checked = false) i ps := by
  induction ps generalizing i with
  | nil => exact iff_of_true trivial ⟨trivial, trivial⟩
  | cons p ps ih =>
    simp only [TakesAll, ih]
    cases p.checked <;> simp [and_assoc, and_left_comm]

theorem feed_limitedSink (take : Nat → Nat) (pieces : List Piece) (ctx : Bytes) (i : Nat) :
    ∀ taken, ∃ fed, feed (limitedSink take) pieces ctx (i, taken) = .ret fed ∧
      (fed.ok = true → TakesAll take (fun p => p.checked = true) i pieces) ∧
      (taken = ctx → TakesAll take (fun _ => True) i pieces → fed.state.2 = fed.ctx) := by
  induction pieces generalizing ctx i with
  | nil => exact fun taken => ⟨_, rfl, fun _ => trivial, fun ht _ => ht⟩
  | cons p ps ih =>
    intro taken
    simp only [TakesAll, feed, limitedSink, Prog.pure_eq, Prog.ret_bind]
    by_cases hn : p.data.length ≤ take i
    · rw [if_pos (by omega), List.take_of_length_le hn]
      obtain ⟨fed, hfed, h1, h2⟩ := ih (ctx ++ p.data) (i + 1) (taken ++ p.data)
      exact ⟨fed, hfed, fun hok => ⟨fun _ => hn, h1 hok⟩, fun ht ha => h2 (by rw [ht]) ha.2⟩
    rw [if_neg (by omega)]
    split
    · exact ⟨_, rfl, nofun, fun _ ha => absurd (ha.1 trivial) hn⟩
    · rename_i hc
      obtain ⟨fed, hfed, h1, -⟩ := ih ctx (i + 1) (taken ++ p.data.take (take i))
      exact ⟨fed, hfed, fun hok => ⟨fun h => absurd h hc, h1 hok⟩, fun _ ha => absurd (ha.1 trivial) hn⟩

/-! ## The records of a patch -/

def NormalAt (patch : Bytes) (pos : Nat) : Prop :=
  pos + 28 ≤ patch.length ∧ read4 patch pos = chunkNormal

instance {pos : Nat} : Decidable (NormalAt patch pos) := inferInstanceAs (Decidable (_ ∧ _))

/-- What comes of the record at `pos`; for a `CHUNK_NORMAL` this is what `ApplyBSDiffPatch` returns. -/
def outcome (z : Codec) (old patch : Bytes) (pos : Nat) : Sent :=
  if NormalAt patch pos then
    applyBSDiffPatch z (slice old (read8 patch (pos + 4)) (read8 patch (pos + 12))) patch (read8 patch (pos + 20))
  else chunkLoop z old patch 1 pos

def nextRecord (patch : Bytes) (pos : Nat) : Nat :=
  if read4 patch pos = chunkNormal then pos + 28
  else if read4 patch pos = chunkRaw then pos + 8 + (read4 patch (pos + 4)).toNat
  else pos + 64

def records (patch : Bytes) : Nat → Nat → List Nat
  | 0, _ => []
  | n + 1, pos => pos :: records patch n (nextRecord patch pos)

theorem andThen_result {s t : Sent} : (s.andThen t).result = 0 ↔ s.result = 0 ∧ t.result = 0 := by
  unfold Sent.andThen
  split <;> simp_all

theorem andThen_done (s : Sent) : s.andThen ⟨[], 0⟩ = s := by
  unfold Sent.andThen
  split
  · next h => rw [List.append_nil, ← h]
  · rfl

theorem chunkLoop_succ (n pos : Nat) :
    chunkLoop z old patch (n + 1) pos =
      (chunkLoop z old patch 1 pos).andThen (chunkLoop z old patch n (nextRecord patch pos)) := by
  have hfail : ∀ t, Sent.andThen (.fail (-1)) t = .fail (-1) := fun _ => rfl
  simp only [chunkLoop, nextRecord]
  split
  · rw [hfail]
  split
  · split <;> simp only [hfail, andThen_done]
  split
  · split
    · rw [hfail]
    split
    · rw [hfail]
    split <;> simp only [hfail, andThen_done]
  split
  · split <;> simp only [hfail, andThen_done]
  · rw [hfail]

theorem chunkLoop_applied {n pos : Nat} (h : (chunkLoop z old patch n pos).result = 0)
    (hn : ∀ q ∈ records patch n pos, NormalAt patch q → (outcome z old patch q).result = 0) :
    ∀ q ∈ records patch n pos, (outcome z old patch q).result = 0 := by
  induction n generalizing pos with
  | zero => exact nofun
  | succ n ih =>
    rw [chunkLoop_succ, andThen_result] at h
    simp only [records, List.forall_mem_cons] at hn ⊢
    refine ⟨?_, ih h.2 hn.2⟩
    by_cases hq : NormalAt patch pos
    · exact hn.1 hq
    · rw [outcome, if_neg hq]
      exact h.1

def ReturnsZero (z : Codec) (old patch : Bytes) (take : Nat → Nat) (fed : Fed (Nat × Bytes)) : Prop :=
  feed (limitedSink take) (applyImagePatch z old patch).pieces [] (0, []) = .ret fed ∧ fed.ok = true ∧
    (applyImagePatch z old patch).result = 0

/-- The chunks of a patch that are `P` have been applied, and the sink has taken all pieces that are `Q`. -/
def Applied (z : Codec) (old patch : Bytes) (take : Nat → Nat) (P : Nat → Prop) (Q : Piece → Prop) : Prop :=
  (∀ pos ∈ records patch (read4 patch 8).toNat 12, P pos → (outcome z old patch pos).result = 0) ∧
    TakesAll take Q 0 (applyImagePatch z old patch).pieces

def oneNormal : Bytes := imgdiff2 ++ write4 1 ++ List.replicate 28 0

def applying (r : Option Bytes) : Codec := ⟨fun _ _ => r, fun _ => none, fun _ d => d⟩

end G3Mod.Recovery.Applypatch
