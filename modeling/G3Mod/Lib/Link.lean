import G3Mod.Lib.Machine

/-!
# Frames over a link

A sender writes messages as frames into a bounded queue, a peer carries complete frames over to a second queue, and a
receiver reads that one.
-/

namespace Lib

/-- Queues `Q` of bytes `B`, sender states `W`, receiver states `R`, messages `M`, deliveries `D`, faults `E`. -/
structure Channel (Q W R M D B E : Type) where
  contents : Q → List B
  room : Q → Nat
  push : Q → List B → Q
  pop : Q → Nat → Q
  /-- the length of the complete frame that the bytes begin with -/
  frameLen : List B → Option Nat
  /-- `false` when the message, or the rest of it, is to be offered again -/
  write : Q → W → M → Except E (Q × W × Bool)
  read : Q → R → Except E (Q × R × List D)
  out₀ : Q
  inn₀ : Q
  tx₀ : W
  rx₀ : R

namespace Channel

variable {Q W R M D B E : Type}

structure State (Q W R M D B : Type) where
  out : Q
  wire : List B
  inn : Q
  tx : W
  rx : R
  /-- the message that is to be offered again -/
  pending : Option M
  written : List M
  delivered : List D

inductive Op (M : Type) where
  | write (m : M)
  /-- the peer takes a complete frame -/
  | drain
  /-- the peer gives a complete frame -/
  | feed
  | read

def start (C : Channel Q W R M D B E) : State Q W R M D B :=
  ⟨C.out₀, [], C.inn₀, C.tx₀, C.rx₀, none, [], []⟩

def exec (C : Channel Q W R M D B E) (s : State Q W R M D B) : Op M → Except E (Unit × State Q W R M D B)
  | .write m =>
    match C.write s.out s.tx m with
    | .error e => .error e
    | .ok (out, tx, done) =>
      .ok ((), { s with
        out := out
        tx := tx
        pending := if done then none else some m
        written := if done then s.written ++ [m] else s.written })
  | .drain =>
    let n := (C.frameLen (C.contents s.out)).getD 0
    .ok ((), { s with out := C.pop s.out n, wire := s.wire ++ (C.contents s.out).take n })
  | .feed =>
    let n := (C.frameLen s.wire).getD 0
    .ok ((), { s with wire := s.wire.drop n, inn := C.push s.inn (s.wire.take n) })
  | .read =>
    match C.read s.inn s.rx with
    | .error e => .error e
    | .ok (inn, rx, ds) => .ok ((), { s with inn := inn, rx := rx, delivered := s.delivered ++ ds })

/-- `allow` says which messages may be offered in which state of the sender. -/
def Permitted (C : Channel Q W R M D B E) (allow : Q → W → M → Prop) (s : State Q W R M D B) : Op M → Prop
  | .write m => allow s.out s.tx m ∧ ∀ m' ∈ s.pending, m' = m
  | .drain => (C.frameLen (C.contents s.out)).isSome
  | .feed => ∃ n ∈ C.frameLen s.wire, n ≤ C.room s.inn
  | .read => True

def machine (C : Channel Q W R M D B E) (allow : Q → W → M → Prop) : Machine (State Q W R M D B) (Op M) Unit E where
  init s := s = C.start
  enabled := C.Permitted allow
  exec := C.exec

def Idle (C : Channel Q W R M D B E) (s : State Q W R M D B) : Prop :=
  C.contents s.out = [] ∧ s.wire = [] ∧ C.contents s.inn = []

theorem relay {C : Channel Q W R M D B E} (allow : Q → W → M → Prop) {m : M} {q : Q} {w : W} {done : Bool}
    (ha : allow C.out₀ C.tx₀ m) (hw : C.write C.out₀ C.tx₀ m = .ok (q, w, done))
    (hf : C.frameLen (C.contents q) = some (C.contents q).length) (hr : (C.contents q).length ≤ C.room C.inn₀) :
    ∃ s, (C.machine allow).Reachable s ∧ s.inn = C.push C.inn₀ (C.contents q) := by
  have h0 : (C.machine allow).Reachable C.start := Machine.Reachable.init rfl
  have x1 : C.exec C.start (.write m) = .ok ((), { C.start with
      out := q
      tx := w
      pending := if done then none else some m
      written := if done then [] ++ [m] else [] }) := by
    simp only [exec, start, hw]
  have h1 := h0.step (show (C.machine allow).enabled C.start (.write m) from ⟨ha, nofun⟩) x1
  have h2 := h1.step (show (C.machine allow).enabled _ .drain from Option.isSome_of_eq_some hf) rfl
  have hwire : ([] : List B) ++ (C.contents q).take ((C.frameLen (C.contents q)).getD 0) = C.contents q := by
    rw [hf, Option.getD_some, List.take_length, List.nil_append]
  simp only [start, hwire] at h2
  have h3 := h2.step (show (C.machine allow).enabled _ .feed from ⟨_, hf, hr⟩) rfl
  refine ⟨_, h3, ?_⟩
  simp only [hf, Option.getD_some, List.take_length]

theorem exec_read_error {C : Channel Q W R M D B E} {s : State Q W R M D B} {e : E} (h : C.read s.inn s.rx = .error e) :
    C.exec s .read = .error e := by
  simp only [exec, h]

/-! ## Frames and their meaning -/

variable {F A : Type}

/-- What the receiver makes of frames, from an abstract receiver state on. -/
def recvs (recv : A → F → A × List D) : A → List F → A × List D
  | a, [] => (a, [])
  | a, f :: fs => ((recvs recv (recv a f).1 fs).1, (recv a f).2 ++ (recvs recv (recv a f).1 fs).2)

theorem recvs_append (recv : A → F → A × List D) (a : A) (fs gs : List F) :
    recvs recv a (fs ++ gs) = ((recvs recv (recvs recv a fs).1 gs).1, (recvs recv a fs).2 ++ (recvs recv (recvs recv a fs).1 gs).2) := by
  induction fs generalizing a with
  | nil => rfl
  | cons f fs ih => simp [recvs, ih]

def encs (enc : F → List B) (fs : List F) : List B := (fs.map enc).flatten

@[simp] theorem encs_nil (enc : F → List B) : encs enc [] = [] := rfl

@[simp] theorem encs_cons (enc : F → List B) (f : F) (fs : List F) : encs enc (f :: fs) = enc f ++ encs enc fs := rfl

@[simp] theorem encs_append (enc : F → List B) (fs gs : List F) : encs enc (fs ++ gs) = encs enc fs ++ encs enc gs := by
  simp [encs]

theorem length_le_encs {enc : F → List B} (h : ∀ f, enc f ≠ []) (fs : List F) : fs.length ≤ (encs enc fs).length := by
  induction fs with
  | nil => exact Nat.le_refl _
  | cons f fs ih =>
    have := List.length_pos_iff.2 (h f)
    rw [encs_cons, List.length_append, List.length_cons]
    omega

/-- The sender writes frames `F`, the receiver reads them; `sync` ties their states together. -/
structure Speaks (C : Channel Q W R M D B E) (allow : Q → W → M → Prop) (payload : M → D) (enc : F → List B)
    (ok : F → Prop) (recv : A → F → A × List D) (sync : W → A → Option M → Prop) (rel : R → A → Prop) (a₀ : A) : Prop where
  enc_ne_nil : ∀ f, enc f ≠ []
  frameLen_nil : C.frameLen [] = none
  frameLen_enc : ∀ f rest, ok f → C.frameLen (enc f ++ rest) = some (enc f).length
  contents_pop : ∀ q n, n ≤ (C.contents q).length → C.contents (C.pop q n) = (C.contents q).drop n
  contents_push : ∀ q bs, bs.length ≤ C.room q → C.contents (C.push q bs) = C.contents q ++ bs
  contents_out : C.contents C.out₀ = []
  contents_inn : C.contents C.inn₀ = []
  sync_start : sync C.tx₀ a₀ none
  rel_start : rel C.rx₀ a₀
  write : ∀ q w m a pend, allow q w m → sync w a pend → (∀ m' ∈ pend, m' = m) →
    ∃ q' w' done fs, C.write q w m = .ok (q', w', done) ∧ C.contents q' = C.contents q ++ encs enc fs ∧ (∀ f ∈ fs, ok f) ∧
      (recvs recv a fs).2 = (if done then [payload m] else []) ∧
      sync w' (recvs recv a fs).1 (if done then none else some m)
  read : ∀ q r a fs, C.contents q = encs enc fs → (∀ f ∈ fs, ok f) → rel r a →
    ∃ q' r', C.read q r = .ok (q', r', (recvs recv a fs).2) ∧ C.contents q' = [] ∧ rel r' (recvs recv a fs).1

section

variable {C : Channel Q W R M D B E} {allow : Q → W → M → Prop} {payload : M → D} {enc : F → List B} {ok : F → Prop}
  {recv : A → F → A × List D} {sync : W → A → Option M → Prop} {rel : R → A → Prop} {a₀ : A}

/-- The frames under way, and what the receiver will make of them. -/
structure Carries (C : Channel Q W R M D B E) (payload : M → D) (enc : F → List B) (ok : F → Prop)
    (recv : A → F → A × List D) (sync : W → A → Option M → Prop) (rel : R → A → Prop) (s : State Q W R M D B) (a : A)
    (fi fw fo : List F) : Prop where
  inn : C.contents s.inn = encs enc fi
  wire : s.wire = encs enc fw
  out : C.contents s.out = encs enc fo
  ok : ∀ f ∈ fi ++ fw ++ fo, ok f
  rel : rel s.rx a
  sync : sync s.tx (recvs recv a (fi ++ fw ++ fo)).1 s.pending
  delivered : s.delivered ++ (recvs recv a (fi ++ fw ++ fo)).2 = s.written.map payload

section

variable (h : Speaks C allow payload enc ok recv sync rel a₀)

include h

theorem Speaks.frame_split {fs : List F} (hok : ∀ f ∈ fs, ok f)
    (hs : (C.frameLen (encs enc fs)).isSome) :
    ∃ f fs', fs = f :: fs' ∧ (C.frameLen (encs enc fs)).getD 0 = (enc f).length := by
  cases fs with
  | nil => simp [h.frameLen_nil] at hs
  | cons f fs' =>
    refine ⟨f, fs', rfl, ?_⟩
    rw [encs_cons, h.frameLen_enc f _ (hok f List.mem_cons_self)]
    rfl

theorem Speaks.step {s : State Q W R M D B} {op : Op M} {a : A}
    {fi fw fo : List F} (hc : Carries C payload enc ok recv sync rel s a fi fw fo) (hop : C.Permitted allow s op) :
    ∃ t, C.exec s op = .ok ((), t) ∧ ∃ a fi fw fo, Carries C payload enc ok recv sync rel t a fi fw fo := by
  cases op with
  | write m =>
    obtain ⟨q, w, done, fs, hw, hq, hok, hds, hsync⟩ := h.write s.out s.tx m _ _ hop.1 hc.sync hop.2
    have hr := recvs_append recv a (fi ++ fw ++ fo) fs
    have hall : ∀ f ∈ fi ++ fw ++ (fo ++ fs), ok f := by
      intro f hf
      simp only [← List.append_assoc, List.mem_append (t := fs)] at hf
      exact hf.elim (hc.ok f) (hok f)
    have hout : C.contents q = encs enc (fo ++ fs) := by rw [hq, hc.out, encs_append]
    refine ⟨{ s with
        out := q
        tx := w
        pending := if done then none else some m
        written := if done then s.written ++ [m] else s.written },
      by simp only [exec, hw], a, fi, fw, fo ++ fs, hc.inn, hc.wire, hout, hall, hc.rel, ?_, ?_⟩
    · rw [← List.append_assoc, hr]
      exact hsync
    · rw [← List.append_assoc, hr, ← List.append_assoc, hc.delivered, hds]
      cases done <;> simp
  | drain =>
    have hok : ∀ f ∈ fo, ok f := fun f hf => hc.ok f (List.mem_append_right _ hf)
    obtain ⟨f, fo, rfl, hn⟩ := h.frame_split hok (hc.out ▸ hop)
    rw [← hc.out] at hn
    refine ⟨_, rfl, a, fi, fw ++ [f], fo, hc.inn, ?_, ?_, ?_, hc.rel, ?_, ?_⟩
    · show s.wire ++ (C.contents s.out).take ((C.frameLen (C.contents s.out)).getD 0) = _
      rw [hn, hc.out, hc.wire]
      simp
    · show C.contents (C.pop s.out ((C.frameLen (C.contents s.out)).getD 0)) = _
      rw [hn, h.contents_pop _ _ (by simp [hc.out]), hc.out]
      simp
    · simpa using hc.ok
    · simpa using hc.sync
    · simpa using hc.delivered
  | feed =>
    have hok : ∀ f ∈ fw, ok f := fun f hf => hc.ok f (List.mem_append_left _ (List.mem_append_right _ hf))
    obtain ⟨n, hmem, hroom⟩ := hop
    obtain ⟨f, fw, rfl, hn⟩ := h.frame_split hok (by rw [← hc.wire, hmem]; rfl)
    rw [← hc.wire, hmem] at hn
    obtain rfl : n = (enc f).length := hn
    have hlen : (C.frameLen s.wire).getD 0 = (enc f).length := by
      rw [Option.mem_def.1 hmem]
      rfl
    refine ⟨_, rfl, a, fi ++ [f], fw, fo, ?_, ?_, hc.out, ?_, hc.rel, ?_, ?_⟩
    · show C.contents (C.push s.inn (s.wire.take ((C.frameLen s.wire).getD 0))) = _
      rw [hlen, h.contents_push _ _ (by simpa [hc.wire] using hroom), hc.inn, hc.wire]
      simp
    · show s.wire.drop ((C.frameLen s.wire).getD 0) = _
      rw [hlen, hc.wire]
      simp
    · simpa using hc.ok
    · simpa using hc.sync
    · simpa using hc.delivered
  | read =>
    have hok : ∀ f ∈ fi, ok f := fun f hf => hc.ok f (List.mem_append_left _ (List.mem_append_left _ hf))
    obtain ⟨q, r, hr, hq, hrel⟩ := h.read s.inn s.rx a fi hc.inn hok hc.rel
    have hsplit := recvs_append recv a fi (fw ++ fo)
    rw [← List.append_assoc] at hsplit
    refine ⟨{ s with inn := q, rx := r, delivered := s.delivered ++ (recvs recv a fi).2 }, by simp only [exec, hr],
      (recvs recv a fi).1, [], fw, fo, hq, hc.wire, hc.out, ?_, hrel, ?_, ?_⟩
    · intro f hf
      exact hc.ok f (by simpa using Or.inr hf)
    · have := hc.sync
      rw [hsplit] at this
      exact this
    · have := hc.delivered
      rw [hsplit, ← List.append_assoc] at this
      exact this

/-- Every run: each step returns, what is delivered is a first part of what was written, and it is all of it when nothing
is under way. -/
theorem Speaks.faithful {s : State Q W R M D B}
    (hs : (C.machine allow).Reachable s) :
    (∀ op, C.Permitted allow s op → ∃ t, C.exec s op = .ok ((), t)) ∧ s.delivered <+: s.written.map payload ∧
      (C.Idle s → s.delivered = s.written.map payload) := by
  have hI : (C.machine allow).Inductive fun s => ∃ a fi fw fo, Carries C payload enc ok recv sync rel s a fi fw fo := by
    refine ⟨?_, ?_⟩
    · rintro s rfl
      exact ⟨a₀, [], [], [], h.contents_inn, rfl, h.contents_out, nofun, h.rel_start, h.sync_start, rfl⟩
    · rintro s op ⟨a, fi, fw, fo, hc⟩ hop
      obtain ⟨t, ht, hc'⟩ := h.step hc hop
      exact ⟨(), t, ht, hc'⟩
  obtain ⟨a, fi, fw, fo, hc⟩ := hI.reachable hs
  refine ⟨fun op hop => ?_, ⟨_, hc.delivered⟩, ?_⟩
  · obtain ⟨t, ht, -⟩ := h.step hc hop
    exact ⟨t, ht⟩
  rintro ⟨h1, h2, h3⟩
  have hnil : ∀ fs : List F, encs enc fs = [] → fs = [] := by
    intro fs hfs
    cases fs with
    | nil => rfl
    | cons f fs => simp [h.enc_ne_nil f] at hfs
  have hd := hc.delivered
  rw [hnil fi (hc.inn ▸ h3), hnil fw (hc.wire ▸ h2), hnil fo (hc.out ▸ h1)] at hd
  simpa [recvs] using hd

end

end

end Channel

end Lib
