import G3Mod.Logger.Lemmas.Refine

/-!
# Every operation keeps the log and the queue together
-/

namespace G3Mod.Logger

open Function

variable {log log' : Log} {f : Fifo} {stamp : List Byte} {segs : List Segment} {ret : Option Nat} {n off orig L : Nat}
  {r : ReaderId} {rd : Reader} {recv : ReaderId → List (List Byte)} {s t : State} {op : Op} {o : Out}

theorem le_lap {size : Nat} : n ≤ f.lap size L n := by
  unfold Fifo.lap
  split
  · exact Nat.le_add_right _ _
  · exact Nat.le_refl _

section

variable {A B C D : Type} {R : A → B → Prop} {S : C → D → Prop} {a : Option A} {b : Option B}

theorem optionRel_map {g : A → C} {g' : B → D} (h : Option.Rel R a b) (hRS : ∀ {x y}, R x y → S (g x) (g' y)) :
    Option.Rel S (a.map g) (b.map g') := by
  cases h with
  | none => exact .none
  | some hr => exact .some (hRS hr)

theorem optionRel_imp {R' : A → B → Prop} (h : Option.Rel R a b) (hR : ∀ {x y}, R x y → R' x y) :
    Option.Rel R' a b := by
  cases h with
  | none => exact .none
  | some hr => exact .some (hR hr)

end

theorem At.congr {es : List (List Byte)} (h : At log es n off) (hb : log'.buffer = log.buffer)
    (hs : log'.size = log.size) : At log' es n off where
  le := h.le
  off := hs ▸ h.off
  lt := hs ▸ h.lt
  held i b hi := by
    rw [hb, hs]
    exact h.held i b hi

/-! ## Writing -/

section

variable (h : Rel log f)

include h

theorem Rel.moved (es : List (List Byte)) (hhead : log'.head = fixUp log L log.head)
    (hrOff : log'.rOff = fun r => (log.rOff r).map (fixUp log L))
    (hmove : ∀ {n off}, At log f.entries n off → At log' es (f.lap log.size L n) (fixUp log L off)) :
    At log' es (f.lap log.size L f.head) log'.head ∧
      ∀ r, Option.Rel (fun off rd => At log' es (Reader.next rd) off) (log'.rOff r)
        ((f.reader r).map fun rd => rd.skipTo (f.lap log.size L rd.next)) := by
  refine ⟨hhead ▸ hmove h.head, fun r => ?_⟩
  rw [hrOff]
  exact optionRel_map (h.reader r) hmove

theorem Rel.fixUp_at (ha : At log f.entries n off) :
    At log f.entries (f.lap log.size (entryLen segs) n) (fixUp log (entryLen segs) off) ∧
      f.total + entryLen segs < f.pos (f.lap log.size (entryLen segs) n) + log.size :=
  ha.fixUp h.sized h.wOff h.framed (Nat.lt_of_lt_of_le (by decide : 0 < headerSize) (Nat.le_add_right _ _))
    (entryLen_le segs)

theorem Rel.failed (hstamp : stamp.length + 2 = headerSize) (hne : min (kiLeft segs) entryMaxPayload ≠ 0)
    (hx : loggerAioWrite orig stamp segs log = (none, log')) :
    log'.wOff = orig ∧ log'.size = log.size ∧ log'.head = fixUp log (entryLen segs) log.head ∧
      (log'.rOff = fun r => (log.rOff r).map (fixUp log (entryLen segs))) ∧
      ∀ {n off}, At log f.entries n off →
        At log' f.entries (f.lap log.size (entryLen segs) n) (fixUp log (entryLen segs) off) := by
  obtain ⟨horig, bs, hbs, hwrote⟩ := loggerAioWrite_cases h.sized h.wOff hstamp hne hx
  refine ⟨horig, hwrote.size, hwrote.head, hwrote.rOff, fun ha => ?_⟩
  obtain ⟨ha', hlt⟩ := h.fixUp_at ha
  exact ha'.wrote (L := entryLen segs) hwrote.size
    (fun hh hW hl => hwrote.keeps h.sized.pos hh hW (by show _ ≤ log.size; omega)) hlt

theorem Rel.write (hstamp : stamp.length + 2 = headerSize)
    (hx : loggerAioWrite orig stamp segs log = (ret, log')) (hc : ret = none → orig = log.wOff) :
    Rel log' (f.write log.size stamp segs ret.isSome) ∧ log'.size = log.size := by
  have hs := h.sized
  by_cases hne : min (kiLeft segs) entryMaxPayload = 0
  · -- an empty write takes no lock
    simp only [loggerAioWrite, if_pos hne] at hx
    cases hx
    rw [Fifo.write, if_pos hne]
    exact ⟨h, rfl⟩
  rw [Fifo.write, if_neg hne]
  cases ret with
  | some m =>
    obtain ⟨hwrote, hoff⟩ := loggerAioWrite_cases hs h.wOff hstamp hne hx
    have hlen : (entryOf stamp segs).length = entryLen segs := length_entryOf hstamp
    have hmoved := h.moved (f.entries ++ [entryOf stamp segs]) hwrote.head hwrote.rOff fun ha => by
      obtain ⟨ha', hlt⟩ := h.fixUp_at ha
      have hkept := ha'.wrote (L := entryLen segs) hwrote.size
        (fun hh hW hl => hwrote.keeps hs.pos hh hW (by rw [hlen]; exact hl)) hlt
      exact hkept.snoc hwrote.held (by rw [hlen, hwrote.size]; exact hlt)
    refine ⟨⟨⟨hwrote.size ▸ hs.pow, hwrote.size ▸ hs.large⟩, ?_, ?_, hmoved.1, hmoved.2⟩, hwrote.size⟩
    · rw [hoff, hwrote.size]
      simp only [Fifo.total, Option.isSome_some, if_true, List.flatten_append, List.length_append,
        List.flatten_singleton]
      rfl
    intro e he
    rcases List.mem_append.mp he with he | he
    · exact h.framed e he
    · rw [List.mem_singleton.mp he]
      exact entryOf_framed hstamp
  | none =>
    obtain ⟨horig, hsize, hhead, hrOff, hmove⟩ := h.failed hstamp hne hx
    have hmoved := h.moved f.entries hhead hrOff hmove
    refine ⟨⟨⟨hsize ▸ hs.pow, hsize ▸ hs.large⟩, ?_, h.framed, hmoved.1, hmoved.2⟩, hsize⟩
    rw [horig, hc rfl, h.wOff, hsize]
    rfl

theorem Rel.wOff_at : At log f.entries f.entries.length log.wOff where
  le := Nat.le_refl _
  off := by rw [List.take_length]; exact h.wOff
  lt := by rw [List.take_length]; exact Nat.lt_add_of_pos_right h.sized.pos
  held := by rw [List.drop_length]; exact .nil

theorem Rel.setReader {off : Option Nat} {rd : Option Reader}
    (hr : Option.Rel (fun off rd => At log f.entries rd.next off) off rd) :
    Rel { log with rOff := update log.rOff r off } (f.setReader r rd) where
  sized := ⟨h.sized.pow, h.sized.large⟩
  wOff := h.wOff
  framed := h.framed
  head := h.head.congr rfl rfl
  reader r' := by
    show Option.Rel _ (update log.rOff r off r') (update f.reader r rd r')
    by_cases he : r' = r
    · rw [he, update_self, update_self]
      exact optionRel_imp hr fun ha => ha.congr rfl rfl
    · rw [update_of_ne he, update_of_ne he]
      exact optionRel_imp (h.reader r') fun ha => ha.congr rfl rfl

theorem Rel.flush : Rel (flushLog log)
    { f with head := f.entries.length, reader := fun r => (f.reader r).map (Reader.skipTo f.entries.length) } where
  sized := ⟨h.sized.pow, h.sized.large⟩
  wOff := h.wOff
  framed := h.framed
  head := h.wOff_at.congr rfl rfl
  reader r := optionRel_map (h.reader r) fun _ => h.wOff_at.congr rfl rfl

end

/-- The state after a history with the queue `f` and the bytes `recv` received by each reader. -/
structure Tracks (s : State) (f : Fifo) (recv : ReaderId → List (List Byte)) : Prop where
  rel : Rel s.log f
  got : ∀ {r rd}, f.reader r = some rd → rd.Got f.entries (recv r)

theorem Tracks.write {w : WriterId} (h : Tracks s f recv) (hp : (Op.write w stamp segs).Permitted s)
    (hc : (Op.write w stamp segs).Careful s) (hx : exec s (.write w stamp segs) = .ok (o, t)) :
    Tracks t (f.step s.log.size (.write w stamp segs, o)) recv ∧ t.log.size = s.log.size := by
  obtain ⟨orig, horig⟩ := Option.isSome_iff_exists.mp hp.1
  simp only [exec, horig] at hx
  cases hx
  have hret : loggerAioWrite orig stamp segs s.log =
      ((loggerAioWrite orig stamp segs s.log).1, (loggerAioWrite orig stamp segs s.log).2) := rfl
  obtain ⟨hrel, hsize⟩ := h.rel.write hp.2 hret (hc orig horig)
  refine ⟨⟨hrel, fun {r rd} hrd => ?_⟩, hsize⟩
  simp only [Fifo.step, Fifo.write] at hrd ⊢
  split at hrd
  next h0 =>
    simp only [if_pos h0]
    exact h.got hrd
  rename_i h0
  simp only [if_neg h0]
  obtain ⟨rd', hrd', rfl⟩ := Option.map_eq_some_iff.mp hrd
  obtain ⟨off, _, ha⟩ := h.rel.next hrd'
  have hgot := (h.got hrd').skipTo (n := f.lap s.log.size (headerSize + min (kiLeft segs) entryMaxPayload) rd'.next)
    le_lap
  split
  · refine ((h.got hrd').append ha.le).skipTo le_lap
  · exact hgot

theorem Tracks.read {count : Nat} {fault : Bool} (h : Tracks s f recv) (hx : exec s (.read r count fault) = .ok (o, t)) :
    Tracks t (f.step s.log.size (.read r count fault, o)) (fun r' => receive r' (recv r') (.read r count fault, o)) ∧
      t.log.size = s.log.size := by
  simp only [exec] at hx
  split at hx
  · cases hx
  rename_i off hoff
  simp only [loggerRead] at hx
  obtain ⟨rd, hrd, ha⟩ := h.rel.place hoff
  split at hx
  · cases hx
    exact ⟨⟨h.rel, h.got⟩, rfl⟩
  rename_i hne
  obtain ⟨e, hn, hlen, hread, hnext⟩ := ha.next h.rel.sized h.rel.wOff h.rel.framed hne
  rw [hlen, hread] at hx
  split at hx
  · cases hx
    exact ⟨⟨h.rel, h.got⟩, rfl⟩
  split at hx
  · cases hx
    exact ⟨⟨h.rel, h.got⟩, rfl⟩
  cases hx
  refine ⟨⟨?_, fun {r' rd'} hrd' => ?_⟩, rfl⟩
  · simp only [Fifo.step, hrd]
    exact h.rel.setReader (.some hnext)
  simp only [Fifo.step, Fifo.setReader, hrd] at hrd' ⊢
  simp only [receive]
  by_cases he : r' = r
  · rw [he, update_self] at hrd'
    cases hrd'
    rw [he, if_pos rfl]
    exact (h.got hrd).readNext hn
  · rw [update_of_ne he] at hrd'
    rw [if_neg (Ne.symm he)]
    exact h.got hrd'

theorem Tracks.step (h : Tracks s f recv) (hp : op.Permitted s) (hc : op.Careful s) (hx : exec s op = .ok (o, t)) :
    Tracks t (f.step s.log.size (op, o)) (fun r => receive r (recv r) (op, o)) ∧ t.log.size = s.log.size := by
  cases op with
  | beginWrite w =>
    cases hx
    exact ⟨⟨h.rel, h.got⟩, rfl⟩
  | write w stamp segs =>
    obtain ⟨ht, hsize⟩ := h.write hp hc hx
    exact ⟨ht, hsize⟩
  | open_ r =>
    cases hx
    refine ⟨⟨h.rel.setReader (.some h.rel.head), fun {r' rd} hrd => ?_⟩, rfl⟩
    simp only [Fifo.step, Fifo.setReader] at hrd ⊢
    simp only [receive]
    by_cases he : r' = r
    · rw [he, update_self] at hrd
      cases hrd
      rw [if_pos he.symm]
      exact newReader_got
    · rw [update_of_ne he] at hrd
      rw [if_neg (Ne.symm he)]
      exact h.got hrd
  | read r count fault => exact h.read hx
  | flush =>
    cases hx
    refine ⟨⟨h.rel.flush, fun {r rd} hrd => ?_⟩, rfl⟩
    obtain ⟨rd', hrd', rfl⟩ := Option.map_eq_some_iff.mp hrd
    obtain ⟨off, _, ha⟩ := h.rel.next hrd'
    exact (h.got hrd').skipTo ha.le
  | release r =>
    cases hx
    refine ⟨⟨h.rel.setReader .none, fun {r' rd} hrd => ?_⟩, rfl⟩
    simp only [Fifo.step, Fifo.setReader] at hrd
    by_cases he : r' = r
    · rw [he, update_self] at hrd
      cases hrd
    · rw [update_of_ne he] at hrd
      exact h.got hrd

theorem tracks_init {k : Nat} (hk : entryMaxLen < 2 ^ k) (h : (machine k).init s) :
    Tracks s emptyFifo fun _ => [] where
  rel := by
    obtain ⟨hsize, hw, hhead, hr, _⟩ := h
    have hzero : At s.log [] 0 0 := ⟨Nat.le_refl _, by simp, by simpa [hsize] using Nat.two_pow_pos k, .nil⟩
    have hw' : s.log.wOff = emptyFifo.total % s.log.size := by
      rw [hw]
      exact (Nat.zero_mod _).symm
    refine ⟨⟨⟨k, hsize⟩, hsize ▸ hk⟩, hw', fun e he => absurd he List.not_mem_nil, ?_, fun r => ?_⟩
    · rw [hhead]
      exact hzero
    · rw [hr]
      exact .none
  got hrd := by cases hrd

theorem tracks_run {k : Nat} (hk : entryMaxLen < 2 ^ k) {s0 : State} {es : List (Op × Out)}
    (h0 : (carefulMachine k).init s0) (h : (carefulMachine k).Run s0 es s) :
    Tracks s (Fifo.after (2 ^ k) es) (fun r => received r es) ∧ s.log.size = 2 ^ k := by
  induction h with
  | nil => exact ⟨tracks_init hk h0, h0.1⟩
  | snoc _ he hx ih =>
    obtain ⟨htracks, hsize⟩ := ih
    have := htracks.step he.1 he.2 hx
    rw [hsize] at this
    simp only [Fifo.after, received, List.foldl_append, List.foldl_cons, List.foldl_nil]
    exact this

/-! # The log is a queue of entries -/

open Lib

variable {s₀ : State} {es : List (Op × Out)} {k : Nat} {w : WriterId}

/-- The offset `off` is the start of the entry `n` of the queue, or its end; the entries from there are in the log. -/
structure OnEntry (log : Log) (f : Fifo) (n off : Nat) : Prop where
  le : n ≤ f.entries.length
  eq : off = f.pos n % log.size
  walk : ∃ m < log.size, Walk log off m
  readable : readable log off = f.entries.drop n

theorem Rel.onEntry (h : Rel log f) (ha : At log f.entries n off) : OnEntry log f n off :=
  ⟨ha.le, ha.off, h.walk ha, h.readable ha⟩

/-! ## Without failing writes -/

/-- Each reader has got the entries in order and once, but for those lost by lapping or by a flush. -/
theorem ring_is_fifo (hk : entryMaxLen < 2 ^ k) (h₀ : (successMachine k).init s₀)
    (h : (successMachine k).Run s₀ es s) :
    OnEntry s.log (Fifo.after (2 ^ k) es) (Fifo.after (2 ^ k) es).head s.log.head ∧
      ∀ {r off}, s.log.rOff r = some off → ∃ rd, (Fifo.after (2 ^ k) es).reader r = some rd ∧
        OnEntry s.log (Fifo.after (2 ^ k) es) rd.next off ∧ rd.Got (Fifo.after (2 ^ k) es).entries (received r es) := by
  have hrun : (carefulMachine k).Run s₀ es s := h.mono rfl fun he => ⟨he.1, he.2.careful⟩
  obtain ⟨htracks, _⟩ := tracks_run hk h₀ hrun
  refine ⟨htracks.rel.onEntry htracks.rel.head, fun hoff => ?_⟩
  obtain ⟨rd, hrd, ha⟩ := htracks.rel.place hoff
  exact ⟨rd, hrd, htracks.rel.onEntry ha, htracks.got hrd⟩

def emptyState : State where
  log := { buffer := fun _ => 0, wOff := 0, head := 0, size := 2 ^ 13, rOff := fun _ => none }
  orig _ := none

theorem emptyState_init : (machine 13).init emptyState := ⟨rfl, rfl, rfl, fun _ => rfl, fun _ => rfl⟩

def blankStamp : List Byte := List.replicate 18 0

def letter : Segment := ⟨[65], .ok, .ok⟩

def torn : Segment := ⟨[66], .fault fun _ => 0, .ok⟩

def after (s : State) (op : Op) : State :=
  match exec s op with
  | .ok (_, t) => t
  | .error _ => s

def oneLetter : State := after (after emptyState (.beginWrite 0)) (.write 0 blankStamp [letter])

def oneLetterHistory : List (Op × Out) :=
  [(.beginWrite 0, .done), (.write 0 blankStamp [letter], .write (some 1)), (.open_ 0, .done)]

theorem oneLetter_run : (successMachine 13).Run emptyState oneLetterHistory (after oneLetter (.open_ 0)) := by
  have h1 : (successMachine 13).Run emptyState [(.beginWrite 0, .done)] (after emptyState (.beginWrite 0)) :=
    Machine.Run.cons ⟨rfl, trivial⟩ rfl .nil
  have h2 : (successMachine 13).Run emptyState [(.beginWrite 0, .done), (.write 0 blankStamp [letter], .write (some 1))]
      oneLetter :=
    h1.snoc ⟨⟨rfl, rfl⟩, fun orig h => by cases h; rfl⟩ rfl
  exact h2.snoc ⟨rfl, trivial⟩ rfl

theorem reader_of_oneLetter : ∃ rd, (Fifo.after (2 ^ 13) oneLetterHistory).reader 0 = some rd ∧
    OnEntry (after oneLetter (.open_ 0)).log (Fifo.after (2 ^ 13) oneLetterHistory) rd.next 0 ∧
    rd.Got (Fifo.after (2 ^ 13) oneLetterHistory).entries (received 0 oneLetterHistory) := by
  have hoff : (after oneLetter (.open_ 0)).log.rOff 0 = some 0 := rfl
  exact (ring_is_fifo (k := 13) (by decide) emptyState_init oneLetter_run).2 hoff

/-! ## Failing writes -/

/-- From `off'` the same entries can be read as before from `off`, without those dropped by `fix_up_readers`. -/
structure Kept (log log' : Log) (len off off' : Nat) : Prop where
  readable : readable log' off' = (readable log off).drop
    (if clockInterval log.wOff (loggerOffset (log.wOff + len) log) off then dropCount len (readable log off) else 0)
  walk : ∃ n < log'.size, Walk log' off' n

structure Intact (log log' : Log) (len : Nat) : Prop where
  head : Kept log log' len log.head log'.head
  reader : ∀ r, Option.Rel (Kept log log' len) (log.rOff r) (log'.rOff r)

theorem Rel.drop_lap (h : Rel log f) (ha : At log f.entries n off) :
    f.entries.drop (f.lap log.size (entryLen segs) n) = (f.entries.drop n).drop
      (if clockInterval log.wOff (loggerOffset (log.wOff + entryLen segs) log) off then
        dropCount (entryLen segs) (f.entries.drop n) else 0) := by
  have hlarge := h.sized.large
  have hle := entryLen_le segs
  have hsum := take_add_drop f.entries n
  have hpos : 0 < entryLen segs := Nat.lt_of_lt_of_le (by decide : 0 < headerSize) (Nat.le_add_right _ _)
  have hclock : clockInterval log.wOff (loggerOffset (log.wOff + entryLen segs) log) off = true ↔
      f.Lapped log.size (entryLen segs) n := by
    rw [h.wOff, h.sized.offset_eq, Nat.mod_add_mod, ha.off]
    exact clockInterval_iff h.sized.pos (by unfold Fifo.total; omega) ha.lt hpos (by omega)
  rw [Fifo.lap, List.drop_drop]
  by_cases hl : f.Lapped log.size (entryLen segs) n
  · rw [if_pos hl, if_pos (hclock.mpr hl)]
  · rw [if_neg hl, if_neg fun hc => hl (hclock.mp hc), Nat.add_zero]

theorem Rel.intact (h : Rel log f) (hstamp : stamp.length + 2 = headerSize)
    (hne : min (kiLeft segs) entryMaxPayload ≠ 0) (hx : loggerAioWrite log.wOff stamp segs log = (none, log')) :
    Intact log log' (entryLen segs) := by
  obtain ⟨_, _, hhead, hrOff, hmove⟩ := h.failed hstamp hne hx
  obtain ⟨h', _⟩ := h.write hstamp hx fun _ => rfl
  rw [Fifo.write, if_neg hne] at h'
  have hkept : ∀ {n off}, At log f.entries n off → Kept log log' (entryLen segs) off (fixUp log (entryLen segs) off) :=
    fun ha => ⟨by rw [h'.readable (hmove ha), h.readable ha]; exact h.drop_lap ha, h'.walk (hmove ha)⟩
  refine ⟨hhead ▸ hkept h.head, fun r => ?_⟩
  simp only [hrOff]
  cases hoff : log.rOff r with
  | none => exact .none
  | some off =>
    obtain ⟨rd, _, ha⟩ := h.place hoff
    exact .some (hkept ha)

theorem Rel.wOff_of_kept (h : Rel log f) (hstamp : stamp.length + 2 = headerSize)
    (hne : min (kiLeft segs) entryMaxPayload ≠ 0) (hx : loggerAioWrite orig stamp segs log = (none, log'))
    (hi : Kept log log' (entryLen segs) log.head log'.head) : orig = log.wOff := by
  obtain ⟨horig, hsize, hhead, _, hmove⟩ := h.failed hstamp hne hx
  have ha := hmove h.head
  have hs : Sized log' := ⟨hsize ▸ h.sized.pow, hsize ▸ h.sized.large⟩
  have hr := hi.readable
  have hfr : ∀ e ∈ f.entries.drop (f.lap log.size (entryLen segs) f.head), Framed e := fun e he =>
    h.framed e (List.mem_of_mem_drop he)
  have hsum := take_add_drop f.entries (f.lap log.size (entryLen segs) f.head)
  have hlen := length_le_flatten hfr
  have hlt := ha.lt
  rw [h.readable h.head, ← h.drop_lap h.head, hhead, ha.off] at hr
  have := wOff_of_readableLoop log'.size hs hfr ha.held (by omega) hr
  rw [horig, hsum, hsize] at this
  rw [this, h.wOff]
  rfl

/-- If failed writes have found the write offset where they had read it, a further failure loses only the entries that
had to make room iff it does so too. -/
theorem failed_write_keeps_iff (hk : entryMaxLen < 2 ^ k) (h₀ : (carefulMachine k).init s₀)
    (h : (carefulMachine k).Run s₀ es s) (hp : (Op.write w stamp segs).Permitted s) (horig : s.orig w = some orig)
    (hx : exec s (.write w stamp segs) = .ok (.write none, t)) :
    readable s.log s.log.head = (Fifo.after (2 ^ k) es).entries.drop (Fifo.after (2 ^ k) es).head ∧
      (Intact s.log t.log (entryLen segs) ↔ orig = s.log.wOff) := by
  obtain ⟨htracks, _⟩ := tracks_run hk h₀ h
  have hrel := htracks.rel
  simp only [exec, horig] at hx
  have hwrite : loggerAioWrite orig stamp segs s.log = (none, t.log) := by
    cases hx' : loggerAioWrite orig stamp segs s.log with
    | mk ret log' =>
      rw [hx'] at hx
      cases hx
      rfl
  have hne : min (kiLeft segs) entryMaxPayload ≠ 0 := by
    intro h0
    rw [loggerAioWrite, if_pos h0] at hwrite
    cases hwrite
  refine ⟨hrel.readable hrel.head, fun hi => hrel.wOff_of_kept hp.2 hne hwrite hi.head, ?_⟩
  rintro rfl
  exact hrel.intact hp.2 hne hwrite

def tornState : State := after emptyState (.beginWrite 0)

theorem torn_alone : tornState.orig 0 = some 0 ∧
    Intact tornState.log (after tornState (.write 0 blankStamp [torn])).log (entryLen [torn]) := by
  have hrun : (carefulMachine 13).Run emptyState [(.beginWrite 0, .done)] tornState :=
    Machine.Run.cons ⟨rfl, trivial⟩ rfl .nil
  have hp : (Op.write 0 blankStamp [torn]).Permitted tornState := ⟨rfl, rfl⟩
  have hx : exec tornState (.write 0 blankStamp [torn]) =
      .ok (.write none, after tornState (.write 0 blankStamp [torn])) := rfl
  exact ⟨rfl, (failed_write_keeps_iff (k := 13) (by decide) emptyState_init hrun hp rfl hx).2.mpr rfl⟩

def overtaken : State :=
  after (after (after emptyState (.beginWrite 0)) (.beginWrite 1)) (.write 1 blankStamp [letter])

theorem overtaken_loses_letter : (machine 13).Reachable overtaken ∧ (Op.write 0 blankStamp [torn]).Permitted overtaken ∧
    exec overtaken (.write 0 blankStamp [torn]) = .ok (.write none, after overtaken (.write 0 blankStamp [torn])) ∧
    ¬ Intact overtaken.log (after overtaken (.write 0 blankStamp [torn])).log (entryLen [torn]) := by
  have hreach : (machine 13).Reachable overtaken := by
    have hp1 : (Op.beginWrite 0).Permitted emptyState := rfl
    have hp2 : (Op.beginWrite 1).Permitted (after emptyState (.beginWrite 0)) := rfl
    have h1 := (Machine.Reachable.init emptyState_init).step (l := Op.beginWrite 0)
      (t := after emptyState (.beginWrite 0)) (o := .done) hp1 rfl
    have h2 := h1.step (l := Op.beginWrite 1)
      (t := after (after emptyState (.beginWrite 0)) (.beginWrite 1)) (o := .done) hp2 rfl
    exact h2.step (l := .write 1 blankStamp [letter]) (t := overtaken) (o := .write (some 1)) ⟨rfl, rfl⟩ rfl
  refine ⟨hreach, ⟨rfl, rfl⟩, rfl, fun hi => ?_⟩
  have hr := hi.head.readable
  -- the write offset is back at the head, so that nothing can be read any more
  have hempty : readable (after overtaken (.write 0 blankStamp [torn])).log
      (after overtaken (.write 0 blankStamp [torn])).log.head = [] := readable_wOff
  have hclock : clockInterval overtaken.log.wOff (loggerOffset (overtaken.log.wOff + entryLen [torn]) overtaken.log)
      overtaken.log.head = false := by decide
  have hsome : overtaken.log.wOff = overtaken.log.head := wOff_of_readable_nil (by decide) hr.symm
  exact absurd hsome (by decide)

end G3Mod.Logger
