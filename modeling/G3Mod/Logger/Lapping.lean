import Mathlib.Data.Nat.Find
import G3Mod.Logger.Theorems

/-!
# Where lapped readers are moved

`fix_up_readers` is to pull the head and the readers that a write laps forward to the first entry after the new write
head.
-/

namespace G3Mod.Logger

variable {log log' : Log} {f : Fifo} {es : List (List Byte)} {n m off L len size : Nat} {r : ReaderId} {rd : Reader}

/-! ## What is asked for -/

def ringDistance (size a b : Nat) : Nat := (b + size - a) % size

def InWrite (log : Log) (len off : Nat) : Prop :=
  0 < ringDistance log.size log.wOff off ∧ ringDistance log.size log.wOff off ≤ len

/-- The boundary `m` is the first one from `n` on after the new write head. -/
structure Fifo.FirstAfter (f : Fifo) (size len n m : Nat) : Prop where
  ge : n ≤ m
  le : m ≤ f.entries.length
  after : f.total + len < f.pos m + size
  first : ∀ i, n ≤ i → i < m → f.pos i + size ≤ f.total + len

/-- An offset at `n` goes to the first boundary after the new write head if the write reaches it. -/
structure Pulled (log : Log) (f : Fifo) (len n off off' : Nat) : Prop where
  moved : InWrite log len off → ∃ m, f.FirstAfter log.size len n m ∧ off' = f.pos m % log.size
  kept : ¬ InWrite log len off → off' = off

structure AllPulled (log log' : Log) (f : Fifo) (len : Nat) : Prop where
  head : Pulled log f len f.head log.head log'.head
  reader : ∀ {r rd off}, f.reader r = some rd → log.rOff r = some off →
    ∃ off', log'.rOff r = some off' ∧ Pulled log f len rd.next off off'

/-- If the write reaches the entry `n`, that boundary is at least `len` bytes after it. -/
def Fifo.FirstFar (f : Fifo) (size len n : Nat) : Prop :=
  f.Lapped size len n → ∀ m, f.FirstAfter size len n m → f.pos n + len ≤ f.pos m

theorem Fifo.pos_mono (f : Fifo) (h : n ≤ m) : f.pos n ≤ f.pos m := by
  obtain ⟨d, rfl⟩ := Nat.exists_eq_add_of_le h
  rw [Fifo.pos, Fifo.pos, length_take_add]
  exact Nat.le_add_right _ _

theorem Fifo.pos_length (f : Fifo) : f.pos f.entries.length = f.total := by
  rw [Fifo.pos, List.take_length, Fifo.total]

theorem Fifo.pos_le_total (f : Fifo) (n : Nat) : f.pos n ≤ f.total := by
  have := take_add_drop f.entries n
  unfold Fifo.pos Fifo.total
  omega

theorem length_take_lt_of_lt_dropCount {i : Nat} (hi : i < dropCount len es) (hlen : 0 < len) :
    ((es.take i).flatten).length < len := by
  induction es generalizing len i with
  | nil => exact absurd hi (Nat.not_lt_zero _)
  | cons e es ih =>
    cases i with
    | zero => simpa using hlen
    | succ i =>
      rw [dropCount] at hi
      split at hi
      next hlt =>
        have := ih (Nat.lt_of_succ_lt_succ hi) (by omega)
        rw [List.take_succ_cons, List.flatten_cons, List.length_append]
        omega
      · omega

theorem Fifo.exists_firstAfter (hn : n ≤ f.entries.length) (hlen : len < size) :
    ∃ m, f.FirstAfter size len n m := by
  have hex : ∃ m, n ≤ m ∧ f.total + len < f.pos m + size :=
    ⟨f.entries.length, hn, by rw [f.pos_length]; omega⟩
  classical
  refine ⟨Nat.find hex, (Nat.find_spec hex).1, ?_, (Nat.find_spec hex).2, fun i hi hlt => ?_⟩
  · exact Nat.find_min' hex ⟨hn, by rw [f.pos_length]; omega⟩
  · have := Nat.find_min hex hlt
    omega

theorem inWrite_iff (h : Rel log f) (ha : At log f.entries n off) (hL : 0 < L) (hLm : L ≤ entryMaxLen) :
    InWrite log L off ↔ f.Lapped log.size L n := by
  have hpos := h.sized.pos
  have hlarge := h.sized.large
  have hle := f.pos_le_total n
  have hlt : f.total < f.pos n + log.size := ha.lt
  have hoff : off = f.pos n % log.size := ha.off
  have hdist : ringDistance log.size log.wOff off = (f.pos n + log.size - f.total) % log.size := by
    have hw := add_mod_cases (W := f.pos n) (i := f.total - f.pos n) hpos (by omega)
    rw [Nat.add_sub_cancel' hle] at hw
    rw [ringDistance, h.wOff, hoff, hw]
    generalize f.pos n % log.size = p at *
    split
    · congr 1
      omega
    · rw [show p + log.size - (p + (f.total - f.pos n) - log.size) = f.pos n + log.size - f.total + log.size by omega,
        Nat.add_mod_right]
  rw [InWrite, hdist, Fifo.Lapped]
  rcases Nat.lt_or_ge (f.pos n) f.total with hless | hge
  · rw [Nat.mod_eq_of_lt (by omega)]
    omega
  · rw [show f.pos n + log.size - f.total = log.size by omega, Nat.mod_self]
    omega

theorem fixUp_eq_lap (h : Rel log f) (ha : At log f.entries n off) (hL : 0 < L) (hLm : L ≤ entryMaxLen) :
    fixUp log L off = f.pos (f.lap log.size L n) % log.size :=
  (ha.fixUp h.sized h.wOff h.framed hL hLm).1.off

theorem le_pos_dropCount (h : Rel log f) (hLm : L ≤ entryMaxLen) (hlap : f.Lapped log.size L n) :
    f.pos n + L ≤ f.pos (n + dropCount L (f.entries.drop n)) := by
  have htwo := h.sized.two_mul_le
  have hsum := take_add_drop f.entries n
  have hfit : L ≤ (f.entries.drop n).flatten.length := by
    unfold Fifo.Lapped Fifo.pos Fifo.total at hlap
    omega
  have hge := le_dropCount hfit
  rw [Fifo.pos, Fifo.pos, length_take_add]
  omega

/-- A lapped offset goes to the first boundary after the new write head iff that one is at least `L` bytes after it. -/
theorem fixUp_first_iff (h : Rel log f) (ha : At log f.entries n off) (hL : 0 < L) (hLm : L ≤ entryMaxLen)
    (hlap : f.Lapped log.size L n) (hm : f.FirstAfter log.size L n m) :
    fixUp log L off = f.pos m % log.size ↔ f.pos n + L ≤ f.pos m := by
  have heq := fixUp_eq_lap h ha hL hLm
  rw [Fifo.lap, if_pos hlap] at heq
  have hge := le_pos_dropCount h hLm hlap
  have hlt : f.total < f.pos n + log.size := ha.lt
  have hle := f.pos_le_total (n + dropCount L (f.entries.drop n))
  have hlem := f.pos_le_total m
  have hmono := f.pos_mono hm.ge
  constructor
  · intro hfix
    rw [heq] at hfix
    -- both boundaries are less than the ring apart, so that they are the same
    rcases Nat.lt_trichotomy (f.pos (n + dropCount L (f.entries.drop n))) (f.pos m) with h' | h' | h'
    · exact absurd hfix (mod_ne h' (by omega))
    · omega
    · exact absurd hfix.symm (mod_ne h' (by omega))
  intro hfar
  have hub : m ≤ n + dropCount L (f.entries.drop n) := by
    by_contra hgt
    have := hm.first _ (Nat.le_add_right _ _) (Nat.lt_of_not_le hgt)
    omega
  have hlb : n + dropCount L (f.entries.drop n) ≤ m := by
    by_contra hgt
    obtain ⟨i, rfl⟩ := Nat.exists_eq_add_of_le hm.ge
    have hlt : i < dropCount L (f.entries.drop n) := by omega
    have := length_take_lt_of_lt_dropCount hlt hL
    rw [Fifo.pos, Fifo.pos, length_take_add] at hfar
    omega
  rw [heq, Nat.le_antisymm hlb hub]

theorem pulled_iff (h : Rel log f) (ha : At log f.entries n off) (hL : 0 < L) (hLm : L ≤ entryMaxLen) :
    Pulled log f L n off (fixUp log L off) ↔ f.FirstFar log.size L n := by
  have hlarge := h.sized.large
  have hin := inWrite_iff h ha hL hLm
  constructor
  · intro hp hlap m hm
    obtain ⟨m', hm', heq⟩ := hp.moved (hin.mpr hlap)
    have hsame : m' = m := by
      rcases Nat.lt_trichotomy m' m with h' | h' | h'
      · have := hm.first _ hm'.ge h'
        exact absurd hm'.after (by omega)
      · exact h'
      · have := hm'.first _ hm.ge h'
        exact absurd hm.after (by omega)
    exact (fixUp_first_iff h ha hL hLm hlap hm).mp (hsame ▸ heq)
  · intro hfar
    refine ⟨fun hw => ?_, fun hw => ?_⟩
    · have hlap := hin.mp hw
      obtain ⟨m, hm⟩ := Fifo.exists_firstAfter (f := f) ha.le (Nat.lt_of_le_of_lt hLm hlarge)
      exact ⟨m, hm, (fixUp_first_iff h ha hL hLm hlap hm).mpr (hfar hlap m hm)⟩
    · rw [fixUp_eq_lap h ha hL hLm, Fifo.lap, if_neg fun hl => hw (hin.mpr hl), ha.off]
      rfl

/-! ## All readers -/

@[simp] theorem head_fixUpReaders : (fixUpReaders L log).head = fixUp log L log.head := rfl

@[simp] theorem rOff_fixUpReaders : (fixUpReaders L log).rOff r = (log.rOff r).map (fixUp log L) := rfl

/-- What is lapped goes to the first boundary after the new write head, if that is `L` bytes further for each. -/
theorem fixUpReaders_pulls_iff (h : Rel log f) (hL : 0 < L) (hLm : L ≤ entryMaxLen) :
    AllPulled log (fixUpReaders L log) f L ↔
      f.FirstFar log.size L f.head ∧ ∀ r rd, f.reader r = some rd → f.FirstFar log.size L rd.next := by
  constructor
  · intro hp
    refine ⟨(pulled_iff h h.head hL hLm).mp hp.head, fun r rd hrd => ?_⟩
    obtain ⟨off, hoff, ha⟩ := h.next hrd
    obtain ⟨off', hoff', hpull⟩ := hp.reader hrd hoff
    rw [rOff_fixUpReaders, hoff] at hoff'
    cases hoff'
    exact (pulled_iff h ha hL hLm).mp hpull
  rintro ⟨hhead, hreaders⟩
  refine ⟨(pulled_iff h h.head hL hLm).mpr hhead, fun {r rd off} hrd hoff => ?_⟩
  obtain ⟨off', hoff', ha⟩ := h.next hrd
  rw [hoff] at hoff'
  cases hoff'
  refine ⟨fixUp log L off, ?_, (pulled_iff h ha hL hLm).mpr (hreaders r rd hrd)⟩
  rw [rOff_fixUpReaders, hoff, Option.map_some]

def writtenLog (k : Nat) (es : List (List Byte)) : Log where
  buffer x := es.flatten.getD x 0
  wOff := es.flatten.length
  head := 0
  size := 2 ^ k
  rOff _ := none

def writtenFifo (es : List (List Byte)) : Fifo where
  entries := es
  head := 0
  reader _ := none

theorem rel_written {k : Nat} (hk : entryMaxLen < 2 ^ k) (he : ∀ e ∈ es, Framed e) (hlt : es.flatten.length < 2 ^ k) :
    Rel (writtenLog k es) (writtenFifo es) where
  sized := ⟨⟨k, rfl⟩, hk⟩
  wOff := (Nat.mod_eq_of_lt hlt).symm
  framed := he
  head := by
    refine ⟨Nat.zero_le _, (Nat.zero_mod _).symm, by simpa [writtenFifo, writtenLog] using hlt, fun i b hb => ?_⟩
    have hi : i < es.flatten.length := (List.getElem?_eq_some_iff.mp hb).1
    have hmod : i % 2 ^ k = i := Nat.mod_eq_of_lt (Nat.lt_trans hi hlt)
    have hb' : es.flatten[i]? = some b := hb
    simp only [writtenFifo, List.take_zero, List.flatten_nil, List.length_nil, Nat.zero_add]
    rw [show (writtenLog k es).size = 2 ^ k from rfl, hmod]
    simp only [writtenLog, List.getD_eq_getElem?_getD, hb', Option.getD_some]
  reader _ := .none

def zeroEntry (len : Nat) : List Byte := entryOf blankStamp [⟨List.replicate len 0, .ok, .ok⟩]

theorem length_zeroEntry (len : Nat) : (zeroEntry len).length = headerSize + min len entryMaxPayload := by
  rw [zeroEntry, length_entryOf rfl, entryLen, kiLeft]
  simp

def smallFirst : List (List Byte) := [zeroEntry 1, zeroEntry 4076, zeroEntry 4030]

def largeFirst : List (List Byte) := [zeroEntry 4076, zeroEntry 1, zeroEntry 4030]

theorem zeroEntries_framed (ns : List Nat) : ∀ e ∈ ns.map zeroEntry, Framed e := by
  simp only [List.forall_mem_map]
  exact fun _ _ => entryOf_framed rfl

theorem rel_smallFirst : Rel (writtenLog 13 smallFirst) (writtenFifo smallFirst) :=
  rel_written (by decide) (zeroEntries_framed [1, 4076, 4030])
    (by simp [smallFirst, length_zeroEntry, headerSize, entryMaxPayload, entryMaxLen])

theorem rel_largeFirst : Rel (writtenLog 13 largeFirst) (writtenFifo largeFirst) :=
  rel_written (by decide) (zeroEntries_framed [4076, 1, 4030])
    (by simp [largeFirst, length_zeroEntry, headerSize, entryMaxPayload, entryMaxLen])

theorem largeFirst_pulled :
    AllPulled (writtenLog 13 largeFirst) (fixUpReaders 30 (writtenLog 13 largeFirst)) (writtenFifo largeFirst) 30 := by
  refine (fixUpReaders_pulls_iff rel_largeFirst (by decide) (by decide)).mpr ⟨fun _ m hm => ?_, fun r rd hrd => ?_⟩
  · have hafter := hm.after
    have hfar : (writtenFifo largeFirst).pos 1 = 4096 := by
      simp [Fifo.pos, writtenFifo, largeFirst, length_zeroEntry, headerSize, entryMaxPayload, entryMaxLen]
    have hzero : (writtenFifo largeFirst).pos 0 = 0 := rfl
    have htotal : (writtenFifo largeFirst).total = 8167 := by
      simp [Fifo.total, writtenFifo, largeFirst, length_zeroEntry, headerSize, entryMaxPayload, entryMaxLen]
    have hsize : (writtenLog 13 largeFirst).size = 8192 := rfl
    rw [show (writtenFifo largeFirst).head = 0 from rfl, hzero]
    rcases Nat.eq_zero_or_pos m with rfl | hpos
    · rw [hzero, htotal, hsize] at hafter
      omega
    · have : (writtenFifo largeFirst).pos 1 ≤ (writtenFifo largeFirst).pos m := Fifo.pos_mono _ hpos
      omega
  · cases hrd

/-- The write head will be at 5, and the second entry starts at 21; but the head of the log goes on to the third. -/
theorem smallFirst_skips : Rel (writtenLog 13 smallFirst) (writtenFifo smallFirst) ∧ 30 ≤ entryMaxLen ∧
    ¬ AllPulled (writtenLog 13 smallFirst) (fixUpReaders 30 (writtenLog 13 smallFirst)) (writtenFifo smallFirst) 30 := by
  refine ⟨rel_smallFirst, by decide, fun hp => ?_⟩
  have hone : (writtenFifo smallFirst).pos 1 = 21 := by
    simp [Fifo.pos, writtenFifo, smallFirst, length_zeroEntry, headerSize, entryMaxPayload, entryMaxLen]
  have hzero : (writtenFifo smallFirst).pos 0 = 0 := rfl
  have htotal : (writtenFifo smallFirst).total = 8167 := by
    simp [Fifo.total, writtenFifo, smallFirst, length_zeroEntry, headerSize, entryMaxPayload, entryMaxLen]
  have hsize : (writtenLog 13 smallFirst).size = 8192 := rfl
  have hfirst : (writtenFifo smallFirst).FirstAfter (writtenLog 13 smallFirst).size 30 0 1 := by
    refine ⟨by decide, by decide, by omega, fun i _ hi => ?_⟩
    rw [show i = 0 by omega, hzero, htotal, hsize]
    decide
  have hlap : (writtenFifo smallFirst).Lapped (writtenLog 13 smallFirst).size 30 0 := by
    rw [Fifo.Lapped, hzero, htotal, hsize]
    decide
  have hhead := hp.head
  rw [head_fixUpReaders, pulled_iff rel_smallFirst rel_smallFirst.head (by decide) (by decide)] at hhead
  have : (writtenFifo smallFirst).pos 0 + 30 ≤ (writtenFifo smallFirst).pos 1 := hhead hlap 1 hfirst
  omega

end G3Mod.Logger
