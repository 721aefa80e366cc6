import Mathlib.Data.List.Induction

/-!
# The log of the previous boot

`ram_console.c` without error correction; the copy of the old log finds its memory. `n` is `ram_console_buffer_size`.
-/

namespace G3Mod.RamConsole

abbrev Byte := BitVec 8

/-- `struct ram_console_buffer`; the memory after it is `data`. -/
structure Buffer where
  sig : Nat
  start : Nat
  size : Nat
  data : Nat → Byte

def ramConsoleSig : Nat := 0x43474244

def ramConsoleUpdate (s : List Byte) (b : Buffer) : Buffer :=
  { b with data := fun i => if b.start ≤ i then s[i - b.start]?.getD (b.data i) else b.data i }

section

variable (n : Nat)

/-- The first copy of a write that reaches the end of the buffer, and what is left to be written. -/
def wrap (s : List Byte) (b : Buffer) : List Byte × Buffer :=
  let rem := n - b.start
  if rem < s.length then (s.drop rem, { ramConsoleUpdate (s.take rem) b with start := 0, size := n }) else (s, b)

/-- The copy that ends a write. -/
def advance (s : List Byte) (b : Buffer) : Buffer :=
  { ramConsoleUpdate s b with
    start := b.start + s.length
    size := if b.size < n then b.size + s.length else b.size }

def ramConsoleWrite (b : Buffer) (s : List Byte) : Buffer :=
  let r := wrap n (s.drop (s.length - n)) b
  advance n r.1 r.2

def ramConsoleSaveOld (b : Buffer) : List Byte :=
  (List.range (b.size - b.start)).map (fun i => b.data (b.start + i)) ++ (List.range b.start).map b.data

def ramConsoleInit (b : Buffer) : Option (List Byte) × Buffer :=
  (if b.sig = ramConsoleSig ∧ b.size ≤ n ∧ b.start ≤ b.size then some (ramConsoleSaveOld b) else none,
    { b with sig := ramConsoleSig, start := 0, size := 0 })

end

variable {n : Nat} {b : Buffer} {log p s : List Byte}

/-- The buffer is full or starts at its beginning; in front of `start` are the newest bytes, behind it the ones before. -/
structure Holds (n : Nat) (b : Buffer) (log : List Byte) : Prop where
  sig : b.sig = ramConsoleSig
  start_le : b.start ≤ b.size
  size_eq : b.size = min log.length n
  start_eq : b.size < n → b.start = b.size
  new : ∀ i < b.start, log[log.length - b.start + i]? = some (b.data i)
  old : ∀ i < b.size - b.start, log[log.length - b.size + i]? = some (b.data (b.start + i))

theorem Holds.advance (h : Holds n b log) (hs : b.start + s.length ≤ n) : Holds n (advance n s b) (log ++ s) := by
  obtain ⟨hsig, hle, hn, hstart, hnew, hold⟩ := h
  refine ⟨hsig, ?_, ?_, ?_, fun i hi => ?_, fun i hi => ?_⟩
  · grind [RamConsole.advance]
  · grind [RamConsole.advance]
  · grind [RamConsole.advance]
  · have hlen : (log ++ s).length - (RamConsole.advance n s b).start + i = log.length - b.start + i := by
      simp only [RamConsole.advance, List.length_append]
      omega
    rw [hlen]
    grind [RamConsole.advance, ramConsoleUpdate]
  · have := hold (s.length + i)
    grind [RamConsole.advance, ramConsoleUpdate]

theorem Holds.rewind (h : Holds n b log) (hs : b.start = n) : Holds n { b with start := 0 } log := by
  obtain ⟨hsig, hle, hn, hstart, hnew, hold⟩ := h
  constructor <;> grind

theorem Holds.cut (h : Holds n b (log ++ s)) (hs : s.length = n) : Holds n b (log ++ (p ++ s)) := by
  obtain ⟨hsig, hle, hn, hstart, hnew, hold⟩ := h
  have hshift : ∀ k ≤ n, ∀ i, (log ++ (p ++ s))[(log ++ (p ++ s)).length - k + i]? = (log ++ s)[(log ++ s).length - k + i]? := by
    intro k hk i
    simp only [List.length_append]
    rw [List.getElem?_append_right (by omega), List.getElem?_append_right (by omega), List.getElem?_append_right (by omega)]
    congr 1
    omega
  rw [List.length_append] at hn
  refine ⟨hsig, hle, ?_, hstart, fun i hi => ?_, fun i hi => ?_⟩
  · simp
    omega
  · rw [hshift _ (by omega), hnew i hi]
  · rw [hshift _ (by omega), hold i hi]

theorem Holds.saved (h : Holds n b log) : ramConsoleSaveOld b = log.drop (log.length - n) := by
  obtain ⟨hsig, hle, hn, hstart, hnew, hold⟩ := h
  apply List.ext_getElem?
  intro i
  have hsize : log.length - n = log.length - b.size := by omega
  rw [hsize, List.getElem?_drop, ramConsoleSaveOld, List.getElem?_append]
  split
  · grind
  · have := hnew (i - (b.size - b.start))
    grind

theorem Holds.copies (h : Holds n b log) (hs : s.length ≤ n) :
    Holds n (RamConsole.advance n (wrap n s b).1 (wrap n s b).2) (log ++ s) := by
  have hsize := h.size_eq
  have hstart := h.start_le
  unfold wrap
  dsimp only
  split
  next hrem =>
    have hfirst := h.advance (s := s.take (n - b.start)) (by rw [List.length_take]; omega)
    have hback := hfirst.rewind (by simp only [RamConsole.advance, List.length_take]; omega)
    have hfull : (RamConsole.advance n (s.take (n - b.start)) b).size = n := by
      have := h.start_eq
      grind [RamConsole.advance]
    rw [hfull] at hback
    have hrest := hback.advance (s := s.drop (n - b.start)) (by simp; omega)
    rwa [List.append_assoc, List.take_append_drop] at hrest
  next hrem => exact h.advance (show b.start + s.length ≤ n by omega)

theorem Holds.write (h : Holds n b log) (s : List Byte) : Holds n (ramConsoleWrite n b s) (log ++ s) := by
  have hcut : Holds n (ramConsoleWrite n b s) (log ++ s.drop (s.length - n)) := h.copies (by rw [List.length_drop]; omega)
  by_cases hlen : s.length ≤ n
  · rwa [Nat.sub_eq_zero_of_le hlen, List.drop_zero] at hcut
  · have := hcut.cut (p := s.take (s.length - n)) (by rw [List.length_drop]; omega)
    rwa [List.take_append_drop] at this

/-- After `ram_console_init` on any memory, whatever is written, the next one finds the last `n` bytes in order. -/
theorem console_log_survives (n : Nat) (b : Buffer) (ss : List (List Byte)) :
    let b' := ss.foldl (ramConsoleWrite n) (ramConsoleInit n b).2
    b'.start ≤ b'.size ∧ b'.size ≤ n ∧
      (ramConsoleInit n b').1 = some (ss.flatten.drop (ss.flatten.length - n)) := by
  have h : Holds n (ss.foldl (ramConsoleWrite n) (ramConsoleInit n b).2) ss.flatten := by
    induction ss using List.reverseRecOn with
    | nil => exact ⟨rfl, Nat.le_refl _, by simp [ramConsoleInit], fun _ => rfl, by simp [ramConsoleInit], by simp [ramConsoleInit]⟩
    | append_singleton ss s ih => simpa using ih.write s
  have hle : _ ≤ n := h.size_eq ▸ Nat.min_le_right _ _
  exact ⟨h.start_le, hle, by rw [ramConsoleInit, if_pos ⟨h.sig, hle, h.start_le⟩, h.saved]⟩

end G3Mod.RamConsole
