import G3Mod.Recovery.Applypatch.Model

/-!
# What the system calls and the functions built on them do
-/

namespace G3Mod.Recovery.Applypatch

open Lib Imgpatch

variable {c : Conditions} {I : Disk → Prop} {s t : Disk} {sha : Bytes → Digest}

/-! ## The file system -/

namespace Disk

@[simp] theorem set_files_self (d : Disk) (n : Name) (f : Option File) : (d.set n f).files n = f := by
  simp [set]

theorem set_files_of_ne (d : Disk) {m n : Name} (f : Option File) (h : m ≠ n) : (d.set n f).files m = d.files m := by
  simp [set, h]

@[simp] theorem set_touched (d : Disk) (n : Name) (f : Option File) : (d.set n f).touched = n :: d.touched := rfl

@[simp] theorem setStat_data (d : Disk) (n m : Name) (g : Stat → Stat) : (d.setStat n g).data m = d.data m := by
  by_cases h : m = n
  · subst h
    simp [data, setStat, Option.map_map, Function.comp_def]
  · simp [data, setStat, h]

theorem data_eq_some {d : Disk} {n : Name} {b : Bytes} : d.data n = some b ↔ ∃ f, d.files n = some f ∧ f.data = b := by
  simp [data]

theorem data_eq_none {d : Disk} {n : Name} : d.data n = none ↔ d.files n = none := by
  simp [data]

end Disk

structure Changed (s : Disk) (n : Name) (b : Option Bytes) (t : Disk) : Prop where
  others : ∀ m, m ≠ n → t.data m = s.data m
  content : t.data n = b
  touched : ∀ m ∈ t.touched, m = n ∨ m ∈ s.touched

theorem Changed.trans {n : Name} {b b' : Option Bytes} {u : Disk} (h : Changed s n b t) (h' : Changed t n b' u) :
    Changed s n b' u where
  others m hm := (h'.others m hm).trans (h.others m hm)
  content := h'.content
  touched m hm := by
    rcases h'.touched m hm with rfl | hm
    · exact .inl rfl
    · exact h.touched m hm

theorem Changed.refl (s : Disk) (n : Name) : Changed s n (s.data n) s :=
  ⟨fun _ _ => rfl, rfl, fun _ hm => .inr hm⟩

theorem Changed.set (s : Disk) (n : Name) (f : Option File) : Changed s n (f.map File.data) (s.set n f) where
  others m hm := by simp [Disk.data, Disk.set_files_of_ne _ _ hm]
  content := by simp [Disk.data]
  touched m hm := by simpa using hm

theorem Changed.setStat (s : Disk) (n : Name) (g : Stat → Stat) : Changed s n (s.data n) (s.setStat n g) where
  others m _ := by simp
  content := by simp
  touched m hm := .inr hm

/-! ## Single calls -/

def Loads (sha : Bytes → Digest) (c : Conditions) (s : Disk) (n : Name) (r : Option FileContents) : Prop :=
  match r with
  | none => s.data n = none ∨ c.readsFail = true
  | some f => f.sha1 = sha f.data ∧ s.data n = some f.data

theorem exec_onFile {n : Name} {d' : Disk} (ok : Bool) (h : onFile c s n d' ok = some t) :
    (ok = true ∧ (s.files n).isSome ∧ t = d') ∨ (ok = false ∧ t = s ∧ (s.files n = none ∨ c.writesFail = true)) := by
  cases ok with
  | true =>
    simp only [onFile, if_true, Option.ite_none_right_eq_some, Option.some.injEq] at h
    exact .inl ⟨rfl, h.1, h.2.symm⟩
  | false =>
    simp only [onFile, Bool.false_eq_true, if_false, Option.ite_none_right_eq_some, Option.some.injEq,
      Option.isNone_iff_eq_none] at h
    exact .inr ⟨rfl, h.2.symm, h.1⟩

theorem loadFileContents_safe {n : Name} (hm : isMtd n = false) (hI : I s) :
    Safe (world c) I (fun r t => t = s ∧ Loads sha c s n r) (loadFileContents sha n) s := by
  simp only [loadFileContents, hm, Bool.false_eq_true, if_false]
  refine .call hI fun r t h => ?_
  cases (r : Option File) with
  | none =>
    obtain ⟨he, rfl⟩ : (s.files n = none ∨ c.readsFail = true) ∧ s = t := by
      simpa [world, exec] using h
    exact .ret hI ⟨rfl, he.imp_left Disk.data_eq_none.2⟩
  | some f =>
    obtain ⟨he, rfl⟩ : s.files n = some f ∧ s = t := by simpa [world, exec] using h
    exact .ret hI ⟨rfl, rfl, Disk.data_eq_some.2 ⟨f, he, rfl⟩⟩

theorem freeSpaceForFile_safe {n : Name} (hI : I s) :
    Safe (world c) I (fun r t => t = s ∧ (c.readsFail = false → c.room n r = true)) (freeSpaceForFile n) s := by
  refine .call hI fun r t h => ?_
  cases (r : Option Nat) with
  | none =>
    obtain ⟨he, rfl⟩ : c.readsFail = true ∧ s = t := by simpa [world, exec] using h
    exact .ret hI ⟨rfl, fun hr => by simp [hr] at he⟩
  | some m =>
    obtain ⟨he, rfl⟩ : c.room n m = true ∧ s = t := by simpa [world, exec] using h
    exact .ret hI ⟨rfl, fun _ => he⟩

theorem openTrunc_safe {n : Name} (hI : I s) (hI' : ∀ t, Changed s n (some []) t → I t) :
    Safe (world c) I (fun r t => (r = none → t = s ∧ c.writesFail = true) ∧ (r.isSome → Changed s n (some []) t))
      (openTrunc n) s := by
  refine .call hI fun r t h => ?_
  cases (r : Option Stat) with
  | none =>
    obtain ⟨he, rfl⟩ : c.writesFail = true ∧ s = t := by simpa [world, exec] using h
    exact .ret hI ⟨fun _ => ⟨rfl, he⟩, nofun⟩
  | some st =>
    simp only [world, exec, Option.some.injEq] at h
    subst h
    have hc := Changed.set s n (some ⟨[], ((s.files n).map File.st).getD st⟩)
    exact .ret (hI' _ hc) ⟨nofun, fun _ => hc⟩

theorem write_safe {n : Name} {data : Bytes} (hd : data ≠ []) (hI : I s)
    (hI' : ∀ k t, Changed s n ((s.data n).map (· ++ data.take k)) t → I t) :
    Safe (world c) I
      (fun r t => (r = none → t = s ∧ c.writesFail = true) ∧
        ∀ k, r = some k → 1 ≤ k ∧ k ≤ data.length ∧ Changed s n ((s.data n).map (· ++ data.take k)) t)
      (write n data) s := by
  refine .call hI fun r t h => ?_
  cases (r : Option Nat) with
  | none =>
    obtain ⟨he, rfl⟩ : c.writesFail = true ∧ s = t := by simpa [world, exec, hd] using h
    exact .ret hI ⟨fun _ => ⟨rfl, he⟩, nofun⟩
  | some k =>
    simp only [world, exec, Option.ite_none_right_eq_some, Option.some.injEq] at h
    obtain ⟨⟨h1, h2⟩, rfl⟩ := h
    have hc : Changed s n ((s.data n).map (· ++ data.take k))
        (s.set n ((s.files n).map fun f => { f with data := f.data ++ data.take k })) := by
      have := Changed.set s n ((s.files n).map fun f => { f with data := f.data ++ data.take k })
      rwa [Option.map_map, show File.data ∘ (fun f : File => { f with data := f.data ++ data.take k }) =
        (· ++ data.take k) ∘ File.data from rfl, ← Option.map_map] at this
    refine .ret (hI' k _ hc) ⟨nofun, ?_⟩
    rintro k' ⟨⟩
    exact ⟨h1, h2, hc⟩

theorem chmod_safe {n : Name} {mode : Nat} (hI : I s) (hI' : ∀ t, Changed s n (s.data n) t → I t) :
    Safe (world c) I (fun r t => Changed s n (s.data n) t ∧ (r = false → s.data n = none ∨ c.writesFail = true))
      (chmod n mode) s := by
  refine .call hI fun r t h => ?_
  rcases exec_onFile r h with ⟨rfl, _, rfl⟩ | ⟨rfl, rfl, h⟩
  · have hc := Changed.setStat s n fun st => { st with mode := mode }
    exact .ret (hI' _ hc) ⟨hc, nofun⟩
  · exact .ret hI ⟨.refl _ _, fun _ => h.imp_left Disk.data_eq_none.2⟩

theorem chown_safe {n : Name} {uid gid : Nat} (hI : I s) (hI' : ∀ t, Changed s n (s.data n) t → I t) :
    Safe (world c) I (fun r t => Changed s n (s.data n) t ∧ (r = false → s.data n = none ∨ c.writesFail = true))
      (chown n uid gid) s := by
  refine .call hI fun r t h => ?_
  rcases exec_onFile r h with ⟨rfl, _, rfl⟩ | ⟨rfl, rfl, h⟩
  · have hc := Changed.setStat s n fun st => { st with uid := uid, gid := gid }
    exact .ret (hI' _ hc) ⟨hc, nofun⟩
  · exact .ret hI ⟨.refl _ _, fun _ => h.imp_left Disk.data_eq_none.2⟩

theorem unlink_safe {n : Name} (hI : I s) (hI' : ∀ t, Changed s n none t → I t) :
    Safe (world c) I (fun _ t => t = s ∨ Changed s n none t) (unlink n) s := by
  refine .call hI fun r t h => ?_
  rcases exec_onFile r h with ⟨rfl, _, rfl⟩ | ⟨rfl, rfl, _⟩
  · have hc := Changed.set s n none
    exact .ret (hI' _ hc) (.inr hc)
  · exact .ret hI (.inl rfl)

structure Renamed (s : Disk) (old new : Name) (t : Disk) : Prop where
  others : ∀ m, m ≠ old → m ≠ new → t.data m = s.data m
  content : t.data new = s.data old
  touched : ∀ m ∈ t.touched, m = old ∨ m = new ∨ m ∈ s.touched

theorem rename_safe {old new : Name} (hI : I s) (hI' : ∀ t, Renamed s old new t → I t) :
    Safe (world c) I
      (fun r t => (r = true → Renamed s old new t) ∧
        (r = false → t = s ∧ (s.data old = none ∨ c.writesFail = true)))
      (rename old new) s := by
  refine .call hI fun r t h => ?_
  rcases exec_onFile r h with ⟨rfl, _, rfl⟩ | ⟨rfl, rfl, h⟩
  · have hr : Renamed s old new ((s.set old none).set new (s.files old)) :=
      { others := fun m h1 h2 => by simp [Disk.data, Disk.set_files_of_ne _ _ h1, Disk.set_files_of_ne _ _ h2]
        content := by simp [Disk.data]
        touched := fun m hm => by
          simp only [Disk.set_touched, List.mem_cons] at hm
          tauto }
    exact .ret (hI' _ hr) ⟨fun _ => hr, nofun⟩
  · exact .ret hI ⟨nofun, fun _ => ⟨rfl, h.imp_left Disk.data_eq_none.2⟩⟩

theorem Changed.append {n : Name} {data : Bytes} {k m : Nat} {u : Disk}
    (h : Changed s n ((s.data n).map (· ++ data.take k)) t)
    (h' : Changed t n ((t.data n).map (· ++ (data.drop k).take m)) u) :
    Changed s n ((s.data n).map (· ++ data.take (k + m))) u := by
  have := h.trans h'
  rw [h.content, Option.map_map] at this
  rwa [show (· ++ List.take (k + m) data) = (· ++ (data.drop k).take m) ∘ (· ++ data.take k) from ?_]
  funext b
  simp [List.take_add]

theorem fileSinkLoop_safe {n : Name} (fuel : Nat) (rest : Bytes) (done : Nat) (hf : rest.length ≤ fuel)
    (hI : ∀ k t, Changed s n ((s.data n).map (· ++ rest.take k)) t → I t) :
    Safe (world c) I
      (fun r t => ∃ k, k ≤ rest.length ∧ r = done + k ∧ Changed s n ((s.data n).map (· ++ rest.take k)) t ∧
        (c.writesFail = false → k = rest.length))
      (fileSinkLoop n fuel rest done) s := by
  have hs : Changed s n ((s.data n).map (· ++ rest.take 0)) s := by
    simpa using Changed.refl s n
  induction fuel generalizing rest done s with
  | zero =>
    exact .ret (hI 0 s hs) ⟨0, Nat.zero_le _, rfl, hs, fun _ => by omega⟩
  | succ fuel ih =>
    rw [fileSinkLoop]
    by_cases he : rest = []
    · subst he
      exact .ret (hI 0 s hs) ⟨0, Nat.zero_le _, rfl, hs, fun _ => rfl⟩
    rw [if_neg (by simpa using he)]
    refine (write_safe he (hI 0 s hs) fun k t ht => hI k t ht).seq fun r t hi ht => ?_
    cases r with
    | none =>
      obtain ⟨rfl, hw⟩ := ht.1 rfl
      exact .ret hi ⟨0, Nat.zero_le _, rfl, hs, fun h => by simp [h] at hw⟩
    | some k =>
      obtain ⟨h1, h2, hc⟩ := ht.2 k rfl
      have hl : (rest.drop k).length ≤ fuel := by
        rw [List.length_drop]
        omega
      have ht0 : Changed t n ((t.data n).map (· ++ (rest.drop k).take 0)) t := by
        simpa using Changed.refl t n
      refine (ih (rest.drop k) (done + k) hl (fun m u hu => hI (k + m) u (hc.append hu)) ht0).mono
        (fun _ h => h) ?_
      rintro r u - ⟨m, hm, rfl, hu, hw⟩
      rw [List.length_drop] at hm hw
      exact ⟨k + m, by omega, by omega, hc.append hu, fun h => by have := hw h; omega⟩

theorem fileSink_safe {n : Name} {data : Bytes} (hI : ∀ k t, Changed s n ((s.data n).map (· ++ data.take k)) t → I t) :
    Safe (world c) I
      (fun r t => (r = data.length → Changed s n ((s.data n).map (· ++ data)) t) ∧
        (∃ k, Changed s n ((s.data n).map (· ++ data.take k)) t) ∧ (c.writesFail = false → r = data.length))
      (fileSink n data) s := by
  refine (fileSinkLoop_safe data.length data 0 le_rfl hI).mono (fun _ h => h) ?_
  rintro r t - ⟨k, hk, rfl, hc, hw⟩
  refine ⟨fun h => ?_, ⟨k, hc⟩, fun h => by have := hw h; omega⟩
  rwa [List.take_of_length_le (by omega)] at hc

theorem saveFileContents_safe {n : Name} {file : FileContents} (hI : I s) (hI' : ∀ b t, Changed s n b t → I t) :
    Safe (world c) I
      (fun ok t => (∃ b, Changed s n b t) ∧ (ok = true → t.data n = some file.data) ∧
        (c.writesFail = false → ok = true))
      (saveFileContents n file) s := by
  refine (openTrunc_safe hI fun t ht => hI' _ t ht).seq fun r t hi ht => ?_
  cases r with
  | none =>
    obtain ⟨rfl, hw⟩ := ht.1 rfl
    exact .ret hi ⟨⟨_, .refl _ _⟩, nofun, fun h => by simp [h] at hw⟩
  | some st =>
    have hc := ht.2 rfl
    refine (fileSink_safe fun k u hu => hI' _ u (hc.trans hu)).seq fun done u hi hu => ?_
    obtain ⟨hd, ⟨k, hk⟩, hw⟩ := hu
    by_cases hl : done = file.data.length
    · -- all of the data is written; what is left changes the owner and the mode only
      have hcu := hc.trans (hd hl)
      rw [hc.content] at hcu
      rw [if_neg (by simpa using hl)]
      refine (chmod_safe hi fun v hv => hI' _ v (hcu.trans hv)).seq fun ok v hi hv => ?_
      have hcv := hcu.trans hv.1
      rw [hcu.content] at hcv
      cases ok with
      | false => exact .ret hi ⟨⟨_, hcv⟩, nofun, fun h => by simpa [h, hcu.content] using hv.2 rfl⟩
      | true =>
        refine (chown_safe hi fun x hx => hI' _ x (hcv.trans hx)).seq fun ok x hi hx => ?_
        have hcx := hcv.trans hx.1
        rw [hcv.content] at hcx
        cases ok with
        | false => exact .ret hi ⟨⟨_, hcx⟩, nofun, fun h => by simpa [h, hcv.content] using hx.2 rfl⟩
        | true => exact .ret hi ⟨⟨_, hcx⟩, fun _ => hcx.content, fun _ => rfl⟩
    · rw [if_pos (by simpa using hl)]
      exact .ret hi ⟨⟨_, hc.trans hk⟩, nofun, fun h => absurd (hw h) hl⟩

/-! # Room on `/cache`, the copy of the source there, and the `.patch` file -/

/-! ## `MakeFreeSpaceOnCache` -/

/-- The names that `FindExpendableFiles` can come up with, that of the copy apart. -/
def Expendable (n : Name) : Prop :=
  ∃ dir ∈ expendableDirs, ∃ entry, '/' ∉ entry ∧ n = dir ++ '/' :: entry

def Pruned (s t : Disk) : Prop :=
  ∀ n, ¬ Expendable n ∨ n = cacheTempSource → t.data n = s.data n

theorem Pruned.refl (s : Disk) : Pruned s s :=
  fun _ _ => rfl

theorem Pruned.changed {n : Name} {b : Option Bytes} {u : Disk} (h : Pruned s t) (hn : Expendable n)
    (hc : n ≠ cacheTempSource) (h' : Changed t n b u) : Pruned s u := by
  intro m hm
  have hmn : m ≠ n := by
    rintro rfl
    exact hm.elim (absurd hn) (absurd · hc)
  rw [h'.others m hmn, h m hm]

theorem expendableIn_safe (dir : Name) (entries : List Name) (he : ∀ e ∈ entries, '/' ∉ e) (hI : I s) :
    Safe (world c) I (fun r t => t = s ∧ ∀ n ∈ r, n ≠ cacheTempSource ∧ ∃ e, '/' ∉ e ∧ n = dir ++ '/' :: e)
      (expendableIn dir entries) s := by
  induction entries with
  | nil => exact .ret hI ⟨rfl, by simp⟩
  | cons e es ih =>
    have ih := ih fun e' h => he e' (List.mem_cons_of_mem _ h)
    rw [expendableIn]
    by_cases hp : dir ++ '/' :: e = cacheTempSource
    · rw [if_pos hp]
      exact ih
    rw [if_neg hp]
    refine .call hI fun isReg t h => ?_
    have ht : s = t := by
      cases (isReg : Bool) <;> simp [world, exec] at h <;> exact h.2
    subst ht
    refine ih.seq ?_
    rintro names t hi ⟨rfl, hn⟩
    refine .ret hi ⟨rfl, fun n hmem => ?_⟩
    split at hmem
    · grind
    · exact hn n hmem

theorem findExpendableIn_safe (dirs : List Name) (hd : ∀ d ∈ dirs, d ∈ expendableDirs) (hI : I s) :
    Safe (world c) I (fun r t => t = s ∧ ∀ n ∈ r, n ≠ cacheTempSource ∧ Expendable n)
      (findExpendableIn dirs) s := by
  induction dirs with
  | nil => exact .ret hI ⟨rfl, by simp⟩
  | cons d ds ih =>
    have ih := ih fun d' h => hd d' (List.mem_cons_of_mem _ h)
    refine .call hI fun entries t h => ?_
    cases (entries : Option (List Name)) with
    | none =>
      obtain rfl : s = t := by simpa [world, exec] using h
      exact ih
    | some es =>
      obtain ⟨he, rfl⟩ : (∀ e ∈ es, '/' ∉ e) ∧ s = t := by simpa [world, exec] using h
      refine (expendableIn_safe d es he hI).seq ?_
      rintro names t hi ⟨rfl, hn⟩
      refine ih.seq ?_
      rintro more t hi ⟨rfl, hm⟩
      refine .ret hi ⟨rfl, fun n hmem => ?_⟩
      rcases List.mem_append.1 hmem with h1 | h2
      · exact ⟨(hn n h1).1, d, hd d List.mem_cons_self, (hn n h1).2⟩
      · exact hm n h2

theorem findExpendableFiles_safe (hI : I s) :
    Safe (world c) I
      (fun r t => t = s ∧ ∀ names, r = some names → ∀ n, some n ∈ names → n ≠ cacheTempSource ∧ Expendable n)
      findExpendableFiles s := by
  refine (findExpendableIn_safe expendableDirs (fun _ h => h) hI).seq ?_
  rintro names t hi ⟨rfl, hn⟩
  refine .call hi fun links u h => ?_
  cases (links : Option (List Name)) with
  | none =>
    obtain ⟨-, rfl⟩ : c.readsFail = true ∧ t = u := by simpa [world, exec] using h
    exact .ret hi ⟨rfl, by simp⟩
  | some ls =>
    obtain rfl : t = u := by simpa [world, exec] using h
    refine .ret hi ⟨rfl, ?_⟩
    rintro _ ⟨⟩ n hmem
    obtain ⟨m, hm, hmn⟩ := List.mem_map.1 hmem
    split at hmn
    · cases hmn
    · cases hmn
      exact hn _ hm

theorem deleteLoop_safe (needed : Nat) (names : List (Option Name)) (freeNow : Nat)
    (hn : ∀ n, some n ∈ names → n ≠ cacheTempSource ∧ Expendable n) (hp : Pruned s t)
    (hI : ∀ u, Pruned s u → I u) :
    Safe (world c) I (fun _ u => Pruned s u) (deleteLoop needed names freeNow) t := by
  induction names generalizing t freeNow with
  | nil => exact .ret (hI t hp) hp
  | cons entry names ih =>
    have ih {freeNow : Nat} {t : Disk} := ih freeNow (t := t) fun n h => hn n (List.mem_cons_of_mem _ h)
    by_cases hf : freeNow < needed
    · cases entry with
      | none =>
        rw [deleteLoop, if_pos hf]
        exact ih hp
      | some name =>
        rw [deleteLoop, if_pos hf]
        obtain ⟨hc, he⟩ := hn name List.mem_cons_self
        refine (unlink_safe (hI t hp) fun u hu => hI u (hp.changed he hc hu)).seq fun _ u hi hu => ?_
        have hpu : Pruned s u := by
          rcases hu with rfl | hu
          · exact hp
          · exact hp.changed he hc hu
        refine (freeSpaceForFile_safe hi).seq ?_
        rintro freeNow u - ⟨rfl, -⟩
        exact ih hpu
    · cases entry <;> rw [deleteLoop, if_neg hf] <;> exact .ret (hI t hp) hp

theorem makeFreeSpaceOnCache_safe {needed : Nat} (hI : ∀ t, Pruned s t → I t) :
    Safe (world c) I
      (fun ok t => Pruned s t ∧
        (c.readsFail = false → (∀ n, c.room cacheDir n = true → needed ≤ n) → ok = true))
      (makeFreeSpaceOnCache needed) s := by
  refine (freeSpaceForFile_safe (hI s (.refl s))).seq ?_
  rintro freeNow t hi ⟨rfl, hr⟩
  by_cases hf : needed ≤ freeNow
  · rw [if_pos hf]
    exact .ret hi ⟨.refl t, fun _ _ => rfl⟩
  rw [if_neg hf]
  have hno : c.readsFail = false → ¬ ∀ n, c.room cacheDir n = true → needed ≤ n :=
    fun h h' => hf (h' _ (hr h))
  refine (findExpendableFiles_safe hi).seq ?_
  rintro names t hi ⟨rfl, hn⟩
  cases names with
  | none => exact .ret hi ⟨.refl t, fun h h' => absurd h' (hno h)⟩
  | some names =>
    cases names with
    | nil => exact .ret hi ⟨.refl t, fun h h' => absurd h' (hno h)⟩
    | cons n ns =>
      refine (deleteLoop_safe needed (n :: ns) freeNow (hn _ rfl) (.refl t) hI).seq fun free u hi hu => ?_
      exact .ret hi ⟨hu, fun h h' => absurd h' (hno h)⟩

theorem backUp_safe {file : FileContents} (hI : ∀ t, Pruned s t → I t)
    (hI' : ∀ b t u, Pruned s t → Changed t cacheTempSource b u → I u) :
    Safe (world c) I
      (fun ok u => (∃ b t, Pruned s t ∧ Changed t cacheTempSource b u) ∧
        (ok = true → u.data cacheTempSource = some file.data) ∧
        (c.readsFail = false → c.writesFail = false → (∀ n, c.room cacheDir n = true → file.data.length ≤ n) →
          ok = true))
      (backUp file) s := by
  refine (makeFreeSpaceOnCache_safe hI).seq ?_
  rintro ok t hi ⟨hp, hok⟩
  cases ok with
  | false =>
    exact .ret hi ⟨⟨_, t, hp, .refl _ _⟩, nofun, fun h _ h' => hok h h'⟩
  | true =>
    refine (saveFileContents_safe hi fun b u hu => hI' b t u hp hu).mono (fun _ h => h) ?_
    rintro ok u - ⟨⟨b, hb⟩, hd, hw⟩
    exact ⟨⟨b, t, hp, hb⟩, hd, fun _ h _ => hw h⟩

theorem feed_safe {n : Name} (pieces : List Piece) (ctx content : Bytes)
    (hw : c.writesFail = true → ∀ p ∈ pieces, p.checked = true) (hs : s.data n = some content)
    (hI : ∀ b t, Changed s n b t → I t) :
    Safe (world c) I
      (fun fed t => (∃ b, Changed s n b t) ∧
        (fed.ok = true → fed.ctx = ctx ++ pieces.flatMap Piece.data ∧
          t.data n = some (content ++ pieces.flatMap Piece.data)) ∧
        (c.writesFail = false → fed.ok = true))
      (feed (outputSink n) pieces ctx ()) s := by
  induction pieces generalizing s ctx content with
  | nil => exact .ret (hI _ s (.refl s n)) ⟨⟨_, .refl s n⟩, by simp [hs], fun _ => rfl⟩
  | cons p ps ih =>
    have hsink : Safe (world c) I
        (fun r t => (r.1 = (p.data.length : Int) → Changed s n ((s.data n).map (· ++ p.data)) t) ∧
          (∃ b, Changed s n b t) ∧ (c.writesFail = false → r.1 = (p.data.length : Int)))
        (outputSink n p.data ()) s := by
      refine (fileSink_safe fun k t ht => hI _ t ht).seq fun done t hi ht => ?_
      obtain ⟨h1, ⟨k, h2⟩, h3⟩ := ht
      exact .ret hi ⟨fun h => h1 (Int.ofNat_inj.1 h), ⟨_, h2⟩, fun h => Int.ofNat_inj.2 (h3 h)⟩
    refine hsink.seq fun r t hi ht => ?_
    obtain ⟨h1, ⟨b, h2⟩, h3⟩ := ht
    by_cases hl : r.1 = (p.data.length : Int)
    · have hc := h1 hl
      rw [hs] at hc
      simp only [hl, if_true]
      have := ih (ctx ++ p.data) (content ++ p.data) (fun h q hq => hw h q (List.mem_cons_of_mem _ hq))
        hc.content fun b' u hu => hI b' u (hc.trans hu)
      refine this.mono (fun _ h => h) ?_
      rintro fed u - ⟨⟨b', hb⟩, hok, hf⟩
      exact ⟨⟨b', hc.trans hb⟩, by simpa using hok, hf⟩
    -- the sink has not taken all: a write has failed
    have hfail : c.writesFail = true := by simp_all
    simp only [hl, if_false, hw hfail p List.mem_cons_self, if_true]
    exact .ret hi ⟨⟨b, h2⟩, nofun, fun h => by simp [h] at hfail⟩

end G3Mod.Recovery.Applypatch
