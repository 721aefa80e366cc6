import G3Mod.Recovery.Applypatch.Lemmas.Resume

/-!
# When the source file is left alone
-/

namespace G3Mod.Recovery.Applypatch

open Lib Imgpatch

variable {sha : Bytes → Digest} {z : Codec} {c : Conditions} {a : Args} {content : Bytes} {digest : Digest}
variable {I : Disk → Prop} {s t : Disk}

/-! ## Calls that work from the copy -/

def CopyUsable (sha : Bytes → Digest) (a : Args) (d : Disk) : Prop :=
  ∃ b v, d.data cacheTempSource = some b ∧ a.copyPatch (sha b) = some v ∧ v.type = .blob

def Untouched (a : Args) (content : Bytes) (d : Disk) : Prop :=
  a.sourceFilename ∉ d.touched ∧ d.data a.sourceFilename = some content

variable {n : Name}

theorem Untouched.changed {b : Option Bytes} (h : Untouched a content s) (hn : a.sourceFilename ≠ n)
    (hc : Changed s n b t) : Untouched a content t :=
  ⟨fun hm => (hc.touched _ hm).elim hn h.1, (hc.others _ hn).trans h.2⟩

def FromCopy (sha : Bytes → Digest) (a : Args) (s : Disk) : Selection → Prop
  | .ended _ => True
  | .source _ _ => False
  | .copy file patch => s.data cacheTempSource = some file.data ∧ a.copyPatch (sha file.data) = some patch

theorem selectCopy_fromCopy (hI : I s) :
    Safe (world c) I (fun sel t => t = s ∧ FromCopy sha a s sel) (selectCopy sha a) s := by
  have hm : isMtd cacheTempSource = false := by decide
  refine (loadFileContents_safe hm hI).seq ?_
  rintro r t hi ⟨rfl, hl⟩
  cases r with
  | none => exact .ret hi ⟨rfl, trivial⟩
  | some file =>
    obtain ⟨hsha, hd⟩ := hl
    dsimp only
    rw [hsha]
    cases hp : a.copyPatch (sha file.data) with
    | none => exact .ret hi ⟨rfl, trivial⟩
    | some patch => exact .ret hi ⟨rfl, hd, hp⟩

theorem select_fromCopy (hs : isMtd a.sourceFilename = false) (ht : isMtd a.target = false)
    (hd : s.data a.sourceFilename = some content) (hn : a.sourcePatch (sha content) = none) (hI : I s) :
    Safe (world c) I (fun sel t => t = s ∧ FromCopy sha a s sel) (select sha a digest) s := by
  refine (loadFileContents_safe ht hI).seq ?_
  rintro loaded t hi ⟨rfl, hl⟩
  split
  · exact .ret hi ⟨rfl, trivial⟩
  refine (loadSource_safe hs hl hi).seq ?_
  rintro r t hi ⟨rfl, hl'⟩
  cases r with
  | none => exact selectCopy_fromCopy hi
  | some file =>
    obtain ⟨hsha, hf⟩ := hl'
    rw [hd, Option.some.injEq] at hf
    dsimp only
    rw [hsha, ← hf, hn]
    exact selectCopy_fromCopy hi

theorem select_done (ht : isMtd a.target = false) (hr : c.readsFail = false) (hd : TargetDone sha a digest s)
    (hI : I s) :
    Safe (world c) I (fun sel t => t = s ∧ sel = .ended 0) (select sha a digest) s := by
  obtain ⟨b, hb, hsha⟩ := hd
  refine (loadFileContents_safe ht hI).seq ?_
  rintro loaded t hi ⟨rfl, hl⟩
  have : loaded.map FileContents.sha1 = some digest := by
    cases loaded with
    | none =>
      rcases hl with hl | hl
      · rw [hb] at hl
        cases hl
      · rw [hr] at hl
        cases hl
    | some f =>
      obtain ⟨h1, h2⟩ := hl
      rw [hb] at h2
      cases h2
      simp [h1, hsha]
  rw [if_pos this]
  exact .ret hi ⟨rfl, rfl⟩

def OutputApart (a : Args) : Generated → Prop
  | .ended _ => True
  | .output _ madeCopy _ _ mtd => madeCopy = false ∧ mtd = none ∧ a.sourceFilename ≠ a.outname

theorem feed_changed (pieces : List Piece) (ctx : Bytes) (hI : ∀ b t, Changed s n b t → I t) :
    Safe (world c) I (fun _ _ => True) (feed (outputSink n) pieces ctx ()) s := by
  induction pieces generalizing s ctx with
  | nil => exact .ret (hI _ s (.refl s n)) trivial
  | cons p ps ih =>
    refine Safe.seq (Q := fun _ t => ∃ b, Changed s n b t) ?_ fun r t hi ht => ?_
    · refine (fileSink_safe fun k t ht => hI _ t ht).seq fun done t hi ht => ?_
      obtain ⟨-, ⟨k, hk⟩, -⟩ := ht
      exact .ret hi ⟨_, hk⟩
    obtain ⟨b, hb⟩ := ht
    have ih (ctx : Bytes) := ih (s := t) ctx fun b' u hu => hI b' u (hb.trans hu)
    dsimp only
    split
    · exact ih _
    · split
      · exact .ret hi trivial
      · exact ih _

variable {file : FileContents} {patch : Value}

theorem turn_untouched (ht : isMtd a.target = false) (hu : Untouched a content s) (hn : patch.type = .blob → a.sourceFilename ≠ a.outname) (again : Bool → Prog Generated) :
    Safe (world c) (Untouched a content) (fun g _ => OutputApart a g)
      (turn z a digest file patch (some (0, false)) again) s := by
  rw [turn]
  split
  · exact .ret hu trivial
  rename_i hb
  have hn := hn (by simpa using hb)
  simp only [ht, Bool.false_eq_true, if_false, if_true]
  refine (openTrunc_safe hu fun t h => hu.changed hn h).seq fun r t hi h => ?_
  cases r with
  | none => exact .ret hi trivial
  | some st =>
    cases patchOutput z file.data patch.data with
    | none => exact .ret hi trivial
    | some sent =>
      refine (feed_changed sent.pieces [] fun b u hu => hi.changed hn hu).seq fun fed u hi _ => ?_
      split
      · exact .ret hi ⟨rfl, rfl, hn⟩
      · exact .ret hi trivial

theorem patchLoop_untouched (ht : isMtd a.target = false) (hu : Untouched a content s) (hn : patch.type = .blob → a.sourceFilename ≠ a.outname) :
    Safe (world c) (Untouched a content) (fun g _ => OutputApart a g)
      (patchLoop z a digest none file patch 1 false) s := by
  simp only [patchLoop, ht, Bool.false_eq_true, if_false, makeRoom_eq]
  refine Safe.seq (Q := fun r t => t = s ∧ r = some (0, false)) ?_ ?_
  · refine (freeSpace_optional 1 hu).seq ?_
    rintro - t hi rfl
    exact .ret hi ⟨rfl, rfl⟩
  · rintro - t hi ⟨rfl, rfl⟩
    exact turn_untouched ht hi hn _

theorem generate_untouched (ht : isMtd a.target = false) (hp : parseSha1 a.targetSha1Str = some digest)
    (hu : Untouched a content s) (hn : CopyUsable sha a s → a.sourceFilename ≠ a.outname)
    (hsel : Safe (world c) (Untouched a content) (fun sel t => t = s ∧ FromCopy sha a s sel) (select sha a digest) s) :
    Safe (world c) (Untouched a content) (fun g _ => OutputApart a g) (generate sha z a) s := by
  rw [generate, hp]
  refine hsel.seq ?_
  rintro sel t hi ⟨rfl, hsel⟩
  cases sel with
  | ended code => exact .ret hi trivial
  | source file patch => exact hsel.elim
  | copy file patch => exact patchLoop_untouched ht hi fun hb => hn ⟨_, patch, hsel.1, hsel.2, hb⟩

theorem finish_untouched (hne : a.target ≠ a.sourceFilename) (hu : Untouched a content s) {g : Generated}
    (hg : OutputApart a g) :
    Safe (world c) (Untouched a content) (fun _ _ => True) (finish sha a g) s := by
  cases g with
  | ended code => exact .ret hu trivial
  | output targetSha1 madeCopy st ctx mtd =>
    obtain ⟨rfl, rfl, hn⟩ := hg
    rw [finish]
    split
    · exact .ret hu trivial
    refine (chmod_safe hu fun t h => hu.changed hn h).seq fun ok t hi _ => ?_
    cases ok with
    | false => exact .ret hi trivial
    | true =>
      refine (chown_safe hi fun t h => hi.changed hn h).seq fun ok t hi _ => ?_
      cases ok with
      | false => exact .ret hi trivial
      | true =>
        have hren {v : Disk} (hv : Renamed t a.outname a.target v) : Untouched a content v := by
          refine ⟨fun hm => ?_, (hv.others _ hn hne.symm).trans hi.2⟩
          rcases hv.touched _ hm with h | h | h
          · exact hn h
          · exact hne h.symm
          · exact hi.1 h
        refine (rename_safe hi fun v hv => hren hv).seq fun ok v hi _ => ?_
        cases ok <;> exact .ret hi trivial

/-! ## Calls that patch the source file -/

variable {f : File}

theorem loadFileContents_steps (hm : isMtd n = false) (hf : s.files n = some f) :
    Steps (world c) (loadFileContents sha n) s (.ret (some ⟨sha f.data, f.data, f.st⟩)) s := by
  simp only [loadFileContents, hm, Bool.false_eq_true, if_false]
  exact .step (a := some f) (by simp [world, exec, hf]) .refl

theorem loadFileContents_steps_none (hm : isMtd n = false)
    (hf : s.files n = none ∨ c.readsFail = true) :
    Steps (world c) (loadFileContents sha n) s (.ret none) s := by
  simp only [loadFileContents, hm, Bool.false_eq_true, if_false]
  have hx : (world c).exec s (.readFile n) (none : Option File) = some s := if_pos (by simpa using hf)
  exact .step hx .refl

variable {m : Nat}

theorem freeSpaceForFile_steps (hm : c.room n m = true) :
    Steps (world c) (freeSpaceForFile n) s (.ret m) s :=
  .step (a := some m) (by simp [world, exec, hm]) .refl

def Written (s : Disk) (n : Name) (t : Disk) : Prop :=
  (t.files n).isSome ∧ ∀ m, m ≠ n → t.files m = s.files m

theorem fileSink_steps (data : Bytes) (hs : (s.files n).isSome) :
    ∃ t, Steps (world c) (fileSink n data) s (.ret data.length) t ∧ Written s n t := by
  rcases data with _ | ⟨x, xs⟩
  · exact ⟨s, .refl, hs, fun _ _ => rfl⟩
  let g : File → File := fun f => { f with data := f.data ++ (x :: xs).take (x :: xs).length }
  have hx : (world c).exec s (.write n (x :: xs)) (some (x :: xs).length) = some (s.set n ((s.files n).map g)) := by
    simp [world, exec, g]
  refine ⟨s.set n ((s.files n).map g), .step hx ?_, by simpa using hs, fun m hm => Disk.set_files_of_ne _ _ hm⟩
  show Steps _ (fileSinkLoop n xs.length ((x :: xs).drop (x :: xs).length) (0 + (x :: xs).length)) _ _ _
  rw [List.drop_length, Nat.zero_add]
  cases xs <;> exact .refl

theorem saveFileContents_steps (n : Name) (file : FileContents) :
    ∃ t, Steps (world c) (saveFileContents n file) s (.ret true) t ∧ Written s n t := by
  let s1 := s.set n (some ⟨[], ((s.files n).map File.st).getD file.st⟩)
  obtain ⟨s2, hs2, hsome, ho⟩ := fileSink_steps (c := c) (s := s1) (n := n) file.data (by simp [s1])
  let s3 := s2.setStat n fun st => { st with mode := file.st.mode }
  let s4 := s3.setStat n fun st => { st with uid := file.st.uid, gid := file.st.gid }
  have hsome3 : (s3.files n).isSome := by simpa [s3, Disk.setStat] using hsome
  have hopen : (world c).exec s (.openTrunc n) (some file.st) = some s1 := rfl
  have hchmod : (world c).exec s2 (.chmod n file.st.mode) true = some s3 := if_pos hsome
  have hchown : (world c).exec s3 (.chown n file.st.uid file.st.gid) true = some s4 := if_pos hsome3
  refine ⟨s4, .step hopen (hs2.bind ?_), by simpa [s4, Disk.setStat] using hsome3, fun m hm => ?_⟩
  · rw [if_neg (by simp)]
    exact .step hchmod (.step hchown .refl)
  · simp only [s4, s3, Disk.setStat, hm, if_false]
    rw [ho m hm]
    exact Disk.set_files_of_ne _ _ hm

theorem backUp_steps (hr : c.room cacheDir m = true) (hm : file.data.length ≤ m) :
    ∃ t, Steps (world c) (backUp file) s (.ret true) t ∧ Written s cacheTempSource t := by
  obtain ⟨t, ht, hw⟩ := saveFileContents_steps (c := c) (s := s) cacheTempSource file
  have hfree : Steps (world c) (makeFreeSpaceOnCache file.data.length) s (.ret true) s := by
    refine (freeSpaceForFile_steps hr).bind ?_
    rw [if_pos hm]
    exact .refl
  exact ⟨t, hfree.bind ht, hw⟩

theorem loadTarget_steps (ht : isMtd a.target = false) (h : c.readsFail = true ∨ ¬ TargetDone sha a digest s) :
    ∃ loaded, Steps (world c) (loadFileContents sha a.target) s (.ret loaded) s ∧
      loaded.map FileContents.sha1 ≠ some digest ∧
      (loaded = none ∨ ∃ g, s.files a.target = some g ∧ loaded = some ⟨sha g.data, g.data, g.st⟩) := by
  rcases h with h | h
  · exact ⟨none, loadFileContents_steps_none ht (.inr h), nofun, .inl rfl⟩
  cases hg : s.files a.target with
  | none => exact ⟨none, loadFileContents_steps_none ht (.inl hg), nofun, .inl rfl⟩
  | some g =>
    refine ⟨_, loadFileContents_steps ht hg, fun he => h ⟨g.data, Disk.data_eq_some.2 ⟨g, hg, rfl⟩, ?_⟩,
      .inr ⟨g, rfl, rfl⟩⟩
    simpa using he

theorem select_after {β : Type} {P : Disk → Prop} (hs : isMtd a.sourceFilename = false)
    (ht : isMtd a.target = false) (hf : s.files a.sourceFilename = some f)
    (h : c.readsFail = true ∨ ¬ TargetDone sha a digest s) {k : Selection → Prog β}
    (hc : Can (world c) P
      ((match a.sourcePatch (sha f.data) with
        | none => selectCopy sha a
        | some patch => pure (.source ⟨sha f.data, f.data, f.st⟩ patch)) >>= k) s) :
    Can (world c) P (select sha a digest >>= k) s := by
  obtain ⟨loaded, hl, hne, hg⟩ := loadTarget_steps (c := c) ht h
  have hsrc : Steps (world c) (loadSource sha a loaded) s (.ret (some ⟨sha f.data, f.data, f.st⟩)) s := by
    rw [loadSource]
    split
    · exact loadFileContents_steps hs hf
    rename_i hcond
    rcases hg with rfl | ⟨g, hg, rfl⟩
    · simp at hcond
    have he : a.target = a.sourceFilename := by tauto
    rw [he, hf] at hg
    cases hg
    exact .refl
  rw [select, Prog.bind_assoc]
  refine .after hl ?_
  rw [if_neg hne, selectSource, Prog.bind_assoc]
  exact .after hsrc hc

theorem makeRoom_touches (file : FileContents) {m' : Nat} (hs : isMtd a.sourceFilename = false)
    (hf : (s.files a.sourceFilename).isSome) (hr : c.room cacheDir m = true) (hm : file.data.length ≤ m)
    (hr' : c.room a.targetFs m' = true) :
    Can (world c) (fun t => a.sourceFilename ∈ t.touched) (makeRoom a (some file) 1 false) s := by
  obtain ⟨u, hu, hsome, ho⟩ := backUp_steps (c := c) (s := s) hr hm
  have hsrc : (u.files a.sourceFilename).isSome := by
    by_cases he : a.sourceFilename = cacheTempSource
    · rwa [he]
    · rwa [ho _ he]
  refine .after (freeSpaceForFile_steps hr') ?_
  simp only [hs, Bool.false_eq_true, if_false]
  have hx : (world c).exec u (.unlink a.sourceFilename) true = some (u.set a.sourceFilename none) := if_pos hsrc
  exact .after hu (.step true hx (.now (by simp)))

end G3Mod.Recovery.Applypatch
