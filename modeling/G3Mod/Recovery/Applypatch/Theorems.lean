import G3Mod.Recovery.Applypatch.Lemmas.Spare

/-!
# Interrupted and failing calls of `applypatch`
-/

namespace G3Mod.Recovery.Applypatch

open Lib Imgpatch

variable {sha : Bytes → Digest} {z : Codec} {c : Conditions} {a : Args} {content : Bytes} {digest : Digest} {d : Disk}

/-! ## Starting over -/

/-- The `k`-th patch is for the source file and turns it into one with this digest. -/
structure Patchable (sha : Bytes → Digest) (z : Codec) (a : Args) (content : Bytes) (digest : Digest) (k : Nat)
    (d : Disk) : Prop where
  sourceFile : isMtd a.sourceFilename = false
  targetFile : isMtd a.target = false
  parses : parseSha1 a.targetSha1Str = some digest
  source : d.data a.sourceFilename = some content
  yields : ∃ str v sent, a.patches[k]? = some (str, v) ∧ parseSha1 str = some (sha content) ∧ v.type = .blob ∧
    patchOutput z content v.data = some sent ∧ sent.result = 0 ∧ sha sent.bytes = digest

/-- The `k`-th patch is also the one for the copy, names do not clash, and failing reads and writes are noticed. -/
structure Sheltered (sha : Bytes → Digest) (z : Codec) (c : Conditions) (a : Args) (content : Bytes) (digest : Digest)
    (k : Nat) : Prop where
  later : 0 < k
  first : ∀ j < k, ∀ p, a.patches[j]? = some p → parseSha1 p.1 ≠ some (sha content)
  source_ne_copy : a.sourceFilename ≠ cacheTempSource
  target_ne_copy : a.target ≠ cacheTempSource
  source_ne_outname : a.sourceFilename ≠ a.outname
  not_expendable : ¬ Expendable a.sourceFilename
  reads : c.readsFail = true → ∀ p ∈ a.patches, parseSha1 p.1 ≠ some digest
  writes : c.writesFail = true → ∀ p ∈ a.patches, ∀ source sent, patchOutput z source p.2.data = some sent →
    ∀ q ∈ sent.pieces, q.checked = true

theorem Patchable.toUse_eq {k : Nat} (hp : Patchable sha z a content digest k d)
    (hs : Sheltered sha z c a content digest k) : a.toUse (sha content) = k := by
  obtain ⟨str, v, -, hk, hstr, -⟩ := hp.yields
  have hk' : (a.patches.map Prod.fst)[k]? = some str := by simp [hk]
  rw [Args.toUse, findMatchingPatch, findMatchingPatchFrom_of_first 0 hk' hstr]
  · simp
  intro j hj x hx
  rw [List.getElem?_map] at hx
  obtain ⟨p, hp, rfl⟩ := Option.map_eq_some_iff.1 hx
  exact hs.first j hj p hp

theorem Patchable.resumable {k : Nat} (hp : Patchable sha z a content digest k d)
    (hs : Sheltered sha z c a content digest k) : Resumable sha z c a content digest where
  sourceFile := hp.sourceFile
  targetFile := hp.targetFile
  parses := hp.parses
  later := by
    rw [hp.toUse_eq hs]
    exact_mod_cast hs.later
  yields := by
    obtain ⟨str, v, sent, hk, -, hrest⟩ := hp.yields
    exact ⟨v, sent, by rw [hp.toUse_eq hs]; simp [Args.patchData, hk], hrest⟩
  source_ne_copy := hs.source_ne_copy
  target_ne_copy := hs.target_ne_copy
  source_ne_outname := hs.source_ne_outname
  not_expendable := hs.not_expendable
  reads := hs.reads
  writes := hs.writes

def Matches (sha : Bytes → Digest) (a : Args) (n : Name) (d : Disk) : Prop :=
  ∃ b, d.data n = some b ∧ 0 ≤ a.toUse (sha b)

theorem Quiet.answers (h : Quiet c content) (s : Disk) (op : Op) : ∃ r t, (world c).exec s op r = some t := by
  have hfile (n : Name) (s' : Disk) : ∃ ok t, onFile c s n s' ok = some t := by
    cases hn : s.files n with
    | none => exact ⟨false, s, by simp [onFile, hn]⟩
    | some f => exact ⟨true, s', by simp [onFile, hn]⟩
  cases op with
  | readFile n => exact ⟨s.files n, s, by cases hn : s.files n <;> simp [world, exec, hn]⟩
  | readMtd n => exact ⟨none, s, rfl⟩
  | staleContents => exact ⟨⟨[], ⟨0, 0, 0⟩⟩, s, rfl⟩
  | statfs p =>
    obtain ⟨n, hn⟩ := h.reports p
    exact ⟨some n, s, if_pos hn⟩
  | openTrunc n => exact ⟨some ⟨0, 0, 0⟩, _, rfl⟩
  | write n data =>
    cases data with
    | nil => exact ⟨(none : Option Nat), s, by simp [world, exec]⟩
    | cons x xs => exact ⟨some 1, _, by simp [world, exec]; rfl⟩
  | chmod n mode => exact hfile n _
  | chown n uid gid => exact hfile n _
  | unlink n => exact hfile n _
  | rename n m => exact hfile n _
  | readdir n => exact ⟨(none : Option (List Name)), s, rfl⟩
  | statRegular n =>
    refine ⟨(s.files n).isSome, s, ?_⟩
    cases hn : s.files n <;> simp [world, exec, hn]
  | openFiles => exact ⟨some [], s, rfl⟩
  | writeMtd data n => exact ⟨true, s, rfl⟩

/-- However often a run is cut off, the target can still be made, and an undisturbed call puts it in place. -/
theorem applypatch_resumes {k : Nat} {t : Disk} (hp : Patchable sha z a content digest k d)
    (hs : Sheltered sha z c a content digest k) (ht : Restarts (world c) (applypatch sha z a) d t) :
    (TargetDone sha a digest t ∨ Matches sha a a.sourceFilename t ∨ Matches sha a cacheTempSource t) ∧
    ∀ c', Quiet c' content →
      (∃ code u, Steps (world c') (applypatch sha z a) t (.ret code) u) ∧
      ∀ code u, Steps (world c') (applypatch sha z a) t (.ret code) u → code = 0 ∧ TargetDone sha a digest u := by
  have hr := hp.resumable hs
  have hk : Kept sha a content digest t :=
    ht.keeps (fun _ hk => applypatch_safe hr hk) (.of_source hp.source)
  refine ⟨?_, fun c' q => ⟨Steps.exists_ret q.answers _ t, fun code u hu => ?_⟩⟩
  · rcases hk.somewhere with h | h | h
    · exact .inl h
    · exact .inr (.inl ⟨content, h, Int.le_of_lt hr.later⟩)
    · exact .inr (.inr ⟨content, h, Int.le_of_lt hr.later⟩)
  have hs' : Sheltered sha z c' a content digest k :=
    { hs with
      reads := fun h => by simp [q.reads] at h
      writes := fun h => by simp [q.writes] at h }
  obtain ⟨hdone, hzero⟩ := (applypatch_safe (hp.resumable hs') hk).returns hu
  exact ⟨hzero q, hdone (hzero q)⟩

/-! ### A patch at work -/

def prefixSha (b : Bytes) : Digest := (b ++ List.replicate 20 0).take 20

def toTwo : Codec where
  applyBSDiffPatchMem _ _ := some [2]
  inflate _ := none
  deflate _ b := b

def digestStr (n : Char) : List Char := '0' :: n :: List.replicate 38 '0'

def oneFile : Disk := ⟨fun n => if n = "/system/a".toList then some ⟨[1], ⟨0o644, 0, 0⟩⟩ else none, []⟩

def onlyPatch : Args :=
  { sourceFilename := "/system/a".toList
    targetFilename := ['-']
    targetSha1Str := digestStr '2'
    targetSize := 1
    patches := [(digestStr '1', ⟨.blob, bsdiff40⟩)] }

def secondPatch : Args :=
  { onlyPatch with patches := [(digestStr '3', ⟨.blob, bsdiff40⟩), (digestStr '1', ⟨.blob, bsdiff40⟩)] }

def calm : Conditions := ⟨false, false, fun _ n => n == 100⟩

def calmly (s : Disk) : (op : Op) → op.Ans
  | .readFile n => s.files n
  | .readMtd _ => (none : Option Bytes)
  | .staleContents => (⟨[], ⟨0, 0, 0⟩⟩ : File)
  | .statfs _ => some 100
  | .openTrunc _ => some (⟨0o600, 0, 0⟩ : Stat)
  | .write _ data => some data.length
  | .chmod n _ => (s.files n).isSome
  | .chown n _ _ => (s.files n).isSome
  | .unlink n => (s.files n).isSome
  | .rename n _ => (s.files n).isSome
  | .readdir _ => (none : Option (List Name))
  | .statRegular n => (s.files n).isSome
  | .openFiles => some ([] : List Name)
  | .writeMtd _ _ => true

theorem calm_quiet : Quiet calm [1] :=
  ⟨rfl, rfl, fun n hn => by simp [calm] at hn; simp [hn], fun _ => ⟨100, rfl⟩⟩

theorem secondPatch_resumes :
    Patchable prefixSha toTwo secondPatch [1] (prefixSha [2]) 1 oneFile ∧
    Sheltered prefixSha toTwo calm secondPatch [1] (prefixSha [2]) 1 ∧
    (TargetDone prefixSha secondPatch (prefixSha [2]) oneFile ∨
        Matches prefixSha secondPatch secondPatch.sourceFilename oneFile ∨
        Matches prefixSha secondPatch cacheTempSource oneFile) ∧
      ∀ c', Quiet c' [1] →
        (∃ code u, Steps (world c') (applypatch prefixSha toTwo secondPatch) oneFile (.ret code) u) ∧
        ∀ code u, Steps (world c') (applypatch prefixSha toTwo secondPatch) oneFile (.ret code) u →
          code = 0 ∧ TargetDone prefixSha secondPatch (prefixSha [2]) u := by
  have hp : Patchable prefixSha toTwo secondPatch [1] (prefixSha [2]) 1 oneFile :=
    { sourceFile := by decide
      targetFile := by decide
      parses := by decide
      source := by decide
      yields := ⟨digestStr '1', ⟨.blob, bsdiff40⟩, ⟨[⟨[2], true⟩], 0⟩, rfl, by decide, rfl, by decide, rfl, rfl⟩ }
  have hs : Sheltered prefixSha toTwo calm secondPatch [1] (prefixSha [2]) 1 :=
    { later := by decide
      first := by
        intro j hj p hj'
        obtain rfl : j = 0 := by omega
        cases hj'
        decide
      source_ne_copy := by decide
      target_ne_copy := by decide
      source_ne_outname := by decide
      not_expendable := by
        rintro ⟨dir, hd, e, -, he⟩
        simp only [expendableDirs, List.mem_cons, List.not_mem_nil, or_false] at hd
        -- the second characters differ
        have h1 : (some 's' : Option Char) = some 'c' := by
          rcases hd with rfl | rfl <;> exact congrArg (·[1]?) he
        exact absurd h1 (by decide)
      reads := nofun
      writes := nofun }
  exact ⟨hp, hs, applypatch_resumes hp hs .refl⟩

/-- A call is cut off right after it has removed the source file, and the next one does not take the copy. -/
theorem first_patch_not_resumed :
    Patchable prefixSha toTwo onlyPatch [1] (prefixSha [2]) 0 oneFile ∧ Quiet calm [1] ∧
    ∃ t u, Restarts (world calm) (applypatch prefixSha toTwo onlyPatch) oneFile t ∧
      Steps (world calm) (applypatch prefixSha toTwo onlyPatch) t (.ret 1) u := by
  refine ⟨?_, calm_quiet, ?_⟩
  · exact
      { sourceFile := by decide
        targetFile := by decide
        parses := by decide
        source := by decide
        yields := ⟨digestStr '1', ⟨.blob, bsdiff40⟩, ⟨[⟨[2], true⟩], 0⟩, rfl, by decide, rfl, by decide, rfl, rfl⟩ }
  · exact ⟨_, _, .again .refl (.of_follow 8 calmly rfl), .of_follow 9 calmly rfl⟩

/-! ## The source file of a call -/

def Roomy (a : Args) (c : Conditions) : Prop :=
  ∀ n, c.room a.targetFs n = true → a.targetSize * 3 / 2 < n

/-- The source file is not touched before the hash is checked, nor removed by a call with another target. -/
structure LeftAlone (sha : Bytes → Digest) (z : Codec) (c : Conditions) (a : Args) (content : Bytes) (d : Disk) :
    Prop where
  before : ∀ q t, Steps (world c) (generate sha z a) d q t → a.sourceFilename ∉ t.touched
  after : ∀ t, Steps (world c) (applypatch sha z a) d (.ret 0) t → a.target ≠ a.sourceFilename →
    t.data a.sourceFilename = some content

/-- The call returns at once, or makes do with the copy. `flaky`: a file that is there may fail to be read. -/
def Spared (sha : Bytes → Digest) (flaky : Bool) (a : Args) (content : Bytes) (d : Disk) : Prop :=
  match parseSha1 a.targetSha1Str with
  | none => True
  | some digest =>
    (flaky = false ∧ TargetDone sha a digest d) ∨
    (a.sourcePatch (sha content) = none ∧ (CopyUsable sha a d → a.sourceFilename ≠ a.outname))

theorem Spared.leftAlone (hs : isMtd a.sourceFilename = false) (ht : isMtd a.target = false)
    (hd : d.data a.sourceFilename = some content) (h0 : d.touched = [])
    (h : Spared sha c.readsFail a content d) : LeftAlone sha z c a content d := by
  have hu : Untouched a content d := ⟨by simp [h0], hd⟩
  have hgen : Safe (world c) (Untouched a content) (fun g _ => OutputApart a g) (generate sha z a) d := by
    rw [Spared] at h
    cases hp : parseSha1 a.targetSha1Str with
    | none =>
      rw [generate, hp]
      exact .ret hu trivial
    | some digest =>
      rw [hp] at h
      rcases h with ⟨hr, hdone⟩ | ⟨hn, hc⟩
      · rw [generate, hp]
        refine (select_done ht hr hdone hu).seq ?_
        rintro sel t hi ⟨rfl, rfl⟩
        exact .ret hi trivial
      · exact generate_untouched ht hp hu hc (select_fromCopy hs ht hd hn hu)
  refine ⟨fun q t hq => (hgen.steps hq).inv.1, fun t hq hne => ?_⟩
  have hall : Safe (world c) (Untouched a content) (fun _ _ => True) (applypatch sha z a) d :=
    hgen.seq fun g t hi hg => finish_untouched hne hi hg
  exact (hall.steps hq).inv.2

theorem generate_touches {f : File} {m : Nat} (hs : isMtd a.sourceFilename = false) (ht : isMtd a.target = false)
    (hf : d.files a.sourceFilename = some f) (hroom : ∀ n, m ≤ n → c.room cacheDir n = true)
    (hroom' : ∀ n, m ≤ n → c.room a.targetFs n = true) (h : ¬ Spared sha c.readsFail a f.data d) :
    Can (world c) (fun t => a.sourceFilename ∈ t.touched) (generate sha z a) d := by
  rw [Spared] at h
  rw [generate]
  cases hp : parseSha1 a.targetSha1Str with
  | none => simp [hp] at h
  | some digest =>
    rw [hp] at h
    simp only [not_or, not_and, Bool.eq_false_iff, ne_eq] at h
    have hdone : c.readsFail = true ∨ ¬ TargetDone sha a digest d := by tauto
    refine select_after hs ht hf hdone ?_
    cases hsp : a.sourcePatch (sha f.data) with
    | some patch =>
      have hlen : f.data.length ≤ max m f.data.length := le_max_right _ _
      have := makeRoom_touches (s := d) (c := c) ⟨sha f.data, f.data, f.st⟩ hs (by simp [hf])
        (hroom _ (le_max_left m f.data.length)) hlen (hroom' m le_rfl)
      simp only [Prog.pure_eq, Prog.ret_bind, patchLoop, ht, Bool.false_eq_true, if_false]
      exact this.left _
    | none =>
      have hcopy := h.2 hsp
      simp only [Classical.not_imp, not_not] at hcopy
      obtain ⟨⟨b, v, hb, hv, hblob⟩, hname⟩ := hcopy
      obtain ⟨g, hg, rfl⟩ := Disk.data_eq_some.1 hb
      have hm : isMtd cacheTempSource = false := by decide
      rw [selectCopy, Prog.bind_assoc]
      refine .after (loadFileContents_steps hm hg) ?_
      simp only [hv, Prog.pure_eq, Prog.ret_bind, patchLoop, ht, Bool.false_eq_true, if_false, makeRoom_eq,
        Prog.bind_assoc]
      refine .after (freeSpaceForFile_steps (hroom' m le_rfl)) ?_
      simp only [turn, hblob, ht, ne_eq, not_true_eq_false, if_false, Bool.false_eq_true]
      have hx : (world c).exec d (.openTrunc a.outname) (some g.st) =
          some (d.set a.outname (some ⟨[], ((d.files a.outname).map File.st).getD g.st⟩)) := rfl
      exact .step (some g.st) hx (.now (by simp [hname]))

/-- The source file is left alone exactly when it is not the one that is patched, whatever space is free. -/
theorem source_left_alone_iff (flaky : Bool) (hs : isMtd a.sourceFilename = false) (ht : isMtd a.target = false)
    (hd : d.data a.sourceFilename = some content) (h0 : d.touched = []) :
    (∀ c, c.readsFail = flaky → Roomy a c → LeftAlone sha z c a content d) ↔ Spared sha flaky a content d := by
  constructor
  · intro h
    by_contra hn
    let c : Conditions := ⟨flaky, false, fun p n => decide (p = a.targetFs → a.targetSize * 3 / 2 < n)⟩
    have hroom (p : Name) (n : Nat) (hle : a.targetSize * 3 / 2 + 1 ≤ n) : c.room p n = true := by
      simp only [c, decide_eq_true_eq]
      omega
    obtain ⟨f, hf, rfl⟩ := Disk.data_eq_some.1 hd
    obtain ⟨q, t, hq, hm⟩ := generate_touches (z := z) (c := c) hs ht hf (hroom _) (hroom _) hn
    have hroomy : Roomy a c := fun n hn => by simpa [c] using hn
    exact (h c rfl hroomy).before q t hq hm
  · rintro h c rfl -
    exact h.leftAlone hs ht hd h0

def noPatch : Args := { onlyPatch with patches := [] }

theorem unmatched_left_alone :
    Spared prefixSha true noPatch [1] oneFile ∧
    ∀ c, c.readsFail = true → Roomy noPatch c → LeftAlone prefixSha toTwo c noPatch [1] oneFile := by
  have h : Spared prefixSha true noPatch [1] oneFile := by
    exact .inr ⟨rfl, fun ⟨_, _, hb, _⟩ => nomatch hb⟩
  exact ⟨h, (source_left_alone_iff true (by decide) (by decide) (by decide) rfl).2 h⟩

def otherTarget : Args := { onlyPatch with targetFilename := "/system/b".toList }

/-- A call that patches `/system/a` into `/system/b` removes `/system/a` before the check. -/
theorem source_removed :
    Roomy otherTarget calm ∧ oneFile.data otherTarget.sourceFilename = some [1] ∧
    (∃ q t, Steps (world calm) (generate prefixSha toTwo otherTarget) oneFile q t ∧
      otherTarget.sourceFilename ∈ t.touched ∧ t.data otherTarget.sourceFilename = none) ∧
    ∃ t, Steps (world calm) (applypatch prefixSha toTwo otherTarget) oneFile (.ret 0) t ∧
      otherTarget.target ≠ otherTarget.sourceFilename ∧ t.data otherTarget.sourceFilename = none := by
  refine ⟨fun n hn => ?_, by decide, ⟨_, _, .of_follow 9 calmly rfl, ?_, rfl⟩,
    ⟨_, .of_follow 30 calmly rfl, by decide, rfl⟩⟩
  · obtain rfl : n = 100 := by simpa [calm] using hn
    decide
  · exact List.mem_cons_self

end G3Mod.Recovery.Applypatch
