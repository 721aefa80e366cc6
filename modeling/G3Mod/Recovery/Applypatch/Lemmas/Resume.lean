import G3Mod.Recovery.Applypatch.Lemmas.Calls

/-!
# Where the only copy of the source is

The content of the source file is at its own place, in the copy, or no longer needed because the target is in place.
-/

namespace G3Mod.Recovery.Applypatch

open Lib Imgpatch

variable {sha : Bytes → Digest} {z : Codec} {c : Conditions} {a : Args} {content : Bytes} {digest : Digest}
variable {s t : Disk}

/-! ## Matching a digest -/

variable {sha1 : Digest} {i : Int} {strs : List (List Char)}

/-- `r` is the number of the first string with `P`, counted from `i` on, or -1. -/
def FirstMatch (P : List Char → Prop) (strs : List (List Char)) (i r : Int) : Prop :=
  (∃ k : Nat, r = i + k ∧ (∃ str, strs[k]? = some str ∧ P str) ∧ ∀ j < k, ∀ str, strs[j]? = some str → ¬ P str) ∨
    r = -1 ∧ ∀ str ∈ strs, ¬ P str

theorem findMatchingPatchFrom_first (sha1 : Digest) (i : Int) (strs : List (List Char)) :
    FirstMatch (parseSha1 · = some sha1) strs i (findMatchingPatchFrom sha1 i strs) := by
  induction strs generalizing i with
  | nil => exact .inr ⟨rfl, nofun⟩
  | cons x strs ih =>
    rw [findMatchingPatchFrom]
    split
    next hx => exact .inl ⟨0, by simp, ⟨x, rfl, hx⟩, nofun⟩
    next hx =>
      rcases ih (i + 1) with ⟨k, hk, hs, hf⟩ | ⟨hk, hf⟩
      · refine .inl ⟨k + 1, by rw [hk]; push_cast; omega, hs, fun j hj y hy => ?_⟩
        cases j with
        | zero =>
          cases hy
          exact hx
        | succ j => exact hf j (by omega) y hy
      · exact .inr ⟨hk, by simpa [hx] using hf⟩

theorem findMatchingPatchFrom_nonneg
    (h : 0 ≤ findMatchingPatchFrom sha1 i strs) : ∃ str ∈ strs, parseSha1 str = some sha1 := by
  rcases findMatchingPatchFrom_first sha1 i strs with ⟨k, -, ⟨str, hs, hp⟩, -⟩ | ⟨hk, -⟩
  · exact ⟨str, List.mem_of_getElem? hs, hp⟩
  · omega

theorem Args.exists_of_toUse (h : 0 ≤ a.toUse sha1) : ∃ p ∈ a.patches, parseSha1 p.1 = some sha1 := by
  obtain ⟨str, hm, hp⟩ := findMatchingPatchFrom_nonneg h
  obtain ⟨p, hpm, rfl⟩ := List.mem_map.1 hm
  exact ⟨p, hpm, hp⟩

theorem findMatchingPatchFrom_of_first {k : Nat} {str : List Char} (i : Int)
    (hk : strs[k]? = some str) (hs : parseSha1 str = some sha1)
    (hf : ∀ j < k, ∀ x, strs[j]? = some x → parseSha1 x ≠ some sha1) :
    findMatchingPatchFrom sha1 i strs = i + k := by
  rcases findMatchingPatchFrom_first sha1 i strs with ⟨k', hr, ⟨x, hx, hp⟩, hf'⟩ | ⟨-, hno⟩
  · rcases Nat.lt_trichotomy k k' with hlt | rfl | hlt
    · exact absurd hs (hf' k hlt str hk)
    · exact hr
    · exact absurd hp (hf k' hlt x hx)
  · exact absurd hs (hno str (List.mem_of_getElem? hk))

variable {v : Value}

theorem Args.patchData_mem (h : a.patchData i = some v) : ∃ p ∈ a.patches, p.2 = v := by
  obtain ⟨p, hp, rfl⟩ := Option.map_eq_some_iff.1 h
  exact ⟨p, List.mem_of_getElem? hp, rfl⟩

theorem Args.sourcePatch_eq_some (h : a.sourcePatch sha1 = some v) :
    0 ≤ a.toUse sha1 ∧ a.patchData (a.toUse sha1) = some v := by
  rw [sourcePatch] at h
  split at h
  · exact ⟨‹_›, h⟩
  · cases h

theorem Args.copyPatch_eq_some (h : a.copyPatch sha1 = some v) :
    0 < a.toUse sha1 ∧ a.patchData (a.toUse sha1) = some v := by
  rw [copyPatch] at h
  split at h
  · exact ⟨‹_›, h⟩
  · cases h

/-! ## The condition -/

/-- `a` patches a file with this content into one with this digest, and no name gets in the way. -/
structure Resumable (sha : Bytes → Digest) (z : Codec) (c : Conditions) (a : Args) (content : Bytes)
    (digest : Digest) : Prop where
  sourceFile : isMtd a.sourceFilename = false
  targetFile : isMtd a.target = false
  parses : parseSha1 a.targetSha1Str = some digest
  later : 0 < a.toUse (sha content)
  yields : ∃ v sent, a.patchData (a.toUse (sha content)) = some v ∧ v.type = .blob ∧
    patchOutput z content v.data = some sent ∧ sent.result = 0 ∧ sha sent.bytes = digest
  source_ne_copy : a.sourceFilename ≠ cacheTempSource
  target_ne_copy : a.target ≠ cacheTempSource
  source_ne_outname : a.sourceFilename ≠ a.outname
  not_expendable : ¬ Expendable a.sourceFilename
  /-- Where reads can fail, the target is not itself taken for a source. -/
  reads : c.readsFail = true → ∀ p ∈ a.patches, parseSha1 p.1 ≠ some digest
  /-- Where writes can fail, no patch ignores it. -/
  writes : c.writesFail = true → ∀ p ∈ a.patches, ∀ source sent, patchOutput z source p.2.data = some sent →
    ∀ q ∈ sent.pieces, q.checked = true

structure Quiet (c : Conditions) (content : Bytes) : Prop where
  reads : c.readsFail = false
  writes : c.writesFail = false
  room : ∀ n, c.room cacheDir n = true → content.length ≤ n
  reports : ∀ path, ∃ n, c.room path n = true

def TargetDone (sha : Bytes → Digest) (a : Args) (digest : Digest) (d : Disk) : Prop :=
  ∃ b, d.data a.target = some b ∧ sha b = digest

structure Kept (sha : Bytes → Digest) (a : Args) (content : Bytes) (digest : Digest) (d : Disk) : Prop where
  source : d.data a.sourceFilename = none ∨ d.data a.sourceFilename = some content ∨
    (a.sourceFilename = a.target ∧ TargetDone sha a digest d)
  somewhere : TargetDone sha a digest d ∨ d.data a.sourceFilename = some content ∨
    d.data cacheTempSource = some content

/-- What the code that a call returns says: 0 that the target is in place, anything else that some call has failed. -/
def Returned (sha : Bytes → Digest) (c : Conditions) (a : Args) (content : Bytes) (digest : Digest) (code : Int)
    (t : Disk) : Prop :=
  (code = 0 → TargetDone sha a digest t) ∧ (Quiet c content → code = 0)

theorem Returned.one (h : ¬ Quiet c content) : Returned sha c a content digest 1 t :=
  ⟨fun h1 => absurd h1 Int.one_ne_zero, fun q => absurd q h⟩

theorem append_patch_ne (n : Name) : n ++ ".patch".toList ≠ "/cache/saved.file".toList := by
  intro h
  have := congrArg List.getLast? h
  simp at this

theorem outname_ne_target (a : Args) : a.outname ≠ a.target := by
  intro h
  have := congrArg List.length h
  simp [Args.outname] at this

namespace Kept

theorem of_source (h : t.data a.sourceFilename = some content) : Kept sha a content digest t :=
  ⟨.inr (.inl h), .inr (.inl h)⟩

theorem of_copy (h : t.data a.sourceFilename = none ∨ t.data a.sourceFilename = some content)
    (hc : t.data cacheTempSource = some content) : Kept sha a content digest t :=
  ⟨h.imp_right .inl, .inr (.inr hc)⟩

theorem changed_outname (hr : Resumable sha z c a content digest) (h : Kept sha a content digest s) {b : Option Bytes}
    (hc : Changed s a.outname b t) : Kept sha a content digest t := by
  have hs := hc.others a.sourceFilename hr.source_ne_outname
  have ht := hc.others a.target (outname_ne_target a).symm
  have hk := hc.others cacheTempSource (append_patch_ne a.target).symm
  constructor
  · rw [TargetDone, hs, ht]
    exact h.source
  · rw [TargetDone, hs, ht, hk]
    exact h.somewhere

theorem renamed (hr : Resumable sha z c a content digest) (h : Kept sha a content digest s) {b : Bytes}
    (hb : s.data a.outname = some b) (hd : sha b = digest) (hn : Renamed s a.outname a.target t) :
    Kept sha a content digest t ∧ TargetDone sha a digest t := by
  have hdone : TargetDone sha a digest t := ⟨b, hn.content.trans hb, hd⟩
  refine ⟨⟨?_, .inl hdone⟩, hdone⟩
  by_cases he : a.sourceFilename = a.target
  · exact .inr (.inr ⟨he, hdone⟩)
  rw [hn.others a.sourceFilename hr.source_ne_outname he]
  rcases h.source with h | h | h
  · exact .inl h
  · exact .inr (.inl h)
  · exact absurd h.1 he

theorem clean (hr : Resumable sha z c a content digest) (h : Kept sha a content digest s)
    (hd : TargetDone sha a digest s) {b : Option Bytes} (hc : Changed s cacheTempSource b t) :
    Kept sha a content digest t ∧ TargetDone sha a digest t := by
  have hs := hc.others a.sourceFilename hr.source_ne_copy
  have hdone : TargetDone sha a digest t := by
    rw [TargetDone, hc.others a.target hr.target_ne_copy]
    exact hd
  refine ⟨⟨?_, .inl hdone⟩, hdone⟩
  rw [hs]
  rcases h.source with h | h | h
  · exact .inl h
  · exact .inr (.inl h)
  · exact .inr (.inr ⟨h.1, hdone⟩)

end Kept

def Selected (sha : Bytes → Digest) (c : Conditions) (a : Args) (content : Bytes) (digest : Digest) (s : Disk) :
    Selection → Prop
  | .ended code => Returned sha c a content digest code s
  | .source file patch =>
    file.data = content ∧ s.data a.sourceFilename = some content ∧
      a.patchData (a.toUse (sha content)) = some patch
  | .copy file patch =>
    (∃ p ∈ a.patches, p.2 = patch) ∧
      (Quiet c content → file.data = content ∧ a.patchData (a.toUse (sha content)) = some patch)

theorem selectCopy_safe (hr : Resumable sha z c a content digest) (hk : Kept sha a content digest s)
    (hq : Quiet c content → s.data cacheTempSource = some content) :
    Safe (world c) (Kept sha a content digest) (fun sel t => t = s ∧ Selected sha c a content digest s sel)
      (selectCopy sha a) s := by
  have hm : isMtd cacheTempSource = false := by decide
  refine (loadFileContents_safe hm hk).seq ?_
  rintro r t hi ⟨rfl, hl⟩
  cases r with
  | none =>
    refine .ret hi ⟨rfl, .one fun q => ?_⟩
    rcases hl with hl | hl
    · rw [hq q] at hl
      cases hl
    · rw [q.reads] at hl
      cases hl
  | some file =>
    obtain ⟨hsha, hd⟩ := hl
    have hq' : Quiet c content → file.data = content := fun q => by
      rw [hq q] at hd
      exact (Option.some.inj hd).symm
    dsimp only
    rw [hsha]
    cases hp : a.copyPatch (sha file.data) with
    | none =>
      refine .ret hi ⟨rfl, .one fun q => ?_⟩
      obtain ⟨v, -, hv, -⟩ := hr.yields
      rw [hq' q, Args.copyPatch, if_pos hr.later, hv] at hp
      cases hp
    | some patch =>
      have hpd := Args.copyPatch_eq_some hp
      refine .ret hi ⟨rfl, Args.patchData_mem hpd.2, fun q => ⟨hq' q, ?_⟩⟩
      rw [← hq' q]
      exact hpd.2

variable {I : Disk → Prop} {loaded : Option FileContents}

theorem loadSource_safe (hs : isMtd a.sourceFilename = false)
    (hl : Loads sha c s a.target loaded) (hI : I s) :
    Safe (world c) I (fun r t => t = s ∧ Loads sha c s a.sourceFilename r) (loadSource sha a loaded) s := by
  rw [loadSource]
  split
  · exact loadFileContents_safe hs hI
  · rename_i h
    have he : a.target = a.sourceFilename := by tauto
    exact .ret hI ⟨rfl, he ▸ hl⟩

theorem selectSource_safe (hr : Resumable sha z c a content digest) (hk : Kept sha a content digest s) (hl : Loads sha c s a.target loaded)
    (hne : loaded.map FileContents.sha1 ≠ some digest) :
    Safe (world c) (Kept sha a content digest) (fun sel t => t = s ∧ Selected sha c a content digest s sel)
      (selectSource sha a loaded) s := by
  -- without failing reads, a target in place would have been seen
  have hdone : c.readsFail = false → ¬ TargetDone sha a digest s := by
    rintro hf ⟨b, hb, hd⟩
    cases loaded with
    | none =>
      rcases hl with hl | hl
      · rw [hb] at hl
        cases hl
      · rw [hf] at hl
        cases hl
    | some f =>
      obtain ⟨hsha, hf⟩ := hl
      rw [hb] at hf
      cases hf
      exact hne (by simp [hsha, hd])
  refine (loadSource_safe hr.sourceFile hl hk).seq ?_
  rintro r t hi ⟨rfl, hr'⟩
  have hcopy (hsrc : Quiet c content → t.data a.sourceFilename ≠ some content) :
      Quiet c content → t.data cacheTempSource = some content := fun q =>
    (hk.somewhere.resolve_left (hdone q.reads)).resolve_left (hsrc q)
  cases r with
  | none =>
    refine selectCopy_safe hr hk (hcopy fun q hs => ?_)
    rcases hr' with h | h
    · rw [hs] at h
      cases h
    · rw [q.reads] at h
      cases h
  | some file =>
    obtain ⟨hsha, hd⟩ := hr'
    dsimp only
    rw [hsha]
    cases hp : a.sourcePatch (sha file.data) with
    | none =>
      refine selectCopy_safe hr hk (hcopy fun q hs => ?_)
      obtain ⟨v, -, hv, -⟩ := hr.yields
      rw [hs, Option.some.injEq] at hd
      rw [← hd, Args.sourcePatch, if_pos (Int.le_of_lt hr.later), hv] at hp
      cases hp
    | some patch =>
      obtain ⟨h0, hpd⟩ := Args.sourcePatch_eq_some hp
      have hc : file.data = content := by
        rcases hk.source with h | h | ⟨he, b, hb, hbd⟩
        · rw [hd] at h
          cases h
        · rw [hd] at h
          exact Option.some.inj h
        -- the target is in place and is taken for a source
        rw [← he, hd] at hb
        cases hb
        cases hrd : c.readsFail with
        | false => exact absurd ⟨file.data, he ▸ hd, hbd⟩ (hdone hrd)
        | true =>
          obtain ⟨p, hpm, hpp⟩ := Args.exists_of_toUse h0
          exact absurd (hpp.trans (by rw [hbd])) (hr.reads hrd p hpm)
      rw [hc] at hd hpd
      exact .ret hi ⟨rfl, hc, hd, hpd⟩

theorem select_safe (hr : Resumable sha z c a content digest) (hk : Kept sha a content digest s) :
    Safe (world c) (Kept sha a content digest) (fun sel t => t = s ∧ Selected sha c a content digest s sel)
      (select sha a digest) s := by
  refine (loadFileContents_safe hr.targetFile hk).seq ?_
  rintro loaded t hi ⟨rfl, hl⟩
  split
  · rename_i h
    obtain ⟨f, rfl, hf⟩ := Option.map_eq_some_iff.1 h
    exact .ret hi ⟨rfl, fun _ => ⟨f.data, hl.2, hl.1 ▸ hf⟩, fun _ => rfl⟩
  · rename_i h
    exact selectSource_safe hr hk hl h

/-! ## A turn of the loop -/

theorem makeRoom_eq (source : Option FileContents) (retry : Nat) (madeCopy : Bool) :
    makeRoom a source retry madeCopy =
      ((if retry > 0 then freeSpaceForFile a.targetFs else pure 0) >>= fun _ =>
        match source with
        | none => pure (some (0, madeCopy))
        | some file =>
          if isMtd a.sourceFilename then pure none
          else backUp file >>= fun ok =>
            if !ok then pure none
            else unlink a.sourceFilename >>= fun _ => freeSpaceForFile a.targetFs >>= fun _ =>
              pure (some (0, true))) := by
  unfold makeRoom
  by_cases h : retry > 0
  · cases source <;> simp [h]
  · cases source <;> simp [h]

theorem freeSpace_optional {n : Name} (retry : Nat) (hI : I s) :
    Safe (world c) I (fun _ t => t = s) (if retry > 0 then freeSpaceForFile n else pure 0) s := by
  split
  · exact (freeSpaceForFile_safe hI).mono (fun _ h => h) fun _ _ _ h => h.1
  · exact .ret hI rfl

variable {source : Option FileContents}

theorem makeRoom_safe (hr : Resumable sha z c a content digest) (hk : Kept sha a content digest s)
    (hs : ∀ file, source = some file → file.data = content ∧ s.data a.sourceFilename = some content) (retry : Nat)
    (madeCopy : Bool) :
    Safe (world c) (Kept sha a content digest)
      (fun r _ => (∀ x, r = some x → x.1 = 0) ∧ (Quiet c content → r.isSome))
      (makeRoom a source retry madeCopy) s := by
  rw [makeRoom_eq]
  refine (freeSpace_optional retry hk).seq ?_
  rintro - t hi rfl
  cases source with
  | none =>
    refine .ret hi ⟨?_, fun _ => rfl⟩
    rintro x ⟨⟩
    rfl
  | some file =>
    obtain ⟨hd, hsrc⟩ := hs file rfl
    simp only [hr.sourceFile, Bool.false_eq_true, if_false]
    have hpr {u : Disk} (hu : Pruned t u) : u.data a.sourceFilename = some content :=
      (hu _ (.inl hr.not_expendable)).trans hsrc
    refine (backUp_safe (fun u hu => .of_source (hpr hu)) fun b u v hu hv =>
      .of_source ((hv.others _ hr.source_ne_copy).trans (hpr hu))).seq ?_
    rintro ok u hi ⟨⟨b, v, hv, hu⟩, hcopy, hok⟩
    cases ok with
    | false =>
      exact .ret hi ⟨nofun, fun q => by simpa using hok q.reads q.writes (hd ▸ q.room)⟩
    | true =>
      have hu' : u.data a.sourceFilename = some content := (hu.others _ hr.source_ne_copy).trans (hpr hv)
      have hcu : u.data cacheTempSource = some content := hd ▸ hcopy rfl
      have hkept {x : Disk} (hx : x = u ∨ Changed u a.sourceFilename none x) :
          Kept sha a content digest x := by
        rcases hx with rfl | hx
        · exact .of_source hu'
        · exact .of_copy (.inl hx.content) ((hx.others _ hr.source_ne_copy.symm).trans hcu)
      refine (unlink_safe hi fun x hx => hkept (.inr hx)).seq fun _ x hi hx => ?_
      refine (freeSpaceForFile_safe hi).seq ?_
      rintro - x hi ⟨rfl, -⟩
      refine .ret hi ⟨?_, fun _ => rfl⟩
      rintro y ⟨⟩
      rfl

def Produced (sha : Bytes → Digest) (c : Conditions) (a : Args) (content : Bytes) (digest : Digest) :
    Generated → Disk → Prop
  | .ended code, t => Returned sha c a content digest code t
  | .output targetSha1 _ _ ctx mtd, t =>
    targetSha1 = digest ∧ mtd = none ∧ t.data a.outname = some ctx ∧ (Quiet c content → sha ctx = digest)

variable {file : FileContents} {patch : Value}

section

variable (hr : Resumable sha z c a content digest)

include hr

theorem turn_safe (hk : Kept sha a content digest s) (hp : ∃ p ∈ a.patches, p.2 = patch)
    (hq : Quiet c content → file.data = content ∧ a.patchData (a.toUse (sha content)) = some patch)
    {room : Option (Nat × Bool)} (h0 : ∀ x, room = some x → x.1 = 0) (hroom : Quiet c content → room.isSome)
    (again : Bool → Prog Generated) :
    Safe (world c) (Kept sha a content digest) (Produced sha c a content digest)
      (turn z a digest file patch room again) s := by
  obtain ⟨v, sent', hv, hblob, hout, hres, hsent⟩ := hr.yields
  -- where no call fails the patch is the one that yields the target
  have hpatch (q : Quiet c content) : patch = v ∧ patchOutput z file.data patch.data = some sent' := by
    obtain ⟨hf, hpd⟩ := hq q
    have : patch = v := Option.some.inj (hpd.symm.trans hv)
    exact ⟨this, by rw [hf, this, hout]⟩
  cases room with
  | none => exact .ret hk (.one fun q => by simpa using hroom q)
  | some x =>
    obtain ⟨retry, madeCopy⟩ := x
    obtain rfl : retry = 0 := h0 _ rfl
    rw [turn]
    split
    · rename_i hb
      exact .ret hk (.one fun q => hb ((hpatch q).1 ▸ hblob))
    simp only [hr.targetFile, Bool.false_eq_true, if_false, if_true]
    refine (openTrunc_safe hk fun t ht => hk.changed_outname hr ht).seq fun r t hi ht => ?_
    cases r with
    | none => exact .ret hi (.one fun q => by simpa [q.writes] using (ht.1 rfl).2)
    | some st =>
      have ht := ht.2 rfl
      cases hpo : patchOutput z file.data patch.data with
      | none => exact .ret hi (.one fun q => by simpa [hpo] using (hpatch q).2)
      | some sent =>
        obtain ⟨p, hpm, hpv⟩ := hp
        have hcheck (h : c.writesFail = true) : ∀ q ∈ sent.pieces, q.checked = true :=
          hr.writes h p hpm file.data sent (by rw [hpv, hpo])
        refine (feed_safe sent.pieces [] [] hcheck ht.content
          fun b u hu => hi.changed_outname hr hu).seq fun fed u hi hu => ?_
        obtain ⟨-, hok, hw⟩ := hu
        have hsq (q : Quiet c content) : sent = sent' := by
          have := (hpatch q).2
          rw [hpo] at this
          exact Option.some.inj this
        split
        · rename_i hgood
          obtain ⟨hctx, hout⟩ := hok hgood.1
          refine .ret hi ⟨rfl, rfl, by rw [hout, hctx], fun q => ?_⟩
          rw [hctx, hsq q]
          exact hsent
        · rename_i hbad
          exact .ret hi (.one fun q => hbad ⟨hw q.writes, hsq q ▸ hres⟩)

theorem patchLoop_safe (hk : Kept sha a content digest s)
    (hs : ∀ file, source = some file → file.data = content ∧ s.data a.sourceFilename = some content)
    (hp : ∃ p ∈ a.patches, p.2 = patch)
    (hq : Quiet c content → file.data = content ∧ a.patchData (a.toUse (sha content)) = some patch) (retry : Nat)
    (madeCopy : Bool) :
    Safe (world c) (Kept sha a content digest) (Produced sha c a content digest)
      (patchLoop z a digest source file patch retry madeCopy) s := by
  cases retry <;>
  · simp only [patchLoop, hr.targetFile, Bool.false_eq_true, if_false]
    exact (makeRoom_safe hr hk hs _ madeCopy).seq fun room t hi h => turn_safe hr hi hp hq h.1 h.2 _

theorem generate_safe (hk : Kept sha a content digest s) :
    Safe (world c) (Kept sha a content digest) (Produced sha c a content digest) (generate sha z a) s := by
  rw [generate, hr.parses]
  refine (select_safe hr hk).seq ?_
  rintro sel t hi ⟨rfl, hsel⟩
  cases sel with
  | ended code => exact .ret hi hsel
  | source file patch =>
    obtain ⟨hf, hs, hpd⟩ := hsel
    refine patchLoop_safe hr hi ?_ (Args.patchData_mem hpd) (fun _ => ⟨hf, hpd⟩) 1 false
    rintro f ⟨⟩
    exact ⟨hf, hs⟩
  | copy file patch => exact patchLoop_safe hr hi (by simp) hsel.1 hsel.2 1 false

theorem cleanUp_safe (hk : Kept sha a content digest s)
    (hd : TargetDone sha a digest s) (madeCopy : Bool) :
    Safe (world c) (Kept sha a content digest) (fun r t => r = 0 ∧ TargetDone sha a digest t) (cleanUp madeCopy) s := by
  cases madeCopy with
  | false => exact .ret hk ⟨rfl, hd⟩
  | true =>
    refine (unlink_safe hk fun t ht => (hk.clean hr hd ht).1).seq fun _ t hi ht => ?_
    refine .ret hi ⟨rfl, ?_⟩
    rcases ht with rfl | ht
    · exact hd
    · exact (hk.clean hr hd ht).2

theorem finish_safe (hk : Kept sha a content digest s) {g : Generated}
    (hg : Produced sha c a content digest g s) :
    Safe (world c) (Kept sha a content digest) (Returned sha c a content digest) (finish sha a g) s := by
  cases g with
  | ended code => exact .ret hk hg
  | output targetSha1 madeCopy st ctx mtd =>
    obtain ⟨rfl, rfl, hout, hq⟩ := hg
    rw [finish]
    split
    · rename_i hne
      exact .ret hk (.one fun q => hne (hq q))
    rename_i hsha
    rw [not_not] at hsha
    refine (chmod_safe hk fun t ht => hk.changed_outname hr ht).seq fun ok t hi ht => ?_
    have hout1 : t.data a.outname = some ctx := ht.1.content.trans hout
    cases ok with
    | false => exact .ret hi (.one fun q => by simpa [hout, q.writes] using ht.2 rfl)
    | true =>
      refine (chown_safe hi fun u hu => hi.changed_outname hr hu).seq fun ok u hi hu => ?_
      have hout2 : u.data a.outname = some ctx := hu.1.content.trans hout1
      cases ok with
      | false => exact .ret hi (.one fun q => by simpa [hout1, q.writes] using hu.2 rfl)
      | true =>
        refine (rename_safe hi fun v hv => (hi.renamed hr hout2 hsha hv).1).seq fun ok v hi' hv => ?_
        cases ok with
        | false => exact .ret hi' (.one fun q => by simpa [hout2, q.writes] using (hv.2 rfl).2)
        | true =>
          have hdone := (hi.renamed hr hout2 hsha (hv.1 rfl)).2
          exact (cleanUp_safe hr hi' hdone madeCopy).mono (fun _ h => h)
            fun r x _ h => ⟨fun _ => h.2, fun _ => h.1⟩

theorem applypatch_safe (hk : Kept sha a content digest s) :
    Safe (world c) (Kept sha a content digest) (Returned sha c a content digest) (applypatch sha z a) s :=
  (generate_safe hr hk).seq fun _ _ hi hg => finish_safe hr hi hg

end

end G3Mod.Recovery.Applypatch
