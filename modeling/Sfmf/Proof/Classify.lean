import Sfmf.Spec.Unpack
import Sfmf.Proof.Convert

/-!
# What the classification gives

* `classifyEntries_ok`: every entry of the manifest is classified, under its target
  name.
* `EntryClassified`: what its blob result can be.
* `LinkTargets`: the paths that hard links refer to are targets.
-/

namespace Sfmf

variable {E : Env} {opts : UnpackOptions} {m : Manifest}

/-- **A classified entry**: its target name, and a blob result that fits its type and size. -/
structure EntryClassified (opts : UnpackOptions) (m : Manifest) (e : SfmfFileEntry) (u : UnpackFileEntry) : Prop where
  entry : u.entry = e
  target : ∃ name, m.filenameAt e.filenameOffset = .ok name ∧ u.targetFilename = opts.outputdir ++ name
  hardlink : e.type = entryHardlink → u.blobResult = .hardlink
  empty : e.type ≠ entryHardlink → e.hash.size = 0 → u.blobResult = .empty
  full : e.type ≠ entryHardlink → e.hash.size > 0 → u.blobResult ≠ .empty

theorem searchBlobHash_ne_empty {L : Disk} {h : SfmfFileHash} {ls ls' : List FileEntry} {r : BlobResult}
    (hs : searchBlobHash E L m h ls = .ok (r, ls')) : r ≠ .empty := by
  simp only [searchBlobHash, bind_ok] at hs
  obtain ⟨found, _, hs⟩ := hs
  cases found with
  | some entry => cases hs; simp
  | none =>
    simp only [bind_ok] at hs
    obtain ⟨⟨found, ls₁⟩, _, hs⟩ := hs
    cases found with
    | some entry => cases hs; simp
    | none =>
      simp only [bind_ok] at hs
      obtain ⟨found, _, hs⟩ := hs
      cases found <;> cases hs <;> simp

/-- **What `unpack_classify_entry` does**: a hard link is not looked up, nor is an entry of size 0. -/
theorem unpackClassifyEntry_iff {ls ls' : List FileEntry} {e : SfmfFileEntry} {u : UnpackFileEntry} :
    unpackClassifyEntry E opts m ls e = .ok (u, ls') ↔ ∃ name r, m.filenameAt e.filenameOffset = .ok name ∧
      u = ⟨e, r, opts.outputdir ++ name⟩ ∧ (e.hash.size > 0 → e.hash.hashtype = hashtypeSha1) ∧
      ((e.type = entryHardlink ∧ r = .hardlink ∧ ls' = ls) ∨
        (e.type ≠ entryHardlink ∧ e.hash.size > 0 ∧ searchBlobHash E opts.localDisk m e.hash ls = .ok (r, ls')) ∨
        (e.type ≠ entryHardlink ∧ ¬ e.hash.size > 0 ∧ r = .empty ∧ ls' = ls)) := by
  unfold unpackClassifyEntry
  cases hname : m.filenameAt e.filenameOffset with
  | error s => simp
  | ok name =>
    by_cases hsize : e.hash.size > 0
    · by_cases hsha : e.hash.hashtype = hashtypeSha1
      · have hfmt := sfmfFilehashFormat_ok.2 ⟨hsha, rfl⟩
        by_cases ht : e.type = entryHardlink
        · simp [hsize, hfmt, ht, hsha, eq_comm]
        · cases searchBlobHash E opts.localDisk m e.hash ls with
          | error s => simp [hsize, hfmt, ht]
          | ok p => simp [hsize, hfmt, ht, hsha, Prod.ext_iff, eq_comm]
      · cases hf : sfmfFilehashFormat e.hash with
        | ok b => exact absurd (sfmfFilehashFormat_ok.1 hf).1 hsha
        | error s => simp [hsize, hsha]
    · by_cases ht : e.type = entryHardlink
      · simp [hsize, ht, eq_comm]
      · simp [hsize, ht, eq_comm]

theorem unpackClassifyEntry_ok {ls ls' : List FileEntry} {e : SfmfFileEntry} {u : UnpackFileEntry}
    (h : unpackClassifyEntry E opts m ls e = .ok (u, ls')) : EntryClassified opts m e u := by
  obtain ⟨name, r, hname, rfl, _, ⟨ht, rfl, _⟩ | ⟨ht, hsize, hr⟩ | ⟨ht, hsize, rfl, _⟩⟩ := unpackClassifyEntry_iff.1 h
  · exact ⟨rfl, ⟨name, hname, rfl⟩, fun _ => rfl, fun hn => absurd ht hn, fun hn => absurd ht hn⟩
  · exact ⟨rfl, ⟨name, hname, rfl⟩, fun h => absurd h ht,
      fun _ h0 => by rw [h0] at hsize; exact absurd hsize (by decide), fun _ _ => searchBlobHash_ne_empty hr⟩
  · exact ⟨rfl, ⟨name, hname, rfl⟩, fun h => absurd h ht, fun _ _ => rfl, fun _ h => absurd h hsize⟩

theorem classifyEntries_cons {e : SfmfFileEntry} {es : List SfmfFileEntry} {ls ls' : List FileEntry}
    {us : List UnpackFileEntry} : classifyEntries E opts m ls (e :: es) = .ok (us, ls') ↔
      ∃ u ls₁ us₁, unpackClassifyEntry E opts m ls e = .ok (u, ls₁) ∧
        classifyEntries E opts m ls₁ es = .ok (us₁, ls') ∧ us = u :: us₁ := by
  simp only [classifyEntries, bind_ok, pure_eq_ok, Except.ok.injEq, Prod.mk.injEq]
  constructor
  · rintro ⟨⟨u, ls₁⟩, hu, ⟨us₁, ls₂⟩, hus, rfl, rfl⟩
    exact ⟨u, ls₁, us₁, hu, hus, rfl⟩
  · rintro ⟨u, ls₁, us₁, hu, hus, rfl⟩
    exact ⟨⟨u, ls₁⟩, hu, ⟨us₁, ls'⟩, hus, rfl, rfl⟩

/-- **The classification of a list** is one of each entry. -/
theorem classifyEntries_ok : ∀ {es : List SfmfFileEntry} {ls ls' : List FileEntry} {us : List UnpackFileEntry},
    classifyEntries E opts m ls es = .ok (us, ls') → List.Forall₂ (EntryClassified opts m) es us := by
  intro es
  induction es with
  | nil => intro ls ls' us h; cases h; exact .nil
  | cons e es ih =>
    intro ls ls' us h
    obtain ⟨u, ls₁, us₁, hu, hus, rfl⟩ := classifyEntries_cons.1 h
    exact .cons (unpackClassifyEntry_ok hu) (ih hus)

/-- What a hard link refers to is an entry: its path is the target of that entry. -/
def LinkTargets (opts : UnpackOptions) (m : Manifest) (us : List UnpackFileEntry) : Prop :=
  ∀ (j : ℕ) (e : SfmfFileEntry) (name : Bytes), m.fentries[j]? = some e → m.filenameAt e.filenameOffset = .ok name →
    ∃ v, us[j]? = some v ∧ v.targetFilename = opts.outputdir ++ name

theorem EntryClassified.linkTargets {us : List UnpackFileEntry} (h : List.Forall₂ (EntryClassified opts m) m.fentries us) :
    LinkTargets opts m us := by
  intro j e name he hname
  obtain ⟨hj, rfl⟩ := List.getElem?_eq_some_iff.1 he
  have hj' : j < us.length := h.length_eq ▸ hj
  obtain ⟨name', hname', htarget⟩ := (h.get hj hj').target
  simp only [List.get_eq_getElem] at hname' htarget
  rw [hname, Except.ok.injEq] at hname'
  exact ⟨us[j], List.getElem?_eq_getElem hj', by rw [htarget, hname']⟩

/-- In a classification that does not fail, that of no entry does. -/
theorem classifyEntries_each : ∀ {es : List SfmfFileEntry} {ls ls' : List FileEntry} {us : List UnpackFileEntry},
    classifyEntries E opts m ls es = .ok (us, ls') →
    ∀ e ∈ es, ∃ ls u ls', unpackClassifyEntry E opts m ls e = .ok (u, ls') := by
  intro es
  induction es with
  | nil => intro _ _ _ _ e he; cases he
  | cons e es ih =>
    intro ls ls' us h
    obtain ⟨u, ls₁, us₁, hu, hus, -⟩ := classifyEntries_cons.1 h
    intro e' he'
    rcases List.mem_cons.1 he' with rfl | he'
    · exact ⟨ls, u, ls₁, hu⟩
    · exact ih hus e' he'

/-- **Entries that are classified one by one**, without local files, are classified in a row. -/
theorem classifyEntries_total : ∀ {es : List SfmfFileEntry},
    (∀ e ∈ es, ∃ u, unpackClassifyEntry E opts m [] e = .ok (u, [])) →
    ∃ us, classifyEntries E opts m [] es = .ok (us, []) ∧
      List.Forall₂ (fun e u => unpackClassifyEntry E opts m [] e = .ok (u, [])) es us := by
  intro es
  induction es with
  | nil => intro _; exact ⟨[], rfl, .nil⟩
  | cons e es ih =>
    intro h
    obtain ⟨u, hu⟩ := h e List.mem_cons_self
    obtain ⟨us, hus, hall⟩ := ih fun e he => h e (List.mem_cons_of_mem _ he)
    exact ⟨u :: us, by simp [classifyEntries, hu, hus], .cons hu hall⟩

/-! ## Where the classification does not depend on -/

theorem unpackClassifyEntry_congr {U U' : UnpackOptions} (hL : U'.localDisk = U.localDisk)
    {ls ls' : List FileEntry} {e : SfmfFileEntry} {u : UnpackFileEntry}
    (h : unpackClassifyEntry E U m ls e = .ok (u, ls')) : ∃ u', unpackClassifyEntry E U' m ls e = .ok (u', ls') ∧
      u'.entry = u.entry ∧ u'.blobResult = u.blobResult := by
  obtain ⟨name, r, hname, rfl, hcase⟩ := unpackClassifyEntry_iff.1 h
  rw [← hL] at hcase
  exact ⟨⟨e, r, U'.outputdir ++ name⟩, unpackClassifyEntry_iff.2 ⟨name, r, hname, rfl, hcase⟩, rfl, rfl⟩

/-- **The results depend on the manifest and the local files only.** -/
theorem classifyEntries_congr {U U' : UnpackOptions} (hL : U'.localDisk = U.localDisk) :
    ∀ {es : List SfmfFileEntry} {ls ls' : List FileEntry} {us : List UnpackFileEntry},
      classifyEntries E U m ls es = .ok (us, ls') → ∃ us', classifyEntries E U' m ls es = .ok (us', ls') ∧
        List.Forall₂ (fun u u' => u'.entry = u.entry ∧ u'.blobResult = u.blobResult) us us' := by
  intro es
  induction es with
  | nil => intro ls ls' us h; cases h; exact ⟨[], rfl, .nil⟩
  | cons e es ih =>
    intro ls ls' us h
    obtain ⟨u, ls₁, us₁, hu, hus, rfl⟩ := classifyEntries_cons.1 h
    obtain ⟨u', hu', he, hr⟩ := unpackClassifyEntry_congr hL hu
    obtain ⟨us', hus', hall⟩ := ih hus
    exact ⟨u' :: us', classifyEntries_cons.2 ⟨u', ls₁, us', hu', hus', rfl⟩, .cons ⟨he, hr⟩ hall⟩

/-- A pack that is found is one of the manifest. -/
theorem searchBlobHash_packed {L : Disk} {h : SfmfFileHash} {ls ls' : List FileEntry} {e : SfmfPackEntry}
    (hs : searchBlobHash E L m h ls = .ok (.packed e, ls')) : e ∈ m.pentries := by
  simp only [searchBlobHash, bind_ok] at hs
  obtain ⟨found, _, hs⟩ := hs
  cases found with
  | some entry => cases hs
  | none =>
    simp only [bind_ok] at hs
    obtain ⟨⟨found, ls₁⟩, _, hs⟩ := hs
    cases found with
    | some entry => cases hs
    | none =>
      simp only [bind_ok] at hs
      obtain ⟨found, hfound, hs⟩ := hs
      cases found with
      | none => cases hs
      | some pack =>
        cases hs
        exact (List.of_mem_zip (findM_some hfound).1).1

theorem classifyEntries_packed : ∀ {es : List SfmfFileEntry} {ls ls' : List FileEntry} {us : List UnpackFileEntry},
    classifyEntries E opts m ls es = .ok (us, ls') → ∀ u ∈ us, ∀ e, u.blobResult = .packed e → e ∈ m.pentries := by
  intro es
  induction es with
  | nil => intro ls ls' us h; cases h; simp
  | cons e es ih =>
    intro ls ls' us h
    obtain ⟨u, ls₁, us₁, hu, hus, rfl⟩ := classifyEntries_cons.1 h
    intro v hv pack hp
    rcases List.mem_cons.1 hv with rfl | hv
    · obtain ⟨_, r, _, rfl, _, ⟨_, rfl, _⟩ | ⟨_, _, hr⟩ | ⟨_, _, rfl, _⟩⟩ := unpackClassifyEntry_iff.1 hu
      · cases hp
      · subst hp
        exact searchBlobHash_packed hr
      · cases hp
    · exact ih hus v hv pack hp

/-! ## The phases up to the classification -/

/-- A file without an expected hash is fetched if it is not there. -/
theorem downloadPayloadFile_unchecked {source : PayloadSource} {offline : Bool} {name : Bytes} {s s' : CacheState}
    {file : Option Bytes} (h : downloadPayloadFile E source offline name none false s = .ok (file, s')) :
    s' = s ∨ s'.cachedFiles = s.cachedFiles ++ [name] := by
  have hcheck : checkCached E name none false s = .ok s := by unfold checkCached; cases s.cache name <;> rfl
  simp only [downloadPayloadFile, hcheck, ok_bind] at h
  split at h
  · cases h; exact .inl rfl
  · unfold downloadMissing at h
    cases offline with
    | true => simp at h
    | false =>
      simp only [Bool.false_eq_true, if_false, bind_ok, pure_eq_ok, Except.ok.injEq, Prod.mk.injEq] at h
      obtain ⟨d, _, _, rfl⟩ := h
      exact .inr rfl

/-- **What `main` does up to the classification.** -/
theorem unpackClassify_ok {cache : Dir} {c : Classified} (h : unpackClassify E opts cache = .ok c) :
    readManifest c.data = .ok c.manifest ∧
      (∃ ls, opts.sourcedirs.foldlM (extendFileList E opts.localDisk true .none) [] = .ok ls ∧
        classifyEntries E opts c.manifest ls c.manifest.fentries = .ok (c.entries, c.localFiles)) ∧
      c.state.cache manifestFilename = some c.data ∧ ∀ name ∈ c.state.cachedFiles, name = manifestFilename := by
  simp only [unpackClassify, bind_ok] at h
  obtain ⟨⟨file, s⟩, hs, _, _, h⟩ := h
  have hcached : ∀ name ∈ s.cachedFiles, name = manifestFilename := by
    rcases downloadPayloadFile_unchecked hs with rfl | hs'
    · simp
    · simp [hs']
  split at h
  · cases h
  rename_i d hd
  simp only [bind_ok, pure_eq_ok, Except.ok.injEq] at h
  obtain ⟨⟨header, pos⟩, hheader, ls, hls, m, hm, ⟨us, ls'⟩, hus, rfl⟩ := h
  exact ⟨by simp [readManifest, hheader, hm], ⟨ls, hls, hus⟩, hd, hcached⟩

/-- The same phases, when the manifest is in the cache. -/
theorem unpackClassify_cached {cache : Dir} {d : Bytes} {ls ls' : List FileEntry} {us : List UnpackFileEntry}
    (hd : cache manifestFilename = some d) (hm : readManifest d = .ok m)
    (hls : opts.sourcedirs.foldlM (extendFileList E opts.localDisk true .none) [] = .ok ls)
    (hus : classifyEntries E opts m ls m.fentries = .ok (us, ls')) :
    unpackClassify E opts cache = .ok ⟨d, m, us, ls', ⟨cache, [], []⟩⟩ := by
  have hfile : downloadPayloadFile E opts.source opts.offlineMode manifestFilename none false ⟨cache, [], []⟩ =
      .ok (some manifestFilename, ⟨cache, [], []⟩) := by simp [downloadPayloadFile, checkCached, hd]
  obtain ⟨⟨header, pos⟩, hheader, hm⟩ := bind_ok.1 hm
  simp only at hm
  simp only [unpackClassify, hfile, ok_bind, cAssert, Option.isSome_some, if_true, hd, hheader, hls, hm, hus,
    pure_eq_ok]

end Sfmf
