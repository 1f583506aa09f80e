import Sfmf.Proof.Buckets
import Sfmf.Proof.Download
import Sfmf.Proof.Manifest
import Sfmf.Proof.PackFile

/-!
# A run of the packer

* `packFiles_ok`: what a successful run has put together.
* `PackRun`: a run of the packer on a tree, within the limits of the formats.
* `PackRun.outDir_pack`, `PackRun.outDir_blob`: what is in the output directory.
* `PackRun.kept_bucket`: every content that is kept is in a bucket.
* `PackRun.readsBack`: the manifest is read back.
-/

namespace Sfmf

/-! ## The output directory -/

/-- A directory after some files were written to it. -/
def Dir.writes (dir : Dir) (ws : List (Bytes × Bytes)) : Dir := ws.foldl (fun dir w => dir.write w.1 w.2) dir

theorem Dir.writes_append (dir : Dir) (ws ws' : List (Bytes × Bytes)) :
    dir.writes (ws ++ ws') = (dir.writes ws).writes ws' := List.foldl_append

/-- What was written does not depend on other names. -/
theorem Dir.writes_congr {dir dir' : Dir} {name : Bytes} (h : dir name = dir' name) (ws : List (Bytes × Bytes)) :
    dir.writes ws name = dir'.writes ws name := by
  induction ws generalizing dir dir' with
  | nil => exact h
  | cons w ws ih =>
    refine ih ?_
    by_cases hw : name = w.1
    · simp only [Dir.write, if_pos hw]
    · simp only [Dir.write, if_neg hw, h]

/-- A name that is not written is left alone. -/
theorem Dir.writes_not {dir : Dir} {ws : List (Bytes × Bytes)} {name : Bytes} (h : ∀ w ∈ ws, w.1 ≠ name) :
    dir.writes ws name = dir name := by
  induction ws generalizing dir with
  | nil => rfl
  | cons w ws ih =>
    have hw : name ≠ w.1 := Ne.symm (h w List.mem_cons_self)
    have hrest : (dir.write w.1 w.2).writes ws name = (dir.write w.1 w.2) name :=
      ih fun v hv => h v (List.mem_cons_of_mem _ hv)
    rw [Dir.writes, List.foldl_cons]
    exact hrest.trans (if_neg hw)

/-- A name that is always written with one content has it. -/
theorem Dir.writes_mem {dir : Dir} {ws : List (Bytes × Bytes)} {w : Bytes × Bytes} (hw : w ∈ ws)
    (h : ∀ v ∈ ws, v.1 = w.1 → v.2 = w.2) : dir.writes ws w.1 = some w.2 := by
  induction ws using List.reverseRecOn with
  | nil => cases hw
  | append_singleton ws v ih =>
    rw [Dir.writes_append]
    by_cases hv : v.1 = w.1
    · have hlast : (dir.writes ws).writes [v] w.1 = some v.2 := if_pos hv.symm
      rw [hlast, h v (by simp) hv]
    · have hw' : w ∈ ws := by
        rcases List.mem_append.1 hw with hw | hw
        · exact hw
        · rw [List.mem_singleton.1 hw] at hv
          exact absurd rfl hv
      have hlast : (dir.writes ws).writes [v] w.1 = dir.writes ws w.1 := if_neg (Ne.symm hv)
      rw [hlast, ih hw' fun v hv => h v (List.mem_append_left _ hv)]

/-! ## What a run has put together -/

section

variable (E : Env) (D : Disk) (opts : PackOptions)

/-- The full blob of an entry: its name and its content. -/
def BlobWritten (f : FileEntry) (w : Bytes × Bytes) : Prop :=
  makeBlobFilename f.hash = .ok w.1 ∧ ∃ d, D.fopen f.filename = some d ∧
    converted E (if (fileentryGetMinSize f).toInt = f.st.stSize then .none else .zcompress) d = .ok w.2

/-- A pack that is written: its name and its content, with its size and hash noted. -/
def PackWritten (p : PackEntry) (w : Bytes × Bytes) : Prop :=
  makePackFilename p.packfileHash = .ok w.1 ∧ PackContent E D opts p w.2 ∧
    p.packfileSize = packPayloadOffset opts p + p.size ∧
    p.packfileHash = ⟨p.packfileSize, hashtypeSha1, E.sha1 w.2⟩

/-- The same pack: only the size and the hash of its file may differ. -/
def SamePack (p p' : PackEntry) : Prop := p'.files = p.files ∧ p'.size = p.size

variable {E D opts}

theorem writeFullBlob_ok {dir dir' : Dir} {f : FileEntry} (h : writeFullBlob E D dir f = .ok dir') :
    ∃ w, BlobWritten E D f w ∧ dir' = dir.write w.1 w.2 := by
  simp only [writeFullBlob, bind_ok, Disk.openFile_ok, convertFile_eq, pure_eq_ok, Except.ok.injEq] at h
  obtain ⟨name, hname, d, hd, content, hcontent, rfl⟩ := h
  exact ⟨(name, content), ⟨hname, d, hd, hcontent⟩, rfl⟩

theorem writeFullBlobs_ok : ∀ {fs : List FileEntry} {dir dir' : Dir},
    fs.foldlM (writeFullBlob E D) dir = .ok dir' →
    ∃ ws, List.Forall₂ (BlobWritten E D) fs ws ∧ dir' = dir.writes ws := by
  intro fs
  induction fs with
  | nil => intro dir dir' h; cases h; exact ⟨[], .nil, rfl⟩
  | cons f fs ih =>
    intro dir dir' h
    simp only [List.foldlM_cons, bind_ok] at h
    obtain ⟨dir₁, h₁, h⟩ := h
    obtain ⟨w, hw, rfl⟩ := writeFullBlob_ok h₁
    obtain ⟨ws, hws, rfl⟩ := ih h
    exact ⟨w :: ws, .cons hw hws, rfl⟩

theorem writePacks_ok : ∀ {ps ps' : List PackEntry} {dir dir' : Dir},
    writePacks E D opts dir ps = .ok (ps', dir') →
    ∃ ws, List.Forall₂ SamePack ps ps' ∧ List.Forall₂ (PackWritten E D opts) ps' ws ∧
      ∀ n, n ≠ packTmpFilename → dir' n = dir.writes ws n := by
  intro ps
  induction ps with
  | nil => intro ps' dir dir' h; cases h; exact ⟨[], .nil, .nil, fun n _ => rfl⟩
  | cons p ps ih =>
    intro ps' dir dir' h
    simp only [writePacks, bind_ok, pure_eq_ok, Except.ok.injEq, Prod.mk.injEq] at h
    obtain ⟨⟨p', dir₁⟩, h₁, ⟨ps₁, dir₂⟩, h₂, rfl, rfl⟩ := h
    obtain ⟨ops, content, name, hops, hcontent, hfiles, hsize, hpsize, hphash, hname, hdir⟩ := writePack_ok E D opts p h₁
    obtain ⟨ws, hsame, hws, hrest⟩ := ih h₂
    have hops' : packOps D opts p' = packOps D opts p := by
      simp only [packOps, packPayloadOffset, packBlobSize, packHeader, hfiles]
    have hoffset : packPayloadOffset opts p' = packPayloadOffset opts p := by
      simp only [packPayloadOffset, packBlobSize, packHeader, hfiles]
    refine ⟨(name, content) :: ws, .cons ⟨hfiles, hsize⟩ hsame, .cons ⟨hname, ⟨ops, ?_, hcontent⟩, ?_, hphash⟩ hws, ?_⟩
    · rw [hops', hops]
    · rw [hoffset, hsize, hpsize]
    · intro n hn
      exact (hrest n hn).trans (Dir.writes_congr (hdir n hn) ws)

/-- **What a successful run has put together.** -/
structure PackFilesOk (E : Env) (D : Disk) (opts : PackOptions) (outDir : Dir) (files : List FileEntry)
    (cutoff : UInt32) (blobs packs : List (Bytes × Bytes)) (P : Packed) : Prop where
  marked : markDuplicates files = .ok P.files
  nonempty : P.files ≠ []
  search : getCutoffSizeBytes P.files (opts.blobUpperKb * 1024) = .ok cutoff
  buckets : P.buckets = bucketizeFileList P.files cutoff (opts.packUpperKb * 1024)
  samePacks : List.Forall₂ SamePack (makePacks P.buckets.packedFiles (opts.avgPackKb * 1024)) P.packs
  blobsWritten : List.Forall₂ (BlobWritten E D) P.buckets.unpackedFiles blobs
  packsWritten : List.Forall₂ (PackWritten E D opts) P.packs packs
  manifest : writeManifest E D opts P.files P.packs P.buckets.includedFiles = .ok P.manifest
  written : ∀ n, n ≠ packTmpFilename →
    P.outDir n = outDir.writes (blobs ++ packs ++ [(manifestFilename, P.manifest)]) n

theorem packFiles_ok {outDir : Dir} {files : List FileEntry} {P : Packed}
    (h : packFiles E D opts outDir files = .ok P) :
    ∃ cutoff blobs packs, PackFilesOk E D opts outDir files cutoff blobs packs P := by
  simp only [packFiles, bind_ok, cAssert_ok, exists_const, pure_eq_ok, Except.ok.injEq] at h
  obtain ⟨files', hfiles, hpos, cutoff, hcutoff, dir₁, hblobs, ⟨ps, dir₂⟩, hpacks, manifest, hmanifest, rfl⟩ := h
  obtain ⟨ws₁, hws₁, rfl⟩ := writeFullBlobs_ok hblobs
  obtain ⟨ws₂, hsame, hws₂, hdir⟩ := writePacks_ok hpacks
  refine ⟨cutoff, ws₁, ws₂, hfiles, List.ne_nil_of_length_pos hpos, hcutoff, rfl, hsame, hws₁, hws₂, hmanifest, ?_⟩
  intro n hn
  rw [Dir.writes_append, Dir.writes_append]
  exact Dir.writes_congr (hdir n hn) [(manifestFilename, manifest)]

end

/-! ## The lists of a run -/

section

variable {E : Env} {D : SourceTree} {opts : PackOptions} {outDir : Dir} {files : List FileEntry} {cutoff : UInt32}
  {blobs packs : List (Bytes × Bytes)} {P : Packed}

/-- **What is written**: a blob, a pack or the manifest. -/
theorem PackFilesOk.written_cases (H : PackFilesOk E D.toDisk opts outDir files cutoff blobs packs P)
    {w : Bytes × Bytes} (hw : w ∈ blobs ++ packs ++ [(manifestFilename, P.manifest)]) :
    (∃ f ∈ P.buckets.unpackedFiles, BlobWritten E D.toDisk f w) ∨ (∃ p ∈ P.packs, PackWritten E D.toDisk opts p w) ∨
      w = (manifestFilename, P.manifest) := by
  rcases List.mem_append.1 hw with hw | hw
  · rcases List.mem_append.1 hw with hw | hw
    · obtain ⟨j, hj, rfl⟩ := List.getElem_of_mem hw
      have hj' : j < P.buckets.unpackedFiles.length := H.blobsWritten.length_eq ▸ hj
      exact .inl ⟨_, List.getElem_mem hj', H.blobsWritten.get hj' hj⟩
    · obtain ⟨j, hj, rfl⟩ := List.getElem_of_mem hw
      have hj' : j < P.packs.length := H.packsWritten.length_eq ▸ hj
      exact .inr (.inl ⟨_, List.getElem_mem hj', H.packsWritten.get hj' hj⟩)
  · exact .inr (.inr (List.mem_singleton.1 hw))

theorem SameFile.listed {f f' : FileEntry} (h : SameFile f f') (hl : Listed E D f) : Listed E D f' := by
  obtain ⟨_, _, rfl⟩ := h
  exact ⟨hl.lstat, hl.type, hl.stored, hl.deflated, hl.symlink, hl.other⟩

theorem sameFiles_filenames {l l' : List FileEntry} (h : List.Forall₂ SameFile l l') :
    l'.map (·.filename) = l.map (·.filename) := by
  induction h with
  | nil => rfl
  | cons hf _ ih =>
    obtain ⟨_, _, rfl⟩ := hf
    simp only [List.map_cons, ih]

/-- A run of `pack` has a list of files, which it packs. -/
theorem packMain_files {D : Disk} {metaFile : Bytes} {walk : List CString}
    (h : packMain E D opts metaFile outDir walk = .ok P) : ∃ files cutoff blobs packs,
      getFileList E D walk = .ok files ∧
      PackFilesOk E D { opts with metadataBytes := metaFile ++ [0] } outDir files cutoff blobs packs P := by
  unfold packMain at h
  by_cases havg : opts.avgPackKb < opts.packUpperKb
  · simp [havg] at h
  simp only [havg, if_false, bind_ok, cAssert_ok, exists_const] at h
  obtain ⟨_, files, hfiles, h⟩ := h
  obtain ⟨cutoff, blobs, packs, hok⟩ := packFiles_ok h
  exact ⟨files, cutoff, blobs, packs, hfiles, hok⟩

/-- **What a successful run of the program has put together**, from the list of a tree. -/
theorem packMain_ok {metaFile : Bytes} {walk : List CString}
    (h : packMain E D.toDisk opts metaFile outDir walk = .ok P) :
    (∃ files cutoff blobs packs, PackFilesOk E D.toDisk { opts with metadataBytes := metaFile ++ [0] } outDir files
      cutoff blobs packs P) ∧
    (∀ f ∈ P.files, Listed E D f) ∧ Deduplicated P.files ∧
    P.files.map (·.filename) = walk.filter (keeps D.toDisk) := by
  obtain ⟨files, cutoff, blobs, packs, hfiles, hok⟩ := packMain_files h
  obtain ⟨hlisted, hnames⟩ := getFileList_ok hfiles
  obtain ⟨hsame, hdedup⟩ := markDuplicates_ok hok.marked fun f hf => (hlisted f hf).2
  refine ⟨⟨files, cutoff, blobs, packs, hok⟩, fun f' hf' => ?_, hdedup, ?_⟩
  · obtain ⟨i, hi', rfl⟩ := List.getElem_of_mem hf'
    have hi : i < files.length := hsame.length_eq ▸ hi'
    exact SameFile.listed (hsame.get hi hi') (hlisted _ (List.getElem_mem hi)).1
  · rw [sameFiles_filenames hsame, hnames]

/-- The bucket of an entry in a run. -/
abbrev bucketFor (opts : PackOptions) (cutoff : UInt32) (f : FileEntry) : Option Bucket :=
  bucketOf cutoff (packLimit cutoff (opts.packUpperKb * 1024)) f

theorem PackFilesOk.mem_included (H : PackFilesOk E D.toDisk opts outDir files cutoff blobs packs P)
    {f : FileEntry} : f ∈ P.buckets.includedFiles ↔ f ∈ P.files ∧ bucketFor opts cutoff f = some .included := by
  simp [H.buckets, bucketizeFileList_eq]

theorem PackFilesOk.mem_packed (H : PackFilesOk E D.toDisk opts outDir files cutoff blobs packs P)
    {f : FileEntry} : f ∈ P.buckets.packedFiles ↔ f ∈ P.files ∧ bucketFor opts cutoff f = some .packed := by
  simp [H.buckets, bucketizeFileList_eq]

theorem PackFilesOk.mem_unpacked (H : PackFilesOk E D.toDisk opts outDir files cutoff blobs packs P)
    {f : FileEntry} : f ∈ P.buckets.unpackedFiles ↔ f ∈ P.files ∧ bucketFor opts cutoff f = some .unpacked := by
  simp [H.buckets, bucketizeFileList_eq]

/-- What is in a bucket is kept. -/
theorem kept_of_bucket {f : FileEntry} {b : Bucket} (h : bucketFor opts cutoff f = some b) : Kept f := by
  obtain ⟨hd, hpos, ht, _⟩ := bucketOf_some h
  refine ⟨?_, hd⟩
  rintro (h0 | hn)
  · rw [minSize_zero h0] at hpos
    exact absurd hpos (lt_irrefl 0)
  · exact hn ht.symm

/-- What is stored is a symlink or a regular file. -/
theorem stored_type {f : FileEntry} (h : Stored f) : sIslnk f.st.stMode ∨ sIsreg f.st.stMode := by
  by_contra hn
  exact h (.inr fun h => hn h.symm)

theorem Kept.type {f : FileEntry} (h : Kept f) : sIslnk f.st.stMode ∨ sIsreg f.st.stMode := stored_type h.1

/-- **Entries in buckets are told apart by their hashes.** -/
theorem PackFilesOk.bucket_inj (hdedup : Deduplicated P.files) {f g : FileEntry} {b b' : Bucket} (hf : f ∈ P.files)
    (hg : g ∈ P.files) (hbf : bucketFor opts cutoff f = some b) (hbg : bucketFor opts cutoff g = some b')
    (hh : f.hash = g.hash) : f = g := by
  have hmem : ∀ {f : FileEntry} {b : Bucket}, f ∈ P.files → bucketFor opts cutoff f = some b →
      f ∈ P.files.filter (Kept ·) := fun hf hb => List.mem_filter.2 ⟨hf, decide_eq_true (kept_of_bucket hb)⟩
  exact List.inj_on_of_nodup_map hdedup.nodup (hmem hf hbf) (hmem hg hbg) hh

theorem PackFilesOk.included_nodup (H : PackFilesOk E D.toDisk opts outDir files cutoff blobs packs P)
    (hdedup : Deduplicated P.files) : (P.buckets.includedFiles.map (·.hash)).Nodup := by
  refine List.Nodup.sublist (List.Sublist.map _ ?_) hdedup.nodup
  rw [H.buckets, bucketizeFileList_eq]
  exact List.monotone_filter_right _ fun f hf => decide_eq_true (kept_of_bucket (of_decide_eq_true hf))

/-- **The packs have exactly the packed files**, each in one pack, and each pack has some. -/
theorem PackFilesOk.packs_perm (H : PackFilesOk E D.toDisk opts outDir files cutoff blobs packs P) :
    (P.packs.flatMap (·.files)).Perm P.buckets.packedFiles ∧ ∀ p ∈ P.packs, Filled p := by
  obtain ⟨hfilled, hperm⟩ := makePacks_perm P.buckets.packedFiles (opts.avgPackKb * 1024)
  have hsame := H.samePacks
  generalize makePacks P.buckets.packedFiles (opts.avgPackKb * 1024) = made at hfilled hperm hsame
  have hfiles : P.packs.map (·.files) = made.map (·.files) := by
    have hall : List.Forall₂ (· = ·) (P.packs.map (·.files)) (made.map (·.files)) := by
      rw [List.forall₂_map_left_iff, List.forall₂_map_right_iff]
      exact hsame.flip.imp fun _ _ h => h.1
    rwa [List.forall₂_eq_eq_eq] at hall
  refine ⟨?_, fun p hp => ?_⟩
  · rw [List.flatMap_def, hfiles, ← List.flatMap_def]
    exact hperm
  · obtain ⟨i, hi, rfl⟩ := List.getElem_of_mem hp
    have hi' : i < made.length := hsame.length_eq ▸ hi
    have hs := hsame.get hi' hi
    have hf := hfilled _ (List.getElem_mem hi')
    simp only [List.get_eq_getElem] at hs
    exact ⟨by rw [hs.1]; exact hf.files, by rw [hs.1, hs.2]; exact hf.size⟩

theorem PackFilesOk.packs_nodup (H : PackFilesOk E D.toDisk opts outDir files cutoff blobs packs P)
    (hdedup : Deduplicated P.files) : ((P.packs.flatMap (·.files)).map (·.hash)).Nodup := by
  rw [(H.packs_perm.1.map _).nodup_iff]
  refine List.Nodup.sublist (List.Sublist.map _ ?_) hdedup.nodup
  rw [H.buckets, bucketizeFileList_eq]
  exact List.monotone_filter_right _ fun f hf => decide_eq_true (kept_of_bucket (of_decide_eq_true hf))

end

/-! ## A run within the limits of the formats -/

/-- The options with the metadata read, zero-terminated. -/
def withMetadata (opts : PackOptions) (metaFile : Bytes) : PackOptions := { opts with metadataBytes := metaFile ++ [0] }

/-- **A run of the packer on a tree**, on a file system without reflinks, where everything fits into the
formats: regular files are shorter than 2 GiB, and the manifest and each pack are shorter than 4 GiB. -/
structure PackRun (E : Env) (D : SourceTree) (opts : PackOptions) (metaFile : Bytes) (outDir : Dir)
    (walk : List CString) (P : Packed) : Prop where
  run : packMain E D.toDisk opts metaFile outDir walk = .ok P
  noReflink : E.NoReflink
  deflates : ∀ f ∈ P.files, sIsreg f.st.stMode → ∀ d, D.fopen f.filename = some d → E.Deflates d
  regularSize : ∀ f ∈ P.files, sIsreg f.st.stMode → f.st.stSize < 2 ^ 31
  manifestSize : P.manifest.length < 2 ^ 32
  packSize : ∀ p ∈ P.packs, sfpfFileHeaderSize + (metaFile ++ [0]).length + sfmfBlobEntrySize * p.files.length +
    (p.files.map minSize).sum < 2 ^ 32

/-- No two different byte strings in `S` have the same SHA-1. -/
def Env.NoCollision (E : Env) (S : Bytes → Prop) : Prop := ∀ a b, S a → S b → E.sha1 a = E.sha1 b → a = b

/-- The contents that a run stores. -/
def StoredContent (D : Disk) (P : Packed) (d : Bytes) : Prop := ∃ f ∈ P.files, Stored f ∧ contentOf D f = some d

/-- The contents of the packs of a run. -/
def PackFileContent (E : Env) (D : Disk) (opts : PackOptions) (P : Packed) (d : Bytes) : Prop :=
  ∃ p ∈ P.packs, PackContent E D opts p d

section

variable {E : Env} {D : SourceTree} {opts : PackOptions} {metaFile : Bytes} {outDir : Dir} {walk : List CString}
  {P : Packed} (R : PackRun E D opts metaFile outDir walk P)

include R

theorem PackRun.listed {f : FileEntry} (hf : f ∈ P.files) : Listed E D f := (packMain_ok R.run).2.1 f hf

theorem PackRun.deduplicated : Deduplicated P.files := (packMain_ok R.run).2.2.1

/-- Whatever is stored is shorter than 2 GiB. -/
theorem PackRun.size_lt {f : FileEntry} (hf : f ∈ P.files) (ht : sIslnk f.st.stMode ∨ sIsreg f.st.stMode) :
    f.st.stSize < 2 ^ 31 := by
  rcases ht with hl | hr
  · obtain ⟨t, _, hlen, _, _, hmax⟩ := D.symlink (R.listed hf).lstat hl
    simp only [pathMax] at hmax
    omega
  · exact R.regularSize f hf hr

theorem PackRun.kept_bucket {cutoff : UInt32} {f : FileEntry} (hf : f ∈ P.files) (hk : Kept f) :
    ∃ b, bucketFor opts cutoff f = some b := by
  obtain ⟨hs, hd⟩ := hk
  have ht := stored_type hs
  have hlt := R.size_lt hf ht
  refine bucketOf_kept hd ((minSize_pos (by omega)).2 fun h0 => hs (.inl h0)) ht

/-- A regular file that is stored: its content, its stream, and which of them is the smaller one. -/
theorem PackRun.regular {f : FileEntry} (hf : f ∈ P.files) (hs : Stored f) (hr : sIsreg f.st.stMode) :
    ∃ d z, D.fopen f.filename = some d ∧ contentOf D.toDisk f = some d ∧ d.length = f.st.stSize ∧
      f.hash = hashOf E d ∧ converted E .zcompress d = .ok z ∧ f.zsize.toNat = z.length ∧ z ≠ [] ∧
      converted E .zuncompress z = .ok d := by
  have h := R.listed hf
  obtain ⟨d, hd, hlen, hhash⟩ := h.stored hs
  have hopen : D.fopen f.filename = some d := by
    rw [contentOf, if_neg (sIsreg_not_sIslnk hr)] at hd
    exact hd
  obtain ⟨z, hz, hzsize⟩ := h.deflated hr (fun h0 => hs (.inl h0)) d hopen
  obtain ⟨hne, hlt, hinf⟩ := R.deflates f hf hr d hopen z hz
  exact ⟨d, z, hopen, hd, hlen, hhash, hz, by rw [hzsize, ofNat_toNat_of_lt hlt], hne, hinf⟩

theorem PackRun.ok : ∃ files cutoff blobs packs, PackFilesOk E D.toDisk (withMetadata opts metaFile) outDir files cutoff
    blobs packs P := (packMain_ok R.run).1

/-- The files in packs are regular files that are kept. -/
theorem PackRun.packed {p : PackEntry} {f : FileEntry} (hp : p ∈ P.packs) (hf : f ∈ p.files) :
    f ∈ P.files ∧ Kept f ∧ sIsreg f.st.stMode := by
  obtain ⟨_, cutoff, _, _, H⟩ := R.ok
  have hmem : f ∈ P.buckets.packedFiles := H.packs_perm.1.subset (List.mem_flatMap.2 ⟨p, hp, hf⟩)
  obtain ⟨hf', hb⟩ := H.mem_packed.1 hmem
  obtain ⟨_, _, ht, hl⟩ := bucketOf_some hb
  refine ⟨hf', kept_of_bucket hb, ht.resolve_left fun h => ?_⟩
  exact absurd (hl h) (by decide)

theorem PackRun.unpacked {f : FileEntry} (hf : f ∈ P.buckets.unpackedFiles) :
    f ∈ P.files ∧ Kept f ∧ sIsreg f.st.stMode := by
  obtain ⟨_, cutoff, _, _, H⟩ := R.ok
  obtain ⟨hf', hb⟩ := H.mem_unpacked.1 hf
  obtain ⟨_, _, ht, hl⟩ := bucketOf_some hb
  refine ⟨hf', kept_of_bucket hb, ht.resolve_left fun h => ?_⟩
  exact absurd (hl h) (by decide)

theorem PackRun.included {f : FileEntry} (hf : f ∈ P.buckets.includedFiles) : f ∈ P.files ∧ Kept f := by
  obtain ⟨_, cutoff, _, _, H⟩ := R.ok
  obtain ⟨hf', hb⟩ := H.mem_included.1 hf
  exact ⟨hf', kept_of_bucket hb⟩

theorem PackRun.minSize_pos {f : FileEntry} (hf : f ∈ P.files) (hk : Kept f) : 0 < minSize f := by
  have hlt := R.size_lt hf hk.type
  exact (Sfmf.minSize_pos (by omega)).2 fun h0 => hk.1 (.inl h0)

/-- The sizes of regular files fit into 32 bits. -/
theorem PackRun.fits {f : FileEntry} (hf : f ∈ P.files) (hr : sIsreg f.st.stMode) : Fits E D.toDisk f := by
  have hlt := R.size_lt hf (.inr hr)
  exact ⟨by omega, fun d z hd hz => (R.deflates f hf hr d hd z hz).2.1⟩

/-- **Payloads in packs have their recorded sizes.** -/
theorem PackRun.recorded {p : PackEntry} {f : FileEntry} (hp : p ∈ P.packs) (hf : f ∈ p.files) {payload : Bytes}
    (h : outOf E (payloadOp D.toDisk f) = .ok payload) : payload.length = minSize f := by
  obtain ⟨hf', hk, hr⟩ := R.packed hp hf
  exact payload_recorded (R.listed hf') hr (fun h0 => hk.1 (.inl h0)) (R.fits hf' hr) h

/-- **Payloads in the manifest have their recorded sizes.** -/
theorem PackRun.manifestRecorded {f : FileEntry} (hf : f ∈ P.buckets.includedFiles) {payload : Bytes}
    (h : outOf E (manifestPayloadOp D.toDisk f) = .ok payload) : payload.length = minSize f := by
  obtain ⟨hf', hk⟩ := R.included hf
  exact manifestPayload_recorded (R.listed hf') hk.1 (R.fits hf') h

/-! ## The files of a run -/

/-- The manifest is in the output directory. -/
theorem PackRun.outDir_manifest : P.outDir manifestFilename = some P.manifest := by
  obtain ⟨_, _, blobs, packs, H⟩ := R.ok
  have hlast : (outDir.writes (blobs ++ packs)).writes [(manifestFilename, P.manifest)] =
      (outDir.writes (blobs ++ packs)).write manifestFilename P.manifest := rfl
  rw [H.written _ manifestFilename_ne_tmp, Dir.writes_append, hlast]
  exact if_pos rfl

/-- **Each pack is in the output directory**, and it has the size and the SHA-1 that are noted for it. -/
theorem PackRun.outDir_pack (hcoll : E.NoCollision (PackFileContent E D.toDisk (withMetadata opts metaFile) P))
    {p : PackEntry} (hp : p ∈ P.packs) : ∃ name content, makePackFilename p.packfileHash = .ok name ∧
      PackContent E D.toDisk (withMetadata opts metaFile) p content ∧ P.outDir name = some content ∧
      p.packfileHash = hashOf E content := by
  obtain ⟨_, _, blobs, packs, H⟩ := R.ok
  obtain ⟨i, hi, rfl⟩ := List.getElem_of_mem hp
  have hi' : i < packs.length := H.packsWritten.length_eq ▸ hi
  obtain ⟨hname, hcontent, hsize, hhash⟩ := H.packsWritten.get hi hi'
  simp only [List.get_eq_getElem] at hname hcontent hsize hhash
  have hfilled := H.packs_perm.2 _ hp
  refine ⟨packs[i].1, packs[i].2, hname, hcontent, ?_, ?_⟩
  · rw [H.written _ (packFilename_ne_tmp hname)]
    refine Dir.writes_mem (by simp) fun w hw he => ?_
    rcases H.written_cases hw with ⟨f, _, hblob⟩ | ⟨p', hp', hname', hcontent', _, hhash'⟩ | rfl
    · have hblob := hblob.1
      rw [he] at hblob
      exact absurd hblob (packFilename_ne_blob hname)
    · -- another pack of this name has the same content
      refine hcoll _ _ ⟨_, hp', hcontent'⟩ ⟨_, hp, hcontent⟩ ?_
      rw [he] at hname'
      have hdigest := packFilename_inj hname' hname
      rw [hhash', hhash] at hdigest
      exact hdigest
    · exact absurd he.symm (packFilename_ne_manifest hname)
  · have hlen := hcontent.length R.noReflink fun f hf _ h => R.recorded hp hf h
    rw [hhash, hsize, hfilled.size, packPayloadOffset_eq, ← UInt32.ofNat_add, ← hlen]
    rfl

/-- Whether the blob of an entry is compressed: `entry->zsize < entry->hash.size`. -/
def blobCompressed (f : FileEntry) : Bool := f.zsize < f.hash.size

omit R in
theorem blobCompressed_iff {f : FileEntry} {d : Bytes} (hhash : f.hash = hashOf E d) (hlen : d.length = f.st.stSize)
    (hs : f.st.stSize < 2 ^ 32) : blobCompressed f = true ↔ f.zsize.toNat < f.st.stSize := by
  rw [blobCompressed, decide_eq_true_eq, UInt32.lt_iff_toNat_lt, hhash, hashOf, hlen, ofNat_toNat_of_lt hs]

/-- Two full blobs of one name are those of one entry. -/
theorem PackRun.blobWritten_inj (hcoll : E.NoCollision (StoredContent D.toDisk P)) {f g : FileEntry}
    (hf : f ∈ P.buckets.unpackedFiles) (hg : g ∈ P.buckets.unpackedFiles) {w w' : Bytes × Bytes}
    (hw : BlobWritten E D.toDisk f w) (hw' : BlobWritten E D.toDisk g w') (he : w'.1 = w.1) : w'.2 = w.2 := by
  obtain ⟨_, cutoff, blobs, packs, H⟩ := R.ok
  obtain ⟨hname, d, hd, hcontent⟩ := hw
  obtain ⟨hname', e, hopen, hcontent'⟩ := hw'
  obtain ⟨hf', hk, hr⟩ := R.unpacked hf
  obtain ⟨hg', hkg, hrg⟩ := R.unpacked hg
  obtain ⟨d', _, hd', hcont, _, hhash, _⟩ := R.regular hf' hk.1 hr
  obtain ⟨e', _, hopen', hconte, _, hhashe, _⟩ := R.regular hg' hkg.1 hrg
  rw [hd] at hd'
  rw [hopen] at hopen'
  cases hd'
  cases hopen'
  rw [he] at hname'
  have hdigest := blobFilename_inj hname' hname
  rw [hhashe, hhash] at hdigest
  have hde : e = d := hcoll _ _ ⟨_, hg', hkg.1, hconte⟩ ⟨_, hf', hk.1, hcont⟩ hdigest
  have hgf : g = f := by
    refine PackFilesOk.bucket_inj R.deduplicated hg' hf' (H.mem_unpacked.1 hg).2 (H.mem_unpacked.1 hf).2 ?_
    rw [hhashe, hhash, hde]
  subst hgf hde
  exact Except.ok.inj (hcontent'.symm.trans hcontent)

/-- **Each full blob is in the output directory**, and the conversion that its entry asks for gives the
content of the file. -/
theorem PackRun.outDir_blob (hcoll : E.NoCollision (StoredContent D.toDisk P)) {f : FileEntry}
    (hf : f ∈ P.buckets.unpackedFiles) : ∃ name content d, makeBlobFilename f.hash = .ok name ∧
      P.outDir name = some content ∧ contentOf D.toDisk f = some d ∧ f.hash = hashOf E d ∧
      converted E (if blobCompressed f then .zuncompress else .none) content = .ok d := by
  obtain ⟨_, cutoff, blobs, packs, H⟩ := R.ok
  obtain ⟨i, hi, hfi⟩ := List.getElem_of_mem hf
  have hi' : i < blobs.length := H.blobsWritten.length_eq ▸ hi
  have hblob := H.blobsWritten.get hi hi'
  rw [List.get_eq_getElem, List.get_eq_getElem, hfi] at hblob
  have hone := hblob
  obtain ⟨hname, d, hd, hcontent⟩ := hblob
  obtain ⟨hf', hk, hr⟩ := R.unpacked hf
  obtain ⟨d', z, hd', hcont, hlen, hhash, hz, hzsize, hne, hinf⟩ := R.regular hf' hk.1 hr
  rw [hd] at hd'
  cases hd'
  have hlt := R.size_lt hf' (.inr hr)
  refine ⟨blobs[i].1, blobs[i].2, d, hname, ?_, hcont, hhash, ?_⟩
  · rw [H.written _ (blobFilename_ne_tmp hname)]
    refine Dir.writes_mem (by simp) fun w hw he => ?_
    rcases H.written_cases hw with ⟨f', hf', hblob⟩ | ⟨p, _, hpack⟩ | rfl
    · exact R.blobWritten_inj hcoll hf hf' hone hblob he
    · have hpack := hpack.1
      rw [he] at hpack
      exact absurd hname (packFilename_ne_blob hpack)
    · exact absurd he.symm (blobFilename_ne_manifest hname)
  · -- the writer compares sizes as signed numbers, the reader the compressed size with the size
    change converted E (fullBlobFlags f) d = .ok blobs[i].2 at hcontent
    have hz0 : f.zsize ≠ 0 := by
      rintro h0
      rw [h0] at hzsize
      exact hne (List.eq_nil_of_length_eq_zero hzsize.symm)
    have hflags := fullBlobFlags_iff (f := f) (by omega) hz0
    have hcomp := blobCompressed_iff hhash hlen (by omega)
    by_cases hc : f.zsize.toNat < f.st.stSize
    · rw [hflags.2 (.inl hc), hz] at hcontent
      rw [if_pos (hcomp.2 hc), ← Except.ok.inj hcontent]
      exact hinf
    · have hnone : fullBlobFlags f = .none :=
        ((fullBlobFlags_cases f).resolve_right fun h => by have := hflags.1 h.1; omega).1
      rw [hnone, converted_none] at hcontent
      rw [if_neg (mt hcomp.1 hc), ← Except.ok.inj hcontent]
      exact converted_none E d

/-- **Files with one hash have one content.** -/
theorem PackRun.content_eq (hcoll : E.NoCollision (StoredContent D.toDisk P)) {f g : FileEntry} (hf : f ∈ P.files)
    (hg : g ∈ P.files) (hs : Stored f) (hs' : Stored g) (hh : g.hash = f.hash) :
    contentOf D.toDisk g = contentOf D.toDisk f := by
  obtain ⟨d, hd, _, hhash⟩ := (R.listed hf).stored hs
  obtain ⟨d', hd', _, hhash'⟩ := (R.listed hg).stored hs'
  rw [hhash, hhash'] at hh
  have hdd : d' = d := hcoll _ _ ⟨g, hg, hs', hd'⟩ ⟨f, hf, hs, hd⟩ (congrArg SfmfFileHash.hash hh)
  rw [hd, hd', hdd]

/-- **The full blob of a file**, under its own hash or that of the file it is a duplicate of. -/
theorem PackRun.blobFor (hcoll : E.NoCollision (StoredContent D.toDisk P)) {f g : FileEntry} (hf : f ∈ P.files)
    (hs : Stored f) (hr : sIsreg f.st.stMode) (hg : g ∈ P.buckets.unpackedFiles) (hh : g.hash = f.hash) :
    ∃ name content d, makeBlobFilename f.hash = .ok name ∧ P.outDir name = some content ∧
      D.fopen f.filename = some d ∧ f.hash = hashOf E d ∧
      converted E (if blobCompressed f then .zuncompress else .none) content = .ok d := by
  obtain ⟨name, content, d, hname, hout, hcont, hhash, hconv⟩ := R.outDir_blob hcoll hg
  obtain ⟨hgm, hgk, hgr⟩ := R.unpacked hg
  obtain ⟨df, zf, hopen, hcontf, _, _, hzf, hzsf, _⟩ := R.regular hf hs hr
  obtain ⟨dg, zg, _, hcontg, _, _, hzg, hzsg, _⟩ := R.regular hgm hgk.1 hgr
  have heq := R.content_eq hcoll hf hgm hs hgk.1 hh
  rw [hcontg, hcontf, Option.some.injEq] at heq
  subst heq
  rw [hcont, Option.some.injEq] at hcontg
  subst hcontg
  -- one content has one compressed size
  rw [hzf, Except.ok.injEq] at hzg
  have hzsize : g.zsize = f.zsize := UInt32.toNat_inj.1 (by rw [hzsg, hzsf, hzg])
  have hcomp : blobCompressed g = blobCompressed f := by rw [blobCompressed, blobCompressed, hzsize, hh]
  refine ⟨name, content, d, by rw [← hh, hname], hout, hopen, by rw [← hh, hhash], ?_⟩
  rw [← hcomp]
  exact hconv

/-- **The manifest is read back.** -/
theorem PackRun.readsBack : ∃ m, readManifest P.manifest = .ok m ∧
    ReadsBack E D.toDisk (withMetadata opts metaFile) P.files P.packs P.buckets.includedFiles P.manifest m := by
  obtain ⟨_, _, _, _, H⟩ := R.ok
  obtain ⟨hmeta, r, ps, hr, hps, hbytes⟩ := writeManifest_ok R.noReflink H.manifest
  have hrecorded : Recorded P.buckets.includedFiles ps :=
    List.forall₂_iff_get.2 ⟨hps.length_eq, fun i hi hi' =>
      R.manifestRecorded (List.getElem_mem hi) (hps.get hi hi')⟩
  exact hr.readsBack hmeta H.nonempty hps hrecorded hbytes R.manifestSize

end

/-! ## A small run -/

theorem letterTree_noCollision (P : Packed) : letterTreeEnv.NoCollision (StoredContent letterTree.toDisk P) := by
  rintro a b ⟨_, _, _, ha⟩ ⟨_, _, _, hb⟩ h
  have hinj : ∀ a ∈ [[], letters, [0x61]], ∀ b ∈ [[], letters, [0x61]],
      letterTreeEnv.sha1 a = letterTreeEnv.sha1 b → a = b := by decide +kernel
  exact hinj a (letterTree_read ha) b (letterTree_read hb) h

/-- **The tree is packed** within the limits, with one pack. -/
theorem letterTree_packRun : ∃ P, PackRun letterTreeEnv letterTree letterTreeOptions (str ['m']) (fun _ => none)
    letterWalk P ∧ letterTreeEnv.NoCollision (PackFileContent letterTreeEnv letterTree.toDisk
      (withMetadata letterTreeOptions (str ['m'])) P) ∧ P.files.map (·.filename) = letterWalk ∧ P.packs.length = 1 := by
  have hpasses : (packMain letterTreeEnv letterTree.toDisk letterTreeOptions (str ['m']) (fun _ => none)
      letterWalk).passes (fun P => P.files.map (·.filename) = letterWalk ∧ (∀ f ∈ P.files, f.st.stSize < 2 ^ 31) ∧
        P.manifest.length < 2 ^ 32 ∧ P.packs.length = 1 ∧ ∀ p ∈ P.packs, sfpfFileHeaderSize +
          (str ['m'] ++ [0]).length + sfmfBlobEntrySize * p.files.length + (p.files.map minSize).sum < 2 ^ 32) = true := by
    decide +kernel
  obtain ⟨P, hP, hcheck⟩ := Exec.of_passes hpasses
  obtain ⟨hfiles, hsize, hmanifest, hpacks, hpack⟩ := of_decide_eq_true hcheck
  refine ⟨P, ⟨hP, letterTreeEnv_noReflink, fun f _ hr d hd => ?_, fun f hf _ => hsize f hf, hmanifest, hpack⟩, ?_,
    hfiles, hpacks⟩
  · have hcont : contentOf letterTree.toDisk f = letterTree.fopen f.filename := if_neg (sIsreg_not_sIslnk hr)
    exact letterTree_deflates (letterTree_read (hcont.trans hd))
  · rintro a b ⟨p, hp, opsa, ha, hwa⟩ ⟨q, hq, opsb, hb, hwb⟩ _
    obtain ⟨r, hr⟩ := List.length_eq_one_iff.1 hpacks
    rw [hr, List.mem_singleton] at hp hq
    subst hp hq
    rw [ha, Except.ok.injEq] at hb
    subst hb
    exact Except.ok.inj (hwa.symm.trans hwb)

end Sfmf
