import Sfmf.Proof.Lookup
import Sfmf.Spec.Dump

/-!
# What the dump tools print

The dump tools read the file formats by code of their own. They accept the files that the unpacker accepts, as far
as the records can be printed, and print what it gets from them; and they print the tree that was packed.

* `Manifest.listing`, `Printable`: what is printed of the tables of a manifest, if it can be.
* `dumpManifest_ok_iff`: the two readers of manifests agree on every file.
* `PackRun.listsTree`, `PackContent.dumpPack`: the lines are those of the tree, and of the files in a pack.
* `dumps_of_packed`: what is printed of the output of the packer.
-/

namespace Sfmf

/-! ## Lines -/

/-- The digits of a hash. -/
def hashText (h : SfmfFileHash) : Bytes := h.hash.val.flatMap hexByte

theorem sfmfFilehashFormat_checks (h : SfmfFileHash) :
    Exec.Checks (sfmfFilehashFormat h) (h.hashtype = hashtypeSha1) (hashText h) := fun _ => sfmfFilehashFormat_ok

theorem cStringIn_checks (b : Bytes) : Exec.Checks (cStringIn b) (0 ∈ b) (b.takeWhile (· ≠ 0)) := by
  intro c
  unfold cStringIn
  split_ifs with h <;> simp [h, eq_comm]

theorem dumpItem_checks (i : ℕ) (entry : SfmfBlobEntry) :
    Exec.Checks (dumpItem i entry) (entry.hash.hashtype = hashtypeSha1) (itemText i entry (hashText entry.hash)) :=
  (sfmfFilehashFormat_checks entry.hash).map _

theorem dumpPackEntry_checks (i : ℕ) (entry : SfmfPackEntry) :
    Exec.Checks (dumpPackEntry i entry) (entry.hash.hashtype = hashtypeSha1)
      (packEntryText i entry (hashText entry.hash)) :=
  (sfmfFilehashFormat_checks entry.hash).map _

/-- The digits of the hash of an entry, if it has one. -/
def entryHashText (entry : SfmfFileEntry) : Bytes := if 0 < entry.hash.size then hashText entry.hash else text "-"

theorem dumpEntryHash_checks (entry : SfmfFileEntry) : Exec.Checks (dumpEntryHash entry)
    (0 < entry.hash.size → entry.hash.hashtype = hashtypeSha1) (entryHashText entry) := by
  intro b
  unfold dumpEntryHash entryHashText
  split_ifs with h
  · simpa [h] using sfmfFilehashFormat_checks entry.hash b
  · simp [h, eq_comm]

/-- The name of an entry, up to the first NUL. -/
def entryName (filenameTable : Bytes) (entry : SfmfFileEntry) : Bytes :=
  (filenameTable.drop entry.filenameOffset.toNat).takeWhile (· ≠ 0)

theorem dumpEntry_checks (filenameTable : Bytes) (entry : SfmfFileEntry) : Exec.Checks (dumpEntry filenameTable entry)
    ((0 < entry.hash.size → entry.hash.hashtype = hashtypeSha1) ∧ 0 ∈ filenameTable.drop entry.filenameOffset.toNat)
    (entryText entry (entryHashText entry) (entryName filenameTable entry)) :=
  (dumpEntryHash_checks entry).bind (f := fun tmp => cStringIn (filenameTable.drop entry.filenameOffset.toNat) >>=
    fun filename => .ok (entryText entry tmp filename)) ((cStringIn_checks _).map _)

/-- A loop of checks, with a counter. -/
theorem dumpTable_checks {α β : Type} {f : ℕ → α → Exec β} {p : α → Prop} {g : ℕ → α → β}
    (h : ∀ i a, Exec.Checks (f i a) (p a) (g i a)) (l : List α) :
    Exec.Checks (dumpTable f l) (∀ a ∈ l, p a) (l.zipIdx.map fun e => g e.2 e.1) := by
  intro b
  have hloop := Exec.Checks.mapM (fun e : α × ℕ => h e.2 e.1) l.zipIdx b
  rw [dumpTable, hloop]
  refine and_congr_left fun _ => ?_
  rw [← List.forall_mem_map (f := Prod.fst) (P := p), List.zipIdx_map_fst]

/-! ## The contents of packs -/

/-- The lines for the hashes of a pack. -/
def packHashesText (j : ℕ) (hashes : List SfmfFileHash) : List Bytes :=
  (hashes.zipIdx j).map fun h => packHashText h.2 h.1 (hashText h.1)

/-- **The loop over the hashes of a pack** reads what the unpacker reads. -/
theorem dumpPackHashes_ok {d : Bytes} {n : ℕ} : ∀ {pos j : ℕ} {lines : List Bytes},
    dumpPackHashes d pos j n = .ok lines ↔ ∃ hashes, readPackHashes d pos n = .ok hashes ∧
      (∀ h ∈ hashes, h.hashtype = hashtypeSha1) ∧ lines = packHashesText j hashes := by
  induction n with
  | zero =>
    intro pos j lines
    simp [dumpPackHashes, readPackHashes, packHashesText, eq_comm]
  | succ n ih =>
    intro pos j lines
    simp only [dumpPackHashes, readPackHashes, bind_ok, Prod.exists, pure_eq_ok, Except.ok.injEq, ih,
      sfmfFilehashFormat_checks _ _]
    constructor
    · rintro ⟨b, pos', hb, _, ⟨htype, rfl⟩, _, ⟨hashes, hread, htypes, rfl⟩, rfl⟩
      exact ⟨_, ⟨b, pos', hb, hashes, hread, rfl⟩, List.forall_mem_cons.2 ⟨htype, htypes⟩, rfl⟩
    · rintro ⟨_, ⟨b, pos', hb, hashes, hread, rfl⟩, htypes, rfl⟩
      obtain ⟨htype, htypes⟩ := List.forall_mem_cons.1 htypes
      exact ⟨b, pos', hb, _, ⟨htype, rfl⟩, _, ⟨hashes, hread, htypes, rfl⟩, rfl⟩

/-- What a pack contains, as it is printed. -/
def contentsText (i : ℕ) (entry : SfmfPackEntry) (hashes : List SfmfFileHash) : List Bytes :=
  packContentsText i (hashText entry.hash) :: packHashesText 0 hashes

theorem dumpPackContents_ok {d : Bytes} {i : ℕ} {entry : SfmfPackEntry} {lines : List Bytes} :
    dumpPackContents d i entry = .ok lines ↔ ∃ hashes, readPackHashes d entry.offset.toNat entry.count.toNat = .ok hashes ∧
      (entry.hash.hashtype = hashtypeSha1 ∧ ∀ h ∈ hashes, h.hashtype = hashtypeSha1) ∧
      lines = contentsText i entry hashes := by
  simp only [dumpPackContents, bind_ok, pure_eq_ok, Except.ok.injEq, dumpPackHashes_ok, sfmfFilehashFormat_checks _ _]
  constructor
  · rintro ⟨_, ⟨htype, rfl⟩, _, ⟨hashes, hread, htypes, rfl⟩, rfl⟩
    exact ⟨hashes, hread, ⟨htype, htypes⟩, rfl⟩
  · rintro ⟨hashes, hread, ⟨htype, htypes⟩, rfl⟩
    exact ⟨_, ⟨htype, rfl⟩, _, ⟨hashes, hread, htypes, rfl⟩, rfl⟩

/-- **The loop over the packs.** -/
theorem dumpTable_contents {d : Bytes} (pentries : List SfmfPackEntry) : ∀ {k : ℕ} {contents : List (List Bytes)},
    (pentries.zipIdx k).mapM (fun e => dumpPackContents d e.2 e.1) = .ok contents ↔ ∃ hashes,
      (pentries.mapM fun e => readPackHashes d e.offset.toNat e.count.toNat) = .ok hashes ∧
      (∀ e ∈ pentries, e.hash.hashtype = hashtypeSha1) ∧ (∀ hs ∈ hashes, ∀ h ∈ hs, h.hashtype = hashtypeSha1) ∧
      contents = ((pentries.zip hashes).zipIdx k).map fun e => contentsText e.2 e.1.1 e.1.2 := by
  induction pentries with
  | nil =>
    intro k contents
    simp [eq_comm]
  | cons e pentries ih =>
    intro k contents
    simp only [List.zipIdx_cons, List.mapM_cons, bind_ok, pure_eq_ok, Except.ok.injEq, dumpPackContents_ok, ih]
    constructor
    · rintro ⟨_, ⟨hs, hread, ⟨htype, htypes⟩, rfl⟩, _, ⟨hashes, hreads, hpacks, hhashes, rfl⟩, rfl⟩
      exact ⟨_, ⟨hs, hread, hashes, hreads, rfl⟩, List.forall_mem_cons.2 ⟨htype, hpacks⟩,
        List.forall_mem_cons.2 ⟨htypes, hhashes⟩, rfl⟩
    · rintro ⟨_, ⟨hs, hread, hashes, hreads, rfl⟩, hpacks, hhashes, rfl⟩
      obtain ⟨htype, hpacks⟩ := List.forall_mem_cons.1 hpacks
      obtain ⟨htypes, hhashes⟩ := List.forall_mem_cons.1 hhashes
      exact ⟨_, ⟨hs, hread, ⟨htype, htypes⟩, rfl⟩, _, ⟨hashes, hreads, hpacks, hhashes, rfl⟩, rfl⟩

/-! ## Manifests -/

/-- What is printed of the tables of a manifest. -/
def Manifest.listing (m : Manifest) : List Bytes :=
  [manifestHeaderText m.header] ++ dumpSection "Metadata" [m.metadata.takeWhile (· ≠ 0) ++ text "\n"] ++
    dumpSection "Entries" (m.fentries.map fun e => entryText e (entryHashText e) (entryName m.filenameTable e)) ++
    dumpSection "Pack entries" (m.pentries.zipIdx.map fun e => packEntryText e.2 e.1 (hashText e.1.hash)) ++
    (m.bentries.zipIdx.map fun e => itemText e.2 e.1 (hashText e.1.hash)).flatten ++
    dumpSection "Pack Contents" ((m.pentries.zip m.packHashes).zipIdx.map fun e => contentsText e.2 e.1.1 e.1.2).flatten

/-- The tables can be printed: all strings have an end, and all hashes are SHA-1. -/
structure Printable (m : Manifest) : Prop where
  metadata : 0 ∈ m.metadata
  fentries : ∀ e ∈ m.fentries, (0 < e.hash.size → e.hash.hashtype = hashtypeSha1) ∧
    0 ∈ m.filenameTable.drop e.filenameOffset.toNat
  pentries : ∀ e ∈ m.pentries, e.hash.hashtype = hashtypeSha1
  bentries : ∀ e ∈ m.bentries, e.hash.hashtype = hashtypeSha1
  packHashes : ∀ hs ∈ m.packHashes, ∀ h ∈ hs, h.hashtype = hashtypeSha1

/-- **The two readers of manifests agree** on every file: `dumpmanifest` accepts what the unpacker reads, if it can be
printed, and prints exactly that. -/
theorem dumpManifest_ok_iff {d : Bytes} {out : List Bytes} :
    dumpManifest d = .ok out ↔ ∃ m, readManifest d = .ok m ∧ Printable m ∧ out = m.listing := by
  simp only [dumpManifest, readManifest, readHeader, readTables, bind_ok, Prod.exists, cAssert_ok, exists_const,
    pure_eq_ok, Except.ok.injEq, cStringIn_checks _ _, Exec.Checks.mapM (dumpEntry_checks _) _ _,
    dumpTable_checks dumpPackEntry_checks _ _, dumpTable_checks dumpItem_checks _ _]
  constructor
  · rintro ⟨b, pos, hb, hmagic, hversion, metadata, pos₁, hmetadata, _, ⟨hend, rfl⟩, table, pos₂, htable, _,
      ⟨hentries, rfl⟩, _, ⟨hpacks, rfl⟩, _, ⟨hitems, rfl⟩, _, hcontents, rfl⟩
    obtain ⟨hashes, hreads, -, hhashes, rfl⟩ := (dumpTable_contents _).1 hcontents
    exact ⟨_, ⟨_, _, ⟨b, pos, hb, hmagic, hversion, rfl⟩, metadata, pos₁, hmetadata, table, pos₂, htable, hashes, hreads,
      rfl⟩, ⟨hend, hentries, hpacks, hitems, hhashes⟩, rfl⟩
  · rintro ⟨_, ⟨_, _, ⟨b, pos, hb, hmagic, hversion, hheader⟩, metadata, pos₁, hmetadata, table, pos₂, htable, hashes,
      hreads, rfl⟩, hp, rfl⟩
    obtain ⟨rfl, rfl⟩ := Prod.mk.injEq .. ▸ hheader
    exact ⟨b, pos, hb, hmagic, hversion, metadata, pos₁, hmetadata, _, ⟨hp.metadata, rfl⟩, table, pos₂, htable, _,
      ⟨hp.fentries, rfl⟩, _, ⟨hp.pentries, rfl⟩, _, ⟨hp.bentries, rfl⟩, _,
      (dumpTable_contents _).2 ⟨hashes, hreads, hp.pentries, hp.packHashes, rfl⟩, rfl⟩

/-! ## The tree that was packed -/

/-- The line for a file of the tree. -/
def FileLine (opts : PackOptions) (f : FileEntry) (line : Bytes) : Prop :=
  ∃ filenameOffset entry name, manifestEntry filenameOffset f = .ok entry ∧
    getFileBasename opts.inDir f.filename = .ok name ∧ line = entryText entry (entryHashText entry) name

/-- The line for a pack, with its place in the list. -/
def PackLine (p : PackEntry × ℕ) (line : Bytes) : Prop :=
  ∃ offset, line = packEntryText p.2 ⟨p.1.packfileHash, offset, UInt32.ofNat p.1.files.length⟩ (hashText p.1.packfileHash)

/-- The lines for a file that stands in the manifest. -/
def BlobLines (f : FileEntry × ℕ) (lines : List Bytes) : Prop :=
  ∃ offset, lines = itemText f.2 (blobEntry offset f.1) (hashText f.1.hash)

/-- The lines for what a pack contains. -/
def packContents (p : PackEntry × ℕ) : List Bytes :=
  packContentsText p.2 (hashText p.1.packfileHash) :: packHashesText 0 (p.1.files.map (·.hash))

/-- **The lines of a listing are those of the tree**: each file, each pack, and each file that stands in the manifest. -/
structure ListsTree (opts : PackOptions) (P : Packed) (header : SfmfFileHeader) (files packs : List Bytes)
    (items : List (List Bytes)) : Prop where
  entriesLength : header.entriesLength.toNat = P.files.length
  packsLength : header.packsLength.toNat = P.packs.length
  blobsLength : header.blobsLength.toNat = P.buckets.includedFiles.length
  files : List.Forall₂ (FileLine opts) P.files files
  packs : List.Forall₂ PackLine P.packs.zipIdx packs
  items : List.Forall₂ BlobLines P.buckets.includedFiles.zipIdx items

/-- What is printed of a manifest with these lines. -/
def treeListing (opts : PackOptions) (P : Packed) (header : SfmfFileHeader) (files packs : List Bytes)
    (items : List (List Bytes)) : List Bytes :=
  [manifestHeaderText header] ++ dumpSection "Metadata" [opts.metadataBytes.takeWhile (· ≠ 0) ++ text "\n"] ++
    dumpSection "Entries" files ++ dumpSection "Pack entries" packs ++ items.flatten ++
    dumpSection "Pack Contents" (P.packs.zipIdx.map packContents).flatten

/-- What is printed of a pack with these files. -/
def packListing (opts : PackOptions) (p : PackEntry) : List Bytes :=
  [packHeaderText (packHeader opts p)] ++
    dumpSection "Metadata" [opts.metadataBytes.takeWhile (· ≠ 0) ++ text "\n"] ++
    ((blobEntries (packPayloadOffset opts p) p.files).zipIdx.map fun e =>
      itemText e.2 e.1 (hashText e.1.hash)).flatten

/-- **What is printed of a pack** is what was written in front of the payloads. -/
theorem PackContent.dumpPack {E : Env} {D : Disk} {opts : PackOptions} {p : PackEntry} {content : Bytes}
    (hE : E.NoReflink) (hc : PackContent E D opts p content) (hend : 0 ∈ opts.metadataBytes)
    (hlen : (packHead opts p).length < 2 ^ 32) : Sfmf.dumpPack content = .ok (packListing opts p) := by
  obtain ⟨ops, hops, hw⟩ := hc
  obtain ⟨hmeta, hsha, _⟩ := packOps_ok D opts p hops
  obtain ⟨ps, _, rfl⟩ := writeFile_packOps E D opts p hE hops hw
  obtain ⟨pos, pos', hread1, hread2, hread3⟩ := packHead_read ps.flatten hmeta hlen
  have hitems : dumpTable dumpItem (blobEntries (packPayloadOffset opts p) p.files) = _ :=
    (dumpTable_checks dumpItem_checks _).returns fun b hb => by
      rw [packPayloadOffset_eq] at hb
      obtain ⟨i, f, hf, rfl⟩ := blobEntry_mem hb
      exact hsha f (List.mem_of_getElem? hf)
  unfold Sfmf.dumpPack freadOne
  simp only [hread1, ok_bind, SfpfFileHeader.decode_encode, hread2, hread3, hitems,
    (cStringIn_checks opts.metadataBytes).returns hend]
  rfl

/-- Entries of two lists, one by one. -/
theorem forall₂_of_getElem? {α β : Type} {r : α → β → Prop} {l : List α} {l' : List β} (hlen : l'.length = l.length)
    (h : ∀ (i : ℕ) (a : α), l[i]? = some a → ∃ b, l'[i]? = some b ∧ r a b) : List.Forall₂ r l l' := by
  refine List.forall₂_iff_get.2 ⟨hlen.symm, fun i hi hi' => ?_⟩
  obtain ⟨b, hb, hr⟩ := h i _ (List.getElem?_eq_getElem hi)
  rw [List.getElem?_eq_getElem hi', Option.some.injEq] at hb
  rwa [List.get_eq_getElem, List.get_eq_getElem, hb]

section

variable {E : Env} {D : SourceTree} {opts : PackOptions} {metaFile : Bytes} {outDir : Dir} {walk : List CString}
  {P : Packed} (R : PackRun E D opts metaFile outDir walk P)

theorem EntryReadsBack.fileLine {m : Manifest} {f : FileEntry} {e : SfmfFileEntry} (h : EntryReadsBack opts m f e) :
    FileLine opts f (entryText e (entryHashText e) (entryName m.filenameTable e)) := by
  obtain ⟨name, hbase, hname⟩ := h.filename
  have hentry : manifestEntry e.filenameOffset f = .ok { e with
      dev := if f.duplicate ∧ f.hardlinkIndex ≠ -1 then UInt32.ofInt f.hardlinkIndex else f.st.stRdev.toUInt32 } := by
    rw [manifestEntry, h.type, ok_bind, ← h.mode, ← h.uid, ← h.gid, ← h.mtime, ← h.zsize, ← h.hash]
    rfl
  refine ⟨_, _, name, hentry, hbase, ?_⟩
  rw [Manifest.filenameAt] at hname
  split_ifs at hname with hend
  exact congrArg _ (Except.ok.inj hname)

/-- What the packs contain, as it is read back. -/
theorem ReadsBack.contents {m : Manifest} (hm : readManifest P.manifest = .ok m)
    (hback : ReadsBack E D.toDisk (withMetadata opts metaFile) P.files P.packs P.buckets.includedFiles P.manifest m) :
    ((m.pentries.zip m.packHashes).zipIdx.map fun e => contentsText e.2 e.1.1 e.1.2) = P.packs.zipIdx.map packContents := by
  have hhashes := readManifest_packHashes hm
  have hlen := hback.pentries_length
  refine List.ext_getElem (by simp [hhashes, hlen]) fun i hi hi' => ?_
  rw [List.length_map, List.length_zipIdx] at hi'
  obtain ⟨e, he, hhash, -, hget⟩ := hback.pentries i _ (List.getElem?_eq_getElem hi')
  obtain ⟨_, rfl⟩ := List.getElem?_eq_some_iff.1 he
  obtain ⟨_, hget⟩ := List.getElem?_eq_some_iff.1 hget
  simp [contentsText, packContents, hhash, hget]

include R

theorem PackRun.packHash_sha1 {p : PackEntry} (hp : p ∈ P.packs) : p.packfileHash.hashtype = hashtypeSha1 := by
  obtain ⟨_, _, _, packs, H⟩ := R.ok
  obtain ⟨i, hi, rfl⟩ := List.getElem_of_mem hp
  have hwritten := (H.packsWritten.get hi (H.packsWritten.length_eq ▸ hi)).2.2.2
  exact congrArg SfmfFileHash.hashtype hwritten

/-- **The tables that were written can be printed.** -/
theorem PackRun.printable {m : Manifest} (hm : readManifest P.manifest = .ok m)
    (hback : ReadsBack E D.toDisk (withMetadata opts metaFile) P.files P.packs P.buckets.includedFiles P.manifest m) :
    Printable m where
  metadata := by simp [hback.metadata, withMetadata]
  fentries e he := by
    obtain ⟨f, hf, h⟩ := hback.tables.file_of_mem he
    refine ⟨fun hsize => ?_, ?_⟩
    · rw [h.hash] at hsize ⊢
      exact R.hash_sha1 hf ((R.hash_size hf).1 hsize)
    · obtain ⟨name, _, hname⟩ := h.filename
      rw [Manifest.filenameAt] at hname
      split_ifs at hname with hend
      exact hend
  pentries e he := by
    obtain ⟨p, hp, hhash⟩ := hback.tables.pack_of_mem he
    rw [hhash]
    exact R.packHash_sha1 hp
  bentries := R.blobs_sha1 hback
  packHashes := R.packHashes_sha1 hback hm

/-- **The lines that are printed** are those of the tree. -/
theorem PackRun.listsTree {m : Manifest}
    (hback : ReadsBack E D.toDisk (withMetadata opts metaFile) P.files P.packs P.buckets.includedFiles P.manifest m) :
    ListsTree opts P m.header (m.fentries.map fun e => entryText e (entryHashText e) (entryName m.filenameTable e))
      (m.pentries.zipIdx.map fun e => packEntryText e.2 e.1 (hashText e.1.hash))
      (m.bentries.zipIdx.map fun e => itemText e.2 e.1 (hashText e.1.hash)) where
  entriesLength := hback.entriesLength
  packsLength := hback.packsLength
  blobsLength := hback.blobsLength
  files := by
    refine forall₂_of_getElem? (by simp [hback.fentries_length]) fun i f hf => ?_
    obtain ⟨e, he, h⟩ := hback.fentries i f hf
    exact ⟨_, by rw [List.getElem?_map, he]; rfl, h.fileLine⟩
  packs := by
    refine forall₂_of_getElem? (by simp [hback.pentries_length]) fun i a ha => ?_
    obtain ⟨p, hp, rfl⟩ : ∃ p, P.packs[i]? = some p ∧ (p, i) = a := by simpa [List.getElem?_zipIdx] using ha
    obtain ⟨e, he, hhash, hcount, -⟩ := hback.pentries i p hp
    refine ⟨_, by rw [List.getElem?_map, List.getElem?_zipIdx, he]; rfl, e.offset, ?_⟩
    rw [← hhash, ← hcount, UInt32.ofNat_toNat, Nat.zero_add]
  items := by
    refine forall₂_of_getElem? (by simp [hback.bentries_length]) fun i a ha => ?_
    obtain ⟨f, hf, rfl⟩ : ∃ f, P.buckets.includedFiles[i]? = some f ∧ (f, i) = a := by
      simpa [List.getElem?_zipIdx] using ha
    obtain ⟨e, payload, he, hhash, hflags, hpayload, hsize, -⟩ := hback.bentries i f hf
    refine ⟨_, by rw [List.getElem?_map, List.getElem?_zipIdx, he]; rfl, e.offset, ?_⟩
    have hentry : e = blobEntry e.offset f := by
      rw [R.manifestRecorded (List.mem_of_getElem? hf) hpayload] at hsize
      rw [blobEntry, ← hhash, ← hflags, ← ofNat_minSize, ← hsize, UInt32.ofNat_toNat]
    rw [← hhash, ← hentry, Nat.zero_add]

end

end Sfmf
