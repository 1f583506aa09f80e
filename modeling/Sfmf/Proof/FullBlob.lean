import Sfmf.Proof.Sizes
import Sfmf.Proof.Streams

/-!
# Full blobs

A full blob has no flag that says whether it is compressed. `write_full_blob`
compares the smaller size of a file, as a signed 32-bit number, with its true size;
the unpacker compares the two sizes in the manifest entry, which are unsigned.

* `isCompressed_iff`: what the unpacker decides; for the packer see `fullBlobFlags_iff`.
* `fullBlob_agrees_iff`: they agree, and the blob is verified and unpacked, exactly
  when the file becomes smaller or is shorter than 2 GiB.
* `fullBlob_disagrees`: a file of 2 GiB that does not.
-/

namespace Sfmf

theorem writeFullBlob_eq (E : Env) (D : Disk) (dir : Dir) (f : FileEntry) : writeFullBlob E D dir f = do
    let filename ← makeBlobFilename f.hash
    let d ← D.openFile f.filename "ifp != NULL"
    let content ← convertFile E d (fullBlobFlags f)
    return dir.write filename content := rfl

/-- **What the unpacker decides**, from the manifest entry. -/
theorem isCompressed_iff {f : FileEntry} {e : SfmfFileEntry} {offset : UInt32} {d : Bytes} {E : Env}
    (he : manifestEntry offset f = .ok e) (hhash : f.hash = hashOf E d) (hlen : d.length = f.st.stSize)
    (hs : f.st.stSize < 2 ^ 32) : e.hash = f.hash ∧ (isCompressed e = true ↔ f.zsize.toNat < f.st.stSize) := by
  simp only [manifestEntry, bind_ok, pure_eq_ok, Except.ok.injEq] at he
  obtain ⟨_, _, rfl⟩ := he
  exact ⟨rfl, blobCompressed_iff hhash hlen hs⟩

/-- **Packer and unpacker agree on the full blob of a file** with the manifest entry `e`, in the directory that
`write_full_blob` has written to. -/
structure FullBlobAgrees (E : Env) (D : Disk) (f : FileEntry) (e : SfmfFileEntry) (dir : Dir) : Prop where
  /-- the blob is written compressed if and only if it is taken for compressed -/
  flags : fullBlobFlags f = .zcompress ↔ isCompressed e = true
  /-- the blob verifies, and unpacking it from the cache gives the content of the file -/
  unpacks : ∃ name content d, makeBlobFilename e.hash = .ok name ∧ dir name = some content ∧
    D.fopen f.filename = some d ∧ sfmfFilehashVerify E e.hash content (isCompressed e) = .ok true ∧
    ∀ (opts : UnpackOptions) (manifest : Bytes) (cache : Dir), cache name = some content →
      ∃ ops, blobOps opts manifest cache e .full = .ok ops ∧ writeFile E ops = .ok d

variable {E : Env} {D : SourceTree} {f : FileEntry}

/-- What becomes of the full blob of a file in the list of a tree. -/
theorem Listed.fullBlob (hlisted : Listed E D f) (hreg : sIsreg f.st.stMode) (h0 : f.st.stSize ≠ 0)
    (hs : f.st.stSize < 2 ^ 32) (hz0 : f.zsize ≠ 0) (hinf : ∀ d, D.fopen f.filename = some d → E.Inflates d)
    (dir : Dir) (offset : UInt32) :
    ∃ dir' e, writeFullBlob E D.toDisk dir f = .ok dir' ∧ manifestEntry offset f = .ok e ∧
      (FullBlobAgrees E D.toDisk f e dir' ↔ f.zsize.toNat < f.st.stSize ∨ f.st.stSize < 2 ^ 31) := by
  obtain ⟨d, z, hopen, _, hlen, hz, hhash, _⟩ := hlisted.regular hreg h0
  obtain ⟨e, he⟩ := manifestEntry_total hlisted.type offset
  obtain ⟨hehash, hcomp⟩ := isCompressed_iff he hhash hlen hs
  have hflags := fullBlobFlags_iff hs hz0
  obtain ⟨name, hname⟩ : ∃ name, makeBlobFilename f.hash = .ok name :=
    ⟨_, makeBlobFilename_ok.2 ⟨by rw [hhash]; rfl, rfl⟩⟩
  obtain ⟨content, hcontent⟩ : ∃ content, converted E (fullBlobFlags f) d = .ok content := by
    rcases fullBlobFlags_cases f with ⟨hnone, _⟩ | ⟨hzcompress, _⟩
    · exact ⟨d, by rw [hnone, converted_none]⟩
    · exact ⟨z, by rw [hzcompress, hz]⟩
  have hwrite : writeFullBlob E D.toDisk dir f = .ok (dir.write name content) := by
    simp only [writeFullBlob_eq, hname, Disk.openFile_ok.2 hopen, convertFile_eq, hcontent, ok_bind, pure_eq_ok]
  refine ⟨_, e, hwrite, he, ?_⟩
  constructor
  · intro h
    have hagree := h.flags
    rw [hflags, hcomp] at hagree
    omega
  · intro hcond
    have hagree : fullBlobFlags f = .zcompress ↔ isCompressed e = true := by rw [hflags, hcomp]; omega
    -- what the unpacker does undoes what the packer did
    have hback : converted E (if isCompressed e then .zuncompress else .none) content = .ok d := by
      by_cases hc : isCompressed e = true
      · rw [hagree.2 hc] at hcontent
        rw [if_pos hc]
        exact hinf d hopen content hcontent
      · have hnone : fullBlobFlags f = .none :=
          ((fullBlobFlags_cases f).resolve_right fun h => hc (hagree.1 h.1)).1
        rw [hnone, converted_none, Except.ok.injEq] at hcontent
        rw [if_neg hc, ← hcontent]
        exact converted_none E d
    refine ⟨hagree, name, content, d, by rw [hehash, hname], if_pos rfl, hopen, ?_, fun opts manifest cache hcache => ?_⟩
    · rw [hehash, hhash]
      exact (sfmfFilehashVerify_ok E).2 ⟨d, hback, rfl, (decide_eq_true rfl).symm⟩
    · refine ⟨[.convertFile content (if isCompressed e then .zuncompress else .none)], ?_, ?_⟩
      · simp only [blobOps, hehash, hname, ok_bind, hcache, pure_eq_ok]
      · exact (convertFile_eq E content _).trans hback

/-- **Packer and unpacker agree exactly on files that become smaller or are shorter than 2 GiB.** For every
nonempty regular file of a tree below 4 GiB, from whose compressed form zlib gets the file back. -/
theorem fullBlob_agrees_iff {walk : List CString} {files : List FileEntry}
    (hlist : getFileList E D.toDisk walk = .ok files) {g : FileEntry} (hg : g ∈ files) (hf : SameFile g f)
    (hreg : sIsreg f.st.stMode) (h0 : f.st.stSize ≠ 0) (hs : f.st.stSize < 2 ^ 32) (hz0 : f.zsize ≠ 0)
    (hinf : ∀ d, D.fopen f.filename = some d → E.Inflates d) (dir : Dir) (offset : UInt32) :
    ∃ dir' e, writeFullBlob E D.toDisk dir f = .ok dir' ∧ manifestEntry offset f = .ok e ∧
      (FullBlobAgrees E D.toDisk f e dir' ↔ f.zsize.toNat < f.st.stSize ∨ f.st.stSize < 2 ^ 31) :=
  Listed.fullBlob (SameFile.listed hf ((getFileList_ok hlist).1 g hg).1) hreg h0 hs hz0 hinf dir offset

/-- They agree on the file of letters. -/
theorem fullBlob_agrees_iff_letters : ∃ dir e,
    writeFullBlob letterTreeEnv letterTree.toDisk (fun _ => none) letterTreeFile = .ok dir ∧
    manifestEntry 0 letterTreeFile = .ok e ∧ FullBlobAgrees letterTreeEnv letterTree.toDisk letterTreeFile e dir := by
  have hpasses : (getFileList letterTreeEnv letterTree.toDisk letterWalk).passes (fun files =>
      letterTreeFile ∈ files) = true := by decide +kernel
  obtain ⟨files, hlist, hmem⟩ := Exec.of_passes hpasses
  have hopen : letterTree.fopen letterTreeFile.filename = some letters := by decide
  have hdeflates : ∀ d, letterTree.fopen letterTreeFile.filename = some d → letterTreeEnv.Deflates d := by
    intro d hd
    rw [hopen, Option.some.injEq] at hd
    exact letterTree_deflates (by simp [← hd])
  obtain ⟨dir, e, hw, he, hagree⟩ := fullBlob_agrees_iff hlist (of_decide_eq_true hmem) (.refl _) (by decide)
    (by decide) (by decide) (by decide)
    (fun d hd z hz => (hdeflates d hd z hz).2.2) (fun _ => none) 0
  exact ⟨dir, e, hw, he, hagree.2 (.inr (by decide))⟩

/-! ## A file of 2 GiB -/

/-- A byte of noise: a number with its bits mixed. -/
def noise (n : ℕ) : UInt8 :=
  let x := UInt32.ofNat n
  let x := (x ^^^ (x >>> 16)) * 0x7feb352d
  let x := (x ^^^ (x >>> 15)) * 0x846ca68b
  (x ^^^ (x >>> 16)).toUInt8

/-- 2 GiB of noise. -/
@[irreducible] def bulk : Bytes := (List.range 2147483648).map noise

theorem bulk_length : bulk.length = 2147483648 := by
  unfold bulk
  rw [List.length_map, List.length_range]

/-- The stream of the noise has it in stored blocks, and is longer. -/
theorem bulk_encode_length : (lettersEncode bulk).length = 2147647499 := by
  have hne : bulk ≠ letters := by
    intro h
    have hlen := congrArg List.length h
    rw [bulk_length] at hlen
    exact absurd hlen (by decide)
  rw [lettersEncode, if_neg hne, storedEncode_length, bulk_length]

/-- What `lstat` says of this file. -/
def bulkStat : Stat := ⟨2, 0o100644, 0, 0, 0, 2147483648, 7⟩

/-- A directory with this file. -/
def bulkTree : SourceTree :=
  .ofList [(zerosDir, ⟨1, 0o040755, 0, 0, 0, 64, 7⟩, []), (zerosPath, bulkStat, bulk)]
    (by
      intro e he hreg
      rcases List.mem_pair.1 he with rfl | rfl
      · exact absurd hreg (by decide)
      · exact bulk_length)
    (by
      intro e he hlnk
      rcases List.mem_pair.1 he with rfl | rfl
      · exact absurd hlnk (by decide)
      · exact absurd hlnk (by decide))

/-- What the list of this tree says of the file. -/
def bulkFile : FileEntry :=
  ⟨zerosPath, bulkStat, 2147647499, ⟨2147483648, hashtypeSha1, coderEnv.sha1 bulk⟩, false, -1⟩

theorem bulkTree_fopen : bulkTree.toDisk.fopen zerosPath = some bulk := by
  simp [bulkTree, SourceTree.ofList, Disk.ofList, zerosDir, zerosPath, str]

/-- With a large enough budget, the noise is compressed and decompressed. -/
theorem bulk_settles : ∃ k, converted (coderEnv.withFuel k) .zcompress bulk = .ok (lettersEncode bulk) ∧
    converted (coderEnv.withFuel k) .zuncompress (lettersEncode bulk) = .ok bulk := by
  obtain ⟨z, rfl, hcompress⟩ := converted_zcompress coderEnv_encode bulk
  have huncompress := converted_zuncompress coderEnv_inflate (lettersCoder_encode bulk)
  exact (hcompress.and huncompress).exists

theorem bulkTree_files {k : ℕ} (hz : converted (coderEnv.withFuel k) .zcompress bulk = .ok (lettersEncode bulk)) :
    getFileList (coderEnv.withFuel k) bulkTree.toDisk [zerosDir, zerosPath] =
      .ok [⟨zerosDir, ⟨1, 0o040755, 0, 0, 0, 64, 7⟩, 0, .zero, false, -1⟩, bulkFile] := by
  have hdir : filelistAppend (coderEnv.withFuel k) bulkTree.toDisk false .calculateHash [] zerosDir =
      .ok [⟨zerosDir, ⟨1, 0o040755, 0, 0, 0, 64, 7⟩, 0, .zero, false, -1⟩] := rfl
  have hst : bulkTree.toDisk.lstat zerosPath = some bulkStat := rfl
  have hreg : sIsreg bulkStat.stMode ∧ bulkStat.stSize > 0 := ⟨by decide, by decide⟩
  unfold getFileList extendFileList
  rw [List.foldlM_cons, hdir, ok_bind, List.foldlM_cons, filelistAppend_regular hst hreg bulkTree_fopen hz,
    bulk_encode_length]
  rfl

/-- **A file of 2 GiB that does not become smaller is written compressed and unpacked as if it were not.** -/
theorem fullBlob_disagrees : ¬ ∀ (E : Env) (D : SourceTree) (walk : List CString) (files : List FileEntry)
    (f : FileEntry), getFileList E D.toDisk walk = .ok files → f ∈ files → sIsreg f.st.stMode → f.st.stSize ≠ 0 →
    Fits E D.toDisk f → f.zsize ≠ 0 → (∀ d, D.fopen f.filename = some d → E.Inflates d) →
    ∀ (cutoff packUpper : UInt32), f ∈ (bucketizeFileList files cutoff packUpper).unpackedFiles →
    ∀ (dir dir' : Dir) (offset : UInt32) (e : SfmfFileEntry), writeFullBlob E D.toDisk dir f = .ok dir' →
      manifestEntry offset f = .ok e → FullBlobAgrees E D.toDisk f e dir' := by
  intro h
  obtain ⟨k, hz, hd⟩ := bulk_settles
  have hfiles := bulkTree_files hz
  have hmem : bulkFile ∈ [⟨zerosDir, ⟨1, 0o040755, 0, 0, 0, 64, 7⟩, 0, .zero, false, -1⟩, bulkFile] := by simp
  have hlisted := ((getFileList_ok hfiles).1 bulkFile hmem).1
  have hopen : ∀ d, bulkTree.fopen bulkFile.filename = some d → d = bulk := fun d hd =>
    Option.some.inj (hd.symm.trans bulkTree_fopen)
  have hfits : Fits (coderEnv.withFuel k) bulkTree.toDisk bulkFile := by
    refine ⟨by decide, fun d z hdo hdz => ?_⟩
    rw [hopen d hdo, hz, Except.ok.injEq] at hdz
    rw [← hdz, bulk_encode_length]
    decide
  have hinf : ∀ d, bulkTree.fopen bulkFile.filename = some d → (coderEnv.withFuel k).Inflates d := by
    intro d hdo z hdz
    rw [hopen d hdo, hz, Except.ok.injEq] at hdz
    rw [← hdz, hopen d hdo, hd]
  obtain ⟨dir', e, hw, he, hagree⟩ := hlisted.fullBlob (by decide) (by decide) (by decide) (by decide) hinf (fun _ => none) 0
  -- with a pack limit of 1 KB the file is too large for a pack
  have hbucket : bulkFile ∈ (bucketizeFileList
      [⟨zerosDir, ⟨1, 0o040755, 0, 0, 0, 64, 7⟩, 0, .zero, false, -1⟩, bulkFile] 1 1024).unpackedFiles := by
    rw [bucketizeFileList_eq]
    exact List.mem_filter.2 ⟨hmem, by decide⟩
  have hcond := hagree.1 (h _ _ _ _ _ hfiles hmem (by decide) (by decide) hfits (by decide) hinf 1 1024 hbucket _ _ _ _
    hw he)
  exact absurd hcond (by decide)

end Sfmf
