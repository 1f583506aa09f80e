import Sfmf.Proof.Download
import Sfmf.Proof.FileEntry

/-!
# Packs: reading undoes writing

* `writePack_ok`: the content of a pack, and the name and size it gets.
* `getBlobFromPack_content`: what the reader finds in it.
* `pack_roundtrip`: the size is right, exactly the pack's hashes are found, and
  their files come out as they went in.
-/

namespace Sfmf

variable (E : Env) (D : Disk) (opts : PackOptions) (entry : PackEntry)

/-- A file's content survives being compressed. -/
def Env.Inflates (d : Bytes) : Prop :=
  ∀ z, converted E .zcompress d = .ok z → converted E .zuncompress z = .ok d

/-! ## The content -/

/-- What precedes the payloads in a pack. -/
def packHead : Bytes :=
  (packHeader opts entry).encode ++ (opts.metadataBytes ++
    (blobEntries (packPayloadOffset opts entry) entry.files).flatMap SfmfBlobEntry.encode)

theorem packHead_length : (packHead opts entry).length =
    sfpfFileHeaderSize + opts.metadataBytes.length + sfmfBlobEntrySize * entry.files.length := by
  simp only [packHead, List.length_append, SfpfFileHeader.encode_length,
    flatMap_length_const SfmfBlobEntry.encode_length, blobEntries_length]
  omega

theorem packPayloadOffset_eq : packPayloadOffset opts entry = UInt32.ofNat (packHead opts entry).length := by
  rw [packHead_length, UInt32.ofNat_add, UInt32.ofNat_add, UInt32.ofNat_mul, UInt32.mul_comm (UInt32.ofNat sfmfBlobEntrySize)]
  rfl

theorem packOps_ok {ops : List StreamOp} (h : packOps D opts entry = .ok ops) :
    opts.metadataBytes ≠ [] ∧ (∀ f ∈ entry.files, f.hash.hashtype = hashtypeSha1) ∧
      ∃ payload, entry.files.mapM (payloadOp D) = .ok payload ∧
        ops = [.fwrite (packHeader opts entry).encode, .fwrite opts.metadataBytes] ++
          (blobEntries (packPayloadOffset opts entry) entry.files).map (fun e => .fwrite e.encode) ++ payload := by
  simp only [packOps, bind_ok, fwriteOne_ok, pure_eq_ok, Except.ok.injEq] at h
  obtain ⟨_, ⟨hmeta, rfl⟩, checks, hchecks, payload, hpayload, rfl⟩ := h
  refine ⟨hmeta, ?_, payload, hpayload, rfl⟩
  intro f hf
  rw [mapM_ok] at hchecks
  obtain ⟨i, hi, rfl⟩ := List.getElem_of_mem hf
  have hcheck := hchecks.get hi (hchecks.length_eq ▸ hi)
  simp only [List.get_eq_getElem, packIndexCheck, bind_ok, cAssert_ok, exists_const,
    sfmfFilehashFormat_ok] at hcheck
  exact hcheck.2.1

/-- **The content of a pack**: its head, and the payloads in order. -/
theorem writeFile_packOps (hE : E.NoReflink) {ops : List StreamOp} {content : Bytes}
    (hops : packOps D opts entry = .ok ops) (hw : writeFile E ops = .ok content) :
    ∃ ps, List.Forall₂ (fun f p => outOf E (payloadOp D f) = .ok p) entry.files ps ∧
      content = packHead opts entry ++ ps.flatten := by
  obtain ⟨_, _, payload, hpayload, rfl⟩ := packOps_ok D opts entry hops
  obtain ⟨outs, houts, rfl⟩ := (writeFile_ok E hE).1 hw
  obtain ⟨a, ps, ha, hps, rfl⟩ := mapM_append_ok.1 houts
  obtain ⟨b, index, hb, hindex, rfl⟩ := mapM_append_ok.1 ha
  refine ⟨ps, mapM_outs E hpayload hps, ?_⟩
  have hb' : b = [(packHeader opts entry).encode, opts.metadataBytes] :=
    Except.ok.inj (hb.symm.trans (mapM_fwrite E id [(packHeader opts entry).encode, opts.metadataBytes]))
  have hindex' : index = (blobEntries (packPayloadOffset opts entry) entry.files).map SfmfBlobEntry.encode :=
    Except.ok.inj (hindex.symm.trans (mapM_fwrite E SfmfBlobEntry.encode _))
  simp [hb', hindex', packHead, List.flatMap_def]

/-- A file that was written and then renamed: only its temporary name is gone. -/
theorem Dir.write_rename (dir : Dir) {old new content n : Bytes} (hn : n ≠ old) :
    (dir.write old content).rename old new n = dir.write new content n := by
  have hold : dir.write old content old = some content := if_pos rfl
  rw [Dir.rename, hold]
  simp only [Dir.write, Dir.unlink, if_neg hn]

/-- What `write_pack` leaves, besides its temporary file. -/
theorem writePack_ok {dir dir' : Dir} {entry' : PackEntry} (h : writePack E D opts dir entry = .ok (entry', dir')) :
    ∃ ops content name, packOps D opts entry = .ok ops ∧ writeFile E ops = .ok content ∧
      entry'.files = entry.files ∧ entry'.size = entry.size ∧
      entry'.packfileSize = packPayloadOffset opts entry + entry.size ∧
      entry'.packfileHash = ⟨entry'.packfileSize, hashtypeSha1, E.sha1 content⟩ ∧
      makePackFilename entry'.packfileHash = .ok name ∧
      ∀ n, n ≠ packTmpFilename → dir' n = dir.write name content n := by
  simp only [writePack, bind_ok, convertFileZsizeHash_eq, if_true, map_ok, pure_eq_ok, Except.ok.injEq,
    Prod.mk.injEq] at h
  obtain ⟨ops, hops, content, hcontent, _, ⟨z, _, rfl⟩, name, hname, rfl, rfl⟩ := h
  exact ⟨ops, content, name, hops, hcontent, rfl, rfl, rfl, rfl, hname, fun n hn => Dir.write_rename dir hn⟩

/-! ## Reading it -/

variable {D opts entry}

theorem blobEntry_mem {n : ℕ} {es : List FileEntry} {b : SfmfBlobEntry}
    (hb : b ∈ blobEntries (UInt32.ofNat n) es) :
    ∃ i f, es[i]? = some f ∧ b = blobEntry (UInt32.ofNat (n + offset (es.map minSize) i)) f := by
  obtain ⟨i, hi, rfl⟩ := List.getElem_of_mem hb
  have hget := blobEntries_get n es i
  rw [List.getElem?_eq_getElem hi] at hget
  obtain ⟨f, hf, hfe⟩ := Option.map_eq_some_iff.1 hget.symm
  exact ⟨i, f, hf, hfe.symm⟩

/-- **The head of a pack is read**: its header, the metadata and the blob entries, one behind the other. -/
theorem packHead_read (rest : Bytes) (hmeta : opts.metadataBytes ≠ []) (hlen : (packHead opts entry).length < 2 ^ 32) :
    ∃ pos pos', fread (packHead opts entry ++ rest) 0 sfpfFileHeaderSize =
        (some (packHeader opts entry).encode, sfpfFileHeaderSize) ∧
      fread (packHead opts entry ++ rest) sfpfFileHeaderSize (packHeader opts entry).metadataSize.toNat =
        (some opts.metadataBytes, pos) ∧
      readTable (packHead opts entry ++ rest) sfmfBlobEntrySize SfmfBlobEntry.decode .zero
        (packHeader opts entry).blobsLength.toNat pos = (blobEntries (packPayloadOffset opts entry) entry.files, pos') := by
  rw [packHead_length] at hlen
  simp only [sfpfFileHeaderSize, sfmfBlobEntrySize] at hlen
  have hne : (packHeader opts entry).encode ≠ [] := by
    intro he
    have := congrArg List.length he
    simp [sfpfFileHeaderSize] at this
  have hmetasize : (packHeader opts entry).metadataSize.toNat = opts.metadataBytes.length :=
    ofNat_toNat_of_lt (by omega)
  have hcount : (packHeader opts entry).blobsLength.toNat =
      (blobEntries (packPayloadOffset opts entry) entry.files).length := by
    rw [blobEntries_length]
    exact ofNat_toNat_of_lt (by omega)
  refine ⟨sfpfFileHeaderSize + (packHeader opts entry).metadataSize.toNat, sfpfFileHeaderSize +
    (packHeader opts entry).metadataSize.toNat + sfmfBlobEntrySize * (packHeader opts entry).blobsLength.toNat, ?_, ?_, ?_⟩
  · have hread := fread_at (d := packHead opts entry ++ rest) [] (opts.metadataBytes ++
      (blobEntries (packPayloadOffset opts entry) entry.files).flatMap SfmfBlobEntry.encode ++ rest)
      (by simp [packHead]) hne rfl (SfpfFileHeader.encode_length _).symm
    rwa [List.length_nil, Nat.zero_add] at hread
  · exact fread_at (packHeader opts entry).encode
      ((blobEntries (packPayloadOffset opts entry) entry.files).flatMap SfmfBlobEntry.encode ++ rest)
      (by simp [packHead]) hmeta (by simp) hmetasize
  · exact readTable_at (by decide) SfmfBlobEntry.encode_length SfmfBlobEntry.decode_encode _
      ((packHeader opts entry).encode ++ opts.metadataBytes) rest (by simp [packHead]) (by simp [hmetasize]) hcount

/-- **What is looked up in a pack**: the first file with the hash, and what stands at its offset. -/
theorem getBlobFromPack_content (rest : Bytes) {h : SfmfFileHash} (hmeta : opts.metadataBytes ≠ [])
    (hsha : ∀ f ∈ entry.files, f.hash.hashtype = hashtypeSha1) (hh : h.hashtype = hashtypeSha1)
    (hlen : (packHead opts entry).length < 2 ^ 32) :
    getBlobFromPack (packHead opts entry ++ rest) h =
      match (blobEntries (packPayloadOffset opts entry) entry.files).find? (fun b => b.hash = h) with
      | none => .ok none
      | some b =>
        match (fread (packHead opts entry ++ rest) b.offset.toNat b.size.toNat).1 with
        | none => .error (.assertion "res == 1")
        | some result => .ok (some (result, b.flags)) := by
  obtain ⟨pos, pos', hread1, hread2, hread3⟩ := packHead_read rest hmeta hlen
  set index := blobEntries (packPayloadOffset opts entry) entry.files with hindex
  have hfind : index.findM? (fun b => sfmfFilehashCompare b.hash h) =
      .ok (index.find? fun b => b.hash = h) := by
    refine findM_ok fun b hb => sfmfFilehashCompare_eq ?_ hh
    rw [hindex, packPayloadOffset_eq] at hb
    obtain ⟨i, f, hf, rfl⟩ := blobEntry_mem hb
    exact hsha f (List.mem_of_getElem? hf)
  unfold getBlobFromPack
  simp only [hread1, SfpfFileHeader.decode_encode, hread2, hread3, hfind]
  simp only [packHeader, cAssert, if_true, ok_bind, Option.isSome_some]
  cases index.find? fun b => b.hash = h with
  | none => rfl
  | some b => rfl

/-- The conversion that the flags of a blob entry ask for undoes the one of the writer. -/
theorem unpayload {E : Env} {f : FileEntry} {d p : Bytes} (hinv : E.Inflates d)
    (h : (StreamOp.convertFile d (if zcompress f then .zcompress else .none)).out E = .ok p) :
    (StreamOp.convertBuffer p
      (if isZcompressed (if zcompress f then blobFlagZcompressed else 0) then .zuncompress else .none)).out E =
        .ok d := by
  by_cases hz : zcompress f = true
  · rw [if_pos hz] at h
    rw [if_pos hz, if_pos (by decide)]
    exact hinv p h
  · rw [if_neg hz] at h
    rw [if_neg hz, if_neg (by decide)]
    have hpd : d = p := Except.ok.inj ((converted_none E d).symm.trans h)
    rw [← hpd]
    exact converted_none E d

variable {E}

/-- The content that `write_pack` gives a pack. -/
def PackContent (E : Env) (D : Disk) (opts : PackOptions) (entry : PackEntry) (content : Bytes) : Prop :=
  ∃ ops, packOps D opts entry = .ok ops ∧ writeFile E ops = .ok content

/-- **The size of a pack** is its head and the payloads, as they were recorded. -/
theorem PackContent.length (hE : E.NoReflink) {content : Bytes} (hc : PackContent E D opts entry content)
    (hrec : ∀ f ∈ entry.files, ∀ p, outOf E (payloadOp D f) = .ok p → p.length = minSize f) :
    content.length = (packHead opts entry).length + (entry.files.map minSize).sum := by
  obtain ⟨ops, hops, hcontent⟩ := hc
  obtain ⟨ps, hps, rfl⟩ := writeFile_packOps E D opts entry hE hops hcontent
  have hrecorded : Recorded entry.files ps :=
    List.forall₂_iff_get.2 ⟨hps.length_eq, fun i hi hi' => hrec _ (List.getElem_mem hi) _ (hps.get hi hi')⟩
  rw [List.length_append, hrecorded.flatten_length]

/-- **Packs of one content begin with one file**: the first of the blob entries has its hash. -/
theorem PackContent.first_hash (hE : E.NoReflink) {entry' : PackEntry} {content : Bytes}
    (hc : PackContent E D opts entry content) (hc' : PackContent E D opts entry' content) {f g : FileEntry}
    {fs gs : List FileEntry} (hf : entry.files = f :: fs) (hg : entry'.files = g :: gs) : f.hash = g.hash := by
  obtain ⟨ops, hops, hw⟩ := hc
  obtain ⟨ops', hops', hw'⟩ := hc'
  obtain ⟨ps, _, hcontent⟩ := writeFile_packOps E D opts entry hE hops hw
  obtain ⟨qs, _, hcontent'⟩ := writeFile_packOps E D opts entry' hE hops' hw'
  rw [hcontent, packHead, packHead, hf, hg] at hcontent'
  simp only [blobEntries, List.flatMap_cons, List.append_assoc] at hcontent'
  have hmeta := List.append_inj_right hcontent' (by simp only [SfpfFileHeader.encode_length])
  have hentries := List.append_inj_left (List.append_cancel_left hmeta) (by simp only [SfmfBlobEntry.encode_length])
  have hdecoded := congrArg SfmfBlobEntry.decode hentries
  simp only [SfmfBlobEntry.decode_encode] at hdecoded
  exact congrArg SfmfBlobEntry.hash hdecoded

/-- **What is found in a pack**: exactly the hashes of its files, and for each of them the payload, with
flags by which the original content comes back. -/
theorem PackContent.lookup (hE : E.NoReflink) {content : Bytes} (hc : PackContent E D opts entry content)
    (hrec : ∀ f ∈ entry.files, ∀ p, outOf E (payloadOp D f) = .ok p → p.length = minSize f)
    (hpos : ∀ f ∈ entry.files, 0 < minSize f)
    (hlen : sfpfFileHeaderSize + opts.metadataBytes.length + sfmfBlobEntrySize * entry.files.length +
      (entry.files.map minSize).sum < 2 ^ 32)
    (hdist : (entry.files.map (·.hash)).Nodup)
    (hinfl : ∀ f ∈ entry.files, ∀ d, D.fopen f.filename = some d → E.Inflates d)
    {h : SfmfFileHash} (hh : h.hashtype = hashtypeSha1) :
    (getBlobFromPack content h = .ok none ↔ ∀ f ∈ entry.files, f.hash ≠ h) ∧
      ∀ f ∈ entry.files, f.hash = h → ∃ payload flags op d,
        outOf E (payloadOp D f) = .ok payload ∧ getBlobFromPack content h = .ok (some (payload, flags)) ∧
        writeFileFromPack content h = .ok (some op) ∧ D.fopen f.filename = some d ∧ writeFile E [op] = .ok d := by
  obtain ⟨ops, hops, hcontent⟩ := hc
  obtain ⟨hmeta, hsha, _⟩ := packOps_ok D opts entry hops
  obtain ⟨ps, hps, rfl⟩ := writeFile_packOps E D opts entry hE hops hcontent
  have hrecorded : Recorded entry.files ps :=
    List.forall₂_iff_get.2 ⟨hps.length_eq, fun i hi hi' => hrec _ (List.getElem_mem hi) _ (hps.get hi hi')⟩
  have hhead := packHead_length opts entry
  have hlen' : (packHead opts entry).length + (entry.files.map minSize).sum < 2 ^ 32 := by omega
  have hget := getBlobFromPack_content ps.flatten hmeta hsha hh (by omega)
  rw [packPayloadOffset_eq] at hget
  -- a blob entry that is found is that of a file with the hash, and the file's payload is read
  have hfound : ∀ b, (blobEntries (UInt32.ofNat (packHead opts entry).length) entry.files).find?
      (fun b => b.hash = h) = some b → ∃ f p, f ∈ entry.files ∧ f.hash = h ∧
        outOf E (payloadOp D f) = .ok p ∧
        getBlobFromPack (packHead opts entry ++ ps.flatten) h =
          .ok (some (p, if zcompress f then blobFlagZcompressed else 0)) := by
    intro b hb
    obtain ⟨i, f, hf, rfl⟩ := blobEntry_mem (List.mem_of_find?_eq_some hb)
    have hfm := List.mem_of_getElem? hf
    have hfh : f.hash = h := by simpa [blobEntry] using List.find?_some hb
    obtain ⟨hi, rfl⟩ := List.getElem?_eq_some_iff.1 hf
    have hi' : i < ps.length := hps.length_eq ▸ hi
    have hread := hrecorded.fread hlen' hf (hpos _ hfm)
    rw [List.getElem?_eq_getElem hi'] at hread
    refine ⟨_, ps[i], hfm, hfh, hps.get hi hi', ?_⟩
    rw [hget, hb]
    simp only at hread ⊢
    rw [hread]
    rfl
  have hnone : getBlobFromPack (packHead opts entry ++ ps.flatten) h = .ok none ↔
      ∀ f ∈ entry.files, f.hash ≠ h := by
    constructor
    · intro hnone f hf hfh
      cases hb : (blobEntries (UInt32.ofNat (packHead opts entry).length) entry.files).find?
          (fun b => b.hash = h) with
      | none =>
        obtain ⟨i, hi, rfl⟩ := List.getElem_of_mem hf
        have hbi := blobEntries_get (packHead opts entry).length entry.files i
        rw [List.getElem?_eq_getElem hi, Option.map_some] at hbi
        have := List.find?_eq_none.1 hb _ (List.mem_of_getElem? hbi)
        simp [blobEntry, hfh] at this
      | some b =>
        obtain ⟨_, _, _, _, _, hsome⟩ := hfound b hb
        rw [hnone] at hsome
        cases hsome
    · intro hno
      rw [hget, List.find?_eq_none.2]
      intro b hb
      obtain ⟨i, f, hf, rfl⟩ := blobEntry_mem hb
      simpa [blobEntry] using hno f (List.mem_of_getElem? hf)
  refine ⟨hnone, fun f hf hfh => ?_⟩
  cases hb : (blobEntries (UInt32.ofNat (packHead opts entry).length) entry.files).find?
      (fun b => b.hash = h) with
  | none =>
    rw [hb] at hget
    exact absurd hfh (hnone.1 hget f hf)
  | some b =>
    obtain ⟨g, p, hg, hgh, hp, hread⟩ := hfound b hb
    have hgf : g = f := List.inj_on_of_nodup_map hdist hg hf (hgh.trans hfh.symm)
    subst hgf
    obtain ⟨op, hop, hout⟩ := bind_ok.1 hp
    obtain ⟨d, hd, rfl⟩ := payloadOp_ok.1 hop
    have hwrite : writeFileFromPack (packHead opts entry ++ ps.flatten) h =
        .ok (some (.convertBuffer p (if isZcompressed (if zcompress g then blobFlagZcompressed else 0)
          then .zuncompress else .none))) := by
      simp [writeFileFromPack, hread]
    refine ⟨p, _, _, d, hp, hread, hwrite, hd, ?_⟩
    refine (writeFile_ok E hE).2 ⟨[d], ?_, by simp⟩
    rw [mapM_ok]
    refine .cons ?_ .nil
    exact unpayload (hinfl g hg d hd) hout

/-- **Reading undoes writing over the pack format.** The pack has the size that is noted for it; a
hash is found in it exactly if one of its files has it; and then the file's payload is found, with
flags by which the original content comes back. -/
theorem pack_roundtrip (hE : E.NoReflink) {dir dir' : Dir} {entry' : PackEntry}
    (hw : writePack E D opts dir entry = .ok (entry', dir'))
    (hsize : entry.size = UInt32.ofNat (entry.files.map minSize).sum)
    (hrec : ∀ f ∈ entry.files, ∀ p, outOf E (payloadOp D f) = .ok p → p.length = minSize f)
    (hpos : ∀ f ∈ entry.files, 0 < minSize f)
    (hlen : sfpfFileHeaderSize + opts.metadataBytes.length + sfmfBlobEntrySize * entry.files.length +
      (entry.files.map minSize).sum < 2 ^ 32)
    (hdist : (entry.files.map (·.hash)).Nodup)
    (hinfl : ∀ f ∈ entry.files, ∀ d, D.fopen f.filename = some d → E.Inflates d) :
    ∃ name content, makePackFilename entry'.packfileHash = .ok name ∧ dir' name = some content ∧
      content.length = entry'.packfileSize.toNat ∧ entry'.packfileHash.size = entry'.packfileSize ∧
      ∀ h : SfmfFileHash, h.hashtype = hashtypeSha1 →
        (getBlobFromPack content h = .ok none ↔ ∀ f ∈ entry.files, f.hash ≠ h) ∧
        ∀ f ∈ entry.files, f.hash = h → ∃ payload flags op d,
          outOf E (payloadOp D f) = .ok payload ∧ getBlobFromPack content h = .ok (some (payload, flags)) ∧
          writeFileFromPack content h = .ok (some op) ∧ D.fopen f.filename = some d ∧
          writeFile E [op] = .ok d := by
  obtain ⟨ops, content, name, hops, hcontent, _, _, hpsize, hphash, hname, hdir⟩ := writePack_ok E D opts entry hw
  have hc : PackContent E D opts entry content := ⟨ops, hops, hcontent⟩
  have hout : dir' name = some content := by
    rw [hdir name (packFilename_ne_tmp hname)]
    exact if_pos rfl
  refine ⟨name, content, hname, hout, ?_, by rw [hphash], fun h hh =>
    hc.lookup hE hrec hpos hlen hdist hinfl hh⟩
  have hhead := packHead_length opts entry
  rw [hc.length hE hrec, hpsize, hsize, packPayloadOffset_eq, ← UInt32.ofNat_add, ofNat_toNat_of_lt (by omega)]

/-- A file of 32 letters and one of a single letter, which does not become smaller. -/
def twoFiles : Disk :=
  .ofList [(letterPath, ⟨2, 0o100644, 0, 0, 0, 32, 7⟩, letters),
    (⟨str ['d', '/', 's'], by decide⟩, ⟨3, 0o100644, 0, 0, 0, 1, 7⟩, [0x61])]

/-- What the list of these files says of the second one. -/
def singleLetterFile : FileEntry :=
  ⟨⟨str ['d', '/', 's'], by decide⟩, ⟨3, 0o100644, 0, 0, 0, 1, 7⟩, 9, ⟨1, hashtypeSha1, letterDigest⟩, false, -1⟩

/-- The pack of both, before it is written. -/
def twoFilesEntry : PackEntry := ⟨[letterTreeFile, singleLetterFile], 12, 0, .zero⟩

/-- Its content. -/
def twoFilesPack : Bytes :=
  [83, 70, 80, 70, 0, 0, 0, 1, 0, 0, 0, 2, 0, 0, 0, 2, 109, 0, 0, 0, 0, 32, 0, 0, 0, 1, 104, 248, 74, 89, 163,
   202, 45, 14, 92, 177, 100, 111, 187, 22, 77, 164, 9, 181, 216, 242, 0, 0, 0, 1, 0, 0, 0, 98, 0, 0, 0, 11, 0,
   0, 0, 1, 0, 0, 0, 1, 134, 247, 228, 55, 250, 165, 167, 252, 225, 93, 29, 220, 185, 234, 234, 234, 55, 118,
   103, 184, 0, 0, 0, 0, 0, 0, 0, 109, 0, 0, 0, 1, 120, 156, 75, 76, 196, 15, 0, 200, 48, 12, 33, 97]

/-- What zlib and SHA-1 make of the files, and of their pack. -/
def twoFilesEnv : Env :=
  .ofTable [
    (letters, lettersDeflated, lettersDigest),
    ([0x61], [120, 156, 75, 4, 0, 0, 98, 0, 98], letterDigest),
    (twoFilesPack,
      [120, 156, 11, 118, 11, 112, 99, 96, 96, 96, 4, 98, 38, 16, 206, 5, 18, 12, 10, 32, 145, 140, 31, 94, 145,
       139, 79, 233, 242, 197, 108, 76, 201, 223, 45, 230, 187, 132, 115, 235, 141, 79, 80, 149, 73, 64, 204,
       13, 101, 51, 182, 125, 127, 98, 254, 107, 233, 242, 63, 15, 99, 101, 239, 236, 124, 245, 234, 149, 121,
       89, 250, 14, 6, 8, 0, 25, 198, 88, 49, 199, 219, 231, 8, 63, 195, 9, 3, 30, 197, 68, 0, 157, 165, 29,
       206],
      ⟨[106, 41, 135, 35, 178, 115, 254, 208, 248, 96, 51, 55, 104, 2, 76, 153, 126, 151, 106, 71], by decide⟩)]

theorem twoFilesEnv_noReflink : twoFilesEnv.NoReflink := Env.ofTable_noReflink _

theorem pack_roundtrip_twoFiles : ∃ entry' dir' name content,
    writePack twoFilesEnv twoFiles letterTreeOptions (fun _ => none) twoFilesEntry = .ok (entry', dir') ∧
    dir' name = some content ∧ content.length = entry'.packfileSize.toNat ∧
    ∀ f ∈ twoFilesEntry.files, ∃ payload flags op d, getBlobFromPack content f.hash = .ok (some (payload, flags)) ∧
      writeFileFromPack content f.hash = .ok (some op) ∧ twoFiles.fopen f.filename = some d ∧
      writeFile twoFilesEnv [op] = .ok d := by
  have hpasses : (writePack twoFilesEnv twoFiles letterTreeOptions (fun _ => none) twoFilesEntry).passes (fun _ =>
      ∀ f ∈ twoFilesEntry.files, (outOf twoFilesEnv (payloadOp twoFiles f)).passes (fun p =>
        p.length = minSize f) = true) = true := by decide +kernel
  obtain ⟨⟨entry', dir'⟩, hw, hpayload⟩ := Exec.of_passes hpasses
  have hpayload := of_decide_eq_true hpayload
  have hinflates : ∀ f ∈ twoFilesEntry.files, ∀ d ∈ twoFiles.fopen f.filename,
      (converted twoFilesEnv .zcompress d).passes (fun z => converted twoFilesEnv .zuncompress z = .ok d) = true := by
    decide +kernel
  obtain ⟨name, content, _, hdir, hsize, _, hfound⟩ := pack_roundtrip twoFilesEnv_noReflink hw (by decide)
    (fun f hf p hp => by
      have hlen := hpayload f hf
      rw [hp] at hlen
      exact of_decide_eq_true hlen)
    (by decide) (by decide) (by decide)
    (fun f hf d hd z hz => by
      have hback := hinflates f hf d hd
      rw [hz] at hback
      exact of_decide_eq_true hback)
  refine ⟨entry', dir', name, content, hw, hdir, hsize, fun f hf => ?_⟩
  have hsha1 : f.hash.hashtype = hashtypeSha1 := by
    have hall : ∀ f ∈ twoFilesEntry.files, f.hash.hashtype = hashtypeSha1 := by decide
    exact hall f hf
  obtain ⟨payload, flags, op, d, _, hget, hop, hd, hwrite⟩ := (hfound f.hash hsha1).2 f hf rfl
  exact ⟨payload, flags, op, d, hget, hop, hd, hwrite⟩

end Sfmf
