import Sfmf.Proof.Mirror

/-!
# A manifest that is cut short

The manifest is downloaded without a hash to check it against, so it may end
early. The reads of the header, the metadata, the names and the hashes of the packs
are checked; those of the three tables are not, and a record that is not there
stays zero.

* `RegionsOf.readManifest_cut`: what is read of a manifest that is cut before the end
  of the blob entries.
* `searchBlobHash_cut`, `PackedLists.classify_fails`: a blob entry of zeros stops the search for a content.
* `CutUnnoticed`: the cuts that nothing notices.
* `truncated_noticed_iff`: they are exactly those at which a run can succeed.
-/

namespace Sfmf

variable {E : Env} {opts : PackOptions} {files : List FileEntry} {packs : List PackEntry} {included : List FileEntry}
  {r : Regions}

/-! ## What is read -/

/-- Hashes behind the end of the file are read only if there are none. -/
theorem readPackHashes_beyond {d : Bytes} {pos : ℕ} (h : d.length ≤ pos) (n : ℕ) :
    readPackHashes d pos n = if n = 0 then .ok [] else .error (.assertion "res == 1") := by
  cases n with
  | zero => rfl
  | succ n =>
    have hread : fread d pos sfmfFileHashSize = (none, max pos d.length) := by
      unfold fread
      rw [if_neg (by decide), if_neg (by simp only [sfmfFileHashSize]; omega)]
    simp [readPackHashes, freadOne, hread]

/-- **What is read of a manifest that is cut before the end of its blob entries**: nothing of the packs,
whose hashes would be missing. -/
theorem RegionsOf.readManifest_cut {bytes rest : Bytes} (h : RegionsOf opts files packs included r)
    (hmeta : opts.metadataBytes ≠ []) (hfiles : files ≠ []) (hfilled : ∀ p ∈ packs, p.files ≠ [])
    (hbytes : bytes = r.head opts.metadataBytes ++ (packs.map packHashBytes).flatten ++ rest)
    (hlen : bytes.length < 2 ^ 32) {k : ℕ} (hk : k < r.header.endBlobs) {m : Manifest} :
    readManifest (bytes.take k) = .ok m ↔ r.header.endNames ≤ k ∧
      (packs = [] ∨ k < r.header.endEntries + sfmfPackEntrySize) ∧
      m = r.cut opts.metadataBytes k (List.replicate packs.length []) := by
  have htotal := regions_total_lt hbytes hlen
  have hsized := h.sized (by omega)
  have hend := hsized.endBlobs
  have hle : k ≤ bytes.length := by rw [hbytes, List.length_append, List.length_append]; omega
  have hpl := h.packEntries_length
  rw [h.readManifest_take hmeta hfiles (hbytes.trans (List.append_assoc _ _ _)) hsized hle]
  by_cases hnames : r.header.endNames ≤ k
  case neg => simp [hnames]
  rw [if_pos hnames, map_ok]
  set n := (k - r.header.endEntries) / sfmfPackEntrySize with hn
  have hn0 : n = 0 ↔ k < r.header.endEntries + sfmfPackEntrySize := by
    rw [hn, Nat.div_eq_zero_iff]
    simp only [sfmfPackEntrySize]
    omega
  -- unless a pack entry was read, there are no hashes to read
  have hzeros : packs = [] ∨ n = 0 → ∀ hashes, ((cutTable r.packEntries .zero n).mapM fun entry =>
      readPackHashes (bytes.take k) entry.offset.toNat entry.count.toNat) = .ok hashes ↔
        hashes = List.replicate packs.length [] := by
    intro hnone hashes
    have hcut : cutTable r.packEntries .zero n = List.replicate packs.length .zero := by
      rcases hnone with rfl | hn0
      · rw [List.eq_nil_of_length_eq_zero hpl, cutTable_full (Nat.zero_le n)]
        rfl
      · rw [hn0, cutTable_zero, hpl]
    have hzero := mapM_replicate (f := fun entry : SfmfPackEntry =>
      readPackHashes (bytes.take k) entry.offset.toNat entry.count.toNat) (a := .zero) (b := []) rfl packs.length
    rw [hcut, hzero, Except.ok.injEq, eq_comm]
  constructor
  · rintro ⟨hashes, hread, rfl⟩
    have hnone : packs = [] ∨ n = 0 := by
      by_contra hno
      obtain ⟨hne, hn1⟩ := not_or.1 hno
      obtain ⟨p, ps, rfl⟩ := List.exists_cons_of_ne_nil hne
      -- the first pack was read, but its hashes are behind the cut
      have hget := (manifestPacks_eq (p :: ps) (r.head opts.metadataBytes).length).2.2 0 p rfl
      rw [← h.manifestOffset, ← h.packEntries, offset_zero, Nat.add_zero] at hget
      obtain ⟨hs, hfirst⟩ := mapM_mem hread (mem_cutTable_of_lt (Nat.pos_of_ne_zero hn1) hget .zero)
      have hoff : (UInt32.ofNat (r.head opts.metadataBytes).length).toNat = (r.head opts.metadataBytes).length :=
        ofNat_toNat_of_lt (by omega)
      have hcount : (UInt32.ofNat p.files.length).toNat = p.files.length := by
        refine ofNat_toNat_of_lt ?_
        have hp := packHashBytes_length p
        simp only [sfmfFileHashSize] at hp
        simp only [List.map_cons, List.sum_cons] at htotal
        omega
      have hpos : p.files.length ≠ 0 := fun h0 => hfilled p List.mem_cons_self (List.eq_nil_of_length_eq_zero h0)
      simp only [hoff, hcount] at hfirst
      rw [readPackHashes_beyond (by rw [List.length_take]; omega), if_neg hpos] at hfirst
      cases hfirst
    exact ⟨hnames, hnone.imp_right hn0.1, by rw [(hzeros hnone hashes).1 hread]⟩
  · rintro ⟨_, hcut, rfl⟩
    exact ⟨_, (hzeros (hcut.imp_right hn0.2) _).2 rfl, rfl⟩

/-! ## What stops -/

/-- **A blob entry of zeros stops the search** for a content that no entry before it has. -/
theorem searchBlobHash_cut {m : Manifest} {blobs : List SfmfBlobEntry} {n : ℕ} (hm : m.bentries = cutTable blobs .zero n)
    (hn : n < blobs.length) {h : SfmfFileHash} (hno : ∀ b ∈ blobs.take n, b.hash ≠ h) {L : Disk}
    {ls : List FileEntry} {x : BlobResult × List FileEntry} : searchBlobHash E L m h ls ≠ .ok x := by
  intro hs
  simp only [searchBlobHash, bind_ok] at hs
  obtain ⟨found, hfind, _⟩ := hs
  obtain ⟨l, hl⟩ : ∃ l, List.replicate (blobs.length - n) SfmfBlobEntry.zero = .zero :: l := by
    obtain ⟨k, hk⟩ := Nat.exists_eq_succ_of_ne_zero (show blobs.length - n ≠ 0 by omega)
    exact ⟨_, by rw [hk, List.replicate_succ]⟩
  rw [hm, cutTable, hl] at hfind
  obtain ⟨t, ht⟩ := findM_reaches hfind fun b hb htrue => by
    obtain ⟨_, _, heq⟩ := sfmfFilehashCompare_ok.1 htrue
    exact hno b hb (of_decide_eq_true heq.symm).symm
  obtain ⟨_, hzero, _⟩ := sfmfFilehashCompare_ok.1 ht
  exact absurd hzero (by decide)

/-! ## The manifest of a run -/

/-- **What a run of the packer knows of the lists it writes a manifest of**: contents have hashes, and
what is in the manifest or in a pack is kept and has a content. -/
structure PackedLists (opts : PackOptions) (P : Packed) (r : Regions) : Prop where
  regions : RegionsOf opts P.files P.packs P.buckets.includedFiles r
  metadata : opts.metadataBytes ≠ []
  nonempty : P.files ≠ []
  bytes : ∃ rest, P.manifest = r.head opts.metadataBytes ++ (P.packs.map packHashBytes).flatten ++ rest
  hashed : ∀ f ∈ P.files, f.hash.size ≠ 0 → Stored f ∧ f.hash.hashtype = hashtypeSha1
  deduplicated : Deduplicated P.files
  included : ∀ f ∈ P.buckets.includedFiles, f ∈ P.files ∧ Kept f ∧ f.hash.size ≠ 0
  included_nodup : (P.buckets.includedFiles.map (·.hash)).Nodup
  filled : ∀ p ∈ P.packs, p.files ≠ [] ∧ ∀ f ∈ p.files, f ∈ P.files ∧ f.hash.size ≠ 0

/-- A hash of size 0 is that of an entry without a size to store. -/
theorem Listed.hash_size {D : SourceTree} {f : FileEntry} (h : Listed E D f) (hs : Stored f) (hpos : 0 < minSize f) :
    f.hash.size ≠ 0 := by
  obtain ⟨d, _, hlen, hhash⟩ := h.stored hs
  rw [hhash]
  change UInt32.ofNat d.length ≠ 0
  rw [hlen]
  intro h0
  rw [minSize, fileentryGetMinSize, h0] at hpos
  have hno : ¬ (f.zsize > 0 ∧ f.zsize < 0) := fun h => absurd h.2 (UInt32.not_lt_zero)
  rw [if_neg hno] at hpos
  exact absurd hpos (by decide)

theorem packMain_lists {D : SourceTree} {metaFile : Bytes} {outDir : Dir} {walk : List CString} {P : Packed}
    (h : packMain E D.toDisk opts metaFile outDir walk = .ok P) (hE : E.NoReflink) :
    ∃ r, PackedLists (withMetadata opts metaFile) P r := by
  obtain ⟨⟨files, cutoff, blobs, packs, H⟩, hlisted, hdedup, _⟩ := packMain_ok h
  obtain ⟨hmeta, r, ps, hregions, _, hbytes⟩ := writeManifest_ok hE H.manifest
  have hbucket : ∀ {f : FileEntry} {b : Bucket}, f ∈ P.files → bucketFor (withMetadata opts metaFile) cutoff f = some b →
      Kept f ∧ f.hash.size ≠ 0 := by
    intro f b hf hb
    have hk := kept_of_bucket hb
    exact ⟨hk, (hlisted f hf).hash_size hk.1 (bucketOf_some hb).2.1⟩
  refine ⟨r, hregions, hmeta, H.nonempty, ⟨_, hbytes⟩, fun f hf h0 => ?_, hdedup, fun f hf => ?_,
    H.included_nodup hdedup, fun p hp => ?_⟩
  · have hs : Stored f := fun hskip => h0 (by rw [((hlisted f hf).other hskip).2]; rfl)
    obtain ⟨d, _, _, hhash⟩ := (hlisted f hf).stored hs
    exact ⟨hs, by rw [hhash]; rfl⟩
  · obtain ⟨hf', hb⟩ := H.mem_included.1 hf
    exact ⟨hf', hbucket hf' hb⟩
  · refine ⟨(H.packs_perm.2 p hp).files, fun f hf => ?_⟩
    obtain ⟨hf', hb⟩ := H.mem_packed.1 (H.packs_perm.1.subset (List.mem_flatMap.2 ⟨p, hp, hf⟩))
    exact ⟨hf', (hbucket hf' hb).2⟩

/-! ## The cuts that nothing notices -/

/-- **A cut that nothing notices**: it is behind the names, and either there are no blob entries to miss
and no pack entry was read, or no entry with a content was read. -/
def CutUnnoticed (P : Packed) (k : ℕ) : Prop :=
  let header := SfmfFileHeader.decode P.manifest
  header.endNames ≤ k ∧ ((header.blobsLength = 0 ∧ k < header.endEntries + sfmfPackEntrySize) ∨
    ∀ f ∈ P.files.take ((k - header.endNames) / sfmfFileEntrySize), f.hash.size = 0)

instance (P : Packed) (k : ℕ) : Decidable (CutUnnoticed P k) := by unfold CutUnnoticed; infer_instance

section

variable {P : Packed} (W : PackedLists opts P r)

include W

theorem PackedLists.head_lt (hlen : P.manifest.length < 2 ^ 32) : (r.head opts.metadataBytes).length < 2 ^ 32 := by
  obtain ⟨rest, hbytes⟩ := W.bytes
  rw [hbytes, List.length_append, List.length_append] at hlen
  omega

theorem PackedLists.names_lt (hlen : P.manifest.length < 2 ^ 32) : (filenameTable r.names).length < 2 ^ 32 := by
  have hhead := W.head_lt hlen
  rw [r.head_length] at hhead
  omega

/-- The header is in front. -/
theorem PackedLists.header : SfmfFileHeader.decode P.manifest = r.header := by
  obtain ⟨rest, hbytes⟩ := W.bytes
  rw [hbytes]
  simp [Regions.head, SfmfFileHeader.decode, SfmfFileHeader.encode]

/-- Where the first disjunct of `CutUnnoticed` ends, there are packs. -/
theorem PackedLists.blobsLength (hlen : P.manifest.length < 2 ^ 32) :
    r.header.blobsLength = 0 ↔ P.buckets.includedFiles = [] := by
  rw [← UInt32.toNat_inj, (W.regions.sized (W.head_lt hlen)).blobsLength, W.regions.blobs_length]
  exact List.length_eq_zero_iff

/-- **An entry with a content that no blob entry before the cut has** is not classified. -/
theorem PackedLists.classify_fails (hlen : P.manifest.length < 2 ^ 32) {k : ℕ} (hk : k < r.header.endBlobs)
    (hinc : P.buckets.includedFiles ≠ []) {i : ℕ} {f : FileEntry} (hf : P.files[i]? = some f)
    (hi : i < (k - r.header.endNames) / sfmfFileEntrySize) (hkept : Kept f) (h0 : f.hash.size ≠ 0)
    (hno : ∀ g ∈ P.buckets.includedFiles.take ((k - r.header.endPacks) / sfmfBlobEntrySize), g.hash ≠ f.hash)
    {hs : List (List SfmfFileHash)} {E : Env} {U : UnpackOptions} {ls : List FileEntry}
    {x : List UnpackFileEntry × List FileEntry} :
    classifyEntries E U (r.cut opts.metadataBytes k hs) ls (r.cut opts.metadataBytes k hs).fentries ≠ .ok x := by
  intro h
  have hsized := W.regions.sized (W.head_lt hlen)
  obtain ⟨e, he, hback⟩ := W.regions.entry (W.names_lt hlen) (m := r.cut opts.metadataBytes k hs) rfl hf
  obtain ⟨ls₁, u, ls₂, hu⟩ := classifyEntries_each h e (mem_cutTable_of_lt hi he .zero)
  obtain ⟨_, x, _, _, _, ⟨hlink, _⟩ | ⟨_, _, hsearch⟩ | ⟨_, hsize, _⟩⟩ := unpackClassifyEntry_iff.1 hu
  · have hdup := ((manifestEntryType_hardlink hback.type).1 hlink).2.1
    rw [hkept.2] at hdup
    cases hdup
  · have hblobs : (r.blobs.map (·.hash)) = P.buckets.includedFiles.map (·.hash) := by
      rw [W.regions.blobs, blobEntries_hash]
    have hcut : (k - r.header.endPacks) / sfmfBlobEntrySize < r.blobs.length := by
      have hpos : 0 < r.blobs.length := by
        rw [W.regions.blobs_length]
        exact List.length_pos_iff.2 hinc
      unfold SfmfFileHeader.endBlobs at hk
      rw [hsized.blobsLength] at hk
      exact Nat.div_lt_of_lt_mul (by simp only [sfmfBlobEntrySize] at hk ⊢; omega)
    refine searchBlobHash_cut rfl hcut (fun b hb => ?_) hsearch
    have hmem : b.hash ∈ (P.buckets.includedFiles.map (·.hash)).take ((k - r.header.endPacks) / sfmfBlobEntrySize) := by
      rw [← hblobs, ← List.map_take]
      exact List.mem_map_of_mem hb
    rw [← List.map_take] at hmem
    obtain ⟨g, hg, hgb⟩ := List.mem_map.1 hmem
    rw [← hgb, hback.hash]
    exact hno g hg
  · rw [hback.hash] at hsize
    exact hsize (UInt32.pos_iff_ne_zero.2 h0)

/-- Every entry was read if the cut is behind all of them. -/
theorem PackedLists.take_all (hlen : P.manifest.length < 2 ^ 32) {k : ℕ} (hk : r.header.endEntries ≤ k) :
    P.files.length ≤ (k - r.header.endNames) / sfmfFileEntrySize := by
  have hsized := W.regions.sized (W.head_lt hlen)
  unfold SfmfFileHeader.endEntries at hk
  rw [hsized.entriesLength, W.regions.entries_length] at hk
  rw [Nat.le_div_iff_mul_le (by decide), Nat.mul_comm]
  omega

/-- **A classification that does not fail has noticed nothing.** -/
theorem PackedLists.unnoticed (hlen : P.manifest.length < 2 ^ 32) {k : ℕ} (hk : k < r.header.endBlobs) {m : Manifest}
    (hm : readManifest (P.manifest.take k) = .ok m) {E : Env} {U : UnpackOptions} {ls : List FileEntry}
    {x : List UnpackFileEntry × List FileEntry} (hx : classifyEntries E U m ls m.fentries = .ok x) :
    CutUnnoticed P k := by
  obtain ⟨rest, hbytes⟩ := W.bytes
  have hsized := W.regions.sized (W.head_lt hlen)
  obtain ⟨hnames, hcut, rfl⟩ := (W.regions.readManifest_cut W.metadata W.nonempty (fun p hp => (W.filled p hp).1) hbytes
    hlen hk).1 hm
  simp only [CutUnnoticed, W.header]
  refine ⟨hnames, ?_⟩
  -- without blob entries only the pack entries can be missed
  by_cases hinc : P.buckets.includedFiles = []
  · refine .inl ⟨(W.blobsLength hlen).2 hinc, ?_⟩
    rcases hcut with hnone | hcut
    · have hp : r.header.packsLength.toNat = 0 := by
        rw [hsized.packsLength, W.regions.packEntries_length, hnone, List.length_nil]
      have hb : r.header.blobsLength.toNat = 0 := by rw [(W.blobsLength hlen).2 hinc]; rfl
      unfold SfmfFileHeader.endBlobs SfmfFileHeader.endPacks at hk
      rw [hp, hb] at hk
      omega
    · exact hcut
  refine .inr fun f hf => ?_
  by_contra h0
  by_cases hend : r.header.endPacks ≤ k
  · -- all entries were read, and that of the last included file, whose blob entry was not
    obtain ⟨gs, g, hgs⟩ := (List.eq_nil_or_concat P.buckets.includedFiles).resolve_left hinc
    rw [List.concat_eq_append] at hgs
    obtain ⟨hg, hkept, hg0⟩ := W.included g (by rw [hgs]; simp)
    obtain ⟨i, hi, rfl⟩ := List.getElem_of_mem hg
    have hall := W.take_all hlen (show r.header.endEntries ≤ k from (Nat.le_add_right _ _).trans hend)
    refine W.classify_fails hlen hk hinc (List.getElem?_eq_getElem hi) (hi.trans_le hall) hkept hg0 (fun g' hg' => ?_) hx
    have hmiss : (k - r.header.endPacks) / sfmfBlobEntrySize ≤ gs.length := by
      unfold SfmfFileHeader.endBlobs at hk
      rw [hsized.blobsLength, W.regions.blobs_length, hgs, List.length_append, List.length_singleton] at hk
      refine Nat.le_of_lt_succ (Nat.div_lt_of_lt_mul ?_)
      simp only [sfmfBlobEntrySize] at hk ⊢
      omega
    have hnodup := W.included_nodup
    rw [hgs, List.take_append_of_le_length hmiss] at hg'
    rw [hgs, List.map_append, List.nodup_append] at hnodup
    exact hnodup.2.2 _ (List.mem_map_of_mem (List.mem_of_mem_take hg')) _ (by simp)
  · -- no blob entry was read, and an entry with the content that is kept was
    obtain ⟨i, hi, rfl⟩ := List.getElem_of_mem hf
    rw [List.length_take] at hi
    rw [List.getElem_take] at h0
    have hi' : i < P.files.length := by omega
    obtain ⟨j, hji, g, hg, hkept, hh⟩ := W.deduplicated.first (List.getElem?_eq_getElem hi')
      (W.hashed _ (List.getElem_mem hi') h0).1
    refine W.classify_fails hlen hk hinc hg (by omega) hkept (by rw [hh]; exact h0) ?_ hx
    have hzero : (k - r.header.endPacks) / sfmfBlobEntrySize = 0 := by
      rw [Nat.sub_eq_zero_of_le (by omega), Nat.zero_div]
    rw [hzero]
    simp

/-- Without blob entries and packs a content is that of a full blob. -/
theorem PackedLists.search_full (hlen : P.manifest.length < 2 ^ 32) (hnone : r.header.blobsLength = 0) {k : ℕ}
    {L : Disk} (h : SfmfFileHash) : searchBlobHash E L (r.cut opts.metadataBytes k (List.replicate P.packs.length []))
      h [] = .ok (.full, []) := by
  have hblobs : r.blobs = [] := by
    refine List.eq_nil_of_length_eq_zero ?_
    rw [W.regions.blobs_length, (W.blobsLength hlen).1 hnone, List.length_nil]
  have hlocal : searchLocal E L h [] = .ok (none, []) := rfl
  set m := r.cut opts.metadataBytes k (List.replicate P.packs.length []) with hm
  have hfind : m.bentries.findM? (fun entry => sfmfFilehashCompare h entry.hash) = .ok none := by
    simp [hm, Regions.cut, hblobs, cutTable]
  have hpacks : (m.pentries.zip m.packHashes).findM? (fun pack => pack.2.anyM (sfmfFilehashCompare h)) = .ok none := by
    have hnone : ∀ pack ∈ m.pentries.zip m.packHashes, pack.2.anyM (sfmfFilehashCompare h) = .ok false := by
      intro pack hpack
      rw [List.eq_of_mem_replicate (List.of_mem_zip hpack).2]
      rfl
    rw [findM_ok (q := fun _ => false) hnone]
    simp
  simp only [searchBlobHash, hfind, ok_bind, hlocal, hpacks, pure_eq_ok]

/-- **A cut that nothing notices is classified**, without local files. -/
theorem PackedLists.classified (hlen : P.manifest.length < 2 ^ 32) {k : ℕ} (hk : k < r.header.endBlobs)
    (hcut : CutUnnoticed P k) (E : Env) (U : UnpackOptions) : ∃ m us, readManifest (P.manifest.take k) = .ok m ∧
      classifyEntries E U m [] m.fentries = .ok (us, []) := by
  obtain ⟨rest, hbytes⟩ := W.bytes
  simp only [CutUnnoticed, W.header] at hcut
  obtain ⟨hnames, hcase⟩ := hcut
  -- no pack entry was read
  have hpacks : P.packs = [] ∨ k < r.header.endEntries + sfmfPackEntrySize := by
    rcases hcase with h | hempty
    · exact .inr h.2
    · by_contra hno
      obtain ⟨hne, hge⟩ := not_or.1 hno
      obtain ⟨p, ps, hp⟩ := List.exists_cons_of_ne_nil hne
      obtain ⟨hfiles, hfilled⟩ := W.filled p (by rw [hp]; exact List.mem_cons_self)
      obtain ⟨f, fs, hf⟩ := List.exists_cons_of_ne_nil hfiles
      obtain ⟨hmem, h0⟩ := hfilled f (by rw [hf]; exact List.mem_cons_self)
      refine h0 (hempty f ?_)
      rw [List.take_of_length_le (W.take_all hlen (by simp only [sfmfPackEntrySize] at hge; omega))]
      exact hmem
  have hread := (W.regions.readManifest_cut W.metadata W.nonempty (fun p hp => (W.filled p hp).1) hbytes hlen hk).2
    ⟨hnames, hpacks, rfl⟩
  set m := r.cut opts.metadataBytes k (List.replicate P.packs.length []) with hm
  suffices hall : ∀ e ∈ m.fentries, ∃ u, unpackClassifyEntry E U m [] e = .ok (u, []) by
    obtain ⟨us, hus, _⟩ := classifyEntries_total hall
    exact ⟨m, us, hread, hus⟩
  intro e he
  rcases mem_cutTable he with he | rfl
  · obtain ⟨i, hi, rfl⟩ := List.getElem_of_mem he
    rw [List.length_take, W.regions.entries_length] at hi
    rw [List.getElem_take]
    have hi' : i < P.files.length := by omega
    obtain ⟨e, hei, hback⟩ := W.regions.entry (W.names_lt hlen) (m := m) rfl (List.getElem?_eq_getElem hi')
    obtain ⟨hi'', rfl⟩ := List.getElem?_eq_some_iff.1 hei
    obtain ⟨name, _, hname⟩ := hback.filename
    by_cases h0 : P.files[i].hash.size = 0
    · have hsize : ¬ r.entries[i].hash.size > 0 := by
        rw [hback.hash, h0]
        decide
      by_cases hl : r.entries[i].type = entryHardlink
      · exact ⟨_, unpackClassifyEntry_iff.2 ⟨name, .hardlink, hname, rfl, fun h => absurd h hsize, .inl ⟨hl, rfl, rfl⟩⟩⟩
      · exact ⟨_, unpackClassifyEntry_iff.2 ⟨name, .empty, hname, rfl, fun h => absurd h hsize,
          .inr (.inr ⟨hl, hsize, rfl, rfl⟩)⟩⟩
    · -- a content was read, so there are no blob entries
      have hnone : r.header.blobsLength = 0 := by
        refine (hcase.resolve_right fun hempty => h0 (hempty _ ?_)).1
        rw [← List.getElem_take (j := (k - r.header.endNames) / sfmfFileEntrySize)
          (h := by rw [List.length_take]; omega)]
        exact List.getElem_mem _
      have hsize : r.entries[i].hash.size > 0 := by
        rw [hback.hash]
        exact UInt32.pos_iff_ne_zero.2 h0
      have hsha : r.entries[i].hash.hashtype = hashtypeSha1 := by
        rw [hback.hash]
        exact (W.hashed _ (List.getElem_mem hi') h0).2
      by_cases hl : r.entries[i].type = entryHardlink
      · exact ⟨_, unpackClassifyEntry_iff.2 ⟨name, .hardlink, hname, rfl, fun _ => hsha, .inl ⟨hl, rfl, rfl⟩⟩⟩
      · exact ⟨_, unpackClassifyEntry_iff.2 ⟨name, .full, hname, rfl, fun _ => hsha,
          .inr (.inl ⟨hl, hsize, W.search_full hlen hnone _⟩)⟩⟩
  · -- an entry of zeros has the first name, and no content
    have h0 : 0 < P.files.length := List.length_pos_iff.2 W.nonempty
    have h0' : 0 < r.names.length := by rw [W.regions.names_length]; exact h0
    have hnul := getFileBasename_nul ((mapM_ok.1 W.regions.names).get h0 h0')
    have hname := filenameAt_table (m := m) rfl (W.names_lt hlen) (List.getElem?_eq_getElem h0') hnul
    rw [offset_zero] at hname
    set name := r.names[0]
    exact ⟨_, unpackClassifyEntry_iff.2 ⟨name, .empty, hname, rfl, fun h => absurd h (by decide),
      .inr (.inr ⟨by decide, by decide, rfl, rfl⟩)⟩⟩

end

/-! ## Runs on a part of the manifest -/

/-- No run of the unpacker, with whatever options, that has read the first `k` bytes in place of the
manifest reports success. -/
def Noticed (P : Packed) (k : ℕ) : Prop :=
  ∀ (E : Env) (Loc : Type) [DecidableEq Loc] (N : Naming Loc) (U : UnpackOptions) (cache : Dir) (fs : FS Loc)
    (r : Unpacked Loc), unpackMain E N U cache fs = .ok r → r.classified.data ≠ P.manifest.take k

end Sfmf
