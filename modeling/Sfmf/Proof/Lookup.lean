import Sfmf.Proof.Classify
import Sfmf.Proof.PackRun

/-!
# What the unpacker makes of a manifest that was packed

* `ReadsBack.search`: where a hash is found.
* `ResultFor`: the blob result that fits an entry.
* `PackRun.classifyEntry`, `PackRun.classify`: the entries get such results.
-/

namespace Sfmf

variable {E : Env} {D : SourceTree} {opts : PackOptions} {metaFile : Bytes} {outDir : Dir} {walk : List CString}
  {P : Packed} {m : Manifest}

/-! ## The search -/

/-- **Where a hash is found**, without local files: in the included blobs, else in the packs, else it is
that of a full blob. -/
theorem ReadsBack.search {files : List FileEntry} {packs : List PackEntry} {included : List FileEntry} {bytes : Bytes}
    (RB : ReadsBack E D.toDisk opts files packs included bytes m)
    (hinc : ∀ f ∈ included, f.hash.hashtype = hashtypeSha1)
    (hpack : ∀ p ∈ packs, ∀ f ∈ p.files, f.hash.hashtype = hashtypeSha1)
    {L : Disk} {h : SfmfFileHash} (hh : h.hashtype = hashtypeSha1) :
    ∃ r, searchBlobHash E L m h [] = .ok (r, []) ∧
      ((∃ (i : ℕ) (g : FileEntry) (b : SfmfBlobEntry), included[i]? = some g ∧ m.bentries[i]? = some b ∧
          g.hash = h ∧ r = .included b) ∨
        ((∀ g ∈ included, g.hash ≠ h) ∧
          ((∃ (i : ℕ) (p : PackEntry) (e : SfmfPackEntry), packs[i]? = some p ∧ m.pentries[i]? = some e ∧
              (∃ g ∈ p.files, g.hash = h) ∧ r = .packed e) ∨
            ((∀ p ∈ packs, ∀ g ∈ p.files, g.hash ≠ h) ∧ r = .full)))) := by
  -- each pack has its hashes
  have hzip : ∀ x ∈ m.pentries.zip m.packHashes, ∃ (i : ℕ) (p : PackEntry), packs[i]? = some p ∧
      m.pentries[i]? = some x.1 ∧ x.2 = p.files.map (·.hash) := by
    intro x hx
    obtain ⟨i, hi, rfl⟩ := List.getElem_of_mem hx
    obtain ⟨h₁, h₂⟩ := List.getElem?_zip_eq_some.1 (List.getElem?_eq_getElem hi)
    have hi' : i < packs.length := RB.pentries_length ▸ (List.getElem?_eq_some_iff.1 h₁).1
    obtain ⟨e, _, _, _, hhashes⟩ := RB.pentries i packs[i] (List.getElem?_eq_getElem hi')
    rw [h₂, Option.some.injEq] at hhashes
    exact ⟨i, packs[i], List.getElem?_eq_getElem hi', h₁, hhashes⟩
  have hfind : m.bentries.findM? (fun entry => sfmfFilehashCompare h entry.hash) =
      .ok (m.bentries.find? fun entry => h = entry.hash) := by
    refine findM_ok fun b hb => sfmfFilehashCompare_eq hh ?_
    obtain ⟨i, g, hg, _, hbg⟩ := RB.blob_of_mem hb
    rw [hbg]
    exact hinc g (List.mem_of_getElem? hg)
  have hfindPack : (m.pentries.zip m.packHashes).findM? (fun pack => pack.2.anyM (sfmfFilehashCompare h)) =
      .ok ((m.pentries.zip m.packHashes).find? fun pack => pack.2.any fun x => h = x) := by
    refine findM_ok fun x hx => anyM_ok fun y hy => sfmfFilehashCompare_eq hh ?_
    obtain ⟨i, p, hp, _, hxs⟩ := hzip x hx
    rw [hxs] at hy
    obtain ⟨g, hg, rfl⟩ := List.mem_map.1 hy
    exact hpack p (List.mem_of_getElem? hp) g hg
  unfold searchBlobHash
  rw [hfind]
  cases hb : m.bentries.find? fun entry => h = entry.hash with
  | some b =>
    obtain ⟨i, g, hg, hbi, hbg⟩ := RB.blob_of_mem (List.mem_of_find?_eq_some hb)
    have hhash : h = b.hash := by simpa using List.find?_some hb
    exact ⟨.included b, rfl, .inl ⟨i, g, b, hg, hbi, by rw [hhash, hbg], rfl⟩⟩
  | none =>
    have hno : ∀ g ∈ included, g.hash ≠ h := by
      intro g hg he
      obtain ⟨i, hi, rfl⟩ := List.getElem_of_mem hg
      obtain ⟨e, _, hei, hhash, _⟩ := RB.bentries i included[i] (List.getElem?_eq_getElem hi)
      have := List.find?_eq_none.1 hb e (List.mem_of_getElem? hei)
      simp [hhash, he] at this
    have hlocal : searchLocal E L h [] = .ok (none, []) := rfl
    simp only [ok_bind, hlocal, hfindPack]
    cases hx : (m.pentries.zip m.packHashes).find? fun pack => pack.2.any fun x => h = x with
    | some x =>
      obtain ⟨i, p, hp, hpe, hxs⟩ := hzip x (List.mem_of_find?_eq_some hx)
      have hany := List.find?_some hx
      rw [List.any_eq_true] at hany
      obtain ⟨y, hy, he⟩ := hany
      rw [hxs] at hy
      obtain ⟨g, hg, rfl⟩ := List.mem_map.1 hy
      exact ⟨.packed x.1, rfl, .inr ⟨hno, .inl ⟨i, p, x.1, hp, hpe, ⟨g, hg, (of_decide_eq_true he).symm⟩, rfl⟩⟩⟩
    | none =>
      refine ⟨.full, rfl, .inr ⟨hno, .inr ⟨fun p hp g hg he => ?_, rfl⟩⟩⟩
      obtain ⟨i, hi, rfl⟩ := List.getElem_of_mem hp
      obtain ⟨e, hei, _, _, hhashes⟩ := RB.pentries i packs[i] (List.getElem?_eq_getElem hi)
      have hz : (m.pentries.zip m.packHashes)[i]? = some (e, packs[i].files.map (·.hash)) :=
        List.getElem?_zip_eq_some.2 ⟨hei, hhashes⟩
      have := List.find?_eq_none.1 hx _ (List.mem_of_getElem? hz)
      rw [List.any_eq_true] at this
      exact this ⟨g.hash, List.mem_map.2 ⟨g, hg, rfl⟩, decide_eq_true he.symm⟩

/-! ## The result of an entry -/

/-- **The blob result that fits an entry**: where the kept file with its hash went. -/
inductive ResultFor (P : Packed) (m : Manifest) (f : FileEntry) : BlobResult → Prop
  | hardlink : sIsreg f.st.stMode → isHardlink f → ResultFor P m f .hardlink
  | empty : ¬ Stored f → ResultFor P m f .empty
  | included {i : ℕ} {g : FileEntry} {b : SfmfBlobEntry} : Stored f → P.buckets.includedFiles[i]? = some g →
      m.bentries[i]? = some b → g.hash = f.hash → ResultFor P m f (.included b)
  | packed {i : ℕ} {p : PackEntry} {e : SfmfPackEntry} {g : FileEntry} : Stored f → P.packs[i]? = some p →
      m.pentries[i]? = some e → g ∈ p.files → g.hash = f.hash → ResultFor P m f (.packed e)
  | full {g : FileEntry} : Stored f → g ∈ P.buckets.unpackedFiles → g.hash = f.hash → ResultFor P m f .full

/-- The types of entries. -/
theorem manifestEntryType_cases {f : FileEntry} {type : EntryType} (h : manifestEntryType f = .ok type) :
    (sIsreg f.st.stMode ∧ isHardlink f ∧ type = entryHardlink) ∨
      (sIsreg f.st.stMode ∧ ¬ isHardlink f ∧ type = entryFile) ∨
      (sIslnk f.st.stMode ∧ type = entrySymlink) ∨ (sIsdir f.st.stMode ∧ type = entryDirectory) ∨
      (sIschr f.st.stMode ∧ type = entryCharacter) ∨ (sIsblk f.st.stMode ∧ type = entryBlock) ∨
      (sIsfifo f.st.stMode ∧ type = entryFifo) := by
  unfold manifestEntryType at h
  simp only at h
  split at h
  case isTrue hr =>
    by_cases hl : f.duplicate = true ∧ f.hardlinkIndex ≠ -1
    · rw [if_pos hl] at h
      exact .inl ⟨hr, hl, (Except.ok.inj h).symm⟩
    · rw [if_neg hl] at h
      exact .inr (.inl ⟨hr, hl, (Except.ok.inj h).symm⟩)
  refine .inr (.inr ?_)
  split at h
  case isTrue hl => exact .inl ⟨hl, (Except.ok.inj h).symm⟩
  refine .inr ?_
  split at h
  case isTrue hd => exact .inl ⟨hd, (Except.ok.inj h).symm⟩
  refine .inr ?_
  split at h
  case isTrue hc => exact .inl ⟨hc, (Except.ok.inj h).symm⟩
  refine .inr ?_
  split at h
  case isTrue hb => exact .inl ⟨hb, (Except.ok.inj h).symm⟩
  refine .inr ?_
  split at h
  case isTrue hp => exact ⟨hp, (Except.ok.inj h).symm⟩
  cases h

/-- The type of an entry is that of a hard link exactly for a regular file that refers to another one. -/
theorem manifestEntryType_hardlink {f : FileEntry} {type : EntryType} (h : manifestEntryType f = .ok type) :
    type = entryHardlink ↔ sIsreg f.st.stMode ∧ isHardlink f := by
  rcases manifestEntryType_cases h with ⟨hr, hl, rfl⟩ | ⟨_, hl, rfl⟩ | ⟨ht, rfl⟩ | ⟨ht, rfl⟩ | ⟨ht, rfl⟩ | ⟨ht, rfl⟩ |
    ⟨ht, rfl⟩
  · exact ⟨fun _ => ⟨hr, hl⟩, fun _ => rfl⟩
  · exact ⟨fun h => absurd h (by decide), fun h => absurd h.2 hl⟩
  all_goals exact ⟨fun h => absurd h (by decide), fun h => absurd (hasType_inj ht h.1) (by decide)⟩

/-- The type of an entry is that of a file exactly for a regular file that is no hard link. -/
theorem manifestEntryType_file {f : FileEntry} {type : EntryType} (h : manifestEntryType f = .ok type) :
    type = entryFile ↔ sIsreg f.st.stMode ∧ ¬ isHardlink f := by
  rcases manifestEntryType_cases h with ⟨_, hl, rfl⟩ | ⟨hr, hl, rfl⟩ | ⟨ht, rfl⟩ | ⟨ht, rfl⟩ | ⟨ht, rfl⟩ | ⟨ht, rfl⟩ |
    ⟨ht, rfl⟩
  · exact ⟨fun h => absurd h (by decide), fun h => absurd hl h.2⟩
  · exact ⟨fun _ => ⟨hr, hl⟩, fun _ => rfl⟩
  all_goals exact ⟨fun h => absurd h (by decide), fun h => absurd (hasType_inj ht h.1) (by decide)⟩

theorem manifestEntryType_symlink {f : FileEntry} {type : EntryType} (h : manifestEntryType f = .ok type)
    (hl : sIslnk f.st.stMode) : type = entrySymlink := by
  have hne : ∀ {t : UInt32}, t ≠ 0o120000 → ¬ hasType f.st.stMode t := fun hne ht => hne (hasType_inj ht hl)
  rcases manifestEntryType_cases h with ⟨ht, _⟩ | ⟨ht, _⟩ | ⟨_, rfl⟩ | ⟨ht, _⟩ | ⟨ht, _⟩ | ⟨ht, _⟩ | ⟨ht, _⟩
  case inr.inr.inl => rfl
  all_goals exact absurd ht (hne (by decide))

theorem manifestEntryType_directory {f : FileEntry} {type : EntryType} (h : manifestEntryType f = .ok type)
    (hd : sIsdir f.st.stMode) : type = entryDirectory := by
  have hne : ∀ {t : UInt32}, t ≠ 0o040000 → ¬ hasType f.st.stMode t := fun hne ht => hne (hasType_inj ht hd)
  rcases manifestEntryType_cases h with ⟨ht, _⟩ | ⟨ht, _⟩ | ⟨ht, _⟩ | ⟨_, rfl⟩ | ⟨ht, _⟩ | ⟨ht, _⟩ | ⟨ht, _⟩
  case inr.inr.inr.inl => rfl
  all_goals exact absurd ht (hne (by decide))

/-! ## Classification -/

/-- There are as many lists of hashes as packs. -/
theorem readManifest_packHashes {d : Bytes} (h : readManifest d = .ok m) : m.packHashes.length = m.pentries.length := by
  simp only [readManifest, readTables, bind_ok, pure_eq_ok, Except.ok.injEq] at h
  obtain ⟨⟨header, pos⟩, -, ⟨metadata, pos₁⟩, -, ⟨names, pos₂⟩, -, hashes, hhashes, rfl⟩ := h
  exact (mapM_ok.1 hhashes).length_eq.symm

section

variable (R : PackRun E D opts metaFile outDir walk P)
  (RB : ReadsBack E D.toDisk (withMetadata opts metaFile) P.files P.packs P.buckets.includedFiles P.manifest m)

include R

/-- The size in the hash of an entry tells whether its content is stored. -/
theorem PackRun.hash_size {f : FileEntry} (hf : f ∈ P.files) : f.hash.size > 0 ↔ Stored f := by
  have h := R.listed hf
  constructor
  · intro hsize hskip
    rw [(h.other hskip).2] at hsize
    exact absurd hsize (by decide)
  · intro hs
    obtain ⟨d, _, hlen, hhash⟩ := h.stored hs
    have hlt := R.size_lt hf (stored_type hs)
    have h0 : f.st.stSize ≠ 0 := fun h0 => hs (.inl h0)
    rw [hhash, gt_iff_lt, UInt32.lt_iff_toNat_lt, hashOf, hlen, ofNat_toNat_of_lt (by omega)]
    exact Nat.pos_of_ne_zero h0

theorem PackRun.hash_sha1 {f : FileEntry} (hf : f ∈ P.files) (hs : Stored f) : f.hash.hashtype = hashtypeSha1 := by
  obtain ⟨d, _, _, hhash⟩ := (R.listed hf).stored hs
  rw [hhash]
  rfl

include RB

/-- The hashes of the blob entries are SHA-1. -/
theorem PackRun.blobs_sha1 : ∀ b ∈ m.bentries, b.hash.hashtype = hashtypeSha1 := by
  intro b hb
  obtain ⟨_, g, hg, -, hhash⟩ := RB.blob_of_mem hb
  obtain ⟨hgm, hgk⟩ := R.included (List.mem_of_getElem? hg)
  rw [hhash]
  exact R.hash_sha1 hgm hgk.1

/-- So are those of the packs. -/
theorem PackRun.packHashes_sha1 (hm : readManifest P.manifest = .ok m) :
    ∀ hashes ∈ m.packHashes, ∀ h ∈ hashes, h.hashtype = hashtypeSha1 := by
  intro hashes hhashes h hh
  have hlen : m.packHashes.length = P.packs.length := by rw [readManifest_packHashes hm, RB.pentries_length]
  obtain ⟨_, p, hp, -, rfl⟩ := exists_getElem?_of_mem (r := fun p hashes => hashes = p.files.map (·.hash)) hlen
    (fun i p hp => by
      obtain ⟨_, -, -, -, hget⟩ := RB.pentries i p hp
      exact ⟨_, hget, rfl⟩) hhashes
  obtain ⟨g, hg, rfl⟩ := List.mem_map.1 hh
  obtain ⟨hgm, hgk, -⟩ := R.packed (List.mem_of_getElem? hp) hg
  exact R.hash_sha1 hgm hgk.1

/-- **The search finds what was done with the content** of an entry. -/
theorem PackRun.search {L : Disk} {f : FileEntry} (hf : f ∈ P.files) (hs : Stored f) :
    ∃ r, searchBlobHash E L m f.hash [] = .ok (r, []) ∧ ResultFor P m f r ∧ r ≠ .hardlink := by
  obtain ⟨_, cutoff, _, _, H⟩ := R.ok
  obtain ⟨r, hr, hcase⟩ := RB.search (fun g hg => R.hash_sha1 (R.included hg).1 (R.included hg).2.1)
    (fun p hp g hg => R.hash_sha1 (R.packed hp hg).1 (R.packed hp hg).2.1.1) (L := L) (R.hash_sha1 hf hs)
  refine ⟨r, hr, ?_⟩
  rcases hcase with ⟨i, g, b, hg, hb, hh, rfl⟩ | ⟨hno, ⟨i, p, e, hp, he, ⟨g, hg, hh⟩, rfl⟩ | ⟨hnopack, rfl⟩⟩
  · exact ⟨.included hs hg hb hh, by simp⟩
  · exact ⟨.packed hs hp he hg hh, by simp⟩
  · -- the kept entry with this hash is in a bucket, and it can only be the last one
    obtain ⟨i, hi, rfl⟩ := List.getElem_of_mem hf
    obtain ⟨j, _, g, hg, hk, hh⟩ := R.deduplicated.first (List.getElem?_eq_getElem hi) hs
    have hgm := List.mem_of_getElem? hg
    obtain ⟨b, hb⟩ : ∃ b, bucketFor opts cutoff g = some b := R.kept_bucket hgm hk
    refine ⟨.full hs (H.mem_unpacked.2 ⟨hgm, ?_⟩) hh, by simp⟩
    cases b with
    | included => exact absurd hh (hno g (H.mem_included.2 ⟨hgm, hb⟩))
    | packed =>
      have hmem := H.packs_perm.1.symm.subset (H.mem_packed.2 ⟨hgm, hb⟩)
      obtain ⟨p, hp, hgp⟩ := List.mem_flatMap.1 hmem
      exact absurd hh (hnopack p hp g hgp)
    | unpacked => exact hb

/-- **The classification of an entry.** -/
theorem PackRun.classifyEntry {U : UnpackOptions} {f : FileEntry} {e : SfmfFileEntry} (hf : f ∈ P.files)
    (he : EntryReadsBack (withMetadata opts metaFile) m f e) :
    ∃ name r, getFileBasename opts.inDir f.filename = .ok name ∧
      unpackClassifyEntry E U m [] e = .ok (⟨e, r, U.outputdir ++ name⟩, []) ∧ ResultFor P m f r ∧
      (e.type = entryHardlink ↔ r = .hardlink) := by
  obtain ⟨name, hname, hat⟩ := he.filename
  have htype := manifestEntryType_hardlink he.type
  have hsize : e.hash.size > 0 ↔ Stored f := by rw [he.hash]; exact R.hash_size hf
  have hsha : e.hash.size > 0 → e.hash.hashtype = hashtypeSha1 := fun h => he.hash ▸ R.hash_sha1 hf (hsize.1 h)
  by_cases hl : e.type = entryHardlink
  · obtain ⟨hr, hlink⟩ := htype.1 hl
    exact ⟨name, .hardlink, hname, unpackClassifyEntry_iff.2 ⟨name, .hardlink, hat, rfl, hsha, .inl ⟨hl, rfl, rfl⟩⟩,
      .hardlink hr hlink, by simp [hl]⟩
  by_cases hs : Stored f
  · obtain ⟨r, hr, hfor, hne⟩ := R.search RB hf hs (L := U.localDisk)
    rw [← he.hash] at hr
    exact ⟨name, r, hname, unpackClassifyEntry_iff.2 ⟨name, r, hat, rfl, hsha, .inr (.inl ⟨hl, hsize.2 hs, hr⟩)⟩,
      hfor, by simp [hl, hne]⟩
  · exact ⟨name, .empty, hname, unpackClassifyEntry_iff.2 ⟨name, .empty, hat, rfl, hsha,
      .inr (.inr ⟨hl, mt hsize.1 hs, rfl, rfl⟩)⟩, .empty hs, by simp [hl]⟩

/-- **The classification of all entries**: none of them fails, and each gets a result that fits. -/
theorem PackRun.classify (U : UnpackOptions) : ∃ us, classifyEntries E U m [] m.fentries = .ok (us, []) ∧
    us.length = P.files.length ∧ ∀ (i : ℕ) (f : FileEntry), P.files[i]? = some f → ∃ u name,
      us[i]? = some u ∧ m.fentries[i]? = some u.entry ∧ EntryReadsBack (withMetadata opts metaFile) m f u.entry ∧
      getFileBasename opts.inDir f.filename = .ok name ∧ u.targetFilename = U.outputdir ++ name ∧
      ResultFor P m f u.blobResult ∧ (u.entry.type = entryHardlink ↔ u.blobResult = .hardlink) := by
  have hentry : ∀ e ∈ m.fentries, ∃ u, unpackClassifyEntry E U m [] e = .ok (u, []) := by
    intro e he
    obtain ⟨f, hf, hback⟩ := RB.tables.file_of_mem he
    obtain ⟨name, r, _, hu, _⟩ := R.classifyEntry RB (U := U) hf hback
    exact ⟨_, hu⟩
  obtain ⟨us, hus, hall⟩ := classifyEntries_total hentry
  have hlen : us.length = P.files.length := by rw [← hall.length_eq, RB.fentries_length]
  refine ⟨us, hus, hlen, fun i f hf => ?_⟩
  obtain ⟨e, he, hback⟩ := RB.fentries i f hf
  obtain ⟨hi, rfl⟩ := List.getElem?_eq_some_iff.1 he
  have hi' : i < us.length := hall.length_eq ▸ hi
  have hu := hall.get hi hi'
  simp only [List.get_eq_getElem] at hu
  obtain ⟨name, r, hname, hu', hfor, hlink⟩ := R.classifyEntry RB (U := U) (List.mem_of_getElem? hf) hback
  rw [hu] at hu'
  obtain ⟨huu, -⟩ := Prod.mk.inj (Except.ok.inj hu')
  refine ⟨us[i], name, List.getElem?_eq_getElem hi', ?_⟩
  rw [huu]
  exact ⟨he, hback, hname, rfl, hfor, hlink⟩

end

end Sfmf
