import Mathlib.Data.List.TakeWhile
import Sfmf.Proof.Symlinks

/-!
# The contents of what is unpacked

* `PackRun.includedBlob`: an included blob gives back what it was made of.
* `PackRun.blobOps_content`: whichever way a content travels, the operations of
  the unpacker on a new file give it back.
* `PackRun.writeBlobData_restores`: so the writing of a file does not fail, and the
  file has its content.
* `PackRun.symlinkBlob`: the blob of a symlink is its target.
-/

namespace Sfmf

variable {E : Env} {D : SourceTree} {opts : PackOptions} {metaFile : Bytes} {outDir : Dir} {walk : List CString}
  {P : Packed} {m : Manifest} {U : UnpackOptions}

/-! ## Contents -/

section

variable (R : PackRun E D opts metaFile outDir walk P)

include R

theorem PackRun.inflates {f : FileEntry} (hf : f ∈ P.files) (hr : sIsreg f.st.stMode) {d : Bytes}
    (hd : D.fopen f.filename = some d) : E.Inflates d := fun z hz => (R.deflates f hf hr d hd z hz).2.2

/-- **An included blob gives back the content** it was made of. -/
theorem PackRun.includedBlob {i : ℕ} {g : FileEntry} {b : SfmfBlobEntry}
    (RB : ReadsBack E D.toDisk (withMetadata opts metaFile) P.files P.packs P.buckets.includedFiles P.manifest m)
    (hg : P.buckets.includedFiles[i]? = some g) (hb : m.bentries[i]? = some b) : ∃ data d,
      getBlobData P.manifest b = .ok data ∧ contentOf D.toDisk g = some d ∧
      (sIslnk g.st.stMode → isZcompressed b.flags = false ∧ data = d) ∧
      writeFile E [.convertBuffer data (if isZcompressed b.flags then .zuncompress else .none)] = .ok d := by
  obtain ⟨e, p, he, _, hflags, hp, hsize, hslice⟩ := RB.bentries i g hg
  rw [hb, Option.some.injEq] at he
  subst he
  have hgm := List.mem_of_getElem? hg
  obtain ⟨hgf, hgk⟩ := R.included hgm
  have hgl := R.listed hgf
  have hne : p ≠ [] := by
    have hpos := R.minSize_pos hgf hgk
    rw [← R.manifestRecorded hgm hp] at hpos
    exact List.ne_nil_of_length_pos hpos
  have hwrite : ∀ {op : StreamOp} {d : Bytes}, op.out E = .ok d → writeFile E [op] = .ok d := fun h =>
    (writeFile_ok E R.noReflink).2 ⟨[_], mapM_ok.2 (.cons h .nil), by simp⟩
  refine ⟨p, ?_⟩
  rcases hgk.type with hl | hr
  · obtain ⟨_, t, ht, _⟩ := hgl.symlink hl
    rw [manifestPayload_symlink hgl hl ht, Except.ok.injEq] at hp
    subst hp
    have hflags' : isZcompressed b.flags = false := by
      rw [hflags, zcompress_symlink hgl hl]
      rfl
    refine ⟨t, getBlobData_ok hne hsize hslice, (if_pos hl).trans ht, fun _ => ⟨hflags', rfl⟩, hwrite ?_⟩
    rw [hflags']
    exact converted_none E t
  · rw [manifestPayload_regular hr] at hp
    obtain ⟨op, hop, hout⟩ := bind_ok.1 hp
    obtain ⟨d, hd, rfl⟩ := payloadOp_ok.1 hop
    refine ⟨d, getBlobData_ok hne hsize hslice, (if_neg (sIsreg_not_sIslnk hr)).trans hd,
      fun hl => absurd hl (sIsreg_not_sIslnk hr), hwrite ?_⟩
    rw [hflags]
    exact unpayload (R.inflates hgf hr hd) hout

variable (hcoll : E.NoCollision (StoredContent D.toDisk P))

include hcoll

/-- A symlink is found among the included blobs, and it is that of a symlink. -/
theorem PackRun.symlinkBlob {f : FileEntry} {r : BlobResult}
    (RB : ReadsBack E D.toDisk (withMetadata opts metaFile) P.files P.packs P.buckets.includedFiles P.manifest m)
    (hlinks : ∀ f ∈ P.files, ∀ g ∈ P.files, sIslnk f.st.stMode → sIsreg g.st.stMode →
      D.readlink f.filename ≠ D.fopen g.filename)
    (hf : f ∈ P.files) (hl : sIslnk f.st.stMode) (hres : ResultFor P m f r) (hne : r ≠ .hardlink) :
    ∃ b t, r = .included b ∧ isZcompressed b.flags = false ∧ getBlobData P.manifest b = .ok t ∧
      D.readlink f.filename = some t ∧ t.takeWhile (· ≠ 0) = t ∧ t ≠ [] := by
  have hcont : contentOf D.toDisk f = D.readlink f.filename := if_pos hl
  obtain ⟨_, t, ht, htne, hnul, _⟩ := (R.listed hf).symlink hl
  -- no regular file is found under its hash
  have hreg : ∀ {g : FileEntry}, g ∈ P.files → Stored f → Kept g → g.hash = f.hash → ¬ sIsreg g.st.stMode := by
    intro g hg hs hk hh hr
    have hcg : contentOf D.toDisk g = D.fopen g.filename := if_neg (sIsreg_not_sIslnk hr)
    have heq := R.content_eq hcoll hf hg hs hk.1 hh
    rw [hcont, hcg] at heq
    exact hlinks f hf g hg hl hr heq.symm
  cases hres with
  | hardlink _ _ => exact absurd rfl hne
  | empty hs => exact absurd (stored_symlink (R.listed hf).lstat hl) hs
  | packed hs hp he hg hh =>
    obtain ⟨hgm, hgk, hgr⟩ := R.packed (List.mem_of_getElem? hp) hg
    exact absurd hgr (hreg hgm hs hgk hh)
  | full hs hg hh =>
    obtain ⟨hgm, hgk, hgr⟩ := R.unpacked hg
    exact absurd hgr (hreg hgm hs hgk hh)
  | @included i g b hs hg hb hh =>
    obtain ⟨hgm, hgk⟩ := R.included (List.mem_of_getElem? hg)
    obtain ⟨data, d, hdata, hd, hsym, _⟩ := R.includedBlob RB hg hb
    obtain ⟨hflags, rfl⟩ := hsym (hgk.type.resolve_right (hreg hgm hs hgk hh))
    rw [R.content_eq hcoll hf hgm hs hgk.1 hh, hcont, ht, Option.some.injEq] at hd
    subst hd
    refine ⟨b, t, rfl, hflags, hdata, ht, List.takeWhile_eq_self_iff.2 fun c hc => ?_, htne⟩
    exact decide_eq_true fun h0 => hnul (h0 ▸ hc)

variable (hpacks : E.NoCollision (PackFileContent E D.toDisk (withMetadata opts metaFile) P))

include hpacks

omit hcoll in
/-- **What a run has put into a pack is looked up there**: its payload is written as the content of the file. -/
theorem PackRun.packedFile {p : PackEntry} (hp : p ∈ P.packs) {g : FileEntry} (hg : g ∈ p.files) :
    ∃ name content op d, makePackFilename p.packfileHash = .ok name ∧ P.outDir name = some content ∧
      writeFileFromPack content g.hash = .ok (some op) ∧ D.fopen g.filename = some d ∧ writeFile E [op] = .ok d := by
  obtain ⟨name, content, hname, hcontent, hout, _⟩ := R.outDir_pack hpacks hp
  obtain ⟨hgf, hgk, _⟩ := R.packed hp hg
  obtain ⟨_, cutoff, _, _, H⟩ := R.ok
  have hdist : (p.files.map (·.hash)).Nodup := by
    have hnodup := H.packs_nodup R.deduplicated
    rw [List.map_flatMap] at hnodup
    exact (List.nodup_flatMap.1 hnodup).1 p hp
  obtain ⟨_, hfound⟩ := hcontent.lookup R.noReflink (fun f hf _ h => R.recorded hp hf h)
    (fun f hf => R.minSize_pos (R.packed hp hf).1 (R.packed hp hf).2.1) (R.packSize p hp) hdist
    (fun f hf d hd => R.inflates (R.packed hp hf).1 (R.packed hp hf).2.2 hd) (R.hash_sha1 hgf hgk.1)
  obtain ⟨_, _, op, d, _, _, hop, hd, hw⟩ := hfound g hg rfl
  exact ⟨name, content, op, d, hname, hout, hop, hd, hw⟩

/-- **The operations of the unpacker give back the content** of a regular file, whichever way it
travels: in the manifest, in a pack, or as a full blob. -/
theorem PackRun.blobOps_content {f : FileEntry} {u : UnpackFileEntry} {cache : Dir}
    (RB : ReadsBack E D.toDisk (withMetadata opts metaFile) P.files P.packs P.buckets.includedFiles P.manifest m)
    (hf : f ∈ P.files) (hr : sIsreg f.st.stMode) (hres : ResultFor P m f u.blobResult) (htype : u.entry.type = entryFile)
    (hback : EntryReadsBack (withMetadata opts metaFile) m f u.entry)
    (hcache : ∀ name hash z, Requires u name hash z → cache name = P.outDir name) : ∃ ops d,
      blobOps U P.manifest cache u.entry u.blobResult = .ok ops ∧ writeFile E ops = .ok d ∧
      D.fopen f.filename = some d ∧ (u.blobResult = .empty ∨ f.hash = hashOf E d) := by
  have hl : ¬ sIslnk f.st.stMode := sIsreg_not_sIslnk hr
  have hcont : contentOf D.toDisk f = D.fopen f.filename := if_neg hl
  have hhash : Stored f → ∀ d, D.fopen f.filename = some d → f.hash = hashOf E d := by
    intro hs d hd
    obtain ⟨d', hd', _, hh⟩ := (R.listed hf).stored hs
    rw [hcont, hd, Option.some.injEq] at hd'
    rw [hh, hd']
  generalize hru : u.blobResult = r at hres
  cases hres with
  | hardlink _ hlink => exact absurd hlink ((manifestEntryType_file hback.type).1 htype).2
  | empty hs =>
    obtain ⟨d, hd, hlen⟩ := D.regular (R.listed hf).lstat hr
    -- a regular file is without a result only if it is empty
    have h0 : f.st.stSize = 0 := by
      by_contra h0
      exact hs fun hskip => hskip.elim h0 fun hn => hn (.inl hr)
    rw [h0] at hlen
    exact ⟨[], [], rfl, rfl, by rw [hd, List.eq_nil_of_length_eq_zero hlen], .inl rfl⟩
  | @included i g b hs hg hb hh =>
    obtain ⟨data, d, hdata, hd, _, hw⟩ := R.includedBlob RB hg hb
    obtain ⟨hgf, hgk⟩ := R.included (List.mem_of_getElem? hg)
    rw [R.content_eq hcoll hf hgf hs hgk.1 hh, hcont] at hd
    exact ⟨_, d, by simp [blobOps, hdata], hw, hd, .inr (hhash hs d hd)⟩
  | @packed i p e g hs hp he hg hh =>
    obtain ⟨e', he', hehash, _⟩ := RB.pentries i p hp
    rw [he, Option.some.injEq] at he'
    subst he'
    have hpm := List.mem_of_getElem? hp
    obtain ⟨name, content, op, d, hname, hout, hop, hd, hw⟩ := R.packedFile hpacks hpm hg
    obtain ⟨hgf, hgk, hgr⟩ := R.packed hpm hg
    rw [← hehash] at hname
    have hcached : cache name = some content := by
      rw [hcache name e.hash false ⟨htype, .inl ⟨e, hru, hname, rfl, rfl⟩⟩, hout]
    have hcg : contentOf D.toDisk g = D.fopen g.filename := if_neg (sIsreg_not_sIslnk hgr)
    rw [← hcg, R.content_eq hcoll hf hgf hs hgk.1 hh, hcont] at hd
    refine ⟨[op], d, ?_, hw, hd, .inr (hhash hs d hd)⟩
    simp only [blobOps, hname, hcached, hback.hash, ← hh, hop, ok_bind, pure_eq_ok]
  | @full g hs hg hh =>
    obtain ⟨name, content, d, hname, hout, hd, hhd, hconv⟩ := R.blobFor hcoll hf hs hr hg hh
    have hcomp : isCompressed u.entry = blobCompressed f := by rw [isCompressed, blobCompressed, hback.zsize, hback.hash]
    rw [← hback.hash] at hname
    have hcached : cache name = some content := by
      rw [hcache name u.entry.hash _ ⟨htype, .inr ⟨hru, hname, rfl, rfl⟩⟩, hout]
    refine ⟨[.convertFile content (if isCompressed u.entry then .zuncompress else .none)], d, ?_, ?_, hd, .inr hhd⟩
    · simp only [blobOps, hname, hcached, ok_bind, pure_eq_ok]
    · rw [hcomp]
      exact (writeFile_ok E R.noReflink).2 ⟨[d], mapM_ok.2 (.cons hconv .nil), by simp⟩

/-- **The writing of a regular file does not fail** once the file is open, and gives back its content. -/
theorem PackRun.writeBlobData_restores {Loc : Type} [DecidableEq Loc] {N : Naming Loc} {f : FileEntry}
    {u : UnpackFileEntry} {cache : Dir} {fs fs₁ : FS Loc} {i : ℕ}
    (RB : ReadsBack E D.toDisk (withMetadata opts metaFile) P.files P.packs P.buckets.includedFiles P.manifest m)
    (hf : f ∈ P.files) (hr : sIsreg f.st.stMode) (hres : ResultFor P m f u.blobResult) (htype : u.entry.type = entryFile)
    (hback : EntryReadsBack (withMetadata opts metaFile) m f u.entry)
    (hcache : ∀ name hash z, Requires u name hash z → cache name = P.outDir name)
    (hopen : fs.openWrite (N.parent (N.resolve u.targetFilename)) (N.resolve u.targetFilename) = .ok (fs₁, i)) :
    ∃ d, D.fopen f.filename = some d ∧
      writeBlobData E N U P.manifest cache fs u = .ok (fs₁.setNode i (.file d)) := by
  obtain ⟨ops, d, hops, hw, hd, hcheck⟩ := R.blobOps_content hcoll hpacks RB hf hr hres htype hback hcache (U := U)
  refine ⟨d, hd, ?_⟩
  simp only [writeBlobData, hopen, orExit, ok_bind, hops, hw]
  by_cases he : u.blobResult = .empty
  · rw [if_pos he, pure_eq_ok]
  · have hhash := hcheck.resolve_left he
    have hsame : sfmfFilehashCompare ⟨UInt32.ofNat d.length, hashtypeSha1, E.sha1 d⟩ u.entry.hash = .ok true := by
      rw [hback.hash, hhash]
      exact sfmfFilehashCompare_ok.2 ⟨rfl, rfl, by simp [hashOf]⟩
    simp only [if_neg he, convertFileZsizeHash_eq, Bool.false_eq_true, if_false, ok_bind, hsame, if_true, pure_eq_ok]

end

end Sfmf
