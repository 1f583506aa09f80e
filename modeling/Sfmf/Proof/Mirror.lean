import Sfmf.Proof.Lookup

/-!
# Mirrors

* `PackRun.unpackClassify`: the manifest is fetched, read and classified.
* `PackRun.needs`: what an entry needs was written, and verifies.
* `PackRun.required`: what was written is needed by an entry.
* `mirror_exact`: a run for downloads only fetches exactly what was written.
-/

namespace Sfmf

variable {E : Env} {D : SourceTree} {opts : PackOptions} {metaFile : Bytes} {outDir : Dir} {walk : List CString}
  {P : Packed} {m : Manifest} {U : UnpackOptions}

/-! ## What is written and served -/

/-- The names of the files that a run of the packer writes. -/
def Written (P : Packed) (name : Bytes) : Prop :=
  name = manifestFilename ∨ (∃ p ∈ P.packs, makePackFilename p.packfileHash = .ok name) ∨
    ∃ f ∈ P.buckets.unpackedFiles, makeBlobFilename f.hash = .ok name

/-- **An unpacker that is served what was packed**, unchanged, and has nothing else to get it from. -/
structure Serves (E : Env) (P : Packed) (U : UnpackOptions) : Prop where
  online : U.offlineMode = false
  alone : U.sourcedirs = []
  served : ∀ name d, Written P name → P.outDir name = some d → fetch E U.source name = .ok d

/-- The result of an entry that is in a bucket is that of the bucket. -/
theorem ResultFor.bucket {files : List FileEntry} {cutoff : UInt32} {blobs packs : List (Bytes × Bytes)}
    (H : PackFilesOk E D.toDisk opts outDir files cutoff blobs packs P) (hdedup : Deduplicated P.files)
    {f : FileEntry} {b : Bucket} {r : BlobResult} (hr : ResultFor P m f r) (hf : f ∈ P.files)
    (hb : bucketFor opts cutoff f = some b) :
    (b = .packed → ∃ (i : ℕ) (p : PackEntry) (e : SfmfPackEntry), r = .packed e ∧ P.packs[i]? = some p ∧
      m.pentries[i]? = some e ∧ f ∈ p.files) ∧ (b = .unpacked → r = .full) := by
  have hinj : ∀ {g : FileEntry} {b' : Bucket}, g ∈ P.files → bucketFor opts cutoff g = some b' →
      g.hash = f.hash → g = f := fun hg hbg hh => PackFilesOk.bucket_inj hdedup hg hf hbg hb hh
  have hk := kept_of_bucket hb
  cases hr with
  | hardlink _ hl => rw [isHardlink, hk.2] at hl; cases hl.1
  | empty hs => exact absurd hk.1 hs
  | @included i g b' _ hg _ hh =>
    obtain ⟨hgm, hgb⟩ := H.mem_included.1 (List.mem_of_getElem? hg)
    rw [hinj hgm hgb hh, hb] at hgb
    cases hgb
    exact ⟨fun h => (by cases h), fun h => (by cases h)⟩
  | @packed i p e g _ hp he hg hh =>
    have hmem := H.packs_perm.1.subset (List.mem_flatMap.2 ⟨p, List.mem_of_getElem? hp, hg⟩)
    obtain ⟨hgm, hgb⟩ := H.mem_packed.1 hmem
    have hgf := hinj hgm hgb hh
    subst hgf
    rw [hb] at hgb
    cases hgb
    exact ⟨fun _ => ⟨i, p, e, rfl, hp, he, hg⟩, fun h => (by cases h)⟩
  | @full g _ hg hh =>
    obtain ⟨hgm, hgb⟩ := H.mem_unpacked.1 hg
    rw [hinj hgm hgb hh, hb] at hgb
    cases hgb
    exact ⟨fun h => (by cases h), fun _ => rfl⟩

/-- A file is in one pack. -/
theorem PackFilesOk.pack_unique {files : List FileEntry} {cutoff : UInt32} {blobs packs : List (Bytes × Bytes)}
    (H : PackFilesOk E D.toDisk opts outDir files cutoff blobs packs P) (hdedup : Deduplicated P.files)
    {f : FileEntry} {p p' : PackEntry} (hp : p ∈ P.packs) (hp' : p' ∈ P.packs) (hf : f ∈ p.files)
    (hf' : f ∈ p'.files) : p = p' := by
  by_contra hne
  have hnodup := List.nodup_flatMap.1 (List.Nodup.of_map _ (H.packs_nodup hdedup))
  have hsymm : Std.Symm (Function.onFun List.Disjoint fun p : PackEntry => p.files) := ⟨fun _ _ h => h.symm⟩
  exact hnodup.2.forall hp hp' hne hf hf'

/-! ## Classification -/

section

variable (R : PackRun E D opts metaFile outDir walk P)

include R

/-- What is known of the classified entries of a packed manifest. -/
structure EntriesFor (R : PackRun E D opts metaFile outDir walk P) (U : UnpackOptions) (m : Manifest)
    (us : List UnpackFileEntry) : Prop where
  readsBack : ReadsBack E D.toDisk (withMetadata opts metaFile) P.files P.packs P.buckets.includedFiles P.manifest m
  length : us.length = P.files.length
  entry : ∀ (i : ℕ) (f : FileEntry), P.files[i]? = some f → ∃ u name,
      us[i]? = some u ∧ m.fentries[i]? = some u.entry ∧ EntryReadsBack (withMetadata opts metaFile) m f u.entry ∧
      getFileBasename opts.inDir f.filename = .ok name ∧ u.targetFilename = U.outputdir ++ name ∧
      ResultFor P m f u.blobResult ∧ (u.entry.type = entryHardlink ↔ u.blobResult = .hardlink)

/-- **The manifest is fetched, read and classified**, from a cache that has no other one. -/
theorem PackRun.unpackClassify (S : Serves E P U) {cache : Dir}
    (hcache : ∀ d, cache manifestFilename = some d → d = P.manifest) :
    ∃ c, Sfmf.unpackClassify E U cache = .ok c ∧ c.data = P.manifest ∧ EntriesFor R U c.manifest c.entries ∧
      (∀ name, c.state.cache name = if name = manifestFilename then some P.manifest else cache name) ∧
      c.state.downloads = if cache manifestFilename = none then [manifestFilename] else [] := by
  obtain ⟨m, hm, RB⟩ := R.readsBack
  obtain ⟨us, hus, hlen, hentry⟩ := R.classify RB U
  obtain ⟨s, hs, hsm, hscache, hsdown⟩ : ∃ s, downloadPayloadFile E U.source U.offlineMode manifestFilename none false
      ⟨cache, [], []⟩ = .ok (some manifestFilename, s) ∧ s.cache manifestFilename = some P.manifest ∧
      (∀ name, s.cache name = if name = manifestFilename then some P.manifest else cache name) ∧
      s.downloads = if cache manifestFilename = none then [manifestFilename] else [] := by
    cases hc : cache manifestFilename with
    | none =>
      have hfetch := S.served manifestFilename P.manifest (.inl rfl) R.outDir_manifest
      refine ⟨⟨cache.write manifestFilename P.manifest, [manifestFilename], [manifestFilename]⟩, ?_,
        by simp [Dir.write], fun name => rfl, by simp⟩
      simp [downloadPayloadFile, checkCached, hc, downloadMissing, S.online, hfetch]
    | some d =>
      have hd := hcache d hc
      subst hd
      refine ⟨⟨cache, [], []⟩, by simp [downloadPayloadFile, checkCached, hc], hc, fun name => ?_, by simp⟩
      split
      · rename_i he; rw [he]; exact hc
      · rfl
  rw [readManifest] at hm
  obtain ⟨⟨header, pos⟩, hheader, hm⟩ := bind_ok.1 hm
  refine ⟨⟨P.manifest, m, us, [], s⟩, ?_, rfl, ⟨RB, hlen, hentry⟩, hscache, hsdown⟩
  have hlocal : U.sourcedirs.foldlM (extendFileList E U.localDisk true .none) [] = .ok [] := by rw [S.alone]; rfl
  simp only at hm
  simp only [Sfmf.unpackClassify, hs, ok_bind, cAssert, Option.isSome_some, if_true, hsm, hheader, hlocal, hm, hus,
    pure_eq_ok]

/-- **What an entry needs was written**, and it verifies. -/
theorem PackRun.needs (hcoll : E.NoCollision (StoredContent D.toDisk P))
    (hpacks : E.NoCollision (PackFileContent E D.toDisk (withMetadata opts metaFile) P))
    {us : List UnpackFileEntry} (EF : EntriesFor R U m us) {u : UnpackFileEntry} (hu : u ∈ us) (hn : Needs u) :
    ∃ name hash z d, Requires u name hash z ∧ Written P name ∧ P.outDir name = some d ∧ Verifies E hash z d := by
  obtain ⟨i, hi, rfl⟩ := List.getElem_of_mem hu
  have hi' : i < P.files.length := EF.length ▸ hi
  obtain ⟨v, _, hv, _, hback, _, _, hr, _⟩ := EF.entry i P.files[i] (List.getElem?_eq_getElem hi')
  rw [List.getElem?_eq_getElem hi, Option.some.injEq] at hv
  subst hv
  have hf : P.files[i] ∈ P.files := List.getElem_mem hi'
  generalize P.files[i] = f at hback hr hf
  generalize hu' : us[i] = u at hn hback hr hu
  obtain ⟨hreg, _⟩ := (manifestEntryType_file hback.type).1 hn.1
  rcases hn with ⟨htype, ⟨pack, hpack⟩ | hfull⟩
  · rw [hpack] at hr
    cases hr with
    | @packed j p _ g hs hp he hg hh =>
      obtain ⟨e, hee, hehash, _⟩ := EF.readsBack.pentries j p hp
      rw [he] at hee
      cases hee
      have hpm := List.mem_of_getElem? hp
      obtain ⟨name, content, hname, _, hout, hhash⟩ := R.outDir_pack hpacks hpm
      refine ⟨name, p.packfileHash, false, content, ⟨htype, .inl ⟨pack, hpack, ?_, hehash.symm, rfl⟩⟩,
        .inr (.inl ⟨p, hpm, hname⟩), hout, ?_⟩
      · rw [hehash, hname]
      · exact (verifies_iff E).2 ⟨content, converted_none E content, hhash⟩
  · rw [hfull] at hr
    cases hr with
    | @full g hs hg hh =>
      obtain ⟨name, content, d, hname, hout, _, hhash, hconv⟩ := R.blobFor hcoll hf hs hreg hg hh
      have hcomp : isCompressed u.entry = blobCompressed f := by rw [isCompressed, blobCompressed, hback.zsize, hback.hash]
      refine ⟨name, u.entry.hash, isCompressed u.entry, content, ⟨htype, .inr ⟨hfull, ?_, rfl, rfl⟩⟩,
        .inr (.inr ⟨g, hg, by rw [hh, hname]⟩), hout, ?_⟩
      · rw [hback.hash, hname]
      · rw [hcomp, hback.hash]
        exact (verifies_iff E).2 ⟨d, hconv, hhash⟩

/-- **What was written is needed by an entry.** -/
theorem PackRun.required {us : List UnpackFileEntry} (EF : EntriesFor R U m us) {name : Bytes}
    (hname : Written P name) (hne : name ≠ manifestFilename) : ∃ u ∈ us, ∃ hash z, Requires u name hash z := by
  obtain ⟨_, cutoff, _, _, H⟩ := R.ok
  -- the entry of a kept regular file is that of a file
  have hentry : ∀ {f : FileEntry}, f ∈ P.files → Kept f → sIsreg f.st.stMode → ∃ u ∈ us,
      u.entry.type = entryFile ∧ u.entry.hash = f.hash ∧ ResultFor P m f u.blobResult := by
    intro f hf hk hr
    obtain ⟨i, hi, rfl⟩ := List.getElem_of_mem hf
    obtain ⟨u, _, hu, _, hback, _, _, hres, _⟩ := EF.entry i P.files[i] (List.getElem?_eq_getElem hi)
    refine ⟨u, List.mem_of_getElem? hu, (manifestEntryType_file hback.type).2 ⟨hr, fun hl => ?_⟩, hback.hash, hres⟩
    rw [isHardlink, hk.2] at hl
    cases hl.1
  rcases hname with h | ⟨p, hp, hname⟩ | ⟨f, hf, hname⟩
  · exact absurd h hne
  · obtain ⟨g, gs, hg⟩ := List.exists_cons_of_ne_nil (H.packs_perm.2 p hp).files
    have hgp : g ∈ p.files := by rw [hg]; exact List.mem_cons_self
    obtain ⟨hgm, hgk, hgr⟩ := R.packed hp hgp
    obtain ⟨u, hu, htype, _, hres⟩ := hentry hgm hgk hgr
    have hb := (H.mem_packed.1 (H.packs_perm.1.subset (List.mem_flatMap.2 ⟨p, hp, hgp⟩))).2
    obtain ⟨i, p', e, hr, hp', he, hgp'⟩ := (hres.bucket H R.deduplicated hgm hb).1 rfl
    have hpp := H.pack_unique R.deduplicated hp (List.mem_of_getElem? hp') hgp hgp'
    subst hpp
    obtain ⟨e', he', hehash, _⟩ := EF.readsBack.pentries i p hp'
    rw [he] at he'
    cases he'
    exact ⟨u, hu, e.hash, false, htype, .inl ⟨e, hr, by rw [hehash, hname], rfl, rfl⟩⟩
  · obtain ⟨hfm, hfk, hfr⟩ := R.unpacked hf
    obtain ⟨u, hu, htype, hhash, hres⟩ := hentry hfm hfk hfr
    have hr := (hres.bucket H R.deduplicated hfm (H.mem_unpacked.1 hf).2).2 rfl
    exact ⟨u, hu, u.entry.hash, isCompressed u.entry, htype, .inr ⟨hr, by rw [hhash, hname], rfl, rfl⟩⟩

/-- Nothing else is written, besides the temporary file. -/
theorem PackRun.outDir_other {name : Bytes} (hw : ¬ Written P name) (htmp : name ≠ packTmpFilename) :
    P.outDir name = outDir name := by
  obtain ⟨_, _, blobs, packs, H⟩ := R.ok
  rw [H.written name htmp]
  refine Dir.writes_not fun w hmem he => hw ?_
  rcases H.written_cases hmem with ⟨f, hf, hblob⟩ | ⟨p, hp, hpack⟩ | rfl
  · have hblob := hblob.1
    rw [he] at hblob
    exact .inr (.inr ⟨f, hf, hblob⟩)
  · have hpack := hpack.1
    rw [he] at hpack
    exact .inr (.inl ⟨p, hp, hpack⟩)
  · exact .inl he.symm

/-- A cache with nothing wrong in it has nothing wrong when the manifest is there, too. -/
theorem PackRun.right_classified {cache cache' : Dir}
    (hclassified : ∀ name, cache' name = if name = manifestFilename then some P.manifest else cache name)
    (hcache : ∀ name d, Written P name → cache name = some d → P.outDir name = some d) :
    ∀ name d, Written P name → cache' name = some d → P.outDir name = some d := by
  intro name d hw hd
  rw [hclassified] at hd
  split at hd
  · rename_i he
    rw [he, R.outDir_manifest, hd]
  · exact hcache name d hw hd

/-- **The downloads of a run**: exactly what is needed and not in the cache, which has nothing wrong. -/
theorem PackRun.downloads (hcoll : E.NoCollision (StoredContent D.toDisk P))
    (hpacks : E.NoCollision (PackFileContent E D.toDisk (withMetadata opts metaFile) P)) (S : Serves E P U)
    {us : List UnpackFileEntry} (EF : EntriesFor R U m us) {s : CacheState}
    (hcache : ∀ name d, Written P name → s.cache name = some d → P.outDir name = some d) :
    ∃ s' l, us.foldlM (unpackDownloadRequirements E U) s = .ok s' ∧ l.Nodup ∧ s'.downloads = s.downloads ++ l ∧
      (∀ name, name ∈ l ↔ s.cache name = none ∧ ∃ u ∈ us, ∃ hash z, Requires u name hash z) ∧
      (∀ name, s'.cache name = if name ∈ l then P.outDir name else s.cache name) ∧
      ∀ u ∈ us, ∀ name hash z, Requires u name hash z → Written P name ∧ ∃ d, P.outDir name = some d ∧
        s'.cache name = some d := by
  have hneeds : ∀ u ∈ us, Needs u → ∃ name hash z d, Requires u name hash z ∧ P.outDir name = some d ∧
      fetch E U.source name = .ok d ∧ Verifies E hash z d := by
    intro u hu hn
    obtain ⟨name, hash, z, d, hreq, hw, hd, hv⟩ := R.needs hcoll hpacks EF hu hn
    exact ⟨name, hash, z, d, hreq, hd, S.served name d hw hd, hv⟩
  have hwritten : ∀ u ∈ us, ∀ name hash z, Requires u name hash z → Written P name ∧ ∃ d, P.outDir name = some d := by
    intro u hu name hash z hreq
    obtain ⟨name', _, _, d, hreq', hw, hd, _⟩ := R.needs hcoll hpacks EF hu hreq.needs
    rw [hreq.name_inj hreq'] at hw hd
    exact ⟨hw, d, hd⟩
  have hright : ∀ u ∈ us, ∀ name hash z d, Requires u name hash z → s.cache name = some d → P.outDir name = some d :=
    fun u hu name hash z d hreq => hcache name d (hwritten u hu name hash z hreq).1
  obtain ⟨s', l, hrun, hnodup, hdown, hmem, hs'⟩ := downloads_exact S.online P.outDir hneeds hright
  refine ⟨s', l, hrun, hnodup, hdown, hmem, hs', fun u hu name hash z hreq => ?_⟩
  obtain ⟨hw, d, hd⟩ := hwritten u hu name hash z hreq
  refine ⟨hw, d, hd, ?_⟩
  rw [hs']
  by_cases hl : name ∈ l
  · rw [if_pos hl, hd]
  · rw [if_neg hl]
    cases hd' : s.cache name with
    | none => exact absurd ((hmem name).2 ⟨hd', u, hu, hash, z, hreq⟩) hl
    | some d' => rw [← hcache name d' hw hd', hd]

/-- **A mirror made by a run for downloads only is exact.** From an empty cache, without local sources, a
run that is served what was packed fetches exactly the manifest, the packs and the full blobs that were
written, each of them once, and its cache then holds them as they were written. -/
theorem mirror_exact {Loc : Type} [DecidableEq Loc] {N : Naming Loc} {fs : FS Loc}
    (hcoll : E.NoCollision (StoredContent D.toDisk P))
    (hpacks : E.NoCollision (PackFileContent E D.toDisk (withMetadata opts metaFile) P))
    (S : Serves E P U) (honly : U.downloadOnly = true) :
    ∃ r, unpackMain E N U (fun _ => none) fs = .ok r ∧ r.state.downloads.Nodup ∧
      (∀ name, name ∈ r.state.downloads ↔ Written P name) ∧
      (∀ name, Written P name → ∃ d, P.outDir name = some d ∧ r.state.cache name = some d) ∧
      ∀ name, ¬ Written P name → r.state.cache name = none ∧
        (name ≠ packTmpFilename → P.outDir name = outDir name) := by
  obtain ⟨c, hc, _, EF, hcache, hdown⟩ : ∃ c, Sfmf.unpackClassify E U (fun _ => none) = .ok c ∧ c.data = P.manifest ∧
      EntriesFor R U c.manifest c.entries ∧
      (∀ name, c.state.cache name = if name = manifestFilename then some P.manifest else none) ∧
      c.state.downloads = [manifestFilename] := R.unpackClassify S (by simp)
  have hout : P.outDir manifestFilename = some P.manifest := R.outDir_manifest
  have hright := R.right_classified hcache (by simp)
  obtain ⟨s, l, hrun, hnodup, hsdown, hmem, hscache, hneeded⟩ := R.downloads hcoll hpacks S EF hright
  -- from an empty cache everything but the manifest is fetched
  have hl : ∀ name, name ∈ l ↔ Written P name ∧ name ≠ manifestFilename := by
    intro name
    rw [hmem, hcache]
    constructor
    · rintro ⟨hnone, u, hu, hash, z, hreq⟩
      refine ⟨(hneeded u hu name hash z hreq).1, fun he => ?_⟩
      rw [if_pos he] at hnone
      cases hnone
    · rintro ⟨hw, hne⟩
      exact ⟨if_neg hne, R.required EF hw hne⟩
  have hdown' : s.downloads = manifestFilename :: l := by rw [hsdown, hdown]; rfl
  have hmain : unpackMain E N U (fun _ => none) fs = .ok ⟨c, s, fs⟩ := by
    simp only [unpackMain, hc, ok_bind, unpackDownload, S.online, Bool.false_eq_true, if_false, hrun, unpackWrite,
      honly, if_true, pure_eq_ok]
  refine ⟨⟨c, s, fs⟩, hmain, ?_, fun name => ?_, fun name hw => ?_, fun name hw => ?_⟩
  · rw [hdown']
    exact hnodup.cons fun h => ((hl _).1 h).2 rfl
  · rw [hdown', List.mem_cons, hl]
    constructor
    · rintro (rfl | h)
      · exact .inl rfl
      · exact h.1
    · intro hw
      by_cases he : name = manifestFilename
      · exact .inl he
      · exact .inr ⟨hw, he⟩
  · by_cases he : name = manifestFilename
    · refine ⟨P.manifest, by rw [he, hout], ?_⟩
      simp only
      rw [hscache, if_neg fun h => ((hl _).1 h).2 he, hcache, if_pos he]
    · obtain ⟨u, hu, hash, z, hreq⟩ := R.required EF hw he
      exact (hneeded u hu name hash z hreq).2
  · have he : name ≠ manifestFilename := fun he => hw (.inl he)
    refine ⟨?_, R.outDir_other hw⟩
    simp only
    rw [hscache, hcache, if_neg fun h => hw ((hl _).1 h).1, if_neg he]

end

theorem clientOf_serves (E : Env) (P : Packed) (downloadOnly : Bool) : Serves E P (clientOf P downloadOnly) :=
  ⟨rfl, rfl, fun name d _ hd => by simp only [fetch, clientOf, hd]⟩

theorem mirror_exact_letterTree : ∃ P r, packMain letterTreeEnv letterTree.toDisk letterTreeOptions (str ['m'])
    (fun _ => none) letterWalk = .ok P ∧ P.packs.length = 1 ∧
    unpackMain letterTreeEnv (lexical []) (clientOf P true) (fun _ => none) (.oneDirectory [str ['o']]) = .ok r ∧
    r.state.downloads.Nodup ∧ (∀ name, name ∈ r.state.downloads ↔ Written P name) ∧
    ∀ name, Written P name → ∃ d, P.outDir name = some d ∧ r.state.cache name = some d := by
  obtain ⟨P, R, hpacks, _, hone⟩ := letterTree_packRun
  obtain ⟨r, hr, hnodup, hmem, hcache, _⟩ : ∃ r, unpackMain letterTreeEnv (lexical []) (clientOf P true)
      (fun _ => none) (.oneDirectory [str ['o']]) = .ok r ∧ _ :=
    mirror_exact R (letterTree_noCollision P) hpacks (clientOf_serves letterTreeEnv P true) rfl
  exact ⟨P, r, R.run, hone, hr, hnodup, hmem, hcache⟩

end Sfmf
