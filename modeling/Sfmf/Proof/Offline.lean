import Sfmf.Proof.Mirror

/-!
# An offline run after a run for downloads only

* `packContent_unique`: one content is that of one pack.
* `requires_unique`: entries that need one file need it with the same hash.
* `offline_complete`: an offline run with the cache of a run for downloads only has
  the same results, and finds every payload file.
-/

namespace Sfmf

variable {E : Env} {D : SourceTree} {opts : PackOptions} {metaFile : Bytes} {outDir : Dir} {walk : List CString}
  {P : Packed} {m : Manifest} {U : UnpackOptions}

section

variable (hrun : packMain E D.toDisk opts metaFile outDir walk = .ok P)

include hrun

/-- **One content is that of one pack.** -/
theorem packContent_unique (hE : E.NoReflink) {p p' : PackEntry} {content : Bytes} (hp : p ∈ P.packs)
    (hp' : p' ∈ P.packs) (hc : PackContent E D.toDisk (withMetadata opts metaFile) p content)
    (hc' : PackContent E D.toDisk (withMetadata opts metaFile) p' content) : p = p' := by
  obtain ⟨⟨_, cutoff, _, _, H⟩, _, hdedup, _⟩ := packMain_ok hrun
  -- both begin with a file of one hash, which is one file
  obtain ⟨f, fs, hf⟩ := List.exists_cons_of_ne_nil (H.packs_perm.2 p hp).files
  obtain ⟨g, gs, hg⟩ := List.exists_cons_of_ne_nil (H.packs_perm.2 p' hp').files
  have hpacked : ∀ {q : PackEntry} {e : FileEntry}, q ∈ P.packs → e ∈ q.files → e ∈ P.buckets.packedFiles :=
    fun hq he => H.packs_perm.1.subset (List.mem_flatMap.2 ⟨_, hq, he⟩)
  have hfp : f ∈ p.files := hf ▸ List.mem_cons_self
  have hgp : g ∈ p'.files := hg ▸ List.mem_cons_self
  obtain ⟨hfm, hbf⟩ := H.mem_packed.1 (hpacked hp hfp)
  obtain ⟨hgm, hbg⟩ := H.mem_packed.1 (hpacked hp' hgp)
  have hfg : f = g := PackFilesOk.bucket_inj hdedup hfm hgm hbf hbg (hc.first_hash hE hc' hf hg)
  exact H.pack_unique hdedup hp hp' hfp (hfg ▸ hgp)

variable (T : TablesBack (withMetadata opts metaFile) P.files P.packs m)

include T

/-- The hash of a pack in the manifest is that of a pack that was written. -/
theorem packEntry_hash {e : SfmfPackEntry} (he : e ∈ m.pentries) : ∃ p ∈ P.packs, ∃ content,
    PackContent E D.toDisk (withMetadata opts metaFile) p content ∧ e.hash = p.packfileHash ∧
      p.packfileHash.hash = E.sha1 content := by
  obtain ⟨⟨_, _, _, packs, H⟩, _⟩ := packMain_ok hrun
  obtain ⟨p, hp, hhash⟩ := T.pack_of_mem he
  obtain ⟨i, hi, rfl⟩ := List.getElem_of_mem hp
  obtain ⟨_, hcontent, _, hph⟩ := H.packsWritten.get hi (H.packsWritten.length_eq ▸ hi)
  exact ⟨_, hp, _, hcontent, hhash, congrArg SfmfFileHash.hash hph⟩

/-- **The entry of a full blob** is that of a file with a content, and has its compressed size. -/
theorem fullEntry_hash {us : List UnpackFileEntry} (hentries : List.Forall₂ (EntryClassified U m) m.fentries us)
    {u : UnpackFileEntry} (hu : u ∈ us) (htype : u.entry.type = entryFile) (hfull : u.blobResult = .full) :
    ∃ d z, StoredContent D.toDisk P d ∧ u.entry.hash = hashOf E d ∧ converted E .zcompress d = .ok z ∧
      u.entry.zsize = UInt32.ofNat z.length := by
  obtain ⟨i, hi, rfl⟩ := List.getElem_of_mem hu
  have hi' : i < m.fentries.length := hentries.length_eq ▸ hi
  have hcl := hentries.get hi' hi
  simp only [List.get_eq_getElem] at hcl
  obtain ⟨f, hf, hback⟩ := T.file_of_mem (List.getElem_mem hi')
  rw [← hcl.entry] at hback
  have hlisted : Listed E D f := (packMain_ok hrun).2.1 f hf
  have hreg := ((manifestEntryType_file hback.type).1 htype).1
  -- an entry without a content is never looked for
  have hs : Stored f := by
    intro h0
    have hlink : us[i].entry.type ≠ entryHardlink := by rw [htype]; decide
    have hsize : us[i].entry.hash.size = 0 := by rw [hback.hash, (hlisted.other h0).2]; rfl
    rw [hcl.entry] at hlink hsize
    rw [hcl.empty hlink hsize] at hfull
    cases hfull
  obtain ⟨d, hd, _, hhash⟩ := hlisted.stored hs
  have hopen : D.fopen f.filename = some d := by
    rw [contentOf, if_neg (sIsreg_not_sIslnk hreg)] at hd
    exact hd
  obtain ⟨z, hz, hzsize⟩ := hlisted.deflated hreg (fun h0 => hs (.inl h0)) d hopen
  exact ⟨d, z, ⟨f, hf, hs, hd⟩, by rw [hback.hash, hhash], hz, by rw [hback.zsize, hzsize]⟩

/-- **Entries that need one file need it with the same hash**, compressed or not. -/
theorem requires_unique (hE : E.NoReflink) (hcoll : E.NoCollision (StoredContent D.toDisk P))
    (hpacks : E.NoCollision (PackFileContent E D.toDisk (withMetadata opts metaFile) P))
    {us : List UnpackFileEntry} (hentries : List.Forall₂ (EntryClassified U m) m.fentries us)
    (hpack : ∀ u ∈ us, ∀ e, u.blobResult = .packed e → e ∈ m.pentries) :
    ∀ u ∈ us, ∀ v ∈ us, ∀ name hash z hash' z', Requires u name hash z → Requires v name hash' z' →
      hash = hash' ∧ z = z' := by
  intro u hu v hv name hash z hash' z' hr hr'
  rcases hr.2 with ⟨pack, hp, hn, rfl, rfl⟩ | ⟨hf, hn, rfl, rfl⟩ <;>
    rcases hr'.2 with ⟨pack', hp', hn', rfl, rfl⟩ | ⟨hf', hn', rfl, rfl⟩
  · obtain ⟨p, hpm, c, hc, hh, hsha⟩ := packEntry_hash hrun T (hpack u hu pack hp)
    obtain ⟨p', hpm', c', hc', hh', hsha'⟩ := packEntry_hash hrun T (hpack v hv pack' hp')
    have hdigest := packFilename_inj hn hn'
    rw [hh, hh', hsha, hsha'] at hdigest
    have hcc := hpacks c c' ⟨p, hpm, hc⟩ ⟨p', hpm', hc'⟩ hdigest
    rw [hh, hh', packContent_unique hrun hE hpm hpm' hc (hcc ▸ hc')]
    exact ⟨rfl, rfl⟩
  · exact absurd hn' (packFilename_ne_blob hn)
  · exact absurd hn (packFilename_ne_blob hn')
  · obtain ⟨d, y, hd, hh, hy, hys⟩ := fullEntry_hash hrun T hentries hu hr.1 hf
    obtain ⟨d', y', hd', hh', hy', hys'⟩ := fullEntry_hash hrun T hentries hv hr'.1 hf'
    have hdigest := blobFilename_inj hn hn'
    rw [hh, hh'] at hdigest
    have hdd := hcoll d d' hd hd' hdigest
    subst hdd
    rw [hy, Except.ok.injEq] at hy'
    have hzsize : u.entry.zsize = v.entry.zsize := by rw [hys, hys', hy']
    exact ⟨by rw [hh, hh'], by rw [isCompressed, isCompressed, hzsize, hh, hh']⟩

end

/-- **An offline run after a run for downloads never misses a payload.** Whatever was in the cache and
whatever the local sources are: if a run that downloads, and writes files or not, succeeds on a manifest
that was packed, then an offline run with the same cache and local sources reads the same manifest,
gives every entry the same result, has nothing to download, and finds in the cache each file that is
needed, with a content that verifies. -/
theorem offline_complete {Loc : Type} [DecidableEq Loc] {N : Naming Loc} {fs : FS Loc} {cache : Dir}
    {r : Unpacked Loc} {U' : UnpackOptions} (hrun : packMain E D.toDisk opts metaFile outDir walk = .ok P)
    (hE : E.NoReflink) (hsize : P.manifest.length < 2 ^ 32) (hcoll : E.NoCollision (StoredContent D.toDisk P))
    (hpacks : E.NoCollision (PackFileContent E D.toDisk (withMetadata opts metaFile) P))
    (h : unpackMain E N U cache fs = .ok r) (hdata : r.classified.data = P.manifest)
    (honline : U.offlineMode = false) (hoffline : U'.offlineMode = true)
    (hdisk : U'.localDisk = U.localDisk) (hdirs : U'.sourcedirs = U.sourcedirs) :
    ∃ c, unpackClassify E U' r.state.cache = .ok c ∧ c.data = P.manifest ∧ c.manifest = r.classified.manifest ∧
      List.Forall₂ (fun u u' => u'.entry = u.entry ∧ u'.blobResult = u.blobResult) r.classified.entries c.entries ∧
      unpackDownload E U' c = .ok c.state ∧ c.state.cache = r.state.cache ∧
      ∀ u ∈ c.entries, u.entry.type = entryFile →
        (∀ pack, u.blobResult = .packed pack → ∃ name d, makePackFilename pack.hash = .ok name ∧
          c.state.cache name = some d ∧ Verifies E pack.hash false d) ∧
        (u.blobResult = .full → ∃ name d, makeBlobFilename u.entry.hash = .ok name ∧
          c.state.cache name = some d ∧ Verifies E u.entry.hash (isCompressed u.entry) d) := by
  simp only [unpackMain, bind_ok, pure_eq_ok, Except.ok.injEq] at h
  obtain ⟨c, hc, s, hs, fs', _, rfl⟩ := h
  simp only [unpackDownload, honline, Bool.false_eq_true, if_false] at hs
  obtain ⟨hm, ⟨ls, hls, hus⟩, hcached, hfiles⟩ := unpackClassify_ok hc
  simp only at hdata
  obtain ⟨m, hm', T⟩ : ∃ m, readManifest P.manifest = .ok m ∧
      TablesBack (withMetadata opts metaFile) P.files P.packs m := by
    obtain ⟨⟨_, _, _, _, H⟩, _⟩ := packMain_ok hrun
    obtain ⟨hmeta, _, _, hregions, _, hbytes⟩ := writeManifest_ok hE H.manifest
    exact hregions.tablesBack hmeta H.nonempty hbytes hsize
  rw [hdata, hm', Except.ok.injEq] at hm
  subst hm
  -- what is required is never the manifest
  have hname : ∀ {u : UnpackFileEntry} {name : Bytes} {hash : SfmfFileHash} {z : Bool}, Requires u name hash z →
      name ≠ manifestFilename := by
    intro u name hash z hr
    rcases hr.2 with ⟨pack, _, hn, _⟩ | ⟨_, hn, _⟩
    · exact packFilename_ne_manifest hn
    · exact blobFilename_ne_manifest hn
  have hentries := classifyEntries_ok hus
  have hpack := classifyEntries_packed hus
  have hcons := requires_unique hrun T hE hcoll hpacks hentries hpack
  have hnoted : NotedRight E c.entries c.state := fun u hu name hash z hr hmem => absurd (hfiles name hmem) (hname hr)
  obtain ⟨hverified, hframe⟩ := downloads_verified hcons hnoted hs
  -- the second run
  have hmanifest : s.cache manifestFilename = some P.manifest := by
    rw [hframe manifestFilename fun v _ hash z hr => hname hr rfl, hcached, hdata]
  obtain ⟨us', hus', hsame⟩ := classifyEntries_congr hdisk hus
  rw [← hdirs, ← hdisk] at hls
  refine ⟨_, unpackClassify_cached hmanifest hm' hls hus', rfl, rfl, hsame, ?_, rfl, ?_⟩
  · simp [unpackDownload, hoffline]
  intro u' hu' htype
  obtain ⟨i, hi', rfl⟩ := List.getElem_of_mem hu'
  have hi : i < c.entries.length := hsame.length_eq ▸ hi'
  obtain ⟨hentry, hresult⟩ := hsame.get hi hi'
  simp only [List.get_eq_getElem] at hentry hresult
  have hu : c.entries[i] ∈ c.entries := List.getElem_mem hi
  simp only at htype ⊢
  rw [hentry] at htype
  rw [hentry, hresult]
  refine ⟨fun pack hp => ?_, fun hf => ?_⟩
  · obtain ⟨name, hash, z, d, hr, hd, hv⟩ := hverified _ hu ⟨htype, .inl ⟨pack, hp⟩⟩
    rcases hr.2 with ⟨pack', hp', hn, rfl, rfl⟩ | ⟨hf, _⟩
    · rw [hp] at hp'
      cases hp'
      exact ⟨name, d, hn, hd, hv⟩
    · rw [hp] at hf
      cases hf
  · obtain ⟨name, hash, z, d, hr, hd, hv⟩ := hverified _ hu ⟨htype, .inr hf⟩
    rcases hr.2 with ⟨pack, hp, _⟩ | ⟨_, hn, rfl, rfl⟩
    · rw [hf] at hp
      cases hp
    · exact ⟨name, d, hn, hd, hv⟩

theorem offline_complete_letterTree : ∃ P r c, packMain letterTreeEnv letterTree.toDisk letterTreeOptions (str ['m'])
    (fun _ => none) letterWalk = .ok P ∧
    unpackMain letterTreeEnv (lexical []) (clientOf P true) (fun _ => none) (.oneDirectory [str ['o']]) = .ok r ∧
    unpackClassify letterTreeEnv { clientOf P false with offlineMode := true } r.state.cache = .ok c ∧
    c.data = P.manifest ∧
    List.Forall₂ (fun u u' => u'.entry = u.entry ∧ u'.blobResult = u.blobResult) r.classified.entries c.entries ∧
    unpackDownload letterTreeEnv { clientOf P false with offlineMode := true } c = .ok c.state := by
  obtain ⟨P, R, hpacks, _, _⟩ := letterTree_packRun
  have hcoll := letterTree_noCollision P
  have S := clientOf_serves letterTreeEnv P true
  -- the run for downloads only
  obtain ⟨c, hc, hdata, EF, hcache, _⟩ : ∃ c, unpackClassify letterTreeEnv (clientOf P true) (fun _ => none) = .ok c ∧ _ :=
    R.unpackClassify S (by simp)
  have hright := R.right_classified hcache (by simp)
  obtain ⟨s, _, hs, _⟩ := R.downloads hcoll hpacks S EF hright
  have hrun : unpackMain letterTreeEnv (lexical []) (clientOf P true) (fun _ => none) (.oneDirectory [str ['o']]) =
      .ok ⟨c, s, .oneDirectory [str ['o']]⟩ := by
    simp only [unpackMain, hc, ok_bind, unpackDownload, S.online, Bool.false_eq_true, if_false, hs, unpackWrite,
      pure_eq_ok]
    rfl
  obtain ⟨c', hc', hdata', _, hsame, hdown, _⟩ : ∃ c', unpackClassify letterTreeEnv
      { clientOf P false with offlineMode := true } s.cache = .ok c' ∧ _ :=
    offline_complete R.run R.noReflink R.manifestSize hcoll hpacks hrun hdata rfl rfl rfl rfl
  exact ⟨P, _, c', R.run, hrun, hc', hdata', hsame, hdown⟩

end Sfmf
