import Sfmf.Proof.LazyHash
import Sfmf.Proof.RoundTrip

/-!
# Ways to what was packed

An unpacker can have the contents from a server, from its cache, from a directory beside the
manifest, or from local files with the right hash.

* `Access`, `LocalSources`: what a run has access to.
* `SameButLocal`: a classification with local sources, beside that without.
* `PackRun.route`: every run gets what it needs, and then does what an offline run on the output
  directory of the packer does.
* `routes_agree`, `delta_restores`: so any two runs leave the same, and it is the tree.
* `mirrors_serve`: chains of mirrors.
-/

namespace Sfmf

variable {E : Env} {D : SourceTree} {opts : PackOptions} {metaFile : Bytes} {outDir : Dir} {walk : List CString}
  {P : Packed} {m : Manifest} {U : UnpackOptions} {L : SourceTree}

/-! ## Local sources -/

/-- A path that is visited in the local sources. -/
def Visited (U : UnpackOptions) (p : CString) : Prop := ∃ walk ∈ U.sourcedirs, p ∈ walk

/-- What is read through a path of the local sources. -/
def LocalContent (U : UnpackOptions) (L : SourceTree) (d : Bytes) : Prop :=
  ∃ p, Visited U p ∧ (L.fopen p = some d ∨ L.readlink p = some d)

/-- **Local sources that can be used**: the files are there and can be compressed, and no symlink is mistaken for a
regular file that was packed. -/
structure LocalSources (E : Env) (D : SourceTree) (P : Packed) (U : UnpackOptions) (L : SourceTree) : Prop where
  disk : U.localDisk = L.toDisk
  visited : ∀ p, Visited U p → L.lstat p ≠ none
  deflates : ∀ p d, Visited U p → L.fopen p = some d → d ≠ [] → ∃ z, converted E .zcompress d = .ok z
  links : ∀ p st t, Visited U p → L.lstat p = some st → sIslnk st.stMode → L.readlink p = some t →
    ∀ f ∈ P.files, sIsreg f.st.stMode → D.fopen f.filename ≠ some t
  noCollision : E.NoCollision fun d => StoredContent D.toDisk P d ∨ LocalContent U L d

theorem LocalSources.stored (S : LocalSources E D P U L) : E.NoCollision (StoredContent D.toDisk P) :=
  fun a b ha hb => S.noCollision a b (.inl ha) (.inl hb)

/-- Nothing at all. -/
def emptyTree : SourceTree :=
  .ofList [] (fun _ h => absurd h List.not_mem_nil) (fun _ h => absurd h List.not_mem_nil)

/-- Without local sources nothing can be wrong with them. -/
theorem LocalSources.none (hcoll : E.NoCollision (StoredContent D.toDisk P)) (hdisk : U.localDisk = L.toDisk)
    (hno : U.sourcedirs = []) : LocalSources E D P U L := by
  have hv : ∀ p, ¬ Visited U p := by
    rintro p ⟨walk, hwalk, -⟩
    rw [hno] at hwalk
    cases hwalk
  refine ⟨hdisk, fun p h => absurd h (hv p), fun p _ h => absurd h (hv p), fun p _ _ h => absurd h (hv p), ?_⟩
  rintro a b (ha | ⟨p, hp, -⟩) (hb | ⟨q, hq, -⟩)
  · exact hcoll a b ha hb
  · exact absurd hq (hv q)
  · exact absurd hp (hv p)
  · exact absurd hp (hv p)

/-- An entry of the index of the local sources. -/
structure LocalEntry (E : Env) (U : UnpackOptions) (L : SourceTree) (f : FileEntry) : Prop where
  indexed : Indexed E L f
  prepared : Prepared f
  visited : Visited U f.filename
  stat : L.lstat f.filename = some f.st

theorem EntryMade.st {L : Disk} {flags : FileListFlags} {p : CString} {st : Stat} {f : FileEntry}
    (h : EntryMade E L p st flags f) : f.st = st := by
  cases h <;> rfl

/-- A path that is there becomes an entry, or is passed over. -/
theorem filelistAppend_total {D : SourceTree} {list : List FileEntry} {p : CString} {st : Stat}
    (hst : D.lstat p = some st) : ∃ list', filelistAppend E D.toDisk true .none list p = .ok list' := by
  unfold filelistAppend
  rw [hst]
  simp only
  split
  · have hmade : ∃ f, filelistAppendHash E D.toDisk .none ⟨p, st, 0, .zero, false, -1⟩ = .ok f := by
      unfold filelistAppendHash
      split
      · exact ⟨_, rfl⟩
      · split
        · rename_i hl
          obtain ⟨t, ht, -⟩ := D.symlink hst hl
          rw [ht]
          exact ⟨_, rfl⟩
        · exact ⟨_, rfl⟩
    obtain ⟨f, hf⟩ := hmade
    exact ⟨list ++ [f], by rw [hf]; rfl⟩
  · split
    · exact ⟨_, rfl⟩
    · exact ⟨_, rfl⟩

/-- **The index of the local sources.** -/
theorem LocalSources.index (S : LocalSources E D P U L) : ∃ index,
    U.sourcedirs.foldlM (extendFileList E U.localDisk true .none) [] = .ok index ∧ ∀ f ∈ index, LocalEntry E U L f := by
  refine foldlM_total (fun list => ∀ f ∈ list, LocalEntry E U L f) ?_ (by simp)
  intro list walk hwalk hlist
  refine foldlM_total (fun list => ∀ f ∈ list, LocalEntry E U L f) ?_ hlist
  intro list p hp hlist
  have hv : Visited U p := ⟨walk, hwalk, hp⟩
  obtain ⟨st, hst⟩ := Option.ne_none_iff_exists'.1 (S.visited p hv)
  rw [S.disk]
  obtain ⟨list', hrun⟩ : ∃ list', filelistAppend E L.toDisk true .none list p = .ok list' := filelistAppend_total hst
  refine ⟨list', hrun, fun f hf => ?_⟩
  obtain ⟨st', hst', ⟨-, -, rfl⟩ | ⟨-, g, hg, rfl⟩⟩ := filelistAppend_cases hrun
  · exact hlist f hf
  · rcases List.mem_append.1 hf with hf | hf
    · exact hlist f hf
    · rw [List.mem_singleton.1 hf]
      exact ⟨hg.indexed hst', hg.prepared, by rw [hg.filename]; exact hv, by rw [hg.filename, hg.st]; exact hst'⟩

/-- The hash of a local file can be calculated. -/
theorem LocalSources.calculated (S : LocalSources E D P U L) {f : FileEntry} (hf : LocalEntry E U L f) :
    ∃ f', Sfmf.calculated E L.toDisk f = .ok f' := by
  unfold Sfmf.calculated
  by_cases hlazy : f.hash.hashtype = hashtypeLazy
  · rw [if_pos hlazy]
    have hs : Stored f := by
      intro hs
      rw [hf.indexed.other hs] at hlazy
      exact absurd hlazy (by decide)
    obtain ⟨d, hd, hlen, -, ⟨-, hreg⟩ | hh⟩ := hf.indexed.stored hs
    · have hopen : L.fopen f.filename = some d := (if_neg (sIsreg_not_sIslnk hreg)).symm.trans hd
      have hne : d ≠ [] := by
        rintro rfl
        exact hs (.inl hlen.symm)
      obtain ⟨z, hz⟩ := S.deflates f.filename d hf.visited hopen hne
      exact ⟨_, fileentryCalculateZsizeHash_ok.2 ⟨d, z, hopen, hz, rfl⟩⟩
    · rw [hh] at hlazy
      exact absurd hlazy sha1_ne_lazy
  · rw [if_neg hlazy]
    exact ⟨f, rfl⟩

/-- **A local file with the hash of a regular file that was packed** has its content. -/
theorem LocalSources.copies (S : LocalSources E D P U L) {f g : FileEntry} (hf : LocalEntry E U L f) (hg : g ∈ P.files)
    (hs : Stored g) (hreg : sIsreg g.st.stMode) {d : Bytes} (hd : D.fopen g.filename = some d)
    (hhash : hashOf E d = (precomputed E L.toDisk f).hash) :
    L.fopen (precomputed E L.toDisk f).filename = some d := by
  obtain ⟨f', hcalc⟩ := S.calculated hf
  rw [precomputed_eq hcalc] at hhash ⊢
  obtain ⟨hf', hname, hst, -⟩ := calculated_indexed hcalc hf.indexed
  have hv : Visited U f'.filename := by rw [hname]; exact hf.visited
  have hstored : Stored f' := by
    intro hskip
    rw [hf'.other hskip] at hhash
    exact absurd (congrArg SfmfFileHash.hashtype hhash) (by simp only [hashOf]; decide)
  obtain ⟨c, hc, -, -, ⟨hlazy, -⟩ | hh⟩ := hf'.stored hstored
  · rw [← hhash] at hlazy
    exact absurd hlazy sha1_ne_lazy
  rw [hh] at hhash
  have hread : L.fopen f'.filename = some c ∨ (sIslnk f'.st.stMode ∧ L.readlink f'.filename = some c) := by
    unfold contentOf at hc
    split at hc
    · rename_i hlnk
      exact .inr ⟨hlnk, hc⟩
    · exact .inl hc
  have hcont : contentOf D.toDisk g = some d := (if_neg (sIsreg_not_sIslnk hreg)).trans hd
  have hdc : d = c := S.noCollision d c (.inl ⟨g, hg, hs, hcont⟩) (.inr ⟨_, hv, hread.imp_right And.right⟩)
    (congrArg SfmfFileHash.hash hhash)
  subst hdc
  rcases hread with hopen | ⟨hlnk, hlink⟩
  · exact hopen
  · have hstat : L.lstat f'.filename = some f'.st := by rw [hname, hst]; exact hf.stat
    exact absurd hd (S.links f'.filename f'.st d hv hstat hlnk hlink g hg hreg)

/-! ## Classification -/

/-- An offline run whose cache is the output directory of the packer. -/
def outDirOptions (outputdir : Bytes) : UnpackOptions :=
  ⟨outputdir, false, true, .cache, ⟨fun _ => none, fun _ => none, fun _ => none⟩, []⟩

/-- **A classified entry beside that of a run without local sources**: the same, or with a local file. -/
inductive SameButLocal (E : Env) (U : UnpackOptions) (L : SourceTree) (u₀ : UnpackFileEntry) : UnpackFileEntry → Prop where
  | same : SameButLocal E U L u₀ u₀
  | localFile {f : FileEntry} (hf : LocalEntry E U L f) (hlink : u₀.entry.type ≠ entryHardlink)
      (hsize : u₀.entry.hash.size > 0) (hhash : u₀.entry.hash = (precomputed E L.toDisk f).hash)
      (hres : ∀ b, u₀.blobResult ≠ .included b) :
      SameButLocal E U L u₀ { u₀ with blobResult := .localFile (precomputed E L.toDisk f) }

/-- What local files change of a lookup. -/
theorem referenceResult_local (L₀ : Disk) (index : List FileEntry) {e : SfmfFileEntry} :
    referenceResult E L.toDisk m index e = referenceResult E L₀ m [] e ∨
      (e.type ≠ entryHardlink ∧ e.hash.size > 0 ∧ (∀ b, referenceResult E L₀ m [] e ≠ .included b) ∧
        ∃ f ∈ index, e.hash = (precomputed E L.toDisk f).hash ∧
          referenceResult E L.toDisk m index e = .localFile (precomputed E L.toDisk f)) := by
  unfold referenceResult
  by_cases hlink : e.type = entryHardlink
  · rw [if_pos hlink, if_pos hlink]
    exact .inl rfl
  by_cases hsize : e.hash.size > 0
  swap
  · rw [if_neg hlink, if_neg hlink, if_neg hsize, if_neg hsize]
    exact .inl rfl
  rw [if_neg hlink, if_neg hlink, if_pos hsize, if_pos hsize]
  unfold referenceLookup
  cases hincluded : m.bentries.find? fun b => e.hash = b.hash with
  | some b => exact .inl rfl
  | none =>
    cases hlocal : (index.map (precomputed E L.toDisk)).find? fun f => e.hash = f.hash with
    | none => exact .inl rfl
    | some f' =>
      obtain ⟨f, hf, rfl⟩ := List.mem_map.1 (List.mem_of_find?_eq_some hlocal)
      have hhash : e.hash = (precomputed E L.toDisk f).hash := by simpa using List.find?_some hlocal
      refine .inr ⟨hlink, hsize, fun b => ?_, f, hf, hhash, rfl⟩
      simp only [Option.map_none, Option.none_or, List.map_nil, List.find?_nil]
      cases (m.pentries.zip m.packHashes).find? fun p => p.2.any fun h => e.hash = h <;> simp

/-- Searches among local files return, so a classification does. -/
theorem classifyEntries_indexed {index : List FileEntry} (hindex : ∀ f ∈ index, Prepared f)
    (hs : Searchable E U.localDisk m index) : ∀ {es : List SfmfFileEntry} {list : List FileEntry},
    List.Forall₂ (HashedSome E U.localDisk) index list →
    (∀ e ∈ es, (∃ name, m.filenameAt e.filenameOffset = .ok name) ∧ (e.hash.size > 0 → e.hash.hashtype = hashtypeSha1)) →
    ∃ p, classifyEntries E U m list es = .ok p := by
  intro es
  induction es with
  | nil => exact fun _ _ => ⟨_, rfl⟩
  | cons e es ih =>
    intro list hlist hes
    obtain ⟨⟨name, hname⟩, hsha⟩ := hes e List.mem_cons_self
    -- one entry, and what it leaves of the index
    have hentry : ∃ u list', unpackClassifyEntry E U m list e = .ok (u, list') ∧
        List.Forall₂ (HashedSome E U.localDisk) index list' := by
      by_cases hlink : e.type = entryHardlink
      · exact ⟨_, list, unpackClassifyEntry_iff.2 ⟨name, .hardlink, hname, rfl, hsha, .inl ⟨hlink, rfl, rfl⟩⟩, hlist⟩
      by_cases hsize : e.hash.size > 0
      · have h0 : e.hash.size ≠ 0 := fun h0 => by rw [h0] at hsize; exact absurd hsize (by decide)
        obtain ⟨⟨r, list'⟩, hsearch⟩ := searchBlobHash_total hlist hindex hs h0 (hsha hsize)
        exact ⟨_, list', unpackClassifyEntry_iff.2 ⟨name, r, hname, rfl, hsha, .inr (.inl ⟨hlink, hsize, hsearch⟩)⟩,
          (searchBlobHash_reference hlist hsearch).2⟩
      · exact ⟨_, list, unpackClassifyEntry_iff.2 ⟨name, .empty, hname, rfl, hsha, .inr (.inr ⟨hlink, hsize, rfl, rfl⟩)⟩,
          hlist⟩
    obtain ⟨u, list', hu, hlist'⟩ := hentry
    obtain ⟨⟨us, list''⟩, hus⟩ := ih hlist' fun e he => hes e (List.mem_cons_of_mem _ he)
    exact ⟨_, classifyEntries_cons.2 ⟨u, list', us, hu, hus, rfl⟩⟩

/-- Two classifications of one entry differ in the result at most. -/
theorem EntryClassified.eq {U' : UnpackOptions} {e : SfmfFileEntry} {u u' : UnpackFileEntry} (h : EntryClassified U m e u)
    (h' : EntryClassified U' m e u') (hout : U'.outputdir = U.outputdir) : u' = { u with blobResult := u'.blobResult } := by
  obtain ⟨name, hname, htarget⟩ := h.target
  obtain ⟨name', hname', htarget'⟩ := h'.target
  rw [hname, Except.ok.injEq] at hname'
  have hentry := h'.entry.trans h.entry.symm
  have htargets : u'.targetFilename = u.targetFilename := by rw [htarget, htarget', hout, hname']
  rw [← hentry, ← htargets]

section

variable (R : PackRun E D opts metaFile outDir walk P)
  (RB : ReadsBack E D.toDisk (withMetadata opts metaFile) P.files P.packs P.buckets.includedFiles P.manifest m)

include R RB

/-- Every search in a manifest that was packed returns. -/
theorem PackRun.searchable (hm : readManifest P.manifest = .ok m) {index : List FileEntry} {L : Disk}
    (hfiles : ∀ f ∈ index, ∃ f', calculated E L f = .ok f') : Searchable E L m index where
  blobs := R.blobs_sha1 RB
  packs := R.packHashes_sha1 RB hm
  files := hfiles

/-- **The classification with local sources**, beside that without. -/
theorem PackRun.classifyLocal (hm : readManifest P.manifest = .ok m) (S : LocalSources E D P U L)
    {us₀ : List UnpackFileEntry}
    (hus₀ : classifyEntries E (outDirOptions U.outputdir) m [] m.fentries = .ok (us₀, [])) : ∃ index us index',
      U.sourcedirs.foldlM (extendFileList E U.localDisk true .none) [] = .ok index ∧
      classifyEntries E U m index m.fentries = .ok (us, index') ∧ List.Forall₂ (SameButLocal E U L) us₀ us := by
  obtain ⟨index, hbuilt, hentries⟩ := S.index
  have hsearchable : Searchable E U.localDisk m index := R.searchable RB hm fun f hf => by
    rw [S.disk]
    exact S.calculated (hentries f hf)
  have hstart : List.Forall₂ (HashedSome E U.localDisk) index index := List.forall₂_same.2 fun f _ => .inl rfl
  obtain ⟨⟨us, index'⟩, hus⟩ := classifyEntries_indexed (fun f hf => (hentries f hf).prepared) hsearchable hstart
    fun e he => by
      obtain ⟨_, u, _, hu⟩ := classifyEntries_each hus₀ e he
      obtain ⟨name, _, hname, _, hsha, _⟩ := unpackClassifyEntry_iff.1 hu
      exact ⟨⟨name, hname⟩, hsha⟩
  have hclass₀ := classifyEntries_ok hus₀
  have hclass := classifyEntries_ok hus
  have hres₀ : List.Forall₂ (fun e u => u.blobResult = referenceResult E (outDirOptions U.outputdir).localDisk m [] e)
      m.fentries us₀ := classifyEntries_reference rfl .nil hus₀
  have hres := classifyEntries_reference S.disk (S.disk ▸ hstart) hus
  refine ⟨index, us, index', hbuilt, hus, List.forall₂_iff_get.2 ⟨hclass₀.length_eq.symm.trans hclass.length_eq, ?_⟩⟩
  intro i hi hi'
  have he : i < m.fentries.length := hclass.length_eq ▸ hi'
  have heq := (hclass₀.get he hi).eq (hclass.get he hi') rfl
  have hr₀ := hres₀.get he hi
  have hr := hres.get he hi'
  have hentry := (hclass₀.get he hi).entry
  simp only [List.get_eq_getElem] at heq hr₀ hr hentry ⊢
  rw [heq]
  rcases referenceResult_local (outDirOptions U.outputdir).localDisk index (E := E) (L := L) (m := m)
    (e := m.fentries[i]) with hsame | ⟨hlink, hsize, hno, f, hf, hhash, hlocal⟩
  · have hsame : us[i].blobResult = us₀[i].blobResult := by rw [hr, hr₀, hsame]
    rw [hsame]
    exact .same
  · rw [hr, hlocal]
    rw [← hentry] at hlink hsize hhash
    exact .localFile (hentries f hf) hlink hsize hhash fun b => by rw [hr₀]; exact hno b

/-! ## What a run gets -/

/-- **Access to what was packed**: nothing in the cache is wrong, and what was written can be fetched, or, offline, is
in the cache. -/
structure Access (E : Env) (P : Packed) (U : UnpackOptions) (cache : Dir) : Prop where
  cached : ∀ name d, Written P name → cache name = some d → P.outDir name = some d
  served : U.offlineMode = false → ∀ name d, Written P name → P.outDir name = some d → fetch E U.source name = .ok d
  complete : U.offlineMode = true → ∀ name, Written P name → cache name ≠ none

omit R RB in
/-- What an entry needs does not depend on local sources, unless one of them serves it. -/
theorem SameButLocal.needs {u₀ u : UnpackFileEntry} (h : SameButLocal E U L u₀ u) (hn : Needs u) : u = u₀ := by
  cases h with
  | same => rfl
  | localFile => rcases hn.2 with ⟨pack, hpack⟩ | hfull <;> contradiction

variable {cache : Dir}

omit R RB in
/-- **What was downloaded into a cache**: files that were written and were not there, as they were written. -/
structure Downloaded (P : Packed) (cache : Dir) (s : CacheState) : Prop where
  nodup : s.downloads.Nodup
  missing : ∀ name ∈ s.downloads, Written P name ∧ cache name = none
  cached : ∀ name, s.cache name = if name ∈ s.downloads then P.outDir name else cache name

omit RB in
/-- The manifest is in the cache, or fetched. -/
theorem Access.manifest (A : Access E P U cache) : ∃ s, downloadPayloadFile E U.source U.offlineMode manifestFilename none
    false ⟨cache, [], []⟩ = .ok (some manifestFilename, s) ∧ s.cache manifestFilename = some P.manifest ∧
    Downloaded P cache s := by
  have hout := R.outDir_manifest
  cases hc : cache manifestFilename with
  | none =>
    cases hoff : U.offlineMode with
    | true => exact absurd hc (A.complete hoff manifestFilename (.inl rfl))
    | false =>
      have hfetch := A.served hoff manifestFilename P.manifest (.inl rfl) hout
      have hwrite : ∀ name, (cache.write manifestFilename P.manifest) name =
          if name = manifestFilename then some P.manifest else cache name := fun _ => rfl
      refine ⟨⟨cache.write manifestFilename P.manifest, [manifestFilename], [manifestFilename]⟩, ?_,
        (hwrite _).trans (if_pos rfl), List.nodup_singleton _, fun name hname => ?_, fun name => ?_⟩
      · simp [downloadPayloadFile, checkCached, hc, downloadMissing, hfetch]
      · rw [List.mem_singleton.1 hname]
        exact ⟨.inl rfl, hc⟩
      · by_cases he : name = manifestFilename
        · rw [if_pos (List.mem_singleton.2 he), he, hout]
          exact (hwrite _).trans (if_pos rfl)
        · rw [if_neg (mt List.mem_singleton.1 he)]
          exact (hwrite _).trans (if_neg he)
  | some d =>
    have hd := A.cached manifestFilename d (.inl rfl) hc
    rw [hout, Option.some.injEq] at hd
    exact ⟨⟨cache, [], []⟩, by simp [downloadPayloadFile, checkCached, hc], hc.trans (congrArg some hd.symm), List.nodup_nil,
      fun name hname => absurd hname List.not_mem_nil, fun name => (if_neg List.not_mem_nil).symm⟩

omit R RB in
/-- Nothing gets wrong in a cache. -/
theorem Downloaded.right {s : CacheState} (H : Downloaded P cache s) (A : Access E P U cache) :
    ∀ name d, Written P name → s.cache name = some d → P.outDir name = some d := by
  intro name d hw hd
  rw [H.cached] at hd
  split at hd
  · exact hd
  · exact A.cached name d hw hd

variable (hpacks : E.NoCollision (PackFileContent E D.toDisk (withMetadata opts metaFile) P))

include hpacks

/-- What an entry needs, with local sources or without, was written. -/
theorem PackRun.needsLocal (S : LocalSources E D P U L) {us₀ us : List UnpackFileEntry}
    (hus₀ : classifyEntries E (outDirOptions U.outputdir) m [] m.fentries = .ok (us₀, []))
    (hlocal : List.Forall₂ (SameButLocal E U L) us₀ us) {u : UnpackFileEntry} (hu : u ∈ us) (hn : Needs u) :
    ∃ name hash z d, Requires u name hash z ∧ Written P name ∧ P.outDir name = some d ∧ Verifies E hash z d := by
  obtain ⟨us', hus', hlen, hentry⟩ := R.classify RB (outDirOptions U.outputdir)
  rw [hus₀, Except.ok.injEq, Prod.mk.injEq] at hus'
  obtain ⟨rfl, -⟩ := hus'
  obtain ⟨i, hi, rfl⟩ := List.getElem_of_mem hu
  have hi' : i < us₀.length := hlocal.length_eq ▸ hi
  have heq := (hlocal.get hi' hi).needs hn
  rw [List.get_eq_getElem, List.get_eq_getElem] at heq
  rw [heq] at hn ⊢
  exact R.needs S.stored hpacks ⟨RB, hlen, hentry⟩ (List.getElem_mem hi') hn

/-- **The downloads of a run**: what is needed and was not there, unless the run is an offline one. -/
theorem PackRun.downloadsLocal (A : Access E P U cache) (S : LocalSources E D P U L) {us₀ : List UnpackFileEntry}
    (hus₀ : classifyEntries E (outDirOptions U.outputdir) m [] m.fentries = .ok (us₀, [])) {c : Classified}
    (hlocal : List.Forall₂ (SameButLocal E U L) us₀ c.entries) (H : Downloaded P cache c.state) :
    ∃ s, unpackDownload E U c = .ok s ∧ Downloaded P cache s ∧
      (∀ name d, c.state.cache name = some d → s.cache name = some d) ∧
      ∀ u ∈ c.entries, ∀ name hash z, Requires u name hash z → s.cache name = P.outDir name := by
  have hneeds : ∀ u ∈ c.entries, Needs u → _ := fun u hu hn => R.needsLocal RB hpacks S hus₀ hlocal hu hn
  have hright := H.right A
  have hwritten : ∀ u ∈ c.entries, ∀ name hash z, Requires u name hash z →
      Written P name ∧ ∃ d, P.outDir name = some d := by
    intro u hu name hash z hreq
    obtain ⟨name', _, _, d, hreq', hw, hd, -⟩ := hneeds u hu hreq.needs
    rw [hreq.name_inj hreq'] at hw hd
    exact ⟨hw, d, hd⟩
  cases hoff : U.offlineMode with
  | true =>
    refine ⟨c.state, by rw [unpackDownload, hoff, if_pos rfl]; rfl, H, fun _ _ hd => hd, fun u hu name hash z hreq => ?_⟩
    obtain ⟨hw, -⟩ := hwritten u hu name hash z hreq
    obtain ⟨d, hd⟩ := Option.ne_none_iff_exists'.1 (A.complete hoff name hw)
    rw [H.cached]
    split
    · rfl
    · rw [hd, A.cached name d hw hd]
  | false =>
    obtain ⟨s, l, hrun, hnodup, hdown, hmem, hs⟩ := downloads_exact hoff P.outDir (s := c.state)
      (fun u hu hn => by
        obtain ⟨name, hash, z, d, hreq, hw, hd, hv⟩ := hneeds u hu hn
        exact ⟨name, hash, z, d, hreq, hd, A.served hoff name d hw hd, hv⟩)
      (fun u hu name hash z d hreq => hright name d (hwritten u hu name hash z hreq).1)
    have hl : ∀ name ∈ l, Written P name ∧ P.outDir name ≠ none ∧ c.state.cache name = none := by
      intro name hname
      obtain ⟨hnone, u, hu, hash, z, hreq⟩ := (hmem name).1 hname
      obtain ⟨hw, d, hd⟩ := hwritten u hu name hash z hreq
      exact ⟨hw, by rw [hd]; exact Option.some_ne_none d, hnone⟩
    -- what was downloaded before is not downloaded again
    have hdisjoint : ∀ name ∈ c.state.downloads, name ∉ l := by
      intro name hname hname'
      obtain ⟨-, hsome, hnone⟩ := hl name hname'
      rw [H.cached, if_pos hname] at hnone
      exact hsome hnone
    refine ⟨s, by rw [unpackDownload, hoff, if_neg Bool.false_ne_true]; exact hrun, ⟨?_, fun name hname => ?_, fun name => ?_⟩,
      fun name d hd => ?_, fun u hu name hash z hreq => ?_⟩
    · rw [hdown]
      exact H.nodup.append hnodup fun name h h' => hdisjoint name h h'
    · rw [hdown] at hname
      rcases List.mem_append.1 hname with h | h
      · exact H.missing name h
      · obtain ⟨hw, -, hnone⟩ := hl name h
        rw [H.cached, if_neg fun h' => hdisjoint name h' h] at hnone
        exact ⟨hw, hnone⟩
    · rw [hs, hdown, H.cached]
      by_cases h : name ∈ l
      · rw [if_pos h, if_pos (List.mem_append_right _ h)]
      · rw [if_neg h]
        by_cases h' : name ∈ c.state.downloads
        · rw [if_pos h', if_pos (List.mem_append_left _ h')]
        · rw [if_neg h', if_neg fun hin => (List.mem_append.1 hin).elim h' h]
    · rw [hs, if_neg fun h => ?_, hd]
      obtain ⟨-, -, hnone⟩ := hl name h
      rw [hd] at hnone
      cases hnone
    · obtain ⟨hw, d, hd⟩ := hwritten u hu name hash z hreq
      rw [hs]
      split
      · rfl
      · rename_i hnot
        cases hc : c.state.cache name with
        | none => exact absurd ((hmem name).2 ⟨hc, u, hu, hash, z, hreq⟩) hnot
        | some d' => rw [hright name d' hw hc]

/-- **What a run knows and has** when it starts to write. -/
structure ReadyToWrite (E : Env) (P : Packed) (m : Manifest) (U : UnpackOptions) (L : SourceTree) (us₀ : List UnpackFileEntry)
    (cache : Dir) (c : Classified) (s : CacheState) : Prop where
  data : c.data = P.manifest
  manifest : c.manifest = m
  entries : List.Forall₂ (SameButLocal E U L) us₀ c.entries
  downloaded : Downloaded P cache s
  manifestCached : s.cache manifestFilename = some P.manifest
  required : ∀ u ∈ c.entries, ∀ name hash z, Requires u name hash z → s.cache name = P.outDir name

/-- **Every run gets what it needs.** -/
theorem PackRun.ready (hm : readManifest P.manifest = .ok m) (A : Access E P U cache) (S : LocalSources E D P U L)
    {us₀ : List UnpackFileEntry}
    (hus₀ : classifyEntries E (outDirOptions U.outputdir) m [] m.fentries = .ok (us₀, [])) :
    ∃ c s, Sfmf.unpackClassify E U cache = .ok c ∧ unpackDownload E U c = .ok s ∧ ReadyToWrite E P m U L us₀ cache c s := by
  obtain ⟨s₁, hs₁, hmanifest, H⟩ := A.manifest R
  obtain ⟨index, us, index', hindex, hus, hlocal⟩ := R.classifyLocal RB hm S hus₀
  rw [readManifest] at hm
  obtain ⟨⟨header, pos⟩, hheader, hread⟩ := bind_ok.1 hm
  simp only at hread
  have hclass : Sfmf.unpackClassify E U cache = .ok ⟨P.manifest, m, us, index', s₁⟩ := by
    simp only [Sfmf.unpackClassify, hs₁, ok_bind, cAssert, Option.isSome_some, if_true, hmanifest, hheader, hindex, hread,
      hus, pure_eq_ok]
  obtain ⟨s, hs, H', hkept, hrequired⟩ := R.downloadsLocal RB hpacks A S hus₀ (c := ⟨P.manifest, m, us, index', s₁⟩)
    hlocal H
  exact ⟨_, s, hclass, hs, rfl, rfl, hlocal, H', hkept _ _ hmanifest, hrequired⟩

end

/-! ## What a run does -/

section

variable {Loc : Type} [DecidableEq Loc] {N : Naming Loc} {cache cache' : Dir} {U' : UnpackOptions}

omit [DecidableEq Loc] in
/-- The permissions that are set depend on the entry and its path. -/
theorem unpackSetPermissions_blob (u : UnpackFileEntry) (r : BlobResult) (s : List DirStackEntry × FS Loc) :
    unpackSetPermissions N s { u with blobResult := r } = unpackSetPermissions N s u := rfl

/-- The operations on a new file do not depend on where its payload is cached, or on local sources that do not
serve it. -/
theorem blobOps_congr {d : Bytes} {u : UnpackFileEntry} (htype : u.entry.type = entryFile)
    (hcache : ∀ name hash z, Requires u name hash z → cache name = cache' name)
    (hlocal : ∀ f, u.blobResult ≠ .localFile f) :
    blobOps U d cache u.entry u.blobResult = blobOps U' d cache' u.entry u.blobResult := by
  unfold blobOps
  cases hr : u.blobResult with
  | localFile f => exact absurd hr (hlocal f)
  | packed pack =>
    cases hname : makePackFilename pack.hash with
    | error s => simp only [hname, error_bind]
    | ok name =>
      simp only [hname, ok_bind]
      rw [hcache name pack.hash false ⟨htype, .inl ⟨pack, hr, hname, rfl, rfl⟩⟩]
  | full =>
    cases hname : makeBlobFilename u.entry.hash with
    | error s => simp only [error_bind]
    | ok name =>
      simp only [ok_bind]
      rw [hcache name u.entry.hash _ ⟨htype, .inr ⟨hr, hname, rfl, rfl⟩⟩]
  | _ => rfl

/-- The writing of a file depends on its operations. -/
theorem writeBlobData_congr {d : Bytes} {u : UnpackFileEntry} (fs : FS Loc)
    (h : blobOps U d cache u.entry u.blobResult = blobOps U' d cache' u.entry u.blobResult) :
    writeBlobData E N U d cache fs u = writeBlobData E N U' d cache' fs u := by
  unfold writeBlobData
  rw [h]

/-- The writing of an entry without a local file depends on the cache for its payload only. -/
theorem unpackWriteEntry_congr {d : Bytes} {u : UnpackFileEntry} (fs : FS Loc) (hout : U'.outputdir = U.outputdir)
    (hcache : ∀ name hash z, Requires u name hash z → cache name = cache' name)
    (hlocal : ∀ f, u.blobResult ≠ .localFile f) :
    unpackWriteEntry E N U d m cache fs u = unpackWriteEntry E N U' d m cache' fs u := by
  have hwrite : u.entry.type = entryFile → writeBlobData E N U d cache fs u = writeBlobData E N U' d cache' fs u :=
    fun htype => writeBlobData_congr fs (blobOps_congr htype hcache hlocal)
  unfold unpackWriteEntry
  by_cases htype : u.entry.type = entryFile
  · simp only [hwrite htype, hout]
  · simp only [if_neg htype, hout]

/-- What an offline run on the output directory of the packer knows. -/
def fromOutDir (P : Packed) (m : Manifest) (us₀ : List UnpackFileEntry) : Classified :=
  ⟨P.manifest, m, us₀, [], ⟨P.outDir, [], []⟩⟩

variable (R : PackRun E D opts metaFile outDir walk P)
  (RB : ReadsBack E D.toDisk (withMetadata opts metaFile) P.files P.packs P.buckets.includedFiles P.manifest m)
  (hpacks : E.NoCollision (PackFileContent E D.toDisk (withMetadata opts metaFile) P))

include R RB hpacks

/-- **A local file gives what the output directory of the packer gives.** -/
theorem PackRun.writeEntry_local (S : LocalSources E D P U L) {f : FileEntry} {u₀ u : UnpackFileEntry}
    (hf : f ∈ P.files) (hback : EntryReadsBack (withMetadata opts metaFile) m f u₀.entry)
    (hres : ResultFor P m f u₀.blobResult) (hsame : SameButLocal E U L u₀ u)
    (hcache : ∀ name hash z, Requires u name hash z → cache name = P.outDir name) (fs : FS Loc) :
    unpackWriteEntry E N U P.manifest m cache fs u =
      unpackWriteEntry E N (outDirOptions U.outputdir) P.manifest m P.outDir fs u₀ := by
  cases hsame with
  | same => exact unpackWriteEntry_congr fs rfl hcache fun l h => by rw [h] at hres; cases hres
  | @localFile g hg hlink hsize hhash hno =>
    by_cases htype : u₀.entry.type = entryFile
    · -- both ways give the content
      have hreg := ((manifestEntryType_file hback.type).1 htype).1
      have hs : Stored f := by
        rw [← R.hash_size hf, ← hback.hash]
        exact hsize
      obtain ⟨ops, d, hops, hw, hd, hcase⟩ := R.blobOps_content S.stored hpacks RB hf hreg hres htype hback (fun _ _ _ _ => rfl)
        (U := outDirOptions U.outputdir)
      have hne : u₀.blobResult ≠ .empty := by
        intro he
        rw [he] at hres
        cases hres with
        | empty hskip => exact hskip hs
      have hcopy := S.copies hg hf hs hreg hd (by rw [← hcase.resolve_left hne, ← hback.hash, hhash])
      have hlocal : blobOps U P.manifest cache u₀.entry (.localFile (precomputed E L.toDisk g)) =
          .ok [.convertFile d .none] := by
        simp only [blobOps, S.disk, Disk.openFile, hcopy, ok_bind, pure_eq_ok]
      have hw' : writeFile E [.convertFile d .none] = .ok d :=
        (writeFile_ok E R.noReflink).2 ⟨[d], mapM_ok.2 (.cons (converted_none E d) .nil), by simp⟩
      unfold unpackWriteEntry
      have hdir : ¬ u₀.entry.type = entryDirectory := by rw [htype]; decide
      simp only [if_neg hdir, if_pos htype]
      unfold writeBlobData
      simp only [hops, hlocal, ok_bind, hw, hw', if_neg hne, reduceCtorEq, if_false]
    · -- a symlink is not made from another blob than an included one
      unfold unpackWriteEntry
      simp only [if_neg htype, if_neg hlink]

/-- **What a run leaves** is what an offline run on the output directory of the packer writes. -/
theorem PackRun.route (hm : readManifest P.manifest = .ok m) (A : Access E P U cache) (S : LocalSources E D P U L)
    (hfull : U.downloadOnly = false) {us₀ : List UnpackFileEntry}
    (hus₀ : classifyEntries E (outDirOptions U.outputdir) m [] m.fentries = .ok (us₀, [])) (fs : FS Loc) :
    (unpackMain E N U cache fs).map (·.fs) =
      unpackWrite E N (outDirOptions U.outputdir) (fromOutDir P m us₀) ⟨P.outDir, [], []⟩ fs := by
  obtain ⟨c, s, hc, hs, H⟩ := R.ready RB hpacks hm A S hus₀
  obtain ⟨us', hus', hlen, hentry⟩ := R.classify RB (outDirOptions U.outputdir)
  rw [hus₀, Except.ok.injEq, Prod.mk.injEq] at hus'
  obtain ⟨rfl, -⟩ := hus'
  have hwrite : ∀ fs : FS Loc, c.entries.foldlM (unpackWriteEntry E N U P.manifest m s.cache) fs =
      us₀.foldlM (unpackWriteEntry E N (outDirOptions U.outputdir) P.manifest m P.outDir) fs := by
    refine foldlM_congr₂ (List.forall₂_iff_get.2 ⟨H.entries.length_eq.symm, fun i hi hi' fs => ?_⟩)
    have hf : i < P.files.length := hlen ▸ hi'
    obtain ⟨u, name, hu, -, hback, -, -, hres, -⟩ := hentry i P.files[i] (List.getElem?_eq_getElem hf)
    rw [List.getElem?_eq_getElem hi', Option.some.injEq] at hu
    subst hu
    exact R.writeEntry_local RB hpacks S (List.getElem_mem hf) hback hres (H.entries.get hi' hi)
      (H.required _ (List.getElem_mem hi)) fs
  have hperm : ∀ p : List DirStackEntry × FS Loc, c.entries.foldlM (unpackSetPermissions N) p =
      us₀.foldlM (unpackSetPermissions N) p := by
    refine foldlM_congr₂ (H.entries.flip.imp fun u u₀ hu p => ?_)
    cases hu with
    | same => rfl
    | localFile => exact unpackSetPermissions_blob u₀ _ p
  have hmap : ∀ x : Exec (FS Loc), Except.map (·.fs) (x >>= fun fs => .ok (⟨c, s, fs⟩ : Unpacked Loc)) = x := by
    intro x
    cases x <;> rfl
  have houtonly : (outDirOptions U.outputdir).downloadOnly = false := rfl
  simp only [unpackMain, hc, hs, ok_bind, pure_eq_ok, hmap, unpackWrite, hfull, houtonly, Bool.false_eq_true, if_false,
    H.data, H.manifest, hwrite, hperm, fromOutDir]

/-- A run succeeds if that one does. -/
theorem PackRun.route_ok (hm : readManifest P.manifest = .ok m) (A : Access E P U cache) (S : LocalSources E D P U L)
    (hfull : U.downloadOnly = false) {us₀ : List UnpackFileEntry}
    (hus₀ : classifyEntries E (outDirOptions U.outputdir) m [] m.fentries = .ok (us₀, [])) {fs fs' : FS Loc}
    (hwrite : unpackWrite E N (outDirOptions U.outputdir) (fromOutDir P m us₀) ⟨P.outDir, [], []⟩ fs = .ok fs') :
    ∃ r, unpackMain E N U cache fs = .ok r ∧ r.fs = fs' := by
  have hroute := R.route RB hpacks hm A S hfull hus₀ fs (N := N)
  rw [hwrite] at hroute
  cases hrun : unpackMain E N U cache fs with
  | error s =>
    rw [hrun] at hroute
    cases hroute
  | ok r =>
    rw [hrun] at hroute
    exact ⟨r, rfl, Except.ok.inj hroute⟩

end

/-! ## Any two runs -/

/-- An unpacker that has the tree itself, too. -/
def deltaOf (P : Packed) : UnpackOptions := { clientOf P false with localDisk := letterTree.toDisk, sourcedirs := [letterWalk] }

theorem servedOf (P : Packed) (hon : U.offlineMode = false) (hsource : U.source = .http P.outDir) :
    Access E P U (fun _ => none) where
  cached _ _ _ h := by cases h
  served _ name d _ hd := by simp only [fetch, hsource, hd]
  complete hoff := absurd (hoff.symm.trans hon) (by decide)

theorem letterTree_content {p : CString} {d : Bytes} (h : letterTree.fopen p = some d ∨ letterTree.readlink p = some d) :
    d ∈ [[], letters, [0x61]] := by
  have hreg : ¬ sIslnk 0o100644 := by decide
  have hlnk : sIslnk 0o120777 := by decide
  rcases h with h | h
  · exact letterTree_read (f := ⟨p, ⟨1, 0o100644, 0, 0, 0, 0, 0⟩, 0, .zero, false, -1⟩) ((if_neg hreg).trans h)
  · exact letterTree_read (f := ⟨p, ⟨1, 0o120777, 0, 0, 0, 0, 0⟩, 0, .zero, false, -1⟩) ((if_pos hlnk).trans h)

/-- The contents of the tree of the letters. -/
def letterContents : List Bytes := [[], letters, [0x61]]

/-- The tree of the letters as a local source of itself. -/
theorem deltaOf_localSources {E : Env} {P : Packed}
    (hinj : ∀ a ∈ letterContents, ∀ b ∈ letterContents, E.sha1 a = E.sha1 b → a = b)
    (hdeflated : ∀ d ∈ letterContents, d ≠ [] → (converted E .zcompress d).passes fun _ => true)
    (hlisted : ∀ f ∈ P.files, Listed E letterTree f) (hfiles : P.files.map (·.filename) = letterWalk) :
    LocalSources E letterTree P (deltaOf P) letterTree := by
  have hvisited : ∀ {p : CString}, Visited (deltaOf P) p → p ∈ letterWalk := by
    rintro p ⟨walk, hwalk, hp⟩
    rwa [List.mem_singleton.1 hwalk] at hp
  have hnames : ∀ f ∈ P.files, f.filename ∈ letterWalk := fun f hf => hfiles ▸ List.mem_map.2 ⟨f, hf, rfl⟩
  have hlinks : ∀ p ∈ letterWalk, ∀ q ∈ letterWalk, (letterTree.lstat p).any (fun st => sIslnk st.stMode) →
      (letterTree.lstat q).any (fun st => sIsreg st.stMode) → letterTree.readlink p ≠ letterTree.fopen q := by
    decide +kernel
  have hstored : ∀ d, (StoredContent letterTree.toDisk P d ∨ LocalContent (deltaOf P) letterTree d) →
      d ∈ letterContents := by
    rintro d (⟨f, -, -, hd⟩ | ⟨p, -, hd⟩)
    · exact letterTree_read hd
    · exact letterTree_content hd
  refine ⟨rfl, fun p hp => ?_, fun p d hp hd hne => ?_, fun p st t hp hst hlnk ht f hf hreg hopen => ?_,
    fun a b ha hb => hinj a (hstored a ha) b (hstored b hb)⟩
  · have hthere : ∀ p ∈ letterWalk, letterTree.lstat p ≠ none := by decide
    exact hthere p (hvisited hp)
  · obtain ⟨z, hz, -⟩ := Exec.of_passes (hdeflated d (letterTree_content (.inl hd)) hne)
    exact ⟨z, hz⟩
  · refine hlinks p (hvisited hp) f.filename (hnames f hf) ?_ ?_ (ht.trans hopen.symm)
    · rw [hst]
      exact decide_eq_true hlnk
    · rw [(hlisted f hf).lstat]
      exact decide_eq_true hreg

theorem deltaOf_sources {P : Packed} (hlisted : ∀ f ∈ P.files, Listed letterTreeEnv letterTree f)
    (hfiles : P.files.map (·.filename) = letterWalk) : LocalSources letterTreeEnv letterTree P (deltaOf P) letterTree := by
  have hinj : ∀ a ∈ letterContents, ∀ b ∈ letterContents, letterTreeEnv.sha1 a = letterTreeEnv.sha1 b → a = b := by
    decide +kernel
  have hdeflated : ∀ d ∈ letterContents, d ≠ [] → (converted letterTreeEnv .zcompress d).passes fun _ => true := by
    decide +kernel
  exact deltaOf_localSources hinj hdeflated hlisted hfiles

section

variable {Loc : Type} {N : Naming Loc} {place : List Bytes → Loc} {us : List UnpackFileEntry}
  (R : PackRun E D opts metaFile outDir walk P) (T : N.Tree U.outputdir place) (EF : EntriesFor R U m us)
  (W : TreeWalk D.toDisk opts.inDir walk)

include R W

/-- No file is unpacked to an empty path. -/
theorem PackRun.basename_ne_nil {k : ℕ} {f : FileEntry} {name : Bytes} (hf : P.files[k]? = some f)
    (hname : getFileBasename opts.inDir f.filename = .ok name) : name ≠ [] := by
  rintro rfl
  obtain ⟨cs, -, hpath⟩ := R.leadsDown W hf
  by_cases hcs : cs = []
  · subst hcs
    have hroot : f.filename = opts.inDir := Subtype.ext (by simpa using hpath)
    rw [hroot, getFileBasename_root] at hname
    exact absurd (Except.ok.inj hname) (by decide)
  · obtain ⟨a, as, rfl⟩ := List.exists_cons_of_ne_nil hcs
    rw [getFileBasename_below hcs hpath] at hname
    exact absurd (Except.ok.inj hname) (by simp [pathOf])

include T EF

/-- Every entry has a path of its own, which is not empty. -/
theorem PackRun.targets_distinct : (us.map (·.targetFilename)).Nodup ∧ ∀ u ∈ us, u.targetFilename ≠ [] := by
  refine ⟨List.nodup_iff_getElem?_ne_getElem?.2 fun i j hij hj he => ?_, fun u hu => ?_⟩
  · rw [List.length_map] at hj
    rw [List.getElem?_map, List.getElem?_map, List.getElem?_eq_getElem hj, List.getElem?_eq_getElem (hij.trans hj)] at he
    simp only [Option.map_some, Option.some.injEq] at he
    exact hij.ne (R.target_inj T EF W (List.getElem?_eq_getElem (hij.trans hj)) (List.getElem?_eq_getElem hj) (by rw [he]))
  · obtain ⟨i, hi, rfl⟩ := List.getElem_of_mem hu
    have hf : i < P.files.length := EF.length ▸ hi
    obtain ⟨v, name, hv, -, -, hname, htarget, -⟩ := EF.entry i P.files[i] (List.getElem?_eq_getElem hf)
    rw [List.getElem?_eq_getElem hi, Option.some.injEq] at hv
    rw [hv, htarget]
    exact List.append_ne_nil_of_right_ne_nil _ (R.basename_ne_nil W (List.getElem?_eq_getElem hf) hname)

/-- **What is written from the output directory** below a directory with nothing in it is the tree. -/
theorem PackRun.outDir_restores [DecidableEq Loc] (hcoll : E.NoCollision (StoredContent D.toDisk P))
    (hpacks : E.NoCollision (PackFileContent E D.toDisk (withMetadata opts metaFile) P))
    (hlinks : ∀ f ∈ P.files, ∀ g ∈ P.files, sIslnk f.st.stMode → sIsreg g.st.stMode →
      D.readlink f.filename ≠ D.fopen g.filename) (hfull : U.downloadOnly = false) {fs : FS Loc}
    (hroot : fs.nodeAt (place []) = some .directory) (hempty : ∀ cs, cs ≠ [] → fs.ent (place cs) = none) :
    ∃ fs', unpackWrite E N U (fromOutDir P m us) ⟨P.outDir, [], []⟩ fs = .ok fs' ∧
      ∀ f ∈ P.files, ∃ name n, getFileBasename opts.inDir f.filename = .ok name ∧
        fs'.nodeAt (N.resolve (U.outputdir ++ name)) = some n ∧ Restored D.toDisk f n := by
  obtain ⟨fs₁, hwrite, I⟩ := R.writeEntries_restores T EF W hcoll hpacks hlinks (fun _ _ _ _ _ _ => rfl) hroot hempty
  have hdone : ∀ f ∈ P.files, ∃ name n, getFileBasename opts.inDir f.filename = .ok name ∧
      fs₁.nodeAt (N.resolve (U.outputdir ++ name)) = some n ∧ Restored D.toDisk f n := by
    intro f hf
    obtain ⟨i, hi, rfl⟩ := List.getElem_of_mem hf
    obtain ⟨u, name, hu, -, -, hname, htarget, -⟩ := EF.entry i P.files[i] (List.getElem?_eq_getElem hi)
    obtain ⟨n, hn, hrest⟩ := I.done i _ u (EF.length.symm ▸ hi) (List.getElem?_eq_getElem hi) hu
    exact ⟨name, n, hname, htarget ▸ hn, hrest⟩
  have hent : ∀ u ∈ us, fs₁.ent (N.resolve u.targetFilename) ≠ none := by
    intro u hu hnone
    obtain ⟨i, hi, rfl⟩ := List.getElem_of_mem hu
    have hf : i < P.files.length := EF.length ▸ hi
    obtain ⟨n, hn, -⟩ := I.done i P.files[i] us[i] hi (List.getElem?_eq_getElem hf) (List.getElem?_eq_getElem hi)
    rw [FS.nodeAt, hnone] at hn
    cases hn
  obtain ⟨hdist, hne⟩ := R.targets_distinct T EF W
  obtain ⟨stack, fs₂, fs₃, hperm, hfree⟩ := setPermissions_total hent hdist hne
  have hsame : FS.SameTree fs₁ fs₃ := (setPermissions_sameTree hperm).trans (dirstackFree_sameTree hfree)
  refine ⟨fs₃, ?_, fun f hf => ?_⟩
  · simp only [unpackWrite, hfull, Bool.false_eq_true, if_false, fromOutDir, hwrite, ok_bind, hperm, hfree]
  · obtain ⟨name, n, hname, hn, hrest⟩ := hdone f hf
    exact ⟨name, n, hname, by rw [hsame.nodeAt]; exact hn, hrest⟩

end

/-- **All routes lead to the tree.** An unpacker with access to what was packed, and whatever local sources, restores
every file below a directory with nothing in it. -/
theorem delta_restores {Loc : Type} [DecidableEq Loc] {N : Naming Loc} {place : List Bytes → Loc} {fs : FS Loc}
    {cache : Dir} (R : PackRun E D opts metaFile outDir walk P)
    (hpacks : E.NoCollision (PackFileContent E D.toDisk (withMetadata opts metaFile) P)) (A : Access E P U cache)
    (S : LocalSources E D P U L) (hfull : U.downloadOnly = false) (W : TreeWalk D.toDisk opts.inDir walk)
    (T : N.Tree U.outputdir place)
    (hlinks : ∀ f ∈ P.files, ∀ g ∈ P.files, sIslnk f.st.stMode → sIsreg g.st.stMode →
      D.readlink f.filename ≠ D.fopen g.filename)
    (hroot : fs.nodeAt (place []) = some .directory) (hempty : ∀ cs, cs ≠ [] → fs.ent (place cs) = none) :
    ∃ r, unpackMain E N U cache fs = .ok r ∧ ∀ f ∈ P.files, ∃ name n, getFileBasename opts.inDir f.filename = .ok name ∧
      r.fs.nodeAt (N.resolve (U.outputdir ++ name)) = some n ∧ Restored D.toDisk f n := by
  obtain ⟨m, hm, RB⟩ := R.readsBack
  obtain ⟨us₀, hus₀, hlen, hentry⟩ := R.classify RB (outDirOptions U.outputdir)
  obtain ⟨fs', hwrite, hrestored⟩ := R.outDir_restores (U := outDirOptions U.outputdir) T ⟨RB, hlen, hentry⟩ W S.stored
    hpacks hlinks rfl hroot hempty
  obtain ⟨r, hr, rfl⟩ := R.route_ok RB hpacks hm A S hfull hus₀ hwrite
  exact ⟨r, hr, hrestored⟩

/-- No symlink of the tree of the letters has a file's content for its target. -/
theorem letterTree_links {E : Env} {P : Packed} (S : LocalSources E letterTree P (deltaOf P) letterTree)
    (hlisted : ∀ f ∈ P.files, Listed E letterTree f) (hfiles : P.files.map (·.filename) = letterWalk) :
    ∀ f ∈ P.files, ∀ g ∈ P.files, sIslnk f.st.stMode → sIsreg g.st.stMode →
      letterTree.readlink f.filename ≠ letterTree.fopen g.filename := by
  intro f hf g hg hlnk hreg h
  have hf' := (hlisted f hf).lstat
  obtain ⟨t, ht, -⟩ := letterTree.symlink hf' hlnk
  exact S.links f.filename _ t ⟨letterWalk, List.mem_singleton.2 rfl, hfiles ▸ List.mem_map.2 ⟨f, hf, rfl⟩⟩ hf' hlnk ht
    g hg hreg (h.symm.trans ht)

/-- Nothing is below the directory of a file system that has only this one. -/
theorem oneDirectory_below (l : List Bytes) (cs : List Bytes) (hcs : cs ≠ []) : (FS.oneDirectory l).ent (l ++ cs) = none :=
  FS.oneDirectory_other fun he => hcs (List.append_cancel_left (he.trans (List.append_nil _).symm))

/-! ## Mirrors -/

/-- A cache with what was written in it, and nothing wrong: it can stand for the output directory of the packer. -/
structure Mirror (P : Packed) (cache : Dir) : Prop where
  complete : ∀ name, Written P name → cache name = P.outDir name ∧ cache name ≠ none

/-- A mirror is an offline cache. -/
theorem Mirror.offline {cache : Dir} (M : Mirror P cache) (hoff : U.offlineMode = true) : Access E P U cache where
  cached name d hw hd := by rw [← (M.complete name hw).1, hd]
  served hon := absurd (hoff.symm.trans hon) (by decide)
  complete _ name hw := (M.complete name hw).2

/-- A mirror is a source, too, as a server or as a directory. -/
theorem Mirror.source {cache cache' : Dir} (M : Mirror P cache)
    (hcached : ∀ name d, Written P name → cache' name = some d → P.outDir name = some d)
    (hon : U.offlineMode = false) (hsource : U.source = .http cache ∨ U.source = .directory cache) :
    Access E P U cache' where
  cached := hcached
  served _ name d hw hd := by
    have hc : cache name = some d := (M.complete name hw).1.trans hd
    rcases hsource with hsource | hsource
    · simp only [fetch, hsource, hc]
    · simp only [fetch, hsource, hc, convertFile_eq, converted_none]
  complete hoff := absurd (hoff.symm.trans hon) (by decide)

/-- **A run for downloads only makes a mirror** of what it has access to, if it has no local sources. -/
theorem PackRun.mirror {Loc : Type} [DecidableEq Loc] {N : Naming Loc} {cache : Dir}
    (R : PackRun E D opts metaFile outDir walk P)
    (hpacks : E.NoCollision (PackFileContent E D.toDisk (withMetadata opts metaFile) P)) (A : Access E P U cache)
    (S : LocalSources E D P U L) (hno : U.sourcedirs = []) (honly : U.downloadOnly = true) (fs : FS Loc) :
    ∃ r, unpackMain E N U cache fs = .ok r ∧ r.fs = fs ∧ Mirror P r.state.cache := by
  obtain ⟨m, hm, RB⟩ := R.readsBack
  obtain ⟨us₀, hus₀, hlen, hentry⟩ := R.classify RB (outDirOptions U.outputdir)
  obtain ⟨c, s, hc, hs, H⟩ := R.ready RB hpacks hm A S hus₀
  refine ⟨⟨c, s, fs⟩, by simp [unpackMain, hc, hs, unpackWrite, honly], rfl, ⟨fun name hw => ?_⟩⟩
  by_cases he : name = manifestFilename
  · rw [he]
    exact ⟨H.manifestCached.trans R.outDir_manifest.symm, by rw [H.manifestCached]; exact Option.some_ne_none _⟩
  · -- without local sources every entry is that of a run without them
    obtain ⟨u, hu, hash, z, hreq⟩ := R.required (⟨RB, hlen, hentry⟩ : EntriesFor R _ m us₀) hw he
    obtain ⟨i, hi, rfl⟩ := List.getElem_of_mem hu
    have hi' : i < c.entries.length := H.entries.length_eq ▸ hi
    have hsame : c.entries[i] = us₀[i] := by
      have h := H.entries.get hi hi'
      simp only [List.get_eq_getElem] at h
      generalize c.entries[i] = v at h
      cases h with
      | same => rfl
      | localFile hf =>
        obtain ⟨walk, hwalk, -⟩ := hf.visited
        rw [hno] at hwalk
        cases hwalk
    rw [← hsame] at hreq
    have hout := H.required _ (List.getElem_mem hi') name hash z hreq
    obtain ⟨name', _, _, d, hreq', -, hd, -⟩ := R.needsLocal RB hpacks S hus₀ H.entries (List.getElem_mem hi') hreq.needs
    rw [hreq.name_inj hreq'] at hd
    exact ⟨hout, by rw [hout, hd]; exact Option.some_ne_none d⟩

/-- The output directory of the packer is a mirror of itself. -/
theorem PackRun.mirror_outDir (R : PackRun E D opts metaFile outDir walk P) (hcoll : E.NoCollision (StoredContent D.toDisk P))
    (hpacks : E.NoCollision (PackFileContent E D.toDisk (withMetadata opts metaFile) P)) : Mirror P P.outDir where
  complete name hw := by
    refine ⟨rfl, ?_⟩
    by_cases he : name = manifestFilename
    · rw [he, R.outDir_manifest]
      exact Option.some_ne_none _
    · obtain ⟨m, -, RB⟩ := R.readsBack
      obtain ⟨us₀, -, hlen, hentry⟩ := R.classify RB (outDirOptions [])
      have EF : EntriesFor R (outDirOptions []) m us₀ := ⟨RB, hlen, hentry⟩
      obtain ⟨u, hu, hash, z, hreq⟩ := R.required EF hw he
      obtain ⟨name', _, _, d, hreq', -, hd, -⟩ := R.needs hcoll hpacks EF hu hreq.needs
      rw [hreq.name_inj hreq'] at hd
      rw [hd]
      exact Option.some_ne_none d

/-- A run that uses a directory: offline as its cache, or as a server or a directory, with nothing wrong in its own
cache. -/
def UsesMirror (P : Packed) (dir : Dir) (U : UnpackOptions) (cache : Dir) : Prop :=
  (U.offlineMode = true ∧ cache = dir) ∨
    (U.offlineMode = false ∧ (U.source = .http dir ∨ U.source = .directory dir) ∧
      ∀ name d, Written P name → cache name = some d → P.outDir name = some d)

/-- **Mirrors**: the output directory of the packer, and what a run for downloads only has made of a mirror. -/
inductive MirrorOf {Loc : Type} [DecidableEq Loc] (E : Env) (N : Naming Loc) (P : Packed) : Dir → Prop
  | packed : MirrorOf E N P P.outDir
  | run {dir cache : Dir} {U : UnpackOptions} {L : SourceTree} {fs : FS Loc} {r : Unpacked Loc} (h : MirrorOf E N P dir)
      (uses : UsesMirror P dir U cache) (disk : U.localDisk = L.toDisk) (alone : U.sourcedirs = [])
      (only : U.downloadOnly = true) (run : unpackMain E N U cache fs = .ok r) : MirrorOf E N P r.state.cache

theorem Mirror.access {dir cache : Dir} (M : Mirror P dir) (h : UsesMirror P dir U cache) : Access E P U cache := by
  rcases h with ⟨hoff, rfl⟩ | ⟨hon, hsource, hcached⟩
  · exact M.offline hoff
  · exact M.source hcached hon hsource

/-- Mirrors are complete, however many runs they are away. -/
theorem PackRun.mirrorOf {Loc : Type} [DecidableEq Loc] {N : Naming Loc} {dir : Dir}
    (R : PackRun E D opts metaFile outDir walk P) (hcoll : E.NoCollision (StoredContent D.toDisk P))
    (hpacks : E.NoCollision (PackFileContent E D.toDisk (withMetadata opts metaFile) P)) (h : MirrorOf E N P dir) :
    Mirror P dir := by
  induction h with
  | packed => exact R.mirror_outDir hcoll hpacks
  | @run dir cache U L fs r _ uses disk alone only run ih =>
    obtain ⟨r', hr', -, M⟩ := R.mirror hpacks (ih.access uses) (.none hcoll disk alone) alone only fs (N := N)
    rw [run, Except.ok.injEq] at hr'
    rw [hr']
    exact M

end Sfmf
