import Sfmf.Proof.PackRun

/-!
# Measured sizes and written sizes

`convert_file_zsize_hash` compresses a file only to count the bytes that come out,
with the reader teed into SHA-1; the writers compress it again, or copy it, behind
an index with the sizes that were measured.

* `convertFileZsizeHash_measures`: what is counted is what a compressed copy
  appends, and the digest does not depend on the counting.
* `sizes_measured`: so the payload sizes in the index of a pack or a manifest are
  the numbers of bytes that stand there for the files.
-/

namespace Sfmf

/-! ## One file -/

/-- **The measurement of a file with content `d`.** -/
structure Measures (E : Env) (d : Bytes) : Prop where
  /-- measuring stops where the compressed copy stops, or gives the number of bytes that the copy appends -/
  zsize : ∀ (hash : SfmfFileHash) (clone : Bool) (f : FILE),
    Exec.Rel (fun r f' => ∃ z zsize, f.Appended f' z ∧ r.2 = some zsize ∧ (z.length < 2 ^ 32 → zsize.toNat = z.length))
      (convertFileZsizeHash E d hash true) (convertFileFp E clone d f .zcompress)
  /-- the digest is the same whether or not the size is asked for -/
  digest : ∀ (hash : SfmfFileHash) r, convertFileZsizeHash E d hash true = .ok r →
    ∃ r', convertFileZsizeHash E d hash false = .ok r' ∧ r'.1.hashtype = r.1.hashtype ∧ r'.1.hash = r.1.hash

/-- **What is measured is what a compressed copy appends.** -/
theorem convertFileZsizeHash_measures (E : Env) (d : Bytes) : Measures E d where
  zsize hash clone f := by
    have hclone : convertFileFp E clone d f .zcompress = convertFileFp E false d f .zcompress := by
      simp [convertFileFp]
    have hcopy := convertFileFp_rel E d f .zcompress
    rw [hclone, convertFileZsizeHash_eq, if_pos rfl]
    generalize convertFileFp E false d f .zcompress = x at hcopy
    generalize converted E .zcompress d = y at hcopy
    cases x <;> cases y
    case ok.ok f' z => exact ⟨z, _, hcopy, rfl, ofNat_toNat_of_lt⟩
    case error.error s s' => exact (Eq.symm hcopy : s' = s)
    all_goals exact hcopy.elim
  digest hash r h := by
    rw [convertFileZsizeHash_eq, if_pos rfl] at h
    obtain ⟨z, _, rfl⟩ := map_ok.1 h
    exact ⟨_, convertFileZsizeHash_eq E d hash false, rfl, rfl⟩

/-! ## The payloads behind an index -/

/-- Entries of a list of files, whatever `mark_duplicates` has noted in them. -/
def FromList (files es : List FileEntry) : Prop := ∀ f ∈ es, ∃ g ∈ files, SameFile g f

/-- **The sizes in an index are those of the payloads.** -/
structure IndexSizes (E : Env) (op : FileEntry → Exec StreamOp) (es : List FileEntry) (index : List SfmfBlobEntry)
    (ps : List Bytes) : Prop where
  /-- what the operation for each file puts out -/
  payloads : List.Forall₂ (fun f p => outOf E (op f) = .ok p) es ps
  /-- its size, for the nonempty regular files -/
  sizes : ∀ (i : ℕ) (f : FileEntry), es[i]? = some f → sIsreg f.st.stMode → f.st.stSize ≠ 0 →
    ∃ (b : SfmfBlobEntry) (p : Bytes), index[i]? = some b ∧ ps[i]? = some p ∧ b.size.toNat = p.length

theorem blobEntries_indexSizes {op : FileEntry → Exec StreamOp} {E : Env} {es : List FileEntry} {ps : List Bytes}
    (hps : List.Forall₂ (fun f p => outOf E (op f) = .ok p) es ps)
    (hrec : ∀ f ∈ es, sIsreg f.st.stMode → f.st.stSize ≠ 0 → ∀ p, outOf E (op f) = .ok p → p.length = minSize f)
    (offset : UInt32) : IndexSizes E op es (blobEntries offset es) ps := by
  refine ⟨hps, fun i f hf hreg h0 => ?_⟩
  obtain ⟨hi, rfl⟩ := List.getElem?_eq_some_iff.1 hf
  have hi' : i < ps.length := hps.length_eq ▸ hi
  have hp := hrec _ (List.getElem_mem hi) hreg h0 _ (hps.get hi hi')
  have hb := blobEntries_get offset.toNat es i
  rw [UInt32.ofNat_toNat, hf, Option.map_some] at hb
  exact ⟨_, ps[i], hb, List.getElem?_eq_getElem hi', hp.symm⟩

/-- **Sizes are measured as they are written**, for the files of a list. -/
structure SizesMeasured (E : Env) (D : Disk) (files : List FileEntry) : Prop where
  /-- every file is measured as it is converted -/
  file : ∀ d, Measures E d
  /-- a pack is its head, with the index, and payloads of the sizes in the index -/
  pack : ∀ opts dir entry entry' dir', FromList files entry.files →
    writePack E D opts dir entry = .ok (entry', dir') →
    ∃ name content ps, makePackFilename entry'.packfileHash = .ok name ∧ dir' name = some content ∧
      content = packHead opts entry ++ ps.flatten ∧
      IndexSizes E (payloadOp D) entry.files (blobEntries (packPayloadOffset opts entry) entry.files) ps
  /-- a manifest is its head, with the index, the hashes of the packs and payloads of the sizes in the index -/
  manifest : ∀ opts files' packs included content, FromList files included →
    writeManifest E D opts files' packs included = .ok content →
    ∃ r ps, RegionsOf opts files' packs included r ∧
      content = r.head opts.metadataBytes ++ (packs.map packHashBytes).flatten ++ ps.flatten ∧
      IndexSizes E (manifestPayloadOp D) included r.blobs ps

/-- **Measured sizes are written sizes.** For the list of any tree whose regular files have sizes below
4 GiB, compressed or not, on a file system without reflinks. -/
theorem sizes_measured {E : Env} (hE : E.NoReflink) {D : SourceTree} {walk : List CString} {files : List FileEntry}
    (hlist : getFileList E D.toDisk walk = .ok files)
    (hfits : ∀ f ∈ files, sIsreg f.st.stMode → f.st.stSize ≠ 0 → Fits E D.toDisk f) :
    SizesMeasured E D.toDisk files := by
  have hlisted := (getFileList_ok hlist).1
  have hrec : ∀ es, FromList files es → ∀ f ∈ es, sIsreg f.st.stMode → f.st.stSize ≠ 0 →
      Listed E D f ∧ Fits E D.toDisk f := by
    intro es hes f hf hreg h0
    obtain ⟨g, hg, d, k, rfl⟩ := hes f hf
    exact ⟨SameFile.listed ⟨d, k, rfl⟩ (hlisted g hg).1, hfits g hg hreg h0⟩
  refine ⟨convertFileZsizeHash_measures E, ?_, ?_⟩
  · intro opts dir entry entry' dir' hes hw
    obtain ⟨ops, content, name, hops, hcontent, _, _, _, _, hname, hdir⟩ := writePack_ok E D.toDisk opts entry hw
    obtain ⟨ps, hps, rfl⟩ := writeFile_packOps E D.toDisk opts entry hE hops hcontent
    refine ⟨name, _, ps, hname, ?_, rfl, blobEntries_indexSizes hps (fun f hf hreg h0 p hp => ?_) _⟩
    · rw [hdir name (packFilename_ne_tmp hname)]
      exact if_pos rfl
    · obtain ⟨hl, hfit⟩ := hrec _ hes f hf hreg h0
      exact payload_recorded hl hreg h0 hfit hp
  · intro opts files' packs included content hes hw
    obtain ⟨_, r, ps, hr, hps, rfl⟩ := writeManifest_ok hE hw
    refine ⟨r, ps, hr, rfl, ?_⟩
    rw [hr.blobs]
    refine blobEntries_indexSizes hps (fun f hf hreg h0 p hp => ?_) _
    obtain ⟨hl, hfit⟩ := hrec _ hes f hf hreg h0
    rw [manifestPayload_regular hreg] at hp
    exact payload_recorded hl hreg h0 hfit hp

/-- The files of letters are measured and written. -/
theorem sizes_measured_letterTree : ∃ files, getFileList letterTreeEnv letterTree.toDisk letterWalk = .ok files ∧
    SizesMeasured letterTreeEnv letterTree.toDisk files := by
  have hpasses : (getFileList letterTreeEnv letterTree.toDisk letterWalk).passes (fun files =>
      ∀ f ∈ files, f.st.stSize < 2 ^ 32) = true := by decide +kernel
  obtain ⟨files, hlist, hcheck⟩ := Exec.of_passes hpasses
  refine ⟨files, hlist, sizes_measured letterTreeEnv_noReflink hlist fun f hf hreg _ =>
    ⟨of_decide_eq_true hcheck f hf, fun d z hd hz => ?_⟩⟩
  have hcont : contentOf letterTree.toDisk f = letterTree.fopen f.filename := if_neg (sIsreg_not_sIslnk hreg)
  exact (letterTree_deflates (letterTree_read (hcont.trans hd)) z hz).2.1

end Sfmf
