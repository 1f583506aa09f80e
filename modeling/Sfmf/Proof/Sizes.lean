import Sfmf.Proof.PackRun
import Sfmf.Proof.StoredOnce

/-!
# Sizes in 32 bits

The size of a file passes through 32-bit fields: that of its hash, its compressed size,
and the size it is put into a bucket by.

* `TrueSizes`: the sizes that a run records of a file, and of what stores it, are true
  byte counts.
* `sizes_true_iff`: they are, for all files, exactly when every regular file and its
  compressed form are shorter than 4 GiB.
* `sizes_lost`: a file of 4 GiB is recorded as empty.
-/

namespace Sfmf

/-- A number of bytes that the content of an entry has, as it is or compressed. -/
def TrueCount (E : Env) (D : Disk) (f : FileEntry) (n : ℕ) : Prop :=
  ∃ d, contentOf D f = some d ∧ (n = d.length ∨ ∃ z, converted E .zcompress d = .ok z ∧ n = z.length)

/-- **The sizes of a regular file are true**: those in its manifest entry, the one it is put into a bucket
by, and that in the index of the content that is stored for it. -/
structure TrueSizes (E : Env) (D : Disk) (P : Packed) (f : FileEntry) : Prop where
  recorded : ∃ d z, D.fopen f.filename = some d ∧ converted E .zcompress d = .ok z ∧
    ∀ filenameOffset e, manifestEntry filenameOffset f = .ok e → e.hash.size.toNat = d.length ∧ e.zsize.toNat = z.length
  bucket : TrueCount E D f (minSize f)
  blob : ∃ g ∈ P.buckets.includedFiles ++ P.buckets.packedFiles ++ P.buckets.unpackedFiles, g.hash = f.hash ∧
    ∀ offset, TrueCount E D g (blobEntry offset g).size.toNat

variable {E : Env} {D : SourceTree} {opts : PackOptions} {metaFile : Bytes} {outDir : Dir} {walk : List CString}
  {P : Packed}

/-- An entry of a known type gets its manifest entry. -/
theorem manifestEntry_total {f : FileEntry} (h : supported f.st.stMode) (filenameOffset : UInt32) :
    ∃ e, manifestEntry filenameOffset f = .ok e := by
  have htype : ∃ type, manifestEntryType f = .ok type := by
    unfold manifestEntryType
    by_cases hr : sIsreg f.st.stMode
    · exact ⟨_, if_pos hr⟩
    by_cases hl : sIslnk f.st.stMode
    · exact ⟨_, by rw [if_neg hr, if_pos hl]; rfl⟩
    by_cases hd : sIsdir f.st.stMode
    · exact ⟨_, by rw [if_neg hr, if_neg hl, if_pos hd]; rfl⟩
    by_cases hc : sIschr f.st.stMode
    · exact ⟨_, by rw [if_neg hr, if_neg hl, if_neg hd, if_pos hc]; rfl⟩
    by_cases hb : sIsblk f.st.stMode
    · exact ⟨_, by rw [if_neg hr, if_neg hl, if_neg hd, if_neg hc, if_pos hb]; rfl⟩
    have hf : sIsfifo f.st.stMode := by tauto
    exact ⟨_, by rw [if_neg hr, if_neg hl, if_neg hd, if_neg hc, if_neg hb, if_pos hf]; rfl⟩
  obtain ⟨type, htype⟩ := htype
  exact ⟨_, by unfold manifestEntry; rw [htype]; rfl⟩

/-- What is recorded of a regular file that is not empty. -/
theorem Listed.regular {f : FileEntry} (h : Listed E D f) (hreg : sIsreg f.st.stMode) (h0 : f.st.stSize ≠ 0) :
    ∃ d z, D.fopen f.filename = some d ∧ contentOf D.toDisk f = some d ∧ d.length = f.st.stSize ∧
      converted E .zcompress d = .ok z ∧ f.hash = hashOf E d ∧ f.zsize = UInt32.ofNat z.length := by
  have hcont : contentOf D.toDisk f = D.fopen f.filename := if_neg (sIsreg_not_sIslnk hreg)
  have hs : Stored f := by
    rintro (h | h)
    · exact h0 h
    · exact h (.inl hreg)
  obtain ⟨d, hd, hlen, hhash⟩ := h.stored hs
  have hopen : D.fopen f.filename = some d := hcont ▸ hd
  obtain ⟨z, hz, hzsize⟩ := h.deflated hreg h0 d hopen
  exact ⟨d, z, hopen, hd, hlen, hz, hhash, hzsize⟩

/-- A size that is recorded truly fits into 32 bits. -/
theorem TrueSizes.fits {f : FileEntry} (h : TrueSizes E D.toDisk P f) (hl : Listed E D f) (hreg : sIsreg f.st.stMode)
    (h0 : f.st.stSize ≠ 0) : Fits E D.toDisk f := by
  obtain ⟨d, z, hd, hz, hrec⟩ := h.recorded
  obtain ⟨e, he⟩ := manifestEntry_total hl.type 0
  obtain ⟨hsize, hzsize⟩ := hrec 0 e he
  obtain ⟨d', _, hd', _, hlen, _⟩ := hl.regular hreg h0
  rw [hd, Option.some.injEq] at hd'
  subst hd'
  refine ⟨by rw [← hlen, ← hsize]; exact e.hash.size.toNat_lt, fun d' z' hd' hz' => ?_⟩
  rw [hd, Option.some.injEq] at hd'
  subst hd'
  rw [hz, Except.ok.injEq] at hz'
  subst hz'
  rw [← hzsize]
  exact e.zsize.toNat_lt

/-- What is stored fits, if every regular file does. -/
theorem Listed.size_lt {f : FileEntry} (h : Listed E D f) (hs : Stored f)
    (hfits : sIsreg f.st.stMode → f.st.stSize ≠ 0 → Fits E D.toDisk f) : f.st.stSize < 2 ^ 32 := by
  by_cases hreg : sIsreg f.st.stMode
  · exact (hfits hreg fun h0 => hs (.inl h0)).1
  · have hlnk : sIslnk f.st.stMode := by
      by_contra hl
      exact hs (.inr fun h => h.elim hreg hl)
    obtain ⟨t, _, hlen, _, _, hmax⟩ := D.symlink h.lstat hlnk
    simp only [pathMax] at hmax
    omega

/-- The smaller size of what is stored is a true byte count. -/
theorem Listed.trueCount {f : FileEntry} (h : Listed E D f) (hs : Stored f)
    (hfits : sIsreg f.st.stMode → f.st.stSize ≠ 0 → Fits E D.toDisk f) : TrueCount E D.toDisk f (minSize f) := by
  have h0 : f.st.stSize ≠ 0 := fun h0 => hs (.inl h0)
  have hlt := h.size_lt hs hfits
  by_cases hreg : sIsreg f.st.stMode
  · obtain ⟨d, z, hopen, hcont, hlen, hz, -, hzsize⟩ := h.regular hreg h0
    have hzlt := (hfits hreg h0).2 d z hopen hz
    refine ⟨d, hcont, ?_⟩
    rw [minSize_eq hlt, hzsize, ofNat_toNat_of_lt hzlt]
    split
    · exact .inr ⟨z, hz, rfl⟩
    · exact .inl hlen.symm
  · have hlnk : sIslnk f.st.stMode := by
      by_contra hl
      exact hs (.inr fun h => h.elim hreg hl)
    obtain ⟨d, hcont, hlen, -⟩ := h.stored hs
    refine ⟨d, hcont, .inl ?_⟩
    rw [minSize_eq hlt, (h.symlink hlnk).1, hlen]
    simp

/-- If every regular file fits, the sizes of each are true. -/
theorem Deduplicated.trueSizes {cutoff packUpper : UInt32} (hdedup : Deduplicated P.files)
    (hlisted : ∀ f ∈ P.files, Listed E D f) (hbuckets : P.buckets = bucketizeFileList P.files cutoff packUpper)
    (hfits : ∀ f ∈ P.files, sIsreg f.st.stMode → f.st.stSize ≠ 0 → Fits E D.toDisk f) {f : FileEntry}
    (hf : f ∈ P.files) (hreg : sIsreg f.st.stMode) (h0 : f.st.stSize ≠ 0) : TrueSizes E D.toDisk P f := by
  obtain ⟨d, z, hopen, hcont, hlen, hz, hhash, hzsize⟩ := (hlisted f hf).regular hreg h0
  obtain ⟨hlt, hzlt⟩ := hfits f hf hreg h0
  have hs : Stored f := by
    rintro (h | h)
    · exact h0 h
    · exact h (.inl hreg)
  refine ⟨⟨d, z, hopen, hz, fun offset e he => ?_⟩, (hlisted f hf).trueCount hs (hfits f hf), ?_⟩
  · simp only [manifestEntry, bind_ok, pure_eq_ok, Except.ok.injEq] at he
    obtain ⟨type, -, rfl⟩ := he
    refine ⟨?_, by rw [hzsize, ofNat_toNat_of_lt (hzlt d z hopen hz)]⟩
    rw [hhash, hashOf, ofNat_toNat_of_lt (by omega)]
  · -- the first entry of the hash is in a bucket
    obtain ⟨g, -, hg, hk, hh⟩ := hdedup.find hf hs
    have hglt := (hlisted g hg).size_lt hk.1 (hfits g hg)
    have hbucket : (bucketOf cutoff (packLimit cutoff packUpper) g).isSome = true := (bucketOf_isSome hglt).2 hk
    refine ⟨g, ?_, hh, fun offset => (hlisted g hg).trueCount hk.1 (hfits g hg)⟩
    rw [hbuckets, bucketizeFileList_eq]
    exact (buckets_perm _ _).mem_iff.2 (List.mem_filter.2 ⟨hg, hbucket⟩)

/-- **No size is cut exactly if all fit into 32 bits.** In a run of the packer on any tree: the sizes of all
nonempty regular files, and of what is stored for them, are true byte counts if and only if each of these
files and its compressed form are shorter than 4 GiB. -/
theorem sizes_true_iff (h : packMain E D.toDisk opts metaFile outDir walk = .ok P) :
    (∀ f ∈ P.files, sIsreg f.st.stMode → f.st.stSize ≠ 0 → TrueSizes E D.toDisk P f) ↔
      ∀ f ∈ P.files, sIsreg f.st.stMode → f.st.stSize ≠ 0 → Fits E D.toDisk f := by
  obtain ⟨⟨_, _, _, _, hok⟩, hlisted, hdedup, -⟩ := packMain_ok h
  constructor
  · exact fun htrue f hf hreg h0 => (htrue f hf hreg h0).fits (hlisted f hf) hreg h0
  · exact fun hfits f hf hreg h0 => hdedup.trueSizes hlisted hok.buckets hfits hf hreg h0

theorem sizes_true_iff_letterTree : ∃ P, packMain letterTreeEnv letterTree.toDisk letterTreeOptions (str ['m'])
    (fun _ => none) letterWalk = .ok P ∧
    ((∀ f ∈ P.files, sIsreg f.st.stMode → f.st.stSize ≠ 0 → TrueSizes letterTreeEnv letterTree.toDisk P f) ↔
      ∀ f ∈ P.files, sIsreg f.st.stMode → f.st.stSize ≠ 0 → Fits letterTreeEnv letterTree.toDisk f) := by
  obtain ⟨P, R, -⟩ := letterTree_packRun
  exact ⟨P, R.run, sizes_true_iff R.run⟩

/-! ## A file of 4 GiB -/

/-- A zlib that compresses everything to one stream. -/
def Zlib.constant (stream : Bytes) : Zlib where
  Deflate := Unit
  Inflate := Unit
  deflateInit := ()
  inflateInit := ()
  deflate _ input _ flush :=
    match flush with
    | .noFlush => ⟨(), input.length, [], .ok⟩
    | .finish => ⟨(), 0, stream, .streamEnd⟩
  inflate _ _ _ _ := ⟨(), 0, [], .dataError⟩

/-- An environment with this zlib and one digest, on a file system without reflinks. -/
def Env.constant (stream : Bytes) (digest : Digest) : Env where
  zlib := Zlib.constant stream
  sha1 _ := digest
  fuel := 1
  flush b := b.length
  clone _ := false

theorem deflateInput_constant (stream : Bytes) (digest : Digest) (input acc : Bytes) (u : ℕ) :
    deflateInput (Env.constant stream digest) (Env.constant stream digest).fuel () input
      ⟨sha1ConvertContextWrite, acc, u⟩ = .ok ((), ⟨sha1ConvertContextWrite, acc, u⟩) := by
  simp [Env.constant, Zlib.constant, deflateInput, convertIoWrite, sha1ConvertContextWrite, cAssert]

theorem deflateFinish_constant (stream : Bytes) (digest : Digest) (acc : Bytes) (u : ℕ) :
    deflateFinish (Env.constant stream digest) (Env.constant stream digest).fuel ()
      ⟨sha1ConvertContextWrite, acc, u⟩ = .ok ⟨sha1ConvertContextWrite, acc ++ stream, u + stream.length⟩ := by
  simp [Env.constant, Zlib.constant, deflateFinish, convertIoWrite, sha1ConvertContextWrite, cAssert]

/-- Whatever is compressed, the stream comes out. -/
theorem converted_constant (stream : Bytes) (digest : Digest) (d : Bytes) :
    converted (Env.constant stream digest) .zcompress d = .ok stream := by
  have hloop : ∀ n d t acc u, d.length < n → ∃ r w, zcompressedLoop (Env.constant stream digest) n ()
      ⟨fileConvertContextRead, d, t⟩ ⟨sha1ConvertContextWrite, acc, u⟩ = .ok (r, w) ∧ w.userData = acc ++ stream := by
    intro n
    induction n with
    | zero => intro d t acc u h; omega
    | succ n ih =>
      intro d t acc u h
      by_cases hd : d.take defaultBufferSize = []
      · refine ⟨⟨fileConvertContextRead, d.drop defaultBufferSize, t + ([] : Bytes).length⟩,
          ⟨sha1ConvertContextWrite, acc ++ stream, u + stream.length⟩, ?_, rfl⟩
        simp only [zcompressedLoop, convertIoRead_file, hd, if_true, deflateFinish_constant, ok_bind]
        rfl
      · have hpos : 0 < d.length := List.length_pos_iff.2 fun h => hd (by rw [h]; rfl)
        obtain ⟨r, w, hrun, hw⟩ := ih (d.drop defaultBufferSize) (t + (d.take defaultBufferSize).length) acc u
          (by simp only [List.length_drop, defaultBufferSize]; omega)
        refine ⟨r, w, ?_, hw⟩
        simp only [zcompressedLoop, convertIoRead_file, hd, if_false, deflateInput_constant, ok_bind, hrun]
  obtain ⟨r, w, hrun, hw⟩ := hloop (d.length + 1) d 0 [] 0 (by omega)
  have hrun' : runConversion (Env.constant stream digest) ⟨fileConvertContextRead, d, 0⟩
      ⟨sha1ConvertContextWrite, [], 0⟩ .zcompress = .ok (r, w) := hrun
  simp [converted, hrun', hw]

/-- The entry of a nonempty regular file of known content. -/
theorem filelistAppendHash_regular {D : Disk} {p : CString} {st : Stat} {d z : Bytes}
    (hreg : sIsreg st.stMode ∧ st.stSize > 0) (hd : D.fopen p = some d) (hz : converted E .zcompress d = .ok z) :
    filelistAppendHash E D .calculateHash ⟨p, st, 0, .zero, false, -1⟩ =
      .ok ⟨p, st, UInt32.ofNat z.length, ⟨UInt32.ofNat st.stSize, hashtypeSha1, E.sha1 d⟩, false, -1⟩ := by
  unfold filelistAppendHash
  rw [if_pos hreg]
  exact fileentryCalculateZsizeHash_ok.2 ⟨d, z, hd, hz, rfl⟩

theorem filelistAppend_regular {D : Disk} {p : CString} {st : Stat} {d z : Bytes} (hst : D.lstat p = some st)
    (hreg : sIsreg st.stMode ∧ st.stSize > 0) (hd : D.fopen p = some d) (hz : converted E .zcompress d = .ok z)
    (list : List FileEntry) : filelistAppend E D false .calculateHash list p =
      .ok (list ++ [⟨p, st, UInt32.ofNat z.length, ⟨UInt32.ofNat st.stSize, hashtypeSha1, E.sha1 d⟩, false, -1⟩]) := by
  have htype : supported st.stMode := .inr (.inl hreg.1)
  simp only [filelistAppend, hst]
  rw [if_pos htype, filelistAppendHash_regular hreg hd hz]
  rfl

/-- 4 GiB of zeros. -/
@[irreducible] def zeros : Bytes := List.replicate 4294967296 0

theorem zeros_length : zeros.length = 4294967296 := by
  unfold zeros
  exact List.length_replicate

/-- `z` -/
def zerosDir : CString := ⟨str ['z'], by decide⟩

/-- `z/o` -/
def zerosPath : CString := ⟨str ['z', '/', 'o'], by decide⟩

/-- What `lstat` says of this file. -/
def zerosStat : Stat := ⟨2, 0o100644, 0, 0, 0, 4294967296, 7⟩

/-- A directory with this file. -/
def zerosTree : SourceTree :=
  .ofList [(zerosDir, ⟨1, 0o040755, 0, 0, 0, 64, 7⟩, []), (zerosPath, zerosStat, zeros)]
    (by
      intro e he hreg
      rcases List.mem_pair.1 he with rfl | rfl
      · exact absurd hreg (by decide)
      · exact zeros_length)
    (by
      intro e he hlnk
      rcases List.mem_pair.1 he with rfl | rfl
      · exact absurd hlnk (by decide)
      · exact absurd hlnk (by decide))

/-- The SHA-1 of the zeros. -/
def zerosDigest : Digest :=
  ⟨[27, 249, 158, 233, 243, 116, 229, 142, 32, 30, 77, 218, 79, 71, 78, 87, 14, 183, 114, 41], by decide⟩

/-- Of the compressed form of the zeros it only matters that there is one. -/
def zerosEnv : Env := .constant [120, 156] zerosDigest

/-- What the list of this tree says of the file: a hash of size 0. -/
def zerosFile : FileEntry := ⟨zerosPath, zerosStat, 2, ⟨0, hashtypeSha1, zerosDigest⟩, false, -1⟩

theorem zerosTree_fopen : zerosTree.toDisk.fopen zerosPath = some zeros := by
  simp [zerosTree, SourceTree.ofList, Disk.ofList, zerosDir, zerosPath, str]

theorem zerosTree_files : getFileList zerosEnv zerosTree.toDisk [zerosDir, zerosPath] =
    .ok [⟨zerosDir, ⟨1, 0o040755, 0, 0, 0, 64, 7⟩, 0, .zero, false, -1⟩, zerosFile] := by
  have hdir : filelistAppend zerosEnv zerosTree.toDisk false .calculateHash [] zerosDir =
      .ok [⟨zerosDir, ⟨1, 0o040755, 0, 0, 0, 64, 7⟩, 0, .zero, false, -1⟩] := rfl
  have hst : zerosTree.toDisk.lstat zerosPath = some zerosStat := rfl
  have hreg : sIsreg zerosStat.stMode ∧ zerosStat.stSize > 0 := ⟨by decide, by decide⟩
  have hz : converted zerosEnv .zcompress zeros = .ok [120, 156] := converted_constant _ _ _
  have hsha : zerosEnv.sha1 zeros = zerosDigest := by simp only [zerosEnv, Env.constant]
  have hsize : UInt32.ofNat zerosStat.stSize = 0 := by decide
  unfold getFileList extendFileList
  rw [List.foldlM_cons, hdir, ok_bind, List.foldlM_cons, filelistAppend_regular hst hreg zerosTree_fopen hz, hsha, hsize]
  rfl

/-- The packer succeeds on it. -/
theorem zerosTree_packMain : ∃ P, packMain zerosEnv zerosTree.toDisk ⟨zerosDir, 0, 1, 1, []⟩ (str ['m']) (fun _ => none)
    [zerosDir, zerosPath] = .ok P ∧ ∃ f ∈ P.files, f.st = zerosStat := by
  have hpasses : (packFiles zerosEnv zerosTree.toDisk ⟨zerosDir, 0, 1, 1, str ['m'] ++ [0]⟩ (fun _ => none)
      [⟨zerosDir, ⟨1, 0o040755, 0, 0, 0, 64, 7⟩, 0, .zero, false, -1⟩, zerosFile]).passes
        (fun P => ∃ f ∈ P.files, f.st = zerosStat) = true := by decide +kernel
  obtain ⟨P, hP, hf⟩ := Exec.of_passes hpasses
  refine ⟨P, ?_, of_decide_eq_true hf⟩
  have havg : ¬ (1 : UInt32) < 1 := by decide
  have hmeta : str ['m'] ≠ [] := by decide
  simp only [packMain, if_neg havg, cAssert_pos hmeta, ok_bind, zerosTree_files, hP]

/-- **A file of 4 GiB is recorded as empty**, and is in no bucket: its hash has size 0. -/
theorem sizes_lost : ¬ ∀ (E : Env) (D : SourceTree) (opts : PackOptions) (metaFile : Bytes) (outDir : Dir)
    (walk : List CString) (P : Packed), packMain E D.toDisk opts metaFile outDir walk = .ok P →
    ∀ f ∈ P.files, sIsreg f.st.stMode → f.st.stSize ≠ 0 → TrueSizes E D.toDisk P f := by
  intro h
  obtain ⟨P, hP, f, hf, hst⟩ := zerosTree_packMain
  obtain ⟨-, hlisted, -⟩ := packMain_ok hP
  have hreg : sIsreg f.st.stMode := by rw [hst]; decide
  have h0 : f.st.stSize ≠ 0 := by rw [hst]; decide
  have hfits := (h _ _ _ _ _ _ P hP f hf hreg h0).fits (hlisted f hf) hreg h0
  rw [Fits, hst] at hfits
  exact absurd hfits.1 (by decide)

end Sfmf
