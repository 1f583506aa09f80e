import Sfmf.Lib.Budget
import Sfmf.Proof.LazyHash
import Sfmf.Proof.Streams

/-!
# Runs with a larger budget

A larger budget for the loops of zlib calls does not change what a run does that has not used up
its own, neither of the packer (`packMain_growing`) nor of the unpacker (`unpackMain_growing`).
-/

namespace Sfmf

variable {E : Env} {σ ω : Type} {k k' : ℕ}

/-! ## The loops -/

theorem deflateInput_below : ∀ {n n' : ℕ} {s : E.zlib.Deflate} {x : Bytes} {w : Writer ω}, n ≤ n' →
    Exec.Below (deflateInput E n s x w) (deflateInput E n' s x w)
  | 0, _, _, _, _, _ => .spin _
  | n + 1, 0, _, _, _, h => absurd h (Nat.not_succ_le_zero n)
  | n + 1, n' + 1, s, x, w, h => by
    unfold deflateInput
    refine (Exec.Below.refl _).bind fun _ => (Exec.Below.refl _).bind fun _ => ?_
    split
    · exact .refl _
    · exact deflateInput_below (Nat.le_of_succ_le_succ h)

theorem deflateFinish_below : ∀ {n n' : ℕ} {s : E.zlib.Deflate} {w : Writer ω}, n ≤ n' →
    Exec.Below (deflateFinish E n s w) (deflateFinish E n' s w)
  | 0, _, _, _, _ => .spin _
  | n + 1, 0, _, _, h => absurd h (Nat.not_succ_le_zero n)
  | n + 1, n' + 1, s, w, h => by
    unfold deflateFinish
    refine (Exec.Below.refl _).bind fun _ => (Exec.Below.refl _).bind fun _ => ?_
    split
    · exact .refl _
    · exact deflateFinish_below (Nat.le_of_succ_le_succ h)

theorem inflateInput_below : ∀ {n n' : ℕ} {s : E.zlib.Inflate} {x : Bytes} {w : Writer ω}, n ≤ n' →
    Exec.Below (inflateInput E n s x w) (inflateInput E n' s x w)
  | 0, _, _, _, _, _ => .spin _
  | n + 1, 0, _, _, _, h => absurd h (Nat.not_succ_le_zero n)
  | n + 1, n' + 1, s, x, w, h => by
    unfold inflateInput
    refine (Exec.Below.refl _).bind fun _ => (Exec.Below.refl _).bind fun _ => ?_
    split
    · exact .refl _
    · exact inflateInput_below (Nat.le_of_succ_le_succ h)

theorem inflateFinish_below : ∀ {n n' : ℕ} {s : E.zlib.Inflate} {w : Writer ω}, n ≤ n' →
    Exec.Below (inflateFinish E n s w) (inflateFinish E n' s w)
  | 0, _, _, _, _ => .spin _
  | n + 1, 0, _, _, h => absurd h (Nat.not_succ_le_zero n)
  | n + 1, n' + 1, s, w, h => by
    unfold inflateFinish
    refine (Exec.Below.refl _).bind fun _ => (Exec.Below.refl _).bind fun _ => ?_
    split
    · exact .refl _
    · exact inflateFinish_below (Nat.le_of_succ_le_succ h)

/-- A round of the loop over the blocks. -/
theorem zcompressedLoop_step (k n : ℕ) (s : E.zlib.Deflate) (r : Reader σ) (w : Writer ω) :
    zcompressedLoop (E.withFuel k) (n + 1) s r w =
      if (convertIoRead r defaultBufferSize).1 = [] then
        deflateFinish E k s w >>= fun w => .ok ((convertIoRead r defaultBufferSize).2, w)
      else
        deflateInput E k s (convertIoRead r defaultBufferSize).1 w >>= fun p =>
          zcompressedLoop (E.withFuel k) n p.1 (convertIoRead r defaultBufferSize).2 p.2 := by
  by_cases hbuf : (convertIoRead r defaultBufferSize).1 = []
  · simp only [zcompressedLoop, hbuf, if_true, ← deflateFinish_withFuel E k]
    rfl
  · simp only [zcompressedLoop, hbuf, if_false, ← deflateInput_withFuel E k]
    rfl

theorem zcompressedLoop_below (hle : k ≤ k') (n : ℕ) (s : E.zlib.Deflate) (r : Reader σ) (w : Writer ω) :
    Exec.Below (zcompressedLoop (E.withFuel k) n s r w) (zcompressedLoop (E.withFuel k') n s r w) := by
  induction n generalizing s r w with
  | zero => exact .spin _
  | succ n ih =>
    rw [zcompressedLoop_step, zcompressedLoop_step]
    split
    · exact (deflateFinish_below hle).bind fun w => .refl _
    · exact (deflateInput_below hle).bind fun p => ih p.1 _ p.2

/-- A round of the loop over the blocks. -/
theorem zdecompressLoop_step (k n : ℕ) (s : E.zlib.Inflate) (r : Reader σ) (w : Writer ω) :
    zdecompressLoop (E.withFuel k) (n + 1) s r w =
      if (convertIoRead r defaultBufferSize).1 = [] then
        inflateFinish E k s w >>= fun w => .ok ((convertIoRead r defaultBufferSize).2, w)
      else
        inflateInput E k s (convertIoRead r defaultBufferSize).1 w >>= fun p =>
          zdecompressLoop (E.withFuel k) n p.1 (convertIoRead r defaultBufferSize).2 p.2 := by
  by_cases hbuf : (convertIoRead r defaultBufferSize).1 = []
  · simp only [zdecompressLoop, hbuf, if_true, ← inflateFinish_withFuel E k]
    rfl
  · simp only [zdecompressLoop, hbuf, if_false, ← inflateInput_withFuel E k]
    rfl

theorem zdecompressLoop_below (hle : k ≤ k') (n : ℕ) (s : E.zlib.Inflate) (r : Reader σ) (w : Writer ω) :
    Exec.Below (zdecompressLoop (E.withFuel k) n s r w) (zdecompressLoop (E.withFuel k') n s r w) := by
  induction n generalizing s r w with
  | zero => exact .spin _
  | succ n ih =>
    rw [zdecompressLoop_step, zdecompressLoop_step]
    split
    · exact (inflateFinish_below hle).bind fun w => .refl _
    · exact (inflateInput_below hle).bind fun p => ih p.1 _ p.2

/-! ## Conversions -/

theorem runConversion_below (hle : k ≤ k') (r : Reader σ) (w : Writer ω) (flags : ConvertFlags) :
    Exec.Below (runConversion (E.withFuel k) r w flags) (runConversion (E.withFuel k') r w flags) := by
  cases flags with
  | none => exact .refl _
  | zcompress => exact zcompressedLoop_below hle _ _ r w
  | zuncompress => exact zdecompressLoop_below hle _ _ r w

theorem convertFileFp_below (hle : k ≤ k') (clone : Bool) (src : Bytes) (fp : FILE) (flags : ConvertFlags) :
    Exec.Below (convertFileFp (E.withFuel k) clone src fp flags) (convertFileFp (E.withFuel k') clone src fp flags) := by
  by_cases hclone : flags = .none ∧ clone = true
  · rw [convertFileFp, convertFileFp, if_pos hclone, if_pos hclone]
    exact .refl _
  · rw [convertFileFp, convertFileFp, if_neg hclone, if_neg hclone]
    exact (runConversion_below hle _ _ flags).bind fun _ => .refl _

theorem StreamOp.run_below (hle : k ≤ k') (clone : Bool) (fp : FILE) (op : StreamOp) :
    Exec.Below (op.run (E.withFuel k) clone fp) (op.run (E.withFuel k') clone fp) := by
  cases op with
  | fwrite b => exact .refl _
  | convertFile src flags => exact convertFileFp_below hle clone src fp flags
  | convertBuffer buf flags => exact (runConversion_below hle _ _ flags).bind fun _ => .refl _

theorem runOps_below (hle : k ≤ k') (clone : ℕ → Bool) : ∀ (i : ℕ) (fp : FILE) (ops : List StreamOp),
    Exec.Below (runOps (E.withFuel k) clone i fp ops) (runOps (E.withFuel k') clone i fp ops)
  | _, _, [] => .refl _
  | i, fp, op :: ops => (op.run_below hle (clone i) fp).bind fun fp => runOps_below hle clone (i + 1) fp ops

theorem writeFile_below (hle : k ≤ k') (ops : List StreamOp) :
    Exec.Below (writeFile (E.withFuel k) ops) (writeFile (E.withFuel k') ops) :=
  (runOps_below hle E.clone 0 .fopen ops).bind fun _ => .refl _

theorem convertFileZsizeHash_below (hle : k ≤ k') (d : Bytes) (hash : SfmfFileHash) (wantZsize : Bool) :
    Exec.Below (convertFileZsizeHash (E.withFuel k) d hash wantZsize) (convertFileZsizeHash (E.withFuel k') d hash wantZsize) :=
  (runConversion_below hle _ _ _).bind fun _ => .refl _

theorem sfmfFilehashVerify_below (hle : k ≤ k') (expected : SfmfFileHash) (d : Bytes) (zcompressed : Bool) :
    Exec.Below (sfmfFilehashVerify (E.withFuel k) expected d zcompressed) (sfmfFilehashVerify (E.withFuel k') expected d zcompressed) :=
  ((runConversion_below hle _ _ _).bind fun _ => .refl _).bind fun _ => .refl _

/-! ## The packer -/

variable {D : Disk}

theorem fileentryCalculateZsizeHash_below (hle : k ≤ k') (f : FileEntry) :
    Exec.Below (fileentryCalculateZsizeHash (E.withFuel k) D f) (fileentryCalculateZsizeHash (E.withFuel k') D f) :=
  (Exec.Below.refl _).bind fun d => (convertFileZsizeHash_below hle d _ true).bind fun _ => .refl _

theorem filelistAppend_below (hle : k ≤ k') (ignore : Bool) (flags : FileListFlags) (list : List FileEntry)
    (p : CString) : Exec.Below (filelistAppend (E.withFuel k) D ignore flags list p)
      (filelistAppend (E.withFuel k') D ignore flags list p) := by
  unfold filelistAppend
  cases D.lstat p with
  | none => exact .refl _
  | some st =>
    simp only
    split
    · refine Exec.Below.bind ?_ fun f => .refl _
      unfold filelistAppendHash
      split
      · cases flags with
        | calculateHash => exact fileentryCalculateZsizeHash_below hle _
        | none => exact .refl _
      · exact .refl _
    · exact .refl _

theorem extendFileList_below (hle : k ≤ k') (ignore : Bool) (flags : FileListFlags) (list : List FileEntry)
    (walk : List CString) : Exec.Below (extendFileList (E.withFuel k) D ignore flags list walk)
      (extendFileList (E.withFuel k') D ignore flags list walk) :=
  .foldlM (fun list p _ => filelistAppend_below hle ignore flags list p) list

theorem writeFullBlob_below (hle : k ≤ k') (dir : Dir) (f : FileEntry) :
    Exec.Below (writeFullBlob (E.withFuel k) D dir f) (writeFullBlob (E.withFuel k') D dir f) :=
  (Exec.Below.refl _).bind fun _ => (Exec.Below.refl _).bind fun _ => (writeFile_below hle _).bind fun _ => .refl _

theorem writePacks_below (hle : k ≤ k') (opts : PackOptions) : ∀ (dir : Dir) (packs : List PackEntry),
    Exec.Below (writePacks (E.withFuel k) D opts dir packs) (writePacks (E.withFuel k') D opts dir packs)
  | _, [] => .refl _
  | dir, p :: packs => by
    unfold writePacks
    refine Exec.Below.bind ?_ fun r => (writePacks_below hle opts r.2 packs).bind fun _ => .refl _
    unfold writePack
    refine (Exec.Below.refl _).bind fun ops => (writeFile_below hle ops).bind fun content => ?_
    exact (convertFileZsizeHash_below hle content .zero true).bind fun _ => .refl _

theorem packFiles_below (hle : k ≤ k') (opts : PackOptions) (outDir : Dir) (files : List FileEntry) :
    Exec.Below (packFiles (E.withFuel k) D opts outDir files) (packFiles (E.withFuel k') D opts outDir files) := by
  unfold packFiles
  refine (Exec.Below.refl _).bind fun files => (Exec.Below.refl _).bind fun _ => (Exec.Below.refl _).bind fun cutoff => ?_
  refine (Exec.Below.foldlM (fun dir f _ => writeFullBlob_below hle dir f) outDir).bind fun outDir => ?_
  refine (writePacks_below hle opts outDir _).bind fun r => ?_
  exact Exec.Below.bind ((Exec.Below.refl _).bind fun ops => writeFile_below hle ops) fun _ => .refl _

theorem packMain_below (hle : k ≤ k') (opts : PackOptions) (metaFile : Bytes) (outDir : Dir) (walk : List CString) :
    Exec.Below (packMain (E.withFuel k) D opts metaFile outDir walk) (packMain (E.withFuel k') D opts metaFile outDir walk) := by
  unfold packMain
  by_cases havg : opts.avgPackKb < opts.packUpperKb
  · simp only [if_pos havg, failAndExit, error_bind]
    exact .refl _
  · simp only [if_neg havg]
    refine (Exec.Below.refl _).bind fun _ => ?_
    exact (extendFileList_below hle false .calculateHash [] walk).bind fun files => packFiles_below hle _ outDir files

/-- **A run of the packer does the same with a larger budget.** -/
theorem packMain_growing (opts : PackOptions) (metaFile : Bytes) (outDir : Dir) (walk : List CString) :
    Exec.Growing fun k => packMain (E.withFuel k) D opts metaFile outDir walk :=
  fun _ _ hle => packMain_below hle opts metaFile outDir walk

/-! ## The unpacker -/

theorem fetch_below (hle : k ≤ k') (source : PayloadSource) (filename : Bytes) :
    Exec.Below (fetch (E.withFuel k) source filename) (fetch (E.withFuel k') source filename) := by
  cases source with
  | http get => exact .refl _
  | directory dir =>
    unfold fetch
    simp only
    cases dir filename with
    | none => exact .refl _
    | some d => exact writeFile_below hle _
  | cache => exact .refl _

theorem downloadPayloadFile_below (hle : k ≤ k') (source : PayloadSource) (offlineMode : Bool) (filename : Bytes)
    (expectedHash : Option SfmfFileHash) (isCompressed : Bool) (s : CacheState) :
    Exec.Below (downloadPayloadFile (E.withFuel k) source offlineMode filename expectedHash isCompressed s)
      (downloadPayloadFile (E.withFuel k') source offlineMode filename expectedHash isCompressed s) := by
  unfold downloadPayloadFile
  refine Exec.Below.bind ?_ fun s => ?_
  · unfold checkCached
    cases s.cache filename with
    | none => exact .refl _
    | some d =>
      cases expectedHash with
      | none => exact .refl _
      | some hash =>
        simp only
        split
        · exact .refl _
        · exact (sfmfFilehashVerify_below hle hash d isCompressed).bind fun _ => .refl _
  · cases s.cache filename with
    | some d => exact .refl _
    | none =>
      simp only
      unfold downloadMissing
      cases offlineMode with
      | true => exact .inr rfl
      | false =>
        refine (fetch_below hle source filename).bind fun content => ?_
        cases expectedHash with
        | none => exact .refl _
        | some hash => exact (sfmfFilehashVerify_below hle hash content isCompressed).bind fun _ => .refl _

theorem searchLocal_below (hle : k ≤ k') (L : Disk) (hash : SfmfFileHash) (list : List FileEntry) :
    Exec.Below (searchLocal (E.withFuel k) L hash list) (searchLocal (E.withFuel k') L hash list) := by
  induction list with
  | nil => exact .refl _
  | cons entry list ih =>
    rw [searchLocal_eq, searchLocal_eq]
    split
    · exact ih.bind fun _ => .refl _
    · have hcalc : Exec.Below (calculated (E.withFuel k) L entry) (calculated (E.withFuel k') L entry) := by
        unfold calculated
        split
        · exact fileentryCalculateZsizeHash_below hle entry
        · exact .refl _
      refine hcalc.bind fun entry => (Exec.Below.refl _).bind fun _ => (Exec.Below.refl _).bind fun same => ?_
      cases same with
      | true => exact .refl _
      | false => exact ih.bind fun _ => .refl _

theorem searchBlobHash_below (hle : k ≤ k') (L : Disk) (m : Manifest) (hash : SfmfFileHash) (list : List FileEntry) :
    Exec.Below (searchBlobHash (E.withFuel k) L m hash list) (searchBlobHash (E.withFuel k') L m hash list) := by
  unfold searchBlobHash
  refine (Exec.Below.refl _).bind fun found => ?_
  cases found with
  | some entry => exact .refl _
  | none => exact (searchLocal_below hle L hash list).bind fun _ => .refl _

theorem classifyEntries_below (hle : k ≤ k') (opts : UnpackOptions) (m : Manifest) : ∀ (list : List FileEntry)
    (es : List SfmfFileEntry), Exec.Below (classifyEntries (E.withFuel k) opts m list es)
      (classifyEntries (E.withFuel k') opts m list es)
  | _, [] => .refl _
  | list, e :: es => by
    unfold classifyEntries
    refine Exec.Below.bind ?_ fun r => (classifyEntries_below hle opts m r.2 es).bind fun _ => .refl _
    unfold unpackClassifyEntry
    refine (Exec.Below.refl _).bind fun name => ?_
    by_cases hsize : e.hash.size > 0
    · simp only [if_pos hsize]
      refine (Exec.Below.refl _).bind fun _ => ?_
      split
      · exact .refl _
      · exact (searchBlobHash_below hle opts.localDisk m e.hash list).bind fun _ => .refl _
    · simp only [if_neg hsize]
      exact .refl _

theorem unpackDownloadRequirements_below (hle : k ≤ k') (opts : UnpackOptions) (s : CacheState) (e : UnpackFileEntry) :
    Exec.Below (unpackDownloadRequirements (E.withFuel k) opts s e) (unpackDownloadRequirements (E.withFuel k') opts s e) := by
  unfold unpackDownloadRequirements
  split
  · cases e.blobResult with
    | packed pack =>
      exact (Exec.Below.refl _).bind fun _ => (downloadPayloadFile_below hle _ _ _ _ _ s).bind fun _ => .refl _
    | full =>
      exact (Exec.Below.refl _).bind fun _ => (downloadPayloadFile_below hle _ _ _ _ _ s).bind fun _ => .refl _
    | _ => exact .refl _
  · exact .refl _

variable {Loc : Type} [DecidableEq Loc] {N : Naming Loc}

theorem unpackWriteEntry_below (hle : k ≤ k') (opts : UnpackOptions) (d : Bytes) (m : Manifest) (cache : Dir) (fs : FS Loc)
    (e : UnpackFileEntry) : Exec.Below (unpackWriteEntry (E.withFuel k) N opts d m cache fs e)
      (unpackWriteEntry (E.withFuel k') N opts d m cache fs e) := by
  unfold unpackWriteEntry
  simp only
  split
  · exact .refl _
  split
  · refine (Exec.Below.refl _).bind fun _ => (Exec.Below.refl _).bind fun ops => (writeFile_below hle ops).bind fun content => ?_
    split
    · exact .refl _
    · exact (convertFileZsizeHash_below hle content .zero false).bind fun _ => .refl _
  · exact .refl _

theorem unpackMain_below (hle : k ≤ k') (opts : UnpackOptions) (cache : Dir) (fs : FS Loc) :
    Exec.Below (unpackMain (E.withFuel k) N opts cache fs) (unpackMain (E.withFuel k') N opts cache fs) := by
  unfold unpackMain
  refine Exec.Below.bind ?_ fun c => Exec.Below.bind ?_ fun s => Exec.Below.bind ?_ fun fs => .refl _
  · unfold unpackClassify
    refine (downloadPayloadFile_below hle _ _ _ _ _ _).bind fun r => (Exec.Below.refl _).bind fun _ => ?_
    cases r.2.cache manifestFilename with
    | none => exact .refl _
    | some d =>
      refine (Exec.Below.refl _).bind fun header => Exec.Below.bind ?_ fun list => ?_
      · exact .foldlM (fun list walk _ => extendFileList_below hle true .none list walk) []
      · exact (Exec.Below.refl _).bind fun m => (classifyEntries_below hle opts m list _).bind fun _ => .refl _
  · unfold unpackDownload
    split
    · exact .refl _
    · exact .foldlM (fun s e _ => unpackDownloadRequirements_below hle opts s e) _
  · unfold unpackWrite
    split
    · exact .refl _
    · exact (Exec.Below.foldlM (fun fs e _ => unpackWriteEntry_below hle opts _ _ _ fs e) fs).bind fun _ => .refl _

/-- **A run of the unpacker does the same with a larger budget.** -/
theorem unpackMain_growing (opts : UnpackOptions) (cache : Dir) (fs : FS Loc) :
    Exec.Growing fun k => unpackMain (E.withFuel k) N opts cache fs :=
  fun _ _ hle => unpackMain_below hle opts cache fs

end Sfmf
