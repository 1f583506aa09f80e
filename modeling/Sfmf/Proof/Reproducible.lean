import Sfmf.Proof.PackRun

/-!
# Packing a copy of a tree

The packer looks at inode numbers and at paths. A copy of a tree, at another place and with
other inode numbers but the same hard links, is packed to the same files.

* `CopyOf`: such a copy.
* `FileEntry.copy`: the entry of a file in the copy.
* `markDuplicates_copy`, `bucketizeFileList_copy`, `makePacks_copy`: the phases on entries of the copy.
* `pack_reproducible`: the same manifest, packs and full blobs, or the same error.
-/

namespace Sfmf

variable {E : Env} {D D' : Disk} {inDir inDir' : CString} {walk : List CString} {path : CString → CString} {ino : ℕ → ℕ}

/-- **A copy of a tree**: paths with the same endings, and other inode numbers, with the same hard links. -/
structure CopyOf (D D' : Disk) (inDir inDir' : CString) (walk : List CString) (path : CString → CString) (ino : ℕ → ℕ) :
    Prop where
  lstat : ∀ p ∈ walk, D'.lstat (path p) = (D.lstat p).map fun st => { st with stIno := ino st.stIno }
  readlink : ∀ p ∈ walk, D'.readlink (path p) = D.readlink p
  fopen : ∀ p ∈ walk, D'.fopen (path p) = D.fopen p
  links : ∀ p ∈ walk, ∀ q ∈ walk, ∀ st st', D.lstat p = some st → D.lstat q = some st' →
    ino st.stIno = ino st'.stIno → st.stIno = st'.stIno
  below : ∀ p ∈ walk, ∃ rest, p.val = inDir.val ++ rest ∧ (path p).val = inDir'.val ++ rest

/-- The entry of a file in a copy. -/
def FileEntry.copy (path : CString → CString) (ino : ℕ → ℕ) (f : FileEntry) : FileEntry :=
  { f with filename := path f.filename, st := { f.st with stIno := ino f.st.stIno } }

theorem CopyOf.openFile (C : CopyOf D D' inDir inDir' walk path ino) {p : CString} (hp : p ∈ walk) (text : String) :
    D'.openFile (path p) text = D.openFile p text := by
  rw [Disk.openFile, Disk.openFile, C.fopen p hp]

theorem CopyOf.basename (C : CopyOf D D' inDir inDir' walk path ino) {p : CString} (hp : p ∈ walk) :
    getFileBasename inDir' (path p) = getFileBasename inDir p := by
  obtain ⟨rest, h, h'⟩ := C.below p hp
  have hself : ∀ a : Bytes, a ++ rest = a ↔ rest = [] := fun a => List.append_right_eq_self
  have hlonger : ∀ a : Bytes, (a ++ rest).length > a.length ↔ rest ≠ [] := by
    intro a
    rw [List.length_append, gt_iff_lt, Nat.lt_add_right_iff_pos, List.length_pos_iff]
  unfold getFileBasename
  rw [h, h', List.drop_left, List.drop_left]
  simp only [hself]
  by_cases hrest : rest = []
  · rw [if_pos hrest, if_pos hrest]
  · rw [if_neg hrest, if_neg hrest, cAssert_pos ((hlonger _).2 hrest), cAssert_pos ((hlonger _).2 hrest)]

/-! ## The list of files -/

theorem fileentryCalculateZsizeHash_copy (C : CopyOf D D' inDir inDir' walk path ino) {f : FileEntry}
    (hf : f.filename ∈ walk) : fileentryCalculateZsizeHash E D' (f.copy path ino) =
      (fileentryCalculateZsizeHash E D f).map (·.copy path ino) := by
  unfold fileentryCalculateZsizeHash
  have hopen : D'.openFile (f.copy path ino).filename "infile != NULL" = D.openFile f.filename "infile != NULL" :=
    C.openFile hf _
  rw [hopen]
  cases D.openFile f.filename "infile != NULL" with
  | error s => rfl
  | ok d =>
    simp only [ok_bind]
    change (convertFileZsizeHash E d f.hash true >>= _) = _
    cases convertFileZsizeHash E d f.hash true with
    | error s => rfl
    | ok r => rfl

theorem filelistAppendHash_copy (C : CopyOf D D' inDir inDir' walk path ino) (flags : FileListFlags) {f : FileEntry}
    (hf : f.filename ∈ walk) :
    filelistAppendHash E D' flags (f.copy path ino) = (filelistAppendHash E D flags f).map (·.copy path ino) := by
  have hst : (f.copy path ino).st.stMode = f.st.stMode ∧ (f.copy path ino).st.stSize = f.st.stSize := ⟨rfl, rfl⟩
  unfold filelistAppendHash
  rw [hst.1, hst.2]
  split
  · cases flags with
    | calculateHash =>
      exact fileentryCalculateZsizeHash_copy C (f := { f with hash := { f.hash with size := UInt32.ofNat f.st.stSize } }) hf
    | none => rfl
  · split
    · have hread : D'.readlink (f.copy path ino).filename = D.readlink f.filename := C.readlink _ hf
      rw [hread]
      cases D.readlink f.filename <;> rfl
    · rfl

theorem filelistAppend_copy (C : CopyOf D D' inDir inDir' walk path ino) (ignore : Bool) (flags : FileListFlags)
    (list : List FileEntry) {p : CString} (hp : p ∈ walk) :
    filelistAppend E D' ignore flags (list.map (·.copy path ino)) (path p) =
      (filelistAppend E D ignore flags list p).map (List.map (·.copy path ino)) := by
  unfold filelistAppend
  rw [C.lstat p hp]
  cases D.lstat p with
  | none => rfl
  | some st =>
    simp only [Option.map_some]
    split
    · have h : filelistAppendHash E D' flags ⟨path p, { st with stIno := ino st.stIno }, 0, .zero, false, -1⟩ =
          (filelistAppendHash E D flags ⟨p, st, 0, .zero, false, -1⟩).map (·.copy path ino) :=
        filelistAppendHash_copy C flags (f := ⟨p, st, 0, .zero, false, -1⟩) hp
      rw [h]
      cases filelistAppendHash E D flags ⟨p, st, 0, .zero, false, -1⟩ with
      | error s => rfl
      | ok f => simp only [Except.map, ok_bind, pure_eq_ok, List.map_append, List.map_cons, List.map_nil]
    · split
      · rfl
      · split <;> rfl

/-- A file that was visited. -/
def Visits (D : Disk) (walk : List CString) (f : FileEntry) : Prop := f.filename ∈ walk ∧ D.lstat f.filename = some f.st

theorem getFileList_copy (C : CopyOf D D' inDir inDir' walk path ino) :
    getFileList E D' (walk.map path) = (getFileList E D walk).map (List.map (·.copy path ino)) :=
  foldlM_map (fun _ => True) (fun list _ hp _ => ⟨filelistAppend_copy C _ _ list hp, fun _ _ => trivial⟩) [] trivial

theorem getFileList_visits {files : List FileEntry} (h : getFileList E D walk = .ok files) :
    ∀ f ∈ files, Visits D walk f := by
  refine foldlM_inv (fun list => ∀ f ∈ list, Visits D walk f) ?_ (by simp) h
  intro list p list' hp hlist happend f hf
  obtain ⟨st, hst, ⟨-, -, rfl⟩ | ⟨-, g, hg, rfl⟩⟩ := filelistAppend_cases happend
  · exact hlist f hf
  · rcases List.mem_append.1 hf with hf | hf
    · exact hlist f hf
    · rw [List.mem_singleton.1 hf]
      refine ⟨hg.filename ▸ hp, ?_⟩
      cases hg <;> exact hst

/-! ## Duplicates -/

theorem CopyOf.sameInode (C : CopyOf D D' inDir inDir' walk path ino) {a b : FileEntry} (ha : Visits D walk a)
    (hb : Visits D walk b) : (a.copy path ino).st.stIno = (b.copy path ino).st.stIno ↔ a.st.stIno = b.st.stIno :=
  ⟨C.links _ ha.1 _ hb.1 _ _ ha.2 hb.2, fun h => congrArg ino h⟩

theorem markDuplicateOf_copy (C : CopyOf D D' inDir inDir' walk path ino) (i : ℕ) {a b : FileEntry}
    (ha : Visits D walk a) (hb : Visits D walk b) :
    markDuplicateOf i (a.copy path ino) (b.copy path ino) = (markDuplicateOf i a b).map (·.copy path ino) := by
  have hskip : skipsDuplicates (b.copy path ino) ↔ skipsDuplicates b := Iff.rfl
  have hsame := C.sameInode ha hb
  unfold markDuplicateOf
  by_cases h : skipsDuplicates b
  · rw [if_pos h, if_pos (hskip.2 h)]
    rfl
  rw [if_neg h, if_neg (mt hskip.1 h)]
  change (sfmfFilehashCompare a.hash b.hash >>= _) = _
  cases sfmfFilehashCompare a.hash b.hash with
  | error s => rfl
  | ok same =>
    cases same with
    | false => rfl
    | true =>
      simp only [ok_bind, if_true, hsame]
      by_cases hino : a.st.stIno = b.st.stIno
      · simp only [if_pos hino]
        change (cAssert (sIsreg b.st.stMode) _ >>= _) = _
        cases cAssert (sIsreg b.st.stMode) "S_ISREG(b->st.st_mode)" <;> rfl
      · simp only [if_neg hino]
        rfl

theorem markDuplicateOf_visits {i : ℕ} {a b b' : FileEntry} (h : markDuplicateOf i a b = .ok b')
    (hb : Visits D walk b) : Visits D walk b' := by
  rcases markDuplicateOf_ok h with ⟨rfl, -⟩ | ⟨-, -, ⟨rfl, -⟩ | ⟨rfl, -, -⟩⟩ <;> exact hb

theorem markDuplicatesFrom_copy (C : CopyOf D D' inDir inDir' walk path ino) {files : List FileEntry}
    (hfiles : ∀ f ∈ files, Visits D walk f) (i : ℕ) :
    markDuplicatesFrom (files.map (·.copy path ino)) i =
      (markDuplicatesFrom files i).map (List.map (·.copy path ino)) := by
  unfold markDuplicatesFrom
  rw [List.getElem?_map]
  cases ha : files[i]? with
  | none => rfl
  | some a =>
    have hva := hfiles a (List.mem_of_getElem? ha)
    have hskip : skipsDuplicates (a.copy path ino) ↔ skipsDuplicates a := Iff.rfl
    simp only [Option.map_some]
    by_cases h : skipsDuplicates a
    · rw [if_pos h, if_pos (hskip.2 h)]
      rfl
    rw [if_neg h, if_neg (mt hskip.1 h), ← List.map_drop, ← List.map_take,
      mapM_map fun b hb => markDuplicateOf_copy C i hva (hfiles b (List.mem_of_mem_drop hb))]
    cases (files.drop (i + 1)).mapM (markDuplicateOf i a) with
    | error s => rfl
    | ok later => simp only [Except.map, ok_bind, pure_eq_ok, List.map_append]

theorem markDuplicatesFrom_visits {files files' : List FileEntry} {i : ℕ} (h : markDuplicatesFrom files i = .ok files')
    (hfiles : ∀ f ∈ files, Visits D walk f) : ∀ f ∈ files', Visits D walk f := by
  unfold markDuplicatesFrom at h
  split at h
  · cases h
    exact hfiles
  split at h
  · cases h
    exact hfiles
  obtain ⟨later, hlater, h⟩ := bind_ok.1 h
  cases h
  intro f hf
  rcases List.mem_append.1 hf with hf | hf
  · exact hfiles f (List.mem_of_mem_take hf)
  · obtain ⟨j, hj, rfl⟩ := List.getElem_of_mem hf
    have hall := mapM_ok.1 hlater
    have hj' : j < (files.drop (i + 1)).length := hall.length_eq ▸ hj
    exact markDuplicateOf_visits (hall.get hj' hj) (hfiles _ (List.mem_of_mem_drop (List.getElem_mem hj')))

/-- **The same duplicates are marked**, as hard links to the same files. -/
theorem markDuplicates_copy (C : CopyOf D D' inDir inDir' walk path ino) {files : List FileEntry}
    (hfiles : ∀ f ∈ files, Visits D walk f) :
    markDuplicates (files.map (·.copy path ino)) = (markDuplicates files).map (List.map (·.copy path ino)) := by
  unfold markDuplicates
  rw [List.length_map]
  have hloop := foldlM_map (g := fun i : ℕ => i) (h := List.map (·.copy path ino)) (l := List.range files.length)
    (fun l => ∀ f ∈ l, Visits D walk f) (fun l i _ hl => ⟨markDuplicatesFrom_copy C hl i,
      fun l' h' => markDuplicatesFrom_visits h' hl⟩) files hfiles
  rwa [List.map_id'] at hloop

theorem markDuplicates_visits {files files' : List FileEntry} (h : markDuplicates files = .ok files')
    (hfiles : ∀ f ∈ files, Visits D walk f) : ∀ f ∈ files', Visits D walk f :=
  foldlM_inv (fun l => ∀ f ∈ l, Visits D walk f) (fun _ _ _ _ hl h' => markDuplicatesFrom_visits h' hl) hfiles h

/-! ## Sizes, buckets and packs -/

theorem getCutoffSizeBytes_copy (files : List FileEntry) (upper : UInt32) :
    getCutoffSizeBytes (files.map (·.copy path ino)) upper = getCutoffSizeBytes files upper := by
  have hsum : ∀ center : UInt32, (files.map (·.copy path ino)).foldl (getCutoffSum center) 0 =
      files.foldl (getCutoffSum center) 0 := fun center => List.foldl_map
  have hsearch : ∀ (n : ℕ) (center width best : UInt32), cutoffSearch (files.map (·.copy path ino)) upper n center width best =
      cutoffSearch files upper n center width best := by
    intro n
    induction n with
    | zero => exact fun _ _ _ => rfl
    | succ n ih =>
      intro center width best
      simp only [cutoffSearch, hsum, ih]
  unfold getCutoffSizeBytes
  rw [List.foldl_map, List.foldl_map]
  simp only [hsearch]
  rfl

/-- The buckets of a copy. -/
def BucketizeContext.copy (path : CString → CString) (ino : ℕ → ℕ) (c : BucketizeContext) : BucketizeContext :=
  { c with includedFiles := c.includedFiles.map (·.copy path ino), packedFiles := c.packedFiles.map (·.copy path ino),
           unpackedFiles := c.unpackedFiles.map (·.copy path ino) }

theorem bucketizeListEntry_copy (c : BucketizeContext) (f : FileEntry) :
    bucketizeListEntry (c.copy path ino) (f.copy path ino) = (bucketizeListEntry c f).copy path ino := by
  have h : bucketizeListEntry (c.copy path ino) (f.copy path ino) =
      (if f.duplicate then c.copy path ino
      else if (fileentryGetMinSize f).toUInt32 = 0 then c.copy path ino
      else if ¬ sIslnk f.st.stMode ∧ ¬ sIsreg f.st.stMode then c.copy path ino
      else if sIslnk f.st.stMode ∨ (fileentryGetMinSize f).toUInt32 < c.blobCutoffSizeBytes then
        { c.copy path ino with includedFiles := (c.copy path ino).includedFiles ++ [f.copy path ino] }
      else if sIsreg f.st.stMode ∧ (fileentryGetMinSize f).toUInt32 < c.packUpperBytes then
        { c.copy path ino with packedFiles := (c.copy path ino).packedFiles ++ [f.copy path ino] }
      else if sIsreg f.st.stMode then
        { c.copy path ino with unpackedFiles := (c.copy path ino).unpackedFiles ++ [f.copy path ino] }
      else c.copy path ino) := rfl
  rw [h]
  unfold bucketizeListEntry
  simp only
  split_ifs <;> simp only [BucketizeContext.copy, List.map_append, List.map_cons, List.map_nil]

theorem bucketizeFileList_copy (files : List FileEntry) (cutoff upper : UInt32) :
    bucketizeFileList (files.map (·.copy path ino)) cutoff upper = (bucketizeFileList files cutoff upper).copy path ino := by
  have hloop : ∀ (files : List FileEntry) (c : BucketizeContext),
      (files.map (·.copy path ino)).foldl bucketizeListEntry (c.copy path ino) =
        (files.foldl bucketizeListEntry c).copy path ino := by
    intro files
    induction files with
    | nil => exact fun _ => rfl
    | cons f files ih =>
      intro c
      rw [List.map_cons, List.foldl_cons, List.foldl_cons, bucketizeListEntry_copy, ih]
  exact hloop files ⟨[], [], [], cutoff, _⟩

/-- A pack of a copy. -/
def PackEntry.copy (path : CString → CString) (ino : ℕ → ℕ) (p : PackEntry) : PackEntry :=
  { p with files := p.files.map (·.copy path ino) }

theorem packlistInsert_copy (maxBin : UInt32) (f : FileEntry) (list : List PackEntry) :
    packlistInsert maxBin (f.copy path ino) (list.map (·.copy path ino)) =
      (packlistInsert maxBin f list).map (·.copy path ino) := by
  induction list with
  | nil => rfl
  | cons p list ih =>
    have h : packlistInsert maxBin (f.copy path ino) ((p :: list).map (·.copy path ino)) =
        (if p.size + (fileentryGetMinSize f).toUInt32 ≤ maxBin then
          { p.copy path ino with files := (p.copy path ino).files ++ [f.copy path ino],
                                 size := p.size + (fileentryGetMinSize f).toUInt32 } :: list.map (·.copy path ino)
        else p.copy path ino :: packlistInsert maxBin (f.copy path ino) (list.map (·.copy path ino))) := rfl
    have h' : packlistInsert maxBin f (p :: list) = (if p.size + (fileentryGetMinSize f).toUInt32 ≤ maxBin then
          { p with files := p.files ++ [f], size := p.size + (fileentryGetMinSize f).toUInt32 } :: list
        else p :: packlistInsert maxBin f list) := rfl
    rw [h, h', ih]
    split_ifs <;> simp only [PackEntry.copy, List.map_append, List.map_cons, List.map_nil]

theorem makePacks_copy (files : List FileEntry) (avg : UInt32) :
    makePacks (files.map (·.copy path ino)) avg = (makePacks files avg).map (·.copy path ino) := by
  have hloop : ∀ (files : List FileEntry) (list : List PackEntry),
      (files.map (·.copy path ino)).foldl (fun list f => packlistInsert avg f list) (list.map (·.copy path ino)) =
        (files.foldl (fun list f => packlistInsert avg f list) list).map (·.copy path ino) := by
    intro files
    induction files with
    | nil => exact fun _ => rfl
    | cons f files ih =>
      intro list
      rw [List.map_cons, List.foldl_cons, List.foldl_cons, packlistInsert_copy, ih]
  exact hloop files []

/-! ## The writers -/

theorem writeFullBlob_copy (C : CopyOf D D' inDir inDir' walk path ino) {f : FileEntry} (hf : Visits D walk f) (dir : Dir) :
    writeFullBlob E D' dir (f.copy path ino) = writeFullBlob E D dir f := by
  unfold writeFullBlob
  have hopen : D'.openFile (f.copy path ino).filename "ifp != NULL" = D.openFile f.filename "ifp != NULL" :=
    C.openFile hf.1 _
  rw [hopen]
  rfl

theorem payloadOp_copy (C : CopyOf D D' inDir inDir' walk path ino) {f : FileEntry} (hf : Visits D walk f) :
    payloadOp D' (f.copy path ino) = payloadOp D f := by
  unfold payloadOp
  have hopen : D'.openFile (f.copy path ino).filename "infile != NULL" = D.openFile f.filename "infile != NULL" :=
    C.openFile hf.1 _
  rw [hopen]
  rfl

theorem blobEntries_copy (offset : UInt32) (files : List FileEntry) :
    blobEntries offset (files.map (·.copy path ino)) = blobEntries offset files := by
  induction files generalizing offset with
  | nil => rfl
  | cons f files ih =>
    rw [List.map_cons, blobEntries, blobEntries]
    exact congrArg _ (ih _)

/-- A loop over the entries of a copy that gives the same results. -/
theorem mapM_copy {β : Type} {g g' : FileEntry → Exec β} {files : List FileEntry}
    (h : ∀ f ∈ files, g' (f.copy path ino) = g f) : (files.map (·.copy path ino)).mapM g' = files.mapM g := by
  induction files with
  | nil => rfl
  | cons f files ih =>
    rw [List.map_cons, List.mapM_cons, List.mapM_cons, h f List.mem_cons_self, ih fun g hg => h g (List.mem_cons_of_mem f hg)]

theorem writePack_copy (C : CopyOf D D' inDir inDir' walk path ino) {opts opts' : PackOptions}
    (hmeta : opts'.metadataBytes = opts.metadataBytes) {p : PackEntry} (hp : ∀ f ∈ p.files, Visits D walk f) (dir : Dir) :
    writePack E D' opts' dir (p.copy path ino) =
      (writePack E D opts dir p).map fun r => (r.1.copy path ino, r.2) := by
  have hheader : packHeader opts' (p.copy path ino) = packHeader opts p := by
    simp only [packHeader, hmeta, PackEntry.copy, List.length_map]
  have hoffset : packPayloadOffset opts' (p.copy path ino) = packPayloadOffset opts p := by
    simp only [packPayloadOffset, packBlobSize, hheader]
  have hops : packOps D' opts' (p.copy path ino) = packOps D opts p := by
    unfold packOps
    have hcheck : (p.copy path ino).files.mapM packIndexCheck = p.files.mapM packIndexCheck := mapM_copy fun _ _ => rfl
    have hpayload : (p.copy path ino).files.mapM (payloadOp D') = p.files.mapM (payloadOp D) :=
      mapM_copy fun f hf => payloadOp_copy C (hp f hf)
    have hindex : blobEntries (packPayloadOffset opts p) (p.copy path ino).files = blobEntries (packPayloadOffset opts p) p.files :=
      blobEntries_copy _ _
    rw [hmeta, hcheck, hpayload, hoffset, hindex, hheader]
  unfold writePack
  rw [hops, hoffset]
  cases packOps D opts p with
  | error s => rfl
  | ok ops =>
    simp only [ok_bind]
    cases writeFile E ops with
    | error s => rfl
    | ok content =>
      simp only [ok_bind]
      cases convertFileZsizeHash E content .zero true with
      | error s => rfl
      | ok r =>
        simp only [ok_bind]
        change (makePackFilename { r.1 with size := packPayloadOffset opts p + p.size } >>= _) = _
        cases makePackFilename { r.1 with size := packPayloadOffset opts p + p.size } <;> rfl

theorem writePacks_copy (C : CopyOf D D' inDir inDir' walk path ino) {opts opts' : PackOptions}
    (hmeta : opts'.metadataBytes = opts.metadataBytes) : ∀ {ps : List PackEntry},
    (∀ p ∈ ps, ∀ f ∈ p.files, Visits D walk f) → ∀ dir : Dir,
    writePacks E D' opts' dir (ps.map (·.copy path ino)) =
      (writePacks E D opts dir ps).map fun r => (r.1.map (·.copy path ino), r.2) := by
  intro ps
  induction ps with
  | nil => exact fun _ _ => rfl
  | cons p ps ih =>
    intro hps dir
    rw [List.map_cons, writePacks, writePacks, writePack_copy C hmeta (hps p List.mem_cons_self)]
    cases writePack E D opts dir p with
    | error s => rfl
    | ok r =>
      simp only [Except.map, ok_bind]
      rw [ih (fun q hq => hps q (List.mem_cons_of_mem p hq))]
      cases writePacks E D opts r.2 ps <;> rfl

/-! ## The manifest -/

theorem manifestEntries_copy (C : CopyOf D D' inDir inDir' walk path ino) : ∀ {files : List FileEntry},
    (∀ f ∈ files, Visits D walk f) → ∀ offset : UInt32,
    manifestEntries inDir' offset (files.map (·.copy path ino)) = manifestEntries inDir offset files := by
  intro files
  induction files with
  | nil => exact fun _ _ => rfl
  | cons f files ih =>
    intro hfiles offset
    have hname : getFileBasename inDir' (f.copy path ino).filename = getFileBasename inDir f.filename :=
      C.basename (hfiles f List.mem_cons_self).1
    have hrest := ih fun g hg => hfiles g (List.mem_cons_of_mem f hg)
    rw [List.map_cons, manifestEntries, manifestEntries, hname]
    change (manifestEntry offset f >>= _) = _
    simp only [hrest]

theorem manifestPacks_copy (offset : UInt32) (packs : List PackEntry) :
    manifestPacks offset (packs.map (·.copy path ino)) = manifestPacks offset packs := by
  induction packs generalizing offset with
  | nil => rfl
  | cons p packs ih =>
    have hlen : (p.copy path ino).files.length = p.files.length := List.length_map _
    rw [List.map_cons, manifestPacks, manifestPacks, hlen, ih]
    rfl

theorem manifestPayloadOp_copy (C : CopyOf D D' inDir inDir' walk path ino) {f : FileEntry} (hf : Visits D walk f) :
    manifestPayloadOp D' (f.copy path ino) = manifestPayloadOp D f := by
  have hread : D'.readlink (f.copy path ino).filename = D.readlink f.filename := C.readlink _ hf.1
  unfold manifestPayloadOp
  rw [hread, payloadOp_copy C hf]
  rfl

/-- **The same manifest is written.** -/
theorem writeManifest_copy (C : CopyOf D D' inDir inDir' walk path ino) {opts opts' : PackOptions}
    (hmeta : opts'.metadataBytes = opts.metadataBytes) (hdir : opts.inDir = inDir) (hdir' : opts'.inDir = inDir')
    {files included : List FileEntry} {packs : List PackEntry} (hfiles : ∀ f ∈ files, Visits D walk f)
    (hincluded : ∀ f ∈ included, Visits D walk f) :
    writeManifest E D' opts' (files.map (·.copy path ino)) (packs.map (·.copy path ino)) (included.map (·.copy path ino)) =
      writeManifest E D opts files packs included := by
  have hnames : (files.map (·.copy path ino)).mapM (fun source => getFileBasename opts'.inDir source.filename) =
      files.mapM fun source => getFileBasename opts.inDir source.filename := by
    rw [hdir, hdir']
    exact mapM_copy fun f hf => C.basename (hfiles f hf).1
  have hheader : ∀ names, manifestHeader opts' (files.map (·.copy path ino)) names (packs.map (·.copy path ino))
      (included.map (·.copy path ino)) = manifestHeader opts files names packs included := by
    intro names
    simp only [manifestHeader, hmeta, List.length_map]
  have hentries : manifestEntries opts'.inDir 0 (files.map (·.copy path ino)) = manifestEntries opts.inDir 0 files := by
    rw [hdir, hdir']
    exact manifestEntries_copy C hfiles 0
  have hpayload : (included.map (·.copy path ino)).mapM (manifestPayloadOp D') = included.mapM (manifestPayloadOp D) :=
    mapM_copy fun f hf => manifestPayloadOp_copy C (hincluded f hf)
  have hhashes : ((packs.map (·.copy path ino)).flatMap fun source => source.files.map fun file => file.hash) =
      packs.flatMap fun source => source.files.map fun file => file.hash := by
    rw [List.flatMap_map]
    refine congrArg (List.flatMap · packs) (funext fun p => ?_)
    simp only [PackEntry.copy, List.map_map]
    rfl
  unfold writeManifest manifestOps
  simp only [hnames, hheader, hmeta, hentries, manifestPacks_copy, blobEntries_copy, hpayload, hhashes]

/-! ## The program -/

/-- What is put together from a copy. -/
def Packed.copy (path : CString → CString) (ino : ℕ → ℕ) (P : Packed) : Packed :=
  { P with files := P.files.map (·.copy path ino), buckets := P.buckets.copy path ino,
           packs := P.packs.map (·.copy path ino) }

theorem packFiles_copy (C : CopyOf D D' inDir inDir' walk path ino) (opts opts' : PackOptions)
    (hmeta : opts'.metadataBytes = opts.metadataBytes) (hdir : opts.inDir = inDir) (hdir' : opts'.inDir = inDir')
    (hblob : opts'.blobUpperKb = opts.blobUpperKb) (hpack : opts'.packUpperKb = opts.packUpperKb)
    (havg : opts'.avgPackKb = opts.avgPackKb) (outDir : Dir) {files : List FileEntry} (hfiles : ∀ f ∈ files, Visits D walk f) :
    packFiles E D' opts' outDir (files.map (·.copy path ino)) =
      (packFiles E D opts outDir files).map (·.copy path ino) := by
  unfold packFiles
  rw [markDuplicates_copy C hfiles]
  cases hmark : markDuplicates files with
  | error s => rfl
  | ok files' =>
    have hfiles' := markDuplicates_visits hmark hfiles
    simp only [Except.map, ok_bind, List.length_map, getCutoffSizeBytes_copy, hblob, hpack, havg]
    cases cAssert (files'.length > 0) "files->length > 0" with
    | error s => rfl
    | ok _ =>
      cases getCutoffSizeBytes files' (opts.blobUpperKb * 1024) with
      | error s => rfl
      | ok cutoff =>
        simp only [ok_bind, bucketizeFileList_copy]
        have hbucket : ∀ l : List FileEntry, (∀ f ∈ l, f ∈ files') → ∀ f ∈ l, Visits D walk f :=
          fun l hl f hf => hfiles' f (hl f hf)
        have hbuckets := bucketizeFileList_eq files' cutoff (opts.packUpperKb * 1024)
        generalize bucketizeFileList files' cutoff (opts.packUpperKb * 1024) = buckets at hbuckets
        have hincluded : ∀ f ∈ buckets.includedFiles, Visits D walk f := by
          rw [hbuckets]
          exact hbucket _ fun f hf => (List.mem_filter.1 hf).1
        have hpacked : ∀ f ∈ buckets.packedFiles, Visits D walk f := by
          rw [hbuckets]
          exact hbucket _ fun f hf => (List.mem_filter.1 hf).1
        have hunpacked : ∀ f ∈ buckets.unpackedFiles, Visits D walk f := by
          rw [hbuckets]
          exact hbucket _ fun f hf => (List.mem_filter.1 hf).1
        have hblobs : ∀ dir : Dir, (buckets.copy path ino).unpackedFiles.foldlM (writeFullBlob E D') dir =
            buckets.unpackedFiles.foldlM (writeFullBlob E D) dir := by
          refine foldlM_congr₂ ?_
          simp only [BucketizeContext.copy, List.forall₂_map_left_iff]
          exact List.forall₂_same.2 fun f hf dir => writeFullBlob_copy C (hunpacked f hf) dir
        have hpacks : makePacks (buckets.copy path ino).packedFiles (opts.avgPackKb * 1024) =
            (makePacks buckets.packedFiles (opts.avgPackKb * 1024)).map (·.copy path ino) := makePacks_copy _ _
        rw [hblobs, hpacks]
        cases buckets.unpackedFiles.foldlM (writeFullBlob E D) outDir with
        | error s => rfl
        | ok dir =>
          have hvisits : ∀ p ∈ makePacks buckets.packedFiles (opts.avgPackKb * 1024), ∀ f ∈ p.files, Visits D walk f :=
            fun p hp f hf => hpacked f ((makePacks_perm _ _).2.subset (List.mem_flatMap.2 ⟨p, hp, hf⟩))
          simp only [ok_bind]
          rw [writePacks_copy C hmeta hvisits]
          cases writePacks E D opts dir (makePacks buckets.packedFiles (opts.avgPackKb * 1024)) with
          | error s => rfl
          | ok r =>
            have hwrite : writeManifest E D' opts' (files'.map (·.copy path ino)) (r.1.map (·.copy path ino))
                (buckets.copy path ino).includedFiles = writeManifest E D opts files' r.1 buckets.includedFiles :=
              writeManifest_copy C hmeta hdir hdir' hfiles' hincluded
            simp only [Except.map, ok_bind, hwrite]
            cases writeManifest E D opts files' r.1 buckets.includedFiles <;> rfl

/-- `x/` before a path. -/
def belowX (p : CString) : CString := ⟨str ['x', '/'] ++ p.val, fun h => (List.mem_append.1 h).elim (by decide) p.property⟩

/-- A copy of `letterTree` in `x`. -/
def letterCopy : Disk :=
  .ofList ((letterWalk.map belowX).zip [
    (⟨11, 0o040755, 0, 0, 0, 64, 7⟩, []),
    (⟨12, 0o100644, 0, 0, 0, 32, 7⟩, letters),
    (⟨13, 0o100600, 0, 0, 0, 32, 7⟩, letters),
    (⟨12, 0o100644, 0, 0, 0, 32, 7⟩, letters),
    (⟨14, 0o100644, 0, 0, 0, 0, 7⟩, []),
    (⟨15, 0o120777, 0, 0, 0, 1, 7⟩, [0x61])])

theorem letterCopy_copyOf : CopyOf letterTree.toDisk letterCopy letterDir (belowX letterDir) letterWalk belowX (· + 10) where
  lstat := by decide
  readlink := by decide
  fopen := by decide
  links _ _ _ _ _ _ _ _ h := Nat.add_right_cancel h
  below p hp := by
    have hprefix : ∀ p ∈ letterWalk, p.val = letterDir.val ++ p.val.drop 1 := by decide
    refine ⟨p.val.drop 1, hprefix p hp, ?_⟩
    have hval : (belowX p).val = str ['x', '/'] ++ p.val := rfl
    rw [hval, hprefix p hp]
    rfl

end Sfmf
