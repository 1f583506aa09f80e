import Sfmf.Proof.FileEntry

/-!
# Manifests: reading undoes writing

* `writeManifest_ok`: the regions of a manifest, in order.
* `ReadsBack`: what the reader must get from a manifest.
* `manifest_roundtrip`: it does.
-/

namespace Sfmf

variable {E : Env} {D : Disk} {opts : PackOptions}

/-! ## The table of names -/

/-- The bytes of a name in the table. -/
def nameBytes (name : Bytes) : Bytes := name ++ [0]

/-- The table of names. -/
def filenameTable (names : List Bytes) : Bytes := names.flatMap nameBytes

theorem foldl_nameSize (names : List Bytes) (n : ℕ) :
    names.foldl (fun size name => size + UInt32.ofNat (name.length + 1)) (UInt32.ofNat n) =
      UInt32.ofNat (n + (filenameTable names).length) := by
  induction names generalizing n with
  | nil => simp [filenameTable]
  | cons name names ih =>
    rw [List.foldl_cons, ← UInt32.ofNat_add, ih]
    simp only [filenameTable, List.flatMap_cons, List.length_append, nameBytes, List.length_singleton]
    congr 1; omega

theorem filenameTableSize_eq (names : List Bytes) :
    filenameTableSize names = UInt32.ofNat (filenameTable names).length := by
  have h := foldl_nameSize names 0
  rw [Nat.zero_add] at h
  exact h

/-- A name that is written has no NUL in it. -/
theorem getFileBasename_nul {inDir filename : CString} {name : Bytes}
    (h : getFileBasename inDir filename = .ok name) : (0 : UInt8) ∉ name := by
  unfold getFileBasename at h
  split at h
  · cases h; decide
  · simp only [bind_ok, cAssert_ok, exists_const, pure_eq_ok, Except.ok.injEq] at h
    obtain ⟨_, rfl⟩ := h
    have hdrop : ∀ k, (0 : UInt8) ∉ filename.val.drop k := fun k hk => filename.2 (List.mem_of_mem_drop hk)
    split
    · rw [List.drop_drop]; exact hdrop _
    · exact hdrop _

theorem takeWhile_nul {name rest : Bytes} (h : (0 : UInt8) ∉ name) :
    (name ++ 0 :: rest).takeWhile (· ≠ 0) = name := by
  induction name with
  | nil => simp
  | cons c cs ih =>
    simp only [List.mem_cons, not_or] at h
    rw [List.cons_append, List.takeWhile_cons_of_pos (by simpa using Ne.symm h.1), ih h.2]

/-- **A name is found at its offset** in the table. -/
theorem filenameAt_table {m : Manifest} {names : List Bytes} (hm : m.filenameTable = filenameTable names)
    (hlen : (filenameTable names).length < 2 ^ 32) {i : ℕ} {name : Bytes} (hi : names[i]? = some name)
    (hnul : (0 : UInt8) ∉ name) :
    m.filenameAt (UInt32.ofNat (offset (names.map fun n => n.length + 1) i)) = .ok name := by
  have hsizes : (names.map nameBytes).map List.length = names.map fun n => n.length + 1 := by
    simp [nameBytes, Function.comp_def]
  have hbytes : (names.map nameBytes)[i]? = some (nameBytes name) := by simp [hi]
  obtain ⟨a, b, hab, ha⟩ := flatten_split hbytes
  rw [hsizes] at ha
  have htable : filenameTable names = a ++ (name ++ 0 :: b) := by
    rw [filenameTable, List.flatMap_def, hab]
    simp [nameBytes]
  have hoff : (UInt32.ofNat (offset (names.map fun n => n.length + 1) i)).toNat = a.length := by
    rw [← ha]
    refine ofNat_toNat_of_lt ?_
    rw [htable, List.length_append] at hlen
    omega
  have hdrop : m.filenameTable.drop a.length = name ++ 0 :: b := by rw [hm, htable, List.drop_left]
  simp only [Manifest.filenameAt, hoff, hdrop, takeWhile_nul hnul]
  simp

/-! ## Entries with running offsets -/

/-- The `i`-th file entry has the offset of the `i`-th name. -/
theorem manifestEntries_get {inDir : CString} : ∀ {files : List FileEntry} {names : List Bytes}
    {entries : List SfmfFileEntry} {n : ℕ},
    files.mapM (fun f => getFileBasename inDir f.filename) = .ok names →
    manifestEntries inDir (UInt32.ofNat n) files = .ok entries →
    entries.length = files.length ∧ ∀ i f, files[i]? = some f → ∃ e, entries[i]? = some e ∧
      manifestEntry (UInt32.ofNat (n + offset (names.map fun n => n.length + 1) i)) f = .ok e := by
  intro files
  induction files with
  | nil => intro names entries n _ he; cases he; simp
  | cons f files ih =>
    intro names entries n hn he
    simp only [List.mapM_cons, bind_ok, pure_eq_ok, Except.ok.injEq] at hn
    obtain ⟨name, hname, names, hnames, rfl⟩ := hn
    simp only [manifestEntries, bind_ok, hname, pure_eq_ok, Except.ok.injEq] at he
    obtain ⟨e, he, _, rfl, es, hes, rfl⟩ := he
    rw [← UInt32.ofNat_add] at hes
    obtain ⟨hlen, hget⟩ := ih hnames hes
    refine ⟨by simp [hlen], ?_⟩
    intro i g hg
    cases i with
    | zero =>
      simp only [List.getElem?_cons_zero, Option.some.injEq] at hg
      subst hg
      exact ⟨e, by simp, by simpa using he⟩
    | succ i =>
      obtain ⟨e', he', hget⟩ := hget i g (by simpa using hg)
      exact ⟨e', by simpa using he', by simpa [Nat.add_assoc] using hget⟩

/-- The bytes of a pack's hashes. -/
def packHashBytes (p : PackEntry) : Bytes := (p.files.map (·.hash)).flatMap SfmfFileHash.encode

theorem packHashBytes_length (p : PackEntry) : (packHashBytes p).length = sfmfFileHashSize * p.files.length := by
  simp [packHashBytes, flatMap_length_const SfmfFileHash.encode_length]

/-- The pack entries: the `i`-th has the offset of the `i`-th pack's hashes, and what follows is behind
all of them. -/
theorem manifestPacks_eq (packs : List PackEntry) (n : ℕ) :
    (manifestPacks (UInt32.ofNat n) packs).2 = UInt32.ofNat (n + (packs.map fun p => (packHashBytes p).length).sum) ∧
      (manifestPacks (UInt32.ofNat n) packs).1.length = packs.length ∧
      ∀ (i : ℕ) (p : PackEntry), packs[i]? = some p → (manifestPacks (UInt32.ofNat n) packs).1[i]? = some
        (SfmfPackEntry.mk p.packfileHash (UInt32.ofNat (n + offset (packs.map fun p => (packHashBytes p).length) i))
          (UInt32.ofNat p.files.length)) := by
  induction packs generalizing n with
  | nil => simp [manifestPacks]
  | cons p packs ih =>
    have hn : UInt32.ofNat n + UInt32.ofNat p.files.length * UInt32.ofNat sfmfFileHashSize =
        UInt32.ofNat (n + (packHashBytes p).length) := by
      rw [packHashBytes_length, UInt32.ofNat_add, UInt32.ofNat_mul, UInt32.mul_comm]
    obtain ⟨hoff, hlen, hget⟩ := ih (n + (packHashBytes p).length)
    simp only [manifestPacks, hn]
    refine ⟨by rw [hoff]; simp [Nat.add_assoc], by simpa using hlen, ?_⟩
    intro i q hq
    cases i with
    | zero => simp only [List.getElem?_cons_zero, Option.some.injEq] at hq; subst hq; simp
    | succ i =>
      rw [List.getElem?_cons_succ] at hq ⊢
      rw [hget i q hq]
      simp [Nat.add_assoc]

theorem readPackHashes_at {d : Bytes} : ∀ (hs : List SfmfFileHash) (p s : Bytes) {pos n : ℕ},
    d = p ++ hs.flatMap SfmfFileHash.encode ++ s → pos = p.length → n = hs.length →
    readPackHashes d pos n = .ok hs := by
  intro hs
  induction hs with
  | nil => intro p s pos n _ _ hn; subst hn; rfl
  | cons h hs ih =>
    intro p s pos n hd hp hn
    subst hn
    have hne : h.encode ≠ [] := by
      intro he; have := congrArg List.length he; simp [sfmfFileHashSize] at this
    have hread : fread d pos sfmfFileHashSize = (some h.encode, pos + sfmfFileHashSize) :=
      fread_at p (hs.flatMap SfmfFileHash.encode ++ s) (by simp [hd]) hne hp (SfmfFileHash.encode_length h).symm
    have hrest : readPackHashes d (pos + sfmfFileHashSize) hs.length = .ok hs :=
      ih (p ++ h.encode) s (by simp [hd]) (by simp [hp]) rfl
    simp [readPackHashes, freadOne, hread, hrest]

/-! ## The regions of a manifest -/

/-- The pieces a manifest is put together from. -/
structure Regions where
  header : SfmfFileHeader
  names : List Bytes
  entries : List SfmfFileEntry
  packEntries : List SfmfPackEntry
  blobs : List SfmfBlobEntry

/-- What precedes the hashes of the packs. -/
def Regions.head (r : Regions) (metadata : Bytes) : Bytes :=
  r.header.encode ++ (metadata ++ (filenameTable r.names ++ (r.entries.flatMap SfmfFileEntry.encode ++
    (r.packEntries.flatMap SfmfPackEntry.encode ++ r.blobs.flatMap SfmfBlobEntry.encode))))

theorem Regions.head_length (r : Regions) (metadata : Bytes) : (r.head metadata).length =
    sfmfFileHeaderSize + metadata.length + (filenameTable r.names).length +
      sfmfFileEntrySize * r.entries.length + sfmfPackEntrySize * r.packEntries.length +
      sfmfBlobEntrySize * r.blobs.length := by
  simp only [Regions.head, List.length_append, SfmfFileHeader.encode_length,
    flatMap_length_const SfmfFileEntry.encode_length, flatMap_length_const SfmfPackEntry.encode_length,
    flatMap_length_const SfmfBlobEntry.encode_length]
  omega

/-- The regions of the manifest for these lists. -/
structure RegionsOf (opts : PackOptions) (files : List FileEntry) (packs : List PackEntry)
    (included : List FileEntry) (r : Regions) : Prop where
  header : r.header = manifestHeader opts files r.names packs included
  names : files.mapM (fun f => getFileBasename opts.inDir f.filename) = .ok r.names
  entries : manifestEntries opts.inDir 0 files = .ok r.entries
  packEntries : r.packEntries = (manifestPacks (manifestOffset r.header) packs).1
  blobs : r.blobs = blobEntries (manifestPacks (manifestOffset r.header) packs).2 included

variable {files : List FileEntry} {packs : List PackEntry} {included : List FileEntry} {r : Regions}

theorem RegionsOf.names_length (h : RegionsOf opts files packs included r) : r.names.length = files.length :=
  (mapM_ok.1 h.names).length_eq.symm

theorem RegionsOf.entries_length (h : RegionsOf opts files packs included r) : r.entries.length = files.length :=
  (manifestEntries_get (n := 0) h.names h.entries).1

theorem RegionsOf.packEntries_length (h : RegionsOf opts files packs included r) :
    r.packEntries.length = packs.length := by
  rw [h.packEntries, ← UInt32.ofNat_toNat (x := manifestOffset r.header)]
  exact (manifestPacks_eq packs _).2.1

theorem RegionsOf.blobs_length (h : RegionsOf opts files packs included r) : r.blobs.length = included.length := by
  rw [h.blobs, blobEntries_length]

/-- **The first offset** is where the regions of fixed size end. -/
theorem RegionsOf.manifestOffset (h : RegionsOf opts files packs included r) :
    manifestOffset r.header = UInt32.ofNat (r.head opts.metadataBytes).length := by
  rw [Regions.head_length, h.entries_length, h.packEntries_length, h.blobs_length, h.header]
  simp only [UInt32.ofNat_add, UInt32.ofNat_mul, ← filenameTableSize_eq]
  simp only [Sfmf.manifestOffset, manifestHeader, UInt32.mul_comm]

/-- **The content of a manifest.** -/
theorem writeManifest_ok (hE : E.NoReflink) {bytes : Bytes}
    (h : writeManifest E D opts files packs included = .ok bytes) :
    opts.metadataBytes ≠ [] ∧ ∃ r ps, RegionsOf opts files packs included r ∧
      List.Forall₂ (fun f p => outOf E (manifestPayloadOp D f) = .ok p) included ps ∧
      bytes = r.head opts.metadataBytes ++ (packs.map packHashBytes).flatten ++ ps.flatten := by
  simp only [writeManifest, manifestOps, bind_ok, fwriteOne_ok, pure_eq_ok, Except.ok.injEq] at h
  obtain ⟨ops, ⟨names, hnames, _, ⟨hmeta, rfl⟩, entries, hentries, payload, hpayload, rfl⟩, hw⟩ := h
  set header := manifestHeader opts files names packs included with hheader
  obtain ⟨outs, houts, rfl⟩ := (writeFile_ok E hE).1 hw
  obtain ⟨a₁, ps, h₁, hps, e₁⟩ := mapM_append_ok.1 houts
  obtain ⟨a₂, b₁, h₂, hb₁, e₂⟩ := mapM_append_ok.1 h₁
  obtain ⟨a₃, b₂, h₃, hb₂, e₃⟩ := mapM_append_ok.1 h₂
  obtain ⟨a₄, b₃, h₄, hb₃, e₄⟩ := mapM_append_ok.1 h₃
  obtain ⟨a₅, b₄, h₅, hb₄, e₅⟩ := mapM_append_ok.1 h₄
  obtain ⟨b₆, b₅, hb₆, hb₅, e₆⟩ := mapM_append_ok.1 h₅
  refine ⟨hmeta, ⟨header, names, entries, (manifestPacks (Sfmf.manifestOffset header) packs).1,
    blobEntries (manifestPacks (Sfmf.manifestOffset header) packs).2 included⟩, ps,
    ⟨hheader, hnames, hentries, rfl, rfl⟩, mapM_outs E hpayload hps, ?_⟩
  rw [mapM_fwrite E SfmfFileHash.encode] at hb₁
  rw [mapM_fwrite E SfmfBlobEntry.encode] at hb₂
  rw [mapM_fwrite E SfmfPackEntry.encode] at hb₃
  rw [mapM_fwrite E SfmfFileEntry.encode] at hb₄
  rw [mapM_fwrite E fun name => name ++ [0]] at hb₅
  have hb₆' := hb₆.symm.trans (mapM_fwrite E id [header.encode, opts.metadataBytes])
  rw [Except.ok.injEq] at hb₁ hb₂ hb₃ hb₄ hb₅ hb₆'
  have hhashes : (List.map SfmfFileHash.encode
      (packs.flatMap fun source => source.files.map fun file => file.hash)).flatten =
      (packs.map packHashBytes).flatten := by
    rw [← List.flatMap_def, ← List.flatMap_def, List.flatMap_assoc]
    rfl
  rw [e₁, e₂, e₃, e₄, e₅, e₆, hb₆', ← hb₁, ← hb₂, ← hb₃, ← hb₄, ← hb₅]
  simp only [List.flatten_append, hhashes]
  simp [Regions.head, filenameTable, List.flatMap_def]
  rfl

/-! ## Reading it -/

/-- The lengths in the header are those of the regions. -/
structure Regions.Sized (r : Regions) (metadata : Bytes) : Prop where
  metadataSize : r.header.metadataSize.toNat = metadata.length
  filenameTableSize : r.header.filenameTableSize.toNat = (filenameTable r.names).length
  entriesLength : r.header.entriesLength.toNat = r.entries.length
  packsLength : r.header.packsLength.toNat = r.packEntries.length
  blobsLength : r.header.blobsLength.toNat = r.blobs.length

theorem RegionsOf.sized (h : RegionsOf opts files packs included r)
    (hlen : (r.head opts.metadataBytes).length < 2 ^ 32) : r.Sized opts.metadataBytes := by
  have hhead := r.head_length opts.metadataBytes
  have hel := h.entries_length
  have hpl := h.packEntries_length
  have hbl := h.blobs_length
  simp only [sfmfFileHeaderSize, sfmfFileEntrySize, sfmfPackEntrySize, sfmfBlobEntrySize] at hhead
  constructor
  case metadataSize => rw [h.header]; exact ofNat_toNat_of_lt (by omega)
  case filenameTableSize => rw [h.header, manifestHeader, filenameTableSize_eq]; exact ofNat_toNat_of_lt (by omega)
  case entriesLength => rw [h.header, hel]; exact ofNat_toNat_of_lt (by omega)
  case packsLength => rw [h.header, hpl]; exact ofNat_toNat_of_lt (by omega)
  case blobsLength => rw [h.header, hbl]; exact ofNat_toNat_of_lt (by omega)

/-- Where the table of names of a manifest with this header ends. -/
def SfmfFileHeader.endNames (h : SfmfFileHeader) : ℕ :=
  sfmfFileHeaderSize + h.metadataSize.toNat + h.filenameTableSize.toNat

/-- Where its file entries end. -/
def SfmfFileHeader.endEntries (h : SfmfFileHeader) : ℕ := h.endNames + sfmfFileEntrySize * h.entriesLength.toNat

/-- Where its pack entries end. -/
def SfmfFileHeader.endPacks (h : SfmfFileHeader) : ℕ := h.endEntries + sfmfPackEntrySize * h.packsLength.toNat

/-- Where its blob entries end. -/
def SfmfFileHeader.endBlobs (h : SfmfFileHeader) : ℕ := h.endPacks + sfmfBlobEntrySize * h.blobsLength.toNat

theorem Regions.Sized.endBlobs {metadata : Bytes} (h : r.Sized metadata) :
    r.header.endBlobs = (r.head metadata).length := by
  rw [Regions.head_length, SfmfFileHeader.endBlobs, SfmfFileHeader.endPacks, SfmfFileHeader.endEntries,
    SfmfFileHeader.endNames, h.metadataSize, h.filenameTableSize, h.entriesLength, h.packsLength, h.blobsLength]

/-- What is read of the front part, of `k` bytes, of a manifest with these regions. -/
def Regions.cut (r : Regions) (metadata : Bytes) (k : ℕ) (packHashes : List (List SfmfFileHash)) : Manifest where
  header := r.header
  metadata := metadata
  filenameTable := Sfmf.filenameTable r.names
  fentries := cutTable r.entries .zero ((k - r.header.endNames) / sfmfFileEntrySize)
  pentries := cutTable r.packEntries .zero ((k - r.header.endEntries) / sfmfPackEntrySize)
  bentries := cutTable r.blobs .zero ((k - r.header.endPacks) / sfmfBlobEntrySize)
  packHashes := packHashes

/-- A read that is checked, of the part `m` of a file that is cut at `k`. -/
theorem freadOne_take {d p m s : Bytes} {k pos n : ℕ} (hd : d = p ++ m ++ s) (hm : m ≠ []) (hp : pos = p.length)
    (hn : n = m.length) (hk : k ≤ d.length) (hpos : pos ≤ k) :
    freadOne (d.take k) pos n = if pos + n ≤ k then .ok (m, pos + n) else .error (.assertion "res == 1") := by
  have hread := fread_take hd hm hp hn hk
  rw [min_eq_right hpos] at hread
  unfold freadOne
  rw [hread]
  split_ifs <;> rfl

/-- **A manifest that is cut short** is read if it is cut behind the names; the hashes of the packs in
it have to be read, too. -/
theorem RegionsOf.readManifest_take {bytes : Bytes} {tail : Bytes} (h : RegionsOf opts files packs included r)
    (hmeta : opts.metadataBytes ≠ []) (hfiles : files ≠ []) (hbytes : bytes = r.head opts.metadataBytes ++ tail)
    (hsized : r.Sized opts.metadataBytes) {k : ℕ} (hk : k ≤ bytes.length) :
    readManifest (bytes.take k) =
      if r.header.endNames ≤ k then r.cut opts.metadataBytes k <$>
        (cutTable r.packEntries .zero ((k - r.header.endEntries) / sfmfPackEntrySize)).mapM fun entry =>
          readPackHashes (bytes.take k) entry.offset.toNat entry.count.toNat
      else .error (.assertion "res == 1") := by
  have htable : filenameTable r.names ≠ [] := by
    obtain ⟨f, fs, rfl⟩ := List.exists_cons_of_ne_nil hfiles
    have hl := h.names_length
    obtain ⟨name, names, hn⟩ := List.exists_cons_of_length_pos (show 0 < r.names.length by rw [hl]; simp)
    simp [hn, filenameTable, nameBytes]
  have hheader : r.header.encode ≠ [] := by
    intro he; have := congrArg List.length he; simp [sfmfFileHeaderSize] at this
  -- the reads one after another, each with what stands before it
  set p₁ := r.header.encode with hp₁
  set p₂ := p₁ ++ opts.metadataBytes with hp₂
  set p₃ := p₂ ++ filenameTable r.names with hp₃
  set p₄ := p₃ ++ r.entries.flatMap SfmfFileEntry.encode with hp₄
  set p₅ := p₄ ++ r.packEntries.flatMap SfmfPackEntry.encode with hp₅
  have hb : bytes = p₅ ++ r.blobs.flatMap SfmfBlobEntry.encode ++ tail := by
    rw [hbytes]; simp [Regions.head, hp₁, hp₂, hp₃, hp₄, hp₅]
  have l₁ : sfmfFileHeaderSize = p₁.length := (SfmfFileHeader.encode_length _).symm
  have l₂ : sfmfFileHeaderSize + r.header.metadataSize.toNat = p₂.length := by
    rw [hp₂, List.length_append, ← l₁, hsized.metadataSize]
  have l₃ : r.header.endNames = p₃.length := by
    rw [hp₃, List.length_append, ← l₂, SfmfFileHeader.endNames, hsized.filenameTableSize]
  have l₄ : r.header.endEntries = p₄.length := by
    rw [hp₄, List.length_append, flatMap_length_const SfmfFileEntry.encode_length, ← l₃, SfmfFileHeader.endEntries,
      hsized.entriesLength]
  have l₅ : r.header.endPacks = p₅.length := by
    rw [hp₅, List.length_append, flatMap_length_const SfmfPackEntry.encode_length, ← l₄, SfmfFileHeader.endPacks,
      hsized.packsLength]
  have r₁ : freadOne (bytes.take k) 0 sfmfFileHeaderSize =
      if 0 + sfmfFileHeaderSize ≤ k then .ok (p₁, 0 + sfmfFileHeaderSize) else .error (.assertion "res == 1") :=
    freadOne_take (p := []) (s := opts.metadataBytes ++ (filenameTable r.names ++
      (r.entries.flatMap SfmfFileEntry.encode ++ (r.packEntries.flatMap SfmfPackEntry.encode ++
        (r.blobs.flatMap SfmfBlobEntry.encode ++ tail)))))
      (by simp [hb, hp₂, hp₃, hp₄, hp₅]) hheader rfl l₁ hk (Nat.zero_le k)
  have r₂ := freadOne_take (s := filenameTable r.names ++ (r.entries.flatMap SfmfFileEntry.encode ++
    (r.packEntries.flatMap SfmfPackEntry.encode ++ (r.blobs.flatMap SfmfBlobEntry.encode ++ tail))))
    (by simp [hb, hp₂, hp₃, hp₄, hp₅]) hmeta l₁ hsized.metadataSize hk
  have r₃ := freadOne_take (s := r.entries.flatMap SfmfFileEntry.encode ++ (r.packEntries.flatMap SfmfPackEntry.encode ++
    (r.blobs.flatMap SfmfBlobEntry.encode ++ tail)))
    (by simp [hb, hp₃, hp₄, hp₅]) htable l₂ hsized.filenameTableSize hk
  have r₄ : readTable (bytes.take k) sfmfFileEntrySize SfmfFileEntry.decode .zero r.header.entriesLength.toNat
      (min k r.header.endNames) =
      (cutTable r.entries .zero ((k - r.header.endNames) / sfmfFileEntrySize), min k r.header.endEntries) :=
    readTable_take (by decide) SfmfFileEntry.encode_length SfmfFileEntry.decode_encode hk r.entries p₃
      (r.packEntries.flatMap SfmfPackEntry.encode ++ (r.blobs.flatMap SfmfBlobEntry.encode ++ tail))
      (by simp [hb, hp₄, hp₅]) l₃ hsized.entriesLength
  have r₅ : readTable (bytes.take k) sfmfPackEntrySize SfmfPackEntry.decode .zero r.header.packsLength.toNat
      (min k r.header.endEntries) =
      (cutTable r.packEntries .zero ((k - r.header.endEntries) / sfmfPackEntrySize), min k r.header.endPacks) :=
    readTable_take (by decide) SfmfPackEntry.encode_length SfmfPackEntry.decode_encode hk r.packEntries p₄
      (r.blobs.flatMap SfmfBlobEntry.encode ++ tail) (by simp [hb, hp₅]) l₄ hsized.packsLength
  have r₆ : readTable (bytes.take k) sfmfBlobEntrySize SfmfBlobEntry.decode .zero r.header.blobsLength.toNat
      (min k r.header.endPacks) = (cutTable r.blobs .zero ((k - r.header.endPacks) / sfmfBlobEntrySize),
        min k (r.header.endPacks + sfmfBlobEntrySize * r.header.blobsLength.toNat)) :=
    readTable_take (by decide) SfmfBlobEntry.encode_length SfmfBlobEntry.decode_encode hk r.blobs p₅ tail hb l₅
      hsized.blobsLength
  have hmagic : r.header.magic = sfmfMagicNumber := by rw [h.header]; rfl
  have hversion : r.header.version = sfmfCurrentVersion := by rw [h.header]; rfl
  unfold readManifest readHeader
  rw [r₁, Nat.zero_add]
  by_cases h₁ : sfmfFileHeaderSize ≤ k
  case neg =>
    have hk' : ¬ r.header.endNames ≤ k := by unfold SfmfFileHeader.endNames; omega
    rw [if_neg h₁, if_neg hk']
    rfl
  rw [if_pos h₁]
  simp only [ok_bind, hp₁, SfmfFileHeader.decode_encode, hmagic, hversion, cAssert, if_true, pure_eq_ok]
  unfold readTables
  rw [r₂ h₁]
  by_cases h₂ : sfmfFileHeaderSize + r.header.metadataSize.toNat ≤ k
  case neg =>
    have hk' : ¬ r.header.endNames ≤ k := by unfold SfmfFileHeader.endNames; omega
    rw [if_neg h₂, if_neg hk']
    rfl
  rw [if_pos h₂]
  simp only [ok_bind]
  rw [r₃ h₂]
  change _ = if r.header.endNames ≤ k then _ else _
  by_cases h₃ : r.header.endNames ≤ k
  case neg =>
    have hk' : ¬ sfmfFileHeaderSize + r.header.metadataSize.toNat + r.header.filenameTableSize.toNat ≤ k := h₃
    rw [if_neg hk', if_neg h₃]
    rfl
  have hk' : sfmfFileHeaderSize + r.header.metadataSize.toNat + r.header.filenameTableSize.toNat ≤ k := h₃
  rw [if_pos hk', if_pos h₃]
  rw [min_eq_right h₃, SfmfFileHeader.endNames] at r₄
  simp only [ok_bind, r₄, r₅, r₆, pure_eq_ok]
  cases (cutTable r.packEntries .zero ((k - r.header.endEntries) / sfmfPackEntrySize)).mapM fun entry =>
    readPackHashes (bytes.take k) entry.offset.toNat entry.count.toNat <;> rfl

/-- In a manifest below 4 GiB, the head and the hashes of the packs are below 4 GiB. -/
theorem regions_total_lt {bytes rest : Bytes} {r : Regions} {metadata : Bytes} {packs : List PackEntry}
    (hbytes : bytes = r.head metadata ++ (packs.map packHashBytes).flatten ++ rest) (hlen : bytes.length < 2 ^ 32) :
    (r.head metadata).length + ((packs.map packHashBytes).map List.length).sum < 2 ^ 32 := by
  rw [hbytes, List.length_append, List.length_append, List.length_flatten] at hlen
  omega

/-- **The tables are read back.** -/
theorem readManifest_regions {bytes rest : Bytes} (h : RegionsOf opts files packs included r)
    (hmeta : opts.metadataBytes ≠ []) (hfiles : files ≠ [])
    (hbytes : bytes = r.head opts.metadataBytes ++ (packs.map packHashBytes).flatten ++ rest)
    (hlen : bytes.length < 2 ^ 32) :
    readManifest bytes = .ok ⟨r.header, opts.metadataBytes, filenameTable r.names, r.entries, r.packEntries,
      r.blobs, packs.map fun p => p.files.map (·.hash)⟩ := by
  have hhead := r.head_length opts.metadataBytes
  have htotal := regions_total_lt hbytes hlen
  have hsized := h.sized (by omega)
  have hend := hsized.endBlobs
  simp only [SfmfFileHeader.endBlobs, SfmfFileHeader.endPacks, SfmfFileHeader.endEntries, hsized.entriesLength,
    hsized.packsLength, hsized.blobsLength] at hend
  have hle : (r.head opts.metadataBytes).length ≤ bytes.length := by
    rw [hbytes, List.length_append, List.length_append]; omega
  -- nothing is cut off
  have hfull : ∀ {size pos n : ℕ}, 0 < size → pos + size * n ≤ bytes.length → n ≤ (bytes.length - pos) / size := by
    intro size pos n hsize hle
    rw [Nat.le_div_iff_mul_le hsize, Nat.mul_comm]
    omega
  have hread := h.readManifest_take hmeta hfiles (hbytes.trans (List.append_assoc _ _ _)) hsized (le_refl bytes.length)
  have he := cutTable_full (hfull (by decide) (show r.header.endNames + sfmfFileEntrySize * r.entries.length ≤ _ by omega))
    SfmfFileEntry.zero
  have hp := cutTable_full (hfull (by decide)
    (show r.header.endEntries + sfmfPackEntrySize * r.packEntries.length ≤ _ by
      rw [SfmfFileHeader.endEntries, hsized.entriesLength]; omega)) SfmfPackEntry.zero
  have hb := cutTable_full (hfull (by decide)
    (show r.header.endPacks + sfmfBlobEntrySize * r.blobs.length ≤ _ by
      rw [SfmfFileHeader.endPacks, SfmfFileHeader.endEntries, hsized.entriesLength, hsized.packsLength]; omega))
    SfmfBlobEntry.zero
  have hcut : r.cut opts.metadataBytes bytes.length = Manifest.mk r.header opts.metadataBytes (filenameTable r.names)
      r.entries r.packEntries r.blobs := by
    funext hashes
    rw [Regions.cut, he, hp, hb]
  rw [List.take_length, if_pos (by omega), hcut, hp] at hread
  have r₇ : (r.packEntries.mapM fun entry => readPackHashes bytes entry.offset.toNat entry.count.toNat) =
      .ok (packs.map fun p => p.files.map (·.hash)) := by
    rw [mapM_ok, List.forall₂_iff_get]
    refine ⟨by rw [h.packEntries_length, List.length_map], ?_⟩
    intro i hi hi'
    rw [List.length_map] at hi'
    have hget := (manifestPacks_eq packs (r.head opts.metadataBytes).length).2.2 i packs[i]
      (List.getElem?_eq_getElem hi')
    rw [← h.manifestOffset, ← h.packEntries, List.getElem?_eq_getElem hi, Option.some.injEq] at hget
    have hpart : (packs.map packHashBytes)[i]? = some (packHashBytes packs[i]) := by simp [hi']
    obtain ⟨a, b, hab, ha⟩ := flatten_split hpart
    have hle : offset ((packs.map packHashBytes).map List.length) i + (packHashBytes packs[i]).length ≤ _ :=
      offset_add_le (by simp [hi'])
    have hmm : (packs.map packHashBytes).map List.length = packs.map fun p => (packHashBytes p).length := by
      simp [Function.comp_def]
    rw [hmm] at ha hle htotal
    have hcount := packHashBytes_length packs[i]
    simp only [sfmfFileHashSize] at hcount
    simp only [List.get_eq_getElem, hget, List.getElem_map]
    refine readPackHashes_at (packs[i].files.map (·.hash)) (r.head opts.metadataBytes ++ a) (b ++ rest) ?_ ?_ ?_
    · rw [hbytes, hab, packHashBytes]; simp
    · rw [List.length_append, ha]; exact ofNat_toNat_of_lt (by omega)
    · rw [List.length_map]; exact ofNat_toNat_of_lt (by omega)
  rw [hread, r₇]
  rfl

/-! ## What is got back -/

/-- Whether `write_manifest` makes an entry a reference to another one. -/
def isHardlink (f : FileEntry) : Prop := f.duplicate ∧ f.hardlinkIndex ≠ -1

instance (f : FileEntry) : Decidable (isHardlink f) := by unfold isHardlink; infer_instance

/-- What the reader must get for the entry of a file. -/
structure EntryReadsBack (opts : PackOptions) (m : Manifest) (f : FileEntry) (e : SfmfFileEntry) : Prop where
  type : manifestEntryType f = .ok e.type
  mode : e.mode = f.st.stMode
  uid : e.uid = f.st.stUid
  gid : e.gid = f.st.stGid
  mtime : e.mtime = f.st.stMtime
  hardlinkIndex : isHardlink f → 0 ≤ f.hardlinkIndex → f.hardlinkIndex < 2 ^ 32 →
    (e.dev.toNat : ℤ) = f.hardlinkIndex
  dev : ¬ isHardlink f → f.st.stRdev.toNat < 2 ^ 32 → e.dev.toNat = f.st.stRdev.toNat
  zsize : e.zsize = f.zsize
  hash : e.hash = f.hash
  filename : ∃ name, getFileBasename opts.inDir f.filename = .ok name ∧ m.filenameAt e.filenameOffset = .ok name

/-- **What the reader must get from a manifest** with these bytes: the counts, the metadata, every entry
with its name, every pack with its hashes, and every blob with its payload; the payloads stand one
behind the other, up to the end of the file. -/
structure ReadsBack (E : Env) (D : Disk) (opts : PackOptions) (files : List FileEntry) (packs : List PackEntry)
    (included : List FileEntry) (bytes : Bytes) (m : Manifest) : Prop where
  entriesLength : m.header.entriesLength.toNat = files.length
  packsLength : m.header.packsLength.toNat = packs.length
  blobsLength : m.header.blobsLength.toNat = included.length
  metadata : m.metadata = opts.metadataBytes
  fentries_length : m.fentries.length = files.length
  fentries : ∀ (i : ℕ) (f : FileEntry), files[i]? = some f → ∃ e, m.fentries[i]? = some e ∧ EntryReadsBack opts m f e
  pentries_length : m.pentries.length = packs.length
  pentries : ∀ (i : ℕ) (p : PackEntry), packs[i]? = some p → ∃ e, m.pentries[i]? = some e ∧ e.hash = p.packfileHash ∧
    e.count.toNat = p.files.length ∧ m.packHashes[i]? = some (p.files.map (·.hash))
  bentries_length : m.bentries.length = included.length
  bentries : ∀ (i : ℕ) (f : FileEntry), included[i]? = some f → ∃ e p, m.bentries[i]? = some e ∧ e.hash = f.hash ∧
    e.flags = (if zcompress f then blobFlagZcompressed else 0) ∧ outOf E (manifestPayloadOp D f) = .ok p ∧
    e.size.toNat = p.length ∧ slice bytes e.offset.toNat e.size.toNat = p
  contiguous : ∀ (i : ℕ) (e : SfmfBlobEntry), m.bentries[i]? = some e →
    e.offset.toNat + e.size.toNat = ((m.bentries[i + 1]?).map fun e => e.offset.toNat).getD bytes.length
  disjoint : ∀ (i j : ℕ) (e e' : SfmfBlobEntry), i < j → m.bentries[i]? = some e → m.bentries[j]? = some e' →
    e.offset.toNat + e.size.toNat ≤ e'.offset.toNat

theorem manifestEntry_readsBack {n : ℕ} {f : FileEntry} {e : SfmfFileEntry} {m : Manifest}
    (he : manifestEntry (UInt32.ofNat n) f = .ok e)
    (hname : ∃ name, getFileBasename opts.inDir f.filename = .ok name ∧ m.filenameAt (UInt32.ofNat n) = .ok name) :
    EntryReadsBack opts m f e := by
  simp only [manifestEntry, bind_ok, pure_eq_ok, Except.ok.injEq] at he
  obtain ⟨type, htype, rfl⟩ := he
  refine ⟨htype, rfl, rfl, rfl, rfl, ?_, ?_, rfl, rfl, hname⟩
  · intro hl h0 hlt
    obtain ⟨k, hk⟩ := Int.eq_ofNat_of_zero_le h0
    rw [hk] at hlt
    have hof : UInt32.ofInt (k : ℤ) = UInt32.ofNat k := by
      have hmod : ((k : ℤ) % 2 ^ 32).toNat = k := by omega
      rw [UInt32.ofInt, hmod]
    have hcond : f.duplicate = true ∧ f.hardlinkIndex ≠ -1 := hl
    simp only [if_pos hcond]
    rw [hk, hof, ofNat_toNat_of_lt (by omega)]
  · intro hl hdev
    have hcond : ¬ (f.duplicate = true ∧ f.hardlinkIndex ≠ -1) := hl
    simp only [if_neg hcond, UInt64.toNat_toUInt32]
    exact Nat.mod_eq_of_lt hdev

/-- The entry of a file reads back in every manifest with the names. -/
theorem RegionsOf.entry (h : RegionsOf opts files packs included r) (hlen : (filenameTable r.names).length < 2 ^ 32)
    {m : Manifest} (hm : m.filenameTable = filenameTable r.names) {i : ℕ} {f : FileEntry} (hf : files[i]? = some f) :
    ∃ e, r.entries[i]? = some e ∧ EntryReadsBack opts m f e := by
  obtain ⟨e, he, hme⟩ := (manifestEntries_get (n := 0) h.names h.entries).2 i f hf
  rw [Nat.zero_add] at hme
  refine ⟨e, he, manifestEntry_readsBack hme ?_⟩
  obtain ⟨hi, rfl⟩ := List.getElem?_eq_some_iff.1 hf
  have hi' : i < r.names.length := h.names_length ▸ hi
  have hname := (mapM_ok.1 h.names).get hi hi'
  exact ⟨r.names[i], hname, filenameAt_table hm hlen (List.getElem?_eq_getElem hi') (getFileBasename_nul hname)⟩

/-- **What the reader gets from the tables** of a manifest, whatever the sizes of the payloads behind them. -/
structure TablesBack (opts : PackOptions) (files : List FileEntry) (packs : List PackEntry) (m : Manifest) : Prop where
  fentries_length : m.fentries.length = files.length
  fentries : ∀ (i : ℕ) (f : FileEntry), files[i]? = some f → ∃ e, m.fentries[i]? = some e ∧ EntryReadsBack opts m f e
  pentries_length : m.pentries.length = packs.length
  pentries : ∀ (i : ℕ) (p : PackEntry), packs[i]? = some p → ∃ e, m.pentries[i]? = some e ∧ e.hash = p.packfileHash ∧
    e.count.toNat = p.files.length ∧ m.packHashes[i]? = some (p.files.map (·.hash))

/-- An entry of a table that has one for each item. -/
theorem exists_getElem?_of_mem {α β : Type} {r : α → β → Prop} {l : List α} {l' : List β}
    (hlen : l'.length = l.length) (h : ∀ (i : ℕ) (a : α), l[i]? = some a → ∃ b, l'[i]? = some b ∧ r a b) {b : β}
    (hb : b ∈ l') : ∃ (i : ℕ) (a : α), l[i]? = some a ∧ l'[i]? = some b ∧ r a b := by
  obtain ⟨i, hi, rfl⟩ := List.getElem_of_mem hb
  have hi' : i < l.length := hlen ▸ hi
  obtain ⟨b, hb, hr⟩ := h i l[i] (List.getElem?_eq_getElem hi')
  rw [List.getElem?_eq_getElem hi, Option.some.injEq] at hb
  exact ⟨i, l[i], List.getElem?_eq_getElem hi', List.getElem?_eq_getElem hi, hb ▸ hr⟩

namespace TablesBack

variable {m : Manifest} (T : TablesBack opts files packs m)

include T

/-- Every file entry is that of a file. -/
theorem file_of_mem {e : SfmfFileEntry} (he : e ∈ m.fentries) : ∃ f ∈ files, EntryReadsBack opts m f e := by
  obtain ⟨_, f, hf, -, hback⟩ := exists_getElem?_of_mem T.fentries_length T.fentries he
  exact ⟨f, List.mem_of_getElem? hf, hback⟩

/-- Every pack entry is that of a pack. -/
theorem pack_of_mem {e : SfmfPackEntry} (he : e ∈ m.pentries) : ∃ p ∈ packs, e.hash = p.packfileHash := by
  obtain ⟨_, p, hp, -, hhash⟩ := exists_getElem?_of_mem (r := fun p e => e.hash = p.packfileHash) T.pentries_length
    (fun i p hp => by
      obtain ⟨e, he, hhash, -⟩ := T.pentries i p hp
      exact ⟨e, he, hhash⟩) he
  exact ⟨p, List.mem_of_getElem? hp, hhash⟩

end TablesBack

/-- The tables are read back. -/
theorem RegionsOf.tablesBack {bytes rest : Bytes} (h : RegionsOf opts files packs included r)
    (hmeta : opts.metadataBytes ≠ []) (hfiles : files ≠ [])
    (hbytes : bytes = r.head opts.metadataBytes ++ (packs.map packHashBytes).flatten ++ rest)
    (hlen : bytes.length < 2 ^ 32) : ∃ m, readManifest bytes = .ok m ∧ TablesBack opts files packs m := by
  refine ⟨_, readManifest_regions h hmeta hfiles hbytes hlen, ?_⟩
  have htotal := regions_total_lt hbytes hlen
  have hhead := r.head_length opts.metadataBytes
  constructor
  case fentries_length => exact h.entries_length
  case fentries => exact fun i f hf => h.entry (by omega) rfl hf
  case pentries_length => exact h.packEntries_length
  case pentries =>
    intro i p hp
    have hget := (manifestPacks_eq packs (r.head opts.metadataBytes).length).2.2 i p hp
    rw [← h.manifestOffset, ← h.packEntries] at hget
    refine ⟨_, hget, rfl, ofNat_toNat_of_lt ?_, by simp [hp]⟩
    have hle : offset ((packs.map packHashBytes).map List.length) i + (packHashBytes p).length ≤ _ :=
      offset_add_le (by simp [hp])
    rw [packHashBytes_length, sfmfFileHashSize] at hle
    omega

/-- **The regions of a manifest are read back**, if the payloads have their recorded sizes. -/
theorem RegionsOf.readsBack {bytes : Bytes} {ps : List Bytes} (h : RegionsOf opts files packs included r)
    (hmeta : opts.metadataBytes ≠ []) (hfiles : files ≠ [])
    (hps : List.Forall₂ (fun f p => outOf E (manifestPayloadOp D f) = .ok p) included ps)
    (hrecorded : Recorded included ps)
    (hbytes : bytes = r.head opts.metadataBytes ++ (packs.map packHashBytes).flatten ++ ps.flatten)
    (hlen : bytes.length < 2 ^ 32) :
    ∃ m, readManifest bytes = .ok m ∧ ReadsBack E D opts files packs included bytes m := by
  have hread := readManifest_regions h hmeta hfiles hbytes hlen
  obtain ⟨m, hm, tables⟩ := h.tablesBack hmeta hfiles hbytes hlen
  obtain rfl := Except.ok.inj (hread.symm.trans hm)
  refine ⟨_, hread, ?_⟩
  set hashes := (packs.map packHashBytes).flatten with hhashes
  have hhead := r.head_length opts.metadataBytes
  simp only [sfmfFileHeaderSize, sfmfFileEntrySize, sfmfPackEntrySize, sfmfBlobEntrySize] at hhead
  have htotal : bytes.length = (r.head opts.metadataBytes).length + hashes.length + (included.map minSize).sum := by
    rw [hbytes, List.length_append, List.length_append, hrecorded.flatten_length]
  have hel := h.entries_length
  have hpl := h.packEntries_length
  have hbl := h.blobs_length
  set start := (r.head opts.metadataBytes ++ hashes).length with hstart
  have hstart' : start = (r.head opts.metadataBytes).length + hashes.length := by rw [hstart, List.length_append]
  -- blob entries have their natural-number offsets
  have hblobs : ∀ i, r.blobs[i]? =
      included[i]?.map fun e => blobEntry (UInt32.ofNat (start + offset (included.map minSize) i)) e := by
    intro i
    have hhl : hashes.length = (packs.map fun p => (packHashBytes p).length).sum := by
      rw [hhashes, List.length_flatten, List.map_map]; rfl
    rw [h.blobs, h.manifestOffset, (manifestPacks_eq packs _).1, blobEntries_get, hstart', hhl]
  have hoffset : ∀ i, (UInt32.ofNat (start + offset (included.map minSize) i)).toNat =
      start + offset (included.map minSize) i := by
    intro i
    have := offset_le_sum (included.map minSize) i
    exact ofNat_toNat_of_lt (by omega)
  have hsize : ∀ o e, (blobEntry o e).size.toNat = minSize e := fun _ _ => rfl
  constructor
  case entriesLength => rw [h.header]; exact ofNat_toNat_of_lt (by omega)
  case packsLength => rw [h.header]; exact ofNat_toNat_of_lt (by omega)
  case blobsLength => rw [h.header]; exact ofNat_toNat_of_lt (by omega)
  case metadata => rfl
  case fentries_length => exact hel
  case fentries => exact tables.fentries
  case pentries_length => exact hpl
  case pentries => exact tables.pentries
  case bentries_length => exact hbl
  case bentries =>
    intro i f hf
    obtain ⟨p, hp, hpl⟩ := hrecorded.payload hf
    obtain ⟨hi, rfl⟩ := List.getElem?_eq_some_iff.1 hf
    obtain ⟨hi', rfl⟩ := List.getElem?_eq_some_iff.1 hp
    have hget := hblobs i
    rw [hf, Option.map_some] at hget
    refine ⟨_, ps[i], hget, rfl, rfl, hps.get hi hi', hpl.symm, ?_⟩
    rw [hsize, ← hpl]
    simp only [blobEntry, hoffset]
    rw [hbytes, hstart]
    exact hrecorded.slice hp
  case contiguous =>
    intro i e he
    simp only [hblobs, Option.map_eq_some_iff] at he
    obtain ⟨f, hf, rfl⟩ := he
    have hnext : offset (included.map minSize) (i + 1) = offset (included.map minSize) i + minSize f :=
      offset_succ (by simp [hf])
    rw [hsize]
    simp only [blobEntry, hoffset, hblobs, Option.map_map]
    cases hg : included[i + 1]? with
    | some g => simp only [Option.map_some, Option.getD_some, Function.comp_apply, hoffset]; omega
    | none =>
      have hend : i + 1 = (included.map minSize).length := by
        rw [List.length_map]
        have := (List.getElem?_eq_some_iff.1 hf).1
        have := List.getElem?_eq_none_iff.1 hg
        omega
      rw [hend, offset_length] at hnext
      simp only [Option.map_none, Option.getD_none]
      omega
  case disjoint =>
    intro i j e e' hij he he'
    simp only [hblobs, Option.map_eq_some_iff] at he he'
    obtain ⟨f, hf, rfl⟩ := he
    obtain ⟨g, hg, rfl⟩ := he'
    have hnext : offset (included.map minSize) (i + 1) = offset (included.map minSize) i + minSize f :=
      offset_succ (by simp [hf])
    have hmono : offset (included.map minSize) (i + 1) ≤ offset (included.map minSize) j := offset_mono hij
    rw [hsize]
    simp only [blobEntry, hoffset]
    omega

theorem ReadsBack.tables {bytes : Bytes} {m : Manifest} (h : ReadsBack E D opts files packs included bytes m) :
    TablesBack opts files packs m :=
  ⟨h.fentries_length, h.fentries, h.pentries_length, h.pentries⟩

/-- Every blob entry is that of an included file. -/
theorem ReadsBack.blob_of_mem {bytes : Bytes} {m : Manifest} (h : ReadsBack E D opts files packs included bytes m)
    {b : SfmfBlobEntry} (hb : b ∈ m.bentries) : ∃ (i : ℕ) (g : FileEntry), included[i]? = some g ∧
      m.bentries[i]? = some b ∧ b.hash = g.hash :=
  exists_getElem?_of_mem (r := fun g b => b.hash = g.hash) h.bentries_length
    (fun i g hg => by
      obtain ⟨b, _, hb, hhash, -⟩ := h.bentries i g hg
      exact ⟨b, hb, hhash⟩) hb

/-- **Reading undoes writing over the manifest format.** What `write_manifest` writes for a list of
files, packs and included files, the reads of the unpacker get back. -/
theorem manifest_roundtrip (hE : E.NoReflink) {bytes : Bytes}
    (hw : writeManifest E D opts files packs included = .ok bytes) (hfiles : files ≠ [])
    (hlen : bytes.length < 2 ^ 32)
    (hrec : ∀ f ∈ included, ∀ p, outOf E (manifestPayloadOp D f) = .ok p → p.length = minSize f) :
    ∃ m, readManifest bytes = .ok m ∧ ReadsBack E D opts files packs included bytes m := by
  obtain ⟨hmeta, r, ps, h, hps, hbytes⟩ := writeManifest_ok hE hw
  have hrecorded : Recorded included ps :=
    List.forall₂_iff_get.2 ⟨hps.length_eq, fun i hi hi' => hrec _ (List.getElem_mem hi) _ (hps.get hi hi')⟩
  exact h.readsBack hmeta hfiles hps hrecorded hbytes hlen

/-- The files of a list that have a content of these types. -/
def contentsOf (types : UInt32 → Bool) (files : List FileEntry) : List FileEntry :=
  files.filter fun f => types f.st.stMode ∧ f.st.stSize ≠ 0

theorem manifest_roundtrip_letterTree : ∃ files bytes m,
    getFileList letterTreeEnv letterTree.toDisk letterWalk = .ok files ∧
    writeManifest letterTreeEnv letterTree.toDisk letterTreeOptions files
      [⟨contentsOf (sIsreg ·) files, 0, 0, .zero⟩] (contentsOf (sIslnk ·) files) = .ok bytes ∧
    readManifest bytes = .ok m ∧
    ReadsBack letterTreeEnv letterTree.toDisk letterTreeOptions files
      [⟨contentsOf (sIsreg ·) files, 0, 0, .zero⟩] (contentsOf (sIslnk ·) files) bytes m := by
  have hpasses : (getFileList letterTreeEnv letterTree.toDisk letterWalk).passes (fun files =>
      files ≠ [] ∧ (writeManifest letterTreeEnv letterTree.toDisk
        letterTreeOptions files
        [⟨contentsOf (sIsreg ·) files, 0, 0, .zero⟩] (contentsOf (sIslnk ·) files)).passes (fun bytes =>
          bytes.length < 2 ^ 32) = true ∧
      ∀ f ∈ contentsOf (sIslnk ·) files, (outOf letterTreeEnv (manifestPayloadOp letterTree.toDisk f)).passes (fun p =>
        p.length = minSize f) = true) = true := by decide +kernel
  obtain ⟨files, hlist, hcheck⟩ := Exec.of_passes hpasses
  obtain ⟨hne, hwrite, hpayload⟩ := of_decide_eq_true hcheck
  obtain ⟨bytes, hw, hlen⟩ := Exec.of_passes hwrite
  obtain ⟨m, hm, hback⟩ := manifest_roundtrip letterTreeEnv_noReflink hw hne (of_decide_eq_true hlen)
    (fun f hf p hp => by
      have hsize := hpayload f hf
      rw [hp] at hsize
      exact of_decide_eq_true hsize)
  exact ⟨files, bytes, m, hlist, hw, hm, hback⟩

/-- **A manifest without entries is not read**: `fread` does not return one element of no bytes. -/
theorem manifest_no_entries : ¬ ∀ (E : Env) (D : Disk) (opts : PackOptions) (files : List FileEntry)
    (packs : List PackEntry) (included : List FileEntry) (bytes : Bytes), E.NoReflink →
    opts.inDir.val.getLast? ≠ some slash → writeManifest E D opts files packs included = .ok bytes →
    bytes.length < 2 ^ 32 → (∀ f ∈ included, ∀ p, outOf E (manifestPayloadOp D f) = .ok p → p.length = minSize f) →
    ∃ m, readManifest bytes = .ok m ∧ ReadsBack E D opts files packs included bytes m := by
  intro hall
  have hpasses : (writeManifest letterTreeEnv letterTree.toDisk letterTreeOptions [] [] []).passes (fun bytes =>
      bytes.length < 2 ^ 32 ∧ readManifest bytes = .error (.assertion "res == 1")) = true := by decide +kernel
  obtain ⟨bytes, hw, hcheck⟩ := Exec.of_passes hpasses
  obtain ⟨hlen, hread⟩ := of_decide_eq_true hcheck
  obtain ⟨m, hm, _⟩ := hall _ _ _ [] [] [] bytes letterTreeEnv_noReflink (by decide) hw hlen (by simp)
  rw [hread] at hm
  cases hm

end Sfmf
