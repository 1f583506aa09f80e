import Sfmf.Proof.Mirror

/-!
# Symlinks in a manifest

The reader wants the target of a symlink uncompressed among the included blobs.

* `symlinkStored_iff`: it is there exactly if the first entry with its hash is a
  symlink, or a regular file that is included and not compressed.
* `ReadsBack.symlink_iff`: then it is what the reader finds.
* `searchBlobHash_included`: a blob is taken from the manifest exactly if it is found
  there.
* `symlinks_readable_iff`: so for all symlinks of a list.
* `symlink_packed`: a symlink that cannot be read.
-/

namespace Sfmf

variable {E : Env} {D : SourceTree} {opts : PackOptions} {metaFile : Bytes} {outDir : Dir} {walk : List CString}
  {files : List FileEntry} {cutoff : UInt32} {blobs packs : List (Bytes × Bytes)} {P : Packed} {m : Manifest}
  {U : UnpackOptions}

/-! ## Files that differ in their marks -/

theorem sameFiles_foldl {β : Type} {g : β → FileEntry → β} (hg : ∀ b f f', SameFile f f' → g b f = g b f') :
    ∀ {l l' : List FileEntry} (b : β), List.Forall₂ SameFile l l' → l.foldl g b = l'.foldl g b := by
  intro l l' b h
  induction h generalizing b with
  | nil => rfl
  | cons hf _ ih => rw [List.foldl_cons, List.foldl_cons, hg b _ _ hf, ih]

/-- **The cut-off does not depend on the marks.** -/
theorem getCutoffSizeBytes_same {l l' : List FileEntry} (h : List.Forall₂ SameFile l l') (upper : UInt32) :
    getCutoffSizeBytes l upper = getCutoffSizeBytes l' upper := by
  have hsearch : ∀ (n : ℕ) (center width best : UInt32),
      cutoffSearch l upper n center width best = cutoffSearch l' upper n center width best := by
    intro n
    induction n with
    | zero => intro _ _ _; rfl
    | succ n ih =>
      intro center width best
      have hsum := sameFiles_foldl (g := getCutoffSum center) (fun _ _ _ ⟨_, _, he⟩ => by rw [he]; rfl) 0 h
      simp only [cutoffSearch, hsum, ih]
  have hmin := sameFiles_foldl (g := getCutoffMinSize) (fun _ _ _ ⟨_, _, he⟩ => by rw [he]; rfl)
    (UInt32.ofNat (2 ^ 32 - 1)) h
  have hmax := sameFiles_foldl (g := getCutoffMaxSize) (fun _ _ _ ⟨_, _, he⟩ => by rw [he]; rfl) 0 h
  simp only [getCutoffSizeBytes, hmin, hmax, hsearch]

/-- The first entry whose content has this hash. -/
def firstWith (files : List FileEntry) (hash : SfmfFileHash) : Option FileEntry :=
  files.find? fun g => Stored g ∧ g.hash = hash

theorem firstWith_same {l l' : List FileEntry} (h : List.Forall₂ SameFile l l') (hash : SfmfFileHash) {g' : FileEntry}
    (hg : firstWith l' hash = some g') : ∃ g, firstWith l hash = some g ∧ SameFile g g' := by
  induction h with
  | nil => cases hg
  | @cons f f' l l' hf _ ih =>
    obtain ⟨d, k, rfl⟩ := hf
    unfold firstWith at hg ⊢
    rw [List.find?_cons] at hg ⊢
    cases hq : decide (Stored f ∧ f.hash = hash) with
    | true =>
      have hq' : decide (Stored { f with duplicate := d, hardlinkIndex := k } ∧ f.hash = hash) = true := hq
      rw [hq'] at hg
      exact ⟨f, rfl, d, k, (Option.some.inj hg).symm⟩
    | false =>
      have hq' : decide (Stored { f with duplicate := d, hardlinkIndex := k } ∧ f.hash = hash) = false := hq
      rw [hq'] at hg
      exact ih hg

/-! ## One symlink -/

/-- **What the reader needs of a symlink**: the first included blob with its hash is not compressed, and
its payload is the target. -/
def SymlinkStored (E : Env) (D : Disk) (P : Packed) (f : FileEntry) : Prop :=
  ∃ (i : ℕ) (g : FileEntry) (t : Bytes), D.readlink f.filename = some t ∧ P.buckets.includedFiles[i]? = some g ∧
    g.hash = f.hash ∧ (∀ (j : ℕ) (g' : FileEntry), j < i → P.buckets.includedFiles[j]? = some g' → g'.hash ≠ f.hash) ∧
    (∀ offset, isZcompressed (blobEntry offset g).flags = false) ∧ outOf E (manifestPayloadOp D g) = .ok t

/-- **When it is there**: the first entry with the hash of the symlink has the target as its content, and
if it is a regular file it is small enough to be included, and not compressed. -/
def SymlinkReadable (D : Disk) (cutoff : UInt32) (files : List FileEntry) (f : FileEntry) : Prop :=
  ∃ g, firstWith files f.hash = some g ∧ contentOf D g = D.readlink f.filename ∧
    (sIsreg g.st.stMode → (fileentryGetMinSize g).toUInt32 < cutoff ∧ zcompress g = false)

theorem blobEntry_flags {g : FileEntry} {offset : UInt32} :
    isZcompressed (blobEntry offset g).flags = false ↔ zcompress g = false := by
  cases hz : zcompress g with
  | true => simp only [blobEntry, hz, if_true]; decide
  | false => simp only [blobEntry, hz]; decide

/-- **The first entry with a hash is kept.** -/
theorem firstWith_kept (hdedup : Deduplicated P.files) {hash : SfmfFileHash} {g : FileEntry}
    (hg : firstWith P.files hash = some g) : g ∈ P.files ∧ Kept g ∧ g.hash = hash := by
  unfold firstWith at hg
  obtain ⟨hq, i, hi, hgi, hfirst⟩ := List.find?_eq_some_iff_getElem.1 hg
  obtain ⟨hs, hh⟩ := of_decide_eq_true hq
  refine ⟨hgi ▸ List.getElem_mem hi, ⟨hs, ?_⟩, hh⟩
  cases hd : g.duplicate with
  | false => rfl
  | true =>
    obtain ⟨j, hji, g', hg', hs', _, hh'⟩ := (hdedup.duplicate i g (hgi ▸ List.getElem?_eq_getElem hi)).1 hd
    obtain ⟨hj, rfl⟩ := List.getElem?_eq_some_iff.1 hg'
    have hno := hfirst j hji
    rw [decide_eq_true ⟨hs', hh'.trans hh⟩] at hno
    cases hno

/-- Every entry whose content is stored has a first one with its hash. -/
theorem firstWith_some {f : FileEntry} (hf : f ∈ files) (hs : Stored f) : ∃ g, firstWith files f.hash = some g := by
  cases hg : firstWith files f.hash with
  | some g => exact ⟨g, rfl⟩
  | none =>
    have hno := List.find?_eq_none.1 hg f hf
    rw [decide_eq_true ⟨hs, rfl⟩] at hno
    exact absurd rfl hno

/-- **What decides about a symlink** is the first entry with its hash. -/
theorem symlinkStored_iff (H : PackFilesOk E D.toDisk opts outDir files cutoff blobs packs P)
    (hlisted : ∀ f ∈ P.files, Listed E D f) (hdedup : Deduplicated P.files) {f g : FileEntry} {t : Bytes}
    (ht : D.readlink f.filename = some t) (hmax : t.length < pathMax) (hg : firstWith P.files f.hash = some g) :
    SymlinkStored E D.toDisk P f ↔ contentOf D.toDisk g = some t ∧
      (sIsreg g.st.stMode → (fileentryGetMinSize g).toUInt32 < cutoff ∧ zcompress g = false) := by
  obtain ⟨hgm, hgk, hgh⟩ := firstWith_kept hdedup hg
  have hgl := hlisted g hgm
  obtain ⟨c, hc, hclen, _⟩ := hgl.stored hgk.1
  have h0 : g.st.stSize ≠ 0 := fun h0 => hgk.1 (.inl h0)
  have htype := hgk.type
  -- an included entry with this hash is that first one
  have huniq : ∀ g', g' ∈ P.buckets.includedFiles → g'.hash = f.hash → g' = g := by
    intro g' hg' hh
    obtain ⟨hgm', hgb'⟩ := H.mem_included.1 hg'
    exact List.inj_on_of_nodup_map hdedup.nodup (List.mem_filter.2 ⟨hgm', decide_eq_true (kept_of_bucket hgb')⟩)
      (List.mem_filter.2 ⟨hgm, decide_eq_true hgk⟩) (hh.trans hgh.symm)
  have hiff : SymlinkStored E D.toDisk P f ↔
      g ∈ P.buckets.includedFiles ∧ zcompress g = false ∧ outOf E (manifestPayloadOp D.toDisk g) = .ok t := by
    constructor
    · rintro ⟨i, g', t', ht', hi, hh, _, hflags, hout⟩
      rw [ht] at ht'
      cases ht'
      have hmem := List.mem_of_getElem? hi
      have hgg := huniq g' hmem hh
      rw [hgg] at hmem hflags hout
      exact ⟨hmem, blobEntry_flags.1 (hflags 0), hout⟩
    · rintro ⟨hmem, hz, hout⟩
      obtain ⟨i, hi, hgi⟩ := List.getElem_of_mem hmem
      refine ⟨i, g, t, ht, hgi ▸ List.getElem?_eq_getElem hi, hgh, fun j g' hji hg' hh => ?_,
        fun _ => blobEntry_flags.2 hz, hout⟩
      obtain ⟨hj, hgj⟩ := List.getElem?_eq_some_iff.1 hg'
      have hsame := huniq g' (List.mem_of_getElem? hg') hh
      have hnodup := H.included_nodup hdedup
      rw [List.Nodup, List.pairwise_map, List.pairwise_iff_getElem] at hnodup
      exact hnodup j i hj hi hji (by rw [hgj, hgi, hsame])
  rw [hiff, H.mem_included, and_iff_right hgm]
  rcases htype with hl | hr
  · -- a symlink is always included, and never compressed
    have hcont : contentOf D.toDisk g = D.readlink g.filename := if_pos hl
    obtain ⟨t', ht', hlen', _, _, hmax'⟩ := D.symlink hgl.lstat hl
    have hpos : 0 < minSize g := (Sfmf.minSize_pos (by simp only [pathMax] at hmax'; omega)).2 h0
    have hbucket : bucketFor opts cutoff g = some .included := (bucketOf_included hgk.2 hpos (.inl hl)).2 (.inl hl)
    have hreg : ¬ sIsreg g.st.stMode := sIslnk_not_sIsreg hl
    rw [hcont, ht', manifestPayload_symlink hgl hl ht']
    constructor
    · rintro ⟨_, _, hout⟩
      exact ⟨by rw [Except.ok.inj hout], fun h => absurd h hreg⟩
    · rintro ⟨he, _⟩
      exact ⟨hbucket, zcompress_symlink hgl hl, by rw [Option.some.inj he]⟩
  · have hnl : ¬ sIslnk g.st.stMode := sIsreg_not_sIslnk hr
    have hcont : contentOf D.toDisk g = D.fopen g.filename := if_neg hnl
    rw [hcont] at hc
    rw [hcont, hc, manifestPayload_regular hr]
    have hout : zcompress g = false → outOf E (payloadOp D.toDisk g) = .ok c := by
      intro hz
      have hop : payloadOp D.toDisk g = .ok (.convertFile c .none) := payloadOp_ok.2 ⟨c, hc, by rw [hz]; rfl⟩
      rw [outOf, hop]
      exact converted_none E c
    constructor
    · rintro ⟨hb, hz, ho⟩
      rw [hout hz, Except.ok.injEq] at ho
      obtain ⟨_, hpos, ht', _⟩ := bucketOf_some hb
      exact ⟨by rw [ho], fun _ => ⟨((bucketOf_included hgk.2 hpos ht').1 hb).resolve_left hnl, hz⟩⟩
    · rintro ⟨he, hsmall⟩
      obtain ⟨hlt, hz⟩ := hsmall hr
      rw [Option.some.injEq] at he
      have hpos : 0 < minSize g := by
        refine (Sfmf.minSize_pos ?_).2 h0
        rw [← hclen, he]
        simp only [pathMax] at hmax
        omega
      exact ⟨(bucketOf_included hgk.2 hpos (.inr hr)).2 (.inr hlt), hz, by rw [hout hz, he]⟩

/-! ## The reader's view -/

/-- What is read of a blob that is there. -/
theorem getBlobData_ok {d t : Bytes} {b : SfmfBlobEntry} (hne : t ≠ []) (hsize : b.size.toNat = t.length)
    (hslice : slice d b.offset.toNat b.size.toNat = t) : getBlobData d b = .ok t := by
  have hpos := List.length_pos_iff.2 hne
  have hle : b.offset.toNat + b.size.toNat ≤ d.length := by
    have hlen := congrArg List.length hslice
    rw [slice, List.length_take, List.length_drop] at hlen
    omega
  rw [getBlobData, fread_slice (by omega) hle, hslice]

/-- **What the reader finds**, in a manifest that is read back: the first blob with the hash of the symlink
is the one that was stored. -/
theorem ReadsBack.symlink_iff {bytes : Bytes}
    (RB : ReadsBack E D.toDisk opts P.files P.packs P.buckets.includedFiles bytes m) {f : FileEntry} {t : Bytes}
    (ht : D.readlink f.filename = some t) (hne : t ≠ []) : SymlinkStored E D.toDisk P f ↔
      ∃ b, m.bentries.find? (fun b => b.hash = f.hash) = some b ∧ isZcompressed b.flags = false ∧
        getBlobData bytes b = .ok t := by
  constructor
  · rintro ⟨i, g, t', ht', hi, hh, hfirst, hflags, hout⟩
    rw [ht] at ht'
    cases ht'
    obtain ⟨b, p, hb, hbh, hbf, hp, hbs, hslice⟩ := RB.bentries i g hi
    rw [hout, Except.ok.injEq] at hp
    subst hp
    obtain ⟨hib, hbi⟩ := List.getElem?_eq_some_iff.1 hb
    -- the blob entries stand in the order of the included files, so the first ones match
    refine ⟨b, List.find?_eq_some_iff_getElem.2 ⟨by simp [hbh, hh], i, hib, hbi, fun j hji => ?_⟩, ?_,
      getBlobData_ok hne hbs hslice⟩
    · have hj : j < P.buckets.includedFiles.length := by rw [← RB.bentries_length]; omega
      obtain ⟨e, _, he, heh, _⟩ := RB.bentries j _ (List.getElem?_eq_getElem hj)
      rw [List.getElem?_eq_getElem (by omega), Option.some.injEq] at he
      have hno := hfirst j _ hji (List.getElem?_eq_getElem hj)
      rw [he, heh, decide_eq_false hno]
      rfl
    · rw [hbf]
      exact hflags 0
  · rintro ⟨b, hfind, hflags, hdata⟩
    obtain ⟨hbh, i, hi, hbi, hfirst⟩ := List.find?_eq_some_iff_getElem.1 hfind
    have hi' : i < P.buckets.includedFiles.length := RB.bentries_length ▸ hi
    obtain ⟨e, p, he, heh, hef, hp, hes, hslice⟩ := RB.bentries i _ (List.getElem?_eq_getElem hi')
    rw [List.getElem?_eq_getElem hi, Option.some.injEq, hbi] at he
    subst he
    have hz : zcompress P.buckets.includedFiles[i] = false := by
      rw [hef] at hflags
      have h0 : isZcompressed (blobEntry 0 P.buckets.includedFiles[i]).flags = false := hflags
      exact blobEntry_flags.1 h0
    refine ⟨i, _, t, ht, List.getElem?_eq_getElem hi', heh.symm.trans (of_decide_eq_true hbh), fun j g' hji hg' hh => ?_,
      fun _ => blobEntry_flags.2 hz, ?_⟩
    · obtain ⟨e', _, he', heh', _⟩ := RB.bentries j g' hg'
      obtain ⟨hj, hje⟩ := List.getElem?_eq_some_iff.1 he'
      have hno := hfirst j hji
      rw [hje, decide_eq_true (heh'.trans hh)] at hno
      cases hno
    · -- the payload is what is read
      rw [hp]
      have hsome : (fread bytes b.offset.toNat b.size.toNat).1 = some t := by
        unfold getBlobData at hdata
        split at hdata
        · rename_i d hd; rw [hd, Except.ok.inj hdata]
        · cases hdata
      rw [fread_some hsome, hslice]

/-- A search that compares hashes finds the first one that is equal. -/
theorem findM_compare {h : SfmfFileHash} : ∀ {l : List SfmfBlobEntry} {found : Option SfmfBlobEntry},
    l.findM? (fun entry => sfmfFilehashCompare h entry.hash) = .ok found → found = l.find? fun b => b.hash = h := by
  intro l
  induction l with
  | nil => intro found hfound; cases hfound; rfl
  | cons b l ih =>
    intro found hfound
    obtain ⟨same, hsame, hfound⟩ := bind_ok.1 hfound
    obtain ⟨-, -, rfl⟩ := sfmfFilehashCompare_ok.1 hsame
    by_cases hb : h = b.hash
    · rw [decide_eq_true hb] at hfound
      cases hfound
      rw [List.find?_cons_of_pos (by simp [hb])]
    · rw [decide_eq_false hb] at hfound
      rw [List.find?_cons_of_neg (by simpa using Ne.symm hb)]
      exact ih hfound

/-- **`search_blob_hash` gives `BLOB_RESULT_INCLUDED`** for the first blob of the manifest with the hash, and only then. -/
theorem searchBlobHash_included {L : Disk} {h : SfmfFileHash} {ls ls' : List FileEntry} {r : BlobResult}
    (hs : searchBlobHash E L m h ls = .ok (r, ls')) (b : SfmfBlobEntry) :
    r = .included b ↔ m.bentries.find? (fun b => b.hash = h) = some b := by
  simp only [searchBlobHash, bind_ok] at hs
  obtain ⟨found, hfound, hs⟩ := hs
  rw [← findM_compare hfound]
  cases found with
  | some entry => cases hs; simp
  | none =>
    simp only [bind_ok] at hs
    obtain ⟨⟨found, ls₁⟩, _, hs⟩ := hs
    cases found with
    | some entry => cases hs; simp
    | none =>
      simp only [bind_ok] at hs
      obtain ⟨found, _, hs⟩ := hs
      cases found <;> cases hs <;> simp

/-- **How the entry of a symlink is classified.** -/
theorem classifySymlink_iff {e : SfmfFileEntry} {u : UnpackFileEntry} {ls ls' : List FileEntry}
    (ht : e.type = entrySymlink) (hsize : e.hash.size > 0) (hu : unpackClassifyEntry E U m ls e = .ok (u, ls'))
    (b : SfmfBlobEntry) : u.blobResult = .included b ↔ m.bentries.find? (fun b => b.hash = e.hash) = some b := by
  have hlink : e.type ≠ entryHardlink := by rw [ht]; decide
  obtain ⟨name, r, _, rfl, _, ⟨hl, _⟩ | ⟨_, _, hr⟩ | ⟨_, h0, _⟩⟩ := unpackClassifyEntry_iff.1 hu
  · exact absurd hl hlink
  · exact searchBlobHash_included hr b
  · exact absurd hsize h0

/-! ## All symlinks -/

/-- **Every symlink can be unpacked exactly if none of them shares its hash with an earlier regular file**
that is not included as it is. The first part is about what is written, for every list and all limits;
the second one says that it is what the reader finds, wherever the manifest is read back, and that
`unpack_classify_entry` gives `BLOB_RESULT_INCLUDED` with it. -/
theorem symlinks_readable_iff (hfiles : getFileList E D.toDisk walk = .ok files)
    (hcutoff : getCutoffSizeBytes files (opts.blobUpperKb * 1024) = .ok cutoff)
    (h : packFiles E D.toDisk opts outDir files = .ok P) :
    ((∀ f ∈ P.files, sIslnk f.st.stMode → SymlinkStored E D.toDisk P f) ↔
      ∀ f ∈ files, sIslnk f.st.stMode → SymlinkReadable D.toDisk cutoff files f) ∧
    ∀ m, ReadsBack E D.toDisk opts P.files P.packs P.buckets.includedFiles P.manifest m →
      (∀ f ∈ P.files, sIslnk f.st.stMode → (SymlinkStored E D.toDisk P f ↔
        ∃ b t, m.bentries.find? (fun b => b.hash = f.hash) = some b ∧ isZcompressed b.flags = false ∧
          D.readlink f.filename = some t ∧ getBlobData P.manifest b = .ok t)) ∧
      ∀ (i : ℕ) (f : FileEntry) (e : SfmfFileEntry), P.files[i]? = some f → m.fentries[i]? = some e →
        sIslnk f.st.stMode → e.type = entrySymlink ∧ ∀ (U : UnpackOptions) (ls ls' : List FileEntry) (u : UnpackFileEntry),
          unpackClassifyEntry E U m ls e = .ok (u, ls') → (SymlinkStored E D.toDisk P f ↔
            ∃ b t, u.blobResult = .included b ∧ isZcompressed b.flags = false ∧ D.readlink f.filename = some t ∧
              getBlobData P.manifest b = .ok t) := by
  obtain ⟨cutoff', blobs, packs, H⟩ := packFiles_ok h
  obtain ⟨hlist, _⟩ := getFileList_ok hfiles
  obtain ⟨hsame, hdedup⟩ := markDuplicates_ok H.marked fun f hf => (hlist f hf).2
  have hcc : cutoff' = cutoff := by
    have hs := H.search
    rw [← getCutoffSizeBytes_same hsame, hcutoff, Except.ok.injEq] at hs
    exact hs.symm
  subst hcc
  have hlisted : ∀ f ∈ P.files, Listed E D f := by
    intro f' hf'
    obtain ⟨i, hi', rfl⟩ := List.getElem_of_mem hf'
    have hi : i < files.length := hsame.length_eq ▸ hi'
    exact SameFile.listed (hsame.get hi hi') (hlist _ (List.getElem_mem hi)).1
  have htarget : ∀ {f : FileEntry}, f ∈ P.files → sIslnk f.st.stMode →
      ∃ t, D.readlink f.filename = some t ∧ t ≠ [] ∧ t.length < pathMax := by
    intro f hf hl
    obtain ⟨t, ht, _, hne, _, hmax⟩ := D.symlink (hlisted f hf).lstat hl
    exact ⟨t, ht, hne, hmax⟩
  have hsize : ∀ {f : FileEntry}, f ∈ P.files → sIslnk f.st.stMode → f.hash.size > 0 := by
    intro f hf hl
    obtain ⟨t, ht, hne, hmax⟩ := htarget hf hl
    obtain ⟨d, hd, _, hhash⟩ := (hlisted f hf).stored (stored_symlink (hlisted f hf).lstat hl)
    rw [contentOf, if_pos hl, ht, Option.some.injEq] at hd
    subst hd
    have hpos := List.length_pos_iff.2 hne
    simp only [pathMax] at hmax
    rw [hhash, gt_iff_lt, UInt32.lt_iff_toNat_lt, hashOf, ofNat_toNat_of_lt (by omega)]
    exact hpos
  -- one symlink, in the marked list and in the list as it was
  have hone : ∀ {f f' : FileEntry}, SameFile f f' → f' ∈ P.files → sIslnk f'.st.stMode →
      (SymlinkStored E D.toDisk P f' ↔ SymlinkReadable D.toDisk cutoff' files f) := by
    intro f f' hff hf' hl
    obtain ⟨t, ht, _, hmax⟩ := htarget hf' hl
    obtain ⟨g', hg'⟩ := firstWith_some hf' (stored_symlink (hlisted f' hf').lstat hl)
    rw [symlinkStored_iff H hlisted hdedup ht hmax hg']
    obtain ⟨_, _, rfl⟩ := hff
    obtain ⟨g, hg, _, _, rfl⟩ := firstWith_same hsame _ hg'
    unfold SymlinkReadable
    rw [show D.readlink f.filename = some t from ht]
    constructor
    · exact fun hc => ⟨g, hg, hc⟩
    · rintro ⟨g₁, hg₁, hc⟩
      have hgg : g₁ = g := Option.some.inj (hg₁.symm.trans hg)
      subst hgg
      exact hc
  -- what the reader finds
  have hfound : ∀ m, ReadsBack E D.toDisk opts P.files P.packs P.buckets.includedFiles P.manifest m →
      ∀ f ∈ P.files, sIslnk f.st.stMode → (SymlinkStored E D.toDisk P f ↔
        ∃ b t, m.bentries.find? (fun b => b.hash = f.hash) = some b ∧ isZcompressed b.flags = false ∧
          D.readlink f.filename = some t ∧ getBlobData P.manifest b = .ok t) := by
    intro m RB f hf hl
    obtain ⟨t, ht, hne, _⟩ := htarget hf hl
    rw [RB.symlink_iff ht hne]
    constructor
    · rintro ⟨b, hb, hz, hd⟩
      exact ⟨b, t, hb, hz, ht, hd⟩
    · rintro ⟨b, t', hb, hz, ht', hd⟩
      rw [ht] at ht'
      cases ht'
      exact ⟨b, hb, hz, hd⟩
  refine ⟨⟨fun hall f hf hl => ?_, fun hall f' hf' hl => ?_⟩, fun m RB => ⟨hfound m RB, fun i f e hf he hl => ?_⟩⟩
  · obtain ⟨i, hi, rfl⟩ := List.getElem_of_mem hf
    have hi' : i < P.files.length := hsame.length_eq ▸ hi
    have hff := hsame.get hi hi'
    simp only [List.get_eq_getElem] at hff
    have hl' : sIslnk P.files[i].st.stMode := by obtain ⟨_, _, he⟩ := hff; rw [he]; exact hl
    exact (hone hff (List.getElem_mem hi') hl').1 (hall _ (List.getElem_mem hi') hl')
  · obtain ⟨i, hi', rfl⟩ := List.getElem_of_mem hf'
    have hi : i < files.length := hsame.length_eq ▸ hi'
    have hff := hsame.get hi hi'
    simp only [List.get_eq_getElem] at hff
    have hl' : sIslnk files[i].st.stMode := by obtain ⟨_, _, he⟩ := hff; rw [he] at hl; exact hl
    exact (hone hff hf' hl).2 (hall _ (List.getElem_mem hi) hl')
  · obtain ⟨e', he', hback⟩ := RB.fentries i f hf
    rw [he, Option.some.injEq] at he'
    subst he'
    have hmem : f ∈ P.files := List.mem_of_getElem? hf
    have htype : e.type = entrySymlink := manifestEntryType_symlink hback.type hl
    refine ⟨htype, fun U ls ls' u hu => ?_⟩
    rw [hfound m RB f hmem hl, ← hback.hash]
    simp only [classifySymlink_iff htype (by rw [hback.hash]; exact hsize hmem hl) hu]

theorem symlinks_readable_iff_letterTree : ∃ files cutoff P,
    getFileList letterTreeEnv letterTree.toDisk letterWalk = .ok files ∧
    getCutoffSizeBytes files (letterTreeOptions.blobUpperKb * 1024) = .ok cutoff ∧
    packFiles letterTreeEnv letterTree.toDisk letterTreeOptions (fun _ => none) files = .ok P ∧
    ((∀ f ∈ P.files, sIslnk f.st.stMode → SymlinkStored letterTreeEnv letterTree.toDisk P f) ↔
      ∀ f ∈ files, sIslnk f.st.stMode → SymlinkReadable letterTree.toDisk cutoff files f) := by
  have hpasses : (getFileList letterTreeEnv letterTree.toDisk letterWalk).passes (fun files =>
      (getCutoffSizeBytes files (letterTreeOptions.blobUpperKb * 1024)).passes (fun _ =>
        (packFiles letterTreeEnv letterTree.toDisk letterTreeOptions (fun _ => none) files).passes fun _ => true)) =
      true := by decide +kernel
  obtain ⟨files, hfiles, hpasses⟩ := Exec.of_passes hpasses
  obtain ⟨cutoff, hcutoff, hpasses⟩ := Exec.of_passes hpasses
  obtain ⟨P, hP, _⟩ := Exec.of_passes hpasses
  exact ⟨files, cutoff, P, hfiles, hcutoff, hP, (symlinks_readable_iff hfiles hcutoff hP).1⟩

/-- A tree: a directory with a file of 32 letters, and a symlink to these letters. -/
def letterLinkTree : SourceTree :=
  .ofList [
    (letterDir, ⟨1, 0o040755, 0, 0, 0, 64, 7⟩, []),
    (letterPath, ⟨2, 0o100644, 0, 0, 0, 32, 7⟩, letters),
    (letterLink, ⟨5, 0o120777, 0, 0, 0, 32, 7⟩, letters)] (by decide) (by decide)

/-- **A symlink can be a duplicate of a file in a pack**: then no blob of the manifest has its target. -/
theorem symlink_packed : ∃ P m e u pack, packMain letterTreeEnv letterLinkTree.toDisk letterTreeOptions (str ['m'])
      (fun _ => none) [letterDir, letterPath, letterLink] =
        .ok P ∧
    readManifest P.manifest = .ok m ∧ e ∈ m.fentries ∧ e.type = entrySymlink ∧
    m.bentries.find? (fun b => b.hash = e.hash) = none ∧
    unpackClassifyEntry letterTreeEnv (clientOf P false) m [] e = .ok (u, []) ∧ u.blobResult = .packed pack := by
  have hpasses : (packMain letterTreeEnv letterLinkTree.toDisk letterTreeOptions (str ['m']) (fun _ => none)
      [letterDir, letterPath, letterLink]).passes (fun P =>
        (readManifest P.manifest).passes fun m => ∃ e ∈ m.fentries, e.type = entrySymlink ∧
          m.bentries.find? (fun b => b.hash = e.hash) = none ∧
          (unpackClassifyEntry letterTreeEnv (clientOf P false) m [] e).passes (fun r => r.2 = [] ∧
            ∃ pack ∈ m.pentries, r.1.blobResult = .packed pack) = true) = true := by decide +kernel
  obtain ⟨P, hP, hpasses⟩ := Exec.of_passes hpasses
  obtain ⟨m, hm, hcheck⟩ := Exec.of_passes hpasses
  obtain ⟨e, he, ht, hfind, hpasses⟩ := of_decide_eq_true hcheck
  obtain ⟨⟨u, _⟩, hu, hcheck⟩ := Exec.of_passes hpasses
  obtain ⟨rfl, pack, _, hpack⟩ := of_decide_eq_true hcheck
  exact ⟨P, m, e, u, pack, hP, hm, he, ht, hfind, hu, hpack⟩

end Sfmf
