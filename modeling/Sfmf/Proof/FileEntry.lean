import Sfmf.Spec.FileEntry
import Sfmf.Proof.Layout

/-!
# What `filelist_append` knows of a file

* `Listed`: an entry of a file list, with what was measured and hashed.
* `getFileList_ok`: the list of a tree has such entries, for the paths that are no
  sockets.
* `Env.Deflates`: what the code relies on of zlib.
* `fullBlobFlags_iff`: which full blobs are written compressed.
* `payload_recorded`, `manifestPayload_recorded`: payloads have the sizes that were
  measured.
-/

namespace Sfmf

/-! ## Entries -/

/-- The hash of a content. -/
def hashOf (E : Env) (d : Bytes) : SfmfFileHash := ⟨UInt32.ofNat d.length, hashtypeSha1, E.sha1 d⟩

/-- The bytes an entry stands for: the target of a symlink, the content of a file. -/
def contentOf (D : Disk) (f : FileEntry) : Option Bytes :=
  if sIslnk f.st.stMode then D.readlink f.filename else D.fopen f.filename

/-- The types that `write_manifest` knows. -/
abbrev supported (mode : UInt32) : Prop :=
  sIslnk mode ∨ sIsreg mode ∨ sIsdir mode ∨ sIschr mode ∨ sIsblk mode ∨ sIsfifo mode

/-- **An entry of the list of a tree**: its hash is that of its content, and a nonempty regular file was
also compressed for its size. -/
structure Listed (E : Env) (D : SourceTree) (f : FileEntry) : Prop where
  lstat : D.lstat f.filename = some f.st
  type : supported f.st.stMode
  stored : ¬ skipsDuplicates f → ∃ d, contentOf D.toDisk f = some d ∧ d.length = f.st.stSize ∧ f.hash = hashOf E d
  deflated : sIsreg f.st.stMode → f.st.stSize ≠ 0 → ∀ d, D.fopen f.filename = some d →
    ∃ z, converted E .zcompress d = .ok z ∧ f.zsize = UInt32.ofNat z.length
  symlink : sIslnk f.st.stMode → f.zsize = 0 ∧
    ∃ t, D.readlink f.filename = some t ∧ t ≠ [] ∧ (0 : UInt8) ∉ t ∧ t.length < pathMax
  other : skipsDuplicates f → f.zsize = 0 ∧ f.hash = .zero

/-- An entry that was not yet compared with others. -/
def Fresh (f : FileEntry) : Prop := f.duplicate = false ∧ f.hardlinkIndex = -1

variable {E : Env} {D : SourceTree}

theorem stored_regular {f : FileEntry} (hreg : sIsreg f.st.stMode) (hpos : 0 < f.st.stSize) : ¬ skipsDuplicates f := by
  rintro (h0 | hn)
  · omega
  · exact hn (.inl hreg)

theorem stored_symlink {f : FileEntry} (hst : D.lstat f.filename = some f.st) (hl : sIslnk f.st.stMode) :
    ¬ skipsDuplicates f := by
  rintro (h0 | hn)
  · obtain ⟨t, _, hlen, hne, _⟩ := D.symlink hst hl
    rw [h0] at hlen
    exact hne (List.eq_nil_of_length_eq_zero hlen)
  · exact hn (.inr hl)

theorem skips_other {f : FileEntry} (hreg : ¬ (sIsreg f.st.stMode ∧ 0 < f.st.stSize)) (hl : ¬ sIslnk f.st.stMode) :
    skipsDuplicates f := by
  by_cases hr : sIsreg f.st.stMode
  · exact .inl (by_contra fun h0 => hreg ⟨hr, Nat.pos_of_ne_zero h0⟩)
  · exact .inr fun hrl => hrl.elim hr hl

/-! ## How entries are made -/

/-- **What `fileentry_calculate_zsize_hash` calculates**: the SHA-1 of the file and the size of its stream. -/
theorem fileentryCalculateZsizeHash_ok {D : Disk} {f f' : FileEntry} :
    fileentryCalculateZsizeHash E D f = .ok f' ↔ ∃ d z, D.fopen f.filename = some d ∧
      converted E .zcompress d = .ok z ∧ f' = { f with
        hash := { f.hash with hashtype := hashtypeSha1, hash := E.sha1 d }, zsize := UInt32.ofNat z.length } := by
  simp only [fileentryCalculateZsizeHash, bind_ok, convertFileZsizeHash_eq, if_true, map_ok, pure_eq_ok,
    Except.ok.injEq]
  constructor
  · rintro ⟨d, hd, _, ⟨z, hz, rfl⟩, rfl⟩
    exact ⟨d, z, Disk.openFile_ok.1 hd, hz, rfl⟩
  · rintro ⟨d, z, hd, hz, rfl⟩
    exact ⟨d, Disk.openFile_ok.2 hd, _, ⟨z, hz, rfl⟩, rfl⟩

/-- The entry that `filelist_append` makes of a path: the hash is calculated or left for later, a symlink has
that of its target, and other entries have none. -/
inductive EntryMade (E : Env) (D : Disk) (p : CString) (st : Stat) : FileListFlags → FileEntry → Prop
  | hashed {d z : Bytes} (hreg : sIsreg st.stMode) (hpos : 0 < st.stSize) (hd : D.fopen p = some d)
      (hz : converted E .zcompress d = .ok z) : EntryMade E D p st .calculateHash
        ⟨p, st, UInt32.ofNat z.length, ⟨UInt32.ofNat st.stSize, hashtypeSha1, E.sha1 d⟩, false, -1⟩
  | lazy (hreg : sIsreg st.stMode) (hpos : 0 < st.stSize) : EntryMade E D p st .none
      ⟨p, st, 0, ⟨UInt32.ofNat st.stSize, hashtypeLazy, SfmfFileHash.zero.hash⟩, false, -1⟩
  | symlink {flags : FileListFlags} {t : Bytes} (hlnk : sIslnk st.stMode) (ht : D.readlink p = some t) :
      EntryMade E D p st flags ⟨p, st, 0, hashOf E (t.take pathMax), false, -1⟩
  | other {flags : FileListFlags} (hreg : ¬ (sIsreg st.stMode ∧ 0 < st.stSize)) (hlnk : ¬ sIslnk st.stMode) :
      EntryMade E D p st flags ⟨p, st, 0, .zero, false, -1⟩

theorem filelistAppendHash_made {D : Disk} {flags : FileListFlags} {p : CString} {st : Stat} {f : FileEntry}
    (h : filelistAppendHash E D flags ⟨p, st, 0, .zero, false, -1⟩ = .ok f) : EntryMade E D p st flags f := by
  unfold filelistAppendHash at h
  by_cases hreg : sIsreg st.stMode ∧ st.stSize > 0
  · rw [if_pos hreg] at h
    cases flags with
    | calculateHash =>
      obtain ⟨d, z, hd, hz, rfl⟩ := fileentryCalculateZsizeHash_ok.1 h
      exact .hashed hreg.1 hreg.2 hd hz
    | none =>
      cases h
      exact .lazy hreg.1 hreg.2
  rw [if_neg hreg] at h
  by_cases hlnk : sIslnk st.stMode
  · rw [if_pos hlnk] at h
    cases ht : D.readlink p with
    | none => simp [ht] at h
    | some t =>
      simp only [ht, pure_eq_ok, Except.ok.injEq] at h
      subst h
      exact .symlink hlnk ht
  · rw [if_neg hlnk] at h
    cases h
    exact .other hreg hlnk

/-- **What `filelist_append` does to a list**: it skips the path, or appends an entry for it. -/
theorem filelistAppend_cases {D : Disk} {ignore : Bool} {flags : FileListFlags} {p : CString}
    {list list' : List FileEntry} (h : filelistAppend E D ignore flags list p = .ok list') :
    ∃ st, D.lstat p = some st ∧
      ((¬ supported st.stMode ∧ (sIssock st.stMode ∨ ignore = true) ∧ list' = list) ∨
        (supported st.stMode ∧ ∃ f, EntryMade E D p st flags f ∧ list' = list ++ [f])) := by
  unfold filelistAppend at h
  cases hst : D.lstat p with
  | none => simp [hst] at h
  | some st =>
    simp only [hst] at h
    refine ⟨st, rfl, ?_⟩
    by_cases htype : supported st.stMode
    · rw [if_pos htype] at h
      simp only [bind_ok, pure_eq_ok, Except.ok.injEq] at h
      obtain ⟨f, hf, rfl⟩ := h
      exact .inr ⟨htype, f, filelistAppendHash_made hf, rfl⟩
    rw [if_neg htype] at h
    by_cases hsock : sIssock st.stMode
    · rw [if_pos hsock] at h
      cases h
      exact .inl ⟨htype, .inl hsock, rfl⟩
    rw [if_neg hsock] at h
    by_cases hignore : ignore = true
    · rw [if_pos hignore] at h
      cases h
      exact .inl ⟨htype, .inr hignore, rfl⟩
    · rw [if_neg hignore] at h
      simp at h

/-- What holds of every entry that is made holds of all entries of a list. -/
theorem extendFileList_each {D : Disk} {ignore : Bool} {flags : FileListFlags} {Q : FileEntry → Prop}
    (hmade : ∀ p st f, D.lstat p = some st → supported st.stMode → EntryMade E D p st flags f → Q f)
    {walk : List CString} {list list' : List FileEntry} (h : extendFileList E D ignore flags list walk = .ok list')
    (hl : ∀ f ∈ list, Q f) : ∀ f ∈ list', Q f := by
  refine foldlM_inv (fun list => ∀ f ∈ list, Q f) ?_ hl h
  intro list p list' _ hl hstep f hf
  obtain ⟨st, hst, ⟨-, -, rfl⟩ | ⟨htype, g, hg, rfl⟩⟩ := filelistAppend_cases hstep
  · exact hl f hf
  · rcases List.mem_append.1 hf with hf | hf
    · exact hl f hf
    · rw [List.mem_singleton.1 hf]
      exact hmade p st g hst htype hg

/-! ## The list of a tree -/

theorem EntryMade.filename {D : Disk} {flags : FileListFlags} {p : CString} {st : Stat} {f : FileEntry}
    (h : EntryMade E D p st flags f) : f.filename = p := by
  cases h <;> rfl

/-- An entry with its hash calculated. -/
theorem EntryMade.listed {p : CString} {st : Stat} {f : FileEntry} (hst : D.lstat p = some st)
    (htype : supported st.stMode) (h : EntryMade E D.toDisk p st .calculateHash f) : Listed E D f ∧ Fresh f := by
  cases h with
  | @hashed d z hreg hpos hd hz =>
    obtain ⟨d', hd', hlen⟩ := D.regular hst hreg
    obtain rfl : d = d' := Option.some.inj (hd.symm.trans hd')
    have hlnk : ¬ sIslnk st.stMode := sIsreg_not_sIslnk hreg
    refine ⟨⟨hst, htype, fun _ => ⟨d, (if_neg hlnk).trans hd, hlen, by rw [hashOf, hlen]⟩, ?_,
      fun hl => absurd hl hlnk, fun hs => absurd hs (stored_regular hreg hpos)⟩, rfl, rfl⟩
    intro _ _ d' hd'
    obtain rfl : d = d' := Option.some.inj (hd.symm.trans hd')
    exact ⟨z, hz, rfl⟩
  | @symlink _ t hlnk ht =>
    obtain ⟨t', ht', hlen, hne, hnul, hmax⟩ := D.symlink hst hlnk
    obtain rfl : t = t' := Option.some.inj (ht.symm.trans ht')
    have htake : t.take pathMax = t := List.take_of_length_le hmax.le
    refine ⟨⟨hst, htype, fun _ => ⟨t, (if_pos hlnk).trans ht, hlen, by rw [htake]⟩,
      fun hr => absurd hr (sIslnk_not_sIsreg hlnk), fun _ => ⟨rfl, t, ht, hne, hnul, hmax⟩,
      fun hs => absurd hs (stored_symlink hst hlnk)⟩, rfl, rfl⟩
  | other hreg hlnk =>
    exact ⟨⟨hst, htype, fun hs => absurd (skips_other hreg hlnk) hs,
      fun hr h0 => absurd ⟨hr, Nat.pos_of_ne_zero h0⟩ hreg, fun hl => absurd hl hlnk, fun _ => ⟨rfl, rfl⟩⟩, rfl, rfl⟩

/-- The paths that get an entry. -/
def keeps (D : Disk) (p : CString) : Bool :=
  match D.lstat p with
  | some st => ¬ sIssock st.stMode
  | none => false

theorem keeps_supported {D : Disk} {p : CString} {st : Stat} (hst : D.lstat p = some st)
    (htype : supported st.stMode) : keeps D p = true := by
  have hsock : ¬ sIssock st.stMode := by
    intro hs
    rcases htype with h | h | h | h | h | h <;> exact absurd (hasType_inj h hs) (by decide)
  simp [keeps, hst, hsock]

/-- A tree has an entry for each path that is not a socket. -/
theorem extendFileList_filenames {D : Disk} {flags : FileListFlags} : ∀ {walk : List CString}
    {list files : List FileEntry}, extendFileList E D false flags list walk = .ok files →
      files.map (·.filename) = list.map (·.filename) ++ walk.filter (keeps D) := by
  intro walk
  induction walk with
  | nil => intro list files h; cases h; simp
  | cons p walk ih =>
    intro list files h
    simp only [extendFileList, List.foldlM_cons, bind_ok] at h
    obtain ⟨list₁, h₁, h⟩ := h
    obtain ⟨st, hst, ⟨-, hsock, rfl⟩ | ⟨htype, f, hf, rfl⟩⟩ := filelistAppend_cases h₁
    · have hsock : sIssock st.stMode := hsock.resolve_right (by decide)
      rw [ih h, List.filter_cons_of_neg (by simp [keeps, hst, hsock])]
    · rw [ih h, List.filter_cons_of_pos (keeps_supported hst htype)]
      simp [hf.filename]

/-- **The list of a tree**: an entry for each path that is not a socket. -/
theorem getFileList_ok {walk : List CString} {files : List FileEntry}
    (h : getFileList E D.toDisk walk = .ok files) :
    (∀ f ∈ files, Listed E D f ∧ Fresh f) ∧ files.map (·.filename) = walk.filter (keeps D.toDisk) :=
  ⟨extendFileList_each (fun _ _ _ hst htype hf => hf.listed hst htype) h (by simp), extendFileList_filenames h⟩

/-! ## Sizes -/

/-- **What the code relies on of zlib**: compressing a file of up to 2 GiB gives a nonempty stream of a
32-bit length, from which decompression gets the file back. -/
def Env.Deflates (E : Env) (d : Bytes) : Prop :=
  ∀ z, converted E .zcompress d = .ok z → z ≠ [] ∧ z.length < 2 ^ 32 ∧ converted E .zuncompress z = .ok d

theorem minSize_eq {f : FileEntry} (hs : f.st.stSize < 2 ^ 32) :
    minSize f = if 0 < f.zsize.toNat ∧ f.zsize.toNat < f.st.stSize then f.zsize.toNat else f.st.stSize := by
  have hof := ofNat_toNat_of_lt hs
  have hcond : (f.zsize > 0 ∧ f.zsize < UInt32.ofNat f.st.stSize) ↔
      (0 < f.zsize.toNat ∧ f.zsize.toNat < f.st.stSize) := by
    rw [gt_iff_lt, UInt32.lt_iff_toNat_lt, UInt32.lt_iff_toNat_lt, hof]
    rfl
  unfold minSize fileentryGetMinSize
  by_cases h : 0 < f.zsize.toNat ∧ f.zsize.toNat < f.st.stSize
  · rw [if_pos h]
    simp only [if_pos (hcond.2 h)]
    rfl
  · rw [if_neg h]
    simp only [if_neg (mt hcond.1 h)]
    exact hof

theorem minSize_zero {f : FileEntry} (h0 : f.st.stSize = 0) : minSize f = 0 := by
  rw [minSize_eq (by omega), h0]
  simp

theorem minSize_pos {f : FileEntry} (hs : f.st.stSize < 2 ^ 32) : 0 < minSize f ↔ f.st.stSize ≠ 0 := by
  rw [minSize_eq hs]
  split <;> omega

/-- The smaller size as a signed number. -/
theorem toInt_minSize_eq (f : FileEntry) : (fileentryGetMinSize f).toInt =
    if minSize f < 2 ^ 31 then (minSize f : ℤ) else minSize f - 2 ^ 32 := by
  have hdef : (fileentryGetMinSize f).toBitVec.toNat = minSize f := rfl
  rw [← Int32.toInt_toBitVec, BitVec.toInt_eq_toNat_cond, hdef]
  norm_num
  split <;> split <;> omega

/-- The conversion that `write_full_blob` picks. -/
def fullBlobFlags (f : FileEntry) : ConvertFlags :=
  if (fileentryGetMinSize f).toInt = f.st.stSize then .none else .zcompress

theorem fullBlobFlags_cases (f : FileEntry) :
    fullBlobFlags f = .none ∧ (fileentryGetMinSize f).toInt = f.st.stSize ∨
      fullBlobFlags f = .zcompress ∧ (fileentryGetMinSize f).toInt ≠ f.st.stSize := by
  unfold fullBlobFlags
  by_cases h : (fileentryGetMinSize f).toInt = f.st.stSize
  · exact .inl ⟨if_pos h, h⟩
  · exact .inr ⟨if_neg h, h⟩

/-- **What the packer decides.** -/
theorem fullBlobFlags_iff {f : FileEntry} (hs : f.st.stSize < 2 ^ 32) (hz : f.zsize ≠ 0) :
    fullBlobFlags f = .zcompress ↔ f.zsize.toNat < f.st.stSize ∨ 2 ^ 31 ≤ f.st.stSize := by
  have hmin := minSize_eq hs
  have hint := toInt_minSize_eq f
  have hzpos : f.zsize.toNat ≠ 0 := fun h => hz (UInt32.toNat_inj.1 h)
  rcases fullBlobFlags_cases f with ⟨hflags, he⟩ | ⟨hflags, he⟩ <;> rw [hflags] <;> rw [hint] at he
  · simp only [reduceCtorEq, false_iff]
    split at hmin <;> split at he <;> omega
  · simp only [true_iff]
    split at hmin <;> split at he <;> omega

theorem zcompress_iff {f : FileEntry} : zcompress f = true ↔ f.zsize.toNat = minSize f := by
  rw [zcompress, decide_eq_true_eq, ← UInt32.toNat_inj]
  rfl

/-- A regular file, and its compressed form, have 32-bit sizes. -/
def Fits (E : Env) (D : Disk) (f : FileEntry) : Prop :=
  f.st.stSize < 2 ^ 32 ∧ ∀ d z, D.fopen f.filename = some d → converted E .zcompress d = .ok z → z.length < 2 ^ 32

/-- **The payload of a regular file has its recorded size.** -/
theorem payload_recorded {f : FileEntry} (h : Listed E D f) (hreg : sIsreg f.st.stMode) (h0 : f.st.stSize ≠ 0)
    (hfits : Fits E D.toDisk f) {p : Bytes} (hp : outOf E (payloadOp D.toDisk f) = .ok p) : p.length = minSize f := by
  obtain ⟨op, hop, hout⟩ := bind_ok.1 hp
  obtain ⟨d, hd, rfl⟩ := payloadOp_ok.1 hop
  obtain ⟨z, hz', hzsize⟩ := h.deflated hreg h0 d hd
  obtain ⟨hs, hfit⟩ := hfits
  have hlt := hfit d z hd hz'
  by_cases hc : zcompress f = true
  · simp only [StreamOp.out, hc, if_true, hz', Except.ok.injEq] at hout
    subst hout
    rw [← zcompress_iff.1 hc, hzsize, ofNat_toNat_of_lt hlt]
  · simp only [StreamOp.out, hc, if_false, Bool.false_eq_true, converted_none, Except.ok.injEq] at hout
    subst hout
    obtain ⟨d', hd', hlen⟩ := D.regular h.lstat hreg
    rw [hd] at hd'
    cases hd'
    have hmin := minSize_eq hs
    rw [zcompress_iff] at hc
    rw [hlen, hmin]
    split at hmin
    · exact absurd hmin.symm hc
    · rename_i hneg
      rw [if_neg hneg]

/-- A symlink is not compressed. -/
theorem zcompress_symlink {f : FileEntry} (h : Listed E D f) (hl : sIslnk f.st.stMode) : zcompress f = false := by
  obtain ⟨t, ht, hlen, hne, _, hmax⟩ := D.symlink h.lstat hl
  have hpos := List.length_pos_iff.2 hne
  simp only [pathMax] at hmax
  have hs : f.st.stSize < 2 ^ 32 := by omega
  have hmin : minSize f = f.st.stSize := by
    rw [minSize_eq hs, (h.symlink hl).1]
    simp
  rw [← Bool.not_eq_true, zcompress_iff, (h.symlink hl).1, hmin]
  simp only [UInt32.toNat_zero]
  omega

/-- **The payload of a symlink is its target.** -/
theorem manifestPayload_symlink {f : FileEntry} (h : Listed E D f) (hl : sIslnk f.st.stMode) {t : Bytes}
    (ht : D.readlink f.filename = some t) : outOf E (manifestPayloadOp D.toDisk f) = .ok t := by
  obtain ⟨_, t', ht', _, _, hmax⟩ := h.symlink hl
  rw [ht] at ht'
  cases ht'
  have htake : t.take pathMax = t := List.take_of_length_le hmax.le
  have hop : manifestPayloadOp D.toDisk f = .ok (.convertBuffer t .none) := by
    unfold manifestPayloadOp
    rw [if_pos hl, ht]
    simp [htake, zcompress_symlink h hl]
  rw [outOf, hop]
  exact converted_none E t

/-- The payload of a regular file in a manifest is the one in a pack. -/
theorem manifestPayload_regular {f : FileEntry} (hreg : sIsreg f.st.stMode) :
    manifestPayloadOp D.toDisk f = payloadOp D.toDisk f := by
  unfold manifestPayloadOp
  rw [if_neg (sIsreg_not_sIslnk hreg), cAssert_pos hreg, ok_bind]

/-- **Payloads in a manifest have their recorded sizes.** -/
theorem manifestPayload_recorded {f : FileEntry} (h : Listed E D f) (hskip : ¬ skipsDuplicates f)
    (hfits : sIsreg f.st.stMode → Fits E D.toDisk f) {p : Bytes}
    (hp : outOf E (manifestPayloadOp D.toDisk f) = .ok p) : p.length = minSize f := by
  have h0 : f.st.stSize ≠ 0 := fun h0 => hskip (.inl h0)
  by_cases hl : sIslnk f.st.stMode
  · obtain ⟨t, ht, hlen, _, _, hmax⟩ := D.symlink h.lstat hl
    simp only [pathMax] at hmax
    rw [manifestPayload_symlink h hl ht] at hp
    cases hp
    rw [hlen, minSize_eq (by omega), (h.symlink hl).1]
    simp
  · have hreg : sIsreg f.st.stMode := by
      by_contra hr
      exact hskip (.inr fun hrl => hrl.elim hr hl)
    rw [manifestPayload_regular hreg] at hp
    exact payload_recorded h hreg h0 (hfits hreg) hp

/-! ## Trees given by a list -/

/-- The file system of a list of paths, with what `lstat` says of each and what is read of it. -/
def Disk.ofList (entries : List (CString × Stat × Bytes)) : Disk :=
  let find p := entries.find? fun e => e.1 = p
  ⟨fun p => (find p).map fun e => e.2.1, fun p => (find p).map fun e => e.2.2, fun p => (find p).map fun e => e.2.2⟩

/-- A tree that can be packed, from a list where the sizes fit. -/
def SourceTree.ofList (entries : List (CString × Stat × Bytes))
    (hreg : ∀ e ∈ entries, sIsreg e.2.1.stMode → e.2.2.length = e.2.1.stSize)
    (hlnk : ∀ e ∈ entries, sIslnk e.2.1.stMode →
      e.2.2.length = e.2.1.stSize ∧ e.2.2 ≠ [] ∧ (0 : UInt8) ∉ e.2.2 ∧ e.2.2.length < pathMax) : SourceTree where
  toDisk := .ofList entries
  regular {p st} hst hr := by
    obtain ⟨e, he, rfl⟩ := Option.map_eq_some_iff.1 hst
    exact ⟨e.2.2, Option.map_eq_some_iff.2 ⟨e, he, rfl⟩, hreg e (List.mem_of_find?_eq_some he) hr⟩
  symlink {p st} hst hl := by
    obtain ⟨e, he, rfl⟩ := Option.map_eq_some_iff.1 hst
    exact ⟨e.2.2, Option.map_eq_some_iff.2 ⟨e, he, rfl⟩, hlnk e (List.mem_of_find?_eq_some he) hl⟩

/-- `d`. -/
def letterDir : CString := ⟨str ['d'], by decide⟩

/-- `d/a`. -/
def letterPath : CString := ⟨str ['d', '/', 'a'], by decide⟩

/-- `d/l`. -/
def letterLink : CString := ⟨str ['d', '/', 'l'], by decide⟩

/-- A tree: a directory with a file of 32 letters, the same once more, a hard link to the first of them, an empty
file and a symlink. -/
def letterTree : SourceTree :=
  .ofList [
    (letterDir, ⟨1, 0o040755, 0, 0, 0, 64, 7⟩, []),
    (letterPath, ⟨2, 0o100644, 0, 0, 0, 32, 7⟩, letters),
    (⟨str ['d', '/', 'b'], by decide⟩, ⟨3, 0o100600, 0, 0, 0, 32, 7⟩, letters),
    (⟨str ['d', '/', 'h'], by decide⟩, ⟨2, 0o100644, 0, 0, 0, 32, 7⟩, letters),
    (⟨str ['d', '/', 'e'], by decide⟩, ⟨4, 0o100644, 0, 0, 0, 0, 7⟩, []),
    (letterLink, ⟨5, 0o120777, 0, 0, 0, 1, 7⟩, [0x61])] (by decide) (by decide)

/-- The paths of this tree. -/
def letterWalk : List CString :=
  [letterDir, letterPath, ⟨str ['d', '/', 'b'], by decide⟩,
    ⟨str ['d', '/', 'h'], by decide⟩, ⟨str ['d', '/', 'e'], by decide⟩, letterLink]

/-- The pack of `letterTree`: the letters, compressed. -/
def letterTreePack : Bytes :=
  [83, 70, 80, 70, 0, 0, 0, 1, 0, 0, 0, 2, 0, 0, 0, 1, 109, 0, 0, 0, 0, 32, 0, 0, 0, 1, 104, 248, 74, 89, 163,
   202, 45, 14, 92, 177, 100, 111, 187, 22, 77, 164, 9, 181, 216, 242, 0, 0, 0, 1, 0, 0, 0, 58, 0, 0, 0, 11, 120,
   156, 75, 76, 196, 15, 0, 200, 48, 12, 33]

/-- The pack, compressed. -/
def letterTreePackDeflated : Bytes :=
  [120, 156, 11, 118, 11, 112, 99, 96, 96, 96, 4, 98, 38, 16, 157, 11, 36, 24, 20, 64, 172, 140, 31, 94, 145,
   139, 79, 233, 242, 197, 108, 76, 201, 223, 45, 230, 187, 132, 115, 235, 141, 79, 80, 149, 86, 64, 204, 93, 49,
   199, 219, 231, 8, 63, 195, 9, 3, 30, 69, 0, 209, 19, 15, 128]

/-- What zlib and SHA-1 make of the contents in `letterTree`, and of its pack. -/
def letterTreeEnv : Env :=
  .ofTable [
    (letters, lettersDeflated, lettersDigest),
    ([0x61], [120, 156, 75, 4, 0, 0, 98, 0, 98], letterDigest),
    (letterTreePack, letterTreePackDeflated,
      ⟨[124, 175, 105, 153, 72, 2, 131, 100, 124, 58, 116, 36, 69, 128, 214, 62, 145, 108, 31, 181], by decide⟩)]

theorem letterTreeEnv_noReflink : letterTreeEnv.NoReflink := Env.ofTable_noReflink _

/-- Options by which regular files of less than a kilobyte go into packs. -/
def letterTreeOptions : PackOptions := ⟨letterDir, 0, 1, 1, str ['m', '\x00']⟩

/-- An unpacker that is served an output directory. -/
def clientOf (P : Packed) (downloadOnly : Bool) : UnpackOptions :=
  ⟨str ['o'], downloadOnly, false, .http P.outDir, ⟨fun _ => none, fun _ => none, fun _ => none⟩, []⟩

/-- What is read of this tree. -/
theorem letterTree_read {f : FileEntry} {d : Bytes} (h : contentOf letterTree.toDisk f = some d) :
    d ∈ [[], letters, [0x61]] := by
  have hfind : ∃ e : CString × Stat × Bytes, e.2.2 ∈ [[], letters, [0x61]] ∧ e.2.2 = d := by
    unfold contentOf at h
    split at h <;>
    · obtain ⟨e, he, hd⟩ := Option.map_eq_some_iff.1 h
      have hmem := List.mem_of_find?_eq_some he
      simp only [List.mem_cons, List.not_mem_nil, or_false] at hmem
      refine ⟨e, ?_, hd⟩
      rcases hmem with rfl | rfl | rfl | rfl | rfl | rfl <;> simp
  obtain ⟨e, he, rfl⟩ := hfind
  exact he

theorem letterTree_deflates {d : Bytes} (h : d ∈ [[], letters, [0x61]]) : letterTreeEnv.Deflates d := by
  intro z hz
  have hcheck : ∀ d ∈ [[], letters, [0x61]], (converted letterTreeEnv .zcompress d).passes (fun z =>
      z ≠ [] ∧ z.length < 2 ^ 32 ∧ converted letterTreeEnv .zuncompress z = .ok d) = true ∨
        ∀ z, converted letterTreeEnv .zcompress d ≠ .ok z := by
    intro d hd
    simp only [List.mem_cons, List.not_mem_nil, or_false] at hd
    rcases hd with rfl | rfl | rfl
    · refine .inr fun z hz => ?_
      have hfail : converted letterTreeEnv .zcompress [] = .error (.assertion "res == Z_OK || res == Z_STREAM_END") := by
        decide +kernel
      rw [hfail] at hz
      cases hz
    · exact .inl (by decide +kernel)
    · exact .inl (by decide +kernel)
  have hpasses := (hcheck d h).resolve_right fun h => h z hz
  rw [hz] at hpasses
  exact of_decide_eq_true hpasses

/-- The entry of the file of letters. -/
def letterTreeFile : FileEntry :=
  ⟨letterPath, ⟨2, 0o100644, 0, 0, 0, 32, 7⟩, 11, ⟨32, hashtypeSha1, lettersDigest⟩, false, -1⟩

/-- A regular file of a size, and of a size when it is compressed. -/
def fileOfSizes (stSize : ℕ) (zsize : UInt32) : FileEntry :=
  { letterTreeFile with st := ⟨2, 0o100644, 0, 0, 0, stSize, 7⟩, zsize := zsize }

end Sfmf
