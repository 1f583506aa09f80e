import Sfmf.Proof.Inodes
import Sfmf.Proof.Truncated

/-!
# Hard links through the packer and the unpacker

The packer takes two regular files for one if they have the same content and the
same inode number; it does not look at empty files, nor at the device.

* `packMain_links`: the references a run has marked.
* `EntriesOf.sameInode_iff`: two entries are unpacked as one file exactly if they were
  taken for one.
* `LinksTold`: the trees on which that is the right answer.
* `links_restored_iff`: on exactly these the unpacked tree has the links of the original.
-/

namespace Sfmf

variable {E : Env} {opts : PackOptions} {metaFile : Bytes} {outDir : Dir} {walk : List CString} {P : Packed}

/-! ## What is marked -/

/-- **The references a run has marked.** -/
theorem packMain_links {D : SourceTree} (h : packMain E D.toDisk opts metaFile outDir walk = .ok P) :
    ∀ (i : ℕ) (f : FileEntry), P.files[i]? = some f → LastLink P.files i i f f.hardlinkIndex := by
  obtain ⟨files, cutoff, blobs, packs, hfiles, hok⟩ := packMain_files h
  exact markDuplicates_links hok.marked fun f hf => ((getFileList_ok hfiles).1 f hf).2

/-- What the names of a file have in common: an empty file has this one only. -/
def linkKey (i : ℕ) (f : FileEntry) : (SfmfFileHash × ℕ) ⊕ ℕ := if Stored f then .inl (f.hash, f.st.stIno) else .inr i

theorem linkKey_eq {i j : ℕ} {f g : FileEntry} (hij : i ≠ j) : linkKey i f = linkKey j g ↔ LinkOf f g := by
  unfold linkKey LinkOf
  by_cases hf : Stored f
  · by_cases hg : Stored g
    · rw [if_pos hf, if_pos hg, Sum.inl.injEq, Prod.mk.injEq]
      exact ⟨fun h => ⟨hf, hg, h⟩, fun h => h.2.2⟩
    · rw [if_pos hf, if_neg hg]
      exact ⟨fun h => (by cases h), fun h => absurd h.2.1 hg⟩
  · rw [if_neg hf]
    refine ⟨fun h => ?_, fun h => absurd h.1 hf⟩
    split at h
    · cases h
    · exact absurd (Sum.inr.inj h) hij

theorem LinkOf.trans {f g k : FileEntry} (h : LinkOf f g) (h' : LinkOf g k) : LinkOf f k :=
  ⟨h.1, h'.2.1, h.2.2.1.trans h'.2.2.1, h.2.2.2.trans h'.2.2.2⟩

theorem LinkOf.symm {f g : FileEntry} (h : LinkOf f g) : LinkOf g f := ⟨h.2.1, h.1, h.2.2.1.symm, h.2.2.2.symm⟩

/-- Two names with a later name of the file in common. -/
theorem LinkOf.right {f g k : FileEntry} (h : LinkOf f k) (h' : LinkOf g k) : LinkOf f g := h.trans h'.symm

/-! ## What is unpacked -/

/-- **The entries of an unpacker** that has read the manifest of these files. -/
structure EntriesOf (opts : PackOptions) (files : List FileEntry) (m : Manifest) (us : List UnpackFileEntry) : Prop where
  length : us.length = files.length
  bounded : files.length < 2 ^ 32
  entry : ∀ (i : ℕ) (f : FileEntry), files[i]? = some f → ∃ u, us[i]? = some u ∧ EntryReadsBack opts m f u.entry ∧
    ∃ name, getFileBasename opts.inDir f.filename = .ok name ∧ m.filenameAt u.entry.filenameOffset = .ok name

/-- The manifest of a run is read back as far as its file entries go. -/
theorem PackedLists.entriesOf {r : Regions} (W : PackedLists opts P r) (hlen : P.manifest.length < 2 ^ 32) {m : Manifest}
    (hm : readManifest P.manifest = .ok m) {U : UnpackOptions} {us : List UnpackFileEntry}
    (hus : List.Forall₂ (EntryClassified U m) m.fentries us) : EntriesOf opts P.files m us := by
  obtain ⟨rest, hbytes⟩ := W.bytes
  rw [readManifest_regions W.regions W.metadata W.nonempty hbytes hlen, Except.ok.injEq] at hm
  have htable : m.filenameTable = filenameTable r.names := by rw [← hm]
  have hread : m.fentries = r.entries := by rw [← hm]
  rw [hread] at hus
  have hentries := W.regions.entries_length
  have hlength := hus.length_eq
  refine ⟨hlength.symm.trans hentries, ?_, fun i f hf => ?_⟩
  · rw [← hentries, ← (W.regions.sized (W.head_lt hlen)).entriesLength]
    exact UInt32.toNat_lt _
  · obtain ⟨e, he, hback⟩ := W.regions.entry (W.names_lt hlen) htable hf
    obtain ⟨hi, rfl⟩ := List.getElem?_eq_some_iff.1 he
    have hi' : i < us.length := hlength ▸ hi
    have hentry : us[i].entry = r.entries[i] := (hus.get hi hi').entry
    exact ⟨us[i], List.getElem?_eq_getElem hi', by rw [hentry]; exact hback, by rw [hentry]; exact hback.filename⟩

section

variable {files : List FileEntry} {m : Manifest} {us : List UnpackFileEntry} (I : EntriesOf opts files m us)
  (hdedup : Deduplicated files)
  (hlast : ∀ (i : ℕ) (f : FileEntry), files[i]? = some f → LastLink files i i f f.hardlinkIndex)

include I hlast

/-- The entry of a file that is a hard link refers to another name of the file. -/
theorem EntriesOf.refersTo {j : ℕ} {g : FileEntry} {v : UnpackFileEntry} (hg : files[j]? = some g) (hv : us[j]? = some v)
    (hlink : v.entry.type = entryHardlink) : ∃ l < j, v.entry.dev.toNat = l ∧ ∃ f, files[l]? = some f ∧ LinkOf f g ∧
      ∀ k < j, l < k → ∀ f', files[k]? = some f' → ¬ LinkOf f' g := by
  obtain ⟨w, hw, hback, _⟩ := I.entry j g hg
  rw [hv, Option.some.injEq] at hw
  subst hw
  obtain ⟨_, hhard⟩ := (manifestEntryType_hardlink hback.type).1 hlink
  obtain ⟨l, hlj, _, hidx, ⟨f, hf, hlf⟩, _, hafter⟩ := (hlast j g hg).some hhard.2
  have hl : l < files.length := (List.getElem?_eq_some_iff.1 hf).1
  have hbounded := I.bounded
  have hdev := hback.hardlinkIndex hhard (by omega) (by omega)
  rw [hidx, Nat.cast_inj] at hdev
  exact ⟨l, hlj, hdev, f, hf, hlf, fun k hk hlk f' hf' => hafter k hk hlk hk f' hf'⟩

include hdedup

/-- A file with an earlier name is unpacked as a hard link. -/
theorem EntriesOf.hardlink {i j : ℕ} {f g : FileEntry} {v : UnpackFileEntry} (hij : i < j) (hf : files[i]? = some f)
    (hg : files[j]? = some g) (hv : us[j]? = some v) (hlink : LinkOf f g) : v.entry.type = entryHardlink := by
  obtain ⟨w, hw, hback, _⟩ := I.entry j g hg
  rw [hv, Option.some.injEq] at hw
  subst hw
  have hidx : g.hardlinkIndex ≠ -1 := fun hn => (hlast j g hg).none hn i hij hij f hf hlink
  obtain ⟨_, _, _, _, _, hreg, _⟩ := (hlast j g hg).some hidx
  have hdup := (hdedup.duplicate j g hg).2 ⟨i, hij, f, hf, hlink.1, hlink.2.1, hlink.2.2.1⟩
  exact (manifestEntryType_hardlink hback.type).2 ⟨hreg, hdup, hidx⟩

variable {Loc : Type} [DecidableEq Loc] {N : Naming Loc} {U : UnpackOptions} {d : Bytes} {cache : Dir} {fs fs' : FS Loc}
  (hrun : us.foldlM (unpackWriteEntry E N U d m cache) fs = .ok fs') (htargets : LinkTargets U m us)

include hrun htargets

/-- **The names of a file are unpacked as names of a file**: each refers to the one before it. -/
theorem EntriesOf.linked {j : ℕ} : ∀ {i : ℕ} {f g : FileEntry} {u v : UnpackFileEntry}, i < j → files[i]? = some f →
    files[j]? = some g → us[i]? = some u → us[j]? = some v → LinkOf f g →
    ∃ a, fs'.ent (N.resolve u.targetFilename) = some a ∧ fs'.ent (N.resolve v.targetFilename) = some a := by
  induction j using Nat.strongRecOn with
  | ind j ih =>
    intro i f g u v hij hf hg hu hv hlink
    have htype := I.hardlink hdedup hlast hij hf hg hv hlink
    obtain ⟨a, ha, hsource⟩ := writeEntries_linked hrun htargets v (List.mem_of_getElem? hv)
    obtain ⟨w, hw, hwa⟩ := hsource htype
    obtain ⟨l, hlj, hdev, k, hk, hkg, hafter⟩ := I.refersTo hlast hg hv htype
    rw [hdev] at hw
    by_cases hil : i = l
    · subst hil
      rw [hu, Option.some.injEq] at hw
      subst hw
      exact ⟨a, hwa, ha⟩
    · -- the last name in front is behind the `i`-th, and was linked to it
      have hil : i < l := by
        by_contra hli
        exact hafter i hij (by omega) f hf hlink
      obtain ⟨b, hb, hwb⟩ := ih l hlj hil hf hk hu hw (hlink.right hkg)
      rw [hwa, Option.some.injEq] at hwb
      subst hwb
      exact ⟨a, hb, ha⟩

/-- **Two entries are unpacked as one file exactly if they were taken for one.** -/
theorem EntriesOf.sameInode_iff (hdist : (us.map fun u => N.resolve u.targetFilename).Nodup)
    (hfresh : Unshared fs (us.map fun u => N.resolve u.targetFilename)) {i j : ℕ} {f g : FileEntry}
    {u v : UnpackFileEntry} (hij : i ≠ j) (hf : files[i]? = some f) (hg : files[j]? = some g) (hu : us[i]? = some u)
    (hv : us[j]? = some v) :
    (∃ a, fs'.ent (N.resolve u.targetFilename) = some a ∧ fs'.ent (N.resolve v.targetFilename) = some a) ↔
      LinkOf f g := by
  constructor
  · rintro ⟨a, ha, hb⟩
    have hloc := locations_injective hdist
    have hget : ∀ k : Fin us.length, files[k.val]? = some (files.get ⟨k.val, I.length ▸ k.isLt⟩) := fun k =>
      List.getElem?_eq_getElem _
    have hkeyed := writeEntries_keyed hrun htargets
      (fun k : Fin us.length => linkKey k (files.get ⟨k.val, I.length ▸ k.isLt⟩)) hloc (fun k l htype hdev => ?_) (hfresh.keyed hloc _)
    · obtain ⟨hi, rfl⟩ := List.getElem?_eq_some_iff.1 hu
      obtain ⟨hj, rfl⟩ := List.getElem?_eq_some_iff.1 hv
      have hkey := hkeyed ⟨i, hi⟩ ⟨j, hj⟩ a ha hb
      simp only [List.get_eq_getElem] at hkey
      rw [(List.getElem?_eq_some_iff.1 hf).2, (List.getElem?_eq_some_iff.1 hg).2] at hkey
      exact (linkKey_eq hij).1 hkey
    · obtain ⟨l', hl', hdev', f', hf', hlink, _⟩ := I.refersTo hlast (hget k) (List.getElem?_eq_getElem k.isLt) htype
      have hll : l' = l.val := hdev'.symm.trans hdev
      subst hll
      rw [hget l, Option.some.injEq] at hf'
      exact (linkKey_eq (by omega)).2 (hf' ▸ hlink.symm)
  · intro hlink
    rcases Nat.lt_or_gt_of_ne hij with hlt | hgt
    · exact I.linked hdedup hlast hrun htargets hlt hf hg hu hv hlink
    · obtain ⟨a, hb, ha⟩ := I.linked hdedup hlast hrun htargets hgt hg hf hv hu hlink.symm
      exact ⟨a, ha, hb⟩

end

/-! ## Trees on several devices -/

/-- A tree whose files are on devices: what has the same device and inode number is one file, with one
content. -/
structure DeviceTree extends SourceTree where
  stDev : CString → UInt64
  oneFile : ∀ {p q st st'}, lstat p = some st → lstat q = some st' → stDev p = stDev q → st.stIno = st'.stIno →
    st' = st ∧ fopen q = fopen p

/-- Two names of one file: `st_dev` and `st_ino` are equal. -/
def DeviceTree.SameFile (D : DeviceTree) (p q : CString) : Prop :=
  ∃ st st', D.lstat p = some st ∧ D.lstat q = some st' ∧ D.stDev p = D.stDev q ∧ st.stIno = st'.stIno

/-- A path of a regular file. -/
def IsRegular (D : Disk) (p : CString) : Prop := ∃ st, D.lstat p = some st ∧ sIsreg st.stMode

/-- The hash of the content that is read through a path. -/
def hashAt (E : Env) (D : Disk) (p : CString) : Option SfmfFileHash := (D.fopen p).map (hashOf E)

/-- What the packer takes for two names of one file: nonempty files with the same hash and the same `st_ino`. -/
def TakenForOne (E : Env) (D : Disk) (p q : CString) : Prop :=
  ∃ st st', D.lstat p = some st ∧ D.lstat q = some st' ∧ st.stSize ≠ 0 ∧ st'.stSize ≠ 0 ∧ hashAt E D p = hashAt E D q ∧
    st.stIno = st'.stIno

/-- **The unpacked tree has the links of the original**: the targets of two regular files are the same inode
if and only if these are one file. -/
def LinksRestored {Loc : Type} (D : DeviceTree) (inDir : CString) (walk : List CString) (N : Naming Loc)
    (outputdir : Bytes) (fs : FS Loc) : Prop :=
  ∀ p ∈ walk, ∀ q ∈ walk, IsRegular D.toDisk p → IsRegular D.toDisk q → ∀ a b, getFileBasename inDir p = .ok a →
    getFileBasename inDir q = .ok b →
    ((∃ i, fs.ent (N.resolve (outputdir ++ a)) = some i ∧ fs.ent (N.resolve (outputdir ++ b)) = some i) ↔ D.SameFile p q)

/-- **A tree whose links can be told** from contents and inode numbers: no empty file has two names, and no
two files of one content have the same inode number on different devices. -/
structure LinksTold (E : Env) (D : DeviceTree) (walk : List CString) : Prop where
  nonempty : ∀ p ∈ walk, ∀ q ∈ walk, p ≠ q → D.SameFile p q → ∀ st, D.lstat p = some st → sIsreg st.stMode →
    st.stSize ≠ 0
  devices : ∀ p ∈ walk, ∀ q ∈ walk, D.stDev p ≠ D.stDev q → ∀ st st', D.lstat p = some st → D.lstat q = some st' →
    sIsreg st.stMode → sIsreg st'.stMode → st.stIno = st'.stIno → st.stSize ≠ 0 → st'.stSize ≠ 0 →
    hashAt E D.toDisk p ≠ hashAt E D.toDisk q

/-- What `mark_duplicates` finds of regular files. -/
theorem linkOf_regular {D : SourceTree} {f g : FileEntry} (hf : Listed E D f) (hg : Listed E D g)
    (hrf : sIsreg f.st.stMode) (hrg : sIsreg g.st.stMode) :
    LinkOf f g ↔ TakenForOne E D.toDisk f.filename g.filename := by
  have hstored : ∀ {f : FileEntry}, sIsreg f.st.stMode → (Stored f ↔ f.st.stSize ≠ 0) := fun hr =>
    ⟨fun hs h0 => hs (.inl h0), fun h0 hskip => hskip.elim h0 fun hn => hn (.inl hr)⟩
  have hhash : ∀ {f : FileEntry}, Listed E D f → sIsreg f.st.stMode → f.st.stSize ≠ 0 →
      hashAt E D.toDisk f.filename = some f.hash := by
    intro f hf hr h0
    obtain ⟨d, hd, _, hh⟩ := hf.stored ((hstored hr).2 h0)
    rw [contentOf, if_neg (sIsreg_not_sIslnk hr)] at hd
    rw [hashAt, hd, hh, Option.map_some]
  unfold LinkOf
  rw [hstored hrf, hstored hrg]
  constructor
  · rintro ⟨h0, h0', hh, hino⟩
    exact ⟨f.st, g.st, hf.lstat, hg.lstat, h0, h0', by rw [hhash hf hrf h0, hhash hg hrg h0', hh], hino⟩
  · rintro ⟨st, st', hst, hst', h0, h0', hh, hino⟩
    rw [hf.lstat, Option.some.injEq] at hst
    rw [hg.lstat, Option.some.injEq] at hst'
    subst hst hst'
    rw [hhash hf hrf h0, hhash hg hrg h0', Option.some.injEq] at hh
    exact ⟨h0, h0', hh, hino⟩

/-- Every regular file of the walk has an entry. -/
theorem packMain_regular {D : SourceTree} (h : packMain E D.toDisk opts metaFile outDir walk = .ok P) {p : CString}
    (hp : p ∈ walk) (hreg : IsRegular D.toDisk p) : ∃ (i : ℕ) (f : FileEntry), P.files[i]? = some f ∧ f.filename = p ∧
      Listed E D f ∧ sIsreg f.st.stMode := by
  obtain ⟨_, hlisted, _, hnames⟩ := packMain_ok h
  obtain ⟨st, hst, hr⟩ := hreg
  have hkeeps : keeps D.toDisk p = true := by
    have hsock : ¬ sIssock st.stMode := fun hs => absurd (hasType_inj hr hs) (by decide)
    simp [keeps, hst, hsock]
  have hmem : p ∈ P.files.map (·.filename) := by
    rw [hnames]
    exact List.mem_filter.2 ⟨hp, hkeeps⟩
  obtain ⟨f, hf, rfl⟩ := List.mem_map.1 hmem
  obtain ⟨i, hi⟩ := List.getElem?_of_mem hf
  refine ⟨i, f, hi, rfl, hlisted f hf, ?_⟩
  rw [(hlisted f hf).lstat, Option.some.injEq] at hst
  rwa [hst]

/-! ## The whole way -/

section

variable {D : DeviceTree} (h : packMain E D.toDisk opts metaFile outDir walk = .ok P) (hE : E.NoReflink)
  (hlen : P.manifest.length < 2 ^ 32) {E' : Env} {Loc : Type} [DecidableEq Loc] {N : Naming Loc} {U : UnpackOptions}
  {cache : Dir} {fs : FS Loc} {r : Unpacked Loc} (hr : unpackMain E' N U cache fs = .ok r)
  (hdata : r.classified.data = P.manifest) (hfull : U.downloadOnly = false)
  (hdist : (r.classified.entries.map fun u => N.resolve u.targetFilename).Nodup)
  (hfresh : Unshared fs (r.classified.entries.map fun u => N.resolve u.targetFilename))

include h hE hlen hr hdata hfull hdist hfresh

/-- **Which regular files are unpacked as one**: those under one path, and those that were taken for one. -/
theorem unpacked_sameInode_iff {p q : CString} (hp : p ∈ walk) (hq : q ∈ walk) (hpr : IsRegular D.toDisk p)
    (hqr : IsRegular D.toDisk q) {a b : Bytes} (ha : getFileBasename opts.inDir p = .ok a)
    (hb : getFileBasename opts.inDir q = .ok b) :
    (∃ i, r.fs.ent (N.resolve (U.outputdir ++ a)) = some i ∧ r.fs.ent (N.resolve (U.outputdir ++ b)) = some i) ↔
      p = q ∨ TakenForOne E D.toDisk p q := by
  obtain ⟨_, W⟩ := packMain_lists h hE
  obtain ⟨fs₁, V⟩ := unpackMain_ok hr hfull
  have hclass := V.classified
  have I := W.entriesOf hlen (hdata ▸ V.manifest) hclass
  have htargets := EntryClassified.linkTargets hclass
  -- the entries of the two paths
  have hentry : ∀ {p : CString} {a : Bytes}, p ∈ walk → IsRegular D.toDisk p → getFileBasename opts.inDir p = .ok a →
      ∃ (i : ℕ) (f : FileEntry) (u : UnpackFileEntry), P.files[i]? = some f ∧ r.classified.entries[i]? = some u ∧ f.filename = p ∧
        Listed E D.toSourceTree f ∧ sIsreg f.st.stMode ∧ u.targetFilename = U.outputdir ++ a := by
    intro p a hp hpr ha
    obtain ⟨i, f, hf, rfl, hlisted, hreg⟩ := packMain_regular h hp hpr
    obtain ⟨u, hu, _, name, hname, hat⟩ := I.entry i f hf
    have hna : name = a := Except.ok.inj (hname.symm.trans ha)
    subst hna
    obtain ⟨hi, rfl⟩ := List.getElem?_eq_some_iff.1 hu
    have hi' : i < r.classified.manifest.fentries.length := hclass.length_eq ▸ hi
    have hcu := hclass.get hi' hi
    obtain ⟨name', hname', htarget⟩ := hcu.target
    have hentry : r.classified.entries[i].entry = r.classified.manifest.fentries[i] := hcu.entry
    simp only [List.get_eq_getElem] at hname' htarget
    rw [← hentry, hat, Except.ok.injEq] at hname'
    exact ⟨i, f, _, hf, hu, rfl, hlisted, hreg, by rw [htarget, hname']⟩
  obtain ⟨i, f, u, hf, hu, rfl, hlf, hrf, htu⟩ := hentry hp hpr ha
  obtain ⟨j, g, v, hg, hv, rfl, hlg, hrg, htv⟩ := hentry hq hqr hb
  rw [← htu, ← htv, V.sameTree.ent, ← linkOf_regular hlf hlg hrf hrg]
  by_cases hij : i = j
  · subst hij
    rw [hf, Option.some.injEq] at hg
    rw [hu, Option.some.injEq] at hv
    subst hg hv
    obtain ⟨n, hn, _⟩ := writeEntries_linked V.write htargets u (List.mem_of_getElem? hu)
    exact ⟨fun _ => .inl rfl, fun _ => ⟨n, hn, hn⟩⟩
  rw [I.sameInode_iff W.deduplicated (packMain_links h) V.write htargets hdist hfresh hij hf hg hu hv]
  refine ⟨.inr, fun hcase => hcase.resolve_left fun hpq => ?_⟩
  -- one path has one location
  rw [hpq, hb, Except.ok.injEq] at ha
  obtain ⟨hi, rfl⟩ := List.getElem?_eq_some_iff.1 hu
  obtain ⟨hj, rfl⟩ := List.getElem?_eq_some_iff.1 hv
  have heq : (⟨i, hi⟩ : Fin r.classified.entries.length) = ⟨j, hj⟩ :=
    locations_injective hdist (by simp only [Fin.getElem_fin, htu, htv, ha])
  exact hij (Fin.mk.inj heq)

end

/-! ## Two trees on one device -/

theorem Disk.ofList_oneFile {entries : List (CString × Stat × Bytes)}
    (h : ∀ e ∈ entries, ∀ e' ∈ entries, e.2.1.stIno = e'.2.1.stIno → e'.2 = e.2) {p q : CString} {st st' : Stat}
    (hst : (Disk.ofList entries).lstat p = some st) (hst' : (Disk.ofList entries).lstat q = some st')
    (hino : st.stIno = st'.stIno) :
    st' = st ∧ (Disk.ofList entries).fopen q = (Disk.ofList entries).fopen p := by
  obtain ⟨e, he, rfl⟩ := Option.map_eq_some_iff.1 hst
  obtain ⟨e', he', rfl⟩ := Option.map_eq_some_iff.1 hst'
  have heq := h e (List.mem_of_find?_eq_some he) e' (List.mem_of_find?_eq_some he') hino
  refine ⟨by rw [heq], ?_⟩
  have hq : (Disk.ofList entries).fopen q = some e'.2.2 := Option.map_eq_some_iff.2 ⟨e', he', rfl⟩
  have hp : (Disk.ofList entries).fopen p = some e.2.2 := Option.map_eq_some_iff.2 ⟨e, he, rfl⟩
  rw [hq, hp, heq]

/-- The tree of letters, on one device. -/
def letterDeviceTree : DeviceTree where
  toSourceTree := letterTree
  stDev _ := 0
  oneFile hst hst' _ hino := Disk.ofList_oneFile (by decide) hst hst' hino

theorem letterDeviceTree_told : LinksTold letterTreeEnv letterDeviceTree letterWalk := by
  have hempty : ∀ p ∈ letterWalk, ∀ q ∈ letterWalk, p ≠ q →
      (letterTree.lstat p).map (·.stIno) = (letterTree.lstat q).map (·.stIno) →
      (letterTree.lstat p).all fun st => st.stSize ≠ 0 := by decide +kernel
  constructor
  · rintro p hp q hq hpq ⟨st, st', hst, hst', _, hino⟩ st₁ hst₁ _
    have hst : letterTree.lstat p = some st := hst
    have hst' : letterTree.lstat q = some st' := hst'
    have hst₁ : letterTree.lstat p = some st₁ := hst₁
    have h0 := hempty p hp q hq hpq (by rw [hst, hst', Option.map_some, Option.map_some, hino])
    rw [hst₁] at h0
    simpa using h0
  · exact fun p _ q _ hdev => absurd rfl hdev

/-- `d/y`. -/
def emptyPath : CString := ⟨str ['d', '/', 'y'], by decide⟩

/-- `d/z`. -/
def emptyLink : CString := ⟨str ['d', '/', 'z'], by decide⟩

/-- A tree: a directory with a file of 32 letters, and an empty file under two names. -/
def emptyLinkTree : DeviceTree where
  toSourceTree := .ofList [
    (letterDir, ⟨1, 0o040755, 0, 0, 0, 64, 7⟩, []),
    (letterPath, ⟨2, 0o100644, 0, 0, 0, 32, 7⟩, letters),
    (emptyPath, ⟨4, 0o100644, 0, 0, 0, 0, 7⟩, []),
    (emptyLink, ⟨4, 0o100644, 0, 0, 0, 0, 7⟩, [])] (by decide) (by decide)
  stDev _ := 0
  oneFile hst hst' _ hino := Disk.ofList_oneFile (by decide) hst hst' hino

end Sfmf
