import Sfmf.Proof.Contents
import Sfmf.Proof.Verified

/-!
# Trees that are written

* `TreeWalk`: the order in which `nftw` visits a tree.
* `PackRun.listedBelow`: a file that is listed is in a directory listed before.
* `PackRun.writeEntry_restores`: the writing of an entry restores the file.
* `Restoring`: the invariant of the loop over the entries.
* `PackRun.writeEntries_restores`: that loop restores the tree.
-/

namespace Sfmf

variable {E : Env} {D : SourceTree} {opts : PackOptions} {metaFile : Bytes} {outDir : Dir} {walk : List CString}
  {P : Packed} {m : Manifest} {U : UnpackOptions}

/-! ## Trees -/

/-- Whether a path is that of a directory. -/
def IsDirectory (D : Disk) (p : CString) : Prop := ∃ st, D.lstat p = some st ∧ sIsdir st.stMode

/-- **The order in which `nftw` visits a tree**: its root first, and any other path after that of the
directory it is in. -/
inductive TreeWalk (D : Disk) (inDir : CString) : List CString → Prop
  | root : IsDirectory D inDir → TreeWalk D inDir [inDir]
  | visit {walk : List CString} {q p : CString} {c : Bytes} : TreeWalk D inDir walk → q ∈ walk → IsDirectory D q →
      Component c → p.val = q.val ++ slash :: c → p ∉ walk → TreeWalk D inDir (walk ++ [p])

theorem TreeWalk.nodup {D : Disk} {inDir : CString} {walk : List CString} (W : TreeWalk D inDir walk) : walk.Nodup := by
  induction W with
  | root _ => simp
  | visit _ _ _ _ _ hp ih => exact List.nodup_append'.2 ⟨ih, List.nodup_singleton _, List.disjoint_singleton.2 hp⟩

/-- Every path leads down from the root. -/
theorem TreeWalk.leadsDown {D : Disk} {inDir : CString} {walk : List CString} (W : TreeWalk D inDir walk) {p : CString}
    (hp : p ∈ walk) : ∃ cs, (∀ c ∈ cs, Component c) ∧ p.val = inDir.val ++ pathOf cs := by
  induction W generalizing p with
  | root _ => exact ⟨[], by simp, by rw [List.mem_singleton.1 hp]; simp⟩
  | @visit walk q p' c _ hq _ hc hval _ ih =>
    rcases List.mem_append.1 hp with hp | hp
    · exact ih hp
    · obtain ⟨cs, hcs, hqv⟩ := ih hq
      refine ⟨cs ++ [c], fun c' hc' => ?_, by rw [List.mem_singleton.1 hp, hval, hqv, pathOf_append, List.append_assoc]⟩
      rcases List.mem_append.1 hc' with h | h
      · exact hcs c' h
      · rw [List.mem_singleton.1 h]; exact hc

/-- **What was visited before a path**: its directory, unless it is the root. -/
theorem TreeWalk.parent {D : Disk} {inDir : CString} {walk : List CString} (W : TreeWalk D inDir walk) :
    ∀ {done rest : List CString} {p : CString}, walk = done ++ p :: rest → (p = inDir ∧ IsDirectory D p) ∨
      ∃ q ∈ done, IsDirectory D q ∧ ∃ cs c, (∀ c' ∈ cs ++ [c], Component c') ∧ q.val = inDir.val ++ pathOf cs ∧
        p.val = inDir.val ++ pathOf (cs ++ [c]) := by
  induction W with
  | root hdir =>
    intro done rest p h
    cases done with
    | nil => obtain ⟨rfl, _⟩ := List.cons.inj h; exact .inl ⟨rfl, hdir⟩
    | cons a done => simp at h
  | @visit walk q p' c W hq hdir hc hval _ ih =>
    intro done rest p h
    rcases List.eq_nil_or_concat rest with rfl | ⟨rest', a, rfl⟩
    · obtain ⟨rfl, hp⟩ := List.append_inj' h rfl
      obtain ⟨rfl, _⟩ := List.cons.inj hp
      obtain ⟨cs, hcs, hqv⟩ := W.leadsDown hq
      refine .inr ⟨q, hq, hdir, cs, c, fun c' hc' => ?_, hqv, by rw [hval, hqv, pathOf_append, List.append_assoc]⟩
      rcases List.mem_append.1 hc' with h | h
      · exact hcs c' h
      · rw [List.mem_singleton.1 h]; exact hc
    · rw [List.concat_eq_append, ← List.cons_append, ← List.append_assoc] at h
      exact ih (List.append_inj' h rfl).1

theorem getFileBasename_root (inDir : CString) : getFileBasename inDir inDir = .ok (str ['/']) := if_pos rfl

theorem getFileBasename_below {inDir p : CString} {cs : List Bytes} (hne : cs ≠ [])
    (h : p.val = inDir.val ++ pathOf cs) : getFileBasename inDir p = .ok (pathOf cs) := by
  obtain ⟨c, cs, rfl⟩ := List.exists_cons_of_ne_nil hne
  have hpath : pathOf (c :: cs) = slash :: (c ++ pathOf cs) := rfl
  have hlen : p.val.length > inDir.val.length := by
    rw [h, hpath, List.length_append, List.length_cons]
    omega
  have hval : p.val ≠ inDir.val := fun he => by rw [he] at hlen; exact lt_irrefl _ hlen
  rw [getFileBasename, if_neg hval, cAssert_pos hlen, ok_bind, h, List.drop_left, hpath]
  rfl

/-- What is at the place of a file that was restored. -/
structure Restored (D : Disk) (f : FileEntry) (n : Node) : Prop where
  regular : sIsreg f.st.stMode → ∃ d, D.fopen f.filename = some d ∧ n = .file d
  symlink : sIslnk f.st.stMode → ∃ t, D.readlink f.filename = some t ∧ n = .symlink t
  directory : sIsdir f.st.stMode → n = .directory

section

variable (R : PackRun E D opts metaFile outDir walk P)

include R

/-- **Where a file is in the tree**: it is the root, or in a directory that was listed before it. -/
theorem PackRun.listedBelow (W : TreeWalk D.toDisk opts.inDir walk) {k : ℕ} {f : FileEntry}
    (hf : P.files[k]? = some f) : (f.filename = opts.inDir ∧ sIsdir f.st.stMode) ∨
      ∃ (j : ℕ) (g : FileEntry), j < k ∧ P.files[j]? = some g ∧ sIsdir g.st.stMode ∧ ∃ cs c,
        (∀ c' ∈ cs ++ [c], Component c') ∧ g.filename.val = opts.inDir.val ++ pathOf cs ∧
        f.filename.val = opts.inDir.val ++ pathOf (cs ++ [c]) := by
  have hnames := (packMain_ok R.run).2.2.2
  obtain ⟨hk, rfl⟩ := List.getElem?_eq_some_iff.1 hf
  have hsplit : P.files = P.files.take k ++ P.files[k] :: P.files.drop (k + 1) := by
    rw [← List.drop_eq_getElem_cons hk, List.take_append_drop]
  rw [hsplit, List.map_append, List.map_cons] at hnames
  obtain ⟨done, rest, hwalk, hdone, hrest⟩ := List.filter_eq_append_iff.1 hnames.symm
  obtain ⟨skipped, rest', hrest', hskipped, _, _⟩ := List.filter_eq_cons_iff.1 hrest
  rw [hrest', ← List.append_assoc] at hwalk
  have hdir : ∀ {g : FileEntry}, g ∈ P.files → IsDirectory D.toDisk g.filename → sIsdir g.st.stMode := by
    rintro g hg ⟨st, hst, hd⟩
    rw [(R.listed hg).lstat, Option.some.injEq] at hst
    rwa [hst]
  rcases W.parent hwalk with ⟨hroot, hd⟩ | ⟨q, hq, hd, cs, c, hcs, hqv, hpv⟩
  · exact .inl ⟨hroot, hdir (List.getElem_mem hk) hd⟩
  · -- the directory has an entry
    have hkeeps : keeps D.toDisk q = true := by
      obtain ⟨st, hst, hd⟩ := hd
      have hsock : ¬ sIssock st.stMode := fun hs => absurd (hasType_inj hd hs) (by decide)
      simp [keeps, hst, hsock]
    have hmem : q ∈ (P.files.take k).map (·.filename) := by
      rw [← hdone]
      rcases List.mem_append.1 hq with hq | hq
      · exact List.mem_filter.2 ⟨hq, hkeeps⟩
      · exact absurd hkeeps (hskipped q hq)
    obtain ⟨g, hg, rfl⟩ := List.mem_map.1 hmem
    obtain ⟨j, hj, rfl⟩ := List.getElem_of_mem hg
    have hjk : j < k := by rw [List.length_take] at hj; omega
    refine .inr ⟨j, _, hjk, ?_, hdir (List.mem_of_mem_take hg) hd, cs, c, hcs, hqv, hpv⟩
    rw [← List.getElem?_take_of_lt hjk, List.getElem?_eq_getElem hj]

/-- Files have different names. -/
theorem PackRun.filename_inj (W : TreeWalk D.toDisk opts.inDir walk) {i j : ℕ} {f g : FileEntry}
    (hf : P.files[i]? = some f) (hg : P.files[j]? = some g) (h : f.filename = g.filename) : i = j := by
  have hnodup : (P.files.map (·.filename)).Nodup := by
    rw [(packMain_ok R.run).2.2.2]
    exact W.nodup.filter _
  obtain ⟨hi, rfl⟩ := List.getElem?_eq_some_iff.1 hf
  obtain ⟨hj, rfl⟩ := List.getElem?_eq_some_iff.1 hg
  have hi' : i < (P.files.map (·.filename)).length := by simpa using hi
  have hj' : j < (P.files.map (·.filename)).length := by simpa using hj
  have hij : (P.files.map (·.filename))[i] = (P.files.map (·.filename))[j] := by simpa using h
  exact hnodup.getElem_inj_iff.1 hij

variable (hcoll : E.NoCollision (StoredContent D.toDisk P))
  (hpacks : E.NoCollision (PackFileContent E D.toDisk (withMetadata opts metaFile) P))
  (hlinks : ∀ f ∈ P.files, ∀ g ∈ P.files, sIslnk f.st.stMode → sIsreg g.st.stMode →
    D.readlink f.filename ≠ D.fopen g.filename)

include hcoll hpacks hlinks in
/-- **The writing of an entry** at a vacant place of a directory does not fail, and restores the file. A
hard link needs the file it refers to. -/
theorem PackRun.writeEntry_restores {Loc : Type} [DecidableEq Loc] {N : Naming Loc} {f : FileEntry}
    {u : UnpackFileEntry} {cache : Dir} {fs : FS Loc}
    (RB : ReadsBack E D.toDisk (withMetadata opts metaFile) P.files P.packs P.buckets.includedFiles P.manifest m)
    (hf : f ∈ P.files) (hres : ResultFor P m f u.blobResult)
    (hhard : u.entry.type = entryHardlink ↔ u.blobResult = .hardlink)
    (hback : EntryReadsBack (withMetadata opts metaFile) m f u.entry)
    (hcache : ∀ name hash z, Requires u name hash z → cache name = P.outDir name)
    (hl : fs.ent (N.resolve u.targetFilename) = none)
    (hpar : fs.nodeAt (N.parent (N.resolve u.targetFilename)) = some .directory)
    (hlink : isHardlink f → sIsreg f.st.stMode → ∃ e name d, m.fentries[u.entry.dev.toNat]? = some e ∧
      m.filenameAt e.filenameOffset = .ok name ∧ D.fopen f.filename = some d ∧
      fs.nodeAt (N.resolve (U.outputdir ++ name)) = some (.file d)) :
    ∃ fs', unpackWriteEntry E N U P.manifest m cache fs u = .ok fs' ∧ FS.Grows (N.resolve u.targetFilename) fs fs' ∧
      ∃ n, fs'.nodeAt (N.resolve u.targetFilename) = some n ∧ Restored D.toDisk f n := by
  set l := N.resolve u.targetFilename with hldef
  -- the calls that make an inode
  have hmake : ∀ n, fs.create (N.parent l) l n = .ok (fs.make (N.parent l) l n) := fun n => FS.create_vacant n hl hpar
  have hadded : ∀ n, FS.Grows l fs (fs.make (N.parent l) l n) ∧ (fs.make (N.parent l) l n).nodeAt l = some n := fun n =>
    ⟨FS.grows_make (N.parent l) l n, FS.nodeAt_make (N.parent l) l n⟩
  have hother : ∀ n, ¬ sIsreg f.st.stMode → ¬ sIslnk f.st.stMode → ¬ sIsdir f.st.stMode → Restored D.toDisk f n :=
    fun _ hr hl hd => ⟨fun h => absurd h hr, fun h => absurd h hl, fun h => absurd h hd⟩
  have htypes : ∀ {t t' : UInt32}, hasType f.st.stMode t → t ≠ t' → ¬ hasType f.st.stMode t' := fun h hne h' =>
    hne (hasType_inj h h')
  unfold unpackWriteEntry
  rw [← hldef]
  rcases manifestEntryType_cases hback.type with ⟨hr, hlk, ht⟩ | ⟨hr, _, ht⟩ | ⟨hs, ht⟩ | ⟨hd, ht⟩ | ⟨hc, ht⟩ |
    ⟨hb, ht⟩ | ⟨hp, ht⟩
  · -- a hard link
    obtain ⟨e, name, d, he, hname, hopen, hnode⟩ := hlink hlk hr
    obtain ⟨i, hi, hni⟩ := Option.map_eq_some_iff.1 hnode
    obtain ⟨fs', hfs'⟩ := FS.link_vacant hi (by rw [hni]; simp) hl hpar
    obtain ⟨_, hgrows, j, hj, hent, _⟩ := FS.link_ok hfs'
    rw [hi, Option.some.injEq] at hj
    subst hj
    refine ⟨fs', ?_, hgrows, .file d, ?_, ⟨fun _ => ⟨d, hopen, rfl⟩, fun h => absurd h (sIsreg_not_sIslnk hr),
      fun h => absurd h (htypes hr (by decide))⟩⟩
    · simp only [ht, he, hname, hfs', hhard.1 ht, ok_bind, orExit, cAssert, if_true]
      rfl
    · rw [FS.nodeAt, hent, Option.map_some, hgrows.node i (fs.ent_lt hi), hni]
  · -- a regular file
    have hopen : fs.openWrite (N.parent l) l = .ok (fs.make (N.parent l) l (.file []), fs.next) := by
      rw [FS.openWrite_vacant hl, if_pos hpar]
    obtain ⟨d, hd, hw⟩ := R.writeBlobData_restores hcoll hpacks RB hf hr hres ht hback hcache hopen (U := U)
    refine ⟨_, ?_, FS.grows_fill (N.parent l) l d, .file d, FS.nodeAt_fill (N.parent l) l d, ⟨fun _ => ⟨d, hd, rfl⟩,
      fun h => absurd h (sIsreg_not_sIslnk hr), fun h => absurd h (htypes hr (by decide))⟩⟩
    rw [ht, if_neg (by decide), if_pos rfl]
    exact hw
  · -- a symlink
    obtain ⟨b, t, hb, hflags, hdata, hread, htake, hne⟩ := R.symlinkBlob hcoll RB hlinks hf hs hres
      (mt hhard.2 (by rw [ht]; decide))
    refine ⟨_, ?_, (hadded (.symlink t)).1, _, (hadded (.symlink t)).2, ⟨fun h => absurd h (sIslnk_not_sIsreg hs),
      fun _ => ⟨t, hread, rfl⟩, fun h => absurd h (htypes hs (by decide))⟩⟩
    rw [ht, if_neg (by decide), if_neg (by decide), if_pos rfl, hb]
    simp only [cAssert, hflags, if_true, hdata, ok_bind, htake, if_neg hne, hmake, orExit]
  · -- a directory
    obtain ⟨name, _, hat⟩ := hback.filename
    refine ⟨_, ?_, (hadded .directory).1, _, (hadded .directory).2, ⟨fun h => absurd h (htypes hd (by decide)),
      fun h => absurd h (htypes hd (by decide)), fun _ => rfl⟩⟩
    rw [ht, if_pos rfl, hat, ok_bind, hmake]
    rfl
  · refine ⟨_, ?_, (hadded _).1, _, (hadded (.device u.entry.mode u.entry.dev)).2,
      hother _ (htypes hc (by decide)) (htypes hc (by decide)) (htypes hc (by decide))⟩
    rw [ht, if_neg (by decide), if_neg (by decide), if_neg (by decide), if_pos (by decide), hmake, orExit]
  · refine ⟨_, ?_, (hadded _).1, _, (hadded (.device u.entry.mode u.entry.dev)).2,
      hother _ (htypes hb (by decide)) (htypes hb (by decide)) (htypes hb (by decide))⟩
    rw [ht, if_neg (by decide), if_neg (by decide), if_neg (by decide), if_pos (by decide), hmake, orExit]
  · refine ⟨_, ?_, (hadded _).1, _, (hadded .fifo).2,
      hother _ (htypes hp (by decide)) (htypes hp (by decide)) (htypes hp (by decide))⟩
    rw [ht, if_neg (by decide), if_neg (by decide), if_neg (by decide), if_neg (by decide), if_pos rfl, hmake, orExit]

end

/-! ## All entries -/

section

variable {Loc : Type} {N : Naming Loc} {place : List Bytes → Loc} {us : List UnpackFileEntry} {cache : Dir}

/-- **The tree while it is restored**: the first `k` files are, and no other place below the root is taken. -/
structure Restoring (D : Disk) (inDir : CString) (files : List FileEntry) (us : List UnpackFileEntry) (N : Naming Loc)
    (place : List Bytes → Loc) (k : ℕ) (fs : FS Loc) : Prop where
  done : ∀ (i : ℕ) (f : FileEntry) (u : UnpackFileEntry), i < k → files[i]? = some f → us[i]? = some u →
    ∃ n, fs.nodeAt (N.resolve u.targetFilename) = some n ∧ Restored D f n
  todo : ∀ cs, cs ≠ [] → (∀ (i : ℕ) (f : FileEntry), i < k → files[i]? = some f →
    f.filename.val ≠ inDir.val ++ pathOf cs) → fs.ent (place cs) = none
  root : fs.nodeAt (place []) = some .directory

/-- One more file is restored, and what was there is as it was. -/
theorem Restoring.succ {L : Disk} {inDir : CString} {files : List FileEntry} {k : ℕ} {f : FileEntry}
    {u : UnpackFileEntry} {fs fs' : FS Loc} (I : Restoring L inDir files us N place k fs) (hf : files[k]? = some f)
    (hu : us[k]? = some u) (hnew : ∃ n, fs'.nodeAt (N.resolve u.targetFilename) = some n ∧ Restored L f n)
    (hold : ∀ i v, i ≠ k → us[i]? = some v →
      fs'.nodeAt (N.resolve v.targetFilename) = fs.nodeAt (N.resolve v.targetFilename))
    (hent : ∀ cs, f.filename.val ≠ inDir.val ++ pathOf cs → fs'.ent (place cs) = fs.ent (place cs))
    (hroot : fs'.nodeAt (place []) = fs.nodeAt (place [])) :
    Restoring L inDir files us N place (k + 1) fs' := by
  refine ⟨fun i f' v hi hf' hv => ?_, fun cs hne hno => ?_, by rw [hroot, I.root]⟩
  · by_cases hik : i = k
    · subst hik
      rw [hf, Option.some.injEq] at hf'
      rw [hu, Option.some.injEq] at hv
      subst hf' hv
      exact hnew
    · rw [hold i v hik hv]
      exact I.done i f' v (by omega) hf' hv
  · rw [hent cs (hno k f (Nat.lt_succ_self k) hf)]
    exact I.todo cs hne fun i f' hi hf' => hno i f' (by omega) hf'

variable (R : PackRun E D opts metaFile outDir walk P) (T : N.Tree U.outputdir place) (EF : EntriesFor R U m us)

include R T EF in
/-- The place of a file is that of its path below the root. -/
theorem PackRun.target {k : ℕ} {f : FileEntry} {u : UnpackFileEntry} (hf : P.files[k]? = some f)
    (hu : us[k]? = some u) {cs : List Bytes} (hcs : ∀ c ∈ cs, Component c)
    (hpath : f.filename.val = opts.inDir.val ++ pathOf cs) : N.resolve u.targetFilename = place cs := by
  obtain ⟨v, name, hv, _, _, hname, htarget, _⟩ := EF.entry k f hf
  rw [hu, Option.some.injEq] at hv
  subst hv
  rw [htarget]
  by_cases hne : cs = []
  · subst hne
    have hroot : f.filename = opts.inDir := Subtype.ext (by simpa using hpath)
    rw [hroot, getFileBasename_root, Except.ok.injEq] at hname
    rw [← hname]
    exact T.root
  · rw [getFileBasename_below hne hpath, Except.ok.injEq] at hname
    rw [← hname]
    exact T.resolve cs hne hcs

variable (W : TreeWalk D.toDisk opts.inDir walk)

include W R in
theorem PackRun.leadsDown {k : ℕ} {f : FileEntry} (hf : P.files[k]? = some f) :
    ∃ cs, (∀ c ∈ cs, Component c) ∧ f.filename.val = opts.inDir.val ++ pathOf cs := by
  refine W.leadsDown ?_
  have hmem : f.filename ∈ P.files.map (·.filename) := List.mem_map.2 ⟨f, List.mem_of_getElem? hf, rfl⟩
  rw [(packMain_ok R.run).2.2.2] at hmem
  exact (List.mem_filter.1 hmem).1

include R T EF W in
/-- Files have different places. -/
theorem PackRun.target_inj {i j : ℕ} {u v : UnpackFileEntry} (hu : us[i]? = some u) (hv : us[j]? = some v)
    (h : N.resolve u.targetFilename = N.resolve v.targetFilename) : i = j := by
  have hfile : ∀ {i : ℕ} {u : UnpackFileEntry}, us[i]? = some u → ∃ f, P.files[i]? = some f := by
    intro i u hu
    exact ⟨_, List.getElem?_eq_getElem (EF.length ▸ (List.getElem?_eq_some_iff.1 hu).1)⟩
  obtain ⟨f, hf⟩ := hfile hu
  obtain ⟨g, hg⟩ := hfile hv
  obtain ⟨cs, hcs, hpf⟩ := R.leadsDown W hf
  obtain ⟨cs', hcs', hpg⟩ := R.leadsDown W hg
  rw [R.target T EF hf hu hcs hpf, R.target T EF hg hv hcs' hpg] at h
  exact R.filename_inj W hf hg (Subtype.ext (by rw [hpf, hpg, T.inj h]))

variable [DecidableEq Loc] (hcoll : E.NoCollision (StoredContent D.toDisk P))
  (hpacks : E.NoCollision (PackFileContent E D.toDisk (withMetadata opts metaFile) P))
  (hlinks : ∀ f ∈ P.files, ∀ g ∈ P.files, sIslnk f.st.stMode → sIsreg g.st.stMode →
    D.readlink f.filename ≠ D.fopen g.filename)

include EF hcoll hlinks in
omit [DecidableEq Loc] in
/-- **What a hard link refers to** is there already, with the content of the file. -/
theorem PackRun.linked {fs : FS Loc} {k : ℕ} {f : FileEntry} {u : UnpackFileEntry} (hf : P.files[k]? = some f)
    (hback : EntryReadsBack (withMetadata opts metaFile) m f u.entry)
    (I : Restoring D.toDisk opts.inDir P.files us N place k fs) (hlk : isHardlink f) (hr : sIsreg f.st.stMode) :
    ∃ e name d, m.fentries[u.entry.dev.toNat]? = some e ∧ m.filenameAt e.filenameOffset = .ok name ∧
      D.fopen f.filename = some d ∧ fs.nodeAt (N.resolve (U.outputdir ++ name)) = some (.file d) := by
  obtain ⟨j, hjk, hidx, g, hg, hsg, hsf, hh, _⟩ := (R.deduplicated.hardlink k f hf).resolve_left hlk.2
  have hgm := List.mem_of_getElem? hg
  have hfm := List.mem_of_getElem? hf
  have hlt : j < 2 ^ 32 := by
    have hlen := EF.readsBack.entriesLength
    have hmax := m.header.entriesLength.toNat_lt
    have hk := (List.getElem?_eq_some_iff.1 hf).1
    omega
  have hdev := hback.hardlinkIndex hlk (by omega) (by omega)
  rw [hidx, Nat.cast_inj] at hdev
  obtain ⟨v, name, hv, he, hbackg, hname, htarget, _⟩ := EF.entry j g hg
  obtain ⟨name', hname', hat⟩ := hbackg.filename
  have hnn : name' = name := Except.ok.inj (hname'.symm.trans hname)
  subst hnn
  obtain ⟨n, hn, hrest⟩ := I.done j g v hjk hg hv
  -- it is a regular file, since no symlink has this content
  have hcont := R.content_eq hcoll hfm hgm hsf hsg hh
  rw [contentOf, contentOf, if_neg (sIsreg_not_sIslnk hr)] at hcont
  have hrg : sIsreg g.st.stMode := by
    refine (stored_type hsg).resolve_left fun hl => ?_
    rw [if_pos hl] at hcont
    exact hlinks g hgm f hfm hl hr hcont
  rw [if_neg (sIsreg_not_sIslnk hrg)] at hcont
  obtain ⟨d, hd, rfl⟩ := hrest.regular hrg
  exact ⟨v.entry, name', d, by rw [hdev]; exact he, hat, by rw [← hcont, hd], by rw [← htarget]; exact hn⟩

include R T EF W hcoll hpacks hlinks

/-- **One round** of the loop that writes the entries. -/
theorem PackRun.writeEntry_restoring {fs : FS Loc} {k : ℕ} {u : UnpackFileEntry} (hu : us[k]? = some u)
    (hcache : ∀ name hash z, Requires u name hash z → cache name = P.outDir name)
    (I : Restoring D.toDisk opts.inDir P.files us N place k fs) :
    ∃ fs', unpackWriteEntry E N U P.manifest m cache fs u = .ok fs' ∧
      Restoring D.toDisk opts.inDir P.files us N place (k + 1) fs' := by
  have hk : k < P.files.length := EF.length ▸ (List.getElem?_eq_some_iff.1 hu).1
  have hf : P.files[k]? = some P.files[k] := List.getElem?_eq_getElem hk
  generalize P.files[k] = f at hf
  obtain ⟨v, name, hv, _, hback, hname, htarget, hres, hhard⟩ := EF.entry k f hf
  rw [hu, Option.some.injEq] at hv
  subst hv
  rcases R.listedBelow W hf with ⟨hroot, hdir⟩ | ⟨j, g, hjk, hg, hgdir, cs, c, hcs, hpg, hpf⟩
  · -- the root is there already
    have hl : N.resolve u.targetFilename = place [] := R.target T EF hf hu (by simp) (by rw [hroot]; simp)
    have htype : u.entry.type = entryDirectory := manifestEntryType_directory hback.type hdir
    obtain ⟨name', hname', hat⟩ := hback.filename
    change getFileBasename opts.inDir f.filename = .ok name' at hname'
    rw [hroot, getFileBasename_root, Except.ok.injEq] at hname'
    have hexists : fs.create (N.parent (place [])) (place []) .directory = .error .eexist := by
      obtain ⟨a, ha, _⟩ := Option.map_eq_some_iff.1 I.root
      simp [FS.create, ha]
    refine ⟨fs, ?_, I.succ hf hu ⟨.directory, by rw [hl, I.root], fun h => absurd (hasType_inj hdir h) (by decide),
      fun h => absurd (hasType_inj hdir h) (by decide), fun _ => rfl⟩ (fun _ _ _ _ => rfl) (fun _ _ => rfl) rfl⟩
    simp only [unpackWriteEntry, hl, htype, if_true, hat, ← hname', ok_bind, hexists, and_self, pure_eq_ok]
  · -- the file is below a directory that is there
    have hl : N.resolve u.targetFilename = place (cs ++ [c]) := R.target T EF hf hu hcs hpf
    obtain ⟨v, _, hv, _⟩ := EF.entry j g hg
    have hlv : N.resolve v.targetFilename = place cs :=
      R.target T EF hg hv (fun c' hc' => hcs c' (List.mem_append_left _ hc')) hpg
    have hpar : fs.nodeAt (N.parent (N.resolve u.targetFilename)) = some .directory := by
      obtain ⟨n, hn, hrest⟩ := I.done j g v hjk hg hv
      rw [hl, T.parent, ← hlv, hn, hrest.directory hgdir]
    -- no earlier file has this path, so the place is vacant
    have hvacant : fs.ent (N.resolve u.targetFilename) = none := by
      rw [hl]
      refine I.todo _ (by simp) fun i f' hi hf' he => ?_
      have hik := R.filename_inj W hf' hf (Subtype.ext (by rw [he, hpf]))
      omega
    obtain ⟨fs', hw, hgrows, n, hn, hrest⟩ := R.writeEntry_restores hcoll hpacks hlinks EF.readsBack
      (List.mem_of_getElem? hf) hres hhard hback hcache hvacant hpar (R.linked EF hcoll hlinks hf hback I)
    have hplace : ∀ cs', cs' ≠ cs ++ [c] → place cs' ≠ N.resolve u.targetFilename := by
      intro cs' hne he
      rw [hl] at he
      exact hne (T.inj he)
    refine ⟨fs', hw, I.succ hf hu ⟨n, hn, hrest⟩ (fun i v' hik hv' => ?_) (fun cs' hno => ?_) ?_⟩
    · exact hgrows.nodeAt fun he => hik (R.target_inj T EF W hv' hu he)
    · refine hgrows.ent _ (hplace cs' ?_)
      rintro rfl
      exact hno hpf
    · exact hgrows.nodeAt (hplace [] (by simp))

/-- **The writing of all entries** below a directory with nothing in it restores the tree. -/
theorem PackRun.writeEntries_restores {fs : FS Loc}
    (hcache : ∀ u ∈ us, ∀ name hash z, Requires u name hash z → cache name = P.outDir name)
    (hroot : fs.nodeAt (place []) = some .directory) (hempty : ∀ cs, cs ≠ [] → fs.ent (place cs) = none) :
    ∃ fs', us.foldlM (unpackWriteEntry E N U P.manifest m cache) fs = .ok fs' ∧
      Restoring D.toDisk opts.inDir P.files us N place us.length fs' := by
  refine foldlM_total_done (fun done fs => Restoring D.toDisk opts.inDir P.files us N place done.length fs)
    (fun done u rest fs hus I => ?_) ⟨fun i f u hi => absurd hi (Nat.not_lt_zero i), fun cs hne _ => hempty cs hne, hroot⟩
  have hu : us[done.length]? = some u := by rw [hus]; simp
  rw [List.length_append, List.length_singleton]
  exact R.writeEntry_restoring T EF W hcoll hpacks hlinks hu (hcache u (List.mem_of_getElem? hu)) I

end

end Sfmf
