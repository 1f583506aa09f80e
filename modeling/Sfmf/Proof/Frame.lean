import Sfmf.Lib.Confined
import Sfmf.Proof.Routes

/-!
# What the unpacker leaves alone

Names lead where the naming says, from the start of a run to its end: a name that leads through a symlink, of the
manifest or of the file system, is outside of this model, and so is opening a symlink, a fifo or a device for writing,
which fails here.

* `unpackWriteEntry_confined`, `unpackSetPermissions_confined`, `dirstackFree_confined`: the steps.
* `unpack_confined`: a successful run changes nothing but what the names of its manifest lead to.
* `unpack_staysBelow`: the names of a packed tree do not lead out of the output directory.
-/

namespace Sfmf

variable {E : Env} {Loc : Type} [DecidableEq Loc] {N : Naming Loc} {T : Loc → Prop} {U : UnpackOptions}

/-- The locations that the names of a manifest lead to. -/
def NamedBy (N : Naming Loc) (U : UnpackOptions) (m : Manifest) (l : Loc) : Prop :=
  ∃ e ∈ m.fentries, ∃ name, m.filenameAt e.filenameOffset = .ok name ∧ N.resolve (U.outputdir ++ name) = l

/-! ## The steps -/

/-- **The writing of an entry** changes what its name leads to, and what that of its source leads to. -/
theorem unpackWriteEntry_confined {d : Bytes} {m : Manifest} {cache : Dir} {fs fs' : FS Loc} {e : UnpackFileEntry}
    (hT : ∀ l, NamedBy N U m l → T l) (hl : T (N.resolve e.targetFilename))
    (h : unpackWriteEntry E N U d m cache fs e = .ok fs') : FS.Confined N T fs fs' := by
  unfold unpackWriteEntry at h
  simp only at h
  split at h
  · obtain ⟨name, -, h⟩ := bind_ok.1 h
    split at h
    · rename_i fs₁ hfs₁
      cases h
      exact .create hl hfs₁
    · split at h
      · cases h
        exact .refl N T fs
      · simp at h
  split at h
  · obtain ⟨⟨fs₁, i⟩, hopen, h⟩ := bind_ok.1 h
    obtain ⟨ops, -, h⟩ := bind_ok.1 h
    obtain ⟨content, -, h⟩ := bind_ok.1 h
    have hfilled := FS.Confined.openWrite hl (orExit_ok.1 hopen) content
    simp only at h
    split at h
    · cases h
      exact hfilled
    · simp only [bind_ok] at h
      obtain ⟨_, -, same, -, h⟩ := h
      cases same with
      | true => cases h; exact hfilled
      | false => simp at h
  split at h
  · split at h
    · simp only [bind_ok] at h
      obtain ⟨_, -, data, -, h⟩ := h
      split at h
      · simp at h
      · exact .create hl (orExit_ok.1 h)
    · simp at h
  split at h
  · exact .create hl (orExit_ok.1 h)
  split at h
  · exact .create hl (orExit_ok.1 h)
  split at h
  · obtain ⟨_, -, h⟩ := bind_ok.1 h
    split at h
    · simp at h
    · rename_i hentry hget
      obtain ⟨hname, hfilename, h⟩ := bind_ok.1 h
      have hsrc : NamedBy N U m (N.resolve (U.outputdir ++ hname)) :=
        ⟨hentry, List.mem_of_getElem? hget, hname, hfilename, rfl⟩
      exact .link (hT _ hsrc) hl (orExit_ok.1 h)
  · simp at h

/-- The directories on the stack are targets. -/
def StackIn (N : Naming Loc) (T : Loc → Prop) (stack : List DirStackEntry) : Prop := ∀ s ∈ stack, T (N.resolve s.path)

omit [DecidableEq Loc] in
theorem unpackDirstackEntryPop_confined {fs fs' : FS Loc} {s : DirStackEntry} (hs : T (N.resolve s.path))
    (h : unpackDirstackEntryPop N fs s = .ok fs') : FS.Confined N T fs fs' := .chattr hs (orExit_ok.1 h)

omit [DecidableEq Loc] in
theorem dirstackPush_confined {current : DirStackEntry} (hcur : T (N.resolve current.path)) : ∀ {stack stack' : List DirStackEntry}
    {fs fs' : FS Loc}, StackIn N T stack → dirstackPush (unpackDirstackEntryPop N) current stack fs = .ok (stack', fs') →
      StackIn N T stack' ∧ FS.Confined N T fs fs'
  | [], stack', fs, fs', _, h => by
    cases h
    exact ⟨fun s hs => (List.mem_singleton.1 hs) ▸ hcur, .refl N T fs⟩
  | top :: stack, stack', fs, fs', hstack, h => by
    unfold dirstackPush at h
    obtain ⟨below, -, h⟩ := bind_ok.1 h
    cases below with
    | true =>
      cases h
      refine ⟨fun s hs => ?_, .refl N T fs⟩
      rcases List.mem_cons.1 hs with rfl | hs
      · exact hcur
      · exact hstack s hs
    | false =>
      obtain ⟨fs₁, hpop, h⟩ := bind_ok.1 h
      obtain ⟨hstack', hconf⟩ := dirstackPush_confined hcur (fun s hs => hstack s (List.mem_cons_of_mem _ hs)) h
      exact ⟨hstack', (unpackDirstackEntryPop_confined (hstack top List.mem_cons_self) hpop).trans hconf⟩

omit [DecidableEq Loc] in
theorem dirstackFree_confined {stack : List DirStackEntry} {fs fs' : FS Loc} (hstack : StackIn N T stack)
    (h : dirstackFree (unpackDirstackEntryPop N) stack fs = .ok fs') : FS.Confined N T fs fs' :=
  foldlM_inv (fun fs' => FS.Confined N T fs fs')
    (fun _ _ _ hs hconf hpop => hconf.trans (unpackDirstackEntryPop_confined (hstack _ hs) hpop)) (.refl N T fs) h

omit [DecidableEq Loc] in
/-- **The permissions of an entry.** -/
theorem unpackSetPermissions_confined {s s' : List DirStackEntry × FS Loc} {e : UnpackFileEntry}
    (hl : T (N.resolve e.targetFilename)) (hstack : StackIn N T s.1) (h : unpackSetPermissions N s e = .ok s') :
    StackIn N T s'.1 ∧ FS.Confined N T s.2 s'.2 ∧ s.2.ent (N.resolve e.targetFilename) ≠ none := by
  obtain ⟨stack, fs⟩ := s
  obtain ⟨stack', fs'⟩ := s'
  unfold unpackSetPermissions at h
  simp only at h
  obtain ⟨fs₁, hchown, h⟩ := bind_ok.1 h
  obtain ⟨fs₂, hmode, h⟩ := bind_ok.1 h
  obtain ⟨i, _, hi, -⟩ := FS.lchown_attr (orExit_ok.1 hchown)
  have hthere : fs.ent (N.resolve e.targetFilename) ≠ none := by simp [hi]
  have hchown : FS.Confined N T fs fs₁ := .lchown hl (orExit_ok.1 hchown)
  have hmode : FS.Confined N T fs₁ fs₂ := by
    unfold setMode at hmode
    split at hmode
    · cases hmode
      exact .refl N T fs₁
    · exact .chattr hl (orExit_ok.1 hmode)
  split at h
  · obtain ⟨hstack', hpush⟩ := dirstackPush_confined hl hstack h
    exact ⟨hstack', (hchown.trans hmode).trans hpush, hthere⟩
  · obtain ⟨fs₃, hmtime, h⟩ := bind_ok.1 h
    cases h
    exact ⟨hstack, (hchown.trans hmode).trans (.chattr hl (orExit_ok.1 hmtime)), hthere⟩

/-! ## A run -/

/-- **The loops of a run**, over entries whose names are those of the manifest. -/
theorem unpackWrite_confined {c : Classified} {s : CacheState} {fs fs' : FS Loc}
    (hT : ∀ e ∈ c.entries, NamedBy N U c.manifest (N.resolve e.targetFilename)) (hfull : U.downloadOnly = false)
    (h : unpackWrite E N U c s fs = .ok fs') : FS.Confined N (NamedBy N U c.manifest) fs fs' ∧
      ∀ e ∈ c.entries, fs'.ent (N.resolve e.targetFilename) ≠ none := by
  unfold unpackWrite at h
  rw [hfull, if_neg (by decide)] at h
  obtain ⟨fs₁, hwrite, h⟩ := bind_ok.1 h
  obtain ⟨⟨stack, fs₂⟩, hperm, h⟩ := bind_ok.1 h
  have hwritten : FS.Confined N (NamedBy N U c.manifest) fs fs₁ :=
    foldlM_inv (fun fs' => FS.Confined N (NamedBy N U c.manifest) fs fs')
      (fun _ e _ he hconf hstep => hconf.trans (unpackWriteEntry_confined (fun _ => id) (hT e he) hstep))
      (.refl N _ fs) hwrite
  -- what is on the stack, what has changed, and which entries are there
  obtain ⟨hstack, hset, hthere⟩ : StackIn N (NamedBy N U c.manifest) stack ∧
      FS.Confined N (NamedBy N U c.manifest) fs₁ fs₂ ∧ ∀ e ∈ c.entries, fs₂.ent (N.resolve e.targetFilename) ≠ none := by
    refine foldlM_inv_done (fun done (s : List DirStackEntry × FS Loc) => StackIn N (NamedBy N U c.manifest) s.1 ∧
      FS.Confined N (NamedBy N U c.manifest) fs₁ s.2 ∧ ∀ e ∈ done, s.2.ent (N.resolve e.targetFilename) ≠ none)
      ?_ ⟨by simp [StackIn], .refl N _ fs₁, by simp⟩ hperm
    intro done e rest s s' hsplit ⟨hstack, hconf, hdone⟩ hstep
    have he : e ∈ c.entries := by simp [hsplit]
    obtain ⟨hstack', hconf', hthere⟩ := unpackSetPermissions_confined (hT e he) hstack hstep
    have hkept : ∀ {l}, s.2.ent l ≠ none → s'.2.ent l ≠ none := by
      intro l hl
      obtain ⟨i, hi⟩ := Option.ne_none_iff_exists'.1 hl
      simp [hconf'.kept hi]
    refine ⟨hstack', hconf.trans hconf', fun e' he' => ?_⟩
    rcases List.mem_append.1 he' with he' | he'
    · exact hkept (hdone e' he')
    · rw [List.mem_singleton.1 he']
      exact hkept hthere
  have hfreed := dirstackFree_confined hstack h
  refine ⟨(hwritten.trans hset).trans hfreed, fun e he => ?_⟩
  obtain ⟨i, hi⟩ := Option.ne_none_iff_exists'.1 (hthere e he)
  simp [hfreed.kept hi]

omit [DecidableEq Loc] in
/-- The entries that are classified have the names of the manifest. -/
theorem unpackClassify_named {cache : Dir} {c : Classified} (h : unpackClassify E U cache = .ok c) :
    (∀ e ∈ c.entries, NamedBy N U c.manifest (N.resolve e.targetFilename)) ∧
      ∀ l, NamedBy N U c.manifest l → ∃ e ∈ c.entries, N.resolve e.targetFilename = l := by
  obtain ⟨-, ⟨ls, -, hclassified⟩, -⟩ := unpackClassify_ok h
  have hall := classifyEntries_ok hclassified
  constructor
  · intro u hu
    obtain ⟨i, hi, rfl⟩ := List.getElem_of_mem hu
    have hi' : i < c.manifest.fentries.length := hall.length_eq ▸ hi
    obtain ⟨name, hname, htarget⟩ := (hall.get hi' hi).target
    exact ⟨_, List.getElem_mem hi', name, hname, congrArg N.resolve htarget.symm⟩
  · rintro l ⟨e, he, name, hname, rfl⟩
    obtain ⟨i, hi, rfl⟩ := List.getElem_of_mem he
    have hi' : i < c.entries.length := hall.length_eq ▸ hi
    obtain ⟨name', hname', htarget⟩ := (hall.get hi hi').target
    obtain rfl : name = name' := Except.ok.inj (hname.symm.trans hname')
    exact ⟨_, List.getElem_mem hi', congrArg N.resolve htarget⟩

/-- **A successful run changes nothing but what the names of its manifest lead to**, where none of them leads to or
through a symlink: no entry is removed or replaced, other locations keep theirs, other inodes their content and their
attributes, but for the times of the directories that entries are made in. Every name leads to an entry afterwards,
unless the run is for downloads only, and then nothing has changed. -/
theorem unpack_confined {cache : Dir} {fs : FS Loc} {r : Unpacked Loc} (h : unpackMain E N U cache fs = .ok r) :
    FS.Confined N (NamedBy N U r.classified.manifest) fs r.fs ∧
      (U.downloadOnly = true → r.fs = fs) ∧
      (U.downloadOnly = false → ∀ l, NamedBy N U r.classified.manifest l → r.fs.ent l ≠ none) := by
  simp only [unpackMain, bind_ok, pure_eq_ok, Except.ok.injEq] at h
  obtain ⟨c, hc, s, -, fs', hwrite, rfl⟩ := h
  obtain ⟨hnamed, hentry⟩ := unpackClassify_named (N := N) hc
  by_cases hdownload : U.downloadOnly = true
  · rw [unpackWrite, if_pos hdownload, pure_eq_ok, Except.ok.injEq] at hwrite
    subst hwrite
    exact ⟨.refl N _ fs, fun _ => rfl, fun hfull => by simp [hdownload] at hfull⟩
  · rw [Bool.not_eq_true] at hdownload
    obtain ⟨hconf, hthere⟩ := unpackWrite_confined hnamed hdownload hwrite
    refine ⟨hconf, fun hfull => by simp [hdownload] at hfull, fun _ l hl => ?_⟩
    obtain ⟨e, he, rfl⟩ := hentry l hl
    exact hthere e he

/-- On the tree of the letters. -/
theorem unpack_confined_letterTree : ∃ P r, packMain letterTreeEnv letterTree.toDisk letterTreeOptions (str ['m'])
    (fun _ => none) letterWalk = .ok P ∧
    unpackMain letterTreeEnv (lexical []) (clientOf P false) (fun _ => none) (.oneDirectory [str ['o']]) = .ok r ∧
    FS.Confined (lexical []) (NamedBy (lexical []) (clientOf P false) r.classified.manifest) (.oneDirectory [str ['o']])
      r.fs ∧
    ∀ l, NamedBy (lexical []) (clientOf P false) r.classified.manifest l → r.fs.ent l ≠ none := by
  have hpasses : (packMain letterTreeEnv letterTree.toDisk letterTreeOptions (str ['m']) (fun _ => none)
      letterWalk).passes (fun P => (unpackMain letterTreeEnv (lexical []) (clientOf P false) (fun _ => none)
        (.oneDirectory [str ['o']])).passes fun _ => true) = true := by
    decide +kernel
  obtain ⟨P, hP, hrun⟩ := Exec.of_passes hpasses
  obtain ⟨r, hr, -⟩ := Exec.of_passes hrun
  obtain ⟨hconf, -, hthere⟩ := unpack_confined hr
  exact ⟨P, r, hP, hr, hconf, hthere rfl⟩

/-! ## Packed trees -/

section

variable {D : SourceTree} {opts : PackOptions} {metaFile : Bytes} {outDir : Dir} {walk : List CString} {P : Packed}
  {place : List Bytes → Loc} (R : PackRun E D opts metaFile outDir walk P)

/-- The places below a directory. -/
def PlaceBelow (place : List Bytes → Loc) (l : Loc) : Prop := ∃ cs, (∀ c ∈ cs, Component c) ∧ place cs = l

include R

omit [DecidableEq Loc] in
/-- The names of a packed tree lead to places below the output directory. -/
theorem PackRun.namedBy (W : TreeWalk D.toDisk opts.inDir walk) (hT : N.Tree U.outputdir place) {m : Manifest}
    (RB : ReadsBack E D.toDisk (withMetadata opts metaFile) P.files P.packs P.buckets.includedFiles P.manifest m) {l : Loc}
    (h : NamedBy N U m l) : PlaceBelow place l := by
  obtain ⟨e, he, name, hname, rfl⟩ := h
  obtain ⟨f, hf, hback⟩ := RB.tables.file_of_mem he
  obtain ⟨name', hbase, hname'⟩ := hback.filename
  obtain rfl : name = name' := Except.ok.inj (hname.symm.trans hname')
  obtain ⟨i, hi⟩ := List.mem_iff_getElem?.1 hf
  obtain ⟨cs, hcs, hpath⟩ := R.leadsDown W hi
  refine ⟨cs, hcs, ?_⟩
  by_cases hne : cs = []
  · subst hne
    have hroot : f.filename = opts.inDir := Subtype.ext (by simpa using hpath)
    have hbase : getFileBasename opts.inDir f.filename = .ok name := hbase
    rw [hroot, getFileBasename_root, Except.ok.injEq] at hbase
    rw [← hbase]
    exact hT.root.symm
  · have hbase : getFileBasename opts.inDir f.filename = .ok name := hbase
    rw [getFileBasename_below hne hpath, Except.ok.injEq] at hbase
    rw [← hbase]
    exact (hT.resolve cs hne hcs).symm

/-- A run with access to a packed tree reads its manifest. -/
theorem Access.data {cache : Dir} {c : Classified} (A : Access E P U cache) (h : unpackClassify E U cache = .ok c) :
    c.data = P.manifest := by
  obtain ⟨s, hs, hcache, -⟩ := A.manifest R
  unfold unpackClassify at h
  simp only [hs, ok_bind, hcache, bind_ok, pure_eq_ok, Except.ok.injEq] at h
  obtain ⟨_, -, ⟨header, pos⟩, -, _, -, _, -, ⟨us, ls⟩, -, rfl⟩ := h
  rfl

/-- **A packed tree does not leave the output directory**: where no symlink, fifo or device is at the names of its files
and directories, a run that unpacks it changes nothing but what is at the output directory and below. -/
theorem unpack_staysBelow {cache : Dir} {fs : FS Loc} {r : Unpacked Loc} (A : Access E P U cache)
    (W : TreeWalk D.toDisk opts.inDir walk) (hT : N.Tree U.outputdir place) (h : unpackMain E N U cache fs = .ok r) :
    FS.Confined N (PlaceBelow place) fs r.fs := by
  simp only [unpackMain, bind_ok, pure_eq_ok, Except.ok.injEq] at h
  obtain ⟨c, hc, s, -, fs', hwrite, rfl⟩ := h
  obtain ⟨m, hm, RB⟩ := R.readsBack
  have hmanifest := (unpackClassify_ok hc).1
  rw [A.data R hc, hm, Except.ok.injEq] at hmanifest
  subst hmanifest
  by_cases hdownload : U.downloadOnly = true
  · rw [unpackWrite, if_pos hdownload, pure_eq_ok, Except.ok.injEq] at hwrite
    subst hwrite
    exact .refl N _ fs
  · have hnamed := (unpackClassify_named (N := N) hc).1
    exact (unpackWrite_confined hnamed (Bool.not_eq_true _ ▸ hdownload) hwrite).1.mono fun l hl => R.namedBy W hT RB hl

end

/-- The tree of the letters, below an output directory. -/
theorem unpack_staysBelow_letterTree : ∃ P r, packMain letterTreeEnv letterTree.toDisk letterTreeOptions (str ['m'])
    (fun _ => none) letterWalk = .ok P ∧
    unpackMain letterTreeEnv (lexical []) (deltaOf P) (fun _ => none) (.oneDirectory [str ['o']]) = .ok r ∧
    FS.Confined (lexical []) (PlaceBelow (resolve [] (str ['o']) ++ ·)) (.oneDirectory [str ['o']]) r.fs := by
  obtain ⟨P, R, hpacks, hfiles, -⟩ := letterTree_packRun
  have S := deltaOf_sources (fun f hf => R.listed hf) hfiles
  have hT : (lexical []).Tree (str ['o']) (resolve [] (str ['o']) ++ ·) := lexical_tree [] (by decide)
  obtain ⟨r, hr, -⟩ := delta_restores R hpacks (servedOf P rfl rfl) S rfl letterWalk_treeWalk hT
    (letterTree_links S (fun f hf => R.listed hf) hfiles) (FS.oneDirectory_self _) (oneDirectory_below _)
  exact ⟨P, r, R.run, hr, unpack_staysBelow R (servedOf P rfl rfl) letterWalk_treeWalk hT hr⟩

end Sfmf
