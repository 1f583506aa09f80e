import Sfmf.Proof.Tree

/-!
# What is packed is unpacked

* `setPermissions_total`: the last phase returns.
* `unpack_restores`: a run of the unpacker on what was packed leaves every file
  as it was.
-/

namespace Sfmf

variable {E : Env} {D : SourceTree} {opts : PackOptions} {metaFile : Bytes} {outDir : Dir} {walk : List CString}
  {P : Packed} {m : Manifest} {U : UnpackOptions}

/-! ## The last phase -/

section

variable {Loc : Type} {N : Naming Loc}

theorem isPrefixOf_some {top path : Bytes} (hne : top ≠ path) (h : top ≠ []) : ∃ b, isPrefixOf top path = .ok b := by
  rw [isPrefixOf, cAssert_pos hne, ok_bind]
  split
  · rw [List.getLast?_eq_some_getLast h]
    exact ⟨_, rfl⟩
  · exact ⟨false, rfl⟩

theorem orExit_chattr {fs : FS Loc} {l : Loc} (msg : String) (f : Attr → Attr) (hl : fs.ent l ≠ none) :
    ∃ fs', orExit msg (fs.chattr l f) = .ok fs' ∧ FS.SameTree fs fs' := by
  obtain ⟨fs', h⟩ := FS.chattr_some f hl
  exact ⟨fs', orExit_ok.2 h, FS.chattr_ok h⟩

theorem orExit_lchown {fs : FS Loc} {l : Loc} (msg : String) (uid gid : UInt32) (hl : fs.ent l ≠ none) :
    ∃ fs', orExit msg (fs.lchown l uid gid) = .ok fs' ∧ FS.SameTree fs fs' := by
  obtain ⟨fs', h⟩ := FS.lchown_some uid gid hl
  exact ⟨fs', orExit_ok.2 h, FS.lchown_ok h⟩

/-- `dirstack_push` returns if the directories on the stack are there, and are others. -/
theorem dirstackPush_total {current : DirStackEntry} : ∀ {stack : List DirStackEntry} {fs : FS Loc},
    (∀ e ∈ stack, e.path ≠ current.path ∧ e.path ≠ [] ∧ fs.ent (N.resolve e.path) ≠ none) →
    ∃ stack' fs', dirstackPush (unpackDirstackEntryPop N) current stack fs = .ok (stack', fs') ∧ ∀ e ∈ stack', e = current ∨ e ∈ stack := by
  intro stack
  induction stack with
  | nil => intro fs _; exact ⟨[current], fs, rfl, by simp⟩
  | cons top stack ih =>
    intro fs h
    obtain ⟨hne, hnil, hent⟩ := h top List.mem_cons_self
    obtain ⟨below, hbelow⟩ := isPrefixOf_some hne hnil
    cases below with
    | true =>
      refine ⟨current :: top :: stack, fs, ?_, by simp⟩
      simp only [dirstackPush, hbelow, ok_bind, if_true, pure_eq_ok]
    | false =>
      obtain ⟨fs₁, hpop, hsame⟩ := orExit_chattr "Failed to set mtime" (fun a => { a with mtime := top.userData.mtime }) hent
      have hstack : ∀ e ∈ stack, e.path ≠ current.path ∧ e.path ≠ [] ∧ fs₁.ent (N.resolve e.path) ≠ none := by
        rw [hsame.ent]
        exact fun e he => h e (List.mem_cons_of_mem _ he)
      obtain ⟨stack', fs', hpush, hmem⟩ := ih hstack
      refine ⟨stack', fs', ?_, fun e he => (hmem e he).imp_right (List.mem_cons_of_mem _)⟩
      simp only [dirstackPush, hbelow, ok_bind, Bool.false_eq_true, if_false, unpackDirstackEntryPop, hpop, hpush]

/-- `unpack_set_permissions` returns if the entry and the directories on the stack are there. -/
theorem unpackSetPermissions_total {u : UnpackFileEntry} {stack : List DirStackEntry} {fs : FS Loc}
    (hent : fs.ent (N.resolve u.targetFilename) ≠ none)
    (hstack : ∀ e ∈ stack, e.path ≠ u.targetFilename ∧ e.path ≠ [] ∧ fs.ent (N.resolve e.path) ≠ none) :
    ∃ stack' fs', unpackSetPermissions N (stack, fs) u = .ok (stack', fs') ∧
      ∀ e ∈ stack', e.path = u.targetFilename ∨ e ∈ stack := by
  obtain ⟨fs₁, h₁, hs₁⟩ := orExit_lchown "Could not change owner/group" u.entry.uid u.entry.gid hent
  obtain ⟨fs₂, h₂, hs₂⟩ : ∃ fs₂, setMode (N.resolve u.targetFilename) u.entry fs₁ = .ok fs₂ ∧ FS.SameTree fs fs₂ := by
    unfold setMode
    split
    · exact ⟨fs₁, rfl, hs₁⟩
    · obtain ⟨fs₂, h₂, hs₂⟩ := orExit_chattr "Could not change permission" (fun a => { a with mode := u.entry.mode })
        (hs₁.ent ▸ hent)
      exact ⟨fs₂, h₂, hs₁.trans hs₂⟩
  simp only [unpackSetPermissions, h₁, h₂, ok_bind]
  split
  · have hstack' : ∀ e ∈ stack, e.path ≠ u.targetFilename ∧ e.path ≠ [] ∧ fs₂.ent (N.resolve e.path) ≠ none := by
      rw [hs₂.ent]
      exact hstack
    obtain ⟨stack', fs₃, h₃, hmem⟩ : ∃ stack' fs₃, dirstackPush (unpackDirstackEntryPop N) ⟨u.targetFilename, u.entry⟩ stack fs₂ =
        .ok (stack', fs₃) ∧ ∀ e ∈ stack', e = ⟨u.targetFilename, u.entry⟩ ∨ e ∈ stack := dirstackPush_total hstack'
    exact ⟨stack', fs₃, h₃, fun e he => (hmem e he).imp_left fun he => by rw [he]⟩
  · obtain ⟨fs₃, h₃, _⟩ := orExit_chattr "Failed to set mtime" (fun a => { a with mtime := u.entry.mtime })
      (hs₂.ent ▸ hent)
    exact ⟨stack, fs₃, by rw [h₃]; rfl, fun e he => .inr he⟩

/-- **The last phase returns** if every entry is there, under a name of its own. -/
theorem setPermissions_total {us : List UnpackFileEntry} {fs : FS Loc}
    (hent : ∀ u ∈ us, fs.ent (N.resolve u.targetFilename) ≠ none) (hdist : (us.map (·.targetFilename)).Nodup)
    (hne : ∀ u ∈ us, u.targetFilename ≠ []) : ∃ stack fs₁ fs₂,
      us.foldlM (unpackSetPermissions N) ([], fs) = .ok (stack, fs₁) ∧ dirstackFree (unpackDirstackEntryPop N) stack fs₁ = .ok fs₂ := by
  -- the directories on the stack are those of earlier entries
  have hstep : ∀ done u rest (s : List DirStackEntry × FS Loc), us = done ++ u :: rest →
      (FS.SameTree fs s.2 ∧ ∀ e ∈ s.1, ∃ v ∈ done, e.path = v.targetFilename) →
      ∃ s', unpackSetPermissions N s u = .ok s' ∧ FS.SameTree fs s'.2 ∧
        ∀ e ∈ s'.1, ∃ v ∈ done ++ [u], e.path = v.targetFilename := by
    rintro done u rest ⟨stack, fs₁⟩ hus ⟨hsame, hstack⟩
    have hu : u ∈ us := by rw [hus]; simp
    have hother : ∀ e ∈ stack, e.path ≠ u.targetFilename ∧ e.path ≠ [] ∧ fs₁.ent (N.resolve e.path) ≠ none := by
      intro e he
      obtain ⟨v, hv, hpath⟩ := hstack e he
      have hvm : v ∈ us := by rw [hus]; exact List.mem_append_left _ hv
      rw [hpath, hsame.ent]
      refine ⟨fun heq => ?_, hne v hvm, hent v hvm⟩
      rw [hus, List.map_append, List.nodup_append'] at hdist
      exact hdist.2.2 (List.mem_map.2 ⟨v, hv, rfl⟩) (by rw [heq]; simp)
    obtain ⟨stack', fs₂, hrun, hmem⟩ := unpackSetPermissions_total (hsame.ent ▸ hent u hu) hother
    refine ⟨(stack', fs₂), hrun, hsame.trans (unpackSetPermissions_sameTree hrun), fun e he => ?_⟩
    rcases hmem e he with h | h
    · exact ⟨u, by simp, h⟩
    · obtain ⟨v, hv, hpath⟩ := hstack e h
      exact ⟨v, List.mem_append_left _ hv, hpath⟩
  obtain ⟨⟨stack, fs₁⟩, hrun, hsame, hstack⟩ :=
    foldlM_total_done _ hstep (s := ([], fs)) ⟨FS.SameTree.refl fs, by simp⟩
  have hpop : ∀ (fs' : FS Loc) (e : DirStackEntry), e ∈ stack → FS.SameTree fs fs' →
      ∃ fs'', unpackDirstackEntryPop N fs' e = .ok fs'' ∧ FS.SameTree fs fs'' := by
    intro fs' e he h
    obtain ⟨u, hu, hpath⟩ := hstack e he
    have hthere : fs'.ent (N.resolve e.path) ≠ none := by rw [h.ent, hpath]; exact hent u hu
    obtain ⟨fs'', hpop, hs⟩ := orExit_chattr "Failed to set mtime" (fun a => { a with mtime := e.userData.mtime }) hthere
    exact ⟨fs'', hpop, h.trans hs⟩
  obtain ⟨fs₂, hfree, _⟩ := foldlM_total (FS.SameTree fs) hpop hsame
  exact ⟨stack, fs₁, fs₂, hrun, hfree⟩

end

/-! ## The whole run -/

/-- **What is packed is unpacked.** An unpacker that is served what was packed classifies all entries and
downloads all they need, from a cache with nothing wrong in it. Then the writing of any regular file
gives back its content, wherever the file can be opened. If moreover the list is that of a tree, no symlink
reads like a regular file, and the output directory is empty, the whole run succeeds, and every file is
there as it was. -/
theorem unpack_restores {Loc : Type} [DecidableEq Loc] {N : Naming Loc} {place : List Bytes → Loc} {fs : FS Loc}
    {cache : Dir} (R : PackRun E D opts metaFile outDir walk P)
    (hcoll : E.NoCollision (StoredContent D.toDisk P))
    (hpacks : E.NoCollision (PackFileContent E D.toDisk (withMetadata opts metaFile) P))
    (S : Serves E P U) (hcache : ∀ name d, Written P name → cache name = some d → P.outDir name = some d) :
    ∃ c s, unpackClassify E U cache = .ok c ∧ unpackDownload E U c = .ok s ∧
      (∀ (i : ℕ) (f : FileEntry), P.files[i]? = some f → ∃ u name, c.entries[i]? = some u ∧
        (u.entry.type = entryFile ↔ sIsreg f.st.stMode ∧ ¬ isHardlink f) ∧
        getFileBasename opts.inDir f.filename = .ok name ∧ u.targetFilename = U.outputdir ++ name ∧
        (u.entry.type = entryFile → ∀ (fs₁ fs₂ : FS Loc) (a : ℕ),
          fs₁.openWrite (N.parent (N.resolve u.targetFilename)) (N.resolve u.targetFilename) = .ok (fs₂, a) →
          ∃ fs₃ d, writeBlobData E N U c.data s.cache fs₁ u = .ok fs₃ ∧ D.fopen f.filename = some d ∧
            fs₃.contentAt (N.resolve u.targetFilename) = some d)) ∧
      (U.downloadOnly = false → TreeWalk D.toDisk opts.inDir walk → N.Tree U.outputdir place →
        (∀ f ∈ P.files, ∀ g ∈ P.files, sIslnk f.st.stMode → sIsreg g.st.stMode →
          D.readlink f.filename ≠ D.fopen g.filename) →
        fs.nodeAt (place []) = some .directory → (∀ cs, cs ≠ [] → fs.ent (place cs) = none) →
        ∃ fs', unpackMain E N U cache fs = .ok ⟨c, s, fs'⟩ ∧
          ∀ (i : ℕ) (f : FileEntry) (u : UnpackFileEntry), P.files[i]? = some f → c.entries[i]? = some u →
            ∃ n, fs'.nodeAt (N.resolve u.targetFilename) = some n ∧ Restored D.toDisk f n) := by
  have hmanifest : ∀ d, cache manifestFilename = some d → d = P.manifest := by
    intro d hd
    have hout := hcache manifestFilename d (.inl rfl) hd
    rw [R.outDir_manifest, Option.some.injEq] at hout
    exact hout.symm
  obtain ⟨c, hc, hdata, EF, hccache, _⟩ : ∃ c, Sfmf.unpackClassify E U cache = .ok c ∧ c.data = P.manifest ∧
      EntriesFor R U c.manifest c.entries ∧
      (∀ name, c.state.cache name = if name = manifestFilename then some P.manifest else cache name) ∧
      c.state.downloads = if cache manifestFilename = none then [manifestFilename] else [] :=
    R.unpackClassify S hmanifest
  have hcache' := R.right_classified hccache hcache
  obtain ⟨s, _, hs, _, _, _, _, hneeded⟩ := R.downloads hcoll hpacks S EF hcache'
  have hright : ∀ u ∈ c.entries, ∀ name hash z, Requires u name hash z → s.cache name = P.outDir name := by
    intro u hu name hash z hreq
    obtain ⟨_, d, hd, hd'⟩ := hneeded u hu name hash z hreq
    rw [hd, hd']
  have hdown : unpackDownload E U c = .ok s := by
    rw [unpackDownload, S.online, if_neg (by decide)]
    exact hs
  refine ⟨c, s, hc, hdown, fun i f hf => ?_, fun hfull W T hlinks hroot hempty => ?_⟩
  · obtain ⟨u, name, hu, _, hback, hname, htarget, hres, _⟩ := EF.entry i f hf
    have htype := manifestEntryType_file hback.type
    refine ⟨u, name, hu, htype, hname, htarget, fun ht fs₁ fs₂ a hopen => ?_⟩
    obtain ⟨d, hd, hw⟩ := R.writeBlobData_restores hcoll hpacks EF.readsBack (List.mem_of_getElem? hf) (htype.1 ht).1
      hres ht hback (hright u (List.mem_of_getElem? hu)) hopen (U := U)
    exact ⟨_, d, by rw [hdata, hw], hd, FS.contentAt_fill (FS.openWrite_ent hopen) d⟩
  · obtain ⟨fs₁, hwrite, I⟩ := R.writeEntries_restores T EF W hcoll hpacks hlinks hright hroot hempty
    have hdone : ∀ (i : ℕ) (f : FileEntry) (u : UnpackFileEntry), P.files[i]? = some f → c.entries[i]? = some u →
        ∃ n, fs₁.nodeAt (N.resolve u.targetFilename) = some n ∧ Restored D.toDisk f n := fun i f u hf hu =>
      I.done i f u (List.getElem?_eq_some_iff.1 hu).1 hf hu
    -- every entry is there, under a name of its own
    have hfile : ∀ {i : ℕ} {u : UnpackFileEntry}, c.entries[i]? = some u → ∃ f, P.files[i]? = some f := by
      intro i u hu
      exact ⟨_, List.getElem?_eq_getElem (EF.length ▸ (List.getElem?_eq_some_iff.1 hu).1)⟩
    have hent : ∀ u ∈ c.entries, fs₁.ent (N.resolve u.targetFilename) ≠ none := by
      intro u hu hnone
      obtain ⟨i, hi⟩ := List.getElem?_of_mem hu
      obtain ⟨f, hf⟩ := hfile hi
      obtain ⟨n, hn, _⟩ := hdone i f u hf hi
      rw [FS.nodeAt, hnone] at hn
      cases hn
    have hne : ∀ u ∈ c.entries, u.targetFilename ≠ [] := by
      intro u hu
      obtain ⟨i, hi⟩ := List.getElem?_of_mem hu
      obtain ⟨f, hf⟩ := hfile hi
      obtain ⟨v, name, hv, _, _, hname, htarget, _⟩ := EF.entry i f hf
      rw [hi, Option.some.injEq] at hv
      subst hv
      obtain ⟨cs, _, hpath⟩ := R.leadsDown W hf
      rw [htarget]
      refine List.append_ne_nil_of_right_ne_nil _ ?_
      rintro rfl
      by_cases hcs : cs = []
      · subst hcs
        have hfroot : f.filename = opts.inDir := Subtype.ext (by simpa using hpath)
        rw [hfroot, getFileBasename_root] at hname
        exact absurd (Except.ok.inj hname) (by decide)
      · obtain ⟨a, as, rfl⟩ := List.exists_cons_of_ne_nil hcs
        rw [getFileBasename_below hcs hpath] at hname
        exact absurd (Except.ok.inj hname) (by simp [pathOf])
    have hdist : (c.entries.map (·.targetFilename)).Nodup := by
      refine List.nodup_iff_getElem?_ne_getElem?.2 fun i j hij hj => ?_
      rw [List.length_map] at hj
      rw [List.getElem?_map, List.getElem?_map, List.getElem?_eq_getElem hj, List.getElem?_eq_getElem (hij.trans hj)]
      intro he
      simp only [Option.map_some, Option.some.injEq] at he
      exact hij.ne (R.target_inj T EF W (List.getElem?_eq_getElem (hij.trans hj)) (List.getElem?_eq_getElem hj) (by rw [he]))
    obtain ⟨stack, fs₂, fs₃, hperm, hfree⟩ := setPermissions_total hent hdist hne
    have hsame : FS.SameTree fs₁ fs₃ := (setPermissions_sameTree hperm).trans (dirstackFree_sameTree hfree)
    refine ⟨fs₃, ?_, fun i f u hf hu => ?_⟩
    · simp only [unpackMain, hc, hdown, unpackWrite, hfull, Bool.false_eq_true, if_false, hdata, hwrite, hperm, hfree,
        ok_bind, pure_eq_ok]
    · rw [hsame.nodeAt]
      exact hdone i f u hf hu

theorem letterWalk_treeWalk : TreeWalk letterTree.toDisk letterTreeOptions.inDir letterWalk := by
  have hdir : IsDirectory letterTree.toDisk letterTreeOptions.inDir := ⟨⟨1, 0o040755, 0, 0, 0, 64, 7⟩, by decide, by decide⟩
  have hroot : letterTreeOptions.inDir ∈ letterWalk.take 1 := by decide
  have hstep : ∀ {walk : List CString} {p : CString} (c : UInt8), TreeWalk letterTree.toDisk letterTreeOptions.inDir walk →
      letterTreeOptions.inDir ∈ walk → Component [c] → p.val = letterTreeOptions.inDir.val ++ [slash, c] → p ∉ walk →
      TreeWalk letterTree.toDisk letterTreeOptions.inDir (walk ++ [p]) :=
    fun c W hin hc hp hnew => .visit W hin hdir hc hp hnew
  exact hstep 0x6c (hstep 0x65 (hstep 0x68 (hstep 0x62 (hstep 0x61 (.root hdir) hroot (by decide) rfl (by decide))
    (by decide) (by decide) rfl (by decide)) (by decide) (by decide) rfl (by decide)) (by decide) (by decide) rfl
    (by decide)) (by decide) (by decide) rfl (by decide)

theorem unpack_restores_letterTree : ∃ P r, packMain letterTreeEnv letterTree.toDisk letterTreeOptions (str ['m'])
    (fun _ => none) letterWalk = .ok P ∧
    unpackMain letterTreeEnv (lexical []) (clientOf P false) (fun _ => none) (.oneDirectory [str ['o']]) = .ok r ∧
    r.fs.contentAt [str ['o'], str ['a']] = some letters ∧ r.fs.contentAt [str ['o'], str ['b']] = some letters ∧
    r.fs.contentAt [str ['o'], str ['h']] = some letters ∧ r.fs.contentAt [str ['o'], str ['e']] = some [] := by
  obtain ⟨P, R, hpacks, hnames, _⟩ := letterTree_packRun
  obtain ⟨c, s, _, _, hentries, hrun⟩ := @unpack_restores letterTreeEnv letterTree letterTreeOptions (str ['m'])
    (fun _ => none) letterWalk P (clientOf P false) (List Bytes) _ (lexical []) (resolve [] (str ['o']) ++ ·)
    (.oneDirectory [str ['o']]) (fun _ => none) R (letterTree_noCollision P) hpacks
    (clientOf_serves letterTreeEnv P false) (by simp)
  have hwalk : ∀ {f : FileEntry}, f ∈ P.files → f.filename ∈ letterWalk := by
    intro f hf
    rw [← hnames]
    exact List.mem_map.2 ⟨f, hf, rfl⟩
  have hlinks : ∀ f ∈ P.files, ∀ g ∈ P.files, sIslnk f.st.stMode → sIsreg g.st.stMode →
      letterTree.readlink f.filename ≠ letterTree.fopen g.filename := by
    intro f hf g hg hl hr
    have hdiff : ∀ p ∈ letterWalk, ∀ q ∈ letterWalk, (letterTree.lstat p).any (fun st => sIslnk st.stMode) →
        (letterTree.lstat q).any (fun st => sIsreg st.stMode) → letterTree.readlink p ≠ letterTree.fopen q := by
      decide +kernel
    exact hdiff _ (hwalk hf) _ (hwalk hg) (by rw [(R.listed hf).lstat]; exact decide_eq_true hl)
      (by rw [(R.listed hg).lstat]; exact decide_eq_true hr)
  have htree : (lexical []).Tree (str ['o']) (resolve [] (str ['o']) ++ ·) := lexical_tree [] (by decide)
  have hempty : ∀ cs, cs ≠ [] → (FS.oneDirectory [str ['o']]).ent (resolve [] (str ['o']) ++ cs) = none := by
    intro cs hcs
    refine FS.oneDirectory_other fun he => hcs ?_
    have hroot : resolve [] (str ['o']) = [str ['o']] := by decide
    rw [hroot] at he
    exact (List.append_cancel_left (he.trans (List.append_nil _).symm))
  obtain ⟨fs', hmain, hrestored⟩ := hrun rfl letterWalk_treeWalk htree hlinks
    (FS.oneDirectory_self _) hempty
  -- the content of a regular file of the tree
  have hcontent : ∀ (i : ℕ) (p : CString) (name d : Bytes) (l : List Bytes), letterWalk[i]? = some p →
      (letterTree.lstat p).any (fun st => sIsreg st.stMode) →
      getFileBasename letterTreeOptions.inDir p = .ok name → letterTree.fopen p = some d →
      (lexical []).resolve (str ['o'] ++ name) = l → fs'.contentAt l = some d := by
    rintro i p name d l hp hreg hname hopen rfl
    rw [← hnames, List.getElem?_map, Option.map_eq_some_iff] at hp
    obtain ⟨f, hf, rfl⟩ := hp
    obtain ⟨u, name', hu, _, hname', htarget, _⟩ := hentries i f hf
    rw [hname, Except.ok.injEq] at hname'
    subst hname'
    obtain ⟨n, hn, hrest⟩ := hrestored i f u hf hu
    rw [(R.listed (List.mem_of_getElem? hf)).lstat] at hreg
    obtain ⟨d', hd', rfl⟩ := hrest.regular (by simpa using hreg)
    rw [hopen, Option.some.injEq] at hd'
    subst hd'
    rw [htarget] at hn
    exact FS.contentAt_file hn
  exact ⟨P, _, R.run, hmain, hcontent 1 _ (str ['/', 'a']) _ _ rfl (by decide) (by decide) (by decide) (by decide),
    hcontent 2 _ (str ['/', 'b']) _ _ rfl (by decide) (by decide) (by decide) (by decide),
    hcontent 3 _ (str ['/', 'h']) _ _ rfl (by decide) (by decide) (by decide) (by decide),
    hcontent 4 _ (str ['/', 'e']) _ _ rfl (by decide) (by decide) (by decide) (by decide)⟩

end Sfmf
