import Sfmf.Proof.Classify
import Sfmf.Proof.DirStack
import Sfmf.Proof.Download
import Sfmf.Proof.FileEntry

/-!
# A successful unpack leaves verified contents

Every entry is written at a location that is vacant or a directory, and what is
there afterwards is not touched again.

* `unpackWriteEntry_call`: the call that writes an entry.
* `unpackWriteEntry_ok`: what it leaves.
* `writeEntries_facts`: what the writing of all entries leaves.
* `setPermissions_sameTree`: the last phase changes attributes only.
* `UnpackRun`: a successful run, phase by phase.
* `unpack_verified`: what it leaves.
-/

namespace Sfmf

variable {E : Env} {Loc : Type} [DecidableEq Loc] {N : Naming Loc} {opts : UnpackOptions} {m : Manifest}

/-! ## One entry -/

/-- A location where an entry can still be written. -/
def Open (fs : FS Loc) (l : Loc) : Prop := fs.ent l = none ∨ fs.nodeAt l = some .directory

/-- A location with an inode that is not a directory. -/
def Settled (fs : FS Loc) (l : Loc) (a : ℕ) : Prop := fs.ent l = some a ∧ fs.node a ≠ .directory

omit [DecidableEq Loc] in
theorem Settled.not_open {fs : FS Loc} {l : Loc} {a : ℕ} (h : Settled fs l a) : ¬ Open fs l := by
  rintro (hn | hd)
  · rw [h.1] at hn; cases hn
  · simp only [FS.nodeAt, h.1, Option.map_some, Option.some.injEq] at hd
    exact h.2 hd

omit [DecidableEq Loc] in
/-- **What is settled stays**, when an entry is made at an open location. -/
theorem Settled.grows {fs fs' : FS Loc} {l l' : Loc} {a : ℕ} (h : Settled fs l a) (hg : FS.Grows l' fs fs')
    (hl' : Open fs l') : Settled fs' l a := by
  have hne : l ≠ l' := by rintro rfl; exact h.not_open hl'
  exact ⟨by rw [hg.ent l hne, h.1], by rw [hg.node a (fs.ent_lt h.1)]; exact h.2⟩

omit [DecidableEq Loc] in
theorem Open.grows {fs fs' : FS Loc} {l l' : Loc} (h : Open fs l) (hg : FS.Grows l' fs fs') (hne : l ≠ l') :
    Open fs' l := by
  unfold Open
  rw [hg.ent l hne, hg.nodeAt hne]
  exact h

/-- A content that passes the check of `write_blob_data`. -/
def ContentVerified (E : Env) (e : SfmfFileEntry) (c : Bytes) : Prop :=
  e.hash = ⟨UInt32.ofNat c.length, hashtypeSha1, E.sha1 c⟩

/-- **What is known of an entry that has been written**, for as long as its files stay. -/
structure EntryWritten (E : Env) (N : Naming Loc) (opts : UnpackOptions) (m : Manifest) (fs : FS Loc)
    (u : UnpackFileEntry) : Prop where
  file : u.entry.type = entryFile → ∃ a c, Settled fs (N.resolve u.targetFilename) a ∧ fs.node a = .file c ∧
    (u.blobResult = .empty → c = []) ∧ (u.blobResult ≠ .empty → ContentVerified E u.entry c)
  hardlink : u.entry.type = entryHardlink → ∃ h name a, m.fentries[u.entry.dev.toNat]? = some h ∧
    m.filenameAt h.filenameOffset = .ok name ∧ Settled fs (N.resolve u.targetFilename) a ∧
    Settled fs (N.resolve (opts.outputdir ++ name)) a

omit [DecidableEq Loc] in
theorem EntryWritten.grows {fs fs' : FS Loc} {u : UnpackFileEntry} {l : Loc} (h : EntryWritten E N opts m fs u)
    (hg : FS.Grows l fs fs') (hl : Open fs l) : EntryWritten E N opts m fs' u where
  file ht := by
    obtain ⟨a, c, hs, hn, hc⟩ := h.file ht
    exact ⟨a, c, hs.grows hg hl, by rw [hg.node a (fs.ent_lt hs.1)]; exact hn, hc⟩
  hardlink ht := by
    obtain ⟨e, name, a, he, hname, hs, hs'⟩ := h.hardlink ht
    exact ⟨e, name, a, he, hname, hs.grows hg hl, hs'.grows hg hl⟩

theorem orExit_ok {α : Type} {msg : String} {x : Except Errno α} {a : α} : orExit msg x = .ok a ↔ x = .ok a := by
  cases x <;> simp [orExit]

/-- **`write_blob_data` at an open location**: the file is new there, and its content has passed the check. -/
theorem writeBlobData_ok {d : Bytes} {cache : Dir} {fs fs' : FS Loc} {u : UnpackFileEntry}
    (h : writeBlobData E N opts d cache fs u = .ok fs') (hl : Open fs (N.resolve u.targetFilename)) :
    FS.Grows (N.resolve u.targetFilename) fs fs' ∧ ∃ a c, Settled fs' (N.resolve u.targetFilename) a ∧
      fs'.node a = .file c ∧ (u.blobResult = .empty → c = []) ∧
      (u.blobResult ≠ .empty → ContentVerified E u.entry c) := by
  simp only [writeBlobData, bind_ok, orExit_ok] at h
  obtain ⟨⟨fs₁, i⟩, hopen, ops, hops, content, hcontent, h⟩ := h
  set l := N.resolve u.targetFilename with hldef
  have hnone : fs.ent l = none := by
    rcases hl with hn | hd
    · exact hn
    · rw [FS.openWrite_directory hd] at hopen; cases hopen
  rw [FS.openWrite_vacant hnone] at hopen
  split at hopen
  case isFalse => cases hopen
  cases hopen
  have hgrows : FS.Grows l fs ((fs.make (N.parent l) l (.file [])).setNode fs.next (.file content)) :=
    FS.grows_fill (N.parent l) l content
  -- the check of the hash, which an empty file does without
  have hfs' : fs' = (fs.make (N.parent l) l (.file [])).setNode fs.next (.file content) ∧
      (u.blobResult ≠ .empty → ContentVerified E u.entry content) := by
    by_cases he : u.blobResult = .empty
    · rw [if_pos he] at h
      cases h
      exact ⟨rfl, fun hn => absurd he hn⟩
    · rw [if_neg he] at h
      simp only [bind_ok, convertFileZsizeHash_eq, Bool.false_eq_true, if_false, Except.ok.injEq] at h
      obtain ⟨_, rfl, same, hsame, h⟩ := h
      obtain ⟨_, _, hsame⟩ := sfmfFilehashCompare_ok.1 hsame
      cases same with
      | false => simp at h
      | true =>
        cases h
        exact ⟨rfl, fun _ => (of_decide_eq_true hsame.symm).symm⟩
  obtain ⟨rfl, hver⟩ := hfs'
  refine ⟨hgrows, fs.next, content, ⟨?_, ?_⟩, ?_, ?_, hver⟩
  · exact FS.ent_fill (N.parent l) l content
  · simp [FS.setNode]
  · simp [FS.setNode]
  · intro he
    rw [he] at hops
    cases hops
    have hnil : writeFile E [] = .ok [] := rfl
    rw [hnil] at hcontent
    cases hcontent
    rfl

/-- **The call that writes an entry.** -/
inductive EntryCall (E : Env) (N : Naming Loc) (opts : UnpackOptions) (d : Bytes) (m : Manifest) (cache : Dir)
    (fs fs' : FS Loc) (u : UnpackFileEntry) : Prop
  /-- the root is there already -/
  | root (htype : u.entry.type = entryDirectory) (hent : fs.ent (N.resolve u.targetFilename) ≠ none) (h : fs' = fs)
  | create {n : Node} (hfile : u.entry.type ≠ entryFile) (hlink : u.entry.type ≠ entryHardlink)
      (h : fs.create (N.parent (N.resolve u.targetFilename)) (N.resolve u.targetFilename) n = .ok fs')
  | write (htype : u.entry.type = entryFile) (h : writeBlobData E N opts d cache fs u = .ok fs')
  | link {e : SfmfFileEntry} {name : Bytes} (htype : u.entry.type = entryHardlink)
      (he : m.fentries[u.entry.dev.toNat]? = some e) (hname : m.filenameAt e.filenameOffset = .ok name)
      (h : fs.link (N.resolve (opts.outputdir ++ name)) (N.parent (N.resolve u.targetFilename))
        (N.resolve u.targetFilename) = .ok fs')

theorem unpackWriteEntry_call {d : Bytes} {cache : Dir} {fs fs' : FS Loc} {u : UnpackFileEntry}
    (h : unpackWriteEntry E N opts d m cache fs u = .ok fs') : EntryCall E N opts d m cache fs fs' u := by
  unfold unpackWriteEntry at h
  -- the cases of the switch, in its order
  have hother : ∀ {t : EntryType}, u.entry.type = t → t ≠ entryFile → t ≠ entryHardlink →
      u.entry.type ≠ entryFile ∧ u.entry.type ≠ entryHardlink := fun ht hf hl => ⟨ht ▸ hf, ht ▸ hl⟩
  by_cases hdir : u.entry.type = entryDirectory
  · rw [if_pos hdir] at h
    simp only [bind_ok] at h
    obtain ⟨filename, _, h⟩ := h
    obtain ⟨hf, hl⟩ := hother hdir (by decide) (by decide)
    split at h
    · rename_i fs₁ hc
      cases h
      exact .create hf hl hc
    · rename_i err hc
      split at h
      · rename_i hroot
        cases h
        rw [hroot.2] at hc
        exact .root hdir (FS.create_eexist hc) rfl
      · simp at h
  rw [if_neg hdir] at h
  by_cases hfile : u.entry.type = entryFile
  · rw [if_pos hfile] at h
    exact .write hfile h
  rw [if_neg hfile] at h
  by_cases hsym : u.entry.type = entrySymlink
  · rw [if_pos hsym] at h
    obtain ⟨hf, hl⟩ := hother hsym (by decide) (by decide)
    split at h
    · simp only [bind_ok] at h
      obtain ⟨_, _, data, _, h⟩ := h
      by_cases ht : data.takeWhile (· ≠ 0) = []
      · simp only [ht, if_true] at h
        simp at h
      · simp only [ht, if_false, orExit_ok] at h
        exact .create hf hl h
    · cases h
  rw [if_neg hsym] at h
  by_cases hdev : u.entry.type = entryCharacter ∨ u.entry.type = entryBlock
  · rw [if_pos hdev, orExit_ok] at h
    have hl : u.entry.type ≠ entryHardlink := fun ht => by rw [ht] at hdev; exact absurd hdev (by decide)
    exact .create hfile hl h
  rw [if_neg hdev] at h
  by_cases hfifo : u.entry.type = entryFifo
  · rw [if_pos hfifo, orExit_ok] at h
    obtain ⟨hf, hl⟩ := hother hfifo (by decide) (by decide)
    exact .create hf hl h
  rw [if_neg hfifo] at h
  by_cases hlink : u.entry.type = entryHardlink
  · rw [if_pos hlink] at h
    simp only [bind_ok] at h
    obtain ⟨_, _, h⟩ := h
    split at h
    · cases h
    rename_i hentry hhentry
    simp only [bind_ok, orExit_ok] at h
    obtain ⟨name, hname, h⟩ := h
    exact .link hlink hhentry hname h
  · rw [if_neg hlink] at h
    cases h

/-- **The writing of one entry** at an open location leaves the rest alone. -/
theorem unpackWriteEntry_ok {d : Bytes} {cache : Dir} {fs fs' : FS Loc} {u : UnpackFileEntry}
    (h : unpackWriteEntry E N opts d m cache fs u = .ok fs') (hl : Open fs (N.resolve u.targetFilename)) :
    FS.Grows (N.resolve u.targetFilename) fs fs' ∧ EntryWritten E N opts m fs' u := by
  cases unpackWriteEntry_call h with
  | root htype _ hfs =>
    subst hfs
    exact ⟨FS.Grows.refl _ fs', fun ht => absurd (htype.symm.trans ht) (by decide),
      fun ht => absurd (htype.symm.trans ht) (by decide)⟩
  | create hfile hlink hc =>
    exact ⟨(FS.create_ok hc).2.2.2, fun ht => absurd ht hfile, fun ht => absurd ht hlink⟩
  | write htype hw =>
    obtain ⟨hg, hw⟩ := writeBlobData_ok hw hl
    exact ⟨hg, fun _ => hw, fun ht => absurd (htype.symm.trans ht) (by decide)⟩
  | @link e name htype he hname hlink =>
    obtain ⟨_, hg, a, hsrc, hent, hent'⟩ := FS.link_ok hlink
    have hnode : fs'.node a ≠ .directory := FS.link_node hlink hsrc
    exact ⟨hg, fun ht => absurd (htype.symm.trans ht) (by decide),
      fun _ => ⟨e, name, a, he, hname, ⟨hent, hnode⟩, ⟨hent', hnode⟩⟩⟩

/-! ## All entries -/

/-- **The writing of all entries.** If their locations are open and distinct, then afterwards each one is
as it was written. -/
theorem writeEntries_facts {d : Bytes} {cache : Dir} : ∀ (done : List UnpackFileEntry)
    {us : List UnpackFileEntry} {fs fs' : FS Loc},
    us.foldlM (unpackWriteEntry E N opts d m cache) fs = .ok fs' →
    (∀ u ∈ us, Open fs (N.resolve u.targetFilename)) →
    (us.map fun u => N.resolve u.targetFilename).Nodup →
    (∀ u ∈ done, EntryWritten E N opts m fs u) → ∀ u ∈ done ++ us, EntryWritten E N opts m fs' u := by
  intro done us
  induction us generalizing done with
  | nil =>
    intro fs fs' h _ _ hdone
    simp only [List.foldlM_nil, pure_eq_ok, Except.ok.injEq] at h
    subst h
    simpa using hdone
  | cons u us ih =>
    intro fs fs' h hopen hdist hdone
    simp only [List.foldlM_cons, bind_ok] at h
    obtain ⟨fs₁, hu, hus⟩ := h
    rw [List.map_cons, List.nodup_cons] at hdist
    have hl := hopen u List.mem_cons_self
    obtain ⟨hg, hw⟩ := unpackWriteEntry_ok hu hl
    have hopen' : ∀ v ∈ us, Open fs₁ (N.resolve v.targetFilename) := by
      intro v hv
      refine (hopen v (List.mem_cons_of_mem _ hv)).grows hg ?_
      intro he
      exact hdist.1 (List.mem_map.2 ⟨v, hv, he⟩)
    have hdone' : ∀ v ∈ done ++ [u], EntryWritten E N opts m fs₁ v := by
      intro v hv
      rcases List.mem_append.1 hv with hv | hv
      · exact (hdone v hv).grows hg hl
      · rw [List.mem_singleton.1 hv]; exact hw
    simpa using ih (done ++ [u]) hus hopen' hdist.2 hdone'

/-! ## The last phase -/

omit [DecidableEq Loc] in
theorem unpackDirstackEntryPop_sameTree {fs fs' : FS Loc} {entry : DirStackEntry}
    (h : unpackDirstackEntryPop N fs entry = .ok fs') : FS.SameTree fs fs' :=
  FS.chattr_ok (orExit_ok.1 h)

omit [DecidableEq Loc] in
theorem dirstackFree_sameTree {stack : List DirStackEntry} {fs fs' : FS Loc}
    (h : dirstackFree (unpackDirstackEntryPop N) stack fs = .ok fs') : FS.SameTree fs fs' :=
  foldlM_inv (fun s => FS.SameTree fs s) (fun _ _ _ _ hs hstep => hs.trans (unpackDirstackEntryPop_sameTree hstep))
    (FS.SameTree.refl fs) h

omit [DecidableEq Loc] in
theorem dirstackPush_sameTree {current : DirStackEntry} {stack stack' : List DirStackEntry} {fs fs' : FS Loc}
    (h : dirstackPush (unpackDirstackEntryPop N) current stack fs = .ok (stack', fs')) : FS.SameTree fs fs' := by
  obtain ⟨popped, rest, -, -, hpopped⟩ := dirstackPush_ok h
  exact dirstackFree_sameTree hpopped

omit [DecidableEq Loc] in
theorem unpackSetPermissions_sameTree {s s' : List DirStackEntry × FS Loc} {u : UnpackFileEntry}
    (h : unpackSetPermissions N s u = .ok s') : FS.SameTree s.2 s'.2 := by
  simp only [unpackSetPermissions, bind_ok, orExit_ok] at h
  obtain ⟨fs₁, h₁, fs₂, h₂, h⟩ := h
  have hs₂ : FS.SameTree fs₁ fs₂ := by
    unfold setMode at h₂
    split at h₂
    · cases h₂; exact FS.SameTree.refl _
    · exact FS.chattr_ok (orExit_ok.1 h₂)
  have hs := (FS.lchown_ok h₁).trans hs₂
  split at h
  · exact hs.trans (dirstackPush_sameTree h)
  · simp only [bind_ok, orExit_ok, pure_eq_ok, Except.ok.injEq] at h
    obtain ⟨fs₃, h₃, rfl⟩ := h
    exact hs.trans (FS.chattr_ok h₃)

omit [DecidableEq Loc] in
/-- **The last phase changes attributes only.** -/
theorem setPermissions_sameTree {us : List UnpackFileEntry} {fs fs' : FS Loc} {stack : List DirStackEntry}
    (h : us.foldlM (unpackSetPermissions N) ([], fs) = .ok (stack, fs')) : FS.SameTree fs fs' :=
  foldlM_inv (fun s => FS.SameTree fs s.2) (fun _ _ _ _ hs hstep => hs.trans (unpackSetPermissions_sameTree hstep))
    (FS.SameTree.refl fs) h

omit [DecidableEq Loc] in
theorem EntryWritten.sameTree {fs fs' : FS Loc} {u : UnpackFileEntry} (h : EntryWritten E N opts m fs u)
    (hs : FS.SameTree fs fs') : EntryWritten E N opts m fs' u := by
  obtain ⟨hfile, hlink⟩ := h
  constructor
  · simpa only [Settled, hs.ent, hs.node] using hfile
  · simpa only [Settled, hs.ent, hs.node] using hlink

/-! ## The whole run -/

/-- **What a successful run has done**, one phase after the other. -/
structure UnpackRun (E : Env) (N : Naming Loc) (opts : UnpackOptions) (fs : FS Loc) (r : Unpacked Loc) (fs₁ : FS Loc) :
    Prop where
  manifest : readManifest r.classified.data = .ok r.classified.manifest
  classified : List.Forall₂ (EntryClassified opts r.classified.manifest) r.classified.manifest.fentries
    r.classified.entries
  write : r.classified.entries.foldlM (unpackWriteEntry E N opts r.classified.data r.classified.manifest r.state.cache)
    fs = .ok fs₁
  permissions : ∃ stack fs₂, r.classified.entries.foldlM (unpackSetPermissions N) ([], fs₁) = .ok (stack, fs₂) ∧
    dirstackFree (unpackDirstackEntryPop N) stack fs₂ = .ok r.fs

theorem unpackMain_ok {cache : Dir} {fs : FS Loc} {r : Unpacked Loc} (h : unpackMain E N opts cache fs = .ok r)
    (hfull : opts.downloadOnly = false) : ∃ fs₁, UnpackRun E N opts fs r fs₁ := by
  simp only [unpackMain, bind_ok] at h
  obtain ⟨c, hc, s, _, fs', hw, h⟩ := h
  cases h
  obtain ⟨hm, ⟨_, _, hentries⟩, _⟩ := unpackClassify_ok hc
  simp only [unpackWrite, hfull, Bool.false_eq_true, if_false, bind_ok] at hw
  obtain ⟨fs₁, hwrite, ⟨stack, fs₂⟩, hperm, hfree⟩ := hw
  exact ⟨fs₁, hm, classifyEntries_ok hentries, hwrite, stack, fs₂, hperm, hfree⟩

section

variable {fs fs₁ : FS Loc} {r : Unpacked Loc} (W : UnpackRun E N opts fs r fs₁)

include W

/-- After the entries have been written, only attributes change. -/
theorem UnpackRun.sameTree : FS.SameTree fs₁ r.fs := by
  obtain ⟨_, _, hperm, hfree⟩ := W.permissions
  exact (setPermissions_sameTree hperm).trans (dirstackFree_sameTree hfree)

/-- Every entry of the manifest is classified, under its target name. -/
theorem UnpackRun.targets : List.Forall₂ (fun e u => u.entry = e ∧ ∃ name,
    r.classified.manifest.filenameAt e.filenameOffset = .ok name ∧ u.targetFilename = opts.outputdir ++ name)
    r.classified.manifest.fentries r.classified.entries :=
  W.classified.imp fun _ _ h => ⟨h.entry, h.target⟩

/-- **Every entry is left as it was written.** -/
theorem UnpackRun.written (hopen : ∀ u ∈ r.classified.entries, Open fs (N.resolve u.targetFilename))
    (hdist : (r.classified.entries.map fun u => N.resolve u.targetFilename).Nodup) :
    ∀ u ∈ r.classified.entries, EntryWritten E N opts r.classified.manifest r.fs u := by
  intro u hu
  have hwritten := writeEntries_facts [] W.write hopen hdist (by simp) u (by simpa using hu)
  exact hwritten.sameTree W.sameTree

end

/-- **A successful unpack only leaves verified contents.** Whatever the manifest, the cache, the local
sources and the downloads are: if the targets are at distinct locations, each vacant or a directory, then
a run that ends successfully leaves at the target of every file the SHA-1 that the manifest has for it,
and its length as a 32-bit number; a file of size 0 is empty; and a hard link is the same file as the
entry it refers to. -/
theorem unpack_verified {cache : Dir} {fs : FS Loc} {r : Unpacked Loc}
    (h : unpackMain E N opts cache fs = .ok r) (hfull : opts.downloadOnly = false)
    (hopen : ∀ u ∈ r.classified.entries, fs.ent (N.resolve u.targetFilename) = none ∨
      fs.nodeAt (N.resolve u.targetFilename) = some .directory)
    (hdist : (r.classified.entries.map fun u => N.resolve u.targetFilename).Nodup) :
    readManifest r.classified.data = .ok r.classified.manifest ∧
    List.Forall₂ (fun e u => u.entry = e ∧ ∃ name, r.classified.manifest.filenameAt e.filenameOffset = .ok name ∧
      u.targetFilename = opts.outputdir ++ name) r.classified.manifest.fentries r.classified.entries ∧
    ∀ u ∈ r.classified.entries,
      (u.entry.type = entryFile → u.entry.hash.size > 0 →
        ∃ content, r.fs.contentAt (N.resolve u.targetFilename) = some content ∧
          UInt32.ofNat content.length = u.entry.hash.size ∧ E.sha1 content = u.entry.hash.hash) ∧
      (u.entry.type = entryFile → u.entry.hash.size = 0 →
        r.fs.contentAt (N.resolve u.targetFilename) = some []) ∧
      (u.entry.type = entryHardlink → ∃ v a, r.classified.entries[u.entry.dev.toNat]? = some v ∧
        r.fs.ent (N.resolve u.targetFilename) = some a ∧ r.fs.ent (N.resolve v.targetFilename) = some a) := by
  obtain ⟨fs₁, W⟩ := unpackMain_ok h hfull
  have hcl := W.classified
  refine ⟨W.manifest, W.targets, fun u hu => ?_⟩
  have hwritten := W.written hopen hdist u hu
  obtain ⟨i, hi, rfl⟩ := List.getElem_of_mem hu
  have hi' : i < r.classified.manifest.fentries.length := hcl.length_eq ▸ hi
  have hcu := hcl.get hi' hi
  simp only [List.get_eq_getElem] at hcu
  refine ⟨fun ht hsize => ?_, fun ht hsize => ?_, fun ht => ?_⟩
  · obtain ⟨a, content, hs, hn, _, hv⟩ := hwritten.file ht
    have hver : ContentVerified E r.classified.entries[i].entry content := by
      refine hv (hcu.full ?_ ?_)
      · rw [← hcu.entry, ht]; decide
      · rw [← hcu.entry]; exact hsize
    refine ⟨content, by simp [FS.contentAt, FS.nodeAt, hs.1, hn], ?_, ?_⟩
    · rw [hver]
    · rw [hver]
  · obtain ⟨a, content, hs, hn, hempty, _⟩ := hwritten.file ht
    have hnil : content = [] := by
      refine hempty (hcu.empty ?_ ?_)
      · rw [← hcu.entry, ht]; decide
      · rw [← hcu.entry]; exact hsize
    subst hnil
    simp [FS.contentAt, FS.nodeAt, hs.1, hn]
  · obtain ⟨e, name, a, he, hname, hs, hs'⟩ := hwritten.hardlink ht
    obtain ⟨v, hv, htarget⟩ := EntryClassified.linkTargets hcl _ _ _ he hname
    exact ⟨v, a, hv, hs.1, by rw [htarget]; exact hs'.1⟩

/-- On the tree of the letters, with a pack, a hard link, an empty file and a symlink. -/
theorem unpack_verified_letterTree : ∃ P r, packMain letterTreeEnv letterTree.toDisk letterTreeOptions (str ['m'])
    (fun _ => none) letterWalk = .ok P ∧
    unpackMain letterTreeEnv (lexical []) (clientOf P false) (fun _ => none) (.oneDirectory [str ['o']]) = .ok r ∧
    r.classified.entries.map (·.entry.type) =
      [entryDirectory, entryFile, entryFile, entryHardlink, entryFile, entrySymlink] ∧
    ∀ u ∈ r.classified.entries,
      (u.entry.type = entryFile → u.entry.hash.size > 0 →
        ∃ content, r.fs.contentAt ((lexical []).resolve u.targetFilename) = some content ∧
          UInt32.ofNat content.length = u.entry.hash.size ∧ letterTreeEnv.sha1 content = u.entry.hash.hash) ∧
      (u.entry.type = entryFile → u.entry.hash.size = 0 →
        r.fs.contentAt ((lexical []).resolve u.targetFilename) = some []) ∧
      (u.entry.type = entryHardlink → ∃ v a, r.classified.entries[u.entry.dev.toNat]? = some v ∧
        r.fs.ent ((lexical []).resolve u.targetFilename) = some a ∧
        r.fs.ent ((lexical []).resolve v.targetFilename) = some a) := by
  have hpasses : (packMain letterTreeEnv letterTree.toDisk letterTreeOptions (str ['m']) (fun _ => none)
      letterWalk).passes (fun P => (unpackMain letterTreeEnv (lexical []) (clientOf P false) (fun _ => none)
        (.oneDirectory [str ['o']])).passes fun r =>
          r.classified.entries.map (·.entry.type) =
            [entryDirectory, entryFile, entryFile, entryHardlink, entryFile, entrySymlink] ∧
          (∀ u ∈ r.classified.entries,
            (FS.oneDirectory [str ['o']]).ent ((lexical []).resolve u.targetFilename) = none ∨
            (FS.oneDirectory [str ['o']]).nodeAt ((lexical []).resolve u.targetFilename) = some .directory) ∧
          (r.classified.entries.map fun u => (lexical []).resolve u.targetFilename).Nodup) = true := by
    decide +kernel
  obtain ⟨P, hP, hrun⟩ := Exec.of_passes hpasses
  obtain ⟨r, hr, hcheck⟩ := Exec.of_passes hrun
  obtain ⟨htypes, hopen, hdist⟩ := of_decide_eq_true hcheck
  exact ⟨P, r, hP, hr, htypes, (unpack_verified hr rfl hopen hdist).2.2⟩

/-! ## A file of 4 GiB and 5 bytes -/

/-- The entry of a file of 5 bytes, or so it says. -/
def fiveEntry (digest : Digest) : SfmfFileEntry :=
  ⟨entryFile, 0o100644, 0, 0, 0, 0, 5, ⟨5, hashtypeSha1, digest⟩, 0⟩

/-- The tables of a manifest with that entry, under the name `/x`. -/
def fiveTables (digest : Digest) : Manifest :=
  ⟨⟨sfmfMagicNumber, sfmfCurrentVersion, 1, 3, 1, 0, 0⟩, [0], str ['/', 'x'] ++ [0], [fiveEntry digest], [], [], []⟩

/-- Their bytes. -/
def fiveManifest (digest : Digest) : Bytes :=
  (fiveTables digest).header.encode ++ (fiveTables digest).metadata ++ (fiveTables digest).filenameTable ++
    (fiveEntry digest).encode

/-- A server that has the manifest, and this blob under every other name. -/
def fiveOptions (digest : Digest) (blob : Bytes) : UnpackOptions :=
  ⟨str ['o'], false, false, .http fun n => some (if n = manifestFilename then fiveManifest digest else blob),
    ⟨fun _ => none, fun _ => none, fun _ => none⟩, []⟩

/-- A file system with an empty output directory. -/
def outputFS : FS (List Bytes) := .oneDirectory [str ['o']]

theorem five_classify {digest : Digest} {blob : Bytes} {E : Env}
    (hheader : readHeader (fiveManifest digest) = .ok ((fiveTables digest).header, 28))
    (htables : readTables (fiveManifest digest) (fiveTables digest).header 28 = .ok (fiveTables digest)) :
    ∃ c, unpackClassify E (fiveOptions digest blob) (fun _ => none) = .ok c ∧ c.data = fiveManifest digest ∧
      c.manifest = fiveTables digest ∧ c.entries = [⟨fiveEntry digest, .full, str ['o', '/', 'x']⟩] ∧
      c.state.cache = Dir.write (fun _ => none) manifestFilename (fiveManifest digest) ∧
      c.state.cachedFiles = [manifestFilename] := by
  have hfile : downloadPayloadFile E (fiveOptions digest blob).source (fiveOptions digest blob).offlineMode
      manifestFilename none false ⟨fun _ => none, [], []⟩ = .ok (some manifestFilename,
        ⟨Dir.write (fun _ => none) manifestFilename (fiveManifest digest), [manifestFilename], [manifestFilename]⟩) := rfl
  have hclass : classifyEntries E (fiveOptions digest blob) (fiveTables digest) [] [fiveEntry digest] =
      .ok ([⟨fiveEntry digest, .full, str ['o', '/', 'x']⟩], []) := rfl
  have hcache : Dir.write (fun _ => none) manifestFilename (fiveManifest digest) manifestFilename =
      some (fiveManifest digest) := by simp [Dir.write]
  have hlocal : (fiveOptions digest blob).sourcedirs.foldlM
      (extendFileList E (fiveOptions digest blob).localDisk true .none) [] = .ok [] := rfl
  have hentries : (fiveTables digest).fentries = [fiveEntry digest] := rfl
  unfold unpackClassify
  simp only [hfile, ok_bind, Option.isSome_some, cAssert, if_true, hcache, hheader, hlocal, htables, hentries, hclass,
    pure_eq_ok]
  exact ⟨_, rfl, rfl, rfl, rfl, rfl, rfl⟩

/-- **The run unpacks whatever blob it gets** that has the right SHA-1, and the length 5 as a 32-bit number. -/
theorem five_run {digest : Digest} {blob : Bytes} {E : Env} (hE : E.NoReflink)
    (hheader : readHeader (fiveManifest digest) = .ok ((fiveTables digest).header, 28))
    (htables : readTables (fiveManifest digest) (fiveTables digest).header 28 = .ok (fiveTables digest))
    (hblob : (fiveEntry digest).hash = ⟨UInt32.ofNat blob.length, hashtypeSha1, E.sha1 blob⟩) :
    ∃ r, unpackMain E (lexical []) (fiveOptions digest blob) (fun _ => none) outputFS = .ok r ∧
      r.classified.entries = [⟨fiveEntry digest, .full, str ['o', '/', 'x']⟩] ∧
      r.fs.contentAt [str ['o'], str ['x']] = some blob := by
  obtain ⟨c, hc, hdata, hmanifest, hentries, hcache, hfiles⟩ := @five_classify digest blob E hheader htables
  obtain ⟨name, hname⟩ : ∃ name, makeBlobFilename (fiveEntry digest).hash = .ok name := ⟨_, rfl⟩
  have hne : name ≠ manifestFilename := by
    intro he
    have hlast := blobFilename_last hname
    rw [he] at hlast
    exact absurd hlast (by decide)
  have hv : Verifies E (fiveEntry digest).hash false blob := (verifies_iff E).2 ⟨blob, converted_none E blob, hblob⟩
  -- the blob is fetched into the cache
  have habsent : c.state.cache name = none := by simp [hcache, Dir.write, hne]
  have hfetch : fetch E (fiveOptions digest blob).source name = .ok blob := by simp [fetch, fiveOptions, hne]
  set s : CacheState := ⟨c.state.cache.write name blob, c.state.cachedFiles ++ [name], c.state.downloads ++ [name]⟩ with hs
  have hdownload : unpackDownload E (fiveOptions digest blob) c = .ok s := by
    have hfile : downloadPayloadFile E (fiveOptions digest blob).source false name (some (fiveEntry digest).hash)
        false c.state = .ok (some name, s) := by
      simp only [downloadPayloadFile, checkCached, habsent, pure_eq_ok, ok_bind]
      exact downloadMissing_ok hfetch hv
    have hcomp : isCompressed (fiveEntry digest) = false := rfl
    have hoff : (fiveOptions digest blob).offlineMode = false := rfl
    have htype : (fiveEntry digest).type = entryFile := rfl
    simp only [unpackDownload, hentries, hoff, List.foldlM_cons, List.foldlM_nil, unpackDownloadRequirements, htype,
      hname, hcomp, hfile, cAssert, ok_bind, if_true, if_false, Option.isSome_some, pure_eq_ok, Bool.false_eq_true]
  -- it is written to the target, and read back
  set l : List Bytes := [str ['o'], str ['x']] with hl
  have hres : (lexical []).resolve (str ['o', '/', 'x']) = l := by decide
  have hpar : (lexical []).parent l = [str ['o']] := rfl
  set fs₁ := (outputFS.make [str ['o']] l (.file [])).setNode outputFS.next (.file blob) with hfs₁
  have hblobcache : s.cache name = some blob := by simp [hs, Dir.write]
  have hopen : outputFS.openWrite [str ['o']] l = .ok (outputFS.make [str ['o']] l (.file []), outputFS.next) := by
    rw [FS.openWrite_vacant (by decide)]
    rfl
  have hwritten : writeFile E [.convertFile blob .none] = .ok blob :=
    (writeFile_ok E hE).2 ⟨[blob], mapM_ok.2 (.cons (converted_none E blob) .nil), by simp⟩
  have hsame : sfmfFilehashCompare ⟨UInt32.ofNat blob.length, hashtypeSha1, E.sha1 blob⟩ (fiveEntry digest).hash =
      .ok true := sfmfFilehashCompare_ok.2 ⟨rfl, rfl, by simp [hblob]⟩
  have hwrite : unpackWriteEntry E (lexical []) (fiveOptions digest blob) c.data c.manifest s.cache outputFS
      ⟨fiveEntry digest, .full, str ['o', '/', 'x']⟩ = .ok fs₁ := by
    have hcomp : isCompressed (fiveEntry digest) = false := rfl
    simp only [unpackWriteEntry, writeBlobData, hres, hpar, hopen, orExit, ok_bind, blobOps, hname, hblobcache, hcomp,
      pure_eq_ok, Bool.false_eq_true, if_false, hwritten, convertFileZsizeHash_eq, hsame, if_true, reduceCtorEq]
    rfl
  -- the attributes are set last
  have hent : ∀ {fs : FS (List Bytes)}, FS.SameTree fs₁ fs → fs.ent l ≠ none := by
    intro fs h
    have hent₁ : fs₁.ent l = some outputFS.next := FS.ent_fill [str ['o']] l blob
    rw [h.ent, hent₁]
    simp
  have hst := FS.SameTree.refl fs₁
  obtain ⟨fs₂, h₂⟩ := FS.lchown_some 0 0 (hent hst)
  have hst₂ := hst.trans (FS.lchown_ok h₂)
  obtain ⟨fs₃, h₃⟩ := FS.chattr_some (fun a => { a with mode := 0o100644 }) (hent hst₂)
  have hst₃ := hst₂.trans (FS.chattr_ok h₃)
  obtain ⟨fs₄, h₄⟩ := FS.chattr_some (fun a => { a with mtime := 0 }) (hent hst₃)
  have hst₄ := hst₃.trans (FS.chattr_ok h₄)
  have hperm : unpackSetPermissions (lexical []) ([], fs₁) ⟨fiveEntry digest, .full, str ['o', '/', 'x']⟩ =
      .ok ([], fs₄) := by
    have hsym : ¬ entryFile = entrySymlink := by decide
    have hdir : ¬ entryFile = entryDirectory := by decide
    simp only [unpackSetPermissions, setMode, fiveEntry, hres, h₂, h₃, h₄, orExit, ok_bind, if_neg hsym, if_neg hdir,
      pure_eq_ok]
  have hrun : unpackWrite E (lexical []) (fiveOptions digest blob) c s outputFS = .ok fs₄ := by
    have hfull : (fiveOptions digest blob).downloadOnly = false := rfl
    simp only [unpackWrite, hfull, Bool.false_eq_true, if_false, hentries, List.foldlM_cons, List.foldlM_nil, hwrite,
      hperm, ok_bind, pure_eq_ok, dirstackFree]
  refine ⟨⟨c, s, fs₄⟩, by simp only [unpackMain, hc, hdownload, hrun, ok_bind, pure_eq_ok], hentries, ?_⟩
  have hnode : fs₁.nodeAt l = some (.file blob) := FS.nodeAt_fill [str ['o']] l blob
  simp only [FS.contentAt, hst₄.nodeAt, hnode]

/-- The SHA-1 of 4 GiB and 5 bytes, all zero. -/
def longDigest : Digest := ⟨[124, 233, 216, 60, 94, 172, 202, 23, 179, 84, 64, 140, 230, 55, 71, 50, 41, 167, 213, 226], by decide⟩

/-- An environment that knows one blob. -/
def blobEnv (digest : Digest) (blob : Bytes) : Env := .ofTable [(blob, [], digest)]

theorem blobEnv_run {digest : Digest} {blob : Bytes} (hlen : UInt32.ofNat blob.length = 5)
    (hheader : readHeader (fiveManifest digest) = .ok ((fiveTables digest).header, 28))
    (htables : readTables (fiveManifest digest) (fiveTables digest).header 28 = .ok (fiveTables digest)) :
    ∃ r, unpackMain (blobEnv digest blob) (lexical []) (fiveOptions digest blob) (fun _ => none) outputFS = .ok r ∧
      r.classified.entries = [⟨fiveEntry digest, .full, str ['o', '/', 'x']⟩] ∧
      r.fs.contentAt [str ['o'], str ['x']] = some blob := by
  have hsha : (blobEnv digest blob).sha1 blob = digest := by simp [blobEnv, Env.ofTable]
  refine five_run (Env.ofTable_noReflink _) hheader htables ?_
  rw [hlen, hsha]
  rfl

theorem five_open (u : UnpackFileEntry) (hu : u.targetFilename = str ['o', '/', 'x']) :
    outputFS.ent ((lexical []).resolve u.targetFilename) = none := by
  rw [hu]
  decide

/-- **A file can come out 4 GiB longer than the manifest says**: sizes are compared as 32-bit numbers. -/
theorem unpack_longer : ∃ r : Unpacked (List Bytes),
    unpackMain (blobEnv longDigest (List.replicate (2 ^ 32 + 5) 0)) (lexical [])
      (fiveOptions longDigest (List.replicate (2 ^ 32 + 5) 0)) (fun _ => none) outputFS = .ok r ∧
    (∀ u ∈ r.classified.entries, outputFS.ent ((lexical []).resolve u.targetFilename) = none) ∧
    (r.classified.entries.map fun u => (lexical []).resolve u.targetFilename).Nodup ∧
    ∃ u ∈ r.classified.entries, u.entry.type = entryFile ∧ u.entry.hash.size > 0 ∧
      ∃ content, r.fs.contentAt ((lexical []).resolve u.targetFilename) = some content ∧
        content.length ≠ u.entry.hash.size.toNat := by
  have hlen : (List.replicate (2 ^ 32 + 5) (0 : UInt8)).length = 2 ^ 32 + 5 := List.length_replicate
  obtain ⟨r, hr, hentries, hcontent⟩ := @blobEnv_run longDigest (List.replicate (2 ^ 32 + 5) 0)
    (by rw [hlen]; decide) (by decide +kernel) (by decide +kernel)
  refine ⟨r, hr, ?_, by rw [hentries]; simp, ⟨fiveEntry longDigest, .full, str ['o', '/', 'x']⟩, ?_, rfl, by decide,
    _, hcontent, ?_⟩
  · intro u hu
    rw [hentries, List.mem_singleton] at hu
    exact five_open u (by rw [hu])
  · rw [hentries]; exact List.mem_singleton_self _
  · rw [hlen]; decide

end Sfmf
