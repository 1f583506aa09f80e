import Sfmf.Proof.Inodes
import Sfmf.Proof.Mirror

/-!
# The metadata of what is unpacked

Owners and modes are set entry by entry, and so are modification times but for
those of directories, which wait on a stack.

* `MetadataSet`: the invariant of the last phase. An entry that is done has its owner
  and its mode, and its modification time or a place on the stack.
* `MetadataSet.step`: one entry keeps it, whatever inodes the entries share, if those
  with the same inode have the same metadata.
* `metadata_restored`: what a successful run leaves.
* `metadata_not_restored`: what it does not, with a file under two names beforehand, and
  with an owner that `lchown` does not set.
-/

namespace Sfmf

variable {E : Env} {Loc : Type} {N : Naming Loc} {opts : UnpackOptions} {m : Manifest}

/-! ## What is set -/

/-- The owner, the group and the mode of an entry, where ids that `lchown` does not set and the mode of a symlink
do not matter. -/
structure HasOwner (a : Attr) (e : SfmfFileEntry) : Prop where
  uid : e.uid ≠ FS.noId → a.uid = e.uid
  gid : e.gid ≠ FS.noId → a.gid = e.gid
  mode : e.type ≠ entrySymlink → a.mode = e.mode

/-- What the last phase sets: the attributes, and whether the mode is one of them. -/
def metadata (e : SfmfFileEntry) : Attr × Bool := (⟨e.uid, e.gid, e.mode, e.mtime⟩, e.type = entrySymlink)

theorem HasOwner.congr {a : Attr} {e e' : SfmfFileEntry} (h : HasOwner a e) (he : metadata e = metadata e') :
    HasOwner a e' := by
  simp only [metadata, Prod.mk.injEq, Attr.mk.injEq, decide_eq_decide] at he
  obtain ⟨⟨huid, hgid, hmode, _⟩, hsym⟩ := he
  refine ⟨fun hu => ?_, fun hg => ?_, fun ht => (h.mode (mt hsym.1 ht)).trans hmode⟩
  · rw [h.uid (huid ▸ hu), huid]
  · rw [h.gid (hgid ▸ hg), hgid]

theorem metadata_mtime {e e' : SfmfFileEntry} (he : metadata e = metadata e') : e.mtime = e'.mtime := by
  simp only [metadata, Prod.mk.injEq, Attr.mk.injEq] at he
  exact he.1.2.2.2

/-- `lchown` and `chmod`, in this order: whatever bits the first one clears, the second one sets. -/
theorem setMode_lchown {l : Loc} {e : SfmfFileEntry} {fs fs₁ fs₂ : FS Loc} (h₁ : fs.lchown l e.uid e.gid = .ok fs₁)
    (h₂ : setMode l e fs₁ = .ok fs₂) : ∃ i a, fs.ent l = some i ∧ fs₂.ent = fs.ent ∧
      fs₂.attr = Function.update fs.attr i a ∧ HasOwner a e ∧ a.mtime = (fs.attr i).mtime := by
  obtain ⟨i, mode, hi, hattr⟩ := FS.lchown_attr h₁
  have hent := (FS.lchown_ok h₁).ent
  have hset : ∀ id old : UInt32, id ≠ FS.noId → FS.newId id old = id := fun _ _ hid => if_neg hid
  unfold setMode at h₂
  by_cases hsym : e.type = entrySymlink
  · rw [if_pos hsym] at h₂
    cases h₂
    exact ⟨i, _, hi, hent, hattr, ⟨hset _ _, hset _ _, fun hn => absurd hsym hn⟩, rfl⟩
  · rw [if_neg hsym, orExit_ok] at h₂
    obtain ⟨j, hj, hattr'⟩ := FS.chattr_attr h₂
    rw [hent, hi, Option.some.injEq] at hj
    subst hj
    rw [hattr, Function.update_self, Function.update_idem] at hattr'
    exact ⟨i, _, hi, (FS.chattr_ok h₂).ent.trans hent, hattr', ⟨hset _ _, hset _ _, fun _ => rfl⟩, rfl⟩

/-- The entry of the stack for a directory. -/
def dirStackEntry (u : UnpackFileEntry) : DirStackEntry := ⟨u.targetFilename, u.entry⟩

/-- **The last phase, when it has done these entries**: each has its owner and its mode, and its modification
time or a place on the stack. -/
structure MetadataSet (N : Naming Loc) (ent : Loc → Option ℕ) (done : List UnpackFileEntry)
    (stack : List DirStackEntry) (fs : FS Loc) : Prop where
  tree : fs.ent = ent
  there : ∀ u ∈ done, ∃ i, ent (N.resolve u.targetFilename) = some i
  owner : ∀ u ∈ done, ∀ i, ent (N.resolve u.targetFilename) = some i → HasOwner (fs.attr i) u.entry
  mtime : ∀ u ∈ done, ∀ i, ent (N.resolve u.targetFilename) = some i →
    (fs.attr i).mtime = u.entry.mtime ∨ dirStackEntry u ∈ stack
  waits : ∀ e ∈ stack, ∃ u ∈ done, e = dirStackEntry u

/-- Only what is on the stack matters, not in which order. -/
theorem MetadataSet.congr {ent : Loc → Option ℕ} {done : List UnpackFileEntry} {stack stack' : List DirStackEntry}
    {fs : FS Loc} (M : MetadataSet N ent done stack fs) (h : ∀ e, e ∈ stack ↔ e ∈ stack') :
    MetadataSet N ent done stack' fs :=
  ⟨M.tree, M.there, M.owner, fun u hu i hi => (M.mtime u hu i hi).imp_right (h _).1, fun e he => M.waits e ((h e).2 he)⟩

/-- Entries with the same inode have the same metadata. -/
def Agree (N : Naming Loc) (us : List UnpackFileEntry) (ent : Loc → Option ℕ) : Prop :=
  ∀ u ∈ us, ∀ v ∈ us, ∀ i, ent (N.resolve u.targetFilename) = some i → ent (N.resolve v.targetFilename) = some i →
    metadata u.entry = metadata v.entry

section

variable {us done : List UnpackFileEntry} {ent : Loc → Option ℕ} {stack : List DirStackEntry} {fs fs' : FS Loc}
  (hagree : Agree N us ent) (hdone : ∀ u ∈ done, u ∈ us)

include hagree hdone

/-- **A pop** sets the modification time of its directory, under whatever names. -/
theorem MetadataSet.pop {e : DirStackEntry} (M : MetadataSet N ent done (e :: stack) fs)
    (h : unpackDirstackEntryPop N fs e = .ok fs') : MetadataSet N ent done stack fs' := by
  have hpop := orExit_ok.1 h
  obtain ⟨i, hi, hattr⟩ := FS.chattr_attr hpop
  obtain ⟨u, hu, rfl⟩ := M.waits e List.mem_cons_self
  rw [M.tree] at hi
  refine ⟨(FS.chattr_ok hpop).ent.trans M.tree, M.there, fun v hv j hj => ?_, fun v hv j hj => ?_,
    fun x hx => M.waits x (List.mem_cons_of_mem _ hx)⟩
  · have hold := M.owner v hv j hj
    rw [hattr]
    by_cases hji : j = i
    · subst hji
      rw [Function.update_self]
      exact ⟨hold.uid, hold.gid, hold.mode⟩
    · rw [Function.update_of_ne hji]
      exact hold
  · rw [hattr]
    by_cases hji : j = i
    · subst hji
      rw [Function.update_self]
      exact .inl (metadata_mtime (hagree u (hdone u hu) v (hdone v hv) j hi hj))
    · rw [Function.update_of_ne hji]
      refine (M.mtime v hv j hj).imp_right fun hmem => (List.mem_cons.1 hmem).resolve_left fun he => hji ?_
      have hpath : v.targetFilename = u.targetFilename := congrArg DirStackEntry.path he
      rw [hpath] at hj
      exact Option.some.inj (hj.symm.trans hi)

/-- **Pops**, one after another. -/
theorem MetadataSet.pops {popped : List DirStackEntry} : ∀ {fs : FS Loc},
    MetadataSet N ent done (popped ++ stack) fs → popped.foldlM (unpackDirstackEntryPop N) fs = .ok fs' →
    MetadataSet N ent done stack fs' := by
  induction popped with
  | nil => intro fs M h; cases h; exact M
  | cons e popped ih =>
    intro fs M h
    simp only [List.foldlM_cons, bind_ok] at h
    obtain ⟨fs₁, hpop, h⟩ := h
    exact ih (MetadataSet.pop hagree hdone M hpop) h

omit hdone in
/-- **The owner and the mode of an entry** are set; its modification time may wait. -/
theorem MetadataSet.own (M : MetadataSet N ent done stack fs) {u : UnpackFileEntry} {fs₁ fs₂ : FS Loc}
    (hus : ∀ v ∈ done ++ [u], v ∈ us)
    (h₁ : fs.lchown (N.resolve u.targetFilename) u.entry.uid u.entry.gid = .ok fs₁)
    (h₂ : setMode (N.resolve u.targetFilename) u.entry fs₁ = .ok fs₂) :
    MetadataSet N ent (done ++ [u]) (dirStackEntry u :: stack) fs₂ := by
  obtain ⟨i, a, hi, hent, hattr, howner, hmtime⟩ := setMode_lchown h₁ h₂
  rw [M.tree] at hi
  have hu : u ∈ us := hus u (by simp)
  -- an entry with another inode was done before
  have hbefore : ∀ v ∈ done ++ [u], ∀ j, ent (N.resolve v.targetFilename) = some j → j ≠ i → v ∈ done := by
    intro v hv j hj hji
    refine (List.mem_append.1 hv).resolve_right fun hvu => hji ?_
    rw [List.mem_singleton.1 hvu] at hj
    exact Option.some.inj (hj.symm.trans hi)
  refine ⟨hent.trans M.tree, fun v hv => ?_, fun v hv j hj => ?_, fun v hv j hj => ?_, fun e he => ?_⟩
  · rcases List.mem_append.1 hv with hv | hv
    · exact M.there v hv
    · rw [List.mem_singleton.1 hv]
      exact ⟨i, hi⟩
  · rw [hattr]
    by_cases hji : j = i
    · subst hji
      rw [Function.update_self]
      exact howner.congr (hagree u hu v (hus v hv) j hi hj)
    · rw [Function.update_of_ne hji]
      exact M.owner v (hbefore v hv j hj hji) j hj
  · rw [hattr]
    rcases List.mem_append.1 hv with hv | hv
    · refine (M.mtime v hv j hj).imp (fun hold => ?_) (List.mem_cons_of_mem _)
      by_cases hji : j = i
      · subst hji
        rw [Function.update_self, hmtime, hold]
      · rw [Function.update_of_ne hji, hold]
    · rw [List.mem_singleton.1 hv]
      exact .inr List.mem_cons_self
  · rcases List.mem_cons.1 he with rfl | he
    · exact ⟨u, by simp, rfl⟩
    · obtain ⟨v, hv, rfl⟩ := M.waits e he
      exact ⟨v, List.mem_append_left _ hv, rfl⟩

omit hdone in
/-- **One entry**: what waits is on the stack afterwards. -/
theorem MetadataSet.step (M : MetadataSet N ent done stack fs) {u : UnpackFileEntry} {stack' : List DirStackEntry}
    (hus : ∀ v ∈ done ++ [u], v ∈ us) (h : unpackSetPermissions N (stack, fs) u = .ok (stack', fs')) :
    MetadataSet N ent (done ++ [u]) stack' fs' := by
  simp only [unpackSetPermissions, bind_ok, orExit_ok] at h
  obtain ⟨fs₁, h₁, fs₂, h₂, h⟩ := h
  have hown := MetadataSet.own hagree M hus h₁ h₂
  split at h
  · -- a directory: others may be popped before it is pushed
    obtain ⟨popped, rest, rfl, rfl, hpopped⟩ := dirstackPush_ok h
    refine MetadataSet.pops hagree hus (hown.congr fun e => ?_) hpopped
    change e ∈ dirStackEntry u :: (popped ++ rest) ↔ e ∈ popped ++ dirStackEntry u :: rest
    rw [List.mem_cons, List.mem_append, List.mem_append, List.mem_cons]
    tauto
  · -- anything else is popped at once
    simp only [bind_ok, pure_eq_ok, Except.ok.injEq, Prod.mk.injEq] at h
    obtain ⟨fs₃, h₃, rfl, rfl⟩ := h
    exact MetadataSet.pop hagree hus hown h₃

omit hdone in
/-- **The last phase sets the metadata of all entries.** -/
theorem setPermissions_metadata {fs₁ fs₂ : FS Loc} (hent : fs.ent = ent)
    (h : us.foldlM (unpackSetPermissions N) ([], fs) = .ok (stack, fs₁)) (hfree : dirstackFree (unpackDirstackEntryPop N) stack fs₁ = .ok fs₂) :
    MetadataSet N ent us [] fs₂ := by
  have hrun : MetadataSet N ent us stack fs₁ := by
    refine foldlM_inv_done (fun done s => MetadataSet N ent done s.1 s.2) ?_
      ⟨hent, by simp, by simp, by simp, by simp⟩ h
    rintro done u rest ⟨stack, fs⟩ ⟨stack', fs'⟩ hus M hstep
    refine MetadataSet.step hagree M (fun v hv => ?_) hstep
    rw [hus, ← List.singleton_append, ← List.append_assoc]
    exact List.mem_append_left _ hv
  exact MetadataSet.pops hagree (fun _ hu => hu) (by rwa [List.append_nil]) hfree

end

/-! ## Hard links in a manifest -/

/-- **Where an entry leads**: a hard link to where the entry it refers to leads, and a regular file to itself. -/
inductive LeadsTo (fentries : List SfmfFileEntry) : SfmfFileEntry → SfmfFileEntry → Prop
  | file {e : SfmfFileEntry} : e.type = entryFile → LeadsTo fentries e e
  | link {e f g : SfmfFileEntry} : e.type = entryHardlink → fentries[e.dev.toNat]? = some f → LeadsTo fentries f g →
      LeadsTo fentries e g

/-- Hard links lead to a regular file with the same mode, owner, group and modification time. -/
def HardlinksAgree (m : Manifest) : Prop :=
  ∀ e ∈ m.fentries, e.type = entryHardlink → ∃ f, LeadsTo m.fentries e f ∧ f.mode = e.mode ∧ f.uid = e.uid ∧
    f.gid = e.gid ∧ f.mtime = e.mtime

theorem LeadsTo.unique {fentries : List SfmfFileEntry} {e f : SfmfFileEntry} (h : LeadsTo fentries e f) :
    ∀ {g : SfmfFileEntry}, LeadsTo fentries e g → f = g := by
  induction h with
  | file ht =>
    intro g h'
    cases h' with
    | file _ => rfl
    | link ht' _ _ => exact absurd (ht.symm.trans ht') (by decide)
  | link ht he _ ih =>
    intro g h'
    cases h' with
    | file ht' => exact absurd (ht.symm.trans ht') (by decide)
    | link _ he' h' =>
      rw [he, Option.some.injEq] at he'
      subst he'
      exact ih h'

theorem LeadsTo.not_symlink {fentries : List SfmfFileEntry} {e f : SfmfFileEntry} (h : LeadsTo fentries e f) :
    e.type ≠ entrySymlink := by
  cases h with
  | file ht => exact fun hs => absurd (ht.symm.trans hs) (by decide)
  | link ht _ _ => exact fun hs => absurd (ht.symm.trans hs) (by decide)

/-- **A hard link has the metadata of the entry it refers to.** -/
theorem HardlinksAgree.next (h : HardlinksAgree m) {e f : SfmfFileEntry} (he : e ∈ m.fentries)
    (ht : e.type = entryHardlink) (hf : m.fentries[e.dev.toNat]? = some f) : metadata e = metadata f := by
  obtain ⟨g, hlead, hmode, huid, hgid, hmtime⟩ := h e he ht
  cases hlead with
  | file ht' => exact absurd (ht.symm.trans ht') (by decide)
  | link _ hf' hlead =>
    rw [hf, Option.some.injEq] at hf'
    subst hf'
    have hsame : ⟨f.uid, f.gid, f.mode, f.mtime⟩ = (⟨g.uid, g.gid, g.mode, g.mtime⟩ : Attr) := by
      by_cases hlink : f.type = entryHardlink
      · obtain ⟨g', hlead', hmode', huid', hgid', hmtime'⟩ := h f (List.mem_of_getElem? hf) hlink
        rw [hlead.unique hlead', hmode', huid', hgid', hmtime']
      · cases hlead with
        | file _ => rfl
        | link hlink' _ _ => exact absurd hlink' hlink
    have hsyms : e.type ≠ entrySymlink := ht ▸ by decide
    rw [metadata, metadata, hsame, hmode, huid, hgid, hmtime, decide_eq_false hsyms, decide_eq_false hlead.not_symlink]

/-! ## The whole run -/

/-- **Every entry has its metadata**: owner and group if they are among these ids, the modification time, and its mode
unless it is a symlink. -/
def MetadataRestored (ids : UInt32 → Prop) (N : Naming Loc) (us : List UnpackFileEntry) (fs : FS Loc) : Prop :=
  ∀ u ∈ us, ∃ i, fs.ent (N.resolve u.targetFilename) = some i ∧ (ids u.entry.uid → (fs.attr i).uid = u.entry.uid) ∧
    (ids u.entry.gid → (fs.attr i).gid = u.entry.gid) ∧ (fs.attr i).mtime = u.entry.mtime ∧
    (u.entry.type ≠ entrySymlink → (fs.attr i).mode = u.entry.mode)

/-- What an output directory may have at the targets beforehand: no two of them are names of one file, and none is a
symlink, a device or a fifo, which `fopen` would follow or open. -/
structure FreshTargets (fs : FS Loc) (ls : List Loc) : Prop where
  unshared : Unshared fs ls
  plain : ∀ l ∈ ls, ∀ n ∈ fs.nodeAt l, n.isPlain

instance [DecidableEq Loc] (fs : FS Loc) (ls : List Loc) : Decidable (FreshTargets fs ls) :=
  decidable_of_iff (Unshared fs ls ∧ ∀ l ∈ ls, ∀ n ∈ fs.nodeAt l, n.isPlain)
    ⟨fun h => ⟨h.1, h.2⟩, fun h => ⟨h.unshared, h.plain⟩⟩

/-- **A successful unpack restores the metadata of every entry**, directories included, whatever the manifest and
the order of its entries are: if the targets are at distinct locations, the output directory has no shared file and
no link there, and hard links lead to a regular file with their metadata. The id `(uid_t)-1` is not one to be set. -/
theorem metadata_restored [DecidableEq Loc] {cache : Dir} {fs : FS Loc} {r : Unpacked Loc}
    (h : unpackMain E N opts cache fs = .ok r) (hfull : opts.downloadOnly = false)
    (hdist : (r.classified.entries.map fun u => N.resolve u.targetFilename).Nodup)
    (hfresh : FreshTargets fs (r.classified.entries.map fun u => N.resolve u.targetFilename))
    (hlinks : HardlinksAgree r.classified.manifest) :
    readManifest r.classified.data = .ok r.classified.manifest ∧
    List.Forall₂ (fun e u => u.entry = e ∧ ∃ name, r.classified.manifest.filenameAt e.filenameOffset = .ok name ∧
      u.targetFilename = opts.outputdir ++ name) r.classified.manifest.fentries r.classified.entries ∧
    MetadataRestored (· ≠ FS.noId) N r.classified.entries r.fs := by
  obtain ⟨fs₁, W⟩ := unpackMain_ok h hfull
  have hclass := W.classified
  refine ⟨W.manifest, W.targets, ?_⟩
  -- the metadata of an entry is that of its inode
  have hentry : ∀ i : Fin r.classified.entries.length,
      r.classified.manifest.fentries[i.val]? = some r.classified.entries[i].entry := by
    intro i
    have hi : i.val < r.classified.manifest.fentries.length := by
      rw [hclass.length_eq]
      exact i.isLt
    have hget : r.classified.entries[i.val].entry = r.classified.manifest.fentries[i.val] := (hclass.get hi i.isLt).entry
    rw [List.getElem?_eq_getElem hi, ← hget]
    rfl
  have hloc := locations_injective hdist
  have hkeyed := writeEntries_keyed W.write (EntryClassified.linkTargets hclass)
    (fun i : Fin r.classified.entries.length => metadata r.classified.entries[i].entry) hloc
    (fun i j ht hdev => hlinks.next (List.mem_of_getElem? (hentry i)) ht (by rw [hdev]; exact hentry j))
    (hfresh.unshared.keyed hloc _)
  have hagree : Agree N r.classified.entries fs₁.ent := by
    intro u hu v hv a ha hb
    obtain ⟨i, hi, rfl⟩ := List.getElem_of_mem hu
    obtain ⟨j, hj, rfl⟩ := List.getElem_of_mem hv
    exact hkeyed ⟨i, hi⟩ ⟨j, hj⟩ a ha hb
  obtain ⟨_, _, hperm, hfree⟩ := W.permissions
  have M := setPermissions_metadata hagree rfl hperm hfree
  intro u hu
  obtain ⟨i, hi⟩ := M.there u hu
  have howner := M.owner u hu i hi
  have hmtime : (r.fs.attr i).mtime = u.entry.mtime := (M.mtime u hu i hi).resolve_right List.not_mem_nil
  exact ⟨i, by rw [M.tree, hi], howner.uid, howner.gid, hmtime, howner.mode⟩

/-- Hard links that refer to a regular file at once. -/
def DirectLinks (m : Manifest) : Prop :=
  ∀ e ∈ m.fentries, e.type = entryHardlink → ∃ f ∈ m.fentries, m.fentries[e.dev.toNat]? = some f ∧ f.type = entryFile ∧
    f.mode = e.mode ∧ f.uid = e.uid ∧ f.gid = e.gid ∧ f.mtime = e.mtime

instance (m : Manifest) : Decidable (DirectLinks m) := by unfold DirectLinks; infer_instance

theorem DirectLinks.agree (h : DirectLinks m) : HardlinksAgree m := by
  intro e he ht
  obtain ⟨f, _, hf, hfile, hsame⟩ := h e he ht
  exact ⟨f, .link ht hf (.file hfile), hsame⟩

theorem metadata_restored_letterTree : ∃ P r, packMain letterTreeEnv letterTree.toDisk letterTreeOptions (str ['m'])
    (fun _ => none) letterWalk = .ok P ∧
    unpackMain letterTreeEnv (lexical []) (clientOf P false) (fun _ => none) (.oneDirectory [str ['o']]) = .ok r ∧
    MetadataRestored (· ≠ FS.noId) (lexical []) r.classified.entries r.fs := by
  have hpasses : (packMain letterTreeEnv letterTree.toDisk letterTreeOptions (str ['m']) (fun _ => none)
      letterWalk).passes (fun P => (unpackMain letterTreeEnv (lexical []) (clientOf P false) (fun _ => none)
        (.oneDirectory [str ['o']])).passes fun r =>
          (r.classified.entries.map fun u => (lexical []).resolve u.targetFilename).Nodup ∧
          FreshTargets (.oneDirectory [str ['o']])
            (r.classified.entries.map fun u => (lexical []).resolve u.targetFilename) ∧
          DirectLinks r.classified.manifest) = true := by
    decide +kernel
  obtain ⟨P, hP, hrun⟩ := Exec.of_passes hpasses
  obtain ⟨r, hr, hcheck⟩ := Exec.of_passes hrun
  obtain ⟨hdist, hfresh, hlinks⟩ := of_decide_eq_true hcheck
  exact ⟨P, r, hP, hr, (metadata_restored hr rfl hdist hfresh hlinks.agree).2.2⟩

/-! ## A file under two names, and the id `(uid_t)-1` -/

/-- Whether a path of a manifest is inside a directory. -/
def Inside (dir path : Bytes) : Prop := path ≠ dir ∧ (dir = str ['/'] ∨ dir ++ [slash] <+: path)

instance (dir path : Bytes) : Decidable (Inside dir path) := by unfold Inside; infer_instance

/-- **Paths in pre-order**: they are distinct, a directory stands before its contents, and a subtree has no gap. -/
def PreOrder (names : List Bytes) : Prop :=
  names.Nodup ∧ names.Pairwise (fun a b => ¬ Inside b a) ∧ ∀ k < names.length, ∀ j < k, ∀ i < j, ∀ d ∈ names[i]?,
    ∀ p ∈ names[j]?, ∀ q ∈ names[k]?, Inside d q → Inside d p

instance (names : List Bytes) : Decidable (PreOrder names) := by unfold PreOrder; infer_instance

/-- An output directory `o` where `o/a` and `o/b` are one file. -/
def sharedFS : FS (List Bytes) :=
  ((FS.oneDirectory [str ['o']]).make [str ['o']] [str ['o'], str ['a']] (.file [])).enter [str ['o'], str ['b']] 1
    (by decide)

/-- A directory with a file that belongs to the user with the id `(uid_t)-1`. -/
def nobodyTree : Disk :=
  .ofList [(letterDir, ⟨1, 0o040755, 0, 0, 0, 64, 7⟩, []), (letterPath, ⟨2, 0o100644, FS.noId, 0, 0, 0, 7⟩, [])]

/-- A successful unpack restores all metadata, of distinct paths in pre-order whose hard links lead to a regular file
with their metadata, if the output directory and the run fulfill a condition. -/
def RestoresMetadata (cond : FS (List Bytes) → Unpacked (List Bytes) → Prop) : Prop :=
  ∀ (E : Env) (opts : UnpackOptions) (cache : Dir) (fs : FS (List Bytes)) (r : Unpacked (List Bytes))
    (names : List Bytes), unpackMain E (lexical []) opts cache fs = .ok r → opts.downloadOnly = false →
    r.classified.manifest.fentries.mapM (fun e => r.classified.manifest.filenameAt e.filenameOffset) = .ok names →
    PreOrder names → (r.classified.entries.map fun u => (lexical []).resolve u.targetFilename).Nodup →
    HardlinksAgree r.classified.manifest → cond fs r →
    MetadataRestored (fun _ => True) (lexical []) r.classified.entries r.fs

/-- A file that has two names beforehand keeps them, and has the metadata of one entry only. -/
theorem sharedFS_not_restored : ¬ RestoresMetadata fun _ r =>
    ∀ u ∈ r.classified.entries, u.entry.uid ≠ FS.noId ∧ u.entry.gid ≠ FS.noId := by
  intro hall
  have hpasses : (packMain letterTreeEnv letterTree.toDisk letterTreeOptions (str ['m']) (fun _ => none)
      letterWalk).passes (fun P => (unpackMain letterTreeEnv (lexical []) (clientOf P false) (fun _ => none)
        sharedFS).passes fun r =>
          (r.classified.manifest.fentries.mapM fun e => r.classified.manifest.filenameAt e.filenameOffset).passes
            (fun names => PreOrder names) ∧
          (r.classified.entries.map fun u => (lexical []).resolve u.targetFilename).Nodup ∧
          DirectLinks r.classified.manifest ∧
          (∀ u ∈ r.classified.entries, u.entry.uid ≠ FS.noId ∧ u.entry.gid ≠ FS.noId) ∧
          ∃ u ∈ r.classified.entries, u.entry.type ≠ entrySymlink ∧
            (r.fs.ent ((lexical []).resolve u.targetFilename)).any fun i => (r.fs.attr i).mode ≠ u.entry.mode) =
      true := by
    decide +kernel
  obtain ⟨P, hP, hrun⟩ := Exec.of_passes hpasses
  obtain ⟨r, hr, hcheck⟩ := Exec.of_passes hrun
  obtain ⟨hnames, hdist, hlinks, hids, u, hu, ht, hmode⟩ := of_decide_eq_true hcheck
  obtain ⟨names, hnames, hpre⟩ := Exec.of_passes hnames
  obtain ⟨i, hi, _, _, _, hset⟩ :=
    hall _ _ _ _ r names hr rfl hnames (of_decide_eq_true hpre) hdist hlinks.agree hids u hu
  rw [hi] at hmode
  exact absurd (hset ht) (by simpa using hmode)

/-- The id `(uid_t)-1` is not set, in a fresh output directory either. -/
theorem nobodyTree_not_restored : ¬ RestoresMetadata fun fs r =>
    FreshTargets fs (r.classified.entries.map fun u => (lexical []).resolve u.targetFilename) := by
  intro hall
  have hpasses : (packMain letterTreeEnv nobodyTree letterTreeOptions (str ['m']) (fun _ => none)
      [letterDir, letterPath]).passes (fun P => (unpackMain letterTreeEnv (lexical []) (clientOf P false)
        (fun _ => none) (.oneDirectory [str ['o']])).passes fun r =>
          (r.classified.manifest.fentries.mapM fun e => r.classified.manifest.filenameAt e.filenameOffset).passes
            (fun names => PreOrder names) ∧
          (r.classified.entries.map fun u => (lexical []).resolve u.targetFilename).Nodup ∧
          DirectLinks r.classified.manifest ∧
          FreshTargets (.oneDirectory [str ['o']])
            (r.classified.entries.map fun u => (lexical []).resolve u.targetFilename) ∧
          ∃ u ∈ r.classified.entries,
            (r.fs.ent ((lexical []).resolve u.targetFilename)).any fun i => (r.fs.attr i).uid ≠ u.entry.uid) =
      true := by
    decide +kernel
  obtain ⟨P, hP, hrun⟩ := Exec.of_passes hpasses
  obtain ⟨r, hr, hcheck⟩ := Exec.of_passes hrun
  obtain ⟨hnames, hdist, hlinks, hfresh, u, hu, huid⟩ := of_decide_eq_true hcheck
  obtain ⟨names, hnames, hpre⟩ := Exec.of_passes hnames
  obtain ⟨i, hi, hset, _⟩ :=
    hall _ _ _ _ r names hr rfl hnames (of_decide_eq_true hpre) hdist hlinks.agree hfresh u hu
  rw [hi] at huid
  exact absurd (hset trivial) (by simpa using huid)

/-- **Metadata is not restored** over a file with two names, nor is the id `(uid_t)-1`. -/
theorem metadata_not_restored :
    (¬ RestoresMetadata fun _ r => ∀ u ∈ r.classified.entries, u.entry.uid ≠ FS.noId ∧ u.entry.gid ≠ FS.noId) ∧
    ¬ RestoresMetadata fun fs r =>
      FreshTargets fs (r.classified.entries.map fun u => (lexical []).resolve u.targetFilename) :=
  ⟨sharedFS_not_restored, nobodyTree_not_restored⟩

end Sfmf
