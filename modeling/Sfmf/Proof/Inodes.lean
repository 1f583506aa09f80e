import Sfmf.Proof.Verified

/-!
# The inodes of what is written

An entry is written under a new inode, under that of a file that is there already,
or, if it is a hard link, under that of the entry it refers to.

* `unpackWriteEntry_entered`: which of them it is.
* `writeEntries_linked`: in the end every entry has an inode, and a hard link that of
  the entry it refers to.
* `writeEntries_keyed`: entries with the same inode agree in whatever hard links and
  the entries they refer to agree in.
-/

namespace Sfmf

variable {E : Env} {Loc : Type} [DecidableEq Loc] {N : Naming Loc} {opts : UnpackOptions} {m : Manifest}

/-- **The inode under which an entry is written.** -/
inductive Entered (N : Naming Loc) (opts : UnpackOptions) (m : Manifest) (fs : FS Loc) (u : UnpackFileEntry) (a : ℕ) :
    Prop
  | new (htype : u.entry.type ≠ entryHardlink) (hvacant : fs.ent (N.resolve u.targetFilename) = none) (ha : a = fs.next)
  | old (htype : u.entry.type ≠ entryHardlink) (h : fs.ent (N.resolve u.targetFilename) = some a)
  | link {e : SfmfFileEntry} {name : Bytes} (htype : u.entry.type = entryHardlink)
      (he : m.fentries[u.entry.dev.toNat]? = some e) (hname : m.filenameAt e.filenameOffset = .ok name)
      (hvacant : fs.ent (N.resolve u.targetFilename) = none) (h : fs.ent (N.resolve (opts.outputdir ++ name)) = some a)

theorem unpackWriteEntry_entered {d : Bytes} {cache : Dir} {fs fs' : FS Loc} {u : UnpackFileEntry}
    (h : unpackWriteEntry E N opts d m cache fs u = .ok fs') :
    ∃ a, fs'.ent = Function.update fs.ent (N.resolve u.targetFilename) (some a) ∧ Entered N opts m fs u a := by
  cases unpackWriteEntry_call h with
  | root htype hent hfs =>
    subst hfs
    obtain ⟨a, ha⟩ := Option.ne_none_iff_exists'.1 hent
    exact ⟨a, by rw [← ha, Function.update_eq_self], .old (htype ▸ by decide) ha⟩
  | create _ hlink hc =>
    obtain ⟨hvacant, hent⟩ := FS.create_ent hc
    exact ⟨_, hent, .new hlink hvacant rfl⟩
  | write htype hw =>
    have hlink : u.entry.type ≠ entryHardlink := htype ▸ by decide
    simp only [writeBlobData, bind_ok, orExit_ok] at hw
    obtain ⟨⟨fs₁, i⟩, hopen, ops, _, content, _, hw⟩ := hw
    obtain ⟨hent, hold⟩ := FS.openWrite_entered hopen
    -- filling the file and checking it enter nothing
    have hfs' : fs'.ent = fs₁.ent := by
      split at hw
      · cases hw; rfl
      · simp only [bind_ok] at hw
        obtain ⟨_, _, same, _, hw⟩ := hw
        split at hw
        · cases hw; rfl
        · simp at hw
    refine ⟨i, hfs'.trans hent, ?_⟩
    rcases hold with hold | ⟨hvacant, hi⟩
    · exact .old hlink hold
    · exact .new hlink hvacant hi
  | link htype he hname hlink =>
    obtain ⟨i, hsrc, hvacant, hent⟩ := FS.link_ent hlink
    exact ⟨i, hent, .link htype he hname hvacant hsrc⟩

/-- What is entered stays entered. -/
theorem unpackWriteEntry_stays {d : Bytes} {cache : Dir} {fs fs' : FS Loc} {u : UnpackFileEntry}
    (h : unpackWriteEntry E N opts d m cache fs u = .ok fs') {l : Loc} {b : ℕ} (hl : fs.ent l = some b) :
    fs'.ent l = some b := by
  obtain ⟨a, hent, hcase⟩ := unpackWriteEntry_entered h
  rw [hent]
  by_cases hlu : l = N.resolve u.targetFilename
  · subst hlu
    rw [Function.update_self]
    cases hcase with
    | new _ hvacant _ => rw [hl] at hvacant; cases hvacant
    | old _ hold => rw [← hold, hl]
    | link _ _ _ hvacant _ => rw [hl] at hvacant; cases hvacant
  · rw [Function.update_of_ne hlu, hl]

/-! ## Before the run -/

/-- No two of these locations are names of one file. -/
def Unshared (fs : FS Loc) (ls : List Loc) : Prop :=
  ∀ l ∈ ls, ∀ l' ∈ ls, fs.ent l ≠ none → fs.ent l = fs.ent l' → l = l'

instance (fs : FS Loc) (ls : List Loc) : Decidable (Unshared fs ls) := by unfold Unshared; infer_instance

omit [DecidableEq Loc] in
/-- Different entries have different locations. -/
theorem locations_injective {us : List UnpackFileEntry} (hdist : (us.map fun u => N.resolve u.targetFilename).Nodup) :
    Function.Injective fun i : Fin us.length => N.resolve us[i].targetFilename := by
  intro i j h
  have hi : i.val < (us.map fun u => N.resolve u.targetFilename).length := by simp
  have hj : j.val < (us.map fun u => N.resolve u.targetFilename).length := by simp
  have hij : (us.map fun u => N.resolve u.targetFilename)[i.val] = (us.map fun u => N.resolve u.targetFilename)[j.val] := by
    simpa using h
  exact Fin.ext (hdist.getElem_inj_iff.1 hij)

omit [DecidableEq Loc] in
/-- **Names that are not shared** have whatever keys. -/
theorem Unshared.keyed {α : Type} {us : List UnpackFileEntry} {fs : FS Loc}
    (h : Unshared fs (us.map fun u => N.resolve u.targetFilename))
    (hloc : Function.Injective fun i : Fin us.length => N.resolve us[i].targetFilename) (key : Fin us.length → α) :
    FS.Keyed (fun i : Fin us.length => N.resolve us[i].targetFilename) key fs := by
  intro i j a hi hj
  have hmem : ∀ k : Fin us.length, N.resolve us[k].targetFilename ∈ us.map fun u => N.resolve u.targetFilename :=
    fun k => List.mem_map.2 ⟨us[k], List.getElem_mem k.isLt, rfl⟩
  rw [hloc (h _ (hmem i) _ (hmem j) (by rw [hi]; simp) (hi.trans hj.symm))]

/-! ## All entries -/

section

variable {us ws : List UnpackFileEntry} {d : Bytes} {cache : Dir} {fs fs' : FS Loc}

/-- **Every entry that is written has an inode, and a hard link that of the entry it refers to.** -/
theorem writeEntries_linked (h : ws.foldlM (unpackWriteEntry E N opts d m cache) fs = .ok fs')
    (htargets : LinkTargets opts m us) : ∀ u ∈ ws, ∃ a, fs'.ent (N.resolve u.targetFilename) = some a ∧
      (u.entry.type = entryHardlink → ∃ v, us[u.entry.dev.toNat]? = some v ∧
        fs'.ent (N.resolve v.targetFilename) = some a) := by
  refine foldlM_inv_done (fun done fs₁ => ∀ u ∈ done, ∃ a, fs₁.ent (N.resolve u.targetFilename) = some a ∧
    (u.entry.type = entryHardlink → ∃ v, us[u.entry.dev.toNat]? = some v ∧
      fs₁.ent (N.resolve v.targetFilename) = some a)) ?_ (by simp) h
  intro done u rest fs₁ fs₂ _ hdone hu v hv
  rcases List.mem_append.1 hv with hv | hv
  · obtain ⟨a, ha, hlink⟩ := hdone v hv
    refine ⟨a, unpackWriteEntry_stays hu ha, fun ht => ?_⟩
    obtain ⟨w, hw, hwa⟩ := hlink ht
    exact ⟨w, hw, unpackWriteEntry_stays hu hwa⟩
  · rw [List.mem_singleton.1 hv]
    obtain ⟨a, hent, hcase⟩ := unpackWriteEntry_entered hu
    refine ⟨a, by rw [hent, Function.update_self], fun ht => ?_⟩
    cases hcase with
    | new hnot _ _ => exact absurd ht hnot
    | old hnot _ => exact absurd ht hnot
    | link _ he hname _ hsrc =>
      obtain ⟨w, hw, htarget⟩ := htargets _ _ _ he hname
      exact ⟨w, hw, unpackWriteEntry_stays hu (by rw [htarget]; exact hsrc)⟩

/-- **Entries with the same inode have the same key**, if each hard link has the key of the entry it refers
to, and no two entries are one file beforehand. -/
theorem writeEntries_keyed (h : us.foldlM (unpackWriteEntry E N opts d m cache) fs = .ok fs')
    (htargets : LinkTargets opts m us) {α : Type} (key : Fin us.length → α)
    (hloc : Function.Injective fun i : Fin us.length => N.resolve us[i].targetFilename)
    (hlinks : ∀ i j : Fin us.length, us[i].entry.type = entryHardlink → us[i].entry.dev.toNat = j → key i = key j)
    (hfs : FS.Keyed (fun i : Fin us.length => N.resolve us[i].targetFilename) key fs) :
    FS.Keyed (fun i : Fin us.length => N.resolve us[i].targetFilename) key fs' := by
  refine foldlM_inv (FS.Keyed (fun i : Fin us.length => N.resolve us[i].targetFilename) key) ?_ hfs h
  intro fs₁ u fs₂ hu hkeyed hwrite
  obtain ⟨k, hk, rfl⟩ := List.getElem_of_mem hu
  obtain ⟨a, hent, hcase⟩ := unpackWriteEntry_entered hwrite
  refine hkeyed.update hloc (k := ⟨k, hk⟩) hent fun i hi => ?_
  cases hcase with
  | new _ _ ha => exact absurd (fs₁.ent_lt hi) (by omega)
  | old _ hold => exact hkeyed i ⟨k, hk⟩ a hi hold
  | link ht he hname _ hsrc =>
    obtain ⟨v, hv, htarget⟩ := htargets _ _ _ he hname
    obtain ⟨hj, rfl⟩ := List.getElem?_eq_some_iff.1 hv
    have hkey := hlinks ⟨k, hk⟩ ⟨_, hj⟩ ht rfl
    rw [hkey]
    exact hkeyed i ⟨_, hj⟩ a hi (by simpa only [Fin.getElem_fin, htarget] using hsrc)

end

end Sfmf
