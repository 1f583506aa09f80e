import Sfmf.Lib.FileSystem

/-!
# What a program can change of a file system

A program that makes entries at some locations only, its targets, and changes contents and
attributes only through them, leaves the rest of the file system alone.

* `FS.Confined N T fs fs'`: apart from what the targets `T` name, nothing has changed but the times
  of the directories that they are in.
* `Confined.trans`: so it is of a run if it is of each step, and `Confined.create`, `Confined.openWrite`,
  `Confined.link`, `Confined.chattr` and `Confined.lchown` are the steps.
-/

namespace Sfmf.FS

variable {Loc : Type} {N : Naming Loc} {T : Loc → Prop} {fs fs' fs'' : FS Loc}

/-- An inode that has a name among these locations. -/
def Named (T : Loc → Prop) (fs : FS Loc) (i : ℕ) : Prop := ∃ l, T l ∧ fs.ent l = some i

/-- The directories that these locations are in. -/
def Parents (N : Naming Loc) (T : Loc → Prop) (l : Loc) : Prop := ∃ t, T t ∧ N.parent t = l

/-- **What has changed is confined to the targets**: old entries are kept, and new ones are made at targets. Of old
inodes, only files that a target names have another content, and other attributes have only the inodes that a target
names, and directories that a target is in, as for their times. -/
structure Confined (N : Naming Loc) (T : Loc → Prop) (fs fs' : FS Loc) : Prop where
  kept : ∀ {l i}, fs.ent l = some i → fs'.ent l = some i
  ent : ∀ {l}, ¬ T l → fs'.ent l = fs.ent l
  /-- what a target names is new, or a target has named it before -/
  named : ∀ {i}, i < fs.next → Named T fs' i → Named T fs i
  next : fs.next ≤ fs'.next
  node : ∀ {i}, i < fs.next → fs'.node i = fs.node i ∨
    Named T fs i ∧ (∃ b, fs.node i = .file b) ∧ ∃ b, fs'.node i = .file b
  attr : ∀ {i}, i < fs.next → fs'.attr i = fs.attr i ∨ Named T fs i ∨
    Named (Parents N T) fs i ∧ ∃ time, fs'.attr i = { fs.attr i with mtime := time }

theorem Confined.refl (N : Naming Loc) (T : Loc → Prop) (fs : FS Loc) : Confined N T fs fs :=
  ⟨id, fun _ => rfl, fun _ => id, le_rfl, fun _ => .inl rfl, fun _ => .inl rfl⟩

/-- An old directory that a target is in was that before. -/
theorem Confined.parents (h : Confined N T fs fs') {i : ℕ} (hi : i < fs.next) (hp : Named (Parents N T) fs' i) :
    Named T fs i ∨ Named (Parents N T) fs i := by
  obtain ⟨l, hl, he⟩ := hp
  by_cases ht : T l
  · exact .inl (h.named hi ⟨l, ht, he⟩)
  · rw [h.ent ht] at he
    exact .inr ⟨l, hl, he⟩

/-- **Runs are confined if their steps are.** -/
theorem Confined.trans (h : Confined N T fs fs') (h' : Confined N T fs' fs'') : Confined N T fs fs'' where
  kept he := h'.kept (h.kept he)
  ent hl := (h'.ent hl).trans (h.ent hl)
  named hi hn := h.named hi (h'.named (hi.trans_le h.next) hn)
  next := h.next.trans h'.next
  node {i} hi := by
    have hi' : i < fs'.next := hi.trans_le h.next
    rcases h'.node hi' with heq | ⟨hn, ⟨b, hb⟩, hfile⟩
    · rw [heq]
      exact h.node hi
    · refine .inr ⟨h.named hi hn, ?_, hfile⟩
      rcases h.node hi with heq | ⟨-, hold, -⟩
      · exact ⟨b, heq.symm.trans hb⟩
      · exact hold
  attr {i} hi := by
    have hi' : i < fs'.next := hi.trans_le h.next
    rcases h'.attr hi' with heq' | hn | ⟨hp, time', htime'⟩
    · rw [heq']
      exact h.attr hi
    · exact .inr (.inl (h.named hi hn))
    · rcases h.parents hi hp with hn | hp
      · exact .inr (.inl hn)
      rcases h.attr hi with heq | hn | ⟨-, time, htime⟩
      · exact .inr (.inr ⟨hp, time', by rw [htime', heq]⟩)
      · exact .inr (.inl hn)
      · exact .inr (.inr ⟨hp, time', by rw [htime', htime]⟩)

/-- What is confined to some locations is confined to more of them. -/
theorem Confined.mono {T' : Loc → Prop} (h : Confined N T fs fs') (hT : ∀ l, T l → T' l) : Confined N T' fs fs' := by
  have hnamed : ∀ {i : ℕ}, Named T fs i → Named T' fs i := fun ⟨l, hl, he⟩ => ⟨l, hT l hl, he⟩
  refine ⟨h.kept, fun hl => h.ent fun ht => hl (hT _ ht), fun {i} hi => ?_, h.next, fun hi => ?_, fun hi => ?_⟩
  · rintro ⟨l, hl, he⟩
    by_cases ht : T l
    · exact hnamed (h.named hi ⟨l, ht, he⟩)
    · exact ⟨l, hl, (h.ent ht).symm.trans he⟩
  · exact (h.node hi).imp_right fun ⟨hn, hfile⟩ => ⟨hnamed hn, hfile⟩
  · refine (h.attr hi).imp_right fun hchanged => hchanged.imp hnamed ?_
    rintro ⟨⟨l, ⟨t, ht, hp⟩, he⟩, htime⟩
    exact ⟨⟨l, ⟨t, hT t ht, hp⟩, he⟩, htime⟩

/-- Attributes of what a target names are set. -/
theorem Confined.setAttr {i : ℕ} (hi : Named T fs i) (a : Attr) : Confined N T fs (fs.setAttr i a) where
  kept := id
  ent _ := rfl
  named _ := id
  next := le_rfl
  node _ := .inl rfl
  attr {j} _ := by
    by_cases hj : j = i
    · subst hj
      exact .inr (.inl hi)
    · exact .inl (Function.update_of_ne hj _ _)

theorem Confined.chattr {l : Loc} {f : Attr → Attr} (hl : T l) (h : fs.chattr l f = .ok fs') : Confined N T fs fs' := by
  unfold FS.chattr at h
  split at h
  · cases h
  · rename_i i hi
    cases h
    exact .setAttr ⟨l, hl, hi⟩ _

theorem Confined.lchown {l : Loc} {uid gid : UInt32} (hl : T l) (h : fs.lchown l uid gid = .ok fs') :
    Confined N T fs fs' := by
  unfold FS.lchown at h
  split at h
  · cases h
  · rename_i i hi
    cases h
    have hset := Confined.setAttr (N := N) ⟨l, hl, hi⟩ ⟨newId uid (fs.attr i).uid, newId gid (fs.attr i).gid,
      if fs.clears 0 then clearIds (fs.attr i).mode else (fs.attr i).mode, (fs.attr i).mtime⟩
    exact ⟨hset.kept, hset.ent, hset.named, hset.next, hset.node, hset.attr⟩

/-- The directory of a target gets another time. -/
theorem Confined.stamp {l : Loc} (hl : T l) : Confined N T fs (fs.stamp (N.parent l)) := by
  unfold FS.stamp
  split
  · exact .refl N T fs
  · rename_i i hi
    refine ⟨id, fun _ => rfl, fun _ => id, le_rfl, fun _ => .inl rfl, fun {j} _ => ?_⟩
    by_cases hj : j = i
    · subst hj
      exact .inr (.inr ⟨⟨_, ⟨l, hl, rfl⟩, hi⟩, fs.clock 0, Function.update_self ..⟩)
    · exact .inl (Function.update_of_ne hj _ _)

/-- The content of a file that a target names is replaced. -/
theorem Confined.setNode {i : ℕ} (hi : Named T fs i) {b : Bytes} (hb : fs.node i = .file b) (b' : Bytes) :
    Confined N T fs (fs.setNode i (.file b')) where
  kept := id
  ent _ := rfl
  named _ := id
  next := le_rfl
  node {j} _ := by
    by_cases hj : j = i
    · subst hj
      exact .inr ⟨hi, ⟨b, hb⟩, b', Function.update_self ..⟩
    · exact .inl (Function.update_of_ne hj _ _)
  attr _ := .inl rfl

variable [DecidableEq Loc]

/-- An inode that is new, or that a target has named, is entered at a vacant target. -/
theorem Confined.entered {l : Loc} {i : ℕ} (hl : T l) (hv : fs.ent l = none) (hi : i < fs.next → Named T fs i)
    (hent : fs'.ent = Function.update fs.ent l (some i)) (hnext : fs.next ≤ fs'.next)
    (hnode : ∀ j < fs.next, fs'.node j = fs.node j) (hattr : fs'.attr = fs.attr) : Confined N T fs fs' := by
  have hother : ∀ {l'}, l' ≠ l → fs'.ent l' = fs.ent l' := fun hne => by rw [hent, Function.update_of_ne hne]
  refine ⟨fun {l' j} he => ?_, fun {l'} hl' => ?_, fun {j} hj => ?_, hnext, fun hj => .inl (hnode _ hj),
    fun _ => .inl (congrFun hattr _)⟩
  · have hne : l' ≠ l := by
      rintro rfl
      rw [hv] at he
      cases he
    exact (hother hne).trans he
  · refine hother ?_
    rintro rfl
    exact hl' hl
  · rintro ⟨l', hl', he⟩
    by_cases hne : l' = l
    · rw [hne, hent, Function.update_self, Option.some.injEq] at he
      subst he
      exact hi hj
    · exact ⟨l', hl', (hother hne).symm.trans he⟩

/-- A new inode is made at a vacant target. -/
theorem Confined.make {l : Loc} (hl : T l) (hv : fs.ent l = none) (n : Node) :
    Confined N T fs (fs.make (N.parent l) l n) := by
  have hadd : Confined N T fs (fs.add l n) :=
    .entered hl hv (fun h => absurd h (lt_irrefl _)) rfl (Nat.le_succ _)
      (fun j hj => Function.update_of_ne (Nat.ne_of_lt hj) _ _) rfl
  exact hadd.trans (.stamp hl)

theorem Confined.create {l : Loc} {n : Node} (hl : T l) (h : fs.create (N.parent l) l n = .ok fs') :
    Confined N T fs fs' := by
  have hv := (create_ok h).1
  unfold FS.create at h
  split at h
  · cases h
  · split at h
    · cases h
      exact .make hl hv n
    · cases h

/-- A target that is opened for writing, and then filled. -/
theorem Confined.openWrite {l : Loc} {i : ℕ} (hl : T l) (h : fs.openWrite (N.parent l) l = .ok (fs', i)) (b : Bytes) :
    Confined N T fs (fs'.setNode i (.file b)) := by
  have hopen : Confined N T fs fs' ∧ fs'.node i = .file [] := by
    cases he : fs.ent l with
    | none =>
      rw [openWrite_vacant he] at h
      split at h
      · cases h
        exact ⟨.make hl he _, by simp [FS.make, add, FS.enter]⟩
      · cases h
    | some j =>
      unfold FS.openWrite at h
      rw [he] at h
      simp only at h
      split at h
      · rename_i b hb
        cases h
        exact ⟨.setNode ⟨l, hl, he⟩ hb [], Function.update_self ..⟩
      · cases h
  exact hopen.1.trans (.setNode ⟨l, hl, openWrite_ent h⟩ hopen.2 b)

/-- What a target names is linked to another target. -/
theorem Confined.link {src l : Loc} (hsrc : T src) (hl : T l) (h : fs.link src (N.parent l) l = .ok fs') :
    Confined N T fs fs' := by
  have hv := (link_ok h).1
  unfold FS.link at h
  split at h
  · cases h
  rename_i i hi
  split at h
  · cases h
  split at h
  · cases h
  split at h
  · cases h
    have henter : Confined N T fs (fs.enter l i (fs.ent_lt hi)) :=
      .entered hl hv (fun _ => ⟨src, hsrc, hi⟩) rfl le_rfl (fun _ _ => rfl) rfl
    exact henter.trans (.stamp hl)
  · cases h

end Sfmf.FS
