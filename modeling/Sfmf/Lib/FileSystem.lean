import Sfmf.Lib.Bytes

/-!
# A file system that is written

Locations are names of inodes (`ent`), and an inode is a directory, a file with its
content, a symlink, a device or a fifo. How a path gets to a location is a
parameter (`Naming`); `lexical` is the one that reads a path component by component.

* `Grows l fs fs'`: apart from the location `l`, from new inodes and from attributes
  nothing has changed. Every call that makes an entry does only that (`create_ok`,
  `link_ok`, `openWrite_vacant`), and stamps the directory it is made in.
* `SameTree fs fs'`: only attributes have changed (`chattr_ok`, `lchown_ok`).
* `Keyed.update`: names of one file have one key, if links are made between such.
* `resolve_append`: a path behind a path is resolved from where the first one leads.
* `Naming.Tree`: a naming that finds distinct locations for the paths below a
  directory, as `lexical` does (`lexical_tree`).
-/

namespace Sfmf

/-- What an inode is. -/
inductive Node where
  | directory
  | file (content : Bytes)
  | symlink (target : Bytes)
  | device (mode dev : UInt32)
  | fifo
  deriving DecidableEq, Repr

/-- Whether opening a path with this inode for writing opens the inode and nothing else. -/
def Node.isPlain : Node → Bool
  | .directory => true
  | .file _ => true
  | _ => false

/-- Owner, group, mode and modification time. -/
structure Attr where
  uid : UInt32
  gid : UInt32
  mode : UInt32
  mtime : UInt64
  deriving DecidableEq, Repr

/-- Why a call fails. -/
inductive Errno where
  | eexist
  | enoent
  | other
  deriving DecidableEq, Repr

/-- A file system: the inode at each location, and what the inodes are. Numbers from `next` on
are free; their attributes are those that inodes made there will have. -/
structure FS (Loc : Type) where
  ent : Loc → Option ℕ
  node : ℕ → Node
  attr : ℕ → Attr
  next : ℕ
  /-- the times at which entries will be made -/
  clock : ℕ → UInt64
  /-- which calls of `lchown` to come will clear the bits for set-user-ID and set-group-ID -/
  clears : ℕ → Bool
  ent_lt : ∀ {l i}, ent l = some i → i < next

/-- How paths name locations, and the location of a location's directory. -/
structure Naming (Loc : Type) where
  resolve : Bytes → Loc
  parent : Loc → Loc

namespace FS

variable {Loc : Type} (fs : FS Loc)

/-- What is at a location. -/
def nodeAt (l : Loc) : Option Node := (fs.ent l).map fs.node

/-- The content of the file at a location. -/
def contentAt (l : Loc) : Option Bytes :=
  match fs.nodeAt l with
  | some (.file b) => some b
  | _ => none

variable {fs} in
theorem contentAt_file {l : Loc} {b : Bytes} (h : fs.nodeAt l = some (.file b)) : fs.contentAt l = some b := by
  rw [contentAt, h]

/-- Replace what an inode is. -/
def setNode (i : ℕ) (n : Node) : FS Loc := { fs with node := Function.update fs.node i n }

/-- Replace the attributes of an inode. -/
def setAttr (i : ℕ) (a : Attr) : FS Loc := { fs with attr := Function.update fs.attr i a }

/-- `chmod`, of what is not a symlink, and `lutimes`: change attributes of the inode at a location. -/
def chattr (l : Loc) (f : Attr → Attr) : Except Errno (FS Loc) :=
  match fs.ent l with
  | none => .error .enoent
  | some i => .ok (fs.setAttr i (f (fs.attr i)))

/-- A mode without `S_ISUID` and `S_ISGID`. -/
def clearIds (mode : UInt32) : UInt32 := mode &&& ~~~0o6000

/-- `(uid_t)-1`, which leaves an owner or a group as it is. -/
def noId : UInt32 := 0xffffffff

/-- The owner or the group that `lchown` sets. -/
def newId (id old : UInt32) : UInt32 := if id = noId then old else id

/-- `lchown`: change the owner and the group of the inode at a location. -/
def lchown (l : Loc) (uid gid : UInt32) : Except Errno (FS Loc) :=
  match fs.ent l with
  | none => .error .enoent
  | some i =>
    let a := fs.attr i
    .ok { fs.setAttr i ⟨newId uid a.uid, newId gid a.gid, if fs.clears 0 then clearIds a.mode else a.mode, a.mtime⟩ with
          clears := fun n => fs.clears (n + 1) }

/-- The directory at a location has got an entry: its modification time is now. -/
def stamp (l : Loc) : FS Loc :=
  match fs.ent l with
  | none => fs
  | some i => { fs.setAttr i { fs.attr i with mtime := fs.clock 0 } with clock := fun n => fs.clock (n + 1) }

@[simp] theorem stamp_ent (l : Loc) : (fs.stamp l).ent = fs.ent := by
  unfold stamp
  split <;> rfl

@[simp] theorem stamp_node (l : Loc) : (fs.stamp l).node = fs.node := by
  unfold stamp
  split <;> rfl

@[simp] theorem stamp_next (l : Loc) : (fs.stamp l).next = fs.next := by
  unfold stamp
  split <;> rfl

/-! ## What a call leaves alone -/

variable {fs} {fs' fs'' : FS Loc}

/-- **Nothing but the entry at `l` is new**, and nothing old has changed. -/
structure Grows (l : Loc) (fs fs' : FS Loc) : Prop where
  ent : ∀ l', l' ≠ l → fs'.ent l' = fs.ent l'
  node : ∀ i < fs.next, fs'.node i = fs.node i
  next : fs.next ≤ fs'.next

theorem Grows.refl (l : Loc) (fs : FS Loc) : Grows l fs fs := ⟨fun _ _ => rfl, fun _ _ => rfl, le_rfl⟩

theorem Grows.nodeAt {l l' : Loc} (h : Grows l fs fs') (hl : l' ≠ l) : fs'.nodeAt l' = fs.nodeAt l' := by
  unfold FS.nodeAt
  rw [h.ent l' hl]
  cases he : fs.ent l' with
  | none => rfl
  | some i => simp [h.node i (fs.ent_lt he)]

/-- **Only attributes have changed.** -/
structure SameTree (fs fs' : FS Loc) : Prop where
  ent : fs'.ent = fs.ent
  node : fs'.node = fs.node

theorem SameTree.refl (fs : FS Loc) : SameTree fs fs := ⟨rfl, rfl⟩

theorem SameTree.trans (h : SameTree fs fs') (h' : SameTree fs' fs'') : SameTree fs fs'' :=
  ⟨h'.ent.trans h.ent, h'.node.trans h.node⟩

theorem SameTree.nodeAt (h : SameTree fs fs') (l : Loc) : fs'.nodeAt l = fs.nodeAt l := by
  unfold FS.nodeAt
  rw [h.ent, h.node]

theorem chattr_ok {l : Loc} {f : Attr → Attr} (h : fs.chattr l f = .ok fs') : SameTree fs fs' := by
  unfold chattr at h
  split at h
  · cases h
  · cases h; exact ⟨rfl, rfl⟩

theorem chattr_some {l : Loc} (f : Attr → Attr) (hl : fs.ent l ≠ none) : ∃ fs', fs.chattr l f = .ok fs' := by
  unfold chattr
  split
  · contradiction
  · exact ⟨_, rfl⟩

theorem lchown_ok {l : Loc} {uid gid : UInt32} (h : fs.lchown l uid gid = .ok fs') : SameTree fs fs' := by
  unfold lchown at h
  split at h
  · cases h
  · cases h; exact ⟨rfl, rfl⟩

theorem lchown_some {l : Loc} (uid gid : UInt32) (hl : fs.ent l ≠ none) : ∃ fs', fs.lchown l uid gid = .ok fs' := by
  unfold lchown
  split
  · contradiction
  · exact ⟨_, rfl⟩

/-- **What a call does to attributes**: those of one inode are others afterwards. -/
theorem chattr_attr {l : Loc} {f : Attr → Attr} (h : fs.chattr l f = .ok fs') :
    ∃ i, fs.ent l = some i ∧ fs'.attr = Function.update fs.attr i (f (fs.attr i)) := by
  unfold chattr at h
  split at h
  · cases h
  · rename_i i hi
    cases h
    exact ⟨i, hi, rfl⟩

theorem lchown_attr {l : Loc} {uid gid : UInt32} (h : fs.lchown l uid gid = .ok fs') :
    ∃ i mode, fs.ent l = some i ∧ fs'.attr = Function.update fs.attr i
      ⟨newId uid (fs.attr i).uid, newId gid (fs.attr i).gid, mode, (fs.attr i).mtime⟩ := by
  unfold lchown at h
  split at h
  · cases h
  · rename_i i hi
    cases h
    exact ⟨i, _, hi, rfl⟩

/-! ## Calls that make entries -/

variable [DecidableEq Loc]

section

variable (fs)

/-- Enter an inode at a location. -/
def enter (l : Loc) (i : ℕ) (hi : i < fs.next) : FS Loc where
  ent := Function.update fs.ent l (some i)
  node := fs.node
  attr := fs.attr
  next := fs.next
  clock := fs.clock
  clears := fs.clears
  ent_lt := by
    intro l' j hj
    by_cases h : l' = l
    · subst h; simp only [Function.update_self, Option.some.injEq] at hj; omega
    · rw [Function.update_of_ne h] at hj; exact fs.ent_lt hj

/-- A new inode, entered at a location. -/
def add (l : Loc) (n : Node) : FS Loc :=
  FS.enter { fs with node := Function.update fs.node fs.next n, next := fs.next + 1,
                     ent_lt := fun h => Nat.lt_succ_of_lt (fs.ent_lt h) } l fs.next (Nat.lt_succ_self _)

/-- A new inode, entered at a location of a directory. -/
def make (parent l : Loc) (n : Node) : FS Loc := (fs.add l n).stamp parent

/-- `mkdir`, `symlink`, `mknod` and `mkfifo`: make a new inode at a vacant location. -/
def create (parent l : Loc) (n : Node) : Except Errno (FS Loc) :=
  if (fs.ent l).isSome then .error .eexist
  else if fs.nodeAt parent = some .directory then .ok (fs.make parent l n)
  else .error .enoent

/-- `fopen(path, "wb")`: the inode that is written, a new one or an emptied one. A symlink, a fifo or a device that is
there already would be followed or opened; that is outside of this model, where the call fails. -/
def openWrite (parent l : Loc) : Except Errno (FS Loc × ℕ) :=
  match fs.ent l with
  | some i =>
    match fs.node i with
    | .file _ => .ok (fs.setNode i (.file []), i)
    | _ => .error .other
  | none =>
    if fs.nodeAt parent = some .directory then .ok (fs.make parent l (.file []), fs.next)
    else .error .enoent

/-- `link`: enter the inode at `src` once more. -/
def link (src parent l : Loc) : Except Errno (FS Loc) :=
  match h : fs.ent src with
  | none => .error .enoent
  | some i =>
    if fs.node i = .directory then .error .other
    else if (fs.ent l).isSome then .error .eexist
    else if fs.nodeAt parent = some .directory then .ok ((fs.enter l i (fs.ent_lt h)).stamp parent)
    else .error .enoent

end

theorem grows_make (parent l : Loc) (n : Node) : Grows l fs (fs.make parent l n) where
  ent l' hl := by simp [make, add, enter, Function.update_of_ne hl]
  node i hi := by simp [make, add, enter, Function.update_of_ne (Nat.ne_of_lt hi)]
  next := by simp [make, add, enter]

theorem nodeAt_make (parent l : Loc) (n : Node) : (fs.make parent l n).nodeAt l = some n := by
  simp [FS.nodeAt, make, add, enter]

theorem ent_make (parent l : Loc) (n : Node) : (fs.make parent l n).ent l = some fs.next := by
  simp [make, add, enter]

/-- **A call that makes an inode** makes it at a vacant location and leaves the rest alone. -/
theorem create_ok {parent l : Loc} {n : Node} (h : fs.create parent l n = .ok fs') :
    fs.ent l = none ∧ fs.nodeAt parent = some .directory ∧ fs'.nodeAt l = some n ∧ Grows l fs fs' := by
  unfold create at h
  split at h
  · cases h
  · rename_i hv
    split at h
    · rename_i hp
      cases h
      exact ⟨by simpa using hv, hp, nodeAt_make parent l n, grows_make parent l n⟩
    · cases h

theorem create_vacant {parent l : Loc} (n : Node) (hl : fs.ent l = none)
    (hp : fs.nodeAt parent = some .directory) : fs.create parent l n = .ok (fs.make parent l n) := by
  simp [create, hl, hp]

theorem create_eexist {parent l : Loc} {n : Node} (h : fs.create parent l n = .error .eexist) : fs.ent l ≠ none := by
  unfold create at h
  split at h
  · rename_i hv
    exact Option.isSome_iff_ne_none.1 hv
  · split at h <;> cases h

/-- A file opened at a vacant location is a new one. -/
theorem openWrite_vacant {parent l : Loc} (hl : fs.ent l = none) :
    fs.openWrite parent l = if fs.nodeAt parent = some .directory then .ok (fs.make parent l (.file []), fs.next)
      else .error .enoent := by
  unfold openWrite
  rw [hl]

/-- A directory cannot be opened for writing. -/
theorem openWrite_directory {parent l : Loc} (hl : fs.nodeAt l = some .directory) :
    fs.openWrite parent l = .error .other := by
  unfold FS.nodeAt at hl
  cases he : fs.ent l with
  | none => simp [he] at hl
  | some i =>
    have hn : fs.node i = .directory := by simpa [he] using hl
    simp [openWrite, he, hn]

/-- Filling the new file. -/
theorem grows_fill (parent l : Loc) (b : Bytes) :
    Grows l fs ((fs.make parent l (.file [])).setNode fs.next (.file b)) where
  ent l' hl := (grows_make parent l (.file [])).ent l' hl
  node i hi := by
    simpa [setNode, Function.update_of_ne (Nat.ne_of_lt hi)] using (grows_make parent l (.file [])).node i hi
  next := (grows_make parent l (.file [])).next

theorem ent_fill (parent l : Loc) (b : Bytes) :
    ((fs.make parent l (.file [])).setNode fs.next (.file b)).ent l = some fs.next := ent_make parent l (.file [])

theorem nodeAt_fill (parent l : Loc) (b : Bytes) :
    ((fs.make parent l (.file [])).setNode fs.next (.file b)).nodeAt l = some (.file b) := by
  simp [FS.nodeAt, setNode, make, add, enter]

/-- **A hard link** is one more entry of the same inode. -/
theorem link_ok {src parent l : Loc} (h : fs.link src parent l = .ok fs') :
    fs.ent l = none ∧ Grows l fs fs' ∧ ∃ i, fs.ent src = some i ∧ fs'.ent l = some i ∧ fs'.ent src = some i := by
  unfold link at h
  split at h
  · cases h
  rename_i i hi
  split at h
  · cases h
  split at h
  · cases h
  rename_i hv
  split at h
  · cases h
    have hv : fs.ent l = none := by simpa using hv
    have hne : src ≠ l := by rintro rfl; simp [hi] at hv
    exact ⟨hv, ⟨fun l' hl => by simp [enter, Function.update_of_ne hl], fun _ _ => by simp [enter], by simp [enter]⟩,
      i, hi, by simp [enter], by simp [enter, Function.update_of_ne hne, hi]⟩
  · cases h

/-- What is linked is not a directory. -/
theorem link_node {src parent l : Loc} {i : ℕ} (h : fs.link src parent l = .ok fs') (hs : fs.ent src = some i) :
    fs'.node i ≠ .directory := by
  unfold link at h
  split at h
  · cases h
  rename_i j hj
  have hji : j = i := Option.some.inj (hj.symm.trans hs)
  subst hji
  split at h
  · cases h
  rename_i hd
  split at h
  · cases h
  split at h
  · cases h; simpa [enter] using hd
  · cases h

theorem link_vacant {src parent l : Loc} {i : ℕ} (hs : fs.ent src = some i) (hd : fs.node i ≠ .directory)
    (hl : fs.ent l = none) (hp : fs.nodeAt parent = some .directory) :
    ∃ fs', fs.link src parent l = .ok fs' := by
  unfold link
  split
  · rename_i h; simp [hs] at h
  · rename_i j hj
    have hji : j = i := Option.some.inj (hj.symm.trans hs)
    subst hji
    simp [hd, hl, hp]

/-- A file system with one directory. -/
def oneDirectory (l : Loc) : FS Loc :=
  (FS.mk (fun _ => none) (fun _ => .directory) (fun _ => ⟨0, 0, 0, 0⟩) 0 (fun _ => 0) (fun _ => true) (by simp)).make
    l l .directory

@[simp] theorem oneDirectory_self (l : Loc) : (oneDirectory l).nodeAt l = some .directory := nodeAt_make l l .directory

theorem oneDirectory_other {l l' : Loc} (h : l' ≠ l) : (oneDirectory l).ent l' = none :=
  (grows_make l l .directory).ent l' h

/-- A file that was opened for writing is there. -/
theorem openWrite_ent {parent l : Loc} {i : ℕ} (h : fs.openWrite parent l = .ok (fs', i)) : fs'.ent l = some i := by
  unfold openWrite at h
  split at h
  · rename_i j hj
    split at h
    · cases h; exact hj
    · cases h
  · split at h
    · cases h; exact ent_make parent l (.file [])
    · cases h

omit [DecidableEq Loc] in
theorem contentAt_fill {l : Loc} {i : ℕ} (h : fs.ent l = some i) (b : Bytes) :
    (fs.setNode i (.file b)).contentAt l = some b := by
  simp [contentAt, FS.nodeAt, setNode, h]

/-! ## Which inode is entered -/

theorem create_ent {parent l : Loc} {n : Node} (h : fs.create parent l n = .ok fs') :
    fs.ent l = none ∧ fs'.ent = Function.update fs.ent l (some fs.next) := by
  unfold create at h
  split at h
  · cases h
  · rename_i hv
    split at h
    · cases h
      exact ⟨by simpa using hv, by simp [make, add, enter]⟩
    · cases h

theorem openWrite_entered {parent l : Loc} {i : ℕ} (h : fs.openWrite parent l = .ok (fs', i)) :
    fs'.ent = Function.update fs.ent l (some i) ∧ (fs.ent l = some i ∨ fs.ent l = none ∧ i = fs.next) := by
  unfold openWrite at h
  split at h
  · rename_i j hj
    split at h
    · cases h
      refine ⟨?_, .inl hj⟩
      rw [← hj, Function.update_eq_self]
      rfl
    · cases h
  · rename_i hv
    split at h
    · cases h
      exact ⟨by simp [make, add, enter], .inr ⟨hv, rfl⟩⟩
    · cases h

theorem link_ent {src parent l : Loc} (h : fs.link src parent l = .ok fs') :
    ∃ i, fs.ent src = some i ∧ fs.ent l = none ∧ fs'.ent = Function.update fs.ent l (some i) := by
  unfold link at h
  split at h
  · cases h
  rename_i i hi
  split at h
  · cases h
  split at h
  · cases h
  rename_i hv
  split at h
  · cases h
    exact ⟨i, hi, by simpa using hv, by simp [enter]⟩
  · cases h

/-- **The names of a file have one key**: of these locations, those with the same inode do. -/
def Keyed {ι α : Type} (loc : ι → Loc) (key : ι → α) (fs : FS Loc) : Prop :=
  ∀ i j a, fs.ent (loc i) = some a → fs.ent (loc j) = some a → key i = key j

/-- An inode is entered that the names with its key have, or none. -/
theorem Keyed.update {ι α : Type} {loc : ι → Loc} {key : ι → α} (h : Keyed loc key fs) (hloc : Function.Injective loc)
    {k : ι} {a : ℕ} (hent : fs'.ent = Function.update fs.ent (loc k) (some a))
    (hk : ∀ i, fs.ent (loc i) = some a → key i = key k) : Keyed loc key fs' := by
  have hother : ∀ {i : ι}, i ≠ k → fs'.ent (loc i) = fs.ent (loc i) := fun hi => by
    rw [hent, Function.update_of_ne (hloc.ne hi)]
  have hself : fs'.ent (loc k) = some a := by rw [hent, Function.update_self]
  have hnew : ∀ i b, fs'.ent (loc i) = some b → fs'.ent (loc k) = some b → key i = key k := by
    intro i b hi hb
    rw [hself, Option.some.injEq] at hb
    subst hb
    by_cases hik : i = k
    · rw [hik]
    · exact hk i (by rw [← hother hik, hi])
  intro i j b hi hj
  by_cases hik : i = k
  · subst hik
    exact (hnew j b hj hi).symm
  by_cases hjk : j = k
  · subst hjk
    exact hnew i b hi hj
  · exact h i j b (by rw [← hother hik, hi]) (by rw [← hother hjk, hj])

end FS

/-! ## Paths, component by component -/

/-- `/`. -/
def slash : UInt8 := 0x2f

/-- `.`. -/
def dot : UInt8 := 0x2e

/-- The parts of a path between slashes. -/
def components : Bytes → List Bytes
  | [] => [[]]
  | c :: cs =>
    if c = slash then [] :: components cs
    else
      match components cs with
      | [] => [[c]]
      | p :: ps => (c :: p) :: ps

/-- Follow one component. -/
def follow (l : List Bytes) (c : Bytes) : List Bytes :=
  if c = [] ∨ c = [dot] then l
  else if c = [dot, dot] then l.dropLast
  else l ++ [c]

/-- The location of a path, in a process with this working directory. -/
def resolve (cwd : List Bytes) (path : Bytes) : List Bytes :=
  (components path).foldl follow (if path.head? = some slash then [] else cwd)

/-- Paths without symlinks on the way. -/
def lexical (cwd : List Bytes) : Naming (List Bytes) where
  resolve := resolve cwd
  parent := List.dropLast

theorem components_ne_nil (p : Bytes) : components p ≠ [] := by
  cases p with
  | nil => simp [components]
  | cons c cs =>
    unfold components
    split
    · simp
    · cases components cs <;> simp

theorem components_append (a b : Bytes) : components (a ++ slash :: b) = components a ++ components b := by
  induction a with
  | nil => simp [components]
  | cons c cs ih =>
    by_cases hc : c = slash
    · simp [components, hc, ih]
    · obtain ⟨p, ps, hp⟩ := List.exists_cons_of_ne_nil (components_ne_nil cs)
      simp [components, hc, ih, hp]

/-- **A path behind a path** is resolved from where the first one leads. -/
theorem resolve_append (cwd : List Bytes) {a : Bytes} (ha : a ≠ []) (b : Bytes) :
    resolve cwd (a ++ slash :: b) = (components b).foldl follow (resolve cwd a) := by
  obtain ⟨c, cs, rfl⟩ := List.exists_cons_of_ne_nil ha
  unfold resolve
  rw [components_append, List.foldl_append]
  rfl

/-! ## Trees below a directory -/

/-- A name of an entry of a directory. -/
def Component (c : Bytes) : Prop := c ≠ [] ∧ slash ∉ c ∧ c ≠ [dot] ∧ c ≠ [dot, dot]

instance (c : Bytes) : Decidable (Component c) := by unfold Component; infer_instance

/-- The path behind a directory that leads through these names. -/
def pathOf (cs : List Bytes) : Bytes := cs.flatMap (slash :: ·)

@[simp] theorem pathOf_nil : pathOf [] = [] := rfl

theorem pathOf_append (cs : List Bytes) (c : Bytes) : pathOf (cs ++ [c]) = pathOf cs ++ slash :: c := by
  simp [pathOf]

/-- **A naming of a tree**: the paths below a directory name distinct locations, each of them in the one
before it. -/
structure Naming.Tree {Loc : Type} (N : Naming Loc) (dir : Bytes) (place : List Bytes → Loc) : Prop where
  inj : Function.Injective place
  root : N.resolve (dir ++ [slash]) = place []
  resolve : ∀ cs, cs ≠ [] → (∀ c ∈ cs, Component c) → N.resolve (dir ++ pathOf cs) = place cs
  parent : ∀ cs c, N.parent (place (cs ++ [c])) = place cs

theorem components_of_not_mem {c : Bytes} (h : slash ∉ c) : components c = [c] := by
  induction c with
  | nil => rfl
  | cons b c ih =>
    obtain ⟨hb, hc⟩ := not_or.1 (mt List.mem_cons.2 h)
    rw [components, if_neg (Ne.symm hb), ih hc]

theorem follow_component {c : Bytes} (h : Component c) (l : List Bytes) : follow l c = l ++ [c] := by
  obtain ⟨hne, _, hdot, hdots⟩ := h
  rw [follow, if_neg (not_or.2 ⟨hne, hdot⟩), if_neg hdots]

/-- **Names lead down.** -/
theorem resolve_pathOf (cwd : List Bytes) {dir : Bytes} (hdir : dir ≠ []) {cs : List Bytes}
    (h : ∀ c ∈ cs, Component c) : resolve cwd (dir ++ pathOf cs) = resolve cwd dir ++ cs := by
  induction cs using List.reverseRecOn with
  | nil => simp
  | append_singleton cs c ih =>
    have hc : Component c := h c (by simp)
    have hne : dir ++ pathOf cs ≠ [] := by simp [hdir]
    rw [pathOf_append, ← List.append_assoc, resolve_append cwd hne, components_of_not_mem hc.2.1,
      ih fun c hc => h c (List.mem_append_left _ hc), List.foldl_cons, List.foldl_nil, follow_component hc,
      List.append_assoc]

/-- Paths without symlinks on the way name a tree below any directory. -/
theorem lexical_tree (cwd : List Bytes) {dir : Bytes} (hdir : dir ≠ []) :
    (lexical cwd).Tree dir (resolve cwd dir ++ ·) where
  inj := List.append_right_injective _
  root := (resolve_append cwd hdir []).trans (by simp [components, follow])
  resolve cs _ h := resolve_pathOf cwd hdir h
  parent cs c := by simp [lexical, ← List.append_assoc]

end Sfmf
